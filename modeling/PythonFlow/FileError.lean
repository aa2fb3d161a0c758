/-!
# Files that cannot be read
-/

set_option autoImplicit false

namespace PythonFlow

inductive FileError where
  | notFound
  | isDirectory
  /-- A part of the path that is no directory. -/
  | notDirectory
  | linkLoop
  | nameTooLong
  | notUtf8
  | denied
deriving DecidableEq, Repr

namespace FileError

def system : FileError → Option (Nat × String × String)
  | notFound => some (2, "NotFound", "No such file or directory")
  | isDirectory => some (21, "IsADirectory", "Is a directory")
  | notDirectory => some (20, "NotADirectory", "Not a directory")
  | linkLoop => some (40, "FilesystemLoop", "Too many levels of symbolic links")
  | nameTooLong => some (36, "InvalidFilename", "File name too long")
  | denied => some (13, "PermissionDenied", "Permission denied")
  | notUtf8 => none

def notUtf8Text : String := "stream did not contain valid UTF-8"

def message (e : FileError) : String :=
  match e.system with
  | some (code, _, text) => text ++ " (os error " ++ toString code ++ ")"
  | none => notUtf8Text

def debug (e : FileError) : String :=
  match e.system with
  | some (code, kind, text) =>
    "Os \x7b code: " ++ toString code ++ ", kind: " ++ kind ++ ", message: \"" ++ text ++ "\" \x7d"
  | none => "Error \x7b kind: InvalidData, message: \"" ++ notUtf8Text ++ "\" \x7d"

end FileError
end PythonFlow
