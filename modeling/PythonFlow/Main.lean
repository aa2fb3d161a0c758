import PythonFlow.Command.Run

/-!
# The program

Runs a command line on the files of the system.
-/

set_option autoImplicit false

namespace PythonFlow.Command

def errorNumber (code : UInt32) : Nat := min code.toNat (Nat.pow 2 32 - code.toNat)

def fileError : IO.Error → FileError
  | .noFileOrDirectory .. => .notFound
  | .inappropriateType _ code _ => if errorNumber code = 21 then .isDirectory else .notDirectory
  | .invalidArgument _ code _ => if errorNumber code = 40 then .linkLoop else .nameTooLong
  | _ => .denied

def readSystem (path : String) : IO (Except FileError String) := do
  try
    match String.fromUTF8? (← IO.FS.readBinFile path) with
    | some text => return .ok text
    | none => return .error .notUtf8
  catch e => return .error (fileError e)

/-- Looks at or below a path. A link is followed only if `follow` says so. -/
partial def walkSystem (follow : Bool) (path : String) : IO (List (Except WalkError String)) := do
  try
    let root := (IO.FS.DirEntry.mk path "").root
    match (← root.symlinkMetadata).type with
    | .file => return [.ok path]
    | .dir => walkEntries root path
    | .symlink =>
      if follow then
        if (← root.metadata).type == .dir then walkEntries root path else return []
      else return []
    | .other => return []
  catch e => return [.error ⟨path, fileError e⟩]
where
  walkEntries root path := do
    let mut found := []
    for e in ← root.readDir do
      found := found ++ (← walkSystem false (Path.join path e.fileName))
    return found

def systemFiles : Files IO := ⟨readSystem, walkSystem true⟩

end PythonFlow.Command

open PythonFlow.Command in
def main (args : List String) : IO UInt32 := do
  let (a, log) ← run systemFiles args
  for line in log do
    IO.eprintln line
  match a.error with
  | some e => IO.eprintln ("Error: " ++ e)
  | none => pure ()
  IO.print a.output
  return a.status.toUInt32
