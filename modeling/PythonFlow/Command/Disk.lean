import PythonFlow.Command.Files

/-!
# A small file system

Files, directories and links below one directory, which is the working directory. Nothing outside of
it can be reached.
-/

set_option autoImplicit false

namespace PythonFlow.Command

abbrev Location := List String

inductive Entry where
  /-- A file, with its text if it has one. -/
  | file (text : Option String)
  | directory
  | link (target : String)
deriving DecidableEq, Repr

abbrev Disk := List (Location × Entry)

namespace Disk

def entry? (d : Disk) (l : Location) : Option Entry :=
  if l.isEmpty then some .directory else d.lookup l

/-- The steps that a path asks for. A slash at the end asks for a directory. -/
def steps (path : String) : List String :=
  let pieces := Path.pieces path
  let named := pieces.filter (· != "")
  if path.endsWith "/" then named ++ ["."] else named

def linkLimit : Nat := 40

/-- Goes from a directory along the steps, with as many links left to follow as given. A link at the
very end is followed if `last` says so. -/
def follow (d : Disk) (last : Bool) (links : Nat) (here : Location) (steps : List String) :
    Except FileError (Location × Entry) :=
  match steps with
  | [] => .ok (here, .directory)
  | step :: rest =>
    if step = "." then follow d last links here rest
    else if step = ".." then
      if here.isEmpty then .error .notFound else follow d last links here.dropLast rest
    else if 255 < step.utf8ByteSize then .error .nameTooLong
    else
      let there := here ++ [step]
      match d.entry? there with
      | none => .error .notFound
      | some .directory => follow d last links there rest
      | some (.file text) => if rest.isEmpty then .ok (there, .file text) else .error .notDirectory
      | some (.link target) =>
        if rest.isEmpty && !last then .ok (there, .link target)
        else
          match links with
          | 0 => .error .linkLoop
          | links + 1 =>
            if target.startsWith "/" || target.isEmpty then .error .notFound
            else follow d last links here (Disk.steps target ++ rest)
termination_by (links, steps.length)

def find (d : Disk) (path : String) (last : Bool) : Except FileError (Location × Entry) :=
  if path.startsWith "/" || path.isEmpty then .error .notFound
  else d.follow last linkLimit [] (steps path)

def read (d : Disk) (path : String) : Except FileError String :=
  match d.find path true with
  | .error e => .error e
  | .ok (_, .file (some text)) => .ok text
  | .ok (_, .file none) => .error .notUtf8
  | .ok _ => .error .isDirectory

def below (directory : Location) (l : Location) : Option (List String) :=
  if directory.isPrefixOf l then some (l.drop directory.length) else none

def filesBelow (d : Disk) (directory : Location) (path : String) : List String :=
  d.filterMap fun (l, e) =>
    match e, below directory l with
    | .file _, some (name :: rest) => some ((name :: rest).foldl Path.join path)
    | _, _ => none

def walk (d : Disk) (path : String) : List (Except WalkError String) :=
  match d.find path false with
  | .error e => [.error ⟨path, e⟩]
  | .ok (_, .file _) => [.ok path]
  | .ok (l, .directory) => (d.filesBelow l path).map .ok
  | .ok (_, .link _) =>
    match d.find path true with
    | .error e => [.error ⟨path, e⟩]
    | .ok (l, .directory) => (d.filesBelow l path).map .ok
    | .ok _ => []

def files (d : Disk) : Files Id := ⟨d.read, d.walk⟩

end Disk
end PythonFlow.Command
