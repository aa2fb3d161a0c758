import PythonFlow.Command.Path
import PythonFlow.FileError

/-!
# Files that a command reads

The command asks two things of a file system: the text of a file, and the files below a path.
-/

set_option autoImplicit false

namespace PythonFlow.Command

structure WalkError where
  path : String
  error : FileError

def WalkError.message (e : WalkError) : String :=
  "IO error for operation on " ++ e.path ++ ": " ++ e.error.message

structure Files (m : Type → Type) where
  read : String → m (Except FileError String)
  /-- The regular files at or below a path, in any order. Links below it are not followed; the path
  itself may be a link to a directory. -/
  walk : String → m (List (Except WalkError String))

end PythonFlow.Command
