/-!
# Paths of files

A path is a text whose parts are separated by slashes. Empty parts do not count, and a dot counts
only at the beginning. Paths are ordered part by part.
-/

set_option autoImplicit false

namespace PythonFlow.Command

inductive PathPart where
  | root | here | parent
  | name (name : String)
deriving DecidableEq, Repr

namespace PathPart

def rank : PathPart → Nat
  | root => 0
  | here => 1
  | parent => 2
  | name _ => 3

def compare (a b : PathPart) : Ordering :=
  match a, b with
  | name s, name t => Ord.compare s t
  | _, _ => Ord.compare a.rank b.rank

def ofText (s : String) : PathPart := if s = ".." then parent else name s

end PathPart

namespace Path

def pieces (path : String) : List String := (path.toList.splitOn '/').map String.ofList

def parts (path : String) : List PathPart :=
  let named := ((pieces path).filter fun s => s != "" && s != ".").map PathPart.ofText
  match pieces path with
  | "" :: _ :: _ => .root :: named
  | "." :: _ => .here :: named
  | _ => named

def compareParts : List PathPart → List PathPart → Ordering
  | [], [] => .eq
  | [], _ :: _ => .lt
  | _ :: _, [] => .gt
  | a :: as, b :: bs => (a.compare b).then (compareParts as bs)

def compare (a b : String) : Ordering := compareParts (parts a) (parts b)

/-- Paths of the same parts keep their order. -/
def sort (paths : List String) : List String := paths.mergeSort fun a b => (compare a b).isLE

/-- Sorting neither loses a path nor adds one. -/
theorem sort_perm (paths : List String) : (sort paths).Perm paths := List.mergeSort_perm _ _

/-- What follows the last dot of a file's name, if anything comes before the dot. -/
def extension (path : String) : Option String :=
  match (parts path).getLast? with
  | some (.name s) =>
    let cs := s.toList.reverse
    match cs.dropWhile (· != '.') with
    | _ :: _ :: _ => some (String.ofList (cs.takeWhile (· != '.')).reverse)
    | _ => none
  | _ => none

def isPython (path : String) : Bool := extension path == some "py"

def join (directory name : String) : String :=
  if directory.endsWith "/" then directory ++ name else directory ++ "/" ++ name

end Path
end PythonFlow.Command
