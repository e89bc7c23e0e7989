import DecimalMachine.Text.Quoted
/-
  Files: paths, and a table of the files and directories that a command can see. Writing puts a
  file into the table and keeps a record of what was written.
-/
namespace DecimalMachine.CommandLine

/-- The names on the way from the root to a file or directory. -/
abbrev Route := List String

inductive Node
  | directory
  | file (content : List UInt8)

/-- Why a path leads to nothing that can be used. -/
inductive PathFault
  | missing
  | notDirectory
  | isDirectory
  | nameTooLong
deriving DecidableEq

/-- The number and the wording of a fault, and the path. -/
def PathFault.message (f : PathFault) (path : String) : String :=
  let (number, text) : Nat × String := match f with
    | .missing => (2, "No such file or directory")
    | .notDirectory => (20, "Not a directory")
    | .isDirectory => (21, "Is a directory")
    | .nameTooLong => (36, "File name too long")
  let quoted := String.ofList (Text.quote path.toList)
  s!"[Errno {number}] {text}: {quoted}"

/-! ## Paths -/

/-- The parts of a path between its slashes. -/
def pathParts (path : String) : List String :=
  (path.toList.splitOnP (· == '/')).map String.ofList

/-- No path can have the character zero in it. -/
def isBroken (path : String) : Bool := path.toList.contains '\x00'

def isAbsolute (path : String) : Bool := path.toList.head? = some '/'

/-- The slashes that an absolute path begins with: one, or two if there are exactly two. -/
def rootOf (path : String) : String :=
  match (path.toList.takeWhile (· = '/')).length with
  | 0 => ""
  | 2 => "//"
  | _ => "/"

/-- The names of a path; empty ones and single dots are left out. -/
def pathNames (path : String) : List String :=
  (pathParts path).filter fun s => !s.isEmpty && s ≠ "."

/-- A root and names as a path. -/
def joinPath (root : String) (names : List String) : String :=
  if root.isEmpty && names.isEmpty then "." else root ++ "/".intercalate names

/-- A path in its plain form, without empty names and single dots. -/
def plainPath (path : String) : String := joinPath (rootOf path) (pathNames path)

/-- The last name of a path. -/
def fileName (path : String) : String := ((pathNames path).getLast?).getD ""

/-- A name without its extension: what follows its last dot, unless the dot begins or ends the
    name. -/
def stem (name : List Char) : List Char :=
  let extension := name.reverse.takeWhile (· ≠ '.')
  let before := (name.reverse.drop (extension.length + 1)).reverse
  if extension.isEmpty || before.isEmpty then name else before

/-- The path with another extension, which includes its dot. -/
def withExtension (path extension : String) : String :=
  let name := String.ofList (stem (fileName path).toList) ++ extension
  joinPath (rootOf path) ((pathNames path).dropLast ++ [name])

/-! ## The table -/

/-- The nodes that are known, the directory that relative paths start from, and what has been
    written, in order. -/
structure FileTable where
  here : Route
  nodes : List (Route × Node)
  writes : List (Route × String)

namespace FileTable

def node? (t : FileTable) (r : Route) : Option Node :=
  if r.isEmpty then some .directory else t.nodes.lookup r

/-- The longest name that a file may have, in bytes. -/
def longestName : Nat := 255

/-- Follows the parts of a path from a directory. The last name may be one of nothing: the answer
    is then its route with no node. -/
def follow (t : FileTable) (place : Route) : List String → Except PathFault (Route × Option Node)
  | [] => .ok (place, some .directory)
  | part :: rest =>
    if part.isEmpty || part = "." then follow t place rest
    else if part = ".." then follow t place.dropLast rest
    else if longestName < part.utf8ByteSize then .error .nameTooLong
    else
      let next := place ++ [part]
      match t.node? next with
      | some .directory => follow t next rest
      | some (.file c) => if rest.isEmpty then .ok (next, some (.file c)) else .error .notDirectory
      | none => if rest.isEmpty then .ok (next, none) else .error .missing

def start (t : FileTable) (path : String) : Route := if isAbsolute path then [] else t.here

/-- The longest path that can be followed, in bytes. -/
def longestPath : Nat := 4095

/-- Follows the parts of a path from where it starts. -/
def followPath (t : FileTable) (path : String) (parts : List String) :
    Except PathFault (Route × Option Node) :=
  if longestPath < path.utf8ByteSize then .error .nameTooLong
  else t.follow (t.start path) parts

/-- What stands at a path as it is written, if anything does. -/
def look? (t : FileTable) (path : String) : Option Node :=
  if path.isEmpty then none
  else
    match t.followPath path (pathParts path) with
    | .ok (_, n) => n
    | .error _ => none

/-- The content of the file at a path. -/
def read (t : FileTable) (path : String) : Except PathFault (List UInt8) :=
  match t.followPath path (pathNames path) with
  | .error e => .error e
  | .ok (_, some (.file c)) => .ok c
  | .ok (_, some .directory) => .error .isDirectory
  | .ok (_, none) => .error .missing

/-- Puts a node where there may be one. -/
def put (t : FileTable) (r : Route) (n : Node) : FileTable :=
  { t with nodes := (r, n) :: t.nodes.filter (·.1 ≠ r) }

/-- Makes a text the content of the file at a path. -/
def write (t : FileTable) (path text : String) : Except PathFault FileTable :=
  match t.followPath path (pathNames path) with
  | .error e => .error e
  | .ok (_, some .directory) => .error .isDirectory
  | .ok (r, _) =>
    let t := t.put r (.file text.toUTF8.toList)
    .ok { t with writes := t.writes ++ [(r, text)] }

end FileTable

end DecimalMachine.CommandLine
