import SyntaxPaint.Text.Bytes

/-!
Files and directories as values, and the ways in which a path fails to lead to one.
-/
namespace SyntaxPaint

inductive FileNode where
  | file (content : ByteArray)
  | directory (entries : List (Text × FileNode))

abbrev Directory := List (Text × FileNode)

inductive FileError where
  | missing
  | notADirectory
  | isADirectory
  | nameTooLong
  | notText
  deriving DecidableEq, Repr

namespace FileError

def message : FileError → Text
  | missing => "No such file or directory (os error 2)".toList
  | notADirectory => "Not a directory (os error 20)".toList
  | isADirectory => "Is a directory (os error 21)".toList
  | nameTooLong => "File name too long (os error 36)".toList
  | notText => "stream did not contain valid UTF-8".toList

end FileError

namespace FileNode

def text : FileNode → Except FileError Text
  | .directory _ => .error .isADirectory
  | .file content =>
    match Text.ofUtf8? content with
    | some t => .ok t
    | none => .error .notText

def maxName : Nat := 255

/-- Follows the parts of a path downward; `above` holds the directories that lead back up, the
nearest first. Empty parts and dots stay where they are. -/
def follow (above : List FileNode) : FileNode → List Text → Except FileError FileNode
  | node, [] => .ok node
  | .file _, _ :: _ => .error .notADirectory
  | .directory entries, part :: parts =>
    if part.isEmpty || part == ['.'] then follow above (.directory entries) parts
    else if part == ['.', '.'] then
      match above with
      | [] => follow [] (.directory []) parts
      | up :: above => follow above up parts
    else
      match entries.lookup part with
      | some node => follow (.directory entries :: above) node parts
      | none => .error (if maxName < Text.utf8Length part then .nameTooLong else .missing)

def deeper (path name : Text) : Text :=
  if path.getLast? == some '/' then path ++ name else path ++ '/' :: name

mutual

def contents (path : Text) : FileNode → List (Text × FileNode)
  | .file content => [(path, .file content)]
  | .directory entries =>
    (path, .directory entries) ::
      ((contentsEach path entries).mergeSort fun a b => Text.atMost a.1 b.1).flatMap (·.2)

def contentsEach (path : Text) : List (Text × FileNode) → List (Text × List (Text × FileNode))
  | [] => []
  | (name, node) :: rest => (name, contents (deeper path name) node) :: contentsEach path rest

end

end FileNode

abbrev FileView := OsText → Except FileError FileNode

namespace Directory

/-- The entries whose names are text. No path that is text leads to the others. -/
def ofEntries (entries : List (ByteArray × FileNode)) : Directory :=
  entries.filterMap fun e => (Text.ofUtf8? e.1).map (·, e.2)

def find (root : Directory) (path : Text) : Except FileError FileNode :=
  if path.isEmpty || path.head? == some '/' then .error .missing
  else FileNode.follow [] (.directory root) (path.splitOnP (· == '/'))

def view (root : Directory) : FileView := fun path =>
  match path.text? with
  | some path => root.find path
  | none => .error .missing

def insert (node : FileNode) : List Text → Directory → Directory
  | [], d => d
  | [name], d => d.filter (·.1 != name) ++ [(name, node)]
  | name :: parts, d =>
    let inner := match d.lookup name with
      | some (.directory entries) => entries
      | _ => []
    d.filter (·.1 != name) ++ [(name, .directory (insert node parts inner))]

end Directory

end SyntaxPaint
