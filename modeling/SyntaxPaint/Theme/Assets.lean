import SyntaxPaint.Engine.Basic
import SyntaxPaint.File.Tree
import SyntaxPaint.Theme.Bundled

/-!
Where themes come from: a directory of style sheets, if there is one, and behind it the bundled
themes. A theme of the directory hides the bundled theme of its name.
-/
namespace SyntaxPaint

/-- The sources of themes. A directory that cannot be read is as good as an empty one. -/
structure ThemeAssets where
  directory : Option Directory

namespace ThemeAssets

def bundled : ThemeAssets := ⟨none⟩

def behind (found : Except FileError FileNode) : ThemeAssets :=
  ⟨match found with
    | .ok (.directory entries) => some entries
    | _ => some []⟩

def suffixes : List Text := [".min.css".toList, ".css".toList]

def nameOfFile? (file : Text) : Option Text :=
  (suffixes.findSome? (Text.dropSuffix? · file)).filter (!·.isEmpty)

/-- Whether a name is that of a file next to others and not a path. -/
def isPlainName (name : Text) : Bool :=
  !name.isEmpty && !name.contains '/' && !name.contains '\\' && name != ".".toList &&
    name != "..".toList

def names (a : ThemeAssets) : List Text :=
  let found := (a.directory.getD []).filterMap fun entry => nameOfFile? entry.1
  (((Theme.Bundled.all.map (·.name)) ++ found).eraseDups).mergeSort Text.atMost

def file? (a : ThemeAssets) (name : Text) : Option ByteArray :=
  suffixes.findSome? fun suffix =>
    match (a.directory.getD []).lookup (name ++ suffix) with
    | some (.file content) => some content
    | _ => none

def load (a : ThemeAssets) (name : Text) : Except HighlightError Text :=
  if !isPlainName name then .error (.themeNotFound name)
  else
    match a.file? name with
    | some content =>
      match Text.ofUtf8? content with
      | some css => .ok css
      | none => .error (.themeRead name FileError.notText.message)
    | none =>
      match Theme.Bundled.all.find? (·.name == name) with
      | some source => .ok source.css
      | none => .error (.themeNotFound name)

end ThemeAssets

end SyntaxPaint
