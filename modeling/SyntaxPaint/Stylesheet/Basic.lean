import SyntaxPaint.Text.Basic

/-!
Style sheets as tables: for each class, the declarations that the rules naming it make. A later
declaration of a property replaces an earlier one and goes to the end of its class; the classes
stand in the order of their first declaration. What the table cannot use has left no trace in it.
-/
namespace SyntaxPaint

structure Declaration where
  property : Text
  value : Text
  deriving DecidableEq, Repr

structure ClassEntry where
  name : Text
  declarations : List Declaration
  deriving DecidableEq, Repr

abbrev Stylesheet := List ClassEntry

def documentClass : Text := "hljs".toList

namespace Declaration

/-- The list with one more declaration, which replaces an earlier one of its property. -/
def add (ds : List Declaration) (d : Declaration) : List Declaration :=
  ds.filter (·.property != d.property) ++ [d]

def value? (ds : List Declaration) (property : Text) : Option Text :=
  (ds.find? (·.property == property)).map (·.value)

end Declaration

namespace Stylesheet

def add (sheet : Stylesheet) (name : Text) (ds : List Declaration) : Stylesheet :=
  if sheet.any (·.name == name) then
    sheet.map fun c =>
      if c.name == name then { c with declarations := ds.foldl Declaration.add c.declarations }
      else c
  else sheet ++ [⟨name, ds.foldl Declaration.add []⟩]

def class? (sheet : Stylesheet) (name : Text) : Option (List Declaration) :=
  (sheet.find? (·.name == name)).map (·.declarations)

def background? (sheet : Stylesheet) : Option Text := do
  let ds ← sheet.class? documentClass
  (Declaration.value? ds "background".toList).or (Declaration.value? ds "background-color".toList)

def isDocumentBackground (name : Text) (d : Declaration) : Bool :=
  name == documentClass &&
    (d.property == "background".toList || d.property == "background-color".toList)

def writeClass (name : Text) (ds : List Declaration) : Text :=
  '.' :: name ++ '\x7b' :: ds.flatMap (fun d => d.property ++ ':' :: d.value ++ [';']) ++ ['\x7d']

/-- The written form of the table without the background of the document; a class that declares
nothing else keeps its empty braces. -/
def light (sheet : Stylesheet) : Text :=
  sheet.flatMap fun c =>
    writeClass c.name (c.declarations.filter (!isDocumentBackground c.name ·))

end Stylesheet

end SyntaxPaint
