import SyntaxPaint.Text.Bytes

/-!
The variables of a process. A variable has at most one value, and values need not be text. An
override is a temporary change of a variable: it remembers the text that it replaced, and undoing
overrides in reverse order brings the old texts back.
-/
namespace SyntaxPaint

structure Environment where
  bindings : List (Text × OsText)

/-- The truth value that a word stands for. Blanks around it and the case of its letters do not
matter; a blank text is false. -/
def flag? (value : Text) : Option Bool :=
  let word := Text.asciiLower value.trim
  if ["1", "true", "yes", "on"].any (·.toList == word) then some true
  else if ["", "0", "false", "no", "off"].any (·.toList == word) then some false
  else none

structure Override where
  name : Text
  previous : Option Text
  deriving Repr

namespace Environment

def empty : Environment := ⟨[]⟩

def get? (env : Environment) (name : Text) : Option OsText := env.bindings.lookup name

def text? (env : Environment) (name : Text) : Option Text := (env.get? name).bind OsText.text?

def unset (env : Environment) (name : Text) : Environment :=
  ⟨env.bindings.filter (·.1 != name)⟩

def set (env : Environment) (name : Text) (value : OsText) : Environment :=
  ⟨(name, value) :: (env.unset name).bindings⟩

def assign (env : Environment) (name : Text) : Option Text → Environment
  | some value => env.set name (.text value)
  | none => env.unset name

def override (env : Environment) (name : Text) (value : Option Text) : Override × Environment :=
  (⟨name, env.text? name⟩, env.assign name value)

def undo (env : Environment) (o : Override) : Environment := env.assign o.name o.previous

def isOn (env : Environment) (name : Text) : Bool := ((env.text? name).bind flag?).getD false

def filled? (env : Environment) (name : Text) : Option Text :=
  ((env.text? name).map Text.trim).filter (!·.isEmpty)

theorem filled?_eq_none {env : Environment} {name : Text}
    (blank : ∀ value ∈ env.text? name, value.trim = []) : env.filled? name = none := by
  unfold filled?
  cases given : env.text? name with
  | none => rfl
  | some value => simp [Option.filter_some, blank value given]

theorem filled?_eq_some {env : Environment} {name value : Text}
    (given : env.text? name = some value) (visible : value.trim ≠ []) :
    env.filled? name = some value.trim := by
  simp [filled?, given, Option.filter_some, visible]

end Environment

end SyntaxPaint
