import SyntaxPaint.Theme.Basic

/-!
A theme whose fonts and spacing are numbers gives no attributes with a NaN, because a style can only
choose among the fonts of the theme.
-/
namespace SyntaxPaint.Theme

/-- No size and no spacing of the theme is a NaN. -/
def Definite (t : Theme) : Prop :=
  t.fonts.code.size.isNaN = false ∧ t.fonts.bold.size.isNaN = false ∧
    t.fonts.italic.size.isNaN = false ∧ t.paragraph.lineSpacing.isNaN = false

instance (t : Theme) : Decidable t.Definite := inferInstanceAs (Decidable (_ ∧ _ ∧ _ ∧ _))

theorem font_definite_declare {t : Theme} (definite : t.Definite) {s : ScopeStyle}
    (numbers : ∀ f ∈ s.font, f.size.isNaN = false) (d : Declaration) :
    ∀ f ∈ (t.declare s d).font, f.size.isNaN = false := by
  obtain ⟨code, bold, italic, _⟩ := definite
  have styled (v : Text) : (t.styledFont v).size.isNaN = false := by
    unfold styledFont
    dsimp only
    split
    · exact italic
    · exact code
  have weighted (v : Text) : (t.weightedFont v).size.isNaN = false := by
    unfold weightedFont
    dsimp only
    split
    · exact bold
    · exact code
  unfold declare
  split
  · exact numbers
  · split
    · exact numbers
    · split
      · intro f chosen
        obtain rfl := Option.some.inj chosen
        exact styled d.value
      · split
        · intro f chosen
          obtain rfl := Option.some.inj chosen
          exact weighted d.value
        · exact numbers

theorem font_definite_foldl {t : Theme} (definite : t.Definite) (ds : List Declaration)
    {s : ScopeStyle} (numbers : ∀ f ∈ s.font, f.size.isNaN = false) :
    ∀ f ∈ (ds.foldl t.declare s).font, f.size.isNaN = false := by
  induction ds generalizing s with
  | nil => exact numbers
  | cons d ds ih => exact ih (font_definite_declare definite numbers d)

theorem font_definite_compile {t : Theme} (definite : t.Definite) (ds : List Declaration) :
    ∀ f ∈ (t.compile ds).font, f.size.isNaN = false := by
  apply font_definite_foldl definite ds
  intro f none
  cases none

theorem definite_applyClass {t : Theme} (definite : t.Definite) {a : Attributes}
    (numbers : a.isDefinite = true) (name : Text) : (t.applyClass a name).isDefinite = true := by
  unfold applyClass
  split
  · next s chosen =>
    obtain ⟨found, _⟩ := Option.filter_eq_some_iff.mp chosen
    obtain ⟨ds, _, rfl⟩ := Option.map_eq_some_iff.mp found
    have fonts := font_definite_compile definite ds
    simp only [Attributes.isDefinite, Bool.and_eq_true, Bool.not_eq_true'] at numbers ⊢
    refine ⟨?_, numbers.2⟩
    unfold ScopeStyle.apply
    cases font : (t.compile ds).font with
    | none => exact numbers.1
    | some f => exact fonts f font
  · exact numbers

theorem definite_applyClasses {t : Theme} (definite : t.Definite) (names : List Text)
    {a : Attributes} (numbers : a.isDefinite = true) :
    (names.foldl t.applyClass a).isDefinite = true := by
  induction names generalizing a with
  | nil => exact numbers
  | cons name names ih => exact ih (definite_applyClass definite numbers name)

theorem definite_resolve {t : Theme} (definite : t.Definite) (stack : List Text) :
    (t.resolve stack).isDefinite = true := by
  apply definite_applyClasses definite
  obtain ⟨code, _, _, spacing⟩ := definite
  simp [Attributes.isDefinite, baseAttributes, Attributes.plain, code, spacing]

end SyntaxPaint.Theme
