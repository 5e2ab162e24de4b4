import SyntaxPaint.Proofs.Stylesheet.Light
import SyntaxPaint.Proofs.Theme.Cascade

/-!
A theme and its light sheet. The light sheet reads back to the table of the theme without the
background of the document, so a theme made from it says the same of every class but for that
background, and has a white one itself (`light_reads_back`).
-/
namespace SyntaxPaint
open Stylesheet

def ScopeStyle.withoutBackground (s : ScopeStyle) : ScopeStyle := { s with background := none }

theorem isDocumentBackground_iff {name : Text} {d : Declaration} :
    isDocumentBackground name d = true ↔ name = documentClass ∧
      (d.property = "background".toList ∨ d.property = "background-color".toList) := by
  simp [isDocumentBackground]

theorem filter_other {name : Text} (other : name ≠ documentClass) (ds : List Declaration) :
    ds.filter (!isDocumentBackground name ·) = ds := by
  rw [List.filter_eq_self]
  intro d _
  rw [Bool.not_eq_true', Bool.eq_false_iff, ne_eq, isDocumentBackground_iff]
  exact fun both => other both.1

theorem lastOf_kept {properties : List Text} (kept : "background".toList ∉ properties)
    (kept' : "background-color".toList ∉ properties) (name : Text) (ds : List Declaration) :
    lastOf properties (ds.filter (!isDocumentBackground name ·)) = lastOf properties ds := by
  unfold lastOf
  rw [List.filter_filter]
  congr 1
  apply List.filter_congr
  intro d _
  rw [Bool.and_eq_left_iff_imp, isOf, List.contains_iff_mem, Bool.not_eq_true', Bool.eq_false_iff,
    ne_eq, isDocumentBackground_iff]
  rintro kind ⟨_, same | same⟩
  · exact kept (same ▸ kind)
  · exact kept' (same ▸ kind)

theorem notMem_lightened {properties : List Text}
    (backgrounds : properties ⊆ ["background".toList, "background-color".toList])
    (ds : List Declaration) :
    ∀ d ∈ ds.filter (!isDocumentBackground documentClass ·), d.property ∉ properties := by
  intro d member kind
  have left := (List.mem_filter.mp member).2
  rw [Bool.not_eq_true', Bool.eq_false_iff, ne_eq, isDocumentBackground_iff] at left
  have background := backgrounds kind
  simp only [List.mem_cons, List.not_mem_nil, or_false] at background
  exact left ⟨rfl, background⟩

theorem lastOf_dropped {properties : List Text}
    (backgrounds : properties ⊆ ["background".toList, "background-color".toList])
    (ds : List Declaration) :
    lastOf properties (ds.filter (!isDocumentBackground documentClass ·)) = none := by
  unfold lastOf
  rw [List.getLast?_eq_none_iff, List.filter_eq_nil_iff]
  intro d member
  rw [isOf, List.contains_iff_mem]
  exact notMem_lightened backgrounds ds d member

theorem background?_withoutBackground {sheet : Stylesheet}
    (distinct : (sheet.map (·.name)).Nodup) : sheet.withoutBackground.background? = none := by
  unfold background?
  rw [class?_withoutBackground distinct]
  cases found : ((sheet.class? documentClass).map
      (·.filter (!isDocumentBackground documentClass ·))).filter (!·.isEmpty) with
  | none => rfl
  | some ds =>
    obtain ⟨before, _, rfl⟩ := Option.map_eq_some_iff.mp (Option.filter_eq_some_iff.mp found).1
    have silent {property : Text}
        (background : [property] ⊆ ["background".toList, "background-color".toList]) :
        Declaration.value? (before.filter (!isDocumentBackground documentClass ·)) property =
          none := by
      unfold Declaration.value?
      rw [Option.map_eq_none_iff, List.find?_eq_none]
      intro d member same
      exact notMem_lightened background before d member (by simpa using same)
    show (Declaration.value? _ _).or (Declaration.value? _ _) = none
    rw [silent (by simp), silent (by simp)]
    rfl

namespace Theme

theorem compile_congr {t t' : Theme} (fonts : t'.fonts = t.fonts) (ds : List Declaration) :
    t'.compile ds = t.compile ds := by
  have font : t'.fontOf = t.fontOf := by
    funext d
    unfold fontOf styledFont weightedFont
    rw [fonts]
  rw [compile_eq, compile_eq, font]

theorem style?_other {t t' : Theme} (distinct : (t.sheet.map (·.name)).Nodup)
    (declares : ∀ c ∈ t.sheet, c.declarations ≠ []) (light : t'.sheet = t.sheet.withoutBackground)
    (fonts : t'.fonts = t.fonts) {name : Text} (other : name ≠ documentClass) :
    t'.style? name = t.style? name := by
  have same : t'.sheet.class? name = t.sheet.class? name := by
    rw [light, class?_withoutBackground distinct]
    cases found : t.sheet.class? name with
    | none => rfl
    | some ds =>
      obtain ⟨c, here, rfl⟩ := Option.map_eq_some_iff.mp found
      have some := declares c (List.mem_of_find?_eq_some here)
      rw [Option.map_some, filter_other other, Option.filter_some, if_pos]
      simpa using some
  unfold style?
  rw [same, funext (compile_congr fonts)]

theorem compile_lightened (t : Theme) (ds : List Declaration) :
    t.compile (ds.filter (!isDocumentBackground documentClass ·)) =
      (t.compile ds).withoutBackground := by
  rw [compile_eq, compile_eq, lastOf_kept (by decide) (by decide),
    lastOf_kept (by decide) (by decide), lastOf_dropped (by simp [Aspect.properties])]
  rfl

theorem style?_document {t t' : Theme} (distinct : (t.sheet.map (·.name)).Nodup)
    (light : t'.sheet = t.sheet.withoutBackground) (fonts : t'.fonts = t.fonts) :
    t'.style? documentClass =
      ((t.style? documentClass).map ScopeStyle.withoutBackground).filter (!·.isSilent) := by
  unfold style?
  rw [light, class?_withoutBackground distinct, funext (compile_congr fonts)]
  cases t.sheet.class? documentClass with
  | none => rfl
  | some ds =>
    have left := t.compile_lightened ds
    have unchanged (all : (t.compile ds).isSilent = true) :
        (t.compile ds).withoutBackground.isSilent = true := by
      simp only [ScopeStyle.withoutBackground, ScopeStyle.isSilent, Bool.and_eq_true] at all ⊢
      exact ⟨all.1, rfl⟩
    simp only [Option.map_some, Option.filter_some]
    cases nothing : (ds.filter (!isDocumentBackground documentClass ·)).isEmpty with
    | true =>
      -- nothing but the background was declared
      have silent : (t.compile ds).withoutBackground.isSilent = true := by
        rw [← left, List.isEmpty_iff.mp nothing]
        rfl
      cases (t.compile ds).isSilent <;> simp [Option.filter_some, silent]
    | false =>
      cases all : (t.compile ds).isSilent with
      | true => simp [left, unchanged all]
      | false => simp [left]

/-- The light sheet of a text reads back to the table of the text without the background of the
document. A theme made from it, with the same fonts and spacing, says the same of every class except
that the document has no background, and is itself white behind everything. -/
theorem light_reads_back {css : Text} (free : ¬ "/*".toList <:+: withoutComments css) :
    read (read css).light = (read css).withoutBackground ∧
    ∀ (code : Font) (resolver : FontResolver) (code' : Font) (italic bold : Option Font)
      (spacing : Single),
      let dressed (source : Text) : Theme :=
        ((Theme.ofSource source code resolver).withFonts code' italic bold).withLineSpacing spacing
      let t := dressed css
      let light := dressed t.lightSource
      (∀ name, name ≠ documentClass → light.style? name = t.style? name) ∧
      light.style? documentClass =
        ((t.style? documentClass).map ScopeStyle.withoutBackground).filter (!·.isSilent) ∧
      light.background = .white := by
  have sound := sound_read css
  have table := read_light free
  refine ⟨table, ?_⟩
  intro code resolver code' italic bold spacing dressed t light
  have sheet : light.sheet = t.sheet.withoutBackground := table
  refine ⟨fun name other => ?_, ?_, ?_⟩
  · exact Theme.style?_other sound.distinct sound.declares sheet rfl other
  · exact Theme.style?_document sound.distinct sheet rfl
  · have white : t.sheet.withoutBackground.background? = none :=
      background?_withoutBackground sound.distinct
    unfold Theme.background
    rw [sheet, white]
    rfl

theorem light_reads_back_background :
    let css :=
      "/* x */.hljs\x7bbackground:#000\x7d@media y\x7b.a, b.c\x7bColor : red\x7d\x7d".toList
    let red : List Declaration := [⟨"color".toList, "red".toList⟩]
    let t := Theme.standard css
    let light := Theme.standard t.lightSource
    ¬ "/*".toList <:+: withoutComments css ∧
      t.sheet = ⟨documentClass, [⟨"background".toList, "#000".toList⟩]⟩ ::
        [⟨"a".toList, red⟩, ⟨"c".toList, red⟩] ∧
      light.sheet = [⟨"a".toList, red⟩, ⟨"c".toList, red⟩] ∧
      light.style? "a".toList = t.style? "a".toList ∧
      (light.style? "a".toList).bind (·.foreground) = some (.rgb 255 0 0) ∧
      t.background = .rgb 0 0 0 ∧ light.background = .white := by
  intro css red t light
  have free : ¬ "/*".toList <:+: withoutComments css := by decide +kernel
  obtain ⟨table, themes⟩ := light_reads_back free
  obtain ⟨same, _, white⟩ := themes .standard .everyFace .standard none none .zero
  have sheet : t.sheet = ⟨documentClass, [⟨"background".toList, "#000".toList⟩]⟩ ::
      [⟨"a".toList, red⟩, ⟨"c".toList, red⟩] := by decide +kernel
  have kept : light.style? "a".toList = t.style? "a".toList := same _ (by decide)
  refine ⟨free, sheet, ?_, kept, ?_, ?_, white⟩
  · have left : light.sheet = t.sheet.withoutBackground := table
    rw [left, sheet]
    decide
  · rw [kept, Theme.style?, sheet]
    decide +kernel
  · unfold Theme.background
    rw [sheet]
    rfl

end Theme

end SyntaxPaint
