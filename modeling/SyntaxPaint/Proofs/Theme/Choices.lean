import SyntaxPaint.Highlighter
import Mathlib.Data.List.Induction

/-!
What a series of changes makes of the theme of a highlighter. Sheet, code font and line spacing are
those of the last call that set them, in whatever order. Faces that were given with the fonts are
lost when another sheet is loaded, because that derives them anew (`theme_of_last_choices`).
-/
namespace SyntaxPaint

/-- A call that changes the theme of a highlighter. -/
inductive Choice where
  | theme (name : Text)
  | codeFont (code : Font)
  | fonts (code : Font) (italic bold : Option Font)
  | lineSpacing (spacing : Single)

namespace Choice

def sheet? (assets : ThemeAssets) : Choice → Option Text
  | theme name => (assets.load name).toOption
  | _ => none

def fonts? : Choice → Option (Font × Option Font × Option Font)
  | codeFont code => some (code, none, none)
  | fonts code italic bold => some (code, italic, bold)
  | _ => none

def spacing? : Choice → Option Single
  | lineSpacing spacing => some spacing
  | _ => none

def faces? (assets : ThemeAssets) (c : Choice) : Option (Option Font × Option Font) :=
  (c.fonts?.map (·.2)).or ((c.sheet? assets).map fun _ => (none, none))

def last {α : Type} (part : Choice → Option α) (cs : List Choice) : Option α :=
  cs.reverse.findSome? part

theorem last_append {α : Type} (part : Choice → Option α) (front back : List Choice) :
    last part (front ++ back) = (last part back).or (last part front) := by
  simp [last, List.findSome?_append]

theorem last_singleton {α : Type} (part : Choice → Option α) (c : Choice) :
    last part [c] = part c := by
  simp [last]

theorem last_eq_none_iff {α : Type} {part : Choice → Option α} {cs : List Choice} :
    last part cs = none ↔ ∀ c ∈ cs, part c = none := by
  simp [last]

theorem last_eq_some {α : Type} {part : Choice → Option α} {cs : List Choice} {a : α}
    (found : last part cs = some a) :
    ∃ front c back, cs = front ++ c :: back ∧ part c = some a ∧ ∀ d ∈ back, part d = none := by
  obtain ⟨back, c, front, split, here, later⟩ := List.findSome?_eq_some_iff.mp found
  refine ⟨front.reverse, c, back.reverse, ?_, here, by simpa using later⟩
  rw [← List.reverse_inj, split]
  simp

end Choice

open Choice

namespace Highlighter

def choose (h : Highlighter) : Choice → Highlighter
  | .theme name => (h.withTheme name).toOption.getD h
  | .codeFont code => h.withCodeFont code
  | .fonts code italic bold => h.withFonts code italic bold
  | .lineSpacing spacing => h.withLineSpacing spacing

def chooseAll (h : Highlighter) (cs : List Choice) : Highlighter := cs.foldl choose h

end Highlighter

namespace Theme

/-- The theme that the last choices mean: the sheet that was loaded last, with the fonts and the
spacing that were set last, and what was there before where nothing was set. -/
def meant (t : Theme) (assets : ThemeAssets) (cs : List Choice) : Theme :=
  let compiled := ofSource ((last (sheet? assets) cs).getD t.source) t.fonts.code t.resolver
  let dressed :=
    match last Choice.fonts? cs with
    | some (code, italic, bold) => compiled.withFonts code italic bold
    | none => compiled
  dressed.withLineSpacing ((last spacing? cs).getD t.paragraph.lineSpacing)

def outfit (source : Text) (code : Font) (italic bold : Option Font) (spacing : Single)
    (resolver : FontResolver) : Theme :=
  { source
    sheet := .read source
    fonts := .around resolver code italic bold
    paragraph := ⟨spacing⟩
    resolver }

theorem outfit_inj {source : Text} {code : Font} {italic bold italic' bold' : Option Font}
    {spacing : Single} {resolver : FontResolver} :
    outfit source code italic bold spacing resolver =
        outfit source code italic' bold' spacing resolver ↔
      FontSet.around resolver code italic bold = FontSet.around resolver code italic' bold' := by
  simp [outfit]

theorem meant_eq (t : Theme) (assets : ThemeAssets) (cs : List Choice) :
    let fonts := (last Choice.fonts? cs).getD (t.fonts.code, none, none)
    t.meant assets cs = outfit ((last (sheet? assets) cs).getD t.source) fonts.1 fonts.2.1
      fonts.2.2 ((last spacing? cs).getD t.paragraph.lineSpacing) t.resolver := by
  unfold meant
  cases last Choice.fonts? cs <;> rfl

end Theme

namespace Highlighter

theorem chooseAll_concat (h : Highlighter) (cs : List Choice) (c : Choice) :
    h.chooseAll (cs ++ [c]) = (h.chooseAll cs).choose c := by
  simp [chooseAll]

theorem choose_outfit (engine : Engine) (assets : ThemeAssets) (source : Text) (code : Font)
    (italic bold : Option Font) (spacing : Single) (resolver : FontResolver) (c : Choice) :
    let faces := (c.faces? assets).getD (italic, bold)
    (Highlighter.mk engine assets (.outfit source code italic bold spacing resolver)).choose c =
      .mk engine assets (.outfit ((c.sheet? assets).getD source)
        ((c.fonts?.map (·.1)).getD code) faces.1 faces.2 (c.spacing?.getD spacing) resolver) := by
  cases c with
  | theme name =>
    cases loaded : assets.load name <;>
      simp [choose, withTheme, loaded, sheet?, Choice.faces?, fonts?, spacing?, Except.toOption,
        Except.map, Theme.ofSource, Theme.withLineSpacing, Theme.outfit, FontSet.around]
  | codeFont code => rfl
  | fonts code italic bold => rfl
  | lineSpacing spacing => rfl

theorem chooseAll_outfit (engine : Engine) (assets : ThemeAssets) (source : Text) (code : Font)
    (spacing : Single) (resolver : FontResolver) (cs : List Choice) :
    let faces := (last (Choice.faces? assets) cs).getD (none, none)
    (Highlighter.mk engine assets (.outfit source code none none spacing resolver)).chooseAll cs =
      .mk engine assets (.outfit ((last (sheet? assets) cs).getD source)
        (((last Choice.fonts? cs).map (·.1)).getD code) faces.1 faces.2
        ((last spacing? cs).getD spacing) resolver) := by
  induction cs using List.reverseRecOn with
  | nil => rfl
  | append_singleton front c ih =>
    simp only [chooseAll_concat, ih, choose_outfit, last_append, last_singleton, Option.getD_or,
      Option.map_or]

/-- Wherever a sheet was loaded after the fonts had been set last, the faces that were given with
them are those that loading derives. -/
def FacesKept (assets : ThemeAssets) (resolver : FontResolver) (cs : List Choice) : Prop :=
  ∀ front back code italic bold, cs = front ++ back →
    last Choice.fonts? front = some (code, italic, bold) → (∀ d ∈ back, d.fonts? = none) →
    (∃ d ∈ back, (d.sheet? assets).isSome = true) →
      FontSet.around resolver code italic bold = .around resolver code none none

theorem faces_of_sheets {assets : ThemeAssets} {cs : List Choice}
    (unset : ∀ c ∈ cs, c.fonts? = none) :
    last (Choice.faces? assets) cs = (last (sheet? assets) cs).map fun _ => (none, none) := by
  induction cs using List.reverseRecOn with
  | nil => rfl
  | append_singleton front c ih =>
    have here : c.fonts? = none := unset c (by simp)
    rw [last_append, last_append, last_singleton, last_singleton,
      ih fun d member => unset d (by simp [member])]
    simp [Choice.faces?, here, Option.map_or]

theorem facesKept_iff (assets : ThemeAssets) (code : Font) (resolver : FontResolver)
    (cs : List Choice) :
    let fonts := (last Choice.fonts? cs).getD (code, none, none)
    let faces := (last (Choice.faces? assets) cs).getD (none, none)
    FontSet.around resolver fonts.1 faces.1 faces.2 =
        .around resolver fonts.1 fonts.2.1 fonts.2.2 ↔ FacesKept assets resolver cs := by
  constructor
  · -- A sheet behind the last fonts settles the faces, without any that are given.
    rintro same front back code' italic bold rfl set unset ⟨d, member, loaded⟩
    have none : last Choice.fonts? back = none := last_eq_none_iff.mpr unset
    have some : ∃ sheet, last (sheet? assets) back = some sheet := by
      rw [← Option.isSome_iff_exists, Option.isSome_iff_ne_none, Ne, last_eq_none_iff]
      intro silent
      rw [silent d member] at loaded
      cases loaded
    obtain ⟨sheet, found⟩ := some
    simpa [last_append, none, set, faces_of_sheets unset, found] using same.symm
  · intro kept
    cases found : last Choice.fonts? cs with
    | none =>
      have unset := last_eq_none_iff.mp found
      cases sheet : last (sheet? assets) cs <;> simp [faces_of_sheets unset, sheet]
    | some fonts =>
      obtain ⟨code', italic, bold⟩ := fonts
      obtain ⟨front, c, back, rfl, here, unset⟩ := last_eq_some found
      have split : front ++ c :: back = (front ++ [c]) ++ back := by simp
      have given : last Choice.fonts? (front ++ [c]) = some (code', italic, bold) := by
        simp [last_append, last_singleton, here]
      have settled : last (Choice.faces? assets) (front ++ [c]) = some (italic, bold) := by
        simp [last_append, last_singleton, Choice.faces?, here]
      rw [split, last_append, faces_of_sheets unset, settled]
      cases sheet : last (sheet? assets) back with
      | none => simp
      | some text =>
        obtain ⟨_, d, _, rfl, loaded, _⟩ := last_eq_some sheet
        have same := kept _ _ _ _ _ split given unset ⟨d, by simp, by simp [loaded]⟩
        simpa using same.symm

/-- Whatever is chosen in whatever order, the theme has the sheet that was loaded last and the code
font and the line spacing that were set last. The faces are those of the last call on the fonts
unless a sheet was loaded after it, which derives them from the code font. So the theme is the one
that the last choices mean exactly if no face is lost that way. A theme that cannot be loaded
changes nothing. -/
theorem theme_of_last_choices {engine : Engine} {assets : ThemeAssets} {config : Config}
    {resolver : FontResolver} {h : Highlighter}
    (started : start engine assets config resolver = .ok h) (cs : List Choice) :
    let after := h.chooseAll cs
    let meant := h.theme.meant assets cs
    let faces := (last (Choice.faces? assets) cs).getD (none, none)
    (assets.load config.theme = .ok h.theme.source ∧
      h.theme = .ofSource h.theme.source config.codeFont resolver) ∧
    after.engine = engine ∧ after.assets = assets ∧
    after.theme = { meant with
      fonts := .around resolver meant.fonts.code faces.1 faces.2 } ∧
    (after.theme = meant ↔ FacesKept assets resolver cs) ∧
    ∀ name error, assets.load name = .error error →
      after.withTheme name = .error error ∧ after.choose (.theme name) = after := by
  obtain ⟨source, loaded, rfl⟩ : ∃ source, assets.load config.theme = .ok source ∧
      h = ⟨engine, assets, .ofSource source config.codeFont resolver⟩ := by
    unfold start at started
    cases loaded : assets.load config.theme with
    | error e => simp [loaded, Except.map] at started
    | ok source =>
      refine ⟨source, rfl, ?_⟩
      simpa [loaded, Except.map] using started.symm
  intro after meant faces
  have code : ((last Choice.fonts? cs).map (·.1)).getD config.codeFont =
      ((last Choice.fonts? cs).getD (config.codeFont, none, none)).1 := by
    cases last Choice.fonts? cs <;> rfl
  have made := chooseAll_outfit engine assets source config.codeFont .zero resolver cs
  rw [code] at made
  change after = _ at made
  have intended : meant = _ := Theme.meant_eq (.ofSource source config.codeFont resolver) assets cs
  refine ⟨⟨loaded, rfl⟩, by rw [made], by rw [made], ?_, ?_, ?_⟩
  · rw [made, intended]
    rfl
  · rw [made, intended]
    exact Theme.outfit_inj.trans (facesKept_iff assets config.codeFont resolver cs)
  · intro name error missing
    have failed : after.withTheme name = .error error := by
      rw [made]
      simp [withTheme, missing, Except.map]
    exact ⟨failed, by simp [choose, failed, Except.toOption]⟩

theorem theme_of_last_choices_spacing :
    let engine : Engine := .constant "toy".toList (.ok [])
    let heavy : Font := .regular "Heavy".toList .zero
    let cs : List Choice := [.lineSpacing .zero, .theme "nope".toList, .codeFont heavy,
      .theme "github".toList, .fonts .standard none (some heavy)]
    ∃ h, start engine .bundled .standard .everyFace = .ok h ∧
      (h.chooseAll cs).theme = h.theme.meant .bundled cs ∧
      FacesKept .bundled .everyFace cs ∧
      ThemeAssets.bundled.load "nope".toList = .error (.themeNotFound "nope".toList) ∧
      (h.chooseAll cs).choose (.theme "nope".toList) = h.chooseAll cs := by
  intro engine heavy cs
  obtain ⟨h, started⟩ : ∃ h, start engine .bundled .standard .everyFace = .ok h := ⟨_, rfl⟩
  have missing : ThemeAssets.bundled.load "nope".toList =
      .error (.themeNotFound "nope".toList) := rfl
  obtain ⟨⟨_, initial⟩, _, _, made, kept, failing⟩ := theme_of_last_choices started cs
  have fonts : FontSet.around .everyFace .standard none (some heavy) =
      (h.theme.meant .bundled cs).fonts := by
    rw [initial]
    rfl
  have theme : (h.chooseAll cs).theme = h.theme.meant .bundled cs := by
    rw [← fonts] at made
    exact made.trans (congrArg (fun f => { h.theme.meant .bundled cs with fonts := f }) fonts)
  exact ⟨h, started, theme, kept.mp theme, missing, (failing _ _ missing).2⟩

/-- A bold face that was given is lost with the next sheet. -/
theorem sheet_drops_bold_face :
    let engine : Engine := .constant "toy".toList (.ok [])
    let heavy : Font := .regular "Heavy".toList .zero
    let cs : List Choice := [.fonts .standard none (some heavy), .theme "github".toList]
    ∃ h, start engine .bundled .standard .everyFace = .ok h ∧
      (h.chooseAll cs).theme ≠ h.theme.meant .bundled cs := by
  intro engine heavy cs
  refine ⟨_, rfl, ?_⟩
  intro same
  have family := congrArg (fun t : Theme => t.fonts.bold.family) same
  revert family
  decide

end Highlighter

end SyntaxPaint
