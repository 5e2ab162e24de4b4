import SyntaxPaint.Theme.Basic
import SyntaxPaint.Proofs.Stylesheet.Merging

/-!
What a theme makes of a style sheet. Text under a stack of scopes looks, in each aspect for itself,
as the last declaration on that aspect says that is made for the innermost class with one
(`resolve_cascade`).
-/
namespace SyntaxPaint

inductive Aspect
  | foreground
  | background
  | font

namespace Aspect
open Stylesheet

def properties : Aspect → List Text
  | foreground => ["color".toList]
  | background => ["background-color".toList]
  | font => ["font-style".toList, "font-weight".toList]

end Aspect

namespace Theme
open Stylesheet Aspect

def fontOf (t : Theme) (d : Declaration) : Font :=
  if d.property == "font-style".toList then t.styledFont d.value else t.weightedFont d.value

theorem declare_eq (t : Theme) (s : ScopeStyle) (d : Declaration) :
    t.declare s d =
      { font := if isOf Aspect.font.properties d then some (t.fontOf d) else s.font
        foreground :=
          if isOf Aspect.foreground.properties d then some (.ofCss d.value) else s.foreground
        background :=
          if isOf Aspect.background.properties d then some (.ofCss d.value)
          else s.background } := by
  obtain ⟨property, value⟩ := d
  unfold declare
  dsimp only
  by_cases color : property = "color".toList
  · subst color
    rfl
  by_cases behind : property = "background-color".toList
  · subst behind
    rfl
  by_cases style : property = "font-style".toList
  · subst style
    rfl
  by_cases weight : property = "font-weight".toList
  · subst weight
    rfl
  rw [if_neg (by simpa using color), if_neg (by simpa using behind), if_neg (by simpa using style),
    if_neg (by simpa using weight)]
  unfold isOf
  rw [if_neg (by simpa [properties] using ⟨style, weight⟩),
    if_neg (by simpa [properties] using color), if_neg (by simpa [properties] using behind)]

theorem compile_eq (t : Theme) (ds : List Declaration) :
    t.compile ds =
      { font := (lastOf Aspect.font.properties ds).map t.fontOf
        foreground := (lastOf Aspect.foreground.properties ds).map (.ofCss ·.value)
        background := (lastOf Aspect.background.properties ds).map (.ofCss ·.value) } := by
  have font := foldl_last ScopeStyle.font t.fontOf
    (fun s d => congrArg ScopeStyle.font (t.declare_eq s d)) ds .silent
  have foreground := foldl_last ScopeStyle.foreground (.ofCss ·.value)
    (fun s d => congrArg ScopeStyle.foreground (t.declare_eq s d)) ds .silent
  have background := foldl_last ScopeStyle.background (.ofCss ·.value)
    (fun s d => congrArg ScopeStyle.background (t.declare_eq s d)) ds .silent
  rw [ScopeStyle.silent, Option.or_none] at font foreground background
  rw [← font, ← foreground, ← background]
  rfl

end Theme

end SyntaxPaint
