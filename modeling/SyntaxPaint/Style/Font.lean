import SyntaxPaint.Number.Single

/-!
Fonts and their faces. A resolver stands for the platform's fonts: it gives a face of a font's
family, or nothing where the family has no such face.
-/
namespace SyntaxPaint

inductive FontVariant where
  | regular
  | bold
  | italic
  | oblique
  deriving DecidableEq, Repr

structure Font where
  family : Text
  size : Single
  variant : FontVariant
  deriving Repr

namespace Font

/-- Fonts are equal when their families and faces are and their sizes are equal as numbers. -/
instance : BEq Font :=
  ⟨fun a b => a.family == b.family && a.size == b.size && a.variant == b.variant⟩

theorem beq_iff {a b : Font} :
    (a == b) = true ↔ a.family = b.family ∧ (a.size == b.size) = true ∧ a.variant = b.variant := by
  show (a.family == b.family && a.size == b.size && a.variant == b.variant) = true ↔ _
  simp [and_assoc]

def regular (family : Text) (size : Single) : Font := ⟨family, size, .regular⟩

def withVariant (f : Font) (v : FontVariant) : Font := { f with variant := v }

def standard : Font :=
  regular "Courier".toList (.ofRank false (BinaryFormat.single.rankOfRatio 14 1))

end Font

abbrev FontResolver := Font → FontVariant → Option Font

def FontResolver.everyFace : FontResolver := fun base variant => some (base.withVariant variant)

structure FontSet where
  code : Font
  bold : Font
  italic : Font
  deriving Repr

/-- The faces around a code font. An italic face that is given counts only when it belongs to the
family of the code font; what is missing is derived, and the code font itself is the last choice. -/
def FontSet.around (resolver : FontResolver) (code : Font) (italic bold : Option Font) : FontSet :=
  { code
    bold := (bold.or (resolver code .bold)).getD code
    italic :=
      (((italic.filter (·.family == code.family)).or (resolver code .oblique)).or
        (resolver code .italic)).getD code }

end SyntaxPaint
