import SyntaxPaint.Style.Color
import SyntaxPaint.Style.Font

/-!
The attributes that are painted onto text. Their equality follows the numbers in them, so it is an
equivalence only where no size or spacing is a NaN (`beq_self`); `beq_symm` and `beq_trans` hold
everywhere.
-/
namespace SyntaxPaint

structure ParagraphStyle where
  lineSpacing : Single
  deriving Repr

structure Attributes where
  font : Font
  foreground : Option Color
  background : Option Color
  paragraph : Option ParagraphStyle
  deriving Repr

namespace ParagraphStyle

instance : BEq ParagraphStyle := ⟨fun a b => a.lineSpacing == b.lineSpacing⟩

theorem beq_eq (a b : ParagraphStyle) : (a == b) = (a.lineSpacing == b.lineSpacing) := rfl

end ParagraphStyle

namespace Attributes

instance : BEq Attributes :=
  ⟨fun a b => a.font == b.font && a.foreground == b.foreground && a.background == b.background &&
    a.paragraph == b.paragraph⟩

def plain (font : Font) : Attributes := ⟨font, none, none, none⟩

def isDefinite (a : Attributes) : Bool :=
  !a.font.size.isNaN && a.paragraph.all (!·.lineSpacing.isNaN)

theorem beq_iff {a b : Attributes} :
    (a == b) = true ↔ (a.font == b.font) = true ∧ a.foreground = b.foreground ∧
      a.background = b.background ∧ (a.paragraph == b.paragraph) = true := by
  show (a.font == b.font && a.foreground == b.foreground && a.background == b.background &&
    a.paragraph == b.paragraph) = true ↔ _
  simp [and_assoc]

theorem paragraph_beq_iff {p q : Option ParagraphStyle} :
    (p == q) = true ↔ (p = none ∧ q = none) ∨
      ∃ a b, p = some a ∧ q = some b ∧ (a.lineSpacing == b.lineSpacing) = true := by
  cases p <;> cases q <;> simp [ParagraphStyle.beq_eq]

theorem beq_self {a : Attributes} (h : a.isDefinite = true) : (a == a) = true := by
  simp only [isDefinite, Bool.and_eq_true, Bool.not_eq_true'] at h
  refine beq_iff.2 ⟨Font.beq_iff.2 ⟨rfl, Single.beq_self h.1, rfl⟩, rfl, rfl, ?_⟩
  refine paragraph_beq_iff.2 ?_
  cases hp : a.paragraph with
  | none => exact Or.inl ⟨rfl, rfl⟩
  | some p => exact Or.inr ⟨p, p, rfl, rfl, Single.beq_self (by simpa [hp] using h.2)⟩

theorem beq_symm {a b : Attributes} (h : (a == b) = true) : (b == a) = true := by
  obtain ⟨hf, hg, hb, hp⟩ := beq_iff.1 h
  obtain ⟨h₁, h₂, h₃⟩ := Font.beq_iff.1 hf
  refine beq_iff.2 ⟨Font.beq_iff.2 ⟨h₁.symm, Single.beq_symm h₂, h₃.symm⟩, hg.symm, hb.symm, ?_⟩
  refine paragraph_beq_iff.2 ?_
  rcases paragraph_beq_iff.1 hp with ⟨hn, hn'⟩ | ⟨p, q, hs, hs', h⟩
  · exact Or.inl ⟨hn', hn⟩
  · exact Or.inr ⟨q, p, hs', hs, Single.beq_symm h⟩

theorem beq_trans {a b c : Attributes} (h : (a == b) = true) (h' : (b == c) = true) :
    (a == c) = true := by
  obtain ⟨hf, hg, hb, hp⟩ := beq_iff.1 h
  obtain ⟨hf', hg', hb', hp'⟩ := beq_iff.1 h'
  obtain ⟨h₁, h₂, h₃⟩ := Font.beq_iff.1 hf
  obtain ⟨h₁', h₂', h₃'⟩ := Font.beq_iff.1 hf'
  refine beq_iff.2 ⟨Font.beq_iff.2 ⟨h₁.trans h₁', Single.beq_trans h₂ h₂', h₃.trans h₃'⟩,
    hg.trans hg', hb.trans hb', ?_⟩
  refine paragraph_beq_iff.2 ?_
  rcases paragraph_beq_iff.1 hp with ⟨hn, hn'⟩ | ⟨p, q, hs, hs', h⟩ <;>
    rcases paragraph_beq_iff.1 hp' with ⟨hm, hm'⟩ | ⟨p', q', ht, ht', h'⟩
  · exact Or.inl ⟨hn, hm'⟩
  · rw [hn'] at ht; cases ht
  · rw [hs'] at hm; cases hm
  · obtain rfl : q = p' := Option.some.inj (hs'.symm.trans ht)
    exact Or.inr ⟨p, q', hs, ht', Single.beq_trans h h'⟩

end Attributes

end SyntaxPaint
