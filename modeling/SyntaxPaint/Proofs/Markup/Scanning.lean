import SyntaxPaint.Markup.Token
import Mathlib.Data.List.Basic

/-!
What the scanner does with a text, without the offsets that only its error carries: each rule takes
the text up to a `<` and what starts there.
-/
namespace SyntaxPaint.Markup

inductive Scan : Text → List Token → Prop
  | stop {plain : Text} (noTag : '<' ∉ plain) : Scan plain (textToken plain)
  | opening {plain behind classes after : Text} {ts : List Token} (noTag : '<' ∉ plain)
      (cut : Text.cutAt openingEnd behind = some (classes, after)) (rest : Scan after ts) :
      Scan (plain ++ (openingStart ++ behind)) (textToken plain ++ .opening classes :: ts)
  | closing {plain after : Text} {ts : List Token} (noTag : '<' ∉ plain) (rest : Scan after ts) :
      Scan (plain ++ (closingTag ++ after)) (textToken plain ++ .closing :: ts)
  | lone {plain after : Text} {ts : List Token} (noTag : '<' ∉ plain)
      (noOpening : ¬ openingStart <+: '<' :: after) (noClosing : ¬ closingTag <+: '<' :: after)
      (rest : Scan after ts) :
      Scan (plain ++ '<' :: after) (textToken plain ++ .text ['<'] :: ts)

theorem plain_or_tag (t : Text) :
    '<' ∉ t ∨ ∃ plain after, t = plain ++ '<' :: after ∧ '<' ∉ plain := by
  by_cases tag : '<' ∈ t
  · obtain ⟨plain, after, split, first⟩ := List.eq_append_cons_of_mem tag
    exact Or.inr ⟨plain, after, split, first⟩
  · exact Or.inl tag

theorem passes_plain {plain : Text} (noTag : '<' ∉ plain) : ∀ c ∈ plain, (c != '<') = true := by
  intro c member
  rw [bne_iff_ne]
  rintro rfl
  exact noTag member

theorem dropWhile_plain {plain : Text} (noTag : '<' ∉ plain) (after : Text) :
    (plain ++ after).dropWhile (· != '<') = after.dropWhile (· != '<') :=
  List.dropWhile_append_of_pos (passes_plain noTag)

theorem takeWhile_plain {plain : Text} (noTag : '<' ∉ plain) (after : Text) :
    (plain ++ after).takeWhile (· != '<') = plain ++ after.takeWhile (· != '<') :=
  List.takeWhile_append_of_pos (passes_plain noTag)

theorem tokens_plain {plain : Text} (offset : Nat) (noTag : '<' ∉ plain) :
    tokens offset plain = .ok (textToken plain) := by
  have rest := dropWhile_plain noTag []
  have taken := takeWhile_plain noTag []
  rw [List.append_nil] at rest taken
  rw [tokens]
  split
  · rw [taken]
    simp
  · next c t' tag =>
    rw [rest] at tag
    cases tag

theorem tokens_tag {plain after : Text} (offset : Nat) (noTag : '<' ∉ plain) :
    tokens offset (plain ++ '<' :: after) =
      let here := offset + Text.utf8Length plain
      if openingStart.isPrefixOf ('<' :: after) then
        match Text.cutAt openingEnd (('<' :: after).drop openingStart.length) with
        | none => .error here
        | some (classes, behind) =>
          (tokens (here + Text.utf8Length (openingStart ++ classes ++ openingEnd)) behind).map
            (textToken plain ++ Token.opening classes :: ·)
      else if closingTag.isPrefixOf ('<' :: after) then
        (tokens (here + Text.utf8Length closingTag) (after.drop (closingTag.length - 1))).map
          (textToken plain ++ Token.closing :: ·)
      else (tokens (here + 1) after).map (textToken plain ++ Token.text ['<'] :: ·) := by
  have rest : (plain ++ '<' :: after).dropWhile (· != '<') = '<' :: after := by
    rw [dropWhile_plain noTag, List.dropWhile_cons_of_neg (by simp)]
  have taken : (plain ++ '<' :: after).takeWhile (· != '<') = plain := by
    rw [takeWhile_plain noTag, List.takeWhile_cons_of_neg (by simp), List.append_nil]
  rw [tokens]
  split
  · next stop =>
    rw [rest] at stop
    cases stop
  · next c t' tag =>
    rw [rest] at tag
    obtain ⟨rfl, rfl⟩ := List.cons.inj tag
    rw [taken]
    dsimp only
    split
    · split
      · next none => rw [none]
      · next some => rw [some]
    · rfl

section Tags
variable {plain : Text} (offset : Nat) (noTag : '<' ∉ plain)
include noTag

theorem tokens_openingStart (behind : Text) :
    tokens offset (plain ++ (openingStart ++ behind)) =
      match Text.cutAt openingEnd behind with
      | none => .error (offset + Text.utf8Length plain)
      | some (classes, after) =>
        (tokens (offset + Text.utf8Length plain +
          Text.utf8Length (openingStart ++ classes ++ openingEnd)) after).map
            (textToken plain ++ Token.opening classes :: ·) := by
  have tag : openingStart ++ behind = '<' :: (openingStart.tail ++ behind) := rfl
  have opens : openingStart.isPrefixOf ('<' :: (openingStart.tail ++ behind)) = true := by
    rw [← tag, List.isPrefixOf_iff_prefix]
    exact List.prefix_append _ _
  have drops : ('<' :: (openingStart.tail ++ behind)).drop openingStart.length = behind := rfl
  rw [tag, tokens_tag offset noTag]
  dsimp only
  rw [if_pos opens, drops]

theorem tokens_closing (after : Text) :
    tokens offset (plain ++ (closingTag ++ after)) =
      (tokens (offset + Text.utf8Length plain + Text.utf8Length closingTag) after).map
        (textToken plain ++ Token.closing :: ·) := by
  have tag : closingTag ++ after = '<' :: (closingTag.tail ++ after) := rfl
  have opens : openingStart.isPrefixOf ('<' :: (closingTag.tail ++ after)) = false := rfl
  have closes : closingTag.isPrefixOf ('<' :: (closingTag.tail ++ after)) = true := by
    rw [← tag, List.isPrefixOf_iff_prefix]
    exact List.prefix_append _ _
  have drops : (closingTag.tail ++ after).drop (closingTag.length - 1) = after := rfl
  rw [tag, tokens_tag offset noTag]
  dsimp only
  rw [opens, if_neg Bool.false_ne_true, if_pos closes, drops]

theorem tokens_lone {after : Text} (noOpening : ¬ openingStart <+: '<' :: after)
    (noClosing : ¬ closingTag <+: '<' :: after) :
    tokens offset (plain ++ '<' :: after) =
      (tokens (offset + Text.utf8Length plain + 1) after).map
        (textToken plain ++ Token.text ['<'] :: ·) := by
  rw [← List.isPrefixOf_iff_prefix] at noOpening noClosing
  rw [tokens_tag offset noTag]
  dsimp only
  rw [if_neg noOpening, if_neg noClosing]

end Tags

theorem ok_of_map {ε α β : Type} {f : α → β} {x : Except ε α} {b : β}
    (done : x.map f = .ok b) : ∃ a, x = .ok a ∧ f a = b := by
  cases x with
  | error e => cases done
  | ok a => exact ⟨a, rfl, Except.ok.inj done⟩

theorem scan_of_tokens {offset : Nat} {t : Text} {ts : List Token}
    (read : tokens offset t = .ok ts) : Scan t ts := by
  induction size : t.length using Nat.strongRecOn generalizing offset t ts with
  | ind size ih =>
    subst size
    rcases plain_or_tag t with noTag | ⟨plain, after, rfl, noTag⟩
    · rw [tokens_plain offset noTag] at read
      cases read
      exact .stop noTag
    · rw [tokens_tag offset noTag] at read
      dsimp only at read
      have whole : (plain ++ '<' :: after).length = plain.length + (after.length + 1) := by simp
      split at read
      · next opens =>
        split at read
        · cases read
        · next classes behind cut =>
          obtain ⟨ts', rest, rfl⟩ := ok_of_map read
          have short := Text.length_lt_of_cutAt (by decide) cut
          rw [List.length_drop, List.length_cons] at short
          rw [← Text.append_drop_of_isPrefixOf opens]
          exact .opening noTag cut (ih _ (by omega) rest rfl)
      · next opens =>
        split at read
        · next closes =>
          obtain ⟨ts', rest, rfl⟩ := ok_of_map read
          have tag : closingTag ++ after.drop (closingTag.length - 1) = '<' :: after :=
            Text.append_drop_of_isPrefixOf closes
          rw [← tag]
          refine .closing noTag (ih _ ?_ rest rfl)
          rw [List.length_drop]
          omega
        · next closes =>
          obtain ⟨ts', rest, rfl⟩ := ok_of_map read
          rw [List.isPrefixOf_iff_prefix] at opens closes
          exact .lone noTag opens closes (ih _ (by omega) rest rfl)

theorem tokens_of_scan {t : Text} {ts : List Token} (scan : Scan t ts) (offset : Nat) :
    tokens offset t = .ok ts := by
  induction scan generalizing offset with
  | stop noTag => exact tokens_plain offset noTag
  | opening noTag cut _ ih =>
    rw [tokens_openingStart offset noTag, cut]
    dsimp only
    rw [ih]
    rfl
  | closing noTag _ ih =>
    rw [tokens_closing offset noTag, ih]
    rfl
  | lone noTag noOpening noClosing _ ih =>
    rw [tokens_lone offset noTag noOpening noClosing, ih]
    rfl

end SyntaxPaint.Markup
