import SyntaxPaint.Text.Bytes
import Mathlib.Data.List.Infix
import Mathlib.Data.List.TakeWhile

/-!
Where a text is cut, and what trimming and splitting make of blanks around it.
-/
namespace SyntaxPaint.Text

theorem cutAt_char {c : Char} {before : Text} (absent : c ∉ before) (after : Text) :
    cutAt [c] (before ++ c :: after) = some (before, after) := by
  induction before with
  | nil => simp [cutAt]
  | cons d before ih =>
    simp only [List.mem_cons, not_or] at absent
    rw [List.cons_append, cutAt, if_neg (by simpa using absent.1), ih absent.2]
    rfl

theorem cutAt_pair {a b : Char} (differ : a ≠ b) {before : Text} (absent : ¬ [a, b] <:+: before)
    (after : Text) : cutAt [a, b] (before ++ ([a, b] ++ after)) = some (before, after) := by
  induction before with
  | nil => simp [cutAt]
  | cons c before ih =>
    have apart : ¬ [a, b] <+: c :: (before ++ ([a, b] ++ after)) := by
      cases before with
      | nil => simp [Ne.symm differ]
      | cons d before =>
        intro first
        simp only [List.cons_append, List.cons_prefix_cons, List.nil_prefix, and_true] at first
        obtain ⟨rfl, rfl⟩ := first
        exact absent ⟨[], before, rfl⟩
    have later : ¬ [a, b] <:+: before := fun inside =>
      absent (inside.trans (List.suffix_cons c before).isInfix)
    rw [List.cons_append, cutAt, if_neg (by rwa [List.isPrefixOf_iff_prefix]), ih later]
    rfl

theorem notMem_of_cutAt {c : Char} {t before after : Text}
    (cut : cutAt [c] t = some (before, after)) : c ∉ before := by
  induction t generalizing before with
  | nil => cases cut
  | cons d t ih =>
    rw [cutAt] at cut
    split at cut
    · cases cut
      exact List.not_mem_nil
    · next differs =>
      obtain ⟨⟨front, back⟩, later, same⟩ := Option.map_eq_some_iff.mp cut
      obtain ⟨rfl, rfl⟩ := Prod.mk.inj same
      have other : c ≠ d := by
        rintro rfl
        simp at differs
      rw [List.mem_cons, not_or]
      exact ⟨other, ih later⟩

theorem cutAt_none {needle t : Text} (some : needle ≠ []) (absent : ¬ needle <:+: t) :
    cutAt needle t = none := by
  induction t with
  | nil =>
    rw [cutAt, if_neg]
    simpa using some
  | cons c t ih =>
    have noPrefix : ¬ needle <+: c :: t := fun first => absent first.isInfix
    have later : ¬ needle <:+: t := fun inside =>
      absent (inside.trans (List.suffix_cons c t).isInfix)
    rw [cutAt, if_neg (by rwa [List.isPrefixOf_iff_prefix]), ih later]
    rfl

theorem notInfix_of_cutAt {needle t : Text} (uncut : cutAt needle t = none) :
    ¬ needle <:+: t := by
  induction t with
  | nil =>
    intro inside
    rw [List.infix_nil.mp inside] at uncut
    cases uncut
  | cons c t ih =>
    rw [cutAt] at uncut
    split at uncut
    · cases uncut
    · next noPrefix =>
      intro inside
      rcases List.infix_cons_iff.mp inside with first | later
      · exact noPrefix (List.isPrefixOf_iff_prefix.mpr first)
      · exact ih (Option.map_eq_none_iff.mp uncut) later

theorem cutAt_append {needle t before after : Text} (filled : needle ≠ [])
    (cut : cutAt needle t = some (before, after)) (more : Text) :
    cutAt needle (t ++ more) = some (before, after ++ more) := by
  induction t generalizing before with
  | nil =>
    rw [cutAt, if_neg (by simpa using filled)] at cut
    cases cut
  | cons c t ih =>
    rw [cutAt] at cut
    rw [List.cons_append, cutAt]
    split at cut
    · next first =>
      have first := List.isPrefixOf_iff_prefix.mp first
      obtain ⟨rfl, rfl⟩ := Prod.mk.inj (Option.some.inj cut)
      have still : needle <+: c :: (t ++ more) := first.trans (List.prefix_append (c :: t) more)
      rw [if_pos (List.isPrefixOf_iff_prefix.mpr still), ← List.cons_append,
        List.drop_append_of_le_length first.length_le]
    · next noPrefix =>
      obtain ⟨⟨front, back⟩, later, same⟩ := Option.map_eq_some_iff.mp cut
      obtain ⟨rfl, rfl⟩ := Prod.mk.inj same
      have still : ¬ needle.isPrefixOf (c :: (t ++ more)) = true := by
        rw [List.isPrefixOf_iff_prefix] at noPrefix ⊢
        intro first
        have fits : needle.length ≤ (c :: t).length := by
          have whole := congrArg List.length (cutAt_eq_some later)
          simp only [List.length_append, List.length_cons] at whole ⊢
          omega
        have front : c :: t <+: c :: (t ++ more) := List.prefix_append (c :: t) more
        exact noPrefix (List.prefix_of_prefix_length_le first front fits)
      rw [if_neg still, ih later]
      rfl

theorem cutAt_front {needle before after more : Text} (filled : needle ≠ [])
    (cut : cutAt needle (before ++ needle ++ after ++ more) = some (before, after ++ more)) :
    cutAt needle (before ++ needle ++ after) = some (before, after) := by
  cases front : cutAt needle (before ++ needle ++ after) with
  | none =>
    exact absurd ⟨before, after, rfl⟩ (notInfix_of_cutAt front)
  | some found =>
    rw [cutAt_append filled front] at cut
    obtain ⟨same, rest⟩ := Prod.mk.inj (Option.some.inj cut)
    rw [← same, ← List.append_cancel_right rest]

theorem cutAt_char_none {c : Char} {t : Text} (absent : c ∉ t) : cutAt [c] t = none := by
  apply cutAt_none (List.cons_ne_nil _ _)
  rwa [List.singleton_infix_iff]

theorem takeWhile_of_cutAt_char (c : Char) (t : Text) :
    ((cutAt [c] t).map (·.1)).getD t = t.takeWhile (· != c) := by
  induction t with
  | nil => rfl
  | cons d t ih =>
    by_cases here : d = c
    · subst here
      simp [cutAt]
    · rw [List.takeWhile_cons_of_pos (by simpa using here), ← ih, cutAt,
        if_neg (by simpa using Ne.symm here)]
      cases cutAt [c] t <;> rfl

theorem infix_around {needle front back : Text} {c : Char} (absent : c ∉ needle)
    (inside : needle <:+: front ++ c :: back) : needle <:+: front ∨ needle <:+: back := by
  induction front with
  | nil =>
    rcases List.infix_cons_iff.mp inside with first | later
    · cases needle with
      | nil => exact Or.inl List.nil_infix
      | cons d needle =>
        obtain ⟨rfl, _⟩ := List.cons_prefix_cons.mp first
        exact absurd List.mem_cons_self absent
    · exact Or.inr later
  | cons d front ih =>
    rcases List.infix_cons_iff.mp inside with first | later
    · left
      have whole : d :: front <+: d :: (front ++ c :: back) := List.prefix_append (d :: front) _
      rcases List.prefix_or_prefix_of_prefix first whole with within | beyond
      · exact within.isInfix
      · obtain ⟨more, rfl⟩ := beyond
        have rest : more <+: c :: back := (List.prefix_append_right_inj (d :: front)).mp first
        cases more with
        | nil => simp
        | cons e more =>
          obtain ⟨rfl, _⟩ := List.cons_prefix_cons.mp rest
          exact absurd (by simp) absent
    · exact (ih later).imp_left fun within => within.trans (List.suffix_cons d front).isInfix

/- Lengths in UTF-8. -/

theorem utf8Length_append (t u : Text) : utf8Length (t ++ u) = utf8Length t + utf8Length u := by
  have shifted (n : Nat) : u.foldl (fun size c => size + c.utf8Size) n = n + utf8Length u := by
    unfold utf8Length
    induction u generalizing n with
    | nil => rfl
    | cons c u ih =>
      rw [List.foldl_cons, List.foldl_cons, ih, ih (0 + c.utf8Size)]
      omega
  rw [utf8Length, List.foldl_append, shifted]
  rfl

theorem eq_nil_of_utf8Length {t : Text} (none : utf8Length t = 0) : t = [] := by
  cases t with
  | nil => rfl
  | cons c t =>
    have split := utf8Length_append [c] t
    have some : 0 < utf8Length [c] := Nat.lt_of_lt_of_eq c.utf8Size_pos (Nat.zero_add _).symm
    rw [List.singleton_append] at split
    omega

theorem eq_of_utf8Length {t front front' : Text} (first : front <+: t) (second : front' <+: t)
    (same : utf8Length front = utf8Length front') : front = front' := by
  rcases List.prefix_or_prefix_of_prefix first second with ⟨more, rfl⟩ | ⟨more, rfl⟩
  · rw [utf8Length_append] at same
    rw [eq_nil_of_utf8Length (t := more) (by omega), List.append_nil]
  · rw [utf8Length_append] at same
    rw [eq_nil_of_utf8Length (t := more) (by omega), List.append_nil]

/- Blanks. -/

def Blank (t : Text) : Prop := ∀ c ∈ t, isBlank c = true

instance (t : Text) : Decidable t.Blank :=
  decidable_of_iff (t.all isBlank = true) List.all_eq_true

def Padded (t padded : Text) : Prop :=
  ∃ front back, Blank front ∧ Blank back ∧ padded = front ++ t ++ back

theorem notMem_blank {t : Text} (blank : Blank t) {c : Char} (visible : isBlank c = false) :
    c ∉ t := by
  intro member
  rw [blank c member] at visible
  cases visible

theorem notMem_padded {t padded : Text} (pad : Padded t padded) {c : Char}
    (visible : isBlank c = false) (absent : c ∉ t) : c ∉ padded := by
  obtain ⟨front, back, before, behind, rfl⟩ := pad
  simp only [List.mem_append, not_or]
  exact ⟨⟨notMem_blank before visible, absent⟩, notMem_blank behind visible⟩

/- Trimming. -/

theorem trimStart_front {front : Text} (blank : Blank front) (t : Text) :
    trimStart (front ++ t) = trimStart t := List.dropWhile_append_of_pos blank

theorem trimStart_blank {t : Text} (blank : Blank t) : trimStart t = [] := by
  have whole := trimStart_front blank []
  rwa [List.append_nil] at whole

theorem trimEnd_back {back : Text} (blank : Blank back) (t : Text) :
    trimEnd (t ++ back) = trimEnd t := by
  unfold trimEnd
  rw [List.reverse_append, List.dropWhile_append_of_pos]
  intro c member
  exact blank c (List.mem_reverse.mp member)

theorem trim_back {back : Text} (blank : Blank back) (t : Text) : trim (t ++ back) = trim t := by
  unfold trim
  have split : trimStart (t ++ back) =
      if (trimStart t).isEmpty then trimStart back else trimStart t ++ back :=
    List.dropWhile_append
  rw [split]
  split
  · next none => rw [trimStart_blank blank, List.isEmpty_iff.mp none]
  · exact trimEnd_back blank _

theorem trim_padded {t padded : Text} (pad : Padded t padded) : padded.trim = t.trim := by
  obtain ⟨front, back, before, behind, rfl⟩ := pad
  rw [trim_back behind]
  unfold trim
  rw [trimStart_front before]

theorem padded_trim (t : Text) : Padded t.trim t := by
  refine ⟨t.takeWhile isBlank, ((trimStart t).reverse.takeWhile isBlank).reverse, ?_, ?_, ?_⟩
  · exact fun c member => List.mem_takeWhile_imp member
  · intro c member
    exact List.mem_takeWhile_imp (List.mem_reverse.mp member)
  · unfold trim trimEnd
    rw [List.append_assoc, ← List.reverse_append, List.takeWhile_append_dropWhile,
      List.reverse_reverse]
    exact List.takeWhile_append_dropWhile.symm

@[simp] theorem trim_trim (t : Text) : t.trim.trim = t.trim := (trim_padded (padded_trim t)).symm

theorem trim_ne_nil {t : Text} {c : Char} (member : c ∈ t) (visible : isBlank c = false) :
    t.trim ≠ [] := by
  intro none
  have pad := padded_trim t
  rw [none] at pad
  exact notMem_padded pad visible List.not_mem_nil member

theorem infix_trim (t : Text) : t.trim <:+: t := by
  obtain ⟨front, back, _, _, split⟩ := padded_trim t
  exact ⟨front, back, split.symm⟩

theorem exists_visible {t : Text} (some : t.trim ≠ []) : ∃ c ∈ t.trim, isBlank c = false := by
  by_contra none
  simp only [not_exists, not_and, Bool.not_eq_false] at none
  have blank : Blank t.trim := none
  have trimmed := trim_trim t
  rw [trim, trimStart_blank blank] at trimmed
  exact some trimmed.symm

/- Splitting. -/

theorem split_pieces {separates : Char → Bool} {t part : Text}
    (member : part ∈ t.splitOnP separates) :
    part <:+: t ∧ ∀ c ∈ part, separates c = false := by
  have pieces : ∃ first rest, t.splitOnP separates = first :: rest ∧ first <+: t ∧
      (∀ c ∈ first, separates c = false) ∧
      ∀ part ∈ rest, part <:+: t ∧ ∀ c ∈ part, separates c = false := by
    clear member
    induction t with
    | nil => exact ⟨[], [], by simp⟩
    | cons d t ih =>
      obtain ⟨first, rest, split, front, clean, later⟩ := ih
      have further : t <:+: d :: t := (List.suffix_cons d t).isInfix
      rw [List.splitOnP_cons_eq_if_modifyHead, split]
      by_cases separator : separates d = true
      · rw [if_pos separator]
        refine ⟨[], first :: rest, rfl, List.nil_prefix, by simp, ?_⟩
        intro part member
        rcases List.mem_cons.mp member with rfl | member
        · exact ⟨front.isInfix.trans further, clean⟩
        · exact ⟨(later part member).1.trans further, (later part member).2⟩
      · rw [if_neg separator]
        refine ⟨d :: first, rest, rfl, (List.prefix_cons_inj d).mpr front, ?_, ?_⟩
        · intro c member
          rcases List.mem_cons.mp member with rfl | member
          · exact Bool.eq_false_iff.mpr separator
          · exact clean c member
        · exact fun part member => ⟨(later part member).1.trans further, (later part member).2⟩
  obtain ⟨first, rest, split, front, clean, later⟩ := pieces
  rw [split] at member
  rcases List.mem_cons.mp member with rfl | member
  · exact ⟨front.isInfix, clean⟩
  · exact later part member

end SyntaxPaint.Text
