import SyntaxPaint.Markup.Attributed
import Mathlib.Data.List.Basic

/-!
The written forms of a character: itself, or a reference by name or number. Decoding takes each form
back to its character and goes on right behind it.
-/
namespace SyntaxPaint.Reference

/-- What may stand between ampersand and semicolon for a character. -/
inductive Denotes : Text → Char → Prop
  | name {body : Text} {c : Char} (listed : (body, c) ∈ named) : Denotes body c
  | decimal {digits : Text} {c : Char} (value : Text.natural? digits = some c.toNat) :
      Denotes ('#' :: digits) c
  | hexadecimal {x : Char} {digits : Text} {c : Char} (mark : x = 'x' ∨ x = 'X')
      (value : Text.hexadecimal? digits = some c.toNat) : Denotes ('#' :: x :: digits) c

theorem scalar?_toNat (c : Char) : Text.scalar? c.toNat = some c := by
  unfold Text.scalar?
  have valid : c.toNat.isValidChar := c.valid
  rw [if_pos valid]
  exact congrArg some (Char.ofNat_toNat c)

theorem digits_of_natural {digits : Text} {n : Nat} (value : Text.natural? digits = some n) :
    digits ≠ [] ∧ ∀ d ∈ digits, d.isDigit = true := by
  unfold Text.natural? at value
  split at value
  · next valid =>
    simp only [Bool.and_eq_true, Bool.not_eq_true', List.isEmpty_eq_false_iff,
      List.all_eq_true] at valid
    exact valid
  · cases value

theorem alphanumeric_of_hexValue {d : Char} {n : Nat} (value : Text.hexValue? d = some n) :
    d.isAlphanum = true := by
  have of_digit : d.isDigit = true → d.isAlphanum = true :=
    fun digit => (Bool.or_eq_true _ _).mpr (Or.inr digit)
  have of_letter : d.isAlpha = true → d.isAlphanum = true :=
    fun letter => (Bool.or_eq_true _ _).mpr (Or.inl letter)
  unfold Text.hexValue? at value
  split at value
  · next digit => exact of_digit digit
  · split at value
    · next lower =>
      have upto_z : d ≤ 'z' := Nat.le_trans lower.2 (by decide)
      have isLower : d.isLower = true :=
        (Bool.and_eq_true _ _).mpr ⟨decide_eq_true lower.1, decide_eq_true upto_z⟩
      exact of_letter ((Bool.or_eq_true _ _).mpr (Or.inr isLower))
    · split at value
      · next upper =>
        have upto_z : d ≤ 'Z' := Nat.le_trans upper.2 (by decide)
        have isUpper : d.isUpper = true := decide_eq_true ⟨upper.1, upto_z⟩
        exact of_letter ((Bool.or_eq_true _ _).mpr (Or.inl isUpper))
      · cases value

theorem alphanumeric_of_mapM {digits : Text} {values : List Nat}
    (read : digits.mapM Text.hexValue? = some values) : ∀ d ∈ digits, d.isAlphanum = true := by
  induction digits generalizing values with
  | nil => intro d member; cases member
  | cons c digits ih =>
    rw [List.mapM_cons] at read
    obtain ⟨v, value, read⟩ := Option.bind_eq_some_iff.mp read
    obtain ⟨rest, tail, _⟩ := Option.bind_eq_some_iff.mp read
    intro d member
    rcases List.mem_cons.mp member with rfl | later
    · exact alphanumeric_of_hexValue value
    · exact ih tail d later

theorem digits_of_hexadecimal {digits : Text} {n : Nat}
    (value : Text.hexadecimal? digits = some n) :
    digits ≠ [] ∧ ∀ d ∈ digits, d.isAlphanum = true := by
  unfold Text.hexadecimal? at value
  split at value
  · cases value
  · next filled =>
    obtain ⟨values, read, _⟩ := Option.map_eq_some_iff.mp value
    constructor
    · simpa using filled
    · intro d member
      exact alphanumeric_of_mapM read d member

theorem denoted?_of_denotes {body : Text} {c : Char} (denotes : Denotes body c) :
    denoted? body = some c := by
  cases denotes with
  | name listed =>
    have all : ∀ p ∈ named, denoted? p.1 = some p.2 := by decide
    exact all _ listed
  | @decimal digits c value =>
    obtain ⟨_, digit⟩ := digits_of_natural value
    have plain : numbered? digits = (Text.natural? digits).bind Text.scalar? := by
      unfold numbered?
      split
      · exact absurd (digit _ List.mem_cons_self) (by decide)
      · exact absurd (digit _ List.mem_cons_self) (by decide)
      · rfl
    show numbered? digits = some c
    rw [plain, value]
    exact scalar?_toNat c
  | hexadecimal mark value =>
    rcases mark with rfl | rfl
    · show (Text.hexadecimal? _).bind Text.scalar? = _
      rw [value]
      exact scalar?_toNat c
    · show (Text.hexadecimal? _).bind Text.scalar? = _
      rw [value]
      exact scalar?_toNat c

theorem shape_of_denotes {body : Text} {c : Char} (denotes : Denotes body c) :
    ∃ sign name, body = sign ++ name ∧ (sign = ['#'] ∨ sign = []) ∧ name ≠ [] ∧
      ∀ d ∈ name, d.isAlphanum = true := by
  cases denotes with
  | name listed =>
    have all : named.all (fun p => !p.1.isEmpty && p.1.all Char.isAlphanum) = true := by decide
    have shape := List.all_eq_true.mp all _ listed
    simp only [Bool.and_eq_true, Bool.not_eq_true', List.isEmpty_eq_false_iff,
      List.all_eq_true] at shape
    exact ⟨[], body, rfl, Or.inr rfl, shape.1, shape.2⟩
  | @decimal digits _ value =>
    obtain ⟨filled, digit⟩ := digits_of_natural value
    refine ⟨['#'], digits, rfl, Or.inl rfl, filled, ?_⟩
    intro d member
    simp only [Char.isAlphanum, Bool.or_eq_true]
    exact Or.inr (digit d member)
  | @hexadecimal x digits _ mark value =>
    obtain ⟨_, letters⟩ := digits_of_hexadecimal value
    refine ⟨['#'], x :: digits, rfl, Or.inl rfl, List.cons_ne_nil _ _, ?_⟩
    intro d member
    rcases List.mem_cons.mp member with rfl | later
    · rcases mark with rfl | rfl <;> decide
    · exact letters d later

theorem sign_name {name : Text} (filled : name ≠ []) (letters : ∀ d ∈ name, d.isAlphanum = true)
    (t : Text) : sign (name ++ t) = ([], name ++ t) := by
  cases name with
  | nil => cases filled rfl
  | cons d name =>
    unfold sign
    split
    · next rest same =>
      obtain ⟨rfl, _⟩ := List.cons.inj same
      exact absurd (letters '#' List.mem_cons_self) (by decide)
    · rfl

theorem body?_of_denotes {body : Text} {c : Char} (denotes : Denotes body c)
    (short : body.length ≤ maxLength) (t : Text) : body? (body ++ ';' :: t) = some body := by
  obtain ⟨first, name, rfl, signs, filled, letters⟩ := shape_of_denotes denotes
  have signed : sign (first ++ name ++ ';' :: t) = (first, name ++ ';' :: t) := by
    rcases signs with rfl | rfl
    · rfl
    · exact sign_name filled letters _
  have taken : (name ++ ';' :: t).takeWhile Char.isAlphanum = name := by
    rw [List.takeWhile_append_of_pos letters, List.takeWhile_cons_of_neg (by decide),
      List.append_nil]
  have dropped : (name ++ ';' :: t).dropWhile Char.isAlphanum = ';' :: t := by
    rw [List.dropWhile_append_of_pos letters, List.dropWhile_cons_of_neg (by decide)]
  unfold body?
  simp only [signed, taken, dropped]
  rw [if_neg]
  simp only [Bool.or_eq_true, List.isEmpty_iff, decide_eq_true_eq]
  rintro (none | long)
  · exact filled none
  · omega

theorem read?_of_denotes {body : Text} {c : Char} (denotes : Denotes body c)
    (short : body.length ≤ maxLength) (t : Text) :
    read? (body ++ ';' :: t) = some (c, body.length + 1) := by
  unfold read?
  rw [body?_of_denotes denotes short, Option.bind_some, denoted?_of_denotes denotes]
  rfl

end SyntaxPaint.Reference

namespace SyntaxPaint.Markup

inductive Written (c : Char) : Text → Prop
  | plain (noMark : c ≠ '&') (noTag : c ≠ '<') : Written c [c]
  | reference {body : Text} (denotes : Reference.Denotes body c)
      (short : body.length ≤ Reference.maxLength) : Written c ('&' :: (body ++ [';']))

theorem ne_nil_of_written {c : Char} {form : Text} (written : Written c form) : form ≠ [] := by
  cases written <;> exact List.cons_ne_nil _ _

theorem noTag_of_written {c : Char} {form : Text} (written : Written c form) : '<' ∉ form := by
  cases written with
  | plain noMark noTag => simpa using noTag.symm
  | reference denotes short =>
    obtain ⟨sign, name, rfl, signs, _, letters⟩ := Reference.shape_of_denotes denotes
    have inName : '<' ∉ name := fun member => absurd (letters '<' member) (by decide)
    rcases signs with rfl | rfl <;> simpa using inName

theorem decode_written {c : Char} {form : Text} (written : Written c form) (t : Text) :
    Reference.decode (form ++ t) = (c, form.length) :: Reference.decode t := by
  cases written with
  | plain noMark noTag =>
    rw [List.singleton_append, Reference.decode, if_neg (by simpa using noMark)]
    rfl
  | @reference body denotes short =>
    have read : Reference.read? (body ++ [';'] ++ t) = some (c, body.length + 1) := by
      rw [List.append_assoc]
      exact Reference.read?_of_denotes denotes short t
    have behind : (body ++ [';'] ++ t).drop (body.length + 1) = t := by
      rw [List.drop_append_of_le_length (by simp)]
      simp
    rw [List.cons_append, Reference.decode, if_pos (by simp), read]
    dsimp only
    rw [behind]
    simp

end SyntaxPaint.Markup
