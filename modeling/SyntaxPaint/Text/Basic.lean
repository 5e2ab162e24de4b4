/-!
Text is a list of Unicode scalar values, so every offset in this library counts characters.
This module holds the searches and cuts that the readers share. `cutAt_eq_some` says that a cut
loses nothing, which is also why every reader that cuts its input comes to an end. Blank characters
are those with Unicode's `White_Space` property; trimming and splitting into words use this class
everywhere, in style sheets, class lists and settings alike.
-/
namespace SyntaxPaint

abbrev Text := List Char

namespace Text

def cutAt (needle : Text) : Text → Option (Text × Text)
  | [] => if needle.isEmpty then some ([], []) else none
  | c :: t =>
    if needle.isPrefixOf (c :: t) then some ([], (c :: t).drop needle.length)
    else (cutAt needle t).map fun cut => (c :: cut.1, cut.2)

theorem append_drop_of_isPrefixOf {p t : Text} (h : p.isPrefixOf t = true) :
    p ++ t.drop p.length = t := by
  obtain ⟨r, rfl⟩ := List.isPrefixOf_iff_prefix.1 h
  simp

theorem cutAt_eq_some {needle t before after : Text}
    (h : cutAt needle t = some (before, after)) : t = before ++ needle ++ after := by
  induction t generalizing before with
  | nil =>
    cases needle with
    | nil => simp_all [cutAt]
    | cons a n => simp [cutAt] at h
  | cons c t ih =>
    rw [cutAt] at h
    split at h
    · next hp =>
      obtain ⟨rfl, rfl⟩ := Prod.mk.inj (Option.some.inj h)
      exact (append_drop_of_isPrefixOf hp).symm
    · obtain ⟨cut, hcut, heq⟩ := Option.map_eq_some_iff.1 h
      obtain ⟨rfl, rfl⟩ := Prod.mk.inj heq
      simp [ih hcut]

theorem length_lt_of_cutAt {needle t before after : Text} (hn : needle ≠ [])
    (h : cutAt needle t = some (before, after)) : after.length < t.length := by
  have := List.length_pos_iff.2 hn
  have := congrArg List.length (cutAt_eq_some h)
  simp only [List.length_append] at this
  omega

def asciiLower (t : Text) : Text := t.map Char.toLower

def sameIgnoringCase (a b : Text) : Bool := asciiLower a == asciiLower b

def dropSuffix? (suffix t : Text) : Option Text :=
  if suffix.isSuffixOf t then some (t.take (t.length - suffix.length)) else none

theorem dropSuffix?_append (t suffix : Text) : dropSuffix? suffix (t ++ suffix) = some t := by
  have h : suffix.isSuffixOf (t ++ suffix) = true := List.isSuffixOf_iff_suffix.2 ⟨t, rfl⟩
  simp [dropSuffix?, h]

theorem dropSuffix?_eq_some {suffix t u : Text} (h : dropSuffix? suffix t = some u) :
    t = u ++ suffix := by
  unfold dropSuffix? at h
  split at h
  · next hs =>
    obtain ⟨r, rfl⟩ := List.isSuffixOf_iff_suffix.1 hs
    simp at h
    rw [h]
  · simp at h

def ofNat (n : Nat) : Text := Nat.toDigits 10 n

def natural? (t : Text) : Option Nat :=
  if !t.isEmpty && t.all Char.isDigit then
    some (t.foldl (fun n c => 10 * n + (c.toNat - '0'.toNat)) 0)
  else none

theorem digits_ofNat (n : Nat) : ∀ c ∈ ofNat n, c.isDigit = true :=
  fun _ => Nat.isDigit_of_mem_toDigits (by decide) (by decide)

theorem natural?_ofNat (n : Nat) : natural? (ofNat n) = some n := by
  have filled : (ofNat n).isEmpty = false := List.isEmpty_eq_false_iff.mpr Nat.toDigits_ne_nil
  have value : (ofNat n).foldl (fun n c => 10 * n + (c.toNat - '0'.toNat)) 0 = n :=
    Nat.ofDigitChars_toDigits (by decide) (by decide)
  rw [natural?, filled, List.all_eq_true.mpr (digits_ofNat n), value]
  rfl

/-- The value of an optional plus sign and decimal digits, if it is below `2 ^ bits`. -/
def word? (bits : Nat) (t : Text) : Option Nat :=
  let digits := match t with
    | '+' :: digits => digits
    | digits => digits
  (natural? digits).filter (· < Nat.pow 2 bits)

/-- Lexicographic order by code point, which is also the order of the UTF-8 encodings. -/
def atMost (a b : Text) : Bool := !List.lex b a

theorem atMost_iff {a b : Text} : atMost a b = true ↔ ¬ List.lex b a = true := by
  rw [atMost, Bool.not_eq_true', Bool.not_eq_true]

theorem atMost_trans {a b c : Text} (first : atMost a b = true) (second : atMost b c = true) :
    atMost a c = true := by
  rw [atMost_iff, List.lex_eq_true_iff_lt] at *
  exact List.le_trans first second

theorem atMost_total (a b : Text) : (atMost a b || atMost b a) = true := by
  rw [Bool.or_eq_true, atMost_iff, atMost_iff, List.lex_eq_true_iff_lt, List.lex_eq_true_iff_lt]
  exact List.le_total a b

theorem atMost_antisymm {a b : Text} (first : atMost a b = true) (second : atMost b a = true) :
    a = b := by
  rw [atMost_iff, List.lex_eq_true_iff_lt] at *
  exact List.le_antisymm first second

def isBlank (c : Char) : Bool :=
  let n := c.toNat
  (9 ≤ n && n ≤ 13) || n == 0x20 || n == 0x85 || n == 0xa0 || n == 0x1680 ||
    (0x2000 ≤ n && n ≤ 0x200a) || n == 0x2028 || n == 0x2029 || n == 0x202f || n == 0x205f ||
    n == 0x3000

def trimStart (t : Text) : Text := t.dropWhile isBlank

def trimEnd (t : Text) : Text := (t.reverse.dropWhile isBlank).reverse

def trim (t : Text) : Text := trimEnd (trimStart t)

def words (t : Text) : List Text := (t.splitOnP isBlank).filter (!·.isEmpty)

end Text

end SyntaxPaint
