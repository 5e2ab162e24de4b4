import SyntaxPaint.Run.Basic
import Mathlib.Data.List.Chain
import Mathlib.Data.Option.Basic

/-!
Runs that cover a stretch of positions without gaps and without empty runs, neighbours that look
different, and what a list of runs says about a single position. Merging keeps the attributes of
the front, so the looks of a position are kept up to `Attributes.Alike` only.
-/
namespace SyntaxPaint

/-- The same attributes, or attributes that compare equal; a NaN is only like itself. -/
def Attributes.Alike (a b : Attributes) : Prop := a = b ∨ (a == b) = true

namespace Attributes

@[simp] theorem alike_refl (a : Attributes) : Alike a a := Or.inl rfl

theorem alike_symm {a b : Attributes} (alike : Alike a b) : Alike b a := by
  rcases alike with rfl | equal
  · exact alike_refl a
  · exact Or.inr (beq_symm equal)

theorem alike_trans {a b c : Attributes} (first : Alike a b) (second : Alike b c) : Alike a c := by
  rcases first with rfl | equal
  · exact second
  · rcases second with rfl | equal'
    · exact Or.inr equal
    · exact Or.inr (beq_trans equal equal')

theorem beq_of_alike {a b : Attributes} (definite : a.isDefinite = true) (alike : Alike a b) :
    (a == b) = true := by
  rcases alike with rfl | equal
  · exact beq_self definite
  · exact equal

theorem differ_of_beq {a b c : Attributes} (equal : (a == b) = true) (differ : (b == c) = false) :
    (a == c) = false := by
  rw [Bool.eq_false_iff] at differ ⊢
  intro same
  exact differ (beq_trans (beq_symm equal) same)

end Attributes

def SameLook (a b : Option Attributes) : Prop := Option.Rel Attributes.Alike a b

@[simp] theorem sameLook_refl (a : Option Attributes) : SameLook a a := by
  cases a with
  | none => exact .none
  | some a => exact .some (Attributes.alike_refl a)

theorem sameLook_of_eq {a b : Option Attributes} (equal : a = b) : SameLook a b := by
  subst equal
  exact sameLook_refl a

theorem sameLook_trans {a b c : Option Attributes} (first : SameLook a b)
    (second : SameLook b c) : SameLook a c := by
  cases first with
  | none => exact second
  | some alike =>
    cases second with
    | some alike' => exact .some (Attributes.alike_trans alike alike')

theorem sameLook_symm {a b : Option Attributes} (same : SameLook a b) : SameLook b a := by
  cases same with
  | none => exact .none
  | some alike => exact .some (Attributes.alike_symm alike)

theorem foreground_of_sameLook {a b : Option Attributes} (same : SameLook a b) :
    a.bind (·.foreground) = b.bind (·.foreground) := by
  cases same with
  | none => rfl
  | some alike =>
    rcases alike with rfl | equal
    · rfl
    · exact (Attributes.beq_iff.mp equal).2.1

theorem beq_of_sameLook {a : Option Attributes} {b : Attributes} (definite : b.isDefinite = true)
    (same : SameLook a (some b)) : ∃ c, a = some c ∧ (c == b) = true := by
  cases same with
  | @some c _ alike =>
    exact ⟨c, rfl, Attributes.beq_symm
      (Attributes.beq_of_alike definite (Attributes.alike_symm alike))⟩

theorem sameLook_or {a b c d : Option Attributes} (first : SameLook a b) (second : SameLook c d) :
    SameLook (a.or c) (b.or d) := by
  cases first with
  | none => simpa using second
  | some alike => exact .some alike

namespace Runs

def Tiles (start stop : Nat) : Runs → Prop
  | [] => start = stop
  | r :: rest => r.extent.start = start ∧ start < r.extent.stop ∧ Tiles r.extent.stop stop rest

def Separated (runs : Runs) : Prop :=
  (runs.map (·.attributes)).IsChain fun a b => (a == b) = false

/-- The shortest runs with their looks: they tile the positions and neighbours look different. -/
def Canonical (start stop : Nat) (runs : Runs) : Prop := Tiles start stop runs ∧ Separated runs

def look (runs : Runs) (i : Nat) : Option Attributes :=
  (runs.find? (·.extent.contains i)).map (·.attributes)

theorem contains_eq (e : Extent) (i : Nat) :
    e.contains i = decide (e.start ≤ i ∧ i < e.stop) := by
  simp [Extent.contains]

@[simp] theorem look_nil (i : Nat) : look [] i = none := rfl

theorem look_cons (r : Run) (rest : Runs) (i : Nat) :
    look (r :: rest) i =
      if r.extent.start ≤ i ∧ i < r.extent.stop then some r.attributes else look rest i := by
  unfold look
  rw [List.find?_cons, contains_eq]
  by_cases inside : r.extent.start ≤ i ∧ i < r.extent.stop <;> simp [inside]

theorem look_between (start stop : Nat) (a : Attributes) (rest : Runs) (i : Nat) :
    look (.between start stop a :: rest) i =
      if start ≤ i ∧ i < stop then some a else look rest i := look_cons _ _ _

theorem look_withStop (r : Run) (stop : Nat) (rest : Runs) (i : Nat) :
    look (r.withStop stop :: rest) i =
      if r.extent.start ≤ i ∧ i < stop then some r.attributes else look rest i := look_cons _ _ _

theorem look_withStart (r : Run) (start : Nat) (rest : Runs) (i : Nat) :
    look (r.withStart start :: rest) i =
      if start ≤ i ∧ i < r.extent.stop then some r.attributes else look rest i := look_cons _ _ _

theorem look_append (front back : Runs) (i : Nat) :
    look (front ++ back) i = (look front i).or (look back i) := by
  induction front with
  | nil => simp
  | cons r front ih =>
    rw [List.cons_append, look_cons, look_cons, ih]
    split <;> rfl

theorem tiles_start_le {start stop : Nat} {runs : Runs} (tiles : Tiles start stop runs) :
    start ≤ stop := by
  induction runs generalizing start with
  | nil => exact Nat.le_of_eq tiles
  | cons r rest ih =>
    have := ih tiles.2.2
    have := tiles.2.1
    omega

theorem tiles_append {start stop : Nat} {front back : Runs} :
    Tiles start stop (front ++ back) ↔
      ∃ middle, Tiles start middle front ∧ Tiles middle stop back := by
  induction front generalizing start with
  | nil => simp [Tiles]
  | cons r front ih =>
    simp only [List.cons_append, Tiles, ih]
    constructor
    · rintro ⟨first, valid, middle, left, right⟩
      exact ⟨middle, ⟨first, valid, left⟩, right⟩
    · rintro ⟨middle, ⟨first, valid, left⟩, right⟩
      exact ⟨first, valid, middle, left, right⟩

theorem tiles_eq_nil_iff {start stop : Nat} {runs : Runs} (tiles : Tiles start stop runs) :
    runs = [] ↔ start = stop := by
  cases runs with
  | nil => exact ⟨fun _ => tiles, fun _ => rfl⟩
  | cons r rest =>
    have := tiles_start_le tiles.2.2
    have := tiles.2.1
    simp only [reduceCtorEq, false_iff]
    omega

theorem tiles_member {start stop : Nat} {runs : Runs} (tiles : Tiles start stop runs) {r : Run}
    (member : r ∈ runs) :
    start ≤ r.extent.start ∧ r.extent.start < r.extent.stop ∧ r.extent.stop ≤ stop := by
  obtain ⟨front, back, rfl⟩ := List.append_of_mem member
  obtain ⟨middle, left, first, valid, right⟩ := tiles_append.mp tiles
  have := tiles_start_le left
  have := tiles_start_le right
  omega

theorem stop_of_tiles {stop : Nat} {runs : Runs} (tiles : Tiles 0 stop runs) :
    runs.stop = stop := by
  rcases List.eq_nil_or_concat runs with rfl | ⟨front, r, rfl⟩
  · exact tiles
  · rw [List.concat_eq_append] at tiles ⊢
    obtain ⟨middle, _, _, _, ends⟩ := tiles_append.mp tiles
    have ends : r.extent.stop = stop := ends
    simp [Runs.stop, ends]

theorem tiles_ordered {start stop : Nat} {runs : Runs} (tiles : Tiles start stop runs) :
    runs.Pairwise fun r s => r.extent.stop ≤ s.extent.start := by
  induction runs generalizing start with
  | nil => exact .nil
  | cons r rest ih =>
    obtain ⟨first, valid, tail⟩ := tiles
    exact .cons (fun s member => (tiles_member tail member).1) (ih tail)

theorem index_unique {start stop i j k : Nat} {runs : Runs} (tiles : Tiles start stop runs)
    {r s : Run} (found : runs[j]? = some r) (found' : runs[k]? = some s) (inside : i ∈ r.extent)
    (inside' : i ∈ s.extent) : j = k := by
  have apart := List.pairwise_iff_getElem.mp (tiles_ordered tiles)
  obtain ⟨valid, rfl⟩ := List.getElem?_eq_some_iff.mp found
  obtain ⟨valid', rfl⟩ := List.getElem?_eq_some_iff.mp found'
  rw [Extent.mem_def] at inside inside'
  rcases Nat.lt_trichotomy j k with before | same | behind
  · have := apart j k valid valid' before
    omega
  · exact same
  · have := apart k j valid' valid behind
    omega

theorem mem_of_look {runs : Runs} {i : Nat} {a : Attributes} (found : look runs i = some a) :
    ∃ r ∈ runs, r.attributes = a := by
  obtain ⟨r, found, same⟩ := Option.map_eq_some_iff.mp found
  exact ⟨r, List.mem_of_find?_eq_some found, same⟩

theorem look_none_of_tiles {start stop i : Nat} {runs : Runs} (tiles : Tiles start stop runs)
    (outside : i < start ∨ stop ≤ i) : look runs i = none := by
  induction runs generalizing start with
  | nil => rfl
  | cons r rest ih =>
    obtain ⟨first, valid, tail⟩ := tiles
    have := tiles_start_le tail
    rw [look_cons, if_neg (by omega)]
    exact ih tail (by omega)

theorem look_some_of_tiles {start stop i : Nat} {runs : Runs} (tiles : Tiles start stop runs)
    (lower : start ≤ i) (upper : i < stop) : ∃ a, look runs i = some a := by
  induction runs generalizing start with
  | nil =>
    have equal : start = stop := tiles
    omega
  | cons r rest ih =>
    obtain ⟨first, valid, tail⟩ := tiles
    rw [look_cons]
    by_cases inside : r.extent.start ≤ i ∧ i < r.extent.stop
    · exact ⟨r.attributes, if_pos inside⟩
    · rw [if_neg inside]
      exact ih tail (by omega)

theorem look_append_behind {start middle i : Nat} {front back : Runs}
    (left : Tiles start middle front) (behind : middle ≤ i) :
    look (front ++ back) i = look back i := by
  rw [look_append, look_none_of_tiles left (Or.inr behind), Option.none_or]

theorem look_of_mem {start stop i : Nat} {runs : Runs} (tiles : Tiles start stop runs) {r : Run}
    (member : r ∈ runs) (lower : r.extent.start ≤ i) (upper : i < r.extent.stop) :
    look runs i = some r.attributes := by
  obtain ⟨front, back, rfl⟩ := List.append_of_mem member
  obtain ⟨middle, left, first, valid, right⟩ := tiles_append.mp tiles
  rw [look_append_behind left (by omega), look_cons, if_pos ⟨lower, upper⟩]

end Runs

end SyntaxPaint
