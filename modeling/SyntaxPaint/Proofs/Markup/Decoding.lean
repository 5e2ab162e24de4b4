import SyntaxPaint.Markup.Attributed
import SyntaxPaint.Proofs.Run.Merging

/-!
Replacing references moves the ends of runs. A boundary goes to the number of characters that are
complete before it, so a decoded character has the attributes that stood at the last position of
what it was written with.
-/
namespace SyntaxPaint.Markup
open Runs

def width : List (Char × Nat) → Nat
  | [] => 0
  | (_, n) :: rest => n + width rest

@[simp] theorem width_nil : width [] = 0 := rfl

@[simp] theorem width_cons (c : Char) (n : Nat) (rest : List (Char × Nat)) :
    width ((c, n) :: rest) = n + width rest := rfl

@[simp] theorem width_append (front back : List (Char × Nat)) :
    width (front ++ back) = width front + width back := by
  induction front with
  | nil => simp
  | cons x front ih =>
    rw [List.cons_append, width_cons, width_cons, ih, Nat.add_assoc]

def Inhabited (decoded : List (Char × Nat)) : Prop := ∀ x ∈ decoded, 1 ≤ x.2

theorem inhabited_cons {c : Char} {n : Nat} {rest : List (Char × Nat)} :
    Inhabited ((c, n) :: rest) ↔ 1 ≤ n ∧ Inhabited rest := List.forall_mem_cons

def completed (target : Nat) : List (Char × Nat) → Nat
  | [] => 0
  | (_, n) :: rest => if n ≤ target then completed (target - n) rest + 1 else 0

theorem completed_zero {decoded : List (Char × Nat)} (inhabited : Inhabited decoded) :
    completed 0 decoded = 0 := by
  cases decoded with
  | nil => rfl
  | cons x rest =>
    have := inhabited x List.mem_cons_self
    exact if_neg (by omega)

theorem completed_width {decoded : List (Char × Nat)} :
    completed (width decoded) decoded = decoded.length := by
  induction decoded with
  | nil => rfl
  | cons x rest ih =>
    rw [width_cons, completed, if_pos (Nat.le_add_right _ _), Nat.add_sub_cancel_left, ih]
    rfl

theorem completed_append {target : Nat} {front back : List (Char × Nat)}
    (reached : width front ≤ target) :
    completed target (front ++ back) = front.length + completed (target - width front) back := by
  induction front generalizing target with
  | nil => simp
  | cons x front ih =>
    rw [width_cons] at reached
    rw [List.cons_append, completed, if_pos (by omega), ih (by omega), width_cons,
      List.length_cons, Nat.sub_sub]
    omega

theorem lt_completed_iff {k target : Nat} {decoded : List (Char × Nat)} :
    k < completed target decoded ↔
      k < decoded.length ∧ width (decoded.take (k + 1)) ≤ target := by
  induction decoded generalizing k target with
  | nil => simp [completed]
  | cons x rest ih =>
    obtain ⟨c, n⟩ := x
    simp only [completed, List.take_succ_cons, width_cons, List.length_cons]
    cases k with
    | zero =>
      split <;> simp <;> omega
    | succ k =>
      split
      · rw [Nat.add_lt_add_iff_right, ih]
        omega
      · omega

/-- The remapper has passed the references of the characters before some position that no later
request lies before. -/
def Stands (decoded : List (Char × Nat)) (m : Remapper) (position : Nat) : Prop :=
  ∃ front back, decoded = front ++ back ∧ width front ≤ position ∧
    m.ahead = references (width front) back ∧ m.shift + front.length = width front

theorem stands_start (decoded : List (Char × Nat)) :
    Stands decoded ⟨references 0 decoded, 0⟩ 0 :=
  ⟨[], decoded, rfl, Nat.le_refl _, rfl, rfl⟩

theorem references_start_le {start : Nat} {decoded : List (Char × Nat)} {e : Extent}
    (member : e ∈ references start decoded) : start ≤ e.start := by
  induction decoded generalizing start with
  | nil => cases member
  | cons x rest ih =>
    simp only [references] at member
    split at member
    · have := ih member
      omega
    · rcases List.mem_cons.mp member with rfl | later
      · exact Nat.le_refl _
      · have := ih later
        omega

theorem move_shift {position shift : Nat} {ahead : List Extent}
    (behind : ∀ e ∈ ahead, position ≤ e.start ∧ e.start < e.stop) :
    Remapper.move position shift ahead = (position - shift, ⟨ahead, shift⟩) := by
  cases ahead with
  | nil => rfl
  | cons e ahead =>
    obtain ⟨later, valid⟩ := behind e List.mem_cons_self
    simp only [Remapper.move]
    rw [if_neg (by omega), if_neg (by omega)]

theorem references_valid {start : Nat} {decoded : List (Char × Nat)} {e : Extent}
    (inhabited : Inhabited decoded) (member : e ∈ references start decoded) :
    e.start < e.stop := by
  induction decoded generalizing start with
  | nil => cases member
  | cons x rest ih =>
    obtain ⟨positive, others⟩ := inhabited_cons.mp inhabited
    simp only [references] at member
    split at member
    · exact ih others member
    · rcases List.mem_cons.mp member with rfl | later
      · show start < start + x.2
        omega
      · exact ih others later

theorem move_spec {position : Nat} {back : List (Char × Nat)} (inhabited : Inhabited back)
    (start shift : Nat) (reached : start ≤ position) (fits : position ≤ start + width back)
    (less : shift ≤ start) :
    ∃ passed rest shift', back = passed ++ rest ∧ start + width passed ≤ position ∧
      shift' + passed.length = shift + width passed ∧
      Remapper.move position shift (references start back) =
        (start - shift + completed (position - start) back,
          ⟨references (start + width passed) rest, shift'⟩) := by
  induction back generalizing start shift with
  | nil =>
    have here : position = start := by simp only [width_nil] at fits; omega
    refine ⟨[], [], shift, rfl, reached, rfl, ?_⟩
    rw [here]
    rfl
  | cons x rest ih =>
    obtain ⟨c, n⟩ := x
    obtain ⟨positive, others⟩ := inhabited_cons.mp inhabited
    rw [width_cons] at fits
    by_cases here : position = start
    · refine ⟨[], (c, n) :: rest, shift, rfl, reached, rfl, ?_⟩
      rw [move_shift fun e member =>
          ⟨by have := references_start_le member; omega, references_valid inhabited member⟩,
        here, Nat.sub_self, completed_zero inhabited]
      rfl
    · by_cases single : n = 1
      · subst single
        obtain ⟨passed, rest', shift', split, within, balance, moved⟩ :=
          ih others (start + 1) shift (by omega) (by omega) (by omega)
        refine ⟨(c, 1) :: passed, rest', shift', by rw [split]; rfl, ?_, ?_, ?_⟩
        · rw [width_cons]; omega
        · rw [width_cons, List.length_cons]; omega
        · simp only [references, beq_self_eq_true, if_true, width_cons]
          rw [moved, completed, if_pos (by omega), Nat.sub_sub, Nat.add_assoc start 1]
          congr 1
          omega
      · simp only [references, beq_iff_eq, single, if_false, Remapper.move]
        by_cases whole : start + n ≤ position
        · obtain ⟨passed, rest', shift', split, within, balance, moved⟩ :=
            ih others (start + n) (shift + (n - 1)) (by omega) (by omega) (by omega)
          refine ⟨(c, n) :: passed, rest', shift', by rw [split]; rfl, ?_, ?_, ?_⟩
          · rw [width_cons]; omega
          · rw [width_cons, List.length_cons]; omega
          · have length : Extent.length ⟨start, start + n⟩ = n := by
              simp only [Extent.length]; omega
            rw [if_pos whole, length, moved, completed, if_pos (by omega), Nat.sub_sub, width_cons,
              Nat.add_assoc start n]
            congr 1
            omega
        · refine ⟨[], (c, n) :: rest, shift, rfl, reached, rfl, ?_⟩
          rw [if_neg whole, if_pos (by omega), completed, if_neg (by omega)]
          simp [references, single]

/-- Along ascending positions the remapper counts the characters that are complete. -/
theorem map_spec {decoded : List (Char × Nat)} {m : Remapper} {before position : Nat}
    (inhabited : Inhabited decoded) (stands : Stands decoded m before) (later : before ≤ position)
    (fits : position ≤ width decoded) :
    (m.map position).1 = completed position decoded ∧
      Stands decoded (m.map position).2 position := by
  obtain ⟨front, back, rfl, reached, ahead, balance⟩ := stands
  have back_inhabited : Inhabited back := fun y member =>
    inhabited y (List.mem_append_right front member)
  rw [width_append] at fits
  obtain ⟨passed, rest, shift', split, within, balance', moved⟩ :=
    move_spec back_inhabited (width front) m.shift (by omega) fits (by omega)
  unfold Remapper.map
  rw [ahead, moved]
  constructor
  · rw [completed_append (by omega)]
    dsimp only
    omega
  · refine ⟨front ++ passed, rest, by rw [split, List.append_assoc], ?_, ?_, ?_⟩
    · rw [width_append]; exact within
    · rw [width_append]
    · rw [width_append, List.length_append]
      dsimp only
      omega

def closing (decoded : List (Char × Nat)) (k : Nat) : Nat := width (decoded.take (k + 1)) - 1

theorem width_take_pos {k : Nat} {decoded : List (Char × Nat)} (inhabited : Inhabited decoded)
    (upper : k < decoded.length) : 1 ≤ width (decoded.take (k + 1)) := by
  cases decoded with
  | nil => simp at upper
  | cons x rest =>
    have := inhabited x List.mem_cons_self
    rw [List.take_succ_cons, width_cons]
    omega

theorem closing_lt_iff {k : Nat} {decoded : List (Char × Nat)} (target : Nat)
    (inhabited : Inhabited decoded) (upper : k < decoded.length) :
    closing decoded k < target ↔ k < completed target decoded := by
  have := width_take_pos inhabited upper
  rw [lt_completed_iff]
  unfold closing
  omega

theorem completed_mono {decoded : List (Char × Nat)} {target later : Nat}
    (order : target ≤ later) : completed target decoded ≤ completed later decoded := by
  by_contra less
  obtain ⟨upper, reached⟩ := lt_completed_iff.mp (Nat.lt_of_not_le less)
  have := lt_completed_iff.mpr ⟨upper, Nat.le_trans reached order⟩
  omega

theorem moveRuns_spec {decoded : List (Char × Nat)} {m : Remapper} {start stop : Nat} {runs : Runs}
    (inhabited : Inhabited decoded) (stands : Stands decoded m start)
    (tiles : Tiles start stop runs) (fits : stop ≤ width decoded) :
    Tiles (completed start decoded) (completed stop decoded) (moveRuns m runs) ∧
      ∀ k < decoded.length, look (moveRuns m runs) k = look runs (closing decoded k) := by
  induction runs generalizing start m with
  | nil =>
    have equal : start = stop := tiles
    subst equal
    exact ⟨rfl, fun k _ => rfl⟩
  | cons r rest ih =>
    obtain ⟨rfl, valid, tail⟩ := tiles
    have room := tiles_start_le tail
    obtain ⟨started, between⟩ := map_spec inhabited stands (Nat.le_refl _) (by omega)
    obtain ⟨stopped, behind⟩ := map_spec inhabited between (Nat.le_of_lt valid) (by omega)
    obtain ⟨moved, looks⟩ := ih behind tail
    have grows : completed r.extent.start decoded ≤ completed r.extent.stop decoded :=
      completed_mono (Nat.le_of_lt valid)
    simp only [moveRuns, started, stopped]
    by_cases empty : completed r.extent.stop decoded ≤ completed r.extent.start decoded
    · rw [if_pos empty, Nat.le_antisymm grows empty]
      constructor
      · exact moved
      · intro k upper
        have left := closing_lt_iff r.extent.start inhabited upper
        have right := closing_lt_iff r.extent.stop inhabited upper
        rw [looks k upper, look_cons, if_neg (by omega)]
    · rw [if_neg empty]
      constructor
      · exact ⟨rfl, by simp only [Run.between]; omega, moved⟩
      · intro k upper
        have left := closing_lt_iff r.extent.start inhabited upper
        have right := closing_lt_iff r.extent.stop inhabited upper
        have inside : completed r.extent.start decoded ≤ k ∧ k < completed r.extent.stop decoded ↔
            r.extent.start ≤ closing decoded k ∧ closing decoded k < r.extent.stop := by omega
        rw [look_cons, look_cons, looks k upper]
        exact if_congr inside rfl rfl

/- The characters of a text. -/

theorem sign_append (t : Text) : (Reference.sign t).1 ++ (Reference.sign t).2 = t := by
  unfold Reference.sign
  split <;> rfl

theorem body?_eq_some {t body : Text} (found : Reference.body? t = some body) :
    ∃ rest, t = body ++ ';' :: rest := by
  unfold Reference.body? at found
  dsimp only at found
  split at found
  · next rest behind =>
    split at found
    · cases found
    · have parts := List.takeWhile_append_dropWhile (p := Char.isAlphanum)
        (l := (Reference.sign t).2)
      rw [behind] at parts
      refine ⟨rest, ?_⟩
      rw [← Option.some.inj found, List.append_assoc, parts, sign_append]
  · cases found

theorem read?_bound {t : Text} {c : Char} {n : Nat} (found : Reference.read? t = some (c, n)) :
    n ≤ t.length := by
  unfold Reference.read? at found
  obtain ⟨body, isBody, denoted⟩ := Option.bind_eq_some_iff.mp found
  obtain ⟨d, _, same⟩ := Option.map_eq_some_iff.mp denoted
  obtain ⟨_, rfl⟩ := Prod.mk.inj same
  obtain ⟨rest, rfl⟩ := body?_eq_some isBody
  simp

theorem decode_spec (t : Text) :
    Inhabited (Reference.decode t) ∧ width (Reference.decode t) = t.length := by
  induction t using Reference.decode.induct with
  | case1 => simp [Reference.decode, Inhabited]
  | case2 c t isMark d n found ih =>
    have bound := read?_bound found
    rw [Reference.decode, if_pos isMark, found]
    constructor
    · exact inhabited_cons.mpr ⟨Nat.le_add_left _ _, ih.1⟩
    · rw [width_cons, ih.2, List.length_drop, List.length_cons]
      omega
  | case3 c t isMark none ih =>
    rw [Reference.decode, if_pos isMark, none]
    constructor
    · exact inhabited_cons.mpr ⟨Nat.le_refl _, ih.1⟩
    · rw [width_cons, ih.2, List.length_cons, Nat.add_comm]
  | case4 c t isPlain ih =>
    rw [Reference.decode, if_neg isPlain]
    constructor
    · exact inhabited_cons.mpr ⟨Nat.le_refl _, ih.1⟩
    · rw [width_cons, ih.2, List.length_cons, Nat.add_comm]

theorem width_of_references_nil {start : Nat} {decoded : List (Char × Nat)}
    (none : references start decoded = []) (n : Nat) :
    width (decoded.take n) = (decoded.take n).length := by
  induction decoded generalizing start n with
  | nil => simp
  | cons x rest ih =>
    obtain ⟨c, m⟩ := x
    simp only [references] at none
    split at none
    · next single =>
      obtain rfl : m = 1 := by simpa using single
      cases n with
      | zero => rfl
      | succ n => rw [List.take_succ_cons, width_cons, List.length_cons, ih none, Nat.add_comm]
    · cases none

/-- Decoding carries runs over the encoded text to runs over its characters. -/
theorem decode_runs {t : Text} {runs : Runs} (canonical : Canonical 0 t.length runs) :
    Canonical 0 (decode t runs).text.length (decode t runs).runs ∧
      ∀ k < (decode t runs).text.length,
        SameLook (look (decode t runs).runs k) (look runs (closing (Reference.decode t) k)) := by
  obtain ⟨inhabited, total⟩ := decode_spec t
  unfold decode
  simp only [List.length_map]
  generalize Reference.decode t = decoded at inhabited total ⊢
  cases replaced : references 0 decoded with
  | nil =>
    simp only [List.isEmpty_nil, if_true]
    have singles := width_of_references_nil replaced
    constructor
    · have length : decoded.length = t.length := by
        rw [← total, ← List.take_length (l := decoded), singles, List.take_length]
      rw [length]
      exact canonical
    · intro k upper
      apply sameLook_of_eq
      have here : closing decoded k = k := by
        unfold closing
        rw [singles, List.length_take]
        omega
      rw [here]
  | cons e ahead =>
    simp only [List.isEmpty_cons, Bool.false_eq_true, if_false]
    obtain ⟨moved, looks⟩ :=
      moveRuns_spec inhabited (stands_start decoded) canonical.1 (Nat.le_of_eq total.symm)
    rw [replaced, completed_zero inhabited, ← total, completed_width] at moved
    rw [replaced] at looks
    constructor
    · exact canonical_coalesce moved
    · intro k upper
      rw [← looks k upper]
      exact look_coalesce moved k

end SyntaxPaint.Markup
