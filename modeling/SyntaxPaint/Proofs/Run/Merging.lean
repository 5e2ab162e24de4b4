import SyntaxPaint.Proofs.Run.Tiling

/-!
Cutting runs at a position, moving them and merging them at a seam. Canonical runs stay canonical:
only the two runs next to a seam can look equal, so the merge there is the only one needed.
-/
namespace SyntaxPaint.Runs

theorem separated_of_infix {runs others : Runs} (separated : Separated others)
    (part : runs.map (·.attributes) <:+: others.map (·.attributes)) : Separated runs :=
  List.IsChain.infix separated part

theorem separated_append {front back : Runs} :
    Separated (front ++ back) ↔ Separated front ∧ Separated back ∧
      ∀ r ∈ front.getLast?, ∀ s ∈ back.head?, (r.attributes == s.attributes) = false := by
  simp only [Separated, List.map_append, List.isChain_append, List.getLast?_map, List.head?_map,
    Option.mem_def, Option.map_eq_some_iff]
  constructor
  · rintro ⟨left, right, seam⟩
    exact ⟨left, right, fun r last s first => seam _ ⟨r, last, rfl⟩ _ ⟨s, first, rfl⟩⟩
  · rintro ⟨left, right, seam⟩
    refine ⟨left, right, ?_⟩
    rintro _ ⟨r, last, rfl⟩ _ ⟨s, first, rfl⟩
    exact seam r last s first

theorem separated_tail {r : Run} {rest : Runs} (separated : Separated (r :: rest)) :
    Separated rest := List.IsChain.tail separated

theorem separated_cons {r : Run} {rest : Runs} :
    Separated (r :: rest) ↔
      (∀ s ∈ rest.head?, (r.attributes == s.attributes) = false) ∧ Separated rest := by
  have split : Separated ([r] ++ rest) ↔ _ := separated_append
  rw [List.singleton_append] at split
  rw [split]
  constructor
  · rintro ⟨_, right, seam⟩
    exact ⟨seam r rfl, right⟩
  · rintro ⟨seam, right⟩
    refine ⟨List.isChain_singleton _, right, ?_⟩
    intro last isLast s first
    obtain rfl : r = last := by simpa using isLast
    exact seam s first

theorem canonical_nil (start : Nat) : Canonical start start [] := ⟨rfl, List.isChain_nil⟩

theorem canonical_singleton {start stop : Nat} (valid : start < stop) (a : Attributes) :
    Canonical start stop [.between start stop a] :=
  ⟨⟨rfl, valid, rfl⟩, List.isChain_singleton _⟩

theorem canonical_tail {start stop : Nat} {r : Run} {rest : Runs}
    (canonical : Canonical start stop (r :: rest)) : Canonical r.extent.stop stop rest :=
  ⟨canonical.1.2.2, separated_tail canonical.2⟩

/- Cutting. -/

theorem tiles_cut {start pos stop : Nat} {runs : Runs} (tiles : Tiles start stop runs)
    (lower : start ≤ pos) (upper : pos ≤ stop) :
    Tiles start pos (runs.cut pos).1 ∧ Tiles pos stop (runs.cut pos).2 := by
  induction runs generalizing start with
  | nil =>
    have equal : start = stop := tiles
    exact ⟨by simp only [cut, Tiles]; omega, by simp only [cut, Tiles]; omega⟩
  | cons r rest ih =>
    obtain ⟨first, valid, tail⟩ := tiles
    simp only [cut]
    split
    · next before =>
      obtain ⟨left, right⟩ := ih tail before
      exact ⟨⟨first, valid, left⟩, right⟩
    · split
      · next across =>
        refine ⟨⟨first, ?_, rfl⟩, rfl, ?_, tail⟩
        · simp only [Run.withStop]; omega
        · simp only [Run.withStart]; omega
      · have equal : start = pos := by omega
        subst equal
        exact ⟨rfl, first, valid, tail⟩

theorem cut_attributes (pos : Nat) (runs : Runs) :
    (runs.cut pos).1.map (·.attributes) <+: runs.map (·.attributes) ∧
      (runs.cut pos).2.map (·.attributes) <:+ runs.map (·.attributes) := by
  induction runs with
  | nil => simp [cut]
  | cons r rest ih =>
    simp only [cut]
    split
    · obtain ⟨left, right⟩ := ih
      exact ⟨List.cons_prefix_cons.mpr ⟨rfl, left⟩, right.trans (List.suffix_cons _ _)⟩
    · split
      · refine ⟨List.cons_prefix_cons.mpr ⟨rfl, List.nil_prefix⟩, ?_⟩
        exact List.suffix_refl _
      · exact ⟨List.nil_prefix, List.suffix_refl _⟩

theorem canonical_cut {start pos stop : Nat} {runs : Runs}
    (canonical : Canonical start stop runs) (lower : start ≤ pos) (upper : pos ≤ stop) :
    Canonical start pos (runs.cut pos).1 ∧ Canonical pos stop (runs.cut pos).2 := by
  obtain ⟨left, right⟩ := tiles_cut canonical.1 lower upper
  obtain ⟨front, back⟩ := cut_attributes pos runs
  exact ⟨⟨left, separated_of_infix canonical.2 front.isInfix⟩,
    ⟨right, separated_of_infix canonical.2 back.isInfix⟩⟩

theorem look_cut {start stop : Nat} {runs : Runs} (tiles : Tiles start stop runs) (pos i : Nat) :
    look (runs.cut pos).1 i = (if i < pos then look runs i else none) ∧
      look (runs.cut pos).2 i = if pos ≤ i then look runs i else none := by
  induction runs generalizing start with
  | nil => simp [cut]
  | cons r rest ih =>
    obtain ⟨first, valid, tail⟩ := tiles
    obtain ⟨left, right⟩ := ih tail
    simp only [cut]
    split
    · next before =>
      constructor
      · rw [look_cons, look_cons, left]
        split_ifs <;> first | rfl | omega
      · rw [right, look_cons]
        split_ifs <;> first | rfl | omega
    · have none_before : i < r.extent.stop → look rest i = none :=
        fun h => look_none_of_tiles tail (Or.inl h)
      split
      · next across =>
        constructor
        · rw [look_withStop, look_cons, look_nil]
          split_ifs <;> first | rfl | omega | exact (none_before (by omega)).symm
        · rw [look_withStart, look_cons]
          split_ifs <;> first | rfl | omega | exact none_before (by omega)
      · constructor
        · rw [look_cons, look_nil]
          split_ifs <;> first | rfl | omega | exact (none_before (by omega)).symm
        · rw [look_cons]
          split_ifs <;> first | rfl | omega | exact none_before (by omega)

/- Moving. -/

theorem tiles_shift {start stop removed added : Nat} {runs : Runs}
    (tiles : Tiles start stop runs) (room : removed ≤ start) :
    Tiles (start + added - removed) (stop + added - removed) (shift removed added runs) := by
  induction runs generalizing start with
  | nil =>
    have equal : start = stop := tiles
    subst equal
    rfl
  | cons r rest ih =>
    obtain ⟨first, valid, tail⟩ := tiles
    have moved := ih tail (by omega)
    refine ⟨?_, ?_, moved⟩
    · simp only [first]
    · simp only; omega

theorem canonical_shift {start stop removed added : Nat} {runs : Runs}
    (canonical : Canonical start stop runs) (room : removed ≤ start) :
    Canonical (start + added - removed) (stop + added - removed) (shift removed added runs) := by
  refine ⟨tiles_shift canonical.1 room, ?_⟩
  have same : (shift removed added runs).map (·.attributes) = runs.map (·.attributes) := by
    simp [shift, Function.comp_def]
  unfold Separated
  rw [same]
  exact canonical.2

/- Merging. -/

theorem mergeAt_seam (front after : Runs) (r : Run) :
    mergeAt (front.length + 1) (front ++ r :: after) = front ++ join r after := by
  induction front with
  | nil => rfl
  | cons s front ih =>
    simp only [List.length_cons, List.cons_append, mergeAt]
    rw [ih]

theorem mergeAt_behind (front back : Runs) (i : Nat) :
    mergeAt (front.length + (i + 1)) (front ++ back) = front ++ mergeAt (i + 1) back := by
  induction front with
  | nil => rw [List.length_nil, Nat.zero_add, List.nil_append, List.nil_append]
  | cons s front ih =>
    have index : (s :: front).length + (i + 1) = front.length + i + 2 := by
      rw [List.length_cons]; omega
    rw [index, List.cons_append, mergeAt]
    exact congrArg (s :: ·) ih

theorem join_front (r : Run) (after : Runs) :
    ∃ s rest, join r after = s :: rest ∧ s.attributes = r.attributes := by
  cases after with
  | nil => exact ⟨r, [], rfl, rfl⟩
  | cons t rest =>
    simp only [join]
    split
    · exact ⟨_, _, rfl, rfl⟩
    · exact ⟨_, _, rfl, rfl⟩

theorem continuedBy_iff {r s : Run} :
    r.continuedBy s = true ↔
      r.extent.stop = s.extent.start ∧ (r.attributes == s.attributes) = true := by
  simp [Run.continuedBy]

theorem canonical_join {start stop : Nat} {r : Run} {after : Runs}
    (tiles : Tiles start stop (r :: after)) (separated : Separated after) :
    Canonical start stop (join r after) := by
  obtain ⟨first, valid, tail⟩ := tiles
  cases after with
  | nil => exact ⟨⟨first, valid, tail⟩, List.isChain_singleton _⟩
  | cons s rest =>
    obtain ⟨follows, valid', tail'⟩ := tail
    obtain ⟨seam, separated'⟩ := separated_cons.mp separated
    simp only [join]
    split
    · next continued =>
      have equal := (continuedBy_iff.mp continued).2
      refine ⟨⟨first, Nat.lt_trans valid valid', tail'⟩, separated_cons.mpr ⟨?_, separated'⟩⟩
      intro t next
      exact Attributes.differ_of_beq equal (seam t next)
    · next apart =>
      refine ⟨⟨first, valid, follows, valid', tail'⟩, separated_cons.mpr ⟨?_, separated⟩⟩
      intro t next
      obtain rfl : s = t := by simpa using next
      rw [continuedBy_iff] at apart
      exact Bool.eq_false_iff.mpr fun equal => apart ⟨follows.symm, equal⟩

theorem canonical_seam {start middle stop : Nat} {before after : Runs}
    (left : Canonical start middle before) (right : Canonical middle stop after) :
    Canonical start stop (mergeAt before.length (before ++ after)) := by
  rcases List.eq_nil_or_concat before with rfl | ⟨front, r, rfl⟩
  · have equal : start = middle := left.1
    subst equal
    exact right
  · simp only [List.concat_eq_append] at left ⊢
    rw [List.length_append, List.length_singleton, List.append_assoc, List.singleton_append,
      mergeAt_seam]
    obtain ⟨middle', tiles, first, valid, ends⟩ := tiles_append.mp left.1
    obtain ⟨separated, _, seam⟩ := separated_append.mp left.2
    have ends : r.extent.stop = middle := ends
    subst ends
    obtain ⟨tiles', separated'⟩ := canonical_join (r := r) ⟨first, valid, right.1⟩ right.2
    refine ⟨tiles_append.mpr ⟨middle', tiles, tiles'⟩,
      separated_append.mpr ⟨separated, separated', ?_⟩⟩
    intro last isLast t isFirst
    obtain ⟨s, rest, joined, same⟩ := join_front r after
    rw [joined] at isFirst
    obtain rfl : s = t := by simpa using isFirst
    rw [same]
    exact seam last isLast r rfl

theorem look_join {start stop : Nat} {r : Run} {after : Runs}
    (tiles : Tiles start stop (r :: after)) (i : Nat) :
    SameLook (look (join r after) i) (look (r :: after) i) := by
  cases after with
  | nil => exact sameLook_refl _
  | cons s rest =>
    obtain ⟨first, valid, follows, valid', tail'⟩ := tiles
    simp only [join]
    split
    · next continued =>
      have equal := (continuedBy_iff.mp continued).2
      rw [look_withStop, look_cons, look_cons]
      split_ifs <;> first | exact sameLook_refl _ | omega | exact .some (Or.inr equal)
    · exact sameLook_refl _

theorem look_seam {start middle stop : Nat} {before after : Runs}
    (left : Tiles start middle before) (right : Tiles middle stop after) (i : Nat) :
    SameLook (look (mergeAt before.length (before ++ after)) i) (look (before ++ after) i) := by
  rcases List.eq_nil_or_concat before with rfl | ⟨front, r, rfl⟩
  · exact sameLook_refl _
  · simp only [List.concat_eq_append] at left ⊢
    rw [List.length_append, List.length_singleton, List.append_assoc, List.singleton_append,
      mergeAt_seam]
    obtain ⟨middle', _, first, valid, ends⟩ := tiles_append.mp left
    have ends : r.extent.stop = middle := ends
    subst ends
    rw [look_append, look_append]
    exact sameLook_or (sameLook_refl _) (look_join ⟨first, valid, right⟩ i)

theorem canonical_push {start middle : Nat} {built : Runs} {r : Run}
    (canonical : Canonical start middle built) (follows : r.extent.start = middle)
    (valid : middle < r.extent.stop) : Canonical start r.extent.stop (built.push r) :=
  canonical_seam canonical ⟨⟨follows, valid, rfl⟩, List.isChain_singleton _⟩

theorem look_push {start middle : Nat} {built : Runs} {r : Run}
    (tiles : Tiles start middle built) (follows : r.extent.start = middle)
    (valid : middle < r.extent.stop) (i : Nat) :
    SameLook (look (built.push r) i) ((look built i).or (look [r] i)) := by
  have single : Tiles middle r.extent.stop [r] := ⟨follows, valid, rfl⟩
  rw [← look_append]
  exact look_seam tiles single i

theorem foldl_push {start middle stop : Nat} {built runs : Runs}
    (canonical : Canonical start middle built) (tiles : Tiles middle stop runs) :
    Canonical start stop (runs.foldl push built) ∧
      ∀ i, SameLook (look (runs.foldl push built) i) ((look built i).or (look runs i)) := by
  induction runs generalizing middle built with
  | nil =>
    have equal : middle = stop := tiles
    subst equal
    exact ⟨canonical, fun i => by simp⟩
  | cons r rest ih =>
    obtain ⟨first, valid, tail⟩ := tiles
    obtain ⟨canonical', looks⟩ := ih (canonical_push canonical first valid) tail
    refine ⟨canonical', fun i => sameLook_trans (looks i) ?_⟩
    have pushed := look_push canonical.1 first valid i
    have split : look (r :: rest) i = (look [r] i).or (look rest i) := look_append [r] rest i
    rw [split, ← Option.or_assoc]
    exact sameLook_or pushed (sameLook_refl _)

theorem canonical_coalesce {start stop : Nat} {runs : Runs} (tiles : Tiles start stop runs) :
    Canonical start stop runs.coalesce := (foldl_push (canonical_nil start) tiles).1

theorem look_coalesce {start stop : Nat} {runs : Runs} (tiles : Tiles start stop runs) (i : Nat) :
    SameLook (look runs.coalesce i) (look runs i) :=
  (foldl_push (canonical_nil start) tiles).2 i

/- Encoding. -/

theorem tiles_single (start : Nat) (labels : List Attributes) :
    Tiles start (start + labels.length) (single start labels) := by
  induction labels generalizing start with
  | nil => rfl
  | cons a labels ih =>
    have tail := ih (start + 1)
    rw [Nat.add_assoc, Nat.add_comm 1] at tail
    exact ⟨rfl, Nat.lt_succ_self start, tail⟩

theorem look_single (start i : Nat) (labels : List Attributes) :
    look (single start labels) (start + i) = labels[i]? := by
  induction labels generalizing start i with
  | nil => rfl
  | cons a labels ih =>
    simp only [single]
    rw [look_between]
    cases i with
    | zero => exact if_pos (by omega)
    | succ i =>
      have next := ih (start + 1) i
      rw [Nat.add_assoc, Nat.add_comm 1] at next
      rw [if_neg (by omega), next]
      rfl

/-- The encoding of labels is canonical and gives every position its label. -/
theorem encode_spec (labels : List Attributes) :
    Canonical 0 labels.length (encode labels) ∧
      ∀ i, SameLook (look (encode labels) i) labels[i]? := by
  have tiles := tiles_single 0 labels
  rw [Nat.zero_add] at tiles
  constructor
  · exact canonical_coalesce tiles
  · intro i
    have label := look_single 0 i labels
    rw [Nat.zero_add] at label
    rw [← label]
    exact look_coalesce tiles i

end SyntaxPaint.Runs
