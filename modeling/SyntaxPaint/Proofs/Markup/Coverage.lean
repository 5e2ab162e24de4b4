import SyntaxPaint.Proofs.Markup.Decoding
import SyntaxPaint.Proofs.Markup.Scanning
import SyntaxPaint.Proofs.Run.Lookup
import SyntaxPaint.Proofs.Theme.Definite

/-!
The runs of markup cover its text: the pieces between tags are never empty, their runs follow each
other, and decoding carries that over to the characters.
-/
namespace SyntaxPaint.Markup
open Runs

def spread (pieces : List (Text × Attributes)) : List (Char × Attributes) :=
  pieces.flatMap fun p => p.1.map (·, p.2)

@[simp] theorem spread_nil : spread [] = [] := rfl

@[simp] theorem spread_cons (t : Text) (a : Attributes) (rest : List (Text × Attributes)) :
    spread ((t, a) :: rest) = t.map (·, a) ++ spread rest := rfl

theorem spread_text (pieces : List (Text × Attributes)) :
    (spread pieces).map (·.1) = pieces.flatMap (·.1) := by
  induction pieces with
  | nil => rfl
  | cons p rest ih =>
    rw [spread_cons, List.map_append, ih, List.flatMap_cons, List.map_map]
    simp [Function.comp_def]

def Token.Filled : Token → Prop
  | .text content => content ≠ []
  | _ => True

theorem filled_textToken {t : Text} {token : Token} (member : token ∈ textToken t) :
    token.Filled := by
  unfold textToken at member
  split at member
  · cases member
  · next filled =>
    obtain rfl := List.mem_singleton.mp member
    simpa [Token.Filled] using filled

theorem filled_of_scan {t : Text} {ts : List Token} (scan : Scan t ts) :
    ∀ token ∈ ts, token.Filled := by
  have behind : ∀ {plain : Text} {next : Token} {ts : List Token}, next.Filled →
      (∀ token ∈ ts, token.Filled) → ∀ token ∈ textToken plain ++ next :: ts, token.Filled := by
    intro plain next ts filled rest token member
    rcases List.mem_append.mp member with front | tail
    · exact filled_textToken front
    · rcases List.mem_cons.mp tail with rfl | later
      · exact filled
      · exact rest token later
  induction scan with
  | stop noTag => exact fun token member => filled_textToken member
  | opening _ _ _ ih => exact behind trivial ih
  | closing _ _ ih => exact behind trivial ih
  | lone _ _ _ _ ih => exact behind (List.cons_ne_nil _ _) ih

theorem filled_segments {ts : List Token} (filled : ∀ token ∈ ts, token.Filled)
    (style : List Text → Attributes) (stack : List Text) :
    ∀ p ∈ segments style stack ts, p.1 ≠ [] := by
  induction ts generalizing stack with
  | nil => intro p member; cases member
  | cons token ts ih =>
    have rest := ih fun t later => filled t (List.mem_cons_of_mem _ later)
    cases token with
    | opening classes => exact rest _
    | closing => exact rest _
    | text content =>
      intro p member
      rcases List.mem_cons.mp member with rfl | later
      · exact filled _ List.mem_cons_self
      · exact rest _ p later

theorem tiles_segmentRuns {pieces : List (Text × Attributes)} (filled : ∀ p ∈ pieces, p.1 ≠ [])
    (start : Nat) :
    Tiles start (start + (pieces.flatMap (·.1)).length) (segmentRuns start pieces) := by
  induction pieces generalizing start with
  | nil => rfl
  | cons p rest ih =>
    have some := List.length_pos_iff.mpr (filled p List.mem_cons_self)
    have tail := ih (fun q later => filled q (List.mem_cons_of_mem _ later)) (start + p.1.length)
    rw [Nat.add_assoc, ← List.length_append] at tail
    refine ⟨rfl, ?_, tail⟩
    show start < start + p.1.length
    omega

theorem look_segmentRuns (pieces : List (Text × Attributes)) (start i : Nat) :
    look (segmentRuns start pieces) (start + i) = (spread pieces)[i]?.map (·.2) := by
  induction pieces generalizing start i with
  | nil => rfl
  | cons p rest ih =>
    obtain ⟨t, a⟩ := p
    simp only [segmentRuns, spread_cons]
    rw [look_between]
    by_cases inside : i < t.length
    · rw [if_pos (by omega), List.getElem?_append_left (by simpa using inside)]
      simp [inside]
    · have later := ih (start + t.length) (i - t.length)
      have index : start + t.length + (i - t.length) = start + i := by omega
      rw [index] at later
      rw [if_neg (by omega), List.getElem?_append_right (by simpa using inside), List.length_map]
      exact later

/-- Markup that can be scanned stands for its decoded characters, and a character looks as the last
position of what it is written with. -/
theorem attributed_of_scan {markup : Text} {ts : List Token} (theme : Theme)
    (scan : Scan markup ts) :
    let styled := spread (segments theme.resolve [documentClass] ts)
    let decoded := Reference.decode (styled.map (·.1))
    ∃ t, attributed theme markup = .ok t ∧ t.text = decoded.map (·.1) ∧
      Canonical 0 t.text.length t.runs ∧
      ∀ k < t.text.length, SameLook (look t.runs k) (styled[closing decoded k]?.map (·.2)) := by
  intro styled decoded
  let pieces := segments theme.resolve [documentClass] ts
  have text : styled.map (·.1) = pieces.flatMap (·.1) := spread_text pieces
  have read : attributed theme markup =
      .ok (decode (pieces.flatMap (·.1)) (segmentRuns 0 pieces).coalesce) := by
    rw [attributed, tokens_of_scan scan]
  have filled : ∀ p ∈ pieces, p.1 ≠ [] := filled_segments (filled_of_scan scan) _ _
  have tiles := tiles_segmentRuns filled 0
  rw [Nat.zero_add] at tiles
  obtain ⟨canonical, looks⟩ := decode_runs (canonical_coalesce tiles)
  rw [← text] at read canonical looks
  refine ⟨_, read, rfl, canonical, ?_⟩
  intro k upper
  have coalesced := look_coalesce tiles (closing decoded k)
  have same := look_segmentRuns pieces 0 (closing decoded k)
  rw [Nat.zero_add] at same
  rw [same] at coalesced
  exact sameLook_trans (looks k upper) coalesced

theorem scan_of_attributed {theme : Theme} {markup : Text} {t : AttributedText}
    (read : attributed theme markup = .ok t) : ∃ ts, Scan markup ts := by
  cases scanned : tokens 0 markup with
  | error offset =>
    rw [attributed, scanned] at read
    cases read
  | ok ts => exact ⟨ts, scan_of_tokens scanned⟩

theorem attributed_canonical {theme : Theme} {markup : Text} {t : AttributedText}
    (read : attributed theme markup = .ok t) : Canonical 0 t.text.length t.runs := by
  obtain ⟨ts, scan⟩ := scan_of_attributed read
  obtain ⟨t', read', _, canonical, _⟩ := attributed_of_scan theme scan
  rw [read] at read'
  cases read'
  exact canonical

/-- Whatever markup is read, its runs tile the text with neighbours that look different, and looking
up a position finds the only run that it is in. -/
theorem attributed_covers {theme : Theme} {markup : Text} {t : AttributedText}
    (read : attributed theme markup = .ok t) :
    Tiles 0 t.text.length t.runs ∧ Separated t.runs ∧ (t.runs = [] ↔ t.text = []) ∧
      t.length = t.text.length ∧
      (∀ i < t.text.length, ∃ (k : Nat) (r : Run), t.runs[k]? = some r ∧ i ∈ r.extent ∧
        (∀ (j : Nat) (s : Run), t.runs[j]? = some s → i ∈ s.extent → j = k) ∧
        t.runs.at? i = some r) ∧
      ∀ i, t.text.length ≤ i → t.runs.at? i = none := by
  obtain ⟨tiles, separated⟩ := attributed_canonical read
  have empty : t.runs = [] ↔ t.text = [] := by
    rw [tiles_eq_nil_iff tiles, eq_comm, List.length_eq_zero_iff]
  refine ⟨tiles, separated, empty, stop_of_tiles tiles, ?_, ?_⟩
  · intro i upper
    obtain ⟨r, found⟩ := Option.isSome_iff_exists.mp
      ((at?_isSome_iff tiles).mpr ⟨Nat.zero_le i, upper⟩)
    obtain ⟨member, inside⟩ := (at?_eq_some_iff tiles).mp found
    obtain ⟨k, here⟩ := List.mem_iff_getElem?.mp member
    refine ⟨k, r, here, inside, ?_, found⟩
    intro j s there within
    exact index_unique tiles there here within inside
  · intro i beyond
    rw [Option.eq_none_iff_forall_ne_some]
    intro r found
    have within := (at?_isSome_iff tiles).mp (Option.isSome_of_mem found)
    omega

theorem attributed_covers_cut_reference :
    ∃ t, attributed (.standard ".k\x7bcolor:#f00\x7d".toList)
        "a&am<span class=\"k\">p;</span><b".toList = .ok t ∧
      Tiles 0 4 t.runs ∧ t.length = 4 ∧ (∃ r, t.runs.at? 1 = some r ∧ 1 ∈ r.extent) ∧
      t.runs.at? 4 = none := by
  have shown : (attributed (.standard ".k\x7bcolor:#f00\x7d".toList)
      "a&am<span class=\"k\">p;</span><b".toList).toOption.map (·.text) =
        some "a&<b".toList := by decide +kernel
  generalize reading : attributed (.standard ".k\x7bcolor:#f00\x7d".toList)
    "a&am<span class=\"k\">p;</span><b".toList = result at shown ⊢
  cases result with
  | error e => cases shown
  | ok t =>
    have text : t.text = "a&<b".toList := Option.some.inj shown
    obtain ⟨tiles, _, _, length, inside, outside⟩ := attributed_covers reading
    rw [text] at tiles length inside outside
    obtain ⟨_, r, _, within, _, found⟩ := inside 1 (by decide)
    exact ⟨t, rfl, tiles, length, ⟨r, found, within⟩, outside 4 (by decide)⟩

/- Themes without a NaN. -/

theorem definite_segments {style : List Text → Attributes}
    (definite : ∀ stack, (style stack).isDefinite = true) (ts : List Token) (stack : List Text) :
    ∀ p ∈ segments style stack ts, p.2.isDefinite = true := by
  induction ts generalizing stack with
  | nil => simp [segments]
  | cons token ts ih =>
    cases token with
    | opening classes => exact ih _
    | closing => exact ih _
    | text content =>
      intro p member
      rcases List.mem_cons.mp member with rfl | later
      · exact definite stack
      · exact ih _ p later

theorem definite_spread {pieces : List (Text × Attributes)}
    (definite : ∀ p ∈ pieces, p.2.isDefinite = true) :
    ∀ x ∈ spread pieces, x.2.isDefinite = true := by
  intro x member
  simp only [spread, List.mem_flatMap, List.mem_map] at member
  obtain ⟨p, piece, c, _, rfl⟩ := member
  exact definite p piece

theorem attributed_definite {theme : Theme} (definite : theme.Definite) {markup : Text}
    {t : AttributedText} (read : attributed theme markup = .ok t) :
    ∀ k < t.text.length, ∃ a, SameLook (look t.runs k) (some a) ∧ a.isDefinite = true := by
  obtain ⟨ts, scan⟩ := scan_of_attributed read
  obtain ⟨t', read', _, canonical, looks⟩ := attributed_of_scan theme scan
  rw [read] at read'
  cases read'
  intro k upper
  have same := looks k upper
  obtain ⟨b, found⟩ := look_some_of_tiles canonical.1 (Nat.zero_le k) upper
  generalize closing _ k = position at same
  cases styled : (spread (segments theme.resolve [documentClass] ts))[position]? with
  | none =>
    rw [styled, found] at same
    cases same
  | some x =>
    rw [styled] at same
    have member := List.mem_of_getElem? styled
    have pieces := definite_segments (Theme.definite_resolve definite) ts [documentClass]
    exact ⟨x.2, same, definite_spread pieces x member⟩

end SyntaxPaint.Markup
