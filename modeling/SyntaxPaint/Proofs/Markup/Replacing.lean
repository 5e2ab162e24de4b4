import SyntaxPaint.Proofs.Markup.Decoding
import SyntaxPaint.Proofs.Markup.Forms
import SyntaxPaint.Proofs.Run.Expansion
import SyntaxPaint.Proofs.Run.Lookup
import SyntaxPaint.Proofs.Run.Maximal

/-!
Decoding a text together with its runs is the same as labelling every character with the attributes
of its run, replacing the references one after the other from the left, and encoding the labels that
are left. `Reads` is that plain decoder, as a relation: it knows neither runs nor positions.
-/
namespace SyntaxPaint.Reference

/-- What stands between the ampersand and the semicolon of a reference to a character: a number
sign, if there is one, then letters and digits, and not too many of them. -/
structure RefersTo (body : Text) (c : Char) : Prop where
  shape : ∃ sign name, body = sign ++ name ∧ (sign = ['#'] ∨ sign = []) ∧ name ≠ [] ∧
    ∀ d ∈ name, d.isAlphanum = true
  short : body.length ≤ maxLength
  denotes : Denotes body c

def StartsReference (t : Text) : Prop :=
  ∃ body c after, t = '&' :: (body ++ ';' :: after) ∧ RefersTo body c

theorem toNat_of_scalar {n : Nat} {c : Char} (scalar : Text.scalar? n = some c) : c.toNat = n := by
  unfold Text.scalar? at scalar
  split at scalar
  · next valid =>
    rw [← Option.some.inj scalar, Char.ofNat, dif_pos valid]
    rfl
  · cases scalar

theorem denotes_of_denoted {body : Text} {c : Char} (denoted : denoted? body = some c) :
    Denotes body c := by
  unfold denoted? at denoted
  split at denoted
  · next digits =>
    unfold numbered? at denoted
    split at denoted
    · obtain ⟨n, value, scalar⟩ := Option.bind_eq_some_iff.mp denoted
      exact .hexadecimal (Or.inl rfl) (toNat_of_scalar scalar ▸ value)
    · obtain ⟨n, value, scalar⟩ := Option.bind_eq_some_iff.mp denoted
      exact .hexadecimal (Or.inr rfl) (toNat_of_scalar scalar ▸ value)
    · obtain ⟨n, value, scalar⟩ := Option.bind_eq_some_iff.mp denoted
      exact .decimal (toNat_of_scalar scalar ▸ value)
  · obtain ⟨front, back, listed, _⟩ := List.lookup_eq_some_iff.mp denoted
    refine .name ?_
    rw [listed]
    exact List.mem_append_right front List.mem_cons_self

theorem short_of_body? {t body : Text} (found : body? t = some body) : body.length ≤ maxLength := by
  unfold body? at found
  dsimp only at found
  split at found
  · split at found
    · cases found
    · next fits =>
      simp only [Bool.or_eq_true, decide_eq_true_eq, not_or, Nat.not_lt] at fits
      rw [← Option.some.inj found]
      exact fits.2
  · cases found

theorem read?_eq_some_iff {t : Text} {c : Char} {n : Nat} :
    read? t = some (c, n) ↔
      ∃ body after, t = body ++ ';' :: after ∧ RefersTo body c ∧ n = body.length + 1 := by
  constructor
  · intro found
    obtain ⟨body, isBody, denoted⟩ := Option.bind_eq_some_iff.mp found
    obtain ⟨d, isDenoted, same⟩ := Option.map_eq_some_iff.mp denoted
    obtain ⟨rfl, rfl⟩ := Prod.mk.inj same
    obtain ⟨after, split⟩ := Markup.body?_eq_some isBody
    have denotes := denotes_of_denoted isDenoted
    exact ⟨body, after, split, ⟨shape_of_denotes denotes, short_of_body? isBody, denotes⟩, rfl⟩
  · rintro ⟨body, after, rfl, refers, rfl⟩
    exact read?_of_denotes refers.denotes refers.short after

theorem decode_reference {body after : Text} {c : Char} (refers : RefersTo body c) :
    decode ('&' :: (body ++ ';' :: after)) = (c, body.length + 2) :: decode after := by
  have written := Markup.decode_written (.reference refers.denotes refers.short) after
  simpa using written

theorem decode_kept {x : Char} {t : Text} (plain : ¬ StartsReference (x :: t)) :
    decode (x :: t) = (x, 1) :: decode t := by
  rw [decode]
  split
  · next mark =>
    obtain rfl : x = '&' := by simpa using mark
    split
    · next c n found =>
      obtain ⟨body, after, split, refers, _⟩ := read?_eq_some_iff.mp found
      exact absurd ⟨body, c, after, by rw [split], refers⟩ plain
    · rfl
  · rfl

end SyntaxPaint.Reference

namespace SyntaxPaint.Markup
open Runs Reference

/-- Labelled characters are read from the left: how many have been removed, what has come out and
what is still to be read. A reference takes the label of its semicolon, and every other character
keeps its own. -/
inductive Reads : List (Char × Attributes) → Nat → List (Char × Attributes) →
    List (Char × Attributes) → Prop
  | nothing (source : List (Char × Attributes)) : Reads source 0 [] source
  | reference {body source output behind : List (Char × Attributes)} {a b : Attributes} {c : Char}
      {removed : Nat} (refers : RefersTo (body.map (·.1)) c)
      (rest : Reads source removed output behind) :
      Reads (('&', a) :: (body ++ (';', b) :: source)) (body.length + 1 + removed)
        ((c, b) :: output) behind
  | kept {x : Char × Attributes} {source output behind : List (Char × Attributes)} {removed : Nat}
      (plain : ¬ StartsReference ((x :: source).map (·.1)))
      (rest : Reads source removed output behind) : Reads (x :: source) removed (x :: output) behind

theorem exists_reads (source : List (Char × Attributes)) :
    ∃ removed output, Reads source removed output [] := by
  induction size : source.length using Nat.strongRecOn generalizing source with
  | ind size ih =>
    subst size
    cases source with
    | nil => exact ⟨0, [], .nothing []⟩
    | cons x source =>
      by_cases starts : StartsReference ((x :: source).map (·.1))
      · obtain ⟨body, c, after, split, refers⟩ := starts
        obtain ⟨mark, tail⟩ := List.cons.inj split
        obtain ⟨inside, behind, rfl, rfl, ended⟩ := List.map_eq_append_iff.mp tail
        obtain ⟨⟨semicolon, b⟩, source, rfl, same, _⟩ := List.map_eq_cons_iff.mp ended
        obtain ⟨ampersand, a⟩ := x
        obtain rfl : ampersand = '&' := mark
        obtain rfl : semicolon = ';' := same
        obtain ⟨removed, output, rest⟩ := ih source.length (by simp; omega) source rfl
        exact ⟨_, _, .reference refers rest⟩
      · obtain ⟨removed, output, rest⟩ := ih source.length (by simp) source rfl
        exact ⟨_, _, .kept starts rest⟩

theorem closing_zero (c : Char) (n : Nat) (rest : List (Char × Nat)) :
    closing ((c, n) :: rest) 0 = n - 1 := rfl

theorem closing_succ {n k : Nat} {rest : List (Char × Nat)} (c : Char)
    (inhabited : Inhabited rest) (upper : k < rest.length) :
    closing ((c, n) :: rest) (k + 1) = n + closing rest k := by
  have some := width_take_pos inhabited upper
  unfold closing
  rw [List.take_succ_cons, width_cons]
  omega

/-- What a reading says about the decoded characters `front` of the part that it has read. -/
structure Decodes (source : List (Char × Attributes)) (removed : Nat)
    (output behind : List (Char × Attributes)) (front : List (Char × Nat)) : Prop where
  inhabited : Inhabited front
  decoded : Reference.decode (source.map (·.1)) = front ++ Reference.decode (behind.map (·.1))
  text : front.map (·.1) = output.map (·.1)
  shorter : width front = output.length + removed
  whole : width front + behind.length = source.length
  labels : ∀ k < front.length, (source[closing front k]?).map (·.2) = (output[k]?).map (·.2)

theorem Decodes.count {source output behind : List (Char × Attributes)} {removed : Nat}
    {front : List (Char × Nat)} (decodes : Decodes source removed output behind front) :
    front.length = output.length := by
  simpa using congrArg List.length decodes.text

theorem decodes_cons {read source output behind : List (Char × Attributes)}
    {front : List (Char × Nat)} {removed lost : Nat} {c : Char} {b : Attributes}
    (rest : Decodes source removed output behind front)
    (decoded : Reference.decode ((read ++ source).map (·.1)) =
      (c, read.length) :: Reference.decode (source.map (·.1)))
    (one : read.length = 1 + lost) (last : (read[lost]?).map (·.2) = some b) :
    Decodes (read ++ source) (lost + removed) ((c, b) :: output) behind
      ((c, read.length) :: front) where
  inhabited := inhabited_cons.mpr ⟨by omega, rest.inhabited⟩
  decoded := by rw [decoded, rest.decoded, List.cons_append]
  text := by simp [rest.text]
  shorter := by
    rw [width_cons, rest.shorter, List.length_cons]
    omega
  whole := by
    rw [width_cons, List.length_append, ← rest.whole, Nat.add_assoc]
  labels := by
    intro k upper
    cases k with
    | zero =>
      rw [closing_zero, one, Nat.add_sub_cancel_left, List.getElem?_append_left (by omega)]
      exact last
    | succ k =>
      have upper : k < front.length := Nat.lt_of_succ_lt_succ upper
      rw [closing_succ c rest.inhabited upper, List.getElem?_append_right (Nat.le_add_right _ _),
        Nat.add_sub_cancel_left]
      exact rest.labels k upper

theorem decodes_of_reads {source output behind : List (Char × Attributes)} {removed : Nat}
    (reads : Reads source removed output behind) :
    ∃ front, Decodes source removed output behind front := by
  induction reads with
  | nothing source => exact ⟨[], by simp [Inhabited], by simp, rfl, rfl, by simp, by simp⟩
  | @reference body source output behind a b c removed refers rest ih =>
    obtain ⟨front, decodes⟩ := ih
    have split : ('&', a) :: (body ++ (';', b) :: source) =
        (('&', a) :: (body ++ [(';', b)])) ++ source := by simp
    have length : (('&', a) :: (body ++ [(';', b)])).length = 1 + (body.length + 1) := by
      simp
      omega
    rw [split]
    refine ⟨_, decodes_cons decodes ?_ length ?_⟩
    · have replaced := @decode_reference _ (source.map (·.1)) _ refers
      simpa using replaced
    · simp
  | @kept x source output behind removed plain rest ih =>
    obtain ⟨front, decodes⟩ := ih
    have single : Decodes ([x] ++ source) (0 + removed) ((x.1, x.2) :: output) behind _ :=
      decodes_cons decodes (decode_kept plain) rfl rfl
    rw [Nat.zero_add] at single
    exact ⟨_, single⟩

theorem reads_unique {source output output' : List (Char × Attributes)} {removed removed' : Nat}
    (reads : Reads source removed output []) (reads' : Reads source removed' output' []) :
    removed' = removed ∧ output' = output := by
  obtain ⟨front, decodes⟩ := decodes_of_reads reads
  obtain ⟨front', decodes'⟩ := decodes_of_reads reads'
  have same : front' = front := by
    have equal := decodes'.decoded.symm.trans decodes.decoded
    simpa [Reference.decode] using equal
  subst same
  have texts : output'.map (·.1) = output.map (·.1) := decodes'.text.symm.trans decodes.text
  have count := decodes.count
  have count' := decodes'.count
  have labels : output'.map (·.2) = output.map (·.2) := by
    apply List.ext_getElem?
    intro k
    rw [List.getElem?_map, List.getElem?_map]
    by_cases upper : k < front'.length
    · rw [← decodes'.labels k upper, decodes.labels k upper]
    · rw [List.getElem?_eq_none (by omega), List.getElem?_eq_none (by omega)]
  constructor
  · have := decodes.shorter
    have := decodes'.shorter
    omega
  · have zipped : output' = (output.map (·.1)).zip (output.map (·.2)) :=
      List.zip_of_prod texts labels
    exact zipped.trans (List.zip_of_prod rfl rfl).symm

/- Labels from runs. -/

theorem closing_append {k : Nat} {front back : List (Char × Nat)} (upper : k < front.length) :
    closing (front ++ back) k = closing front k := by
  unfold closing
  rw [List.take_append_of_le_length (by omega)]

section Labelled
variable {t : Text} {runs : Runs}

theorem labelled_text (tiles : Tiles 0 t.length runs) : (t.zip runs.expand).map (·.1) = t := by
  have length := length_expand tiles
  exact List.map_fst_zip (by omega)

theorem labelled_look (tiles : Tiles 0 t.length runs) (i : Nat) :
    (t.zip runs.expand)[i]?.map (·.2) = look runs i := by
  have length := length_expand tiles
  have labels : (t.zip runs.expand).map (·.2) = runs.expand := List.map_snd_zip (by omega)
  rw [← List.getElem?_map, labels, getElem?_expand tiles, Nat.zero_add]

variable {output behind : List (Char × Attributes)} {removed : Nat} {front : List (Char × Nat)}

theorem look_of_decodes (canonical : Canonical 0 t.length runs)
    (decodes : Decodes (t.zip runs.expand) removed output behind front) {k : Nat}
    (upper : k < front.length) :
    k < (decode t runs).text.length ∧
      SameLook (look (decode t runs).runs k) (look runs (closing front k)) ∧
        look runs (closing front k) = output[k]?.map (·.2) := by
  obtain ⟨_, looks⟩ := decode_runs canonical
  have decoded := decodes.decoded
  rw [labelled_text canonical.1] at decoded
  have inText : k < (decode t runs).text.length := by
    show k < ((Reference.decode t).map (·.1)).length
    rw [decoded, List.length_map, List.length_append]
    omega
  have here := looks k inText
  rw [decoded, closing_append upper] at here
  have label := decodes.labels k upper
  rw [labelled_look canonical.1] at label
  exact ⟨inText, here, label⟩

theorem definite_of_decodes (canonical : Canonical 0 t.length runs)
    (definite : ∀ r ∈ runs, r.attributes.isDefinite = true)
    (decodes : Decodes (t.zip runs.expand) removed output behind front) :
    ∀ a ∈ output.map (·.2), a.isDefinite = true := by
  intro a member
  obtain ⟨k, label⟩ := List.mem_iff_getElem?.mp member
  rw [List.getElem?_map] at label
  obtain ⟨x, there, _⟩ := Option.map_eq_some_iff.mp label
  have upper : k < front.length := by
    rw [decodes.count]
    exact (List.getElem?_eq_some_iff.mp there).1
  obtain ⟨_, _, found⟩ := look_of_decodes canonical decodes upper
  rw [label] at found
  obtain ⟨r, run, rfl⟩ := mem_of_look found
  exact definite r run

theorem moved_of_decodes (canonical : Canonical 0 t.length runs)
    (definite : ∀ r ∈ runs, r.attributes.isDefinite = true)
    (decodes : Decodes (t.zip runs.expand) removed output behind front) {p : Nat}
    (position : width front = p + 1) :
    removed ≤ p ∧ ∃ q r, (decode t runs).runs.at? (p - removed) = some q ∧ runs.at? p = some r ∧
      (q.attributes == r.attributes) = true := by
  obtain ⟨canonical', _⟩ := decode_runs canonical
  have shorter := decodes.shorter
  have count := decodes.count
  have some : front.length ≠ 0 := by
    intro none
    obtain rfl := List.length_eq_zero_iff.mp none
    cases position
  have last : closing front (p - removed) = p := by
    unfold closing
    rw [List.take_of_length_le (by omega), position, Nat.add_sub_cancel]
  obtain ⟨inText, same, _⟩ := look_of_decodes canonical decodes (k := p - removed) (by omega)
  rw [last, ← at?_attributes canonical'.1, ← at?_attributes canonical.1] at same
  obtain ⟨q, at_q⟩ := Option.isSome_iff_exists.mp
    ((at?_isSome_iff canonical'.1).mpr ⟨Nat.zero_le _, inText⟩)
  rw [at_q] at same
  cases at_r : runs.at? p with
  | none =>
    rw [at_r] at same
    cases same
  | some r =>
    rw [at_r] at same
    have certain := definite r ((at?_eq_some_iff canonical.1).mp at_r).1
    obtain ⟨b, there, equal⟩ := beq_of_sameLook certain same
    obtain rfl := Option.some.inj there
    exact ⟨by omega, q, r, at_q, rfl, equal⟩

/-- Decoding replaces the references one by one and encodes the labels that are left. What was read
last moves to the front by as many positions as have been removed so far. -/
theorem decode_as_read (canonical : Canonical 0 t.length runs)
    (definite : ∀ r ∈ runs, r.attributes.isDefinite = true) :
    let labelled := t.zip runs.expand
    ∃ removed output, Reads labelled removed output [] ∧
      (∀ removed' output', Reads labelled removed' output' [] →
        removed' = removed ∧ output' = output) ∧
      (decode t runs == ⟨output.map (·.1), encode (output.map (·.2))⟩) = true ∧
      (decode t runs).text.length + removed = t.length ∧
      ∀ p lost front behind, Reads labelled lost front behind → p + 1 + behind.length = t.length →
        lost ≤ p ∧ ∃ q r, (decode t runs).runs.at? (p - lost) = some q ∧ runs.at? p = some r ∧
          (q.attributes == r.attributes) = true := by
  intro labelled
  have size : labelled.length = t.length := by
    rw [← List.length_map (f := (·.1)), labelled_text canonical.1]
  obtain ⟨removed, output, reads⟩ := exists_reads labelled
  obtain ⟨decoded, decodes⟩ := decodes_of_reads reads
  have whole := decodes.decoded
  rw [labelled_text canonical.1, List.map_nil, Reference.decode, List.append_nil] at whole
  have text : (decode t runs).text = output.map (·.1) := by
    show (Reference.decode t).map (·.1) = _
    rw [whole, decodes.text]
  have count := decodes.count
  refine ⟨removed, output, reads, fun _ _ reads' => reads_unique reads reads', ?_, ?_, ?_⟩
  · have encoded : ((decode t runs).runs == encode (output.map (·.2))) = true := by
      apply beq_encode
      · obtain ⟨canonical', _⟩ := decode_runs canonical
        rw [text] at canonical'
        simpa using canonical'
      · exact definite_of_decodes canonical definite decodes
      · intro k upper
        rw [List.length_map, ← count] at upper
        obtain ⟨_, same, label⟩ := look_of_decodes canonical decodes upper
        rw [List.getElem?_map, ← label]
        exact same
    show ((decode t runs).text == output.map (·.1) && _) = true
    rw [text, encoded, beq_self_eq_true, Bool.and_self]
  · have read := decodes.whole
    have shorter := decodes.shorter
    rw [List.length_nil] at read
    rw [text, List.length_map, ← size]
    omega
  · intro p lost front behind reads' position
    obtain ⟨passed, decodes'⟩ := decodes_of_reads reads'
    have read := decodes'.whole
    exact moved_of_decodes canonical definite decodes' (by omega)

end Labelled

theorem decode_as_read_cut_reference :
    let plain : Attributes := .plain .standard
    let red : Attributes := { plain with foreground := some (.rgb 255 0 0) }
    let runs : Runs := [.between 0 3 plain, .between 3 5 red, .between 5 7 plain]
    let t := "x&amp;y".toList
    (Canonical 0 t.length runs ∧ ∀ r ∈ runs, r.attributes.isDefinite = true) ∧
      (decode t runs == ⟨"x&y".toList, encode [plain, plain, plain]⟩) = true ∧
      (decode t runs).text.length + 4 = t.length ∧
      ∃ q r, (decode t runs).runs.at? 2 = some q ∧ runs.at? 6 = some r ∧
        (q.attributes == r.attributes) = true := by
  intro plain red runs t
  have canonical : Canonical 0 t.length runs := by
    refine ⟨⟨rfl, by decide, rfl, by decide, rfl, by decide, rfl⟩, ?_⟩
    exact .cons_cons (by decide) (.cons_cons (by decide) (.singleton _))
  have definite : ∀ r ∈ runs, r.attributes.isDefinite = true := by decide
  obtain ⟨removed, output, _, only, equal, shorter, moved⟩ := decode_as_read canonical definite
  have noMark (x : Char) (rest : Text) (other : x ≠ '&') : ¬ StartsReference (x :: rest) := by
    rintro ⟨body, c, after, split, _⟩
    exact other (List.cons.inj split).1
  let inside : List (Char × Attributes) := [('a', plain), ('m', red), ('p', red)]
  have denotes : Denotes (inside.map (·.1)) '&' := .name (by decide +kernel)
  have refers : RefersTo (inside.map (·.1)) '&' :=
    ⟨shape_of_denotes denotes, by decide, denotes⟩
  have last : Reads [('y', plain)] 0 [('y', plain)] [] :=
    .kept (noMark _ _ (by decide)) (.nothing [])
  have reads : Reads (t.zip runs.expand) 4 [('x', plain), ('&', plain), ('y', plain)] [] :=
    .kept (noMark _ _ (by decide)) (.reference refers last)
  obtain ⟨rfl, rfl⟩ := only _ _ reads
  exact ⟨⟨canonical, definite⟩, equal, shorter, (moved 6 4 _ [] reads rfl).2⟩

end SyntaxPaint.Markup
