import SyntaxPaint.Markup.Token
import SyntaxPaint.Proofs.Markup.Coverage
import SyntaxPaint.Proofs.Markup.Forms
import SyntaxPaint.Proofs.Run.Maximal
import SyntaxPaint.Proofs.Text.Cutting
import SyntaxPaint.Proofs.Theme.Definite

/-!
Writing styled characters as markup and reading them back. The marks need not be balanced: a closing
mark too many does nothing. The induction is on the marks; what it carries is the list of cells, the
characters with their forms and looks, which the scanner and the decoder each preserve.
-/
namespace SyntaxPaint.Markup
open Runs Theme

inductive Mark where
  | opening (classes : Text)
  | closing
  | character (c : Char) (form : Text)

def Mark.Valid : Mark → Prop
  | .opening classes => ¬ openingEnd <:+: classes
  | .closing => True
  | .character c form => Written c form

def Mark.write : Mark → Text
  | .opening classes => openingTag classes
  | .closing => closingTag
  | .character _ form => form

def write (marks : List Mark) : Text := marks.flatMap Mark.write

def closeScope (stack : List Text) : List Text :=
  if stack.length ≤ 1 then stack else stack.dropLast

/-- The characters with their forms and with the attributes of the scopes around them. -/
def cells (style : List Text → Attributes) (stack : List Text) :
    List Mark → List (Char × Text × Attributes)
  | [] => []
  | .opening classes :: rest => cells style (stack ++ [classes]) rest
  | .closing :: rest => cells style (closeScope stack) rest
  | .character c form :: rest => (c, form, style stack) :: cells style stack rest

def characters : List Mark → Text
  | [] => []
  | .character c _ :: rest => c :: characters rest
  | _ :: rest => characters rest

def looks (style : List Text → Attributes) (stack : List Text) (marks : List Mark) :
    List Attributes := (cells style stack marks).map (·.2.2)

theorem cells_characters (style : List Text → Attributes) (stack : List Text) (marks : List Mark) :
    (cells style stack marks).map (·.1) = characters marks := by
  induction marks generalizing stack with
  | nil => rfl
  | cons mark marks ih =>
    cases mark with
    | opening classes => exact ih _
    | closing => exact ih _
    | character c form => exact congrArg (c :: ·) (ih stack)

theorem cells_written {style : List Text → Attributes} {marks : List Mark}
    (valid : ∀ mark ∈ marks, mark.Valid) (stack : List Text) :
    ∀ x ∈ cells style stack marks, Written x.1 x.2.1 := by
  induction marks generalizing stack with
  | nil => intro x member; cases member
  | cons mark marks ih =>
    have rest := ih fun m later => valid m (List.mem_cons_of_mem _ later)
    cases mark with
    | opening classes => exact rest _
    | closing => exact rest _
    | character c form =>
      intro x member
      rcases List.mem_cons.mp member with rfl | later
      · exact valid _ List.mem_cons_self
      · exact rest stack x later

theorem definite_looks {style : List Text → Attributes}
    (definite : ∀ stack, (style stack).isDefinite = true) (stack : List Text) (marks : List Mark) :
    ∀ a ∈ looks style stack marks, a.isDefinite = true := by
  induction marks generalizing stack with
  | nil => intro a member; cases member
  | cons mark marks ih =>
    cases mark with
    | opening classes => exact ih _
    | closing => exact ih _
    | character c form =>
      intro a member
      rcases List.mem_cons.mp member with rfl | later
      · exact definite stack
      · exact ih stack a later

/- Scanning. -/

theorem cutAt_openingEnd {classes : Text} (free : ¬ openingEnd <:+: classes) (t : Text) :
    Text.cutAt openingEnd (classes ++ (openingEnd ++ t)) = some (classes, t) :=
  Text.cutAt_pair (by decide) free t

theorem segments_textToken (style : List Text → Attributes) (stack : List Text) (t : Text)
    (ts : List Token) :
    spread (segments style stack (textToken t ++ ts)) =
      t.map (·, style stack) ++ spread (segments style stack ts) := by
  unfold textToken
  split
  · next none =>
    obtain rfl := List.isEmpty_iff.mp none
    rfl
  · rfl

theorem scan_character {c : Char} {t : Text} {ts : List Token} (noTag : c ≠ '<')
    (scan : Scan t ts) :
    ∃ ts', Scan (c :: t) ts' ∧ ∀ style stack, spread (segments style stack ts') =
      (c, style stack) :: spread (segments style stack ts) := by
  have front : ∀ {plain : Text}, '<' ∉ plain → '<' ∉ c :: plain := by
    intro plain absent member
    rcases List.mem_cons.mp member with same | later
    · exact noTag same.symm
    · exact absent later
  cases scan with
  | stop absent =>
    refine ⟨_, .stop (front absent), ?_⟩
    intro style stack
    have left := segments_textToken style stack (c :: t) []
    have right := segments_textToken style stack t []
    rw [List.append_nil] at left right
    rw [left, right]
    rfl
  | opening absent cut rest =>
    refine ⟨_, .opening (front absent) cut rest, ?_⟩
    intro style stack
    rw [segments_textToken, segments_textToken]
    rfl
  | closing absent rest =>
    refine ⟨_, .closing (front absent) rest, ?_⟩
    intro style stack
    rw [segments_textToken, segments_textToken]
    rfl
  | lone absent noOpening noClosing rest =>
    refine ⟨_, .lone (front absent) noOpening noClosing rest, ?_⟩
    intro style stack
    rw [segments_textToken, segments_textToken]
    rfl

theorem scan_form {form t : Text} {ts : List Token} (noTag : '<' ∉ form) (scan : Scan t ts) :
    ∃ ts', Scan (form ++ t) ts' ∧ ∀ style stack, spread (segments style stack ts') =
      form.map (·, style stack) ++ spread (segments style stack ts) := by
  induction form with
  | nil => exact ⟨ts, scan, fun style stack => rfl⟩
  | cons c form ih =>
    simp only [List.mem_cons, not_or] at noTag
    obtain ⟨ts', scan', shows⟩ := ih noTag.2
    obtain ⟨ts'', scan'', shows'⟩ := scan_character (Ne.symm noTag.1) scan'
    refine ⟨ts'', scan'', ?_⟩
    intro style stack
    rw [shows', shows]
    rfl

def encoded (xs : List (Char × Text × Attributes)) : List (Char × Attributes) :=
  xs.flatMap fun x => x.2.1.map (·, x.2.2)

theorem scan_write {marks : List Mark} (valid : ∀ mark ∈ marks, mark.Valid) :
    ∃ ts, Scan (write marks) ts ∧ ∀ style stack,
      spread (segments style stack ts) = encoded (cells style stack marks) := by
  induction marks with
  | nil => exact ⟨[], .stop (List.not_mem_nil), fun style stack => rfl⟩
  | cons mark marks ih =>
    obtain ⟨ts, scan, shows⟩ := ih fun m later => valid m (List.mem_cons_of_mem _ later)
    have first := valid mark List.mem_cons_self
    cases mark with
    | opening classes =>
      have tag : write (.opening classes :: marks) =
          [] ++ (openingStart ++ (classes ++ (openingEnd ++ write marks))) := by
        simp [write, Mark.write, openingTag]
      rw [tag]
      refine ⟨_, .opening List.not_mem_nil (cutAt_openingEnd first _) scan,
        fun style stack => ?_⟩
      exact shows style (stack ++ [classes])
    | closing =>
      have tag : write (.closing :: marks) = [] ++ (closingTag ++ write marks) := rfl
      rw [tag]
      refine ⟨_, .closing List.not_mem_nil scan, ?_⟩
      intro style stack
      have same : nextStack stack .closing = closeScope stack := by
        unfold nextStack closeScope
        split_ifs <;> first | rfl | omega
      show spread (segments style (nextStack stack .closing) ts) = _
      rw [same]
      exact shows style (closeScope stack)
    | character c form =>
      obtain ⟨ts', scan', shows'⟩ := scan_form (noTag_of_written first) scan
      refine ⟨ts', scan', ?_⟩
      intro style stack
      rw [shows', shows]
      rfl

/- Decoding. -/

def widths (xs : List (Char × Text × Attributes)) : List (Char × Nat) :=
  xs.map fun x => (x.1, x.2.1.length)

theorem decode_encoded {xs : List (Char × Text × Attributes)}
    (written : ∀ x ∈ xs, Written x.1 x.2.1) :
    Reference.decode ((encoded xs).map (·.1)) = widths xs := by
  induction xs with
  | nil => rw [encoded, List.flatMap_nil, List.map_nil, Reference.decode]; rfl
  | cons x xs ih =>
    have text : (encoded (x :: xs)).map (·.1) = x.2.1 ++ (encoded xs).map (·.1) := by
      simp [encoded, Function.comp_def]
    rw [text, decode_written (written x List.mem_cons_self),
      ih fun y later => written y (List.mem_cons_of_mem _ later)]
    rfl

theorem widths_inhabited {xs : List (Char × Text × Attributes)}
    (written : ∀ x ∈ xs, Written x.1 x.2.1) : Inhabited (widths xs) := by
  intro y member
  obtain ⟨x, inside, rfl⟩ := List.mem_map.mp member
  exact List.length_pos_iff.mpr (ne_nil_of_written (written x inside))

theorem encoded_closing {xs : List (Char × Text × Attributes)}
    (written : ∀ x ∈ xs, Written x.1 x.2.1) (k : Nat) (upper : k < xs.length) :
    (encoded xs)[closing (widths xs) k]?.map (·.2) = (xs.map (·.2.2))[k]? := by
  induction xs generalizing k with
  | nil => cases upper
  | cons x xs ih =>
    obtain ⟨c, form, a⟩ := x
    have rest : ∀ y ∈ xs, Written y.1 y.2.1 := fun y later =>
      written y (List.mem_cons_of_mem _ later)
    have some : 0 < form.length := List.length_pos_iff.mpr
      (ne_nil_of_written (written _ List.mem_cons_self))
    have split : encoded ((c, form, a) :: xs) = form.map (·, a) ++ encoded xs := rfl
    rw [split]
    cases k with
    | zero =>
      have last : closing (widths ((c, form, a) :: xs)) 0 = form.length - 1 := rfl
      have inside : form.length - 1 < form.length := by omega
      rw [last, List.getElem?_append_left (by rwa [List.length_map]), List.getElem?_map,
        List.getElem?_eq_getElem inside]
      rfl
    | succ k =>
      have upper' : k < xs.length := by simpa using upper
      have positive := width_take_pos (widths_inhabited rest) (k := k)
        (by rwa [widths, List.length_map])
      have next : closing (widths ((c, form, a) :: xs)) (k + 1) =
          form.length + closing (widths xs) k := by
        show form.length + width ((widths xs).take (k + 1)) - 1 = _
        unfold closing
        omega
      rw [next, List.getElem?_append_right (by simp), List.length_map, Nat.add_sub_cancel_left,
        ih rest k upper']
      rfl

/-- Markup stands for the characters that were written, in whatever forms, and its runs are the
shortest ones for the attributes of the scopes around them. -/
theorem attributed_write {theme : Theme} (definite : theme.Definite) {marks : List Mark}
    (valid : ∀ mark ∈ marks, mark.Valid) :
    ∃ t, attributed theme (write marks) = .ok t ∧ t.text = characters marks ∧
      Tiles 0 t.text.length t.runs ∧ Separated t.runs ∧
      (∀ i < t.text.length, ∃ a b, look t.runs i = some a ∧
        (looks theme.resolve [documentClass] marks)[i]? = some b ∧ (a == b) = true) ∧
      (t.runs == encode (looks theme.resolve [documentClass] marks)) = true := by
  let xs := cells theme.resolve [documentClass] marks
  have written : ∀ x ∈ xs, Written x.1 x.2.1 := cells_written valid _
  obtain ⟨ts, scan, shows⟩ := scan_write valid
  obtain ⟨t, read, text, canonical, same⟩ := attributed_of_scan theme scan
  rw [shows, decode_encoded written] at text same
  have length : t.text.length = xs.length := by rw [text, List.length_map, widths, List.length_map]
  have labelled : ∀ i < t.text.length, ∃ a b, look t.runs i = some a ∧
      (looks theme.resolve [documentClass] marks)[i]? = some b ∧ (a == b) = true := by
    intro i upper
    have within : i < xs.length := by omega
    have alike := same i upper
    rw [encoded_closing written i within, List.getElem?_map,
      List.getElem?_eq_getElem within] at alike
    have labelled : (looks theme.resolve [documentClass] marks)[i]? = some xs[i].2.2 := by
      show (xs.map (·.2.2))[i]? = _
      rw [List.getElem?_map, List.getElem?_eq_getElem within]
      rfl
    have number := definite_looks (definite_resolve definite) [documentClass] marks _
      (List.mem_of_getElem? labelled)
    obtain ⟨a, found, equal⟩ := beq_of_sameLook number alike
    exact ⟨a, _, found, labelled, equal⟩
  refine ⟨t, read, ?_, canonical.1, canonical.2, labelled, ?_⟩
  · rw [text, ← cells_characters theme.resolve [documentClass] marks, widths, List.map_map]
    rfl
  · obtain ⟨encoding, encoded⟩ := encode_spec (looks theme.resolve [documentClass] marks)
    have count : (looks theme.resolve [documentClass] marks).length = t.text.length := by
      rw [length]
      exact List.length_map _
    rw [count] at encoding
    apply canonical_unique canonical encoding
    intro i _ upper
    obtain ⟨a, b, found, label, equal⟩ := labelled i upper
    have alike := encoded i
    rw [label] at alike
    have number := definite_looks (definite_resolve definite) [documentClass] marks _
      (List.mem_of_getElem? label)
    obtain ⟨c, found', equal'⟩ := beq_of_sameLook number alike
    exact ⟨a, c, found, found', Attributes.beq_trans equal (Attributes.beq_symm equal')⟩

theorem attributed_write_unbalanced :
    let theme := Theme.standard []
    let marks : List Mark := [.character 'a' ['a'], .opening "k\"".toList,
      .character '<' "&lt;".toList, .closing, .closing, .character '&' "&#x26;".toList]
    theme.Definite ∧ (∀ mark ∈ marks, mark.Valid) ∧
      ∃ t, attributed theme "a<span class=\"k\"\">&lt;</span></span>&#x26;".toList = .ok t ∧
        t.text = "a<&".toList ∧ Tiles 0 3 t.runs ∧
        (t.runs == encode [theme.resolve [documentClass],
          theme.resolve [documentClass, "k\"".toList], theme.resolve [documentClass]]) = true := by
  intro theme marks
  have definite : theme.Definite := ⟨rfl, rfl, rfl, rfl⟩
  have name : Reference.Denotes "lt".toList '<' := .name (by decide)
  have number : Reference.Denotes "#x26".toList '&' := .hexadecimal (Or.inl rfl) (by decide)
  have valid : ∀ mark ∈ marks, mark.Valid := by
    intro mark member
    simp only [marks, List.mem_cons, List.not_mem_nil, or_false] at member
    rcases member with rfl | rfl | rfl | rfl | rfl | rfl
    · exact .plain (by decide) (by decide)
    · show ¬ openingEnd <:+: "k\"".toList
      decide
    · exact .reference name (by decide)
    · trivial
    · trivial
    · exact .reference number (by decide)
  obtain ⟨t, read, text, tiles, _, _, runs⟩ := attributed_write definite valid
  refine ⟨definite, valid, t, read, text, ?_, runs⟩
  rw [text] at tiles
  exact tiles

end SyntaxPaint.Markup
