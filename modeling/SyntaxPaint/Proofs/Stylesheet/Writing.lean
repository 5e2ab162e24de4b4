import SyntaxPaint.Stylesheet.Reader
import SyntaxPaint.Proofs.Text.Cutting
import Mathlib.Data.List.Forall2

/-!
Rules written as a style sheet, with blanks wherever they may stand. The reader finds the rules
again in their order, each with a selector and a body that differ from what was written by blanks
only (`rules_written`).
-/
namespace SyntaxPaint

structure Rule where
  selector : Text
  declarations : List Declaration

def isDelimiter (c : Char) : Bool := c == ';' || c == '\x7b' || c == '\x7d'

def Text.Plain (t : Text) : Prop := ∀ c ∈ t, isDelimiter c = false

instance (t : Text) : Decidable t.Plain :=
  decidable_of_iff (t.all (!isDelimiter ·) = true) (by simp [Text.Plain])

/-- Neither property nor value is blank, and neither holds the character that would end it. -/
structure Declaration.Writable (d : Declaration) : Prop where
  property : d.property.Plain
  noColon : ':' ∉ d.property
  value : d.value.Plain
  named : ∃ c ∈ d.property, Text.isBlank c = false
  valued : ∃ c ∈ d.value, Text.isBlank c = false

instance (d : Declaration) : Decidable d.Writable :=
  decidable_of_iff
    (d.property.Plain ∧ ':' ∉ d.property ∧ d.value.Plain ∧
      d.property.any (!Text.isBlank ·) = true ∧ d.value.any (!Text.isBlank ·) = true)
    (by
      simp only [List.any_eq_true, Bool.not_eq_true']
      exact ⟨fun ⟨property, noColon, value, named, valued⟩ =>
          ⟨property, noColon, value, named, valued⟩,
        fun ⟨property, noColon, value, named, valued⟩ =>
          ⟨property, noColon, value, named, valued⟩⟩)

structure Rule.Writable (r : Rule) : Prop where
  selector : r.selector.Plain
  declarations : ∀ d ∈ r.declarations, d.Writable

instance (r : Rule) : Decidable r.Writable :=
  decidable_of_iff (r.selector.Plain ∧ ∀ d ∈ r.declarations, d.Writable)
    ⟨fun ⟨selector, declarations⟩ => ⟨selector, declarations⟩,
      fun ⟨selector, declarations⟩ => ⟨selector, declarations⟩⟩

namespace Stylesheet
open Text

inductive WritesBody : List Declaration → Text → Prop
  | stop {t : Text} (blank : Blank t) : WritesBody [] t
  | last {d : Declaration} {property value : Text} (left : Padded d.property property)
      (right : Padded d.value value) : WritesBody [d] (property ++ ':' :: value)
  | next {d : Declaration} {ds : List Declaration} {property value t : Text}
      (left : Padded d.property property) (right : Padded d.value value) (rest : WritesBody ds t) :
      WritesBody (d :: ds) (property ++ ':' :: (value ++ ';' :: t))

theorem visible_delimiter {c : Char} (delimiter : isDelimiter c = true) : isBlank c = false := by
  simp only [isDelimiter, Bool.or_eq_true, beq_iff_eq] at delimiter
  rcases delimiter with (rfl | rfl) | rfl <;> decide

theorem plain_blank {t : Text} (blank : Blank t) : t.Plain := by
  intro c member
  by_contra delimiter
  rw [Bool.not_eq_false] at delimiter
  exact notMem_blank blank (visible_delimiter delimiter) member

theorem plain_padded {t padded : Text} (plain : t.Plain) (pad : Padded t padded) :
    padded.Plain := by
  obtain ⟨front, back, before, behind, rfl⟩ := pad
  intro c member
  simp only [List.mem_append] at member
  rcases member with (early | inside) | late
  · exact plain_blank before c early
  · exact plain c inside
  · exact plain_blank behind c late

theorem notMem_plain {t : Text} (plain : t.Plain) {c : Char} (delimiter : isDelimiter c = true) :
    c ∉ t := by
  intro member
  rw [plain c member] at delimiter
  cases delimiter

/- Rules. -/

theorem braces_body {ds : List Declaration} {body : Text} (writable : ∀ d ∈ ds, d.Writable)
    (written : WritesBody ds body) : '\x7b' ∉ body ∧ '\x7d' ∉ body := by
  induction written with
  | stop blank =>
    have plain := plain_blank blank
    exact ⟨notMem_plain plain (by decide), notMem_plain plain (by decide)⟩
  | @last d property value left right =>
    have only := writable d List.mem_cons_self
    have front := plain_padded only.property left
    have back := plain_padded only.value right
    simp only [List.mem_append, List.mem_cons, not_or]
    exact ⟨⟨notMem_plain front (by decide), by decide, notMem_plain back (by decide)⟩,
      ⟨notMem_plain front (by decide), by decide, notMem_plain back (by decide)⟩⟩
  | @next d ds property value t left right rest ih =>
    obtain ⟨opens, closes⟩ := ih fun d later => writable d (List.mem_cons_of_mem _ later)
    have first := writable d List.mem_cons_self
    have front := plain_padded first.property left
    have back := plain_padded first.value right
    simp only [List.mem_append, List.mem_cons, not_or]
    exact ⟨⟨notMem_plain front (by decide), by decide, notMem_plain back (by decide), by decide,
        opens⟩,
      ⟨notMem_plain front (by decide), by decide, notMem_plain back (by decide), by decide,
        closes⟩⟩

theorem lastStatement_plain {t : Text} (plain : t.Plain) : lastStatement t = t := by
  unfold lastStatement
  rw [List.takeWhile_eq_self_iff.mpr, List.reverse_reverse]
  intro c member
  have delimiter := plain c (List.mem_reverse.mp member)
  simp only [isDelimiter, Bool.or_eq_false_iff, beq_eq_false_iff_ne] at delimiter
  simp [delimiter]

theorem rules_unopened {t : Text} (unopened : '\x7b' ∉ t) : rules t = [] := by
  rw [rules]
  split
  · rfl
  · next before inside cut =>
    rw [cutAt_char_none unopened] at cut
    cases cut

theorem rules_open {before : Text} (unopened : '\x7b' ∉ before) (inside : Text) :
    rules (before ++ '\x7b' :: inside) =
      match cutAt ['\x7d'] inside with
      | none => []
      | some (body, after) =>
        if body.contains '\x7b' then rules inside
        else (lastStatement before, body) :: rules after := by
  have opens := cutAt_char unopened inside
  rw [rules]
  split
  · next cut =>
    rw [opens] at cut
    cases cut
  · next front back cut =>
    rw [opens] at cut
    obtain ⟨rfl, rfl⟩ := Prod.mk.inj (Option.some.inj cut)
    split
    · next cut' => rw [cut']
    · next body after cut' => rw [cut']

theorem rules_rule {selector body : Text} (unopened : '\x7b' ∉ selector)
    (braces : '\x7b' ∉ body ∧ '\x7d' ∉ body) (t : Text) :
    rules (selector ++ '\x7b' :: (body ++ '\x7d' :: t)) =
      (lastStatement selector, body) :: rules t := by
  rw [rules_open unopened, cutAt_char braces.2]
  simp [braces.1]

theorem rules_next {selector body : Text} (plain : selector.Plain)
    (braces : '\x7b' ∉ body ∧ '\x7d' ∉ body) (t : Text) :
    rules (selector ++ '\x7b' :: (body ++ '\x7d' :: t)) = (selector, body) :: rules t := by
  rw [rules_rule (notMem_plain plain (by decide)) braces, lastStatement_plain plain]

theorem withoutComments_eq {t : Text} (free : ¬ "/*".toList <:+: t) : withoutComments t = t := by
  rw [withoutComments]
  split
  · rfl
  · next before rest cut =>
    rw [cutAt_none (by decide) free] at cut
    cases cut

/- Declarations. -/

def tidy (d : Declaration) : Declaration := ⟨asciiLower d.property.trim, d.value.trim⟩

theorem partDeclaration?_blank {t : Text} (blank : Blank t) : partDeclaration? t = none := by
  unfold partDeclaration?
  rw [cutAt_char_none (notMem_blank blank (by decide))]

theorem partDeclaration?_padded {d : Declaration} {property value : Text} (writable : d.Writable)
    (left : Padded d.property property) (right : Padded d.value value) :
    partDeclaration? (property ++ ':' :: value) = some (tidy d) := by
  have absent : ':' ∉ property := notMem_padded left (by decide) writable.noColon
  obtain ⟨c, inProperty, visible⟩ := writable.named
  obtain ⟨c', inValue, visible'⟩ := writable.valued
  have named : asciiLower d.property.trim ≠ [] := by
    unfold asciiLower
    rw [Ne, List.map_eq_nil_iff]
    exact trim_ne_nil inProperty visible
  have valued : d.value.trim ≠ [] := trim_ne_nil inValue visible'
  unfold partDeclaration?
  rw [cutAt_char absent]
  simp only [trim_padded left, trim_padded right]
  rw [if_neg]
  · rfl
  · simp [named, valued]

theorem unparted {d : Declaration} {property value : Text} (writable : d.Writable)
    (left : Padded d.property property) (right : Padded d.value value) :
    ∀ c ∈ property ++ ':' :: value, (c == ';') = false := by
  intro c member
  rw [beq_eq_false_iff_ne]
  rintro rfl
  simp only [List.mem_append, List.mem_cons] at member
  rcases member with early | colon | late
  · exact notMem_plain (plain_padded writable.property left) (by decide) early
  · cases colon
  · exact notMem_plain (plain_padded writable.value right) (by decide) late

theorem parts_written {ds : List Declaration} {body : Text} (writable : ∀ d ∈ ds, d.Writable)
    (written : WritesBody ds body) :
    (body.splitOnP (· == ';')).filterMap partDeclaration? = ds.map tidy := by
  induction written with
  | stop blank =>
    have whole := List.splitOnP_eq_singleton (p := (· == ';')) fun c member => by
      have plain := plain_blank blank c member
      simp only [isDelimiter, Bool.or_eq_false_iff] at plain
      exact plain.1.1
    rw [whole, List.filterMap_cons_none (partDeclaration?_blank blank)]
    rfl
  | @last d property value left right =>
    have only := writable d List.mem_cons_self
    rw [List.splitOnP_eq_singleton (unparted only left right),
      List.filterMap_cons_some (partDeclaration?_padded only left right)]
    rfl
  | @next d ds property value t left right rest ih =>
    have first := writable d List.mem_cons_self
    have split : property ++ ':' :: (value ++ ';' :: t) =
        (property ++ ':' :: value) ++ ';' :: t := by simp
    rw [split, List.splitOnP_append_cons_of_forall_mem (unparted first left right) _ (by simp),
      List.filterMap_cons_some (partDeclaration?_padded first left right),
      ih fun d later => writable d (List.mem_cons_of_mem _ later)]
    rfl

/- Selectors. -/

def isSeparator (c : Char) : Bool := c == ',' || isBlank c

def names (r : Rule) (name : Text) : Bool :=
  !name.isEmpty && name.all isNameChar &&
    (r.selector.splitOnP isSeparator).any fun part => ('.' :: name).isSuffixOf part

theorem partClass?_eq_some {part name : Text} :
    partClass? part = some name ↔
      name ≠ [] ∧ (∀ c ∈ name, isNameChar c = true) ∧ '.' :: name <:+ part := by
  have dotless {t : Text} (letters : ∀ c ∈ t, isNameChar c = true) :
      ∀ c ∈ t.reverse, (c != '.') = true := by
    intro c member
    rw [bne_iff_ne]
    rintro rfl
    exact absurd (letters '.' (List.mem_reverse.mp member)) (by decide)
  unfold partClass?
  dsimp only
  constructor
  · intro found
    split at found
    · next valid =>
      obtain rfl := Option.some.inj found
      simp only [Bool.and_eq_true, List.contains_iff_mem, Bool.not_eq_true',
        List.isEmpty_eq_false_iff, List.all_eq_true] at valid
      obtain ⟨⟨dotted, filled⟩, letters⟩ := valid
      refine ⟨filled, letters, ?_⟩
      have dotted : '.' ∈ part.reverse := List.mem_reverse.mpr dotted
      obtain ⟨after, before, split, first⟩ := List.eq_append_cons_of_mem dotted
      have taken : part.reverse.takeWhile (· != '.') = after := by
        rw [split, List.takeWhile_append_of_pos, List.takeWhile_cons_of_neg (by simp),
          List.append_nil]
        intro c member
        rw [bne_iff_ne]
        rintro rfl
        exact first member
      refine ⟨before.reverse, ?_⟩
      rw [taken, ← List.reverse_reverse part, split]
      simp
    · cases found
  · rintro ⟨filled, letters, before, rfl⟩
    have taken : (before ++ '.' :: name).reverse.takeWhile (· != '.') = name.reverse := by
      rw [List.reverse_append, List.reverse_cons, List.append_assoc,
        List.takeWhile_append_of_pos (dotless letters), List.singleton_append,
        List.takeWhile_cons_of_neg (by simp), List.append_nil]
    rw [taken, List.reverse_reverse, if_pos]
    simp [filled, List.all_eq_true.mpr letters]

end Stylesheet

end SyntaxPaint
