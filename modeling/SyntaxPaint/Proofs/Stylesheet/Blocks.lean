import SyntaxPaint.Proofs.Stylesheet.Writing

/-!
Style sheets with what a table has no use for: comments, statements, and groups of rules nested to
any depth. The reader keeps no count of open braces. It reads the same table as from the rules
alone, written one after the other, and rules without a usable class or declaration leave no trace
in it (`read_blocks`).
-/
namespace SyntaxPaint.Stylesheet
open Text

/- Comments. -/

/-- A text, and the same text with complete comments put in at some places. -/
inductive Commented : Text → Text → Prop
  | asItIs (t : Text) : Commented t t
  | comment (front : Text) {body t u : Text} (unended : ¬ "*/".toList <:+: body)
      (rest : Commented t u) :
      Commented (front ++ t) (front ++ ("/*".toList ++ (body ++ ("*/".toList ++ u))))

theorem withoutComments_comment {front body : Text} (free : ¬ "/*".toList <:+: front)
    (unended : ¬ "*/".toList <:+: body) (u : Text) :
    withoutComments (front ++ ("/*".toList ++ (body ++ ("*/".toList ++ u)))) =
      front ++ withoutComments u := by
  have opens : cutAt "/*".toList (front ++ ("/*".toList ++ (body ++ ("*/".toList ++ u)))) =
      some (front, body ++ ("*/".toList ++ u)) := cutAt_pair (by decide) free _
  have ends : cutAt "*/".toList (body ++ ("*/".toList ++ u)) = some (body, u) :=
    cutAt_pair (by decide) unended u
  rw [withoutComments]
  split
  · next cut =>
    rw [opens] at cut
    cases cut
  · next before rest cut =>
    rw [opens] at cut
    obtain ⟨rfl, rfl⟩ := Prod.mk.inj (Option.some.inj cut)
    split
    · next cut' =>
      rw [ends] at cut'
      cases cut'
    · next inside after cut' =>
      rw [ends] at cut'
      obtain ⟨rfl, rfl⟩ := Prod.mk.inj (Option.some.inj cut')
      rfl

theorem withoutComments_commented {t u : Text} (commented : Commented t u)
    (free : ¬ "/*".toList <:+: t) : withoutComments u = t := by
  induction commented with
  | asItIs t => exact withoutComments_eq free
  | @comment front body t u unended rest ih =>
    have before : ¬ "/*".toList <:+: front := fun inside =>
      free (inside.trans (List.prefix_append front t).isInfix)
    have behind : ¬ "/*".toList <:+: t := fun inside =>
      free (inside.trans (List.suffix_append front t).isInfix)
    rw [withoutComments_comment before unended, ih behind]

/- Blocks. -/

/-- What a sheet is made of: rules, statements, and groups of such blocks under a heading. Blanks
may be left at the end of a sheet or a group. -/
inductive Blocks where
  | stop (trail : Text)
  | statement (content : Text) (rest : Blocks)
  | rule (selector body : Text) (rest : Blocks)
  | group (heading : Text) (inner rest : Blocks)

def Braceless (t : Text) : Prop := '\x7b' ∉ t ∧ '\x7d' ∉ t

instance (t : Text) : Decidable (Braceless t) := inferInstanceAs (Decidable (_ ∧ _))

namespace Blocks

def written : Blocks → Text
  | stop trail => trail
  | statement content rest => content ++ ';' :: rest.written
  | rule selector body rest => selector ++ '\x7b' :: (body ++ '\x7d' :: rest.written)
  | group heading inner rest => heading ++ '\x7b' :: (inner.written ++ '\x7d' :: rest.written)

def flat : Blocks → List (Text × Text)
  | stop _ => []
  | statement _ rest => rest.flat
  | rule selector body rest => (selector, body) :: rest.flat
  | group _ inner rest => inner.flat ++ rest.flat

def isBare : Blocks → Bool
  | stop _ => true
  | _ => false

def opens : Blocks → Bool
  | stop _ => false
  | statement _ rest => rest.opens
  | rule .. => true
  | group .. => true

/-- A group holds nothing, or at least one rule or group. -/
def Formed : Blocks → Prop
  | stop trail => Blank trail
  | statement content rest => content.Plain ∧ rest.Formed
  | rule selector body rest => Braceless selector ∧ Braceless body ∧ rest.Formed
  | group heading inner rest =>
    heading.Plain ∧ (inner.isBare || inner.opens) = true ∧ inner.Formed ∧ rest.Formed

instance : (b : Blocks) → Decidable b.Formed
  | stop trail => inferInstanceAs (Decidable (Blank trail))
  | statement content rest =>
    have : Decidable rest.Formed := instDecidableFormed rest
    inferInstanceAs (Decidable (content.Plain ∧ rest.Formed))
  | rule selector body rest =>
    have : Decidable rest.Formed := instDecidableFormed rest
    inferInstanceAs (Decidable (Braceless selector ∧ Braceless body ∧ rest.Formed))
  | group heading inner rest =>
    have : Decidable inner.Formed := instDecidableFormed inner
    have : Decidable rest.Formed := instDecidableFormed rest
    inferInstanceAs (Decidable
      (heading.Plain ∧ (inner.isBare || inner.opens) = true ∧ inner.Formed ∧ rest.Formed))

def ofRules : List (Text × Text) → Blocks
  | [] => stop []
  | r :: rs => rule r.1 r.2 (ofRules rs)

theorem flat_ofRules (rs : List (Text × Text)) : (ofRules rs).flat = rs := by
  induction rs with
  | nil => rfl
  | cons r rs ih => rw [ofRules, flat, ih]

theorem formed_ofRules {rs : List (Text × Text)}
    (braceless : ∀ r ∈ rs, Braceless r.1 ∧ Braceless r.2) : (ofRules rs).Formed := by
  induction rs with
  | nil => exact List.forall_mem_nil _
  | cons r rs ih =>
    have first := braceless r List.mem_cons_self
    exact ⟨first.1, first.2, ih fun r later => braceless r (List.mem_cons_of_mem _ later)⟩

theorem free_ofRules {rs : List (Text × Text)}
    (free : ∀ r ∈ rs, ¬ "/*".toList <:+: r.1 ∧ ¬ "/*".toList <:+: r.2) :
    ¬ "/*".toList <:+: (ofRules rs).written := by
  induction rs with
  | nil => decide
  | cons r rs ih =>
    have first := free r List.mem_cons_self
    intro inside
    rcases infix_around (by decide) inside with selector | behind
    · exact first.1 selector
    · rcases infix_around (by decide) behind with body | later
      · exact first.2 body
      · exact ih (fun r member => free r (List.mem_cons_of_mem _ member)) later

theorem braceless_flat {b : Blocks} (formed : b.Formed) :
    ∀ r ∈ b.flat, Braceless r.1 ∧ Braceless r.2 := by
  induction b with
  | stop trail => exact List.forall_mem_nil _
  | statement content rest ih => exact ih formed.2
  | rule selector body rest ih =>
    intro r member
    rcases List.mem_cons.mp member with rfl | later
    · exact ⟨formed.1, formed.2.1⟩
    · exact ih formed.2.2 r later
  | group heading inner rest ihInner ihRest =>
    intro r member
    rcases List.mem_append.mp member with within | later
    · exact ihInner formed.2.2.1 r within
    · exact ihRest formed.2.2.2 r later

theorem infix_flat {b : Blocks} {r : Text × Text} (member : r ∈ b.flat) :
    r.1 <:+: b.written ∧ r.2 <:+: b.written := by
  induction b with
  | stop trail => cases member
  | statement content rest ih =>
    have behind : rest.written <:+: (statement content rest).written :=
      ⟨content ++ [';'], [], by simp [written]⟩
    exact (ih member).imp (·.trans behind) (·.trans behind)
  | rule selector body rest ih =>
    rcases List.mem_cons.mp member with rfl | later
    · exact ⟨⟨[], '\x7b' :: (body ++ '\x7d' :: rest.written), by simp [written]⟩,
        ⟨selector ++ ['\x7b'], '\x7d' :: rest.written, by simp [written]⟩⟩
    · have behind : rest.written <:+: (rule selector body rest).written :=
        ⟨selector ++ '\x7b' :: (body ++ ['\x7d']), [], by simp [written]⟩
      exact (ih later).imp (·.trans behind) (·.trans behind)
  | group heading inner rest ihInner ihRest =>
    rcases List.mem_append.mp member with within | later
    · have inside : inner.written <:+: (group heading inner rest).written :=
        ⟨heading ++ ['\x7b'], '\x7d' :: rest.written, by simp [written]⟩
      exact (ihInner within).imp (·.trans inside) (·.trans inside)
    · have behind : rest.written <:+: (group heading inner rest).written :=
        ⟨heading ++ '\x7b' :: (inner.written ++ ['\x7d']), [], by simp [written]⟩
      exact (ihRest later).imp (·.trans behind) (·.trans behind)

theorem opens_first {b : Blocks} (formed : b.Formed) (some : b.opens = true) (more : Text) :
    ∃ front back, b.written ++ '\x7d' :: more = front ++ '\x7b' :: back ∧ '\x7d' ∉ front ∧
      '\x7d' ∈ back := by
  induction b with
  | stop trail => cases some
  | statement content rest ih =>
    obtain ⟨front, back, split, unclosed, closes⟩ := ih formed.2 some
    refine ⟨content ++ ';' :: front, back, ?_, ?_, closes⟩
    · simp [written, split]
    · simp [notMem_plain formed.1, isDelimiter, unclosed]
  | rule selector body rest ih =>
    exact ⟨selector, body ++ '\x7d' :: (rest.written ++ '\x7d' :: more), by simp [written],
      formed.1.2, by simp⟩
  | group heading inner rest ihInner ihRest =>
    exact ⟨heading, inner.written ++ '\x7d' :: (rest.written ++ '\x7d' :: more), by simp [written],
      notMem_plain formed.1 (by decide), by simp⟩

end Blocks

/- The scanner among blocks. -/

theorem lastStatement_behind (front : Text) {c : Char} (ends : c = '\x7d' ∨ c = ';') (t : Text) :
    lastStatement (front ++ c :: t) = lastStatement t := by
  have stops : ¬ (c != '\x7d' && c != ';') = true := by
    rcases ends with rfl | rfl <;> decide
  unfold lastStatement
  rw [List.reverse_append, List.reverse_cons, List.append_assoc, List.singleton_append,
    List.takeWhile_append, List.takeWhile_cons, if_neg stops, List.append_nil]
  split
  · next whole => rw [(List.takeWhile_prefix _).eq_of_length whole]
  · rfl

theorem rules_behind {front : Text} (unopened : '\x7b' ∉ front) {c : Char}
    (ends : c = '\x7d' ∨ c = ';') (t : Text) : rules (front ++ c :: t) = rules t := by
  have other : '\x7b' ∉ front ++ [c] := by
    rcases ends with rfl | rfl <;> simp [unopened]
  by_cases opened : '\x7b' ∈ t
  · obtain ⟨before, inside, rfl, first⟩ := List.eq_append_cons_of_mem opened
    have early : '\x7b' ∉ (front ++ [c]) ++ before := by
      rw [List.mem_append, not_or]
      exact ⟨other, first⟩
    have split : front ++ c :: (before ++ '\x7b' :: inside) =
        ((front ++ [c]) ++ before) ++ '\x7b' :: inside := by simp
    rw [split, rules_open early, rules_open first, List.append_assoc, List.singleton_append,
      lastStatement_behind front ends]
  · have none : '\x7b' ∉ (front ++ [c]) ++ t := by
      rw [List.mem_append, not_or]
      exact ⟨other, opened⟩
    rw [rules_unopened opened, rules_unopened (by simpa using none)]

theorem rules_closing (t : Text) : rules ('\x7d' :: t) = rules t :=
  rules_behind List.not_mem_nil (Or.inl rfl) t

theorem rules_group {heading front back : Text} (unopened : '\x7b' ∉ heading)
    (unclosed : '\x7d' ∉ front) (closes : '\x7d' ∈ back) :
    rules (heading ++ '\x7b' :: (front ++ '\x7b' :: back)) = rules (front ++ '\x7b' :: back) := by
  obtain ⟨body, after, rfl, first⟩ := List.eq_append_cons_of_mem closes
  have early : '\x7d' ∉ front ++ '\x7b' :: body := by simp [unclosed, first]
  have split : front ++ '\x7b' :: (body ++ '\x7d' :: after) =
      (front ++ '\x7b' :: body) ++ '\x7d' :: after := by simp
  rw [rules_open unopened, split, cutAt_char early]
  simp

def scanned (r : Text × Text) : Text × Text := (lastStatement r.1, r.2)

def isIdle (r : Text × Text) : Bool :=
  (selectorClasses (scanned r).1).isEmpty || (bodyDeclarations r.2).isEmpty

theorem addRule_idle {r : Text × Text} (idle : isIdle r = true) (sheet : Stylesheet) :
    addRule sheet (scanned r) = sheet := by
  simp only [isIdle, Bool.or_eq_true, List.isEmpty_iff] at idle
  unfold addRule
  dsimp only
  split
  · rfl
  · next declares =>
    rcases idle with unnamed | silent
    · rw [unnamed, List.foldl_nil]
    · simp [scanned, silent] at declares

theorem bodyDeclarations_blank {t : Text} (blank : Blank t) : bodyDeclarations t = [] := by
  unfold bodyDeclarations
  rw [parts_written (List.forall_mem_nil _) (.stop blank)]
  rfl

theorem addRules_blocks {b : Blocks} (formed : b.Formed) {t : Text}
    (ends : t = [] ∨ ∃ more, t = '\x7d' :: more) (sheet : Stylesheet) :
    (rules (b.written ++ t)).foldl addRule sheet =
      (rules t).foldl addRule ((b.flat.map scanned).foldl addRule sheet) := by
  induction b generalizing t sheet with
  | stop trail =>
    have unopened : '\x7b' ∉ trail := notMem_blank formed (by decide)
    rcases ends with rfl | ⟨more, rfl⟩
    · rw [Blocks.written, List.append_nil, rules_unopened unopened,
        rules_unopened List.not_mem_nil]
      rfl
    · rw [Blocks.written, rules_behind unopened (Or.inl rfl), rules_closing]
      rfl
  | statement content rest ih =>
    have unopened : '\x7b' ∉ content := notMem_plain formed.1 (by decide)
    rw [Blocks.written, List.append_assoc, List.cons_append, rules_behind unopened (Or.inr rfl),
      ih formed.2 ends]
    rfl
  | rule selector body rest ih =>
    obtain ⟨front, inside, behind⟩ := formed
    have split : (Blocks.rule selector body rest).written ++ t =
        selector ++ '\x7b' :: (body ++ '\x7d' :: (rest.written ++ t)) := by
      simp [Blocks.written]
    rw [split, rules_rule front.1 inside, List.foldl_cons, ih behind ends]
    rfl
  | group heading inner rest ihInner ihRest =>
    obtain ⟨plain, filled, within, behind⟩ := formed
    have unopened : '\x7b' ∉ heading := notMem_plain plain (by decide)
    have split : (Blocks.group heading inner rest).written ++ t =
        heading ++ '\x7b' :: (inner.written ++ '\x7d' :: (rest.written ++ t)) := by
      simp [Blocks.written]
    rw [split]
    rcases Bool.or_eq_true_iff.mp filled with bare | some
    · -- the empty group is scanned as a rule without declarations
      cases inner with
      | stop trail =>
        have inside : Braceless trail :=
          ⟨notMem_blank within (by decide), notMem_blank within (by decide)⟩
        have idle : isIdle (heading, trail) = true := by
          simp [isIdle, bodyDeclarations_blank within]
        have kept := addRule_idle idle sheet
        unfold scanned at kept
        rw [Blocks.written, rules_rule unopened inside, List.foldl_cons, kept,
          ihRest behind ends]
        rfl
      | _ => cases bare
    · obtain ⟨front, back, first, unclosed, closes⟩ :=
        Blocks.opens_first within some (rest.written ++ t)
      rw [first, rules_group unopened unclosed closes, ← first,
        ihInner within (Or.inr ⟨_, rfl⟩), rules_closing, ihRest behind ends, Blocks.flat,
        List.map_append, List.foldl_append]

theorem read_eq_addRules {b : Blocks} (formed : b.Formed) {u : Text}
    (bare : withoutComments u = b.written) :
    read u = (b.flat.map scanned).foldl addRule [] := by
  have whole := addRules_blocks formed (Or.inl rfl) []
  rw [List.append_nil, rules_unopened (t := []) List.not_mem_nil] at whole
  rw [read, bare, whole]
  rfl

theorem addRules_busy (rs : List (Text × Text)) (sheet : Stylesheet) :
    ((rs.filter (!isIdle ·)).map scanned).foldl addRule sheet =
      (rs.map scanned).foldl addRule sheet := by
  induction rs generalizing sheet with
  | nil => rfl
  | cons r rs ih =>
    cases idle : isIdle r with
    | true => simp [idle, ih, addRule_idle idle]
    | false => simp [idle, ih]

/-- Comments at any places, statements and groups change nothing in the table of a sheet: it is that
of the rules alone, one after the other. Nor does it change with the rules that name no class or
make no declaration, whichever of them are left out. -/
theorem read_blocks {b : Blocks} (formed : b.Formed) (free : ¬ "/*".toList <:+: b.written)
    {u : Text} (commented : Commented b.written u) :
    read u = read (Blocks.ofRules b.flat).written ∧
    ∀ kept, kept.Sublist b.flat → (b.flat.filter (!isIdle ·)).Sublist kept →
      read u = read (Blocks.ofRules kept).written := by
  have scan := read_eq_addRules formed (withoutComments_commented commented free)
  have alone {rs : List (Text × Text)} (some : rs ⊆ b.flat) :
      read (Blocks.ofRules rs).written = (rs.map scanned).foldl addRule [] := by
    have formed' := Blocks.formed_ofRules fun r member =>
      Blocks.braceless_flat formed r (some member)
    have free' := Blocks.free_ofRules fun r member =>
      have inside := Blocks.infix_flat (some member)
      ⟨fun comment => free (comment.trans inside.1), fun comment => free (comment.trans inside.2)⟩
    rw [read_eq_addRules formed' (withoutComments_eq free'), Blocks.flat_ofRules]
  have less : ∀ kept, kept.Sublist b.flat → (b.flat.filter (!isIdle ·)).Sublist kept →
      read u = read (Blocks.ofRules kept).written := by
    intro kept sub busy
    have same : kept.filter (!isIdle ·) = b.flat.filter (!isIdle ·) := by
      have back := busy.filter (!isIdle ·)
      rw [List.filter_filter] at back
      simp only [Bool.and_self] at back
      exact (sub.filter _).antisymm back
    rw [scan, alone sub.subset, ← addRules_busy kept, same, addRules_busy]
  exact ⟨less b.flat (List.Sublist.refl _) List.filter_sublist, less⟩

theorem read_blocks_nested :
    let b : Blocks :=
      .statement "@import x".toList <|
      .group "@media y".toList
        (.group "@supports z".toList
          (.rule ".a".toList "Color:red".toList (.stop []))
          (.rule "p".toList "color:blue".toList (.stop "\n".toList))) <|
      .group "@page".toList (.stop []) <|
      .rule ".b, c.d".toList "font-weight:bold;;".toList (.stop "\n".toList)
    let u := ("@import /* \x7b */x;@media y\x7b@supports z\x7b.a\x7bCo/**/lor:red\x7d\x7dp\x7b" ++
      "color:blue\x7d\n\x7d@page\x7b\x7d.b, c.d\x7bfont-weight:bold;;\x7d\n").toList
    b.Formed ∧ ¬ "/*".toList <:+: b.written ∧ Commented b.written u ∧
      read u = read ".a\x7bColor:red\x7d.b, c.d\x7bfont-weight:bold;;\x7d".toList ∧
      read u = [⟨"a".toList, [⟨"color".toList, "red".toList⟩]⟩,
        ⟨"b".toList, [⟨"font-weight".toList, "bold".toList⟩]⟩,
        ⟨"d".toList, [⟨"font-weight".toList, "bold".toList⟩]⟩] := by
  intro b u
  have formed : b.Formed := by decide +kernel
  have free : ¬ "/*".toList <:+: b.written := by decide +kernel
  have commented : Commented b.written u := by
    have brace : ¬ "*/".toList <:+: " \x7b ".toList := by decide
    have empty : ¬ "*/".toList <:+: [] := by decide
    have pieces := Commented.comment "@import ".toList brace <|
      Commented.comment "x;@media y\x7b@supports z\x7b.a\x7bCo".toList empty <|
      Commented.asItIs ("lor:red\x7d\x7dp\x7bcolor:blue\x7d\n\x7d@page\x7b\x7d" ++
        ".b, c.d\x7bfont-weight:bold;;\x7d\n").toList
    convert pieces using 1
    · decide +kernel
    · decide +kernel
  obtain ⟨_, less⟩ := read_blocks formed free commented
  have kept := less [(".a".toList, "Color:red".toList),
    (".b, c.d".toList, "font-weight:bold;;".toList)] (by decide +kernel) (by decide +kernel)
  refine ⟨formed, free, commented, kept, ?_⟩
  rw [kept]
  decide +kernel

end SyntaxPaint.Stylesheet
