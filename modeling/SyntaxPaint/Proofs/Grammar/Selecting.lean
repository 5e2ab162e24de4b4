import SyntaxPaint.Grammar.Catalogue
import SyntaxPaint.Proofs.Text.Casing
import SyntaxPaint.Proofs.Text.Cutting

/-!
Which grammar a listed name selects, whatever library holds the grammars. Names are looked up
without the blanks around them, and a few words always mean plain text. Any other name selects a
grammar of exactly that name; one that no grammar has without the blanks goes to the library's
grammar for that extension or else to one that is akin to it (`listed_selects`).
-/
namespace SyntaxPaint

namespace GrammarLibrary
open Text

section Lookup
variable {G : Type} {lib : GrammarLibrary G} {gs : List G} {g : G}

def HasExtension (lib : GrammarLibrary G) (g : G) (word : Text) : Prop :=
  ∃ extension ∈ lib.extensions g, asciiLower extension = asciiLower word

def Akin (lib : GrammarLibrary G) (g : G) (word : Text) : Prop :=
  asciiLower (lib.name g) = asciiLower word ∨
    (simplified word ≠ [] ∧ simplified (lib.name g) = simplified word) ∨ lib.HasExtension g word

def IsFirst (gs : List G) (suits : G → Prop) (g : G) : Prop :=
  ∃ before after, gs = before ++ g :: after ∧ suits g ∧ ∀ other ∈ before, ¬ suits other

/-- What is documented of the lookups. The one by name finds a grammar of exactly that name whenever
there is one, and so does the one for plain text, whose grammar is bundled. The one by extension
finds a grammar whenever one has exactly that extension, but may pass over the case of letters. -/
structure Lawful (lib : GrammarLibrary G) : Prop where
  named : ∀ gs name g, lib.named? gs name = some g → g ∈ gs ∧ lib.name g = name
  named_isSome : ∀ gs g, g ∈ gs → (lib.named? gs (lib.name g)).isSome = true
  extended : ∀ gs extension g, lib.forExtension? gs extension = some g →
    g ∈ gs ∧ lib.HasExtension g extension
  extended_isSome : ∀ gs g extension, g ∈ gs → extension ∈ lib.extensions g →
    (lib.forExtension? gs extension).isSome = true
  plain : ∀ gs g, lib.plain? gs = some g → g ∈ gs ∧ lib.name g = plainName
  plain_isSome : ∀ gs g, g ∈ gs → lib.name g = plainName → (lib.plain? gs).isSome = true
  bundled : ∃ g ∈ lib.bundled, lib.name g = plainName

theorem mem_names {name : Text} : name ∈ lib.names gs ↔ ∃ g ∈ gs, lib.name g = name := by
  rw [names, List.mem_mergeSort, List.mem_eraseDups, List.mem_map]

theorem Lawful.named_of_mem (lawful : lib.Lawful) {name : Text} (listed : name ∈ lib.names gs) :
    ∃ g, lib.named? gs name = some g ∧ g ∈ gs ∧ lib.name g = name := by
  obtain ⟨own, member, rfl⟩ := mem_names.mp listed
  obtain ⟨g, found⟩ := Option.isSome_iff_exists.mp (lawful.named_isSome gs own member)
  exact ⟨g, found, lawful.named gs _ g found⟩

theorem Lawful.named_eq_none (lawful : lib.Lawful) {name : Text} (unlisted : name ∉ lib.names gs) :
    lib.named? gs name = none := by
  cases found : lib.named? gs name with
  | none => rfl
  | some g => exact absurd (mem_names.mpr ⟨g, lawful.named gs name g found⟩) unlisted

theorem Lawful.plain_found (lawful : lib.Lawful) (bundled : lib.bundled ⊆ gs) :
    ∃ g, lib.plain? gs = some g ∧ g ∈ gs ∧ lib.name g = plainName := by
  obtain ⟨own, member, same⟩ := lawful.bundled
  obtain ⟨g, found⟩ :=
    Option.isSome_iff_exists.mp (lawful.plain_isSome gs own (bundled member) same)
  exact ⟨g, found, lawful.plain gs g found⟩

/- What answers to a word. -/

theorem isFirst_of_find? {test : G → Bool} {suits : G → Prop}
    (reads : ∀ g, test g = true ↔ suits g) (found : gs.find? test = some g) :
    IsFirst gs suits g := by
  obtain ⟨here, before, after, split, none⟩ := List.find?_eq_some_iff_append.mp found
  refine ⟨before, after, split, (reads g).mp here, ?_⟩
  intro other member fit
  have unfit := none other member
  rw [(reads other).mpr fit] at unfit
  cases unfit

/-- The grammar that answers to a word that is no grammar's name: the one that the library has for
that extension; without one, the first grammar that is akin. -/
inductive Answers (lib : GrammarLibrary G) (gs : List G) (word : Text) (g : G) : Prop
  | extension (found : lib.forExtension? gs word = some g) (extended : lib.HasExtension g word)
  | likeness (unfound : lib.forExtension? gs word = none)
      (unextended : ∀ other ∈ gs, word ∉ lib.extensions other)
      (first : IsFirst gs (lib.Akin · word) g)

theorem akin_iff (word : Text) (g : G) :
    (sameIgnoringCase (lib.name g) word ||
      (!(simplified word).isEmpty && simplified (lib.name g) == simplified word) ||
      (lib.extensions g).any (sameIgnoringCase · word)) = true ↔ lib.Akin g word := by
  simp [Akin, HasExtension, sameIgnoringCase, or_assoc]

theorem candidate?_eq {word : Text} (filled : word.trim ≠ []) :
    lib.candidate? gs word = ((lib.named? gs word.trim).or (lib.forExtension? gs word.trim)).or
      (lib.similar? gs word.trim) := by
  unfold candidate?
  dsimp only
  rw [List.isEmpty_eq_false_iff.mpr filled]
  rfl

theorem candidate?_named (lawful : lib.Lawful) {word : Text} (filled : word.trim ≠ [])
    (listed : word.trim ∈ lib.names gs) :
    ∃ g, lib.candidate? gs word = some g ∧ g ∈ gs ∧ lib.name g = word.trim := by
  obtain ⟨g, found, own⟩ := lawful.named_of_mem listed
  rw [candidate?_eq filled, found]
  exact ⟨g, rfl, own⟩

theorem candidate?_answers (lawful : lib.Lawful) {word : Text} (filled : word.trim ≠ [])
    (unlisted : word.trim ∉ lib.names gs) (akin : ∃ other ∈ gs, lib.Akin other word.trim) :
    ∃ g, lib.candidate? gs word = some g ∧ g ∈ gs ∧ lib.Answers gs word.trim g := by
  rw [candidate?_eq filled, lawful.named_eq_none unlisted]
  cases found : lib.forExtension? gs word.trim with
  | some g =>
    obtain ⟨member, extended⟩ := lawful.extended gs _ g found
    exact ⟨g, rfl, member, .extension found extended⟩
  | none =>
    have unextended : ∀ other ∈ gs, word.trim ∉ lib.extensions other := by
      intro other member exact
      have some := lawful.extended_isSome gs other _ member exact
      rw [found] at some
      cases some
    cases similar : lib.similar? gs word.trim with
    | some g =>
      have first := isFirst_of_find? (akin_iff word.trim) similar
      exact ⟨g, rfl, List.mem_of_find?_eq_some similar, .likeness found unextended first⟩
    | none =>
      obtain ⟨other, member, akin⟩ := akin
      exact absurd ((akin_iff word.trim other).mpr akin)
        (List.find?_eq_none.mp similar other member)

theorem simplified_trim (name : Text) : simplified name.trim = simplified name := by
  obtain ⟨front, back, before, behind, split⟩ := padded_trim name
  have unwritten {pad : Text} (blank : Blank pad) : pad.filter Char.isAlphanum = [] := by
    rw [List.filter_eq_nil_iff]
    intro c member alphanum
    exact notMem_blank blank (visible_alphanum alphanum) member
  unfold simplified
  conv => rhs; rw [split]
  rw [List.filter_append, List.filter_append, unwritten before, unwritten behind, List.nil_append,
    List.append_nil]

theorem akin_trim {name : Text} (lettered : ∃ c ∈ name, c.isAlphanum = true)
    (same : lib.name g = name) : lib.Akin g name.trim := by
  right
  left
  rw [simplified_trim, same]
  refine ⟨?_, rfl⟩
  unfold simplified asciiLower
  rw [ne_eq, List.map_eq_nil_iff, List.filter_eq_nil_iff]
  intro unlettered
  obtain ⟨c, member, alphanum⟩ := lettered
  exact unlettered c member alphanum

/- What a name selects. -/

def IsPlainWord (word : Text) : Prop := asciiLower word ∈ plainWords

instance (word : Text) : Decidable (IsPlainWord word) :=
  inferInstanceAs (Decidable (asciiLower word ∈ plainWords))

theorem select?_plain {name : Text} (plain : IsPlainWord name.trim) :
    lib.select? gs name = lib.plain? gs := by
  have filled : name.trim ≠ [] := by
    intro none
    rw [none] at plain
    exact absurd plain (by decide)
  unfold select?
  dsimp only
  rw [List.isEmpty_eq_false_iff.mpr filled, List.contains_iff_mem.mpr plain]
  rfl

theorem select?_candidate {name : Text} (other : ¬ IsPlainWord name.trim) (filled : name.trim ≠ [])
    (found : lib.candidate? gs name.trim = some g) : lib.select? gs name = some g := by
  have unplain : plainWords.contains (asciiLower name.trim) = false := by
    rw [← Bool.not_eq_true, List.contains_iff_mem]
    exact other
  unfold select?
  dsimp only
  rw [List.isEmpty_eq_false_iff.mpr filled, unplain, found]
  rfl

/-- Whether the engine accepts a word for a language and leaves every source in it to a grammar. -/
structure ReadsBy (lib : GrammarLibrary G) (gs : List G) (word : Text) (g : G) : Prop where
  member : g ∈ gs
  accepted : (lib.engine gs).supports word = true
  chosen : ∀ source, lib.grammarFor gs (some word) source = .ok g
  written : ∀ call source, (lib.engine gs).reply call (some word) source =
    (lib.markup gs g classStart source).mapError .engine

theorem readsBy_of_select? {word : Text} (member : g ∈ gs)
    (selected : lib.select? gs word = some g) : lib.ReadsBy gs word g := by
  have chosen (source : Text) : lib.grammarFor gs (some word) source = .ok g := by
    unfold grammarFor
    dsimp only
    rw [selected]
    rfl
  refine ⟨member, ?_, chosen, ?_⟩
  · show (lib.select? gs word).isSome = true
    rw [selected]
    rfl
  · intro call source
    show (lib.grammarFor gs (some word) source).bind (lib.write gs source) = _
    rw [chosen source]
    rfl

theorem reads_plain (lawful : lib.Lawful) (bundled : lib.bundled ⊆ gs) {name : Text}
    (plain : IsPlainWord name.trim) : ∃ g, lib.name g = plainName ∧ lib.ReadsBy gs name g := by
  obtain ⟨g, found, member, same⟩ := lawful.plain_found bundled
  exact ⟨g, same, readsBy_of_select? member ((select?_plain plain).trans found)⟩

theorem reads_named (lawful : lib.Lawful) {name : Text} (other : ¬ IsPlainWord name.trim)
    (filled : name.trim ≠ []) (listed : name.trim ∈ lib.names gs) :
    ∃ g, lib.name g = name.trim ∧ lib.ReadsBy gs name g := by
  rw [← trim_trim] at filled listed
  obtain ⟨g, found, member, same⟩ := candidate?_named lawful filled listed
  rw [trim_trim] at filled same
  exact ⟨g, same, readsBy_of_select? member (select?_candidate other filled found)⟩

theorem reads_answer (lawful : lib.Lawful) {name : Text} (other : ¬ IsPlainWord name.trim)
    (filled : name.trim ≠ []) (unlisted : name.trim ∉ lib.names gs)
    (akin : ∃ other ∈ gs, lib.Akin other name.trim) :
    ∃ g, lib.Answers gs name.trim g ∧ lib.ReadsBy gs name g := by
  rw [← trim_trim] at filled unlisted akin
  obtain ⟨g, found, member, answers⟩ := candidate?_answers lawful filled unlisted akin
  rw [trim_trim] at filled answers
  exact ⟨g, answers, readsBy_of_select? member (select?_candidate other filled found)⟩

/-- Let a library have lookups as documented, and let a set hold its bundled grammars and others.
A listed name that is not blank is looked up without the blanks around it. If that is a word for
plain text, sources are read as plain text. If it is a listed name, as it is where there were no
blanks, they are read by a grammar of exactly that name. Otherwise the grammar that answers to it
reads them, provided that the name has letters or digits or that some grammar is akin. -/
theorem listed_selects (lawful : lib.Lawful) (bundled : lib.bundled ⊆ gs) {name : Text}
    (listed : name ∈ (lib.engine gs).languages) (filled : name.trim ≠ []) :
    (IsPlainWord name.trim → ∃ g, lib.name g = plainName ∧ lib.ReadsBy gs name g) ∧
    (¬ IsPlainWord name.trim → name.trim ∈ lib.names gs →
      ∃ g, lib.name g = name.trim ∧ lib.ReadsBy gs name g) ∧
    (¬ IsPlainWord name.trim → name.trim ∉ lib.names gs →
      ((∃ c ∈ name, c.isAlphanum = true) ∨ ∃ other ∈ gs, lib.Akin other name.trim) →
      ∃ g, lib.Answers gs name.trim g ∧ lib.ReadsBy gs name g) := by
  refine ⟨?plain, ?named, ?akin⟩
  case plain => exact reads_plain lawful bundled
  case named =>
    intro other named
    exact reads_named lawful other filled named
  case akin =>
    intro other unlisted likely
    apply reads_answer lawful other filled unlisted
    rcases likely with lettered | akin
    · obtain ⟨own, member, same⟩ := mem_names.mp listed
      exact ⟨own, member, akin_trim lettered same⟩
    · exact akin

end Lookup

/- The catalogue. -/

open Grammar

variable {gs : List Grammar} {g : Grammar} {fits : Grammar → Bool}

theorem last?_eq_some (found : last? gs fits = some g) : g ∈ gs ∧ fits g = true :=
  ⟨List.mem_reverse.mp (List.mem_of_find?_eq_some found), List.find?_some found⟩

theorem last?_isSome (member : g ∈ gs) (fit : fits g = true) : (last? gs fits).isSome = true :=
  List.find?_isSome.mpr ⟨g, List.mem_reverse.mpr member, fit⟩

theorem lawful_catalogue : catalogue.Lawful where
  named gs name g found := by
    obtain ⟨member, same⟩ := last?_eq_some found
    exact ⟨member, beq_iff_eq.mp same⟩
  named_isSome gs g member := last?_isSome member (beq_self_eq_true g.name)
  extended gs extension g found := by
    obtain ⟨member, extended⟩ := last?_eq_some found
    exact ⟨member, by simpa [HasExtension, catalogue, sameIgnoringCase] using extended⟩
  extended_isSome gs g extension member exact := by
    apply last?_isSome member
    rw [List.any_eq_true]
    exact ⟨extension, exact, beq_self_eq_true (asciiLower extension)⟩
  plain gs g found := by
    obtain ⟨member, same⟩ := last?_eq_some found
    exact ⟨member, beq_iff_eq.mp same⟩
  plain_isSome gs g member same := last?_isSome member (beq_iff_eq.mpr same)
  bundled := ⟨_, List.mem_cons_self, rfl⟩

theorem listed_selects_beside_three :
    let lib := catalogue
    let more := [of "Text" [] "source.mine" none, of "bash" [] "source.own" none,
      of " Foo " [] "source.foo" none]
    let gs := lib.bundled ++ more
    ("Text".toList ∈ lib.names gs ∧
      ∃ g, g.name = plainName ∧ lib.ReadsBy gs "Text".toList g) ∧
    ("bash".toList ∈ lib.names gs ∧
      ∃ g, g.name = "bash".toList ∧ lib.ReadsBy gs "bash".toList g) ∧
    (" Foo ".toList ∈ lib.names gs ∧
      ∃ g, lib.Answers gs "Foo".toList g ∧ lib.ReadsBy gs " Foo ".toList g) := by
  intro lib more gs
  have bundled : lib.bundled ⊆ gs := List.subset_append_left _ _
  have listed (g : Grammar) (member : g ∈ more) : g.name ∈ lib.names gs :=
    mem_names.mpr ⟨g, List.mem_append_right _ member, rfl⟩
  have text : "Text".toList ∈ lib.names gs := listed (of "Text" [] "source.mine" none) (by decide)
  have bash : "bash".toList ∈ lib.names gs := listed (of "bash" [] "source.own" none) (by decide)
  have foo : " Foo ".toList ∈ lib.names gs := listed (of " Foo " [] "source.foo" none) (by decide)
  have bare : trim " Foo ".toList ∉ lib.names gs := by
    rw [mem_names]
    decide +kernel
  refine ⟨⟨text, ?_⟩, ⟨bash, ?_⟩, ⟨foo, ?_⟩⟩
  · exact (listed_selects lawful_catalogue bundled text (by decide)).1 (by decide)
  · exact (listed_selects lawful_catalogue bundled bash (by decide)).2.1 (by decide) bash
  · exact (listed_selects lawful_catalogue bundled foo (by decide)).2.2 (by decide) bare
      (Or.inl ⟨'F', by decide⟩)

/-- A grammar called `Text` is listed, but its name means plain text. -/
theorem text_selects_plain :
    let lib := catalogue
    let gs := lib.bundled ++ [of "Text" ["mine"] "source.mine" none]
    "Text".toList ∈ (lib.engine gs).languages ∧
      ∀ source, ∃ g, lib.grammarFor gs (some "Text".toList) source = .ok g ∧
        g.name ≠ "Text".toList := by
  intro lib gs
  have bundled : lib.bundled ⊆ gs := List.subset_append_left _ _
  have listed : "Text".toList ∈ lib.names gs :=
    mem_names.mpr ⟨_, List.mem_append_right _ List.mem_cons_self, rfl⟩
  have plain : IsPlainWord (trim "Text".toList) := by decide
  obtain ⟨g, name, reads⟩ := reads_plain lawful_catalogue bundled plain
  refine ⟨listed, fun source => ⟨g, reads.chosen source, ?_⟩⟩
  intro same
  have clash : "Text".toList = plainName := same.symm.trans name
  exact absurd clash (by decide)

end GrammarLibrary

end SyntaxPaint
