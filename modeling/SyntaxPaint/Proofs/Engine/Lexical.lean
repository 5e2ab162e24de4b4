import SyntaxPaint.Engine.Lexical
import SyntaxPaint.Proofs.Engine.Truthful

/-!
The lexical engine writes markup of the text that it was asked about, each character in the class of
its kind. Where it does not know comments, the kind of a character is its own.
-/
namespace SyntaxPaint

open Markup

theorem Markup.written_escape (c : Char) : Written c (escape c) := by
  unfold escape
  split
  · have denotes : Reference.Denotes "amp".toList '&' := .name (by decide)
    exact .reference denotes (by decide)
  · have denotes : Reference.Denotes "lt".toList '<' := .name (by decide)
    exact .reference denotes (by decide)
  · have denotes : Reference.Denotes "gt".toList '>' := .name (by decide)
    exact .reference denotes (by decide)
  · next noMark noTag _ => exact .plain noMark noTag

namespace LexicalKind

theorem ofText_characters (comments : Bool) (t : Text) :
    (ofText comments t).map (·.1) = t := by
  fun_induction ofText comments t with
  | case1 => rfl
  | case2 rest known inside after cut ih =>
    have whole := Text.cutAt_eq_some cut
    simp [whole, ih, Function.comp_def]
  | case3 rest known cut => simp [Function.comp_def]
  | case4 rest unknown ih => simp [ih]
  | case5 c rest noComment ih => simp [ih]

theorem ofText_singly (t : Text) : ofText false t = t.map fun c => (c, ofChar c) := by
  generalize unknown : false = comments
  fun_induction ofText comments t with
  | case1 => rfl
  | case2 rest known inside after cut ih => simp [← unknown] at known
  | case3 rest known cut => simp [← unknown] at known
  | case4 rest _ ih =>
    have slash : ofChar '/' = .other := by decide
    have star : ofChar '*' = .other := by decide
    simp [ih, slash, star]
  | case5 c rest noComment ih => simp [ih]

end LexicalKind

namespace LexicalClasses

structure Writable (l : LexicalClasses) : Prop where
  classes : ∀ kind, ∀ name ∈ l.of? kind, ¬ openingEnd <:+: name
  escapes : l.escapes = true

theorem writable_of_names {l : LexicalClasses} (escapes : l.escapes = true)
    (names : ∀ name ∈ l.digit.toList ++ l.letter.toList ++ l.comment.toList,
      ¬ openingEnd <:+: name) : l.Writable := by
  refine ⟨?_, escapes⟩
  intro kind name named
  refine names name ?_
  cases kind with
  | other => cases named
  | _ => simp_all [of?]

theorem write_differs (l : LexicalClasses) {within kind : LexicalKind} (differs : within ≠ kind)
    (c : Char) (rest : List (Char × LexicalKind)) :
    l.write (some within) ((c, kind) :: rest) =
      closingTag ++ l.write none ((c, kind) :: rest) := by
  have apart : (within == kind) = false := by simpa using differs
  rw [write, write]
  simp only [Option.all_some, apart, Option.all_none, if_true, Bool.false_eq_true, if_false]
  cases l.of? kind <;> simp

theorem write_opens (l : LexicalClasses) {kind : LexicalKind} {name : Text}
    (named : l.of? kind = some name) (c : Char) (rest : List (Char × LexicalKind)) :
    l.write none ((c, kind) :: rest) =
      openingTag name ++ (l.writeChar c ++ l.write (some kind) rest) := by
  rw [write]
  simp [named]

theorem write_stays (l : LexicalClasses) {within : Option LexicalKind} {kind : LexicalKind}
    (same : within = some kind ∨ within = none ∧ l.of? kind = none) (c : Char)
    (rest : List (Char × LexicalKind)) :
    l.write within ((c, kind) :: rest) = l.writeChar c ++ l.write within rest := by
  rw [write]
  rcases same with rfl | ⟨rfl, none⟩
  · cases named : l.of? kind <;> simp
  · simp [none]

def scopesWithin (l : LexicalClasses) (within : Option LexicalKind) : List Text :=
  documentClass :: (within.bind l.of?).toList

/-- Marks that stand for characters with their kinds, behind the tag of a span that may be open. -/
structure Marked (l : LexicalClasses) (within : Option LexicalKind)
    (xs : List (Char × LexicalKind)) (marks : List Mark) : Prop where
  valid : ∀ mark ∈ marks, mark.Valid
  characters : characters marks = xs.map (·.1)
  looks : ∀ style, looks style (l.scopesWithin within) marks =
    xs.map fun x => style (l.scopesWithin (some x.2))
  written : l.write within xs = Markup.write marks

section
variable {l : LexicalClasses} {kind : LexicalKind} {xs : List (Char × LexicalKind)}
  {marks : List Mark}

theorem marked_nil (l : LexicalClasses) (within : Option LexicalKind) :
    ∃ marks, Marked l within [] marks := by
  cases within with
  | none => exact ⟨[], by simp, rfl, fun style => rfl, rfl⟩
  | some kind => exact ⟨[.closing], by simp [Mark.Valid], rfl, fun style => rfl, rfl⟩

theorem marked_character (writable : l.Writable) {within : Option LexicalKind}
    (same : within = some kind ∨ within = none ∧ l.of? kind = none)
    (rest : Marked l within xs marks) (c : Char) :
    Marked l within ((c, kind) :: xs) (.character c (escape c) :: marks) := by
  have scopes : l.scopesWithin within = l.scopesWithin (some kind) := by
    rcases same with rfl | ⟨rfl, none⟩
    · rfl
    · simp [scopesWithin, none]
  constructor
  case valid => exact List.forall_mem_cons.mpr ⟨written_escape c, rest.valid⟩
  case characters => exact congrArg (c :: ·) rest.characters
  case looks =>
    intro style
    have first : Markup.looks style (l.scopesWithin within) (.character c (escape c) :: marks) =
      style (l.scopesWithin within) :: Markup.looks style (l.scopesWithin within) marks := rfl
    rw [first, rest.looks, List.map_cons, scopes]
  case written =>
    rw [write_stays l same, rest.written, writeChar, if_pos writable.escapes]
    rfl

theorem marked_opening (writable : l.Writable) {name : Text} (named : l.of? kind = some name)
    (rest : Marked l (some kind) xs marks) (c : Char) :
    Marked l none ((c, kind) :: xs) (.opening name :: .character c (escape c) :: marks) := by
  have behind := marked_character writable (Or.inl rfl) rest c
  have scopes : l.scopesWithin none ++ [name] = l.scopesWithin (some kind) := by
    simp [scopesWithin, named]
  constructor
  case valid => exact List.forall_mem_cons.mpr ⟨writable.classes kind name named, behind.valid⟩
  case characters => exact behind.characters
  case looks =>
    intro style
    rw [← behind.looks, ← scopes]
    rfl
  case written =>
    rw [write_opens l named, rest.written, writeChar, if_pos writable.escapes]
    rfl

theorem marked_closing {within : LexicalKind} (differs : within ≠ kind) {name : Text}
    (named : l.of? within = some name) {c : Char} (rest : Marked l none ((c, kind) :: xs) marks) :
    Marked l (some within) ((c, kind) :: xs) (.closing :: marks) := by
  have scopes : closeScope (l.scopesWithin (some within)) = l.scopesWithin none := by
    simp [scopesWithin, named, closeScope]
  constructor
  case valid => exact List.forall_mem_cons.mpr ⟨trivial, rest.valid⟩
  case characters => exact rest.characters
  case looks =>
    intro style
    rw [← rest.looks, ← scopes]
    rfl
  case written =>
    rw [write_differs l differs, rest.written]
    rfl

end

theorem exists_marked {l : LexicalClasses} (writable : l.Writable)
    (xs : List (Char × LexicalKind)) (within : Option LexicalKind)
    (classed : ∀ kind ∈ within, (l.of? kind).isSome = true) :
    ∃ marks, Marked l within xs marks := by
  induction xs generalizing within with
  | nil => exact marked_nil l within
  | cons x xs ih =>
    obtain ⟨c, kind⟩ := x
    have fresh : ∃ marks, Marked l none ((c, kind) :: xs) marks := by
      cases named : l.of? kind with
      | none =>
        obtain ⟨marks, rest⟩ := ih none (by simp)
        exact ⟨_, marked_character writable (Or.inr ⟨rfl, named⟩) rest c⟩
      | some name =>
        obtain ⟨marks, rest⟩ := ih (some kind) (by simp [named])
        exact ⟨_, marked_opening writable named rest c⟩
    cases within with
    | none => exact fresh
    | some before =>
      by_cases same : before = kind
      · subst same
        obtain ⟨marks, rest⟩ := ih (some before) classed
        exact ⟨_, marked_character writable (Or.inl rfl) rest c⟩
      · obtain ⟨name, named⟩ := Option.isSome_iff_exists.mp (classed before rfl)
        obtain ⟨marks, rest⟩ := fresh
        exact ⟨_, marked_closing same named rest⟩

end LexicalClasses

namespace Engine
open LexicalClasses

theorem sturdy_lexical (language : Text) (l : LexicalClasses) : (lexical language l).Sturdy := by
  intro n asked source broken
  unfold lexical forLanguage at broken
  dsimp only at broken
  split at broken
  · split at broken <;> cases broken
  · cases broken

theorem steady_lexical (language : Text) (l : LexicalClasses) : (lexical language l).Steady :=
  fun _ _ _ _ => rfl

theorem reply_lexical (language : Text) (l : LexicalClasses) (n : Nat) (source : Text) :
    (lexical language l).reply n (some language) source = .ok (l.markup source) :=
  if_pos (beq_self_eq_true language)

theorem truthful_lexical (language : Text) {l : LexicalClasses} (writable : l.Writable) :
    (lexical language l).Truthful language := by
  intro n source
  obtain ⟨marks, marked⟩ := exists_marked writable (LexicalKind.ofText l.comment.isSome source) none
    (by simp)
  refine ⟨marks, marked.valid, ?_, ?_⟩
  · rw [marked.characters, LexicalKind.ofText_characters]
  · rw [reply_lexical, markup, marked.written]

theorem readsSingly_lexical (language : Text) {l : LexicalClasses} (writable : l.Writable)
    (plain : l.comment = none) :
    (lexical language l).ReadsSingly language fun c => (l.of? (.ofChar c)).toList := by
  intro n source
  obtain ⟨marks, marked⟩ := exists_marked writable (LexicalKind.ofText false source) none (by simp)
  refine ⟨marks, marked.valid, ?_, ?_, ?_⟩
  · rw [marked.characters, LexicalKind.ofText_characters]
  · intro style
    have looks := marked.looks style
    rw [LexicalKind.ofText_singly, List.map_map] at looks
    exact looks
  · rw [reply_lexical, markup, plain, ← marked.written]
    rfl

end Engine

end SyntaxPaint
