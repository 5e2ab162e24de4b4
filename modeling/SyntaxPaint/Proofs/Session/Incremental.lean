import SyntaxPaint.Proofs.Engine.Lexical
import SyntaxPaint.Proofs.Session.Resting
import Mathlib.Data.List.Infix

/-!
The pass after an edit against a pass over everything. The engine sees the text from the edited
lines on and nothing above, so the two agree exactly where it makes of that text what it makes of it
behind the text above (`agrees_iff_splits`).
-/
namespace SyntaxPaint.Session
open Runs

/-- The attributes that a pass over a whole text gives a character. -/
def fullLook (h : Highlighter) (language : Option Text) (source : Text) (i : Nat) :
    Option Attributes :=
  match h.highlight 0 language source with
  | .ok t => (t.runs.at? i).map (·.attributes)
  | .error _ => none

/-- Every character has the attributes that a pass over the whole text gives it. -/
def Agrees (s : Session) : Prop :=
  ∀ i < s.buffer.length, SameLook ((s.buffer.runAt? i).map (·.attributes))
    (fullLook s.highlighter s.language s.buffer.text i)

def joined (line : Nat) (above below : Nat → Option Attributes) (i : Nat) : Option Attributes :=
  if i < line then above i else below (i - line)

/-- Across an edit a pass over the whole text can be made in two parts: above the edited lines it
gives what it gave of the text before, and from them on what it gives of that text alone. -/
def Splits (s : Session) (e : Extent) (text : Text) : Prop :=
  let full := fullLook s.highlighter s.language
  ∀ edit after, s.buffer.replace e text = some (edit, after) → ∀ i < after.length,
    SameLook (full after.text i) (joined (after.lineOf edit) (full s.buffer.text)
      (full (after.text.drop (after.lineOf edit))) i)

structure Round where
  extent : Extent
  text : Text
  between : List Turn

def Round.turns (r : Round) : List Turn := .call (.replace r.extent r.text) :: r.between

theorem joined_above {line i : Nat} (high : i < line) (above below : Nat → Option Attributes) :
    joined line above below i = above i := if_pos high

theorem joined_below (line i : Nat) (above below : Nat → Option Attributes) :
    joined line above below (line + i) = below i := by
  simp [joined]

theorem sameLook_joined {line : Nat} {above above' : Nat → Option Attributes}
    (same : ∀ i < line, SameLook (above i) (above' i)) (below : Nat → Option Attributes) (i : Nat) :
    SameLook (joined line above below i) (joined line above' below i) := by
  unfold joined
  split
  · next high => exact same i high
  · exact sameLook_refl _

theorem agrees_iff {s : Session} (mapped : s.buffer.Mapped) :
    Agrees s ↔ ∀ i < s.buffer.length, SameLook (look s.buffer.runs i)
      (fullLook s.highlighter s.language s.buffer.text i) := by
  have same (i : Nat) : (s.buffer.runAt? i).map (·.attributes) = look s.buffer.runs i :=
    at?_attributes mapped.1 i
  unfold Agrees
  simp only [same]

theorem fullLook_of_marks {h : Highlighter} {language source : Text} {marks : List Markup.Mark}
    (valid : ∀ mark ∈ marks, Markup.Mark.Valid mark) (text : Markup.characters marks = source)
    (reply : h.engine.reply 0 (some language) source = .ok (Markup.write marks)) :
    ∃ t, h.highlight 0 (some language) source = .ok t ∧ t.text = source ∧
      (∀ i, fullLook h (some language) source i = look t.runs i) ∧ ∀ i < source.length,
        SameLook (fullLook h (some language) source i)
          (Markup.looks h.theme.resolve [documentClass] marks)[i]? := by
  obtain ⟨t, read, whole, canonical, shows⟩ := Markup.attributed_marks h.theme valid
  have full : h.highlight 0 (some language) source = .ok t := by
    unfold Highlighter.highlight
    rw [reply]
    exact read
  have looks (i : Nat) : fullLook h (some language) source i = look t.runs i := by
    rw [fullLook, full]
    exact at?_attributes canonical.1 i
  rw [text] at whole
  refine ⟨t, full, whole, looks, fun i inside => ?_⟩
  rw [looks]
  exact shows i (by rwa [whole])

theorem gives_fullLook {h : Highlighter} {language : Text} (truthful : h.engine.Truthful language)
    (steady : h.engine.Steady) (source : Text) {origin : Nat} {view : Nat → Option Attributes}
    (shows : ∀ i < source.length, view (origin + i) = fullLook h (some language) source i) :
    h.engine.Gives h.theme language source origin view := by
  intro n
  obtain ⟨marks, valid, text, reply⟩ := truthful 0 source
  obtain ⟨t, full, whole, looks, _⟩ := fullLook_of_marks valid text reply
  refine ⟨t, ?_, whole, ?_⟩
  · rw [steady n 0]
    exact full
  · intro i inside
    rw [shows i inside, looks]
    exact sameLook_refl _

theorem fullLook_singly {h : Highlighter} {language : Text} {scopes : Char → List Text}
    (singly : h.engine.ReadsSingly language scopes) {source : Text} {i : Nat}
    (inside : i < source.length) :
    SameLook (fullLook h (some language) source i)
      (source[i]?.map fun c => h.theme.resolve (documentClass :: scopes c)) := by
  obtain ⟨marks, valid, text, styled, reply⟩ := singly 0 source
  obtain ⟨_, _, _, _, shows⟩ := fullLook_of_marks valid text reply
  have same := shows i inside
  rwa [styled, List.getElem?_map] at same

theorem splits_of_readsSingly {s : Session} (mapped : s.buffer.Mapped) {language : Text}
    (chosen : s.language = some language) {scopes : Char → List Text}
    (singly : s.highlighter.engine.ReadsSingly language scopes) (e : Extent) (text : Text) :
    Splits s e text := by
  intro edit after done i upper
  obtain ⟨same, inside, _⟩ := TextBuffer.replace_above mapped done
  generalize after.lineOf edit = line at same inside
  rw [chosen]
  refine sameLook_trans (fullLook_singly singly upper) (sameLook_symm ?_)
  rcases Nat.lt_or_ge i line with above | below
  · have within : i < s.buffer.length := Nat.lt_of_lt_of_le above (same.within inside)
    rw [joined_above above, same.character above]
    exact fullLook_singly singly within
  · obtain ⟨j, rfl⟩ := Nat.exists_eq_add_of_le below
    have rest : j < (after.text.drop line).length := by
      simp only [TextBuffer.length, List.length_drop] at upper ⊢
      omega
    rw [joined_below, ← List.getElem?_drop]
    exact fullLook_singly singly rest

section
variable {highlighter : Highlighter} {language : Text} {debounce : Nat} {before : List Turn}
  {s p : Session}

theorem mapped_later (sturdy : highlighter.engine.Sturdy)
    (reached : s = (start highlighter debounce none).run before) (later : List Turn) :
    (s.run later).buffer.Mapped := by
  rw [reached, ← run_append]
  exact (healthy_run sturdy debounce none _).mapped

theorem looks_after_call (sturdy : highlighter.engine.Sturdy)
    (truthful : highlighter.engine.Truthful language) (steady : highlighter.engine.Steady)
    (reached : s = (start highlighter debounce none).run before) (call : HostCall)
    {between : List Turn} (quiet : ∀ t ∈ between, t.isCall = false) {line : Nat}
    (kept : Kept s p) (asks : s.perform call = p.request ⟨line, p.buffer.length⟩)
    (chosen : p.language = some language) (inside : line ≤ p.buffer.length)
    (outgrown : p.buffer.length ≤ line → ∀ job ∈ s.worker.line,
      p.buffer.length < job.extent.stop) :
    let after := s.run (.call call :: between)
    after.language = some language ∧ after.highlighter = p.highlighter ∧
      after.buffer.text = p.buffer.text ∧ (after.worker.line = [] → ∀ i < after.buffer.length,
        SameLook (look after.buffer.runs i) (joined line (look p.buffer.runs)
          (fullLook p.highlighter (some language) (p.buffer.text.drop line)) i)) := by
  intro after
  have healthy : Healthy s := reached ▸ healthy_run sturdy debounce none before
  have unobserved : s.observer = none := reached ▸ observer_run highlighter debounce none before
  have engine : s.highlighter.engine = highlighter.engine :=
    reached ▸ (running_run sturdy debounce none before).1
  have alike := request_alike p ⟨line, p.buffer.length⟩
  rw [← asks] at alike
  have passed : Passed (s.perform call) after := passed_run (s.perform call) quiet
  refine ⟨passed.language.trans (alike.language.trans chosen),
    passed.highlighter.trans alike.highlighter,
    passed.text.trans (congrArg (·.text) alike.buffer), ?_⟩
  intro rest i upper
  let view : Nat → Option Attributes := joined line (look p.buffer.runs)
    (fullLook p.highlighter (some language) (p.buffer.text.drop line))
  have awaits : Awaits (s.perform call) view := by
    refine awaits_call healthy unobserved call asks kept chosen inside ?_ ?_ ?_
    · intro i above
      exact sameLook_of_eq (joined_above above _ _).symm
    · have same : p.highlighter.engine = highlighter.engine := by
        rw [← engine, ← (perform_surroundings s call).engine, alike.highlighter]
      have gives : p.highlighter.engine.Gives p.theme language (p.buffer.text.drop line) line
          view := by
        refine gives_fullLook (by rwa [same]) (by rwa [same]) _ ?_
        exact fun i _ => joined_below line i _ _
      rwa [same, ← engine] at gives
    · exact fun behind job member _ => outgrown behind job member
  have later : Awaits after view := by
    have called : s.perform call =
        (start highlighter debounce none).run (before ++ [.call call]) := by
      rw [run_concat, ← reached]
      rfl
    have continued : after = (s.perform call).run between := rfl
    rw [continued, called, ← run_append]
    rw [called] at awaits
    exact awaits_run sturdy debounce none awaits between quiet
  exact looks_at_rest later rest upper

theorem agrees_of_chosen (sturdy : highlighter.engine.Sturdy)
    (truthful : highlighter.engine.Truthful language) (steady : highlighter.engine.Steady)
    (named : language ≠ []) (reached : s = (start highlighter debounce none).run before)
    {between : List Turn} (quiet : ∀ t ∈ between, t.isCall = false) :
    let after := s.run (.call (.setLanguage (some language)) :: between)
    after.language = some language ∧ (after.worker.line = [] → Agrees after) := by
  intro after
  have healthy : Healthy s := reached ▸ healthy_run sturdy debounce none before
  have mapped : after.buffer.Mapped := mapped_later sturdy reached _
  obtain ⟨chosen, unchanged, text, looks⟩ := looks_after_call
    (p := { s with language := some language }) sturdy truthful steady reached
    (.setLanguage (some language)) quiet ⟨rfl, rfl, rfl, rfl⟩ (perform_setLanguage s named) rfl
    (Nat.zero_le _) (by
      intro empty job member
      have order := (healthy.filled job member).1
      omega)
  refine ⟨chosen, fun rest => ?_⟩
  rw [agrees_iff mapped, chosen, unchanged, text]
  intro i upper
  have same := looks rest i upper
  rwa [← Nat.zero_add i, joined_below, Nat.zero_add] at same

theorem looks_after_edit (sturdy : highlighter.engine.Sturdy)
    (truthful : highlighter.engine.Truthful language) (steady : highlighter.engine.Steady)
    (reached : s = (start highlighter debounce none).run before)
    (chosen : s.language = some language) (rest : s.worker.line = []) (r : Round)
    (quiet : ∀ t ∈ r.between, t.isCall = false) {edit : EditRecord} {b : TextBuffer}
    (done : s.buffer.replace r.extent r.text = some (edit, b))
    (rest' : (s.run r.turns).worker.line = []) :
    (s.run r.turns).highlighter = s.highlighter ∧ (s.run r.turns).buffer.text = b.text ∧
      ∀ i < b.length, SameLook (look (s.run r.turns).buffer.runs i)
        (joined (b.lineOf edit) (look s.buffer.runs)
          (fullLook s.highlighter s.language (b.text.drop (b.lineOf edit))) i) := by
  have mapped : s.buffer.Mapped := mapped_later sturdy reached []
  obtain ⟨same, inside, _⟩ := TextBuffer.replace_above mapped done
  have asks := perform_replace s r.extent r.text
  rw [done] at asks
  obtain ⟨_, unchanged, text, looks⟩ := looks_after_call (p := { s with buffer := b }) sturdy
    truthful steady reached (.replace r.extent r.text) quiet ⟨rfl, rfl, rfl, rfl⟩ asks chosen inside
    (by
      intro _ job member
      rw [rest] at member
      cases member)
  refine ⟨unchanged, text, ?_⟩
  intro i upper
  have length : (s.run r.turns).buffer.length = b.length := congrArg List.length text
  rw [chosen]
  exact sameLook_trans (looks rest' i (by rwa [← length] at upper))
    (sameLook_joined same.looks _ i)

theorem agrees_after_quiet (sturdy : highlighter.engine.Sturdy)
    (reached : s = (start highlighter debounce none).run before) (rest : s.worker.line = [])
    (agrees : Agrees s) {between : List Turn} (quiet : ∀ t ∈ between, t.isCall = false) :
    Agrees (s.run between) := by
  have passed := passed_run s quiet
  have mapped : s.buffer.Mapped := mapped_later sturdy reached []
  rw [agrees_iff mapped] at agrees
  have awaits : Awaits s (fullLook s.highlighter s.language s.buffer.text) :=
    ⟨by simp [rest], fun i upper => Or.inl (agrees i upper)⟩
  have later := awaits_run sturdy debounce none (reached ▸ awaits) between quiet
  rw [run_append, ← reached] at later
  rw [agrees_iff (mapped_later sturdy reached between), passed.language, passed.highlighter,
    passed.text]
  exact fun i upper => looks_at_rest later (List.sublist_nil.mp (rest ▸ passed.line)) upper

theorem language_after_round (s : Session) (r : Round)
    (quiet : ∀ t ∈ r.between, t.isCall = false) : (s.run r.turns).language = s.language :=
  (passed_run _ quiet).language.trans (language_replace s r.extent r.text)

/-- An edit at rest keeps the agreement with a whole pass exactly when that pass splits. -/
theorem agrees_after_round (sturdy : highlighter.engine.Sturdy)
    (truthful : highlighter.engine.Truthful language) (steady : highlighter.engine.Steady)
    (reached : s = (start highlighter debounce none).run before)
    (chosen : s.language = some language) (rest : s.worker.line = []) (agrees : Agrees s)
    (r : Round) (quiet : ∀ t ∈ r.between, t.isCall = false)
    (rest' : (s.run r.turns).worker.line = []) :
    Agrees (s.run r.turns) ↔ Splits s r.extent r.text := by
  cases done : s.buffer.replace r.extent r.text with
  | none =>
    have asks := perform_replace s r.extent r.text
    rw [done] at asks
    have continued : s.run r.turns = s.run r.between := congrArg (run · r.between) asks
    have splits : Splits s r.extent r.text := by
      intro edit b some
      rw [done] at some
      cases some
    rw [continued]
    exact iff_of_true (agrees_after_quiet sturdy reached rest agrees quiet) splits
  | some result =>
    obtain ⟨edit, b⟩ := result
    have mapped : s.buffer.Mapped := mapped_later sturdy reached []
    obtain ⟨same, inside, _⟩ := TextBuffer.replace_above mapped done
    obtain ⟨unchanged, text, looks⟩ := looks_after_edit sturdy truthful steady reached chosen rest r
      quiet done rest'
    -- with the agreement from before, the looks are those of the two parts of a whole pass
    have parts (i : Nat) (upper : i < b.length) : SameLook (look (s.run r.turns).buffer.runs i)
        (joined (b.lineOf edit) (fullLook s.highlighter s.language s.buffer.text)
          (fullLook s.highlighter s.language (b.text.drop (b.lineOf edit))) i) := by
      refine sameLook_trans (looks i upper) (sameLook_joined ?_ _ i)
      intro i above
      exact (agrees_iff mapped).mp agrees i (Nat.lt_of_lt_of_le above (same.within inside))
    have length : (s.run r.turns).buffer.length = b.length := congrArg List.length text
    rw [agrees_iff (mapped_later sturdy reached r.turns), language_after_round s r quiet, unchanged,
      text, length]
    constructor
    · intro whole edit' b' done'
      obtain ⟨rfl, rfl⟩ := Prod.mk.inj (Option.some.inj (done.symm.trans done'))
      exact fun i upper => sameLook_trans (sameLook_symm (whole i upper)) (parts i upper)
    · intro splits i upper
      exact sameLook_trans (parts i upper) (sameLook_symm (splits edit b done i upper))

end

/-- After the language was chosen the buffer is edited again and again, each time from rest: all
characters have the attributes of a pass over the whole text, after each of the edits, exactly when
such a pass splits across each of them. -/
theorem agrees_iff_splits (highlighter : Highlighter) (sturdy : highlighter.engine.Sturdy)
    {language : Text} (named : language ≠ []) (truthful : highlighter.engine.Truthful language)
    (steady : highlighter.engine.Steady) (debounce : Nat) (before between : List Turn)
    (quiet : ∀ t ∈ between, t.isCall = false) (rounds : List Round)
    (quiet' : ∀ r ∈ rounds, ∀ t ∈ r.between, t.isCall = false) :
    let after (done : List Round) := (start highlighter debounce none).run
      (before ++ .call (.setLanguage (some language)) :: between ++ done.flatMap Round.turns)
    (∀ done, done <+: rounds → (after done).worker.line = []) →
    ((∀ done, done <+: rounds → Agrees (after done)) ↔
      ∀ done r, done ++ [r] <+: rounds → Splits (after done) r.extent r.text) := by
  intro after rest
  have first := agrees_of_chosen sturdy truthful steady named
    (rfl : (start highlighter debounce none).run before = _) quiet
  have begun : after [] = ((start highlighter debounce none).run before).run
      (.call (.setLanguage (some language)) :: between) := by
    rw [← run_append]
    exact congrArg _ (List.append_nil _)
  have next (done : List Round) (r : Round) : after (done ++ [r]) = (after done).run r.turns := by
    simp only [after, List.flatMap_append, List.flatMap_singleton, ← run_append, List.append_assoc]
  have earlier {done : List Round} {r : Round} (made : done ++ [r] <+: rounds) : done <+: rounds :=
    (List.prefix_append done [r]).trans made
  have quietly {done : List Round} {r : Round} (made : done ++ [r] <+: rounds) :
      ∀ t ∈ r.between, t.isCall = false := quiet' r (made.subset (by simp))
  have chosen (done : List Round) (made : done <+: rounds) :
      (after done).language = some language := by
    induction done using List.reverseRecOn with
    | nil => exact begun ▸ first.1
    | append_singleton done r ih =>
      rw [next, language_after_round _ r (quietly made)]
      exact ih (earlier made)
  have step (done : List Round) (r : Round) (made : done ++ [r] <+: rounds)
      (agrees : Agrees (after done)) :
      Agrees (after (done ++ [r])) ↔ Splits (after done) r.extent r.text := by
    have rest' := rest _ made
    rw [next] at rest' ⊢
    exact agrees_after_round sturdy truthful steady rfl (chosen done (earlier made))
      (rest done (earlier made)) agrees r (quietly made) rest'
  constructor
  · intro whole done r made
    exact (step done r made (whole done (earlier made))).mp (whole _ made)
  · intro splits done made
    induction done using List.reverseRecOn with
    | nil =>
      have rest' := rest [] made
      rw [begun] at rest' ⊢
      exact first.2 rest'
    | append_singleton done r ih =>
      exact (step done r made (ih (earlier made))).mpr (splits done r made)

theorem agrees_iff_splits_digits :
    let classes : LexicalClasses := ⟨some "hljs-number".toList, none, none, true⟩
    let highlighter : Highlighter := ⟨.lexical "toy".toList classes, .bundled,
      .standard ".hljs-number\x7bcolor:red\x7d".toList⟩
    let rounds : List Round := [⟨⟨0, 1⟩, ['2'], Turn.wholePass⟩]
    let after (done : List Round) := (start highlighter 0 none).run
      ([.call (.replace ⟨0, 0⟩ ['1'])] ++ .call (.setLanguage (some "toy".toList)) ::
        Turn.wholePass ++ done.flatMap Round.turns)
    (∀ done, done <+: rounds → (after done).worker.line = []) ∧
      ∀ done, done <+: rounds → Agrees (after done) := by
  intro classes highlighter rounds after
  have writable : classes.Writable := LexicalClasses.writable_of_names rfl (by decide +kernel)
  have sturdy : highlighter.engine.Sturdy := Engine.sturdy_lexical _ _
  have settled : ∀ done ∈ rounds.inits,
      (after done).worker.line.isEmpty = true ∧ (after done).language = some "toy".toList := by
    decide +kernel
  have rest (done : List Round) (made : done <+: rounds) : (after done).worker.line = [] :=
    List.isEmpty_iff.mp (settled done ((List.mem_inits done rounds).mpr made)).1
  refine ⟨rest, (agrees_iff_splits highlighter sturdy (by decide)
    (Engine.truthful_lexical _ writable) (Engine.steady_lexical _ _) 0 _ Turn.wholePass (by decide)
    rounds (by decide) rest).mpr ?_⟩
  intro done r made
  have chosen := (settled done
    ((List.mem_inits done rounds).mpr ((List.prefix_append done [r]).trans made))).2
  have singly : (after done).highlighter.engine.ReadsSingly "toy".toList
      fun c => (classes.of? (.ofChar c)).toList := by
    rw [(running_run sturdy 0 none _).1]
    exact Engine.readsSingly_lexical _ writable rfl
  exact splits_of_readsSingly (healthy_run sturdy 0 none _).mapped chosen singly r.extent r.text

/-- A letter within a comment that was opened a line above is replaced: in a pass over the whole
text the new one stands in the comment, but the pass that was made did not see where it begins. -/
theorem edit_within_comment_disagrees :
    let classes : LexicalClasses := ⟨none, none, some "hljs-comment".toList, true⟩
    let highlighter : Highlighter := ⟨.lexical "toy".toList classes, .bundled,
      .standard ".hljs-comment\x7bcolor:red\x7d".toList⟩
    let rounds : List Round := [⟨⟨3, 4⟩, ['y'], Turn.wholePass⟩]
    let after (done : List Round) := (start highlighter 0 none).run
      ([.call (.replace ⟨0, 0⟩ "/*\nx".toList)] ++ .call (.setLanguage (some "toy".toList)) ::
        Turn.wholePass ++ done.flatMap Round.turns)
    highlighter.engine.Sturdy ∧ highlighter.engine.Truthful "toy".toList ∧
      highlighter.engine.Steady ∧ (∀ done, done <+: rounds → (after done).worker.line = []) ∧
      ¬ Agrees (after rounds) := by
  intro classes highlighter rounds after
  have settled : ∀ done ∈ rounds.inits, (after done).worker.line.isEmpty = true := by
    decide +kernel
  refine ⟨Engine.sturdy_lexical _ _, Engine.truthful_lexical _
    (LexicalClasses.writable_of_names rfl (by decide +kernel)), Engine.steady_lexical _ _, ?_, ?_⟩
  · intro done made
    exact List.isEmpty_iff.mp (settled done ((List.mem_inits done rounds).mpr made))
  · intro agrees
    have same := foreground_of_sameLook (agrees 3 (by decide +kernel))
    revert same
    decide +kernel

end SyntaxPaint.Session
