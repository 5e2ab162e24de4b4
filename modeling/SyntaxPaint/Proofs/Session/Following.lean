import SyntaxPaint.Proofs.Buffer.Editing
import SyntaxPaint.Proofs.Session.Calls

/-!
Which pass an edit asks for. A change of characters asks for everything from the start of its line
to the end of the text, in the text after it. The one edit that has nothing to ask for leaves no
characters in its place, with no text behind it and none before it in its line.
-/
namespace SyntaxPaint

/-- A deletion at the end of a text that is empty or ends with a line terminator. -/
structure EditRecord.EndsBare (edit : EditRecord) (text : Text) : Prop where
  deletion : edit.replacementLength = 0
  last : edit.extent.start = text.length
  bare : text = [] ∨ ∃ c, text.getLast? = some c ∧ Text.isTerminator c = true

namespace TextBuffer
open Text

theorem edited_fits {b after : TextBuffer} {e : Extent} {text : Text} {edit : EditRecord}
    (done : b.replace e text = some (edit, after)) : edit.edited.stop ≤ after.length := by
  obtain ⟨within, order, fits, _, rfl, made⟩ := replace_eq_some done
  rw [made]
  simp only [EditRecord.edited, TextBuffer.length, List.length_append, List.length_take,
    List.length_drop] at fits ⊢
  omega

theorem lineOf_greatest {b after : TextBuffer} {e : Extent} {text : Text} {edit : EditRecord}
    (done : b.replace e text = some (edit, after)) :
    IsGreatest {p | IsLineStart after.text p ∧ p ≤ edit.extent.start} (after.lineOf edit) := by
  have fits := edited_fits done
  have inside : min edit.extent.start after.length = edit.extent.start := by
    simp only [EditRecord.edited] at fits
    omega
  have hull := (after.paragraph_hull edit.edited).1
  dsimp only [EditRecord.edited] at hull
  rw [inside] at hull
  exact hull

theorem length_le_lineOf_iff {b after : TextBuffer} {e : Extent} {text : Text} {edit : EditRecord}
    (done : b.replace e text = some (edit, after)) :
    after.length ≤ after.lineOf edit ↔ edit.EndsBare after.text := by
  have fits := edited_fits done
  simp only [EditRecord.edited, TextBuffer.length] at fits
  have placed := length_le_wholeLines_iff after.text edit.edited
  have clamped : (edit.edited.clamp after.text.length).start =
    min edit.extent.start after.text.length := rfl
  rw [clamped] at placed
  constructor
  · intro behind
    obtain ⟨last, ends⟩ := placed.mp behind
    exact ⟨by omega, by omega, isLineStart_length.mp ends⟩
  · rintro ⟨_, last, bare⟩
    exact placed.mpr ⟨by omega, isLineStart_length.mpr bare⟩

end TextBuffer

namespace Session

theorem replace_eq {s after : Session} {e : Extent} {text : Text} {edit : EditRecord}
    (done : s.replace e text = (some edit, after)) :
    ∃ buffer, s.buffer.replace e text = some (edit, buffer) ∧
      after = request { s with buffer } ⟨buffer.lineOf edit, buffer.length⟩ ∧
      after.buffer = buffer := by
  have made : after = s.perform (.replace e text) := (congrArg Prod.snd done).symm
  cases found : s.buffer.replace e text with
  | none =>
    simp only [replace, found, edited] at done
    cases done
  | some result =>
    obtain ⟨record, buffer⟩ := result
    simp only [replace, found, edited, Prod.mk.injEq, Option.some.injEq] at done
    obtain ⟨rfl, _⟩ := done
    rw [perform_replace, found] at made
    dsimp only at made
    exact ⟨buffer, rfl, made, made ▸ (request_alike _ _).buffer⟩

/-- A pass over an extent has been asked for between two states, with the text of the later one. If
the observer refuses, that is all. Else the pass takes the next token, and its job goes to the
worker; where the worker is gone, the pass has failed at once. -/
structure Asked (before after : Session) (language : Text) (e : Extent) : Prop where
  refused : before.consents e = false →
    after.token = before.token ∧ after.worker = before.worker ∧
      after.notices = before.notices ++ before.told (.asked e)
  issued : before.consents e = true → before.worker.phase.isGone = false →
    after.token = before.token + 1 ∧
      after.worker = before.worker.enqueue
        ⟨after.token, e, language, after.buffer.slice e, after.theme, before.clock⟩ ∧
      after.notices = before.notices ++ before.told (.asked e)
  failed : before.consents e = true → before.worker.phase.isGone = true →
    after.token = before.token + 1 ∧ after.worker = before.worker ∧
      after.notices =
        before.notices ++ before.told (.asked e) ++ before.told (.reported e false)

theorem asked_request {s : Session} {buffer : TextBuffer} {language : Text} {e : Extent}
    (chosen : s.language = some language) (order : e.start < e.stop) :
    Asked s (request { s with buffer } e) language e := by
  constructor
  case refused =>
    intro refused
    rw [request_refused (s := { s with buffer }) chosen order refused]
    exact ⟨rfl, rfl, rfl⟩
  case issued =>
    intro agreed running
    rw [request_issued (s := { s with buffer }) chosen order agreed running]
    exact ⟨rfl, rfl, rfl⟩
  case failed =>
    intro agreed gone
    rw [request_failed (s := { s with buffer }) chosen order agreed gone]
    exact ⟨rfl, rfl, rfl⟩

/-- An edit with a record asks for one pass, over everything from the start of its line on, and for
none where it ends the text bare. Without a language, for attributes, and where there is no record
of an edit, nothing is asked for. -/
theorem edit_asks_for_rest (s : Session) (e : Extent) (text : Text) (attributes : Attributes) :
    (∀ edit after, s.replace e text = (some edit, after) →
      (s.language = none → Kept s after) ∧
      ∀ language, s.language = some language →
        (edit.EndsBare after.buffer.text → Kept s after) ∧
        (¬ edit.EndsBare after.buffer.text →
          ∃ line,
            IsGreatest {p | Text.IsLineStart after.buffer.text p ∧ p ≤ edit.extent.start} line ∧
            line ≤ edit.edited.start ∧ edit.edited.stop ≤ after.buffer.length ∧
            after.theme = s.theme ∧ Asked s after language ⟨line, after.buffer.length⟩)) ∧
    (∀ after, s.replace e text = (none, after) → after = s) ∧
    Kept s (s.setAttributes e attributes).2 := by
  refine ⟨?_, ?_, ?_⟩
  · intro edit after done
    obtain ⟨buffer, replaced, made, standing⟩ := replace_eq done
    have untouched : Kept s { s with buffer } := ⟨rfl, rfl, rfl, rfl⟩
    rw [standing]
    constructor
    · intro none
      rw [made, request_nothing (s := { s with buffer }) (Or.inl none)]
      exact untouched
    · intro language chosen
      constructor
      · intro bare
        have nothing := (TextBuffer.length_le_lineOf_iff replaced).mpr bare
        rw [made, request_nothing (s := { s with buffer }) (Or.inr nothing)]
        exact untouched
      · intro some
        have order : buffer.lineOf edit < buffer.length := by
          rw [← Nat.not_le, TextBuffer.length_le_lineOf_iff replaced]
          exact some
        have theme : after.theme = s.theme := by
          rw [made]
          exact congrArg (·.theme) (request_alike _ _).highlighter
        refine ⟨buffer.lineOf edit, TextBuffer.lineOf_greatest replaced, buffer.lineOf_le edit,
          TextBuffer.edited_fits replaced, theme, ?_⟩
        rw [made]
        exact asked_request chosen order
  · intro after none
    have same : after = s.perform (.replace e text) := (congrArg Prod.snd none).symm
    cases found : s.buffer.replace e text with
    | none => rw [same, perform_replace, found]
    | some result => simp [replace, found, edited] at none
  · have done : (s.setAttributes e attributes).2 =
      { s with buffer := s.buffer.change (.setAttributes e attributes) } :=
      perform_setAttributes_eq s e attributes
    rw [done]
    exact ⟨rfl, rfl, rfl, rfl⟩

theorem edit_asks_for_rest_joined :
    let highlighter : Highlighter :=
      ⟨.constant "plain".toList (.ok []), .bundled, .standard []⟩
    let s := (start highlighter 0 (some .willing)).run
      [.call (.replace ⟨0, 0⟩ "a\rx\nb".toList), .call (.setLanguage (some "plain".toList))]
    ∃ edit after, s.replace ⟨2, 3⟩ [] = (some edit, after) ∧
      after.token = s.token + 1 ∧ after.notices = s.notices ++ [.asked ⟨0, 4⟩] ∧
      (after.worker.queue.getLast?.map (·.snapshot)) = some "a\r\nb".toList ∧
      ∃ deletion emptied, after.replace ⟨0, 9⟩ [] = (some deletion, emptied) ∧
        Kept after emptied := by
  intro highlighter s
  have state : s.language = some "plain".toList ∧ s.consents ⟨0, 4⟩ = true ∧
      s.worker.phase.isGone = false ∧ s.told (.asked ⟨0, 4⟩) = [.asked ⟨0, 4⟩] := by
    decide +kernel
  have edits :
      let after := (s.replace ⟨2, 3⟩ []).2
      (s.replace ⟨2, 3⟩ []).1 = some ⟨.characters, ⟨2, 3⟩, 0⟩ ∧
      after.buffer.text = "a\r\nb".toList ∧ after.language = some "plain".toList ∧
      (after.replace ⟨0, 9⟩ []).1 = some ⟨.characters, ⟨0, 4⟩, 0⟩ ∧
      (after.replace ⟨0, 9⟩ []).2.buffer.text = [] := by decide +kernel
  clear_value s
  obtain ⟨language, agreed, running, told⟩ := state
  obtain ⟨asks, _, _⟩ := edit_asks_for_rest s ⟨2, 3⟩ [] (.plain .standard)
  generalize s.replace ⟨2, 3⟩ [] = result at edits asks ⊢
  obtain ⟨edit, after⟩ := result
  obtain ⟨rfl, text, chosen, deletion, emptied⟩ := edits
  dsimp only at text chosen deletion emptied
  refine ⟨_, after, rfl, ?_⟩
  have within : ¬ EditRecord.EndsBare ⟨.characters, ⟨2, 3⟩, 0⟩ after.buffer.text := by
    rintro ⟨_, last, _⟩
    rw [text] at last
    cases last
  obtain ⟨line, ⟨⟨starts, early⟩, _⟩, _, _, _, asked⟩ := ((asks _ after rfl).2 _ language).2 within
  obtain rfl : line = 0 := by
    have starts : line ∈ Text.lineStarts after.buffer.text := Text.isLineStart_iff.mpr starts
    have lines : Text.lineStarts "a\r\nb".toList = [0, 3] := by decide
    rw [text, lines] at starts
    simp only [List.mem_cons, List.not_mem_nil, or_false] at starts
    dsimp only at early
    omega
  have length : after.buffer.length = 4 := congrArg List.length text
  have snapshot : after.buffer.slice ⟨0, 4⟩ = "a\r\nb".toList := by
    rw [TextBuffer.slice, text]
    rfl
  rw [length] at asked
  obtain ⟨token, worker, notices⟩ := asked.issued agreed running
  rw [told] at notices
  refine ⟨token, notices, by simp [worker, snapshot, Worker.enqueue], ?_⟩
  obtain ⟨asks, _, _⟩ := edit_asks_for_rest after ⟨0, 9⟩ [] (.plain .standard)
  generalize after.replace ⟨0, 9⟩ [] = result at deletion emptied asks ⊢
  obtain ⟨edit, last⟩ := result
  obtain rfl : edit = some ⟨.characters, ⟨0, 4⟩, 0⟩ := deletion
  have bare : EditRecord.EndsBare ⟨.characters, ⟨0, 4⟩, 0⟩ last.buffer.text := by
    rw [emptied]
    exact ⟨rfl, rfl, Or.inl rfl⟩
  exact ⟨_, last, rfl, ((asks _ last rfl).2 _ chosen).1 bare⟩

end Session

end SyntaxPaint
