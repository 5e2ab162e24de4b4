import SyntaxPaint.Proofs.Buffer.Editing
import SyntaxPaint.Proofs.Session.Turns

/-!
What the owner's calls change beside the token and the worker: each one is a change of the buffer,
the highlighter or the language, and then at most one request for a pass. A request itself leaves
all three alone.
-/
namespace SyntaxPaint

namespace Session

structure Alike (before after : Session) : Prop where
  buffer : after.buffer = before.buffer
  highlighter : after.highlighter = before.highlighter
  language : after.language = before.language
  observer : after.observer = before.observer

theorem alike_refl (s : Session) : Alike s s := ⟨rfl, rfl, rfl, rfl⟩

theorem request_alike (s : Session) (e : Extent) : Alike s (s.request e) := by
  have effect := request_effect s e
  generalize s.request e = after at effect
  cases effect <;> exact ⟨rfl, rfl, rfl, rfl⟩

theorem request_quiet {s : Session} {e : Extent} (token : (s.request e).token = s.token)
    (notices : (s.request e).notices = s.notices) :
    s.request e = s ∧ (s.language = none ∨ e.stop ≤ e.start) := by
  have effect := request_effect s e
  generalize s.request e = after at effect token notices ⊢
  cases effect with
  | nothing none => exact ⟨rfl, none⟩
  | refused _ _ refused =>
    have observed : s.observer.isSome = true := by
      cases none : s.observer with
      | none => simp [consents, none] at refused
      | some observer => rfl
    simp [told, observed] at notices
  | issued _ _ _ _ => simp at token
  | failed _ _ _ _ => simp at token

/- Calls. -/

theorem follow_characters (s : Session) {edit : EditRecord} (kind : edit.kind = .characters) :
    s.follow edit = s.request ⟨s.buffer.lineOf edit, s.buffer.length⟩ := by
  unfold follow
  split
  · next none =>
    simp only [kind, bne_self_eq_false, Bool.or_false, Option.isNone_iff_eq_none] at none
    exact (request_nothing (Or.inl none)).symm
  · dsimp only
    split
    · next none =>
      have beyond : s.buffer.length ≤ s.buffer.lineOf edit := Text.wholeLines_isEmpty none
      exact (request_nothing (Or.inr beyond)).symm
    · rfl

theorem perform_replace (s : Session) (e : Extent) (text : Text) :
    s.perform (.replace e text) =
      match s.buffer.replace e text with
      | none => s
      | some (edit, buffer) =>
        request { s with buffer } ⟨buffer.lineOf edit, buffer.length⟩ := by
  show (s.edited (s.buffer.replace e text)).2 = _
  cases done : s.buffer.replace e text with
  | none => rfl
  | some result =>
    obtain ⟨edit, buffer⟩ := result
    have kind : edit.kind = .characters := by
      obtain ⟨_, _, _, _, rfl, _⟩ := TextBuffer.replace_eq_some done
      rfl
    exact follow_characters { s with buffer } kind

theorem language_replace (s : Session) (e : Extent) (text : Text) :
    (s.perform (.replace e text)).language = s.language := by
  rw [perform_replace]
  cases s.buffer.replace e text with
  | none => rfl
  | some result => exact (request_alike _ _).language

theorem perform_setAttributes_eq (s : Session) (e : Extent) (attributes : Attributes) :
    s.perform (.setAttributes e attributes) =
      { s with buffer := s.buffer.change (.setAttributes e attributes) } := by
  show (s.edited (s.buffer.setAttributes e attributes)).2 = _
  rw [TextBuffer.change]
  cases done : s.buffer.setAttributes e attributes with
  | none => rfl
  | some result =>
    obtain ⟨edit, buffer⟩ := result
    obtain ⟨kind, _⟩ := TextBuffer.setAttributes_eq_some done
    unfold edited follow
    dsimp only
    rw [kind, if_pos (by simp)]
    rfl

theorem perform_setAttributes (s : Session) (e : Extent) (attributes : Attributes) :
    ∃ buffer, s.perform (.setAttributes e attributes) = { s with buffer } ∧
      buffer.text = s.buffer.text := by
  refine ⟨_, perform_setAttributes_eq s e attributes, ?_⟩
  rw [TextBuffer.change]
  cases done : s.buffer.setAttributes e attributes with
  | none => rfl
  | some result => exact (TextBuffer.setAttributes_eq_some done).2

theorem perform_setLanguage (s : Session) {language : Text} (named : language ≠ []) :
    s.perform (.setLanguage (some language)) =
      rehighlight { s with language := some language } := by
  have filled : (some language).filter (!·.isEmpty) = some language := by simpa using named
  show s.setLanguage (some language) = _
  unfold setLanguage
  rw [filled]

theorem perform_setTheme (s : Session) (name : Text) :
    s.perform (.setTheme name) = s ∨
      ∃ highlighter, s.perform (.setTheme name) = s.restyle highlighter := by
  have done : s.perform (.setTheme name) =
    (((s.highlighter.withTheme name).map s.restyle).toOption).getD s := rfl
  rw [done]
  cases s.highlighter.withTheme name with
  | error e => exact Or.inl rfl
  | ok highlighter => exact Or.inr ⟨highlighter, rfl⟩

/- A call and the pass that it asks for. -/

end Session

namespace HostCall

def restyled? (h : Highlighter) : HostCall → Option Highlighter
  | .setTheme name => (h.withTheme name).toOption
  | .setFonts code italic bold => some (h.withFonts code italic bold)
  | .setCodeFont code => some (h.withCodeFont code)
  | .setLineSpacing spacing => some (h.withLineSpacing spacing)
  | _ => none

def changes (h : Highlighter) : HostCall → List BufferChange
  | .replace e text => [.replace e text]
  | .setAttributes e attributes => [.setAttributes e attributes]
  | call => ((call.restyled? h).map fun h => .setDefaults h.theme.baseAttributes).toList

def chosen (language : Option Text) : HostCall → Option Text
  | .setLanguage language => language.filter (!·.isEmpty)
  | _ => language

def turnsOff : HostCall → Bool
  | .setLanguage language => (language.filter (!·.isEmpty)).isNone
  | _ => false

end HostCall

namespace Session

/-- The session after a call, but for the pass that the call asks for. -/
def prepare (s : Session) (call : HostCall) : Session :=
  { s with
    buffer := s.buffer.changeAll (call.changes s.highlighter)
    highlighter := (call.restyled? s.highlighter).getD s.highlighter
    language := call.chosen s.language
    token := if call.turnsOff then s.token + 1 else s.token }

/-- The extent that a call asks a pass for. -/
def region? (s : Session) : HostCall → Option Extent
  | .replace e text =>
    (s.buffer.replace e text).map fun (edit, buffer) => ⟨buffer.lineOf edit, buffer.length⟩
  | .setAttributes _ _ => none
  | .setLanguage _ | .rehighlight => some ⟨0, s.buffer.length⟩
  | call => (call.restyled? s.highlighter).map fun _ => ⟨0, s.buffer.length⟩

theorem perform_eq_prepare (s : Session) (call : HostCall) :
    s.perform call =
      match s.region? call with
      | none => s.prepare call
      | some e => (s.prepare call).request e := by
  cases call with
  | replace e text =>
    have prepared : s.prepare (.replace e text) =
      { s with buffer := s.buffer.change (.replace e text) } := rfl
    rw [perform_replace, prepared, TextBuffer.change, region?]
    cases s.buffer.replace e text <;> rfl
  | setAttributes e attributes =>
    rw [perform_setAttributes_eq]
    rfl
  | setLanguage language =>
    have done : s.perform (.setLanguage language) = s.setLanguage language := rfl
    rw [done, setLanguage, region?, prepare, HostCall.chosen, HostCall.turnsOff]
    cases language.filter (!·.isEmpty) with
    | none => exact (request_nothing (Or.inl rfl)).symm
    | some language => rfl
  | setTheme name =>
    have done : s.perform (.setTheme name) =
      (((s.highlighter.withTheme name).map s.restyle).toOption).getD s := rfl
    have restyled : HostCall.restyled? s.highlighter (.setTheme name) =
      (s.highlighter.withTheme name).toOption := rfl
    unfold region? prepare HostCall.changes
    simp only [restyled]
    rw [done]
    cases s.highlighter.withTheme name <;> rfl
  | setFonts code italic bold => rfl
  | setCodeFont code => rfl
  | setLineSpacing spacing => rfl
  | rehighlight => rfl

theorem perform_alike (s : Session) (call : HostCall) :
    Alike (s.prepare call) (s.perform call) := by
  rw [perform_eq_prepare]
  split
  · exact alike_refl _
  · exact request_alike _ _

theorem perform_asked {s : Session} {call : HostCall} {e : Extent}
    (region : s.region? call = some e) : s.perform call = (s.prepare call).request e := by
  rw [perform_eq_prepare, region]

theorem perform_unasked {s : Session} {call : HostCall}
    (nothing : ∀ e, s.region? call = some e → (s.prepare call).language = none ∨ e.stop ≤ e.start) :
    s.perform call = s.prepare call := by
  rw [perform_eq_prepare]
  split
  · rfl
  · next e region => exact request_nothing (nothing e region)

theorem token_prepare {s : Session} {call : HostCall} (chosen : (s.prepare call).language ≠ none) :
    (s.prepare call).token = s.token := by
  cases call with
  | setLanguage language =>
    have named : language.filter (!·.isEmpty) ≠ none := chosen
    exact if_neg fun off => named (Option.isNone_iff_eq_none.mp off)
  | _ => rfl

end Session

end SyntaxPaint
