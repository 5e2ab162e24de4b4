import SyntaxPaint.Engine.Basic
import SyntaxPaint.Proofs.Markup.RoundTrip

/-!
Engines that neither fail nor change a text: what they reply is markup of the text they were asked
about. Their passes always come to an end with that text.
-/
namespace SyntaxPaint

namespace Markup
open Runs Theme

theorem attributed_marks (theme : Theme) {marks : List Mark}
    (valid : ∀ mark ∈ marks, mark.Valid) :
    ∃ t, attributed theme (write marks) = .ok t ∧ t.text = characters marks ∧
      Canonical 0 t.text.length t.runs ∧ ∀ i < t.text.length,
        SameLook (look t.runs i) (looks theme.resolve [documentClass] marks)[i]? := by
  have written : ∀ x ∈ cells theme.resolve [documentClass] marks, Written x.1 x.2.1 :=
    cells_written valid _
  obtain ⟨ts, scan, shows⟩ := scan_write valid
  obtain ⟨t, read, text, canonical, same⟩ := attributed_of_scan theme scan
  rw [shows, decode_encoded written] at text same
  have length : t.text.length = (cells theme.resolve [documentClass] marks).length := by
    rw [text, List.length_map, widths, List.length_map]
  refine ⟨t, read, ?_, canonical, ?_⟩
  · rw [text, ← cells_characters theme.resolve [documentClass] marks, widths, List.map_map]
    rfl
  · intro i upper
    have alike := same i upper
    rwa [encoded_closing written i (by omega)] at alike

end Markup

namespace Engine
open Markup Runs

/-- What an engine makes of every text of a language is markup of that text. -/
def Truthful (e : Engine) (language : Text) : Prop :=
  ∀ n source, ∃ marks, (∀ mark ∈ marks, Mark.Valid mark) ∧ characters marks = source ∧
    e.reply n (some language) source = .ok (write marks)

/-- Besides, every character stands in the scopes that belong to it, wherever it occurs. -/
def ReadsSingly (e : Engine) (language : Text) (scopes : Char → List Text) : Prop :=
  ∀ n source, ∃ marks, (∀ mark ∈ marks, Mark.Valid mark) ∧ characters marks = source ∧
    (∀ style, looks style [documentClass] marks =
      source.map fun c => style (documentClass :: scopes c)) ∧
    e.reply n (some language) source = .ok (write marks)

def Gives (e : Engine) (theme : Theme) (language source : Text) (origin : Nat)
    (view : Nat → Option Attributes) : Prop :=
  ∀ n, ∃ t, (e.reply n (some language) source).bind (attributed theme) = .ok t ∧
    t.text = source ∧ ∀ i < source.length, SameLook (look t.runs i) (view (origin + i))

theorem gives_of_readsSingly {e : Engine} {language : Text} {scopes : Char → List Text}
    (singly : e.ReadsSingly language scopes) (theme : Theme) (source : Text) {origin : Nat}
    {view : Nat → Option Attributes}
    (shows : ∀ i < source.length, view (origin + i) =
      source[i]?.map fun c => theme.resolve (documentClass :: scopes c)) :
    e.Gives theme language source origin view := by
  intro n
  obtain ⟨marks, valid, text, styled, reply⟩ := singly n source
  obtain ⟨t, read, whole, _, same⟩ := attributed_marks theme valid
  rw [text] at whole
  refine ⟨t, ?_, whole, ?_⟩
  · rw [reply]
    exact read
  · intro i upper
    have alike := same i (by rwa [whole])
    rwa [styled, List.getElem?_map, ← shows i upper] at alike

end Engine

end SyntaxPaint
