import SyntaxPaint.Proofs.Engine.Lexical
import SyntaxPaint.Proofs.Session.Resting

/-!
Passes that are superseded. Each edit asks for its own lines and everything behind them and makes
the passes under way stale, so what those were to paint above the edited lines is painted by nobody.
Where that looks right already, nothing is lost: with an engine that reads every character by
itself, all characters look right whenever the session has come to rest
(`looks_right_at_rest_of_spared`).
-/
namespace SyntaxPaint

def HostCall.isOrdinary : HostCall → Bool
  | .setAttributes _ _ | .setLanguage _ => false
  | _ => true

def Turn.isOrdinary : Turn → Bool
  | .call made => made.isOrdinary
  | _ => true

namespace Session
open Runs

def ownLook (scopes : Char → List Text) (s : Session) (i : Nat) : Option Attributes :=
  s.buffer.text[i]?.map fun c => s.theme.resolve (documentClass :: scopes c)

def LooksRight (scopes : Char → List Text) (s : Session) (i : Nat) : Prop :=
  SameLook ((s.buffer.runAt? i).map (·.attributes)) (ownLook scopes s i)

/-- An edit takes nothing from the newest pass under way: what that was to paint above the edited
lines looks right already. -/
def Spares (scopes : Char → List Text) (s : Session) (e : Extent) (text : Text) : Prop :=
  ∀ edit after, s.buffer.replace e text = some (edit, after) →
    ∀ job ∈ s.worker.line, job.token = s.token →
      ∀ i ∈ job.extent, i < after.lineOf edit → LooksRight scopes s i

theorem looksRight_iff {scopes : Char → List Text} {s : Session} (mapped : s.buffer.Mapped)
    (i : Nat) : LooksRight scopes s i ↔ SameLook (look s.buffer.runs i) (ownLook scopes s i) := by
  unfold LooksRight
  rw [← at?_attributes mapped.1]
  rfl

theorem ownLook_congr (scopes : Char → List Text) {s after : Session}
    (text : after.buffer.text = s.buffer.text) (highlighter : after.highlighter = s.highlighter) :
    ownLook scopes after = ownLook scopes s := by
  funext i
  unfold ownLook theme
  rw [text, highlighter]

theorem spares_of_front (scopes : Char → List Text) (s : Session) {e : Extent} (front : e.start = 0)
    (text : Text) : Spares scopes s e text := by
  intro edit after done job _ _ i _ above
  have first : edit.extent.start = 0 := by
    unfold TextBuffer.replace at done
    dsimp only at done
    split at done
    · cases done
    · cases done
      simp [Extent.clamp, front]
  have early := after.lineOf_le edit
  omega

section
variable {language : Text} {scopes : Char → List Text} {s p : Session}

theorem awaits_own {line : Nat} (healthy : Healthy s) (unobserved : s.observer = none)
    (singly : s.highlighter.engine.ReadsSingly language scopes) (call : HostCall)
    (asks : s.perform call = p.request ⟨line, p.buffer.length⟩) (kept : Kept s p)
    (chosen : p.language = some language) (inside : line ≤ p.buffer.length)
    (above : ∀ i < line, SameLook (look p.buffer.runs i) (ownLook scopes p i))
    (outgrown : p.buffer.length ≤ line → ∀ job ∈ s.worker.line, job.token = s.token →
      p.buffer.length < job.extent.stop) :
    (s.perform call).language = some language ∧
      Awaits (s.perform call) (ownLook scopes (s.perform call)) := by
  have alike := request_alike p ⟨line, p.buffer.length⟩
  rw [← asks] at alike
  rw [ownLook_congr scopes (congrArg (·.text) alike.buffer) alike.highlighter]
  refine ⟨alike.language.trans chosen, ?_⟩
  refine awaits_call healthy unobserved call asks kept chosen inside above ?_ outgrown
  refine Engine.gives_of_readsSingly singly p.theme _ ?_
  intro i _
  rw [List.getElem?_drop]
  rfl

theorem awaits_own_whole (healthy : Healthy s) (unobserved : s.observer = none)
    (singly : s.highlighter.engine.ReadsSingly language scopes) (call : HostCall)
    (asks : s.perform call = p.rehighlight) (kept : Kept s p)
    (chosen : p.language = some language) :
    (s.perform call).language = some language ∧
      Awaits (s.perform call) (ownLook scopes (s.perform call)) := by
  refine awaits_own healthy unobserved singly call asks kept chosen (Nat.zero_le _) ?_ ?_
  · intro i none
    cases none
  · intro empty job member _
    have order := (healthy.filled job member).1
    omega

theorem awaits_own_replace (healthy : Healthy s) (unobserved : s.observer = none)
    (singly : s.highlighter.engine.ReadsSingly language scopes)
    (chosen : s.language = some language)
    (awaits : Awaits s (ownLook scopes s)) {e : Extent} {text : Text}
    (spares : Spares scopes s e text) :
    (s.perform (.replace e text)).language = some language ∧
      Awaits (s.perform (.replace e text)) (ownLook scopes (s.perform (.replace e text))) := by
  have asks := perform_replace s e text
  cases done : s.buffer.replace e text with
  | none =>
    rw [done] at asks
    rw [asks]
    exact ⟨chosen, awaits⟩
  | some result =>
    obtain ⟨edit, after⟩ := result
    rw [done] at asks
    obtain ⟨same, inside, shorter⟩ := TextBuffer.replace_above healthy.mapped done
    refine awaits_own (p := { s with buffer := after }) healthy unobserved singly _ asks
      ⟨rfl, rfl, rfl, rfl⟩ chosen inside ?_ ?_
    · intro i above
      have own : ownLook scopes { s with buffer := after } i = ownLook scopes s i :=
        congrArg (Option.map _) (same.character above)
      rw [own]
      refine sameLook_trans (same.looks i above) ?_
      have within : i < s.buffer.length := Nat.lt_of_lt_of_le above (same.within inside)
      rcases awaits.looks i within with right | ⟨job, member, newest, _, covered⟩
      · exact right
      · exact (looksRight_iff healthy.mapped i).mp
          (spares edit after done job member newest i covered above)
    · intro behind job member newest
      have less := shorter behind
      show after.length < job.extent.stop
      rcases awaits.newest job member newest with ⟨stands, _⟩ | short
      · have stop := stands.stop
        omega
      · omega

theorem awaits_own_restyle (healthy : Healthy s) (unobserved : s.observer = none)
    (singly : s.highlighter.engine.ReadsSingly language scopes)
    (chosen : s.language = some language)
    (call : HostCall) {highlighter : Highlighter} (asks : s.perform call = s.restyle highlighter) :
    (s.perform call).language = some language ∧
      Awaits (s.perform call) (ownLook scopes (s.perform call)) :=
  awaits_own_whole
    (p := { s with
      highlighter
      buffer := s.buffer.withDefaults highlighter.theme.baseAttributes })
    healthy unobserved singly call asks ⟨rfl, rfl, rfl, rfl⟩ chosen

theorem awaits_own_call (healthy : Healthy s) (unobserved : s.observer = none)
    (singly : s.highlighter.engine.ReadsSingly language scopes)
    (chosen : s.language = some language)
    (awaits : Awaits s (ownLook scopes s)) {call : HostCall} (ordinary : call.isOrdinary = true)
    (spares : ∀ e text, call = .replace e text → Spares scopes s e text) :
    (s.perform call).language = some language ∧
      Awaits (s.perform call) (ownLook scopes (s.perform call)) := by
  cases call with
  | replace e text =>
    exact awaits_own_replace healthy unobserved singly chosen awaits (spares e text rfl)
  | setAttributes e attributes => cases ordinary
  | setLanguage chosen => cases ordinary
  | setTheme name =>
    rcases perform_setTheme s name with same | ⟨highlighter, done⟩
    · rw [same]
      exact ⟨chosen, awaits⟩
    · exact awaits_own_restyle healthy unobserved singly chosen _ done
  | setFonts code italic bold => exact awaits_own_restyle healthy unobserved singly chosen _ rfl
  | setCodeFont code => exact awaits_own_restyle healthy unobserved singly chosen _ rfl
  | setLineSpacing spacing => exact awaits_own_restyle healthy unobserved singly chosen _ rfl
  | rehighlight =>
    exact awaits_own_whole (p := s) healthy unobserved singly _ rfl ⟨rfl, rfl, rfl, rfl⟩ chosen

theorem awaits_own_setLanguage (healthy : Healthy s) (unobserved : s.observer = none)
    (singly : s.highlighter.engine.ReadsSingly language scopes) (named : language ≠ []) :
    (s.perform (.setLanguage (some language))).language = some language ∧
      Awaits (s.perform (.setLanguage (some language)))
        (ownLook scopes (s.perform (.setLanguage (some language)))) :=
  awaits_own_whole (p := { s with language := some language }) healthy unobserved singly _
    (perform_setLanguage s named) ⟨rfl, rfl, rfl, rfl⟩ rfl

end

/-- With an engine that reads every character by itself, and nobody who watches, all characters look
right whenever no job is under way, provided that each edit since the language was chosen has spared
the newest pass. -/
theorem looks_right_at_rest_of_spared (highlighter : Highlighter)
    (sturdy : highlighter.engine.Sturdy) {language : Text} (named : language ≠ [])
    {scopes : Char → List Text} (singly : highlighter.engine.ReadsSingly language scopes)
    (debounce : Nat) (before turns : List Turn) (ordinary : ∀ t ∈ turns, t.isOrdinary = true)
    (spared : ∀ earlier e text later, turns = earlier ++ .call (.replace e text) :: later →
      Spares scopes ((start highlighter debounce none).run
        (before ++ .call (.setLanguage (some language)) :: earlier)) e text) :
    let s := (start highlighter debounce none).run
      (before ++ .call (.setLanguage (some language)) :: turns)
    s.worker.line = [] → ∀ i < s.buffer.length, LooksRight scopes s i := by
  intro s rest i inside
  have healthy (history : List Turn) := healthy_run sturdy debounce none history
  have reads (history : List Turn) :
      ((start highlighter debounce none).run history).highlighter.engine.ReadsSingly language
        scopes := by
    rwa [(running_run sturdy debounce none history).1]
  have unobserved (history : List Turn) := observer_run highlighter debounce none history
  have kept : s.language = some language ∧ Awaits s (ownLook scopes s) := by
    clear rest inside
    induction turns using List.reverseRecOn with
    | nil =>
      have chosen : s = ((start highlighter debounce none).run before).perform
          (.setLanguage (some language)) := run_concat _ before _
      rw [chosen]
      exact awaits_own_setLanguage (healthy before) (unobserved before) (reads before) named
    | append_singleton turns t ih =>
      obtain ⟨chosen, awaits⟩ := ih (fun t' member => ordinary t' (List.mem_append_left _ member))
        (fun earlier e text later split => spared earlier e text (later ++ [t]) (by simp [split]))
      have last : s = ((start highlighter debounce none).run
          (before ++ .call (.setLanguage (some language)) :: turns)).turn t := by
        rw [← run_concat, List.append_assoc, List.cons_append]
      rw [last]
      rcases t.call_or_between with ⟨call, rfl⟩ | between
      · refine awaits_own_call (healthy _) (unobserved _) (reads _) chosen awaits
          (ordinary (.call call) (by simp)) ?_
        rintro e text rfl
        exact spared turns e text [] rfl
      · have passed := turn_passed ((start highlighter debounce none).run
          (before ++ .call (.setLanguage (some language)) :: turns)) between
        rw [ownLook_congr scopes passed.text passed.highlighter]
        exact ⟨passed.language.trans chosen, awaits_between (healthy _) awaits between⟩
  exact (looksRight_iff (healthy _).mapped i).mpr (looks_at_rest kept.2 rest inside)

theorem looks_right_at_rest_of_spared_digits :
    let classes : LexicalClasses := ⟨some "hljs-number".toList, none, none, true⟩
    let scopes (c : Char) := (classes.of? (.ofChar c)).toList
    let highlighter : Highlighter := ⟨.lexical "toy".toList classes, .bundled,
      .standard ".hljs-number\x7bcolor:red\x7d".toList⟩
    let s := (start highlighter 0 none).run ([] ++ .call (.setLanguage (some "toy".toList)) ::
      .call (.replace ⟨0, 0⟩ "a\nb".toList) :: .call (.replace ⟨0, 0⟩ ['1']) ::
      .work .receive :: .work .adopt :: Turn.wholePass.tail)
    s.worker.line = [] ∧ ∀ i < s.buffer.length, LooksRight scopes s i := by
  intro classes scopes highlighter s
  have writable : classes.Writable := LexicalClasses.writable_of_names rfl (by decide +kernel)
  have rest : s.worker.line = [] := List.isEmpty_iff.mp (by decide +kernel)
  refine ⟨rest, looks_right_at_rest_of_spared highlighter (Engine.sturdy_lexical _ _) (by decide)
    (Engine.readsSingly_lexical _ writable rfl) 0 [] _ (by decide) ?_ rest⟩
  intro earlier e text later split
  have member : Turn.call (.replace e text) ∈ earlier ++ .call (.replace e text) :: later := by simp
  rw [← split] at member
  refine spares_of_front scopes _ ?_ text
  simp only [Turn.wholePass, List.tail_cons, List.mem_cons, Turn.call.injEq,
    HostCall.replace.injEq, reduceCtorEq, List.not_mem_nil, or_false] at member
  rcases member with ⟨rfl, _⟩ | ⟨rfl, _⟩ <;> rfl

/-- Two lines are edited one after the other, the upper one first. The second edit asks for the
lower line only and makes the pass over both of them stale, so the digit above is never painted. -/
theorem edit_below_takes_the_pass_above :
    let classes : LexicalClasses := ⟨some "hljs-number".toList, none, none, true⟩
    let scopes (c : Char) := (classes.of? (.ofChar c)).toList
    let highlighter : Highlighter := ⟨.lexical "toy".toList classes, .bundled,
      .standard ".hljs-number\x7bcolor:red\x7d".toList⟩
    let turns : List Turn := .call (.replace ⟨0, 0⟩ "a\nb".toList) :: Turn.wholePass ++
      .call (.replace ⟨0, 1⟩ ['1']) :: .call (.replace ⟨2, 3⟩ ['2']) ::
      .work .receive :: .work .adopt :: Turn.wholePass.tail
    let s := (start highlighter 0 none).run (.call (.setLanguage (some "toy".toList)) :: turns)
    highlighter.engine.Sturdy ∧ highlighter.engine.ReadsSingly "toy".toList scopes ∧
      (∀ t ∈ turns, t.isOrdinary = true) ∧ s.worker.line = [] ∧ 0 < s.buffer.length ∧
      ¬ LooksRight scopes s 0 := by
  intro classes scopes highlighter turns s
  have writable : classes.Writable := LexicalClasses.writable_of_names rfl (by decide +kernel)
  refine ⟨Engine.sturdy_lexical _ _, Engine.readsSingly_lexical _ writable rfl, by decide,
    List.isEmpty_iff.mp (by decide +kernel), by decide +kernel, ?_⟩
  intro right
  have same := foreground_of_sameLook right
  revert same
  decide +kernel

end Session

end SyntaxPaint
