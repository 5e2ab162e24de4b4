import SyntaxPaint.Proofs.Session.Currency
import SyntaxPaint.Proofs.Session.Resting

/-!
A pass over everything, asked for again. A pass that stays the newest one fits what is there when
its result is read, unless the observer has refused a change since it was issued. The next pass then
sees the same text under the same language and theme, gives the same result, and paints the same
runs once more (`repeated_pass_changes_nothing`).
-/
namespace SyntaxPaint.Session
open Runs

structure Whole (s : Session) (job : Job) : Prop where
  filled : 0 < s.buffer.length
  extent : job.extent = ⟨0, s.buffer.length⟩
  snapshot : job.snapshot = s.buffer.text
  current : Current s job

theorem whole_congr {s after : Session} {job : Job} (whole : Whole s job)
    (text : after.buffer.text = s.buffer.text) (theme : after.theme = s.theme)
    (language : after.language = s.language) : Whole after job := by
  have length : after.buffer.length = s.buffer.length := congrArg List.length text
  constructor
  case filled => exact length ▸ whole.filled
  case extent => exact length ▸ whole.extent
  case snapshot => exact whole.snapshot.trans text.symm
  case current => exact ⟨language.trans whole.current.language, theme.trans whole.current.theme⟩

theorem request_line (s : Session) (e : Extent) {job : Job}
    (member : job ∈ (s.request e).worker.line) :
    job ∈ s.worker.line ∨ e.start < e.stop ∧ job.extent = e ∧ job.snapshot = s.buffer.slice e ∧
      job.theme = s.theme ∧ s.language = some job.language := by
  have effect := request_effect s e
  generalize s.request e = after at effect member
  cases effect with
  | nothing _ => exact Or.inl member
  | refused _ _ _ => exact Or.inl member
  | failed _ _ _ _ => exact Or.inl member
  | issued chosen order _ _ =>
    rw [Worker.line_enqueue] at member
    rcases List.mem_append.mp member with earlier | last
    · exact Or.inl earlier
    · obtain rfl := List.mem_singleton.mp last
      exact Or.inr ⟨order, rfl, rfl, rfl, chosen⟩

theorem rehighlight_line (s : Session) {job : Job} (member : job ∈ s.rehighlight.worker.line) :
    job ∈ s.worker.line ∨ Whole s.rehighlight job := by
  refine (request_line s _ member).imp_right ?_
  rintro ⟨filled, extent, snapshot, theme, language⟩
  have alike : Alike s s.rehighlight := request_alike s _
  have here : Whole s job := by
    refine ⟨filled, extent, ?_, language, theme.symm⟩
    rw [snapshot, slice_to_end, List.drop_zero]
  exact whole_congr here (congrArg (·.text) alike.buffer) (congrArg (·.theme) alike.highlighter)
    alike.language

/- While the first pass is under way. -/

/-- The observer refuses the pass after a call that has changed the text, the theme or the
language. -/
structure ChangeRefused (s : Session) (call : HostCall) : Prop where
  token : (s.perform call).token = s.token
  asked : (s.perform call).notices ≠ s.notices
  changed : (s.perform call).buffer.text ≠ s.buffer.text ∨ (s.perform call).theme ≠ s.theme ∨
    (s.perform call).language ≠ s.language

def RefusedAmong (s : Session) (turns : List Turn) : Prop :=
  ∃ front call back, turns = front ++ .call call :: back ∧ ChangeRefused (s.run front) call

theorem refusedAmong_append {s : Session} {turns : List Turn} (refused : RefusedAmong s turns)
    (t : Turn) : RefusedAmong s (turns ++ [t]) := by
  obtain ⟨front, call, back, rfl, refusal⟩ := refused
  exact ⟨front, call, back ++ [t], by simp, refusal⟩

/-- The pass covers all that is there, or the text has become too short for it. -/
def Fitting (s : Session) (job : Job) : Prop :=
  Whole s job ∨ s.buffer.length < job.extent.stop ∧ s.language ≠ none

theorem fitting_congr {s after : Session} {job : Job} (fitting : Fitting s job)
    (text : after.buffer.text = s.buffer.text) (theme : after.theme = s.theme)
    (language : after.language = s.language) : Fitting after job := by
  have length : after.buffer.length = s.buffer.length := congrArg List.length text
  rcases fitting with whole | ⟨short, chosen⟩
  · exact Or.inl (whole_congr whole text theme language)
  · exact Or.inr ⟨by omega, language ▸ chosen⟩

theorem text_quiet {s : Session} (mapped : s.buffer.Mapped) (chosen : s.language ≠ none)
    {call : HostCall} (token : (s.perform call).token = s.token)
    (notices : (s.perform call).notices = s.notices) :
    (s.perform call).buffer.text = s.buffer.text ∨
      (s.perform call).buffer.length < s.buffer.length := by
  have restyled (highlighter : Highlighter) :
      (s.restyle highlighter).buffer.text = s.buffer.text := by
    unfold restyle rehighlight
    rw [(request_alike _ _).buffer]
    rfl
  cases call with
  | replace e text =>
    rw [perform_replace] at token notices ⊢
    cases done : s.buffer.replace e text with
    | none => exact Or.inl rfl
    | some result =>
      obtain ⟨edit, buffer⟩ := result
      rw [done] at token notices
      obtain ⟨same, none | behind⟩ := request_quiet (s := { s with buffer }) token notices
      · exact absurd none chosen
      · dsimp only
        rw [same]
        exact Or.inr ((TextBuffer.replace_above mapped done).2.2 behind)
  | setAttributes e attributes =>
    obtain ⟨buffer, done, text⟩ := perform_setAttributes s e attributes
    rw [done]
    exact Or.inl text
  | setLanguage language =>
    left
    unfold perform setLanguage
    dsimp only
    split
    · unfold rehighlight
      rw [(request_alike _ _).buffer]
    · rfl
  | setTheme name =>
    rcases perform_setTheme s name with same | ⟨highlighter, done⟩
    · rw [same]
      exact Or.inl rfl
    · rw [done]
      exact Or.inl (restyled highlighter)
  | setFonts code italic bold => exact Or.inl (restyled _)
  | setCodeFont code => exact Or.inl (restyled _)
  | setLineSpacing spacing => exact Or.inl (restyled _)
  | rehighlight => exact Or.inl (congrArg (·.text) (request_alike s _).buffer)

theorem fitting_quiet {s : Session} {job : Job} (mapped : s.buffer.Mapped)
    (fitting : Fitting s job) {call : HostCall} (token : (s.perform call).token = s.token)
    (notices : (s.perform call).notices = s.notices) : Fitting (s.perform call) job := by
  have chosen : s.language ≠ none := by
    rcases fitting with whole | short
    · simp [whole.current.language]
    · exact short.2
  have room : 0 < job.extent.stop ∧ s.buffer.length ≤ job.extent.stop := by
    rcases fitting with whole | short
    · have filled := whole.filled
      rw [whole.extent]
      exact ⟨filled, Nat.le_refl _⟩
    · omega
  obtain ⟨chosen', empty | ⟨_, theme, language⟩⟩ := perform_quiet chosen token notices
  · exact Or.inr ⟨by omega, chosen'⟩
  · rcases text_quiet mapped chosen token notices with text | shorter
    · exact fitting_congr fitting text theme language
    · exact Or.inr ⟨by omega, chosen'⟩

theorem fitting_untaken {s : Session} {job : Job} (mapped : s.buffer.Mapped)
    (fitting : Fitting s job) {call : HostCall} (token : (s.perform call).token = s.token) :
    Fitting (s.perform call) job ∨ ChangeRefused s call := by
  by_cases notices : (s.perform call).notices = s.notices
  · exact Or.inl (fitting_quiet mapped fitting token notices)
  · by_cases changed : (s.perform call).buffer.text ≠ s.buffer.text ∨
      (s.perform call).theme ≠ s.theme ∨ (s.perform call).language ≠ s.language
    · exact Or.inr ⟨token, notices, changed⟩
    · simp only [not_or, not_not] at changed
      obtain ⟨text, theme, language⟩ := changed
      exact Or.inl (fitting_congr fitting text theme language)

theorem fitting_run {s : Session} {job : Job} (fitting : Fitting s job) {turns : List Turn}
    (mapped : ∀ front back, turns = front ++ back → (s.run front).buffer.Mapped)
    (token : (s.run turns).token = s.token) :
    Fitting (s.run turns) job ∨ RefusedAmong s turns := by
  -- Tokens only grow, so a token that is the same at the end was never taken on the way.
  induction turns using List.reverseRecOn with
  | nil => exact Or.inl fitting
  | append_singleton turns t ih =>
    have lower := token_le_run s turns
    have upper := token_le_turn (s.run turns) t
    rw [run_concat] at token ⊢
    have untaken : (s.run turns).token = s.token := by omega
    have mapped' : ∀ front back, turns = front ++ back → (s.run front).buffer.Mapped :=
      fun front back split => mapped front (back ++ [t]) (by simp [split])
    rcases ih mapped' untaken with fitting | refused
    · rcases t.call_or_between with ⟨call, rfl⟩ | between
      · have same : ((s.run turns).perform call).token = (s.run turns).token :=
          token.trans untaken.symm
        refine (fitting_untaken (mapped turns _ rfl) fitting same).imp_right ?_
        intro refusal
        exact ⟨turns, call, [], rfl, refusal⟩
      · have passed := turn_passed (s.run turns) between
        have theme := congrArg (·.theme) passed.highlighter
        exact Or.inl (fitting_congr fitting passed.text theme passed.language)
    · exact Or.inr (refusedAmong_append refused t)

theorem line_since {s : Session} {turns : List Turn} {job : Job}
    (member : job ∈ (s.run turns).worker.line) (old : job.token ≤ s.token) :
    job ∈ s.worker.line := by
  induction turns using List.reverseRecOn with
  | nil => exact member
  | append_singleton turns t ih =>
    rw [run_concat] at member
    apply ih
    rcases t.call_or_between with ⟨call, rfl⟩ | between
    · have line : job ∈ ((s.run turns).perform call).worker.line := member
      rcases perform_worker (s.run turns) call with worker | ⟨next, issue, _⟩
      · rwa [worker] at line
      · rw [issue.enqueued, Worker.line_enqueue] at line
        rcases List.mem_append.mp line with earlier | last
        · exact earlier
        · obtain rfl := List.mem_singleton.mp last
          have since := token_le_run s turns
          have taken := issue.taken
          have number := issue.token
          omega
    · exact (turn_passed _ between).line.subset member

/- Between the two passes. -/

theorem alike_trans {s before after : Session} (first : Alike s before)
    (second : Alike before after) : Alike s after where
  buffer := second.buffer.trans first.buffer
  highlighter := second.highlighter.trans first.highlighter
  language := second.language.trans first.language
  observer := second.observer.trans first.observer

theorem whole_of_alike {s after : Session} {job : Job} (whole : Whole s job)
    (alike : Alike s after) : Whole after job :=
  whole_congr whole (congrArg (·.text) alike.buffer) (congrArg (·.theme) alike.highlighter)
    alike.language

def Undisturbed (s : Session) (turns : List Turn) : Prop :=
  ∀ front t back, turns = front ++ t :: back → Alike (s.run front) ((s.run front).turn t)

theorem undisturbed_front {s : Session} {turns : List Turn} {t : Turn}
    (undisturbed : Undisturbed s (turns ++ [t])) : Undisturbed s turns := by
  rintro front t' back rfl
  exact undisturbed front t' (back ++ [t]) (by simp)

theorem alike_run {s : Session} {turns : List Turn} (undisturbed : Undisturbed s turns) :
    Alike s (s.run turns) := by
  induction turns using List.reverseRecOn with
  | nil => exact alike_refl s
  | append_singleton turns t ih =>
    rw [run_concat]
    exact alike_trans (ih (undisturbed_front undisturbed)) (undisturbed turns t [] rfl)

theorem undisturbed_of_idle {s : Session} {turns : List Turn}
    (idle : ∀ t ∈ turns, t = .call .rehighlight ∨ (∃ move, t = .work move) ∨
      ∃ moment, t = .wait moment) : Undisturbed s turns := by
  rintro front t back rfl
  rcases idle t (by simp) with rfl | ⟨move, rfl⟩ | ⟨moment, rfl⟩
  · exact request_alike _ _
  · rcases turn_work (s.run front) move with same | ⟨worker, moved, _⟩
    · rw [same]
      exact alike_refl _
    · rw [moved]
      exact ⟨rfl, rfl, rfl, rfl⟩
  · exact ⟨rfl, rfl, rfl, rfl⟩

theorem call_line {s : Session} {call : HostCall} (alike : Alike s (s.perform call)) {job : Job}
    (member : job ∈ (s.perform call).worker.line) :
    job ∈ s.worker.line ∨ Whole (s.perform call) job := by
  cases call with
  | replace e text =>
    have buffer := alike.buffer
    rw [perform_replace] at member buffer
    cases done : s.buffer.replace e text with
    | none =>
      rw [done] at member
      exact Or.inl member
    | some result =>
      obtain ⟨edit, after⟩ := result
      rw [done] at buffer
      dsimp only at buffer
      rw [(request_alike _ _).buffer] at buffer
      obtain ⟨_, _, _, _, _, made⟩ := TextBuffer.replace_eq_some done
      -- an edit counts up the revision and so never leaves the buffer as it was
      have counted : after.revision = s.buffer.revision + 1 := by rw [made]
      have same : after = s.buffer := buffer
      simp [same] at counted
  | setAttributes e attributes =>
    obtain ⟨buffer, done, text⟩ := perform_setAttributes s e attributes
    rw [done] at member
    exact Or.inl member
  | setLanguage language =>
    unfold perform setLanguage at member ⊢
    dsimp only at member ⊢
    split at member
    · next named => exact rehighlight_line { s with language := some _ } member
    · exact Or.inl member
  | setTheme name =>
    rcases perform_setTheme s name with same | ⟨highlighter, done⟩
    · rw [same] at member
      exact Or.inl member
    · rw [done] at member ⊢
      exact rehighlight_line _ member
  | setFonts code italic bold => exact rehighlight_line _ member
  | setCodeFont code => exact rehighlight_line _ member
  | setLineSpacing spacing => exact rehighlight_line _ member
  | rehighlight => exact rehighlight_line s member

theorem whole_between {s : Session} (lined : Lined s)
    (whole : ∀ job ∈ s.worker.line, job.token = s.token → Whole s job) {turns : List Turn}
    (undisturbed : Undisturbed s turns) :
    Lined (s.run turns) ∧
      ∀ job ∈ (s.run turns).worker.line, job.token = (s.run turns).token →
        Whole (s.run turns) job := by
  induction turns using List.reverseRecOn with
  | nil => exact ⟨lined, whole⟩
  | append_singleton turns t ih =>
    obtain ⟨lined, whole⟩ := ih (undisturbed_front undisturbed)
    have alike := undisturbed turns t [] rfl
    rw [run_concat]
    generalize s.run turns = before at lined whole alike
    refine ⟨lined_turn lined t, ?_⟩
    intro job member newest
    have earlier (inLine : job ∈ before.worker.line) : Whole (before.turn t) job := by
      have bound := lined.bound job inLine
      have later := token_le_turn before t
      exact whole_of_alike (whole job inLine (by omega)) alike
    rcases t.call_or_between with ⟨call, rfl⟩ | between
    · exact (call_line alike member).elim earlier id
    · exact earlier ((turn_passed before between).line.subset member)

/- Painting twice. -/

theorem paint_whole {s : Session} {job : Job} {t : AttributedText} (mapped : s.buffer.Mapped)
    (whole : Whole s job) (answered : t.text = job.snapshot)
    (canonical : Canonical 0 t.text.length t.runs) :
    (s.painted job t.runs).Mapped ∧ (s.painted job t.runs).text = s.buffer.text ∧
      (s.painted job t.runs).revision = s.buffer.revision + 1 ∧
      ∀ i < s.buffer.length, SameLook (look (s.painted job t.runs).runs i) (look t.runs i) := by
  have length : t.text.length = s.buffer.length := by
    rw [answered, whole.snapshot]
    rfl
  rw [length] at canonical
  obtain ⟨record, after, done, mapped', text, _, revision, inside, _⟩ :=
    TextBuffer.paint_stretch mapped 0 canonical.1 whole.filled (by omega)
  have painted : s.painted job t.runs = after := by
    unfold Session.painted
    rw [whole.extent, done]
    rfl
  rw [painted]
  refine ⟨mapped', text, revision, ?_⟩
  intro i upper
  have same := inside i upper
  rwa [Nat.zero_add] at same

theorem runs_beq_of_looks {b c : TextBuffer} (mapped : b.Mapped) (mapped' : c.Mapped)
    (text : b.text = c.text)
    (looks : ∀ i < c.length, ∃ a, a.isDefinite = true ∧ SameLook (look b.runs i) (some a) ∧
      SameLook (look c.runs i) (some a)) : (b.runs == c.runs) = true := by
  have length : b.length = c.length := congrArg List.length text
  have canonical : Canonical 0 c.length b.runs := length ▸ mapped
  apply canonical_unique canonical mapped'
  intro i _ upper
  obtain ⟨a, definite, left, right⟩ := looks i upper
  obtain ⟨x, foundLeft, equal⟩ := beq_of_sameLook definite left
  obtain ⟨y, foundRight, equal'⟩ := beq_of_sameLook definite right
  exact ⟨x, y, foundLeft, foundRight, Attributes.beq_trans equal (Attributes.beq_symm equal')⟩

theorem run_congr {engine : Engine} (steady : engine.Steady) {job other : Job}
    (language : other.language = job.language) (snapshot : other.snapshot = job.snapshot)
    (theme : other.theme = job.theme) (m n : Nat) : other.run engine n = job.run engine m := by
  unfold Job.run
  rw [language, snapshot, theme, steady n m]

theorem definite_of_run {engine : Engine} {n : Nat} {job : Job} {t : AttributedText}
    (definite : job.theme.Definite) (ran : job.run engine n = .ok t) :
    ∀ i < t.text.length, ∃ a, SameLook (look t.runs i) (some a) ∧ a.isDefinite = true := by
  unfold Job.run at ran
  cases replied : engine.reply n (some job.language) job.snapshot with
  | error e =>
    rw [replied] at ran
    cases ran
  | ok markup =>
    rw [replied] at ran
    exact Markup.attributed_definite definite ran

theorem fresh_of_whole {s : Session} {r : PassResult} {t : AttributedText}
    (whole : Whole s r.job) (newest : r.job.token = s.token) (done : r.outcome = .ok t)
    (answered : t.text = r.job.snapshot) : Fresh s r t := by
  refine ⟨newest, done, ?_, answered⟩
  rw [whole.extent, slice_to_end, List.drop_zero, whole.snapshot]

theorem read_whole {s : Session} {r : PassResult} {rest : List PassResult} {t : AttributedText}
    (unread : s.worker.results = r :: rest) (whole : Whole s r.job) (fresh : Fresh s r t) :
    s.turn .read =
      { s.withResults rest with
        buffer := s.painted r.job t.runs
        notices := s.notices ++ s.told (.reported r.job.extent true) } := by
  have order : r.job.extent.start < r.job.extent.stop := by
    rw [whole.extent]
    exact whole.filled
  have filled : r.job.extent.start + r.job.snapshot.length = r.job.extent.stop := by
    rw [whole.extent, whole.snapshot]
    exact Nat.zero_add _
  have fit : (s.withResults rest).matchesText r.job t = true :=
    (matchesText_iff order filled).mpr ⟨fresh.standing, fresh.answered⟩
  rw [turn_read unread]
  exact apply_painted (s := s.withResults rest) fresh.newest fresh.done fit

/-- A pass over everything is asked for, the session goes on, and the result of that pass is the
next one to be read, and is fresh. -/
structure Rehighlighted (s : Session) (turns : List Turn) (r : PassResult) (t : AttributedText) :
    Prop where
  issued : s.token < s.rehighlight.token
  unread : (s.rehighlight.run turns).worker.results.head? = some r
  own : r.job.token = s.rehighlight.token
  fresh : Fresh (s.rehighlight.run turns) r t

theorem whole_or_refused (highlighter : Highlighter) (debounce : Nat) (observer : Option Observer)
    (before during : List Turn) {begun first : Session}
    (reached : begun = (start highlighter debounce observer).run before)
    (underway : first = begun.rehighlight.run during) {r : PassResult} {t : AttributedText}
    (done : Rehighlighted begun during r t) :
    Whole first r.job ∨ RefusedAmong begun.rehighlight during := by
  have history (turns : List Turn) : begun.rehighlight.run turns =
      (start highlighter debounce observer).run (before ++ .call .rehighlight :: turns) := by
    rw [reached, run_append]
    rfl
  have sound := sound_run highlighter debounce observer (before ++ .call .rehighlight :: during)
  have lined := lined_run highlighter debounce observer before
  rw [← history, ← underway] at sound
  rw [← reached] at lined
  obtain ⟨issued, unread, own, fresh⟩ := done
  obtain ⟨rest, unread⟩ := List.head?_eq_some_iff.mp unread
  have member : r.job ∈ (begun.rehighlight.run during).worker.line := by
    rw [Chronicle.line_unread unread]
    exact List.mem_cons_self
  have asked : Whole begun.rehighlight r.job := by
    rcases rehighlight_line _ (line_since member (Nat.le_of_eq own)) with earlier | whole
    · have bound := lined.bound r.job earlier
      omega
    · exact whole
  have mapped : ∀ front back, during = front ++ back →
      (begun.rehighlight.run front).buffer.Mapped := by
    intro front _ _
    rw [history]
    exact (sound_run highlighter debounce observer _).mapped
  have fitting := fitting_run (Or.inl asked) mapped (fresh.newest.symm.trans own)
  rw [← underway] at fitting fresh member
  refine fitting.imp_left ?_
  rintro (whole | ⟨short, _⟩)
  · exact whole
  · -- the text that the pass has seen does not fit into a shorter one
    obtain ⟨order, filled⟩ := snapshot_of_origin (sound.origin r.job member)
    have length := congrArg List.length fresh.standing
    rw [length_slice] at length
    omega

section
variable {first : Session} {r₁ r₂ : PassResult} {t : AttributedText} {rest₁ : List PassResult}

theorem second_pass_whole (lined : Lined first) (unread : first.worker.results = r₁ :: rest₁)
    (whole : Whole first r₁.job) (fresh : Fresh first r₁ t) {between : List Turn}
    (undisturbed : Undisturbed (first.turn .read) between) {job : Job}
    (member : job ∈ ((first.turn .read).run between).worker.line)
    (newest : job.token = ((first.turn .read).run between).token) :
    Whole ((first.turn .read).run between) job ∧ job.language = r₁.job.language ∧
      job.snapshot = r₁.job.snapshot ∧ job.theme = r₁.job.theme := by
  have passed := passed_read first
  have nothing : ∀ other ∈ (first.turn .read).worker.line,
      other.token = (first.turn .read).token → Whole (first.turn .read) other := by
    intro other inLine same
    rw [passed.token] at same
    rw [read_whole unread whole fresh] at inLine
    exact absurd same (newest_alone lined unread fresh.newest other inLine)
  have second := (whole_between (lined_turn lined .read) nothing undisturbed).2 job member newest
  have read : Whole (first.turn .read) r₁.job :=
    whole_congr whole passed.text (congrArg (·.theme) passed.highlighter) passed.language
  have again := whole_of_alike read (alike_run undisturbed)
  have language : some job.language = some r₁.job.language :=
    second.current.language.symm.trans again.current.language
  exact ⟨second, Option.some.inj language, second.snapshot.trans again.snapshot.symm,
    second.current.theme.symm.trans again.current.theme⟩

theorem repaint {second : Session} (mapped : first.buffer.Mapped)
    (whole₁ : Whole first r₁.job) (whole₂ : Whole second r₂.job)
    (buffer : second.buffer = first.painted r₁.job t.runs)
    (canonical : Canonical 0 t.text.length t.runs) (answered₁ : t.text = r₁.job.snapshot)
    (answered₂ : t.text = r₂.job.snapshot)
    (definite : ∀ i < t.text.length, ∃ a, SameLook (look t.runs i) (some a) ∧
      a.isDefinite = true) :
    (second.painted r₂.job t.runs).text = second.buffer.text ∧
      ((second.painted r₂.job t.runs).runs == second.buffer.runs) = true ∧
      (second.painted r₂.job t.runs).revision = second.buffer.revision + 1 := by
  obtain ⟨mapped₁, text₁, _, looks₁⟩ := paint_whole mapped whole₁ answered₁ canonical
  rw [← buffer] at mapped₁ text₁ looks₁
  obtain ⟨mapped₂, text₂, revision, looks₂⟩ := paint_whole mapped₁ whole₂ answered₂ canonical
  refine ⟨text₂, runs_beq_of_looks mapped₂ mapped₁ text₂ ?_, revision⟩
  intro i upper
  have length : second.buffer.length = first.buffer.length := congrArg List.length text₁
  have within : i < t.text.length := by
    rw [answered₂, whole₂.snapshot]
    exact upper
  obtain ⟨a, same, number⟩ := definite i within
  exact ⟨a, number, sameLook_trans (looks₂ i upper) same,
    sameLook_trans (looks₁ i (by omega)) same⟩

end

/-- A pass over everything is painted, and then nothing is changed until the result of the next one
is read. That one is painted as well, and leaves text and runs as they are, unless the observer has
refused the pass over a change that was made while the first one was under way. -/
theorem repeated_pass_changes_nothing (highlighter : Highlighter)
    (steady : highlighter.engine.Steady) (debounce : Nat) (observer : Option Observer)
    (before during between : List Turn) {begun first left second after : Session}
    (reached : begun = (start highlighter debounce observer).run before)
    (underway : first = begun.rehighlight.run during) (painted : left = first.turn .read)
    (passed : second = left.run between) (repainted : after = second.turn .read)
    {r₁ r₂ : PassResult} {t : AttributedText} (done : Rehighlighted begun during r₁ t)
    (definite : left.theme.Definite) (undisturbed : Undisturbed left between)
    (head : second.worker.results.head? = some r₂) (newest : r₂.job.token = second.token) :
    RefusedAmong begun.rehighlight during ∨
    Fresh second r₂ t ∧
      after.notices = second.notices ++ second.told (.reported r₂.job.extent true) ∧
      after.buffer.text = left.buffer.text ∧ (after.buffer.runs == left.buffer.runs) = true ∧
      after.buffer.revision = left.buffer.revision + 1 := by
  have whole_or :=
    whole_or_refused highlighter debounce observer before during reached underway done
  have history₁ : first =
      (start highlighter debounce observer).run (before ++ .call .rehighlight :: during) := by
    rw [underway, reached, run_append]
    rfl
  have history₂ : second = (start highlighter debounce observer).run
      (before ++ .call .rehighlight :: during ++ .read :: between) := by
    rw [passed, painted, history₁, run_append _ (before ++ _)]
    rfl
  have sound₁ := sound_run highlighter debounce observer (before ++ .call .rehighlight :: during)
  have lined₁ := lined_run highlighter debounce observer (before ++ .call .rehighlight :: during)
  have sound₂ := sound_run highlighter debounce observer
    (before ++ .call .rehighlight :: during ++ .read :: between)
  rw [← history₁] at sound₁ lined₁
  rw [← history₂] at sound₂
  obtain ⟨_, unread₁, _, fresh₁⟩ := done
  rw [← underway] at unread₁ fresh₁
  obtain ⟨rest₁, unread₁⟩ := List.head?_eq_some_iff.mp unread₁
  obtain ⟨rest₂, unread₂⟩ := List.head?_eq_some_iff.mp head
  refine whole_or.symm.imp_right ?_
  intro whole₁
  have kept : Alike left second := passed ▸ alike_run undisturbed
  have member : r₂.job ∈ second.worker.line := by
    rw [Chronicle.line_unread unread₂]
    exact List.mem_cons_self
  have read₁ := read_whole unread₁ whole₁ fresh₁
  obtain ⟨whole₂, language, snapshot, theme⟩ : Whole second r₂.job ∧
      r₂.job.language = r₁.job.language ∧ r₂.job.snapshot = r₁.job.snapshot ∧
        r₂.job.theme = r₁.job.theme := by
    rw [painted] at undisturbed passed
    rw [passed] at member newest ⊢
    exact second_pass_whole lined₁ unread₁ whole₁ fresh₁ undisturbed member newest
  obtain ⟨m, ran₁⟩ := sound₁.outcome r₁ (by rw [unread₁]; exact List.mem_cons_self)
  obtain ⟨n, ran₂⟩ := sound₂.outcome r₂ (by rw [unread₂]; exact List.mem_cons_self)
  have result : r₂.outcome = .ok t := calc
    r₂.outcome = r₂.job.run highlighter.engine n := ran₂
    _ = r₁.job.run highlighter.engine m := run_congr steady language snapshot theme m n
    _ = .ok t := ran₁.symm.trans fresh₁.done
  have fresh₂ : Fresh second r₂ t :=
    fresh_of_whole whole₂ newest result (fresh₁.answered.trans snapshot.symm)
  have read₂ := read_whole unread₂ whole₂ fresh₂
  have buffer : second.buffer = first.painted r₁.job t.runs := by
    rw [kept.buffer, painted, read₁]
  have numbers : r₁.job.theme.Definite := by
    rw [painted] at definite
    rw [← whole₁.current.theme]
    unfold Session.theme at definite ⊢
    rwa [(passed_read first).highlighter] at definite
  rw [fresh₁.done] at ran₁
  obtain ⟨text, runs, revision⟩ := repaint sound₁.mapped whole₁ whole₂ buffer
    (canonical_of_run ran₁.symm) fresh₁.answered fresh₂.answered (definite_of_run numbers ran₁.symm)
  rw [repainted, read₂, ← kept.buffer]
  exact ⟨fresh₂, rfl, text, runs, revision⟩

theorem rehighlighted_of_pass {s : Session} {turns : List Turn} (extent : Extent) (snapshot : Text)
    (issued : s.token < s.rehighlight.token)
    (pass : (s.rehighlight.run turns).worker.results.map (fun r =>
      (r.job.token, r.job.extent, r.job.snapshot, r.outcome.toOption.map (·.text))) =
        [(s.rehighlight.token, extent, snapshot, some snapshot)])
    (newest : (s.rehighlight.run turns).token = s.rehighlight.token)
    (standing : (s.rehighlight.run turns).buffer.slice extent = snapshot) :
    ∃ r t, Rehighlighted s turns r t := by
  obtain ⟨r, unread, seen⟩ := List.map_eq_singleton_iff.mp pass
  simp only [Prod.mk.injEq] at seen
  obtain ⟨own, here, saw, outcome⟩ := seen
  obtain ⟨t, done, answered⟩ : ∃ t, r.outcome = .ok t ∧ t.text = snapshot := by
    cases result : r.outcome with
    | error e => simp [result, Except.toOption] at outcome
    | ok t => exact ⟨t, rfl, by simpa [result, Except.toOption] using outcome⟩
  have fresh : Fresh (s.rehighlight.run turns) r t := by
    refine ⟨own.trans newest.symm, done, ?_, answered.trans saw.symm⟩
    rw [here, saw, standing]
  exact ⟨r, t, issued, by simp [unread], own, fresh⟩

theorem repeated_pass_changes_nothing_letter :
    let highlighter : Highlighter :=
      ⟨.constant "plain".toList (.ok ['a']), .bundled, .standard []⟩
    let before : List Turn :=
      [.call (.replace ⟨0, 0⟩ ['a']), .call (.setLanguage (some "plain".toList))]
    let begun := (start highlighter 0 none).run before
    let during : List Turn :=
      [.work .receive, .work .adopt, .work .settle, .work .check, .work .answer]
    let between : List Turn :=
      [.call .rehighlight, .work .receive, .work .settle, .work .check, .work .answer]
    let left := (begun.rehighlight.run during).turn .read
    let second := left.run between
    let after := second.turn .read
    ∃ r₁ r₂ t, Rehighlighted begun during r₁ t ∧ left.theme.Definite ∧ Undisturbed left between ∧
      second.worker.results.head? = some r₂ ∧ r₂.job.token = second.token ∧
      ¬ RefusedAmong begun.rehighlight during ∧ Fresh second r₂ t ∧
      (after.buffer.runs == left.buffer.runs) = true ∧
      after.buffer.revision = left.buffer.revision + 1 := by
  intro highlighter before begun during between left second after
  have steady : highlighter.engine.Steady := fun _ _ _ _ => rfl
  obtain ⟨r₁, t, first⟩ : ∃ r t, Rehighlighted begun during r t :=
    rehighlighted_of_pass ⟨0, 1⟩ ['a'] (by decide +kernel)
      (by decide +kernel) (by decide +kernel) (by decide +kernel)
  have definite : left.theme.Definite := by decide +kernel
  have undisturbed : Undisturbed left between := undisturbed_of_idle (by simp [between])
  have again : second.worker.results.map (·.job.token) = [second.token] := by decide +kernel
  obtain ⟨r₂, unread₂, newest⟩ := List.map_eq_singleton_iff.mp again
  have head : second.worker.results.head? = some r₂ := by simp [unread₂]
  have willing : ¬ RefusedAmong begun.rehighlight during := by
    rintro ⟨front, call, back, split, _⟩
    have member : Turn.call call ∈ during := by
      rw [split]
      simp
    simp [during] at member
  have reached : begun = (start highlighter 0 none).run before := rfl
  have painted : left = (begun.rehighlight.run during).turn .read := rfl
  have passed : second = left.run between := rfl
  have repainted : after = second.turn .read := rfl
  clear_value after second left begun
  obtain ⟨fresh₂, _, _, runs, revision⟩ :=
    (repeated_pass_changes_nothing highlighter steady 0 none before during between reached rfl
      painted passed repainted first definite undisturbed head newest).resolve_left willing
  exact ⟨r₁, r₂, t, first, definite, undisturbed, head, newest, willing, fresh₂, runs, revision⟩

/-- The observer refuses the third pass that it is asked for, which is the one over a new line
spacing. The pass under way is painted with the spacing from before, and its repetition brings the
new one, though nothing has changed between the two. -/
theorem refused_change_shows_in_repeat :
    let highlighter : Highlighter :=
      ⟨.constant "plain".toList (.ok ['a']), .bundled, .standard []⟩
    let observer : Observer := ⟨fun notices _ => notices.length != 2⟩
    let begun := (start highlighter 0 (some observer)).run
      [.call (.replace ⟨0, 0⟩ ['a']), .call (.setLanguage (some "plain".toList))]
    let during : List Turn := [.work .receive, .work .adopt, .work .settle, .work .check,
      .call (.setLineSpacing (.ofRank false 1)), .work .answer]
    let between : List Turn :=
      [.call .rehighlight, .work .receive, .work .settle, .work .check, .work .answer]
    let left := (begun.rehighlight.run during).turn .read
    let second := left.run between
    let after := second.turn .read
    highlighter.engine.Steady ∧ (∃ r t, Rehighlighted begun during r t) ∧ left.theme.Definite ∧
      Undisturbed left between ∧ second.worker.results.map (·.job.token) = [second.token] ∧
      (after.buffer.runs == left.buffer.runs) = false := by
  intro highlighter observer begun during between left second after
  have steady : highlighter.engine.Steady := fun _ _ _ _ => rfl
  have first : ∃ r t, Rehighlighted begun during r t :=
    rehighlighted_of_pass ⟨0, 1⟩ ['a'] (by decide +kernel) (by decide +kernel) (by decide +kernel)
      (by decide +kernel)
  have definite : left.theme.Definite := by decide +kernel
  have undisturbed : Undisturbed left between := undisturbed_of_idle (by simp [between])
  have again : second.worker.results.map (·.job.token) = [second.token] := by decide +kernel
  have changed : (after.buffer.runs == left.buffer.runs) = false := by decide +kernel
  exact ⟨steady, first, definite, undisturbed, again, changed⟩

end SyntaxPaint.Session
