import SyntaxPaint.Session.History
import Mathlib.Data.List.Induction

/-!
What a single turn can do to a session, said once: `RequestEffect` for the request of a pass,
`CallEffect` for the owner's calls, `Effect` for the moves of the worker, `ResultEffect` for the
results. Everything that is claimed of whole histories follows from these by `run_invariant`.
-/
namespace SyntaxPaint

namespace Worker

inductive Effect (engine : Engine) (token now : Nat) (w : Worker) : Worker → Prop
  | receive {job : Job} {rest : List Job} (idle : w.phase = .idle) (queue : w.queue = job :: rest) :
      Effect engine token now w { w with phase := .gathering job, queue := rest }
  | adopt {old job : Job} {rest : List Job} (held : w.phase = .gathering old)
      (queue : w.queue = job :: rest) :
      Effect engine token now w { w with phase := .gathering job, queue := rest }
  | exchange {old job : Job} {rest : List Job} (held : w.phase = .waiting old)
      (queue : w.queue = job :: rest) :
      Effect engine token now w { w with phase := .waiting job, queue := rest }
  | settle {job : Job} (held : w.phase = .gathering job) (queue : w.queue = []) :
      Effect engine token now w { w with phase := .waiting job }
  | call {job : Job} (held : w.phase = .waiting job) (due : job.deadline w.debounce ≤ now)
      (newest : job.token = token) : Effect engine token now w { w with phase := .calling job }
  | skip {job : Job} (held : w.phase = .waiting job) (due : job.deadline w.debounce ≤ now)
      (stale : job.token ≠ token) : Effect engine token now w { w with phase := .idle }
  | answer {job : Job} (held : w.phase = .calling job)
      (whole : job.run engine w.calls ≠ .error .breakdown) :
      Effect engine token now w
        { w with
          phase := .idle
          results := w.results ++ [⟨job, job.run engine w.calls⟩]
          calls := w.calls + 1 }
  | breakdown {job : Job} (held : w.phase = .calling job)
      (broken : job.run engine w.calls = .error .breakdown) :
      Effect engine token now w { w with phase := .gone, queue := [], calls := w.calls + 1 }

theorem effect_of_step {engine : Engine} {token now : Nat} {w after : Worker} {move : Move}
    (step : w.step? engine token now move = some after) : Effect engine token now w after := by
  cases move with
  | receive =>
    simp only [step?] at step
    split at step
    · next idle queue =>
      cases step
      exact .receive idle queue
    · cases step
  | adopt =>
    simp only [step?] at step
    split at step
    · next held queue =>
      cases step
      exact .adopt held queue
    · next held queue =>
      cases step
      exact .exchange held queue
    · cases step
  | settle =>
    simp only [step?] at step
    split at step
    · next held queue =>
      cases step
      exact .settle held queue
    · cases step
  | check =>
    simp only [step?] at step
    split at step
    · next job held =>
      split at step
      · next due =>
        cases step
        by_cases newest : job.token = token
        · rw [if_pos newest]
          exact .call held due newest
        · rw [if_neg newest]
          exact .skip held due newest
      · cases step
    · cases step
  | answer =>
    simp only [step?] at step
    split at step
    · next job held =>
      cases step
      unfold conclude
      split
      · next broken => exact .breakdown held broken
      · next whole => exact .answer held whole
    · cases step

/-- The jobs that are under way, in the order in which they were issued: those of the unread
results, the one in the worker's hands, and those in its queue. -/
def line (w : Worker) : List Job := w.results.map (·.job) ++ (w.phase.job?.toList ++ w.queue)

theorem line_enqueue (w : Worker) (job : Job) : (w.enqueue job).line = w.line ++ [job] := by
  simp [line, enqueue]

theorem line_sublist {engine : Engine} {token now : Nat} {w after : Worker}
    (effect : Effect engine token now w after) : after.line.Sublist w.line := by
  unfold line
  cases effect with
  | receive idle queue => simp [idle, queue, Phase.job?]
  | adopt held queue => simp [held, queue, Phase.job?]
  | exchange held queue => simp [held, queue, Phase.job?]
  | settle held queue => simp [held, Phase.job?]
  | call held due newest => simp [held, Phase.job?]
  | skip held due stale => simp [held, Phase.job?]
  | answer held whole => simp [held, Phase.job?]
  | breakdown held broken => simp [Phase.job?]

theorem outcome_of_effect {engine : Engine} {token now : Nat} {w after : Worker}
    (effect : Effect engine token now w after) {r : PassResult} (unread : r ∈ after.results) :
    r ∈ w.results ∨ ∃ n, r.outcome = r.job.run engine n := by
  cases effect with
  | answer held whole =>
    rcases List.mem_append.mp unread with earlier | last
    · exact Or.inl earlier
    · obtain rfl := List.mem_singleton.mp last
      exact Or.inr ⟨w.calls, rfl⟩
  | _ => exact Or.inl unread

end Worker

namespace Session

theorem run_concat (s : Session) (turns : List Turn) (t : Turn) :
    s.run (turns ++ [t]) = (s.run turns).turn t := by
  simp [run]

theorem run_append (s : Session) (turns later : List Turn) :
    s.run (turns ++ later) = (s.run turns).run later := List.foldl_append

theorem run_invariant {s : Session} (holds : List Turn → Session → Prop) (start : holds [] s)
    (step : ∀ turns t, holds turns (s.run turns) → holds (turns ++ [t]) ((s.run turns).turn t))
    (turns : List Turn) : holds turns (s.run turns) := by
  induction turns using List.reverseRecOn with
  | nil => exact start
  | append_singleton turns t ih =>
    rw [run_concat]
    exact step turns t ih

theorem turn_work (s : Session) (move : Move) :
    s.turn (.work move) = s ∨ ∃ worker, s.turn (.work move) = { s with worker } ∧
      s.worker.Effect s.highlighter.engine s.token s.clock worker := by
  have moved : s.turn (.work move) = (s.work? move).getD s := rfl
  rw [moved, work?]
  cases step : s.worker.step? s.highlighter.engine s.token s.clock move with
  | none => exact Or.inl rfl
  | some worker => exact Or.inr ⟨worker, rfl, Worker.effect_of_step step⟩

def withResults (s : Session) (results : List PassResult) : Session :=
  { s with worker := { s.worker with results } }

theorem turn_read {s : Session} {r : PassResult} {rest : List PassResult}
    (unread : s.worker.results = r :: rest) : s.turn .read = (s.withResults rest).apply r := by
  unfold turn applyNext?
  rw [unread]
  rfl

theorem turn_read_nothing {s : Session} (unread : s.worker.results = []) : s.turn .read = s := by
  unfold turn applyNext?
  rw [unread]
  rfl

/- Notices. -/

def told (s : Session) (notice : Notice) : List Notice :=
  if s.observer.isSome then [notice] else []

theorem notify_eq (s : Session) (notice : Notice) :
    s.notify notice = { s with notices := s.notices ++ s.told notice } := by
  unfold notify told
  split
  · rfl
  · rw [List.append_nil]

/- Requests. -/

theorem request_nothing {s : Session} {e : Extent} (none : s.language = none ∨ e.stop ≤ e.start) :
    s.request e = s := by
  unfold request
  split
  · rfl
  · next language chosen =>
    rcases none with none | empty
    · rw [none] at chosen
      cases chosen
    · exact if_pos (by simpa [Extent.isEmpty] using empty)

theorem request_asked {s : Session} {e : Extent} {language : Text}
    (chosen : s.language = some language) (order : e.start < e.stop) :
    s.request e =
      let asked := s.notify (.asked e)
      if s.consents e then asked.submit (asked.nextJob language e) else asked := by
  have some : ¬ e.isEmpty = true := by simpa [Extent.isEmpty] using order
  unfold request
  rw [chosen]
  exact if_neg some

theorem request_refused {s : Session} {e : Extent} {language : Text}
    (chosen : s.language = some language) (order : e.start < e.stop)
    (refused : s.consents e = false) :
    s.request e = { s with notices := s.notices ++ s.told (.asked e) } := by
  rw [request_asked chosen order, refused]
  exact notify_eq s _

theorem request_issued {s : Session} {e : Extent} {language : Text}
    (chosen : s.language = some language) (order : e.start < e.stop)
    (agreed : s.consents e = true) (running : s.worker.phase.isGone = false) :
    s.request e =
      { s with
        token := s.token + 1
        worker := s.worker.enqueue (s.nextJob language e)
        notices := s.notices ++ s.told (.asked e) } := by
  rw [request_asked chosen order, agreed, notify_eq]
  exact if_neg (Bool.eq_false_iff.mp running)

theorem request_failed {s : Session} {e : Extent} {language : Text}
    (chosen : s.language = some language) (order : e.start < e.stop)
    (agreed : s.consents e = true) (gone : s.worker.phase.isGone = true) :
    s.request e =
      { s with
        token := s.token + 1
        notices := s.notices ++ s.told (.asked e) ++ s.told (.reported e false) } := by
  rw [request_asked chosen order, agreed, notify_eq]
  refine (if_pos gone).trans ?_
  rw [notify_eq]
  rfl

inductive RequestEffect (s : Session) (e : Extent) : Session → Prop
  | nothing (none : s.language = none ∨ e.stop ≤ e.start) : RequestEffect s e s
  | refused {language : Text} (chosen : s.language = some language) (order : e.start < e.stop)
      (refused : s.consents e = false) :
      RequestEffect s e { s with notices := s.notices ++ s.told (.asked e) }
  | issued {language : Text} (chosen : s.language = some language) (order : e.start < e.stop)
      (agreed : s.consents e = true) (running : s.worker.phase.isGone = false) :
      RequestEffect s e
        { s with
          token := s.token + 1
          worker := s.worker.enqueue (s.nextJob language e)
          notices := s.notices ++ s.told (.asked e) }
  | failed {language : Text} (chosen : s.language = some language) (order : e.start < e.stop)
      (agreed : s.consents e = true) (gone : s.worker.phase.isGone = true) :
      RequestEffect s e
        { s with
          token := s.token + 1
          notices := s.notices ++ s.told (.asked e) ++ s.told (.reported e false) }

theorem request_effect (s : Session) (e : Extent) : RequestEffect s e (s.request e) := by
  cases chosen : s.language with
  | none =>
    rw [request_nothing (Or.inl chosen)]
    exact .nothing (Or.inl chosen)
  | some language =>
    rcases Nat.lt_or_ge e.start e.stop with order | empty
    · cases answer : s.consents e with
      | false =>
        rw [request_refused chosen order answer]
        exact .refused chosen order answer
      | true =>
        cases ended : s.worker.phase.isGone with
        | false =>
          rw [request_issued chosen order answer ended]
          exact .issued chosen order answer ended
        | true =>
          rw [request_failed chosen order answer ended]
          exact .failed chosen order answer ended
    · rw [request_nothing (Or.inr empty)]
      exact .nothing (Or.inr empty)

/- Calls of the owner. -/

/-- Between two states a call has issued a job: it has taken the next token and carries the text,
the theme and the language of that moment. -/
structure Issue (before after : Session) (job : Job) : Prop where
  taken : after.token = before.token + 1
  token : job.token = after.token
  enqueued : after.worker = before.worker.enqueue job
  nonempty : job.extent.start < job.extent.stop
  fits : job.extent.stop ≤ after.buffer.length
  snapshot : job.snapshot = after.buffer.slice job.extent
  theme : job.theme = after.theme
  language : after.language = some job.language
  moment : job.issued = after.clock

inductive CallEffect (before after : Session) : Prop
  | quiet (token : after.token = before.token) (worker : after.worker = before.worker)
      (notices : after.notices = before.notices)
  | refused (e : Extent) (token : after.token = before.token)
      (worker : after.worker = before.worker)
      (notices : after.notices = before.notices ++ before.told (.asked e))
  | abandoned (token : after.token = before.token + 1) (worker : after.worker = before.worker)
      (language : after.language = none) (notices : after.notices = before.notices)
  | issued (job : Job) (issue : Issue before after job)
      (running : before.worker.phase.isGone = false)
      (notices : after.notices = before.notices ++ before.told (.asked job.extent))
  | failed (e : Extent) (token : after.token = before.token + 1)
      (worker : after.worker = before.worker) (gone : before.worker.phase.isGone = true)
      (notices : after.notices =
        before.notices ++ before.told (.asked e) ++ before.told (.reported e false))

structure Kept (before s : Session) : Prop where
  token : s.token = before.token
  worker : s.worker = before.worker
  notices : s.notices = before.notices
  observer : s.observer = before.observer

theorem told_of_kept {before s : Session} (kept : Kept before s) (notice : Notice) :
    s.told notice = before.told notice := by
  unfold told
  rw [kept.observer]

theorem quiet_of_kept {before s : Session} (kept : Kept before s) : CallEffect before s :=
  .quiet kept.token kept.worker kept.notices

theorem callEffect_request {before s : Session} (kept : Kept before s) {e : Extent}
    (fits : e.stop ≤ s.buffer.length) : CallEffect before (s.request e) := by
  have effect := request_effect s e
  have told := told_of_kept kept
  generalize s.request e = after at effect
  cases effect with
  | nothing _ => exact quiet_of_kept kept
  | refused _ _ _ => exact .refused e kept.token kept.worker (by rw [kept.notices, told])
  | @issued language chosen order _ running =>
    rw [kept.worker] at running
    have notices : s.notices ++ s.told (.asked e) =
        before.notices ++ before.told (.asked e) := by
      rw [kept.notices, told]
    refine .issued (s.nextJob language e) ?_ running notices
    exact
      { taken := congrArg (· + 1) kept.token
        token := rfl
        enqueued := by rw [← kept.worker]
        nonempty := order
        fits := fits
        snapshot := rfl
        theme := rfl
        language := chosen
        moment := rfl }
  | failed _ _ _ gone =>
    rw [kept.worker] at gone
    refine .failed e (congrArg (· + 1) kept.token) kept.worker gone ?_
    rw [← kept.notices, ← told, ← told]

theorem rehighlight_effect {before s : Session} (kept : Kept before s) :
    CallEffect before s.rehighlight := callEffect_request kept (Nat.le_refl _)

theorem edited_effect (s : Session) (edit : Option (EditRecord × TextBuffer)) :
    CallEffect s (s.edited edit).2 := by
  cases edit with
  | none => exact .quiet rfl rfl rfl
  | some edit =>
    obtain ⟨record, buffer⟩ := edit
    have kept : Kept s { s with buffer } := ⟨rfl, rfl, rfl, rfl⟩
    unfold edited follow
    dsimp only
    split
    · exact quiet_of_kept kept
    · split
      · exact quiet_of_kept kept
      · exact callEffect_request kept (Nat.le_refl _)

theorem restyle_effect (s : Session) (highlighter : Highlighter) :
    CallEffect s (s.restyle highlighter) := rehighlight_effect ⟨rfl, rfl, rfl, rfl⟩

theorem perform_effect (s : Session) (call : HostCall) : CallEffect s (s.perform call) := by
  cases call with
  | replace e text => exact edited_effect s _
  | setAttributes e attributes => exact edited_effect s _
  | setLanguage language =>
    unfold perform setLanguage
    dsimp only
    split
    · exact rehighlight_effect ⟨rfl, rfl, rfl, rfl⟩
    · exact .abandoned rfl rfl rfl rfl
  | setTheme name =>
    have done : s.perform (.setTheme name) =
      (((s.highlighter.withTheme name).map s.restyle).toOption).getD s := rfl
    rw [done]
    cases s.highlighter.withTheme name with
    | error e => exact .quiet rfl rfl rfl
    | ok highlighter => exact restyle_effect s highlighter
  | setFonts code italic bold => exact restyle_effect s _
  | setCodeFont code => exact restyle_effect s _
  | setLineSpacing spacing => exact restyle_effect s _
  | rehighlight => exact rehighlight_effect ⟨rfl, rfl, rfl, rfl⟩

/-- A call issues a job, or it leaves the worker alone. -/
theorem perform_worker (s : Session) (call : HostCall) :
    (s.perform call).worker = s.worker ∨
      ∃ job, Issue s (s.perform call) job ∧ s.worker.phase.isGone = false := by
  cases perform_effect s call with
  | quiet _ worker _ => exact Or.inl worker
  | refused _ _ worker _ => exact Or.inl worker
  | abandoned _ worker _ _ => exact Or.inl worker
  | failed _ _ worker _ _ => exact Or.inl worker
  | issued job issue running _ => exact Or.inr ⟨job, issue, running⟩

theorem token_le_perform (s : Session) (call : HostCall) :
    s.token ≤ (s.perform call).token := by
  cases perform_effect s call with
  | quiet token _ _ => omega
  | refused _ token _ _ => omega
  | abandoned token _ _ _ => omega
  | failed _ token _ _ _ => omega
  | issued _ issue _ _ =>
    have taken := issue.taken
    omega

structure Surroundings (before after : Session) : Prop where
  observer : after.observer = before.observer
  clock : after.clock = before.clock
  engine : after.highlighter.engine = before.highlighter.engine
  buffer : ∃ changes, after.buffer = before.buffer.changeAll changes

theorem surroundings_refl (s : Session) : Surroundings s s := ⟨rfl, rfl, rfl, [], rfl⟩

theorem request_surroundings {before s : Session} (around : Surroundings before s) (e : Extent) :
    Surroundings before (s.request e) := by
  obtain ⟨observer, clock, engine, buffer⟩ := around
  have effect := request_effect s e
  generalize s.request e = after at effect
  cases effect <;> exact ⟨observer, clock, engine, buffer⟩

theorem rehighlight_surroundings {before s : Session} (around : Surroundings before s) :
    Surroundings before s.rehighlight := request_surroundings around _

theorem edited_surroundings (s : Session) {edit : Option (EditRecord × TextBuffer)}
    (changed : ∀ result ∈ edit, ∃ changes, result.2 = s.buffer.changeAll changes) :
    Surroundings s (s.edited edit).2 := by
  cases edit with
  | none => exact surroundings_refl s
  | some edit =>
    obtain ⟨record, buffer⟩ := edit
    have around : Surroundings s { s with buffer } := ⟨rfl, rfl, rfl, changed _ rfl⟩
    unfold edited follow
    dsimp only
    split
    · exact around
    · split
      · exact around
      · exact request_surroundings around _

theorem restyle_surroundings {s : Session} {highlighter : Highlighter}
    (engine : highlighter.engine = s.highlighter.engine) :
    Surroundings s (s.restyle highlighter) := by
  have around : Surroundings s
      { s with
        highlighter
        buffer := s.buffer.withDefaults highlighter.theme.baseAttributes } :=
    ⟨rfl, rfl, engine, [.setDefaults highlighter.theme.baseAttributes], rfl⟩
  exact rehighlight_surroundings around

theorem perform_surroundings (s : Session) (call : HostCall) :
    Surroundings s (s.perform call) := by
  cases call with
  | replace e text =>
    refine edited_surroundings s fun result done => ⟨[.replace e text], ?_⟩
    have done : s.buffer.replace e text = some result := done
    simp [TextBuffer.changeAll, TextBuffer.change, done]
  | setAttributes e attributes =>
    refine edited_surroundings s fun result done => ⟨[.setAttributes e attributes], ?_⟩
    have done : s.buffer.setAttributes e attributes = some result := done
    simp [TextBuffer.changeAll, TextBuffer.change, done]
  | setLanguage language =>
    unfold perform setLanguage
    dsimp only
    split
    · next language _ =>
      have around : Surroundings s { s with language := some language } := ⟨rfl, rfl, rfl, [], rfl⟩
      exact rehighlight_surroundings around
    · exact ⟨rfl, rfl, rfl, [], rfl⟩
  | setTheme name =>
    have done : s.perform (.setTheme name) =
      (((s.highlighter.withTheme name).map s.restyle).toOption).getD s := rfl
    rw [done]
    cases loaded : s.highlighter.withTheme name with
    | error e => exact surroundings_refl s
    | ok highlighter =>
      apply restyle_surroundings
      unfold Highlighter.withTheme at loaded
      cases source : s.highlighter.assets.load name with
      | error e =>
        rw [source] at loaded
        cases loaded
      | ok source' =>
        rw [source] at loaded
        cases loaded
        rfl
  | setFonts code italic bold => exact restyle_surroundings rfl
  | setCodeFont code => exact restyle_surroundings rfl
  | setLineSpacing spacing => exact restyle_surroundings rfl
  | rehighlight => exact rehighlight_surroundings (surroundings_refl s)

/- Results. -/

theorem apply_stale {s : Session} {r : PassResult} (old : r.job.token ≠ s.token) :
    s.apply r = s := if_pos old

theorem apply_rejected {s : Session} {r : PassResult} (newest : r.job.token = s.token)
    (unfit : ∀ t, r.outcome = .ok t → s.matchesText r.job t = false) :
    s.apply r = { s with notices := s.notices ++ s.told (.reported r.job.extent false) } := by
  unfold apply
  rw [if_neg (not_not.mpr newest)]
  cases done : r.outcome with
  | error e => exact notify_eq s _
  | ok t =>
    dsimp only
    rw [unfit t done, if_neg Bool.false_ne_true]
    exact notify_eq s _

theorem apply_painted {s : Session} {r : PassResult} {t : AttributedText}
    (newest : r.job.token = s.token) (done : r.outcome = .ok t)
    (fit : s.matchesText r.job t = true) :
    s.apply r =
      { s with
        buffer := s.painted r.job t.runs
        notices := s.notices ++ s.told (.reported r.job.extent true) } := by
  unfold apply
  rw [if_neg (not_not.mpr newest), done]
  dsimp only
  rw [if_pos fit]
  exact notify_eq _ _

inductive ResultEffect (s : Session) (r : PassResult) : Session → Prop
  | stale (old : r.job.token ≠ s.token) : ResultEffect s r s
  | rejected (newest : r.job.token = s.token)
      (unfit : ∀ t, r.outcome = .ok t → s.matchesText r.job t = false) :
      ResultEffect s r
        { s with notices := s.notices ++ s.told (.reported r.job.extent false) }
  | painted {t : AttributedText} (newest : r.job.token = s.token) (done : r.outcome = .ok t)
      (fit : s.matchesText r.job t = true) :
      ResultEffect s r
        { s with
          buffer := s.painted r.job t.runs
          notices := s.notices ++ s.told (.reported r.job.extent true) }

theorem apply_effect (s : Session) (r : PassResult) : ResultEffect s r (s.apply r) := by
  by_cases newest : r.job.token = s.token
  · by_cases fit : ∃ t, r.outcome = .ok t ∧ s.matchesText r.job t = true
    · obtain ⟨t, done, fit⟩ := fit
      rw [apply_painted newest done fit]
      exact .painted newest done fit
    · have unfit : ∀ t, r.outcome = .ok t → s.matchesText r.job t = false :=
        fun t done => Bool.eq_false_iff.mpr fun matching => fit ⟨t, done, matching⟩
      rw [apply_rejected newest unfit]
      exact .rejected newest unfit
  · rw [apply_stale newest]
    exact .stale newest

theorem apply_withResults (s : Session) (r : PassResult) (results : List PassResult) :
    (s.withResults results).apply r = (s.apply r).withResults results := by
  have effect := apply_effect s r
  generalize s.apply r = after at effect
  cases effect with
  | stale old => exact apply_stale (s := s.withResults results) old
  | rejected newest unfit => exact apply_rejected (s := s.withResults results) newest unfit
  | painted newest done fit => exact apply_painted (s := s.withResults results) newest done fit

theorem foldl_apply (results : List PassResult) (s : Session) :
    results.foldl apply (s.withResults []) =
      (s.withResults results).run (List.replicate results.length .read) := by
  induction results generalizing s with
  | nil => rfl
  | cons r rest ih =>
    have first : (s.withResults (r :: rest)).turn .read = (s.apply r).withResults rest := by
      rw [turn_read rfl]
      exact apply_withResults s r rest
    rw [List.foldl_cons, apply_withResults, ih, List.length_cons, List.replicate_succ, run, run,
      List.foldl_cons, first]

theorem applyReady_eq_run (s : Session) :
    s.applyReady.2 = s.run (List.replicate s.applyReady.1 .read) :=
  foldl_apply s.worker.results s

end Session

end SyntaxPaint
