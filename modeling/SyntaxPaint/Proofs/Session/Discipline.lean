import SyntaxPaint.Proofs.Session.Freshness
import SyntaxPaint.Proofs.Session.Line
import SyntaxPaint.Proofs.Session.Orderly

/-!
When the engine is called, and with what, in every workplace; and why that is about sessions: what
a session does to its worker is a run of a workplace, and the jobs in it are those of the calls.
-/
namespace SyntaxPaint.Workplace

/-- A workplace in which the worker, the token and the time are those of a session after a history,
and every job was issued by a call of that history. -/
structure Mirrors (before : Session) (turns : List Turn) (w : Workplace) (s : Session) : Prop where
  worker : w.worker = s.worker
  token : w.token = s.token
  clock : w.clock = s.clock
  arrived : w.onTheWay = []
  origin : ∀ job ∈ w.issued, Session.Origin before turns job

theorem run_request (engine : Engine) {w : Workplace} {job : Job} (free : w.onTheWay = [])
    (past : ∀ other ∈ w.issued, other.token ≤ w.token) (token : job.token = w.token + 1)
    (moment : job.issued = w.clock) :
    w.run engine [.bump, .issue job.extent job.language job.snapshot job.theme, .arrive] =
      { w with
        worker := w.worker.enqueue job
        token := w.token + 1
        issued := w.issued ++ [job] } := by
  have fresh : w.issued.all (·.token < w.token + 1) = true := by
    rw [List.all_eq_true]
    intro other member
    have older := past other member
    rw [decide_eq_true_eq]
    omega
  obtain ⟨_, extent, language, snapshot, theme, _⟩ := job
  obtain rfl : _ = w.token + 1 := token
  obtain rfl : _ = w.clock := moment
  show (issue { w with token := w.token + 1 } extent language snapshot theme).arrive = _
  rw [issue, if_pos fresh]
  simp only [arrive, free, List.nil_append]

theorem turn_read_frame (s : Session) :
    (s.turn .read).worker = { s.worker with results := s.worker.results.tail } ∧
      (s.turn .read).token = s.token ∧ (s.turn .read).clock = s.clock := by
  cases unread : s.worker.results with
  | nil =>
    rw [Session.turn_read_nothing unread]
    refine ⟨?_, rfl, rfl⟩
    rw [List.tail_nil, ← unread]
  | cons r rest =>
    have effect := Session.apply_effect (s.withResults rest) r
    rw [Session.turn_read unread]
    generalize (s.withResults rest).apply r = after at effect
    cases effect <;> exact ⟨rfl, rfl, rfl⟩

theorem mirrors_call {engine : Engine} {before s : Session} {turns : List Turn} {w : Workplace}
    (mirrors : Mirrors before turns w s) (here : s = before.run turns)
    (past : ∀ job ∈ w.issued, job.token ≤ w.token) (call : HostCall) :
    ∃ events, Mirrors before (turns ++ [.call call]) (w.run engine events) (s.perform call) := by
  obtain ⟨worker, token, clock, arrived, origin⟩ := mirrors
  have moment := (Session.perform_surroundings s call).clock
  have origin : ∀ job ∈ w.issued, Session.Origin before (turns ++ [.call call]) job :=
    fun job member => Session.origin_append (origin job member) _
  have quiet (token' : (s.perform call).token = s.token)
      (worker' : (s.perform call).worker = s.worker) :
      ∃ events, Mirrors before (turns ++ [.call call]) (w.run engine events) (s.perform call) :=
    ⟨[], worker.trans worker'.symm, token.trans token'.symm, clock.trans moment.symm, arrived,
      origin⟩
  have bumped (token' : (s.perform call).token = s.token + 1)
      (worker' : (s.perform call).worker = s.worker) :
      ∃ events, Mirrors before (turns ++ [.call call]) (w.run engine events) (s.perform call) := by
    refine ⟨[.bump], worker.trans worker'.symm, ?_, clock.trans moment.symm, arrived, origin⟩
    rw [token', ← token]
    rfl
  cases Session.perform_effect s call with
  | quiet token' worker' _ => exact quiet token' worker'
  | refused _ token' worker' _ => exact quiet token' worker'
  | abandoned token' worker' _ _ => exact bumped token' worker'
  | failed _ token' worker' _ _ => exact bumped token' worker'
  | issued job issue _ _ =>
    have ahead : job.token = w.token + 1 := by rw [issue.token, issue.taken, token]
    have now : job.issued = w.clock := by rw [issue.moment, moment, clock]
    refine ⟨[.bump, .issue job.extent job.language job.snapshot job.theme, .arrive], ?_⟩
    rw [run_request engine arrived past ahead now]
    constructor
    case worker => rw [issue.enqueued, worker]
    case token => rw [issue.taken, token]
    case clock => exact clock.trans moment.symm
    case arrived => exact arrived
    case origin =>
      intro other member
      rcases List.mem_append.mp member with earlier | last
      · exact origin other earlier
      · obtain rfl := List.mem_singleton.mp last
        rw [here] at issue
        exact ⟨turns, call, [], rfl, issue⟩

theorem mirrors_turn {engine : Engine} {before s : Session} {turns : List Turn} {w : Workplace}
    (mirrors : Mirrors before turns w s) (here : s = before.run turns)
    (past : ∀ job ∈ w.issued, job.token ≤ w.token) (same : s.highlighter.engine = engine)
    (t : Turn) : ∃ events, Mirrors before (turns ++ [t]) (w.run engine events) (s.turn t) := by
  have origin : ∀ job ∈ w.issued, Session.Origin before (turns ++ [t]) job :=
    fun job member => Session.origin_append (mirrors.origin job member) t
  cases t with
  | call call => exact mirrors_call mirrors here past call
  | work move =>
    have moved : s.turn (.work move) = (s.work? move).getD s := rfl
    have worked : w.run engine [.work move] = w.work engine move := rfl
    refine ⟨[.work move], ?_⟩
    rw [moved, worked, Session.work?, work, same, mirrors.worker, mirrors.token, mirrors.clock]
    cases s.worker.step? engine s.token s.clock move with
    | none => exact { mirrors with origin }
    | some worker => exact ⟨rfl, rfl, rfl, mirrors.arrived, origin⟩
  | read =>
    obtain ⟨worker, token, clock⟩ := turn_read_frame s
    refine ⟨[.collect], ?_, mirrors.token.trans token.symm, mirrors.clock.trans clock.symm,
      mirrors.arrived, origin⟩
    rw [worker, ← mirrors.worker]
    rfl
  | wait moment =>
    refine ⟨[.wait moment], mirrors.worker, mirrors.token, ?_, mirrors.arrived, origin⟩
    show max w.clock moment = max s.clock moment
    rw [mirrors.clock]

theorem exists_mirror (highlighter : Highlighter) (debounce : Nat) (observer : Option Observer)
    (turns : List Turn) :
    ∃ events, Mirrors (.start highlighter debounce observer) turns
      ((start debounce).run highlighter.engine events)
      ((Session.start highlighter debounce observer).run turns) := by
  have both : ((Session.start highlighter debounce observer).run turns).highlighter.engine =
      highlighter.engine ∧
        ∃ events, Mirrors (.start highlighter debounce observer) turns
          ((start debounce).run highlighter.engine events)
          ((Session.start highlighter debounce observer).run turns) := by
    refine Session.run_invariant (fun turns s => s.highlighter.engine = highlighter.engine ∧
      ∃ events, Mirrors _ turns ((start debounce).run highlighter.engine events) s) ?_ ?_ turns
    · refine ⟨rfl, [], rfl, rfl, rfl, rfl, ?_⟩
      intro job member
      cases member
    · rintro turns t ⟨same, events, mirrors⟩
      have past := (orderly_run highlighter.engine debounce events).past
      obtain ⟨more, mirrors'⟩ := mirrors_turn mirrors rfl past same t
      refine ⟨(Session.engine_turn _ t).trans same, events ++ more, ?_⟩
      rw [run_append]
      exact mirrors'
  exact both.2

/-- Calls of the engine: one for each token at most, in the order of the tokens, for jobs that have
been issued, not before their deadlines, and each one the newest at the check before its call. -/
structure Disciplined (debounce : Nat) (w : Workplace) : Prop where
  ascending : (w.calls.map (·.job.token)).Pairwise (· < ·)
  issued : ∀ c ∈ w.calls, c.job ∈ w.issued
  due : ∀ c ∈ w.calls, c.job.issued + debounce ≤ c.moment
  newest : ∀ c ∈ w.calls, c.newest = c.job.token

theorem disciplined_of_orderly {debounce : Nat} {w : Workplace} (orderly : Orderly debounce w) :
    Disciplined debounce w where
  ascending := by
    have ascending := orderly.ascending
    rw [line, List.map_append, List.pairwise_append, List.map_map] at ascending
    exact ascending.1
  issued := by
    intro c called
    exact orderly.known c.job (List.mem_append_left _ (List.mem_map_of_mem called))
  due := by
    intro c called
    exact (orderly.due c called).1
  newest := orderly.newest

/-- Whatever happens around a worker, the engine is called as it should be. A job that is superseded
by its deadline is not called, unless that is its deadline and the check came first at that very
time. The log has all that the engine was asked, and the worker of a session is in a workplace. -/
theorem engine_calls_disciplined (engine : Engine) (debounce : Nat) :
    (∀ events, let w := (start debounce).run engine events
      Disciplined debounce w ∧
        (∀ before after job, events = before ++ .bump :: after →
          let superseded := (start debounce).run engine before
          job ∈ superseded.issued → superseded.clock ≤ job.issued + debounce →
            (∀ c ∈ w.calls, c.job = job → c ∈ superseded.calls ∧
              c.moment = superseded.clock ∧ superseded.clock = job.issued + debounce) ∧
            ((superseded.clock < job.issued + debounce ∨
              ∀ c ∈ superseded.calls, c.moment < superseded.clock) →
                ∀ c ∈ w.calls, c.job ≠ job)) ∧
        ∀ other, Agree engine other w.calls → (start debounce).run other events = w) ∧
      ∀ highlighter observer turns, highlighter.engine = engine →
        ∃ events, Mirrors (.start highlighter debounce observer) turns
          ((start debounce).run engine events)
          ((Session.start highlighter debounce observer).run turns) := by
  constructor
  · intro events w
    refine ⟨disciplined_of_orderly (orderly_run engine debounce events), ?_,
      fun other agree => run_congr debounce events agree⟩
    rintro before after job split superseded issued early
    have late : ∀ c ∈ w.calls, c.job = job → c ∈ superseded.calls ∧
        c.moment = superseded.clock ∧ superseded.clock = job.issued + debounce := by
      intro c called same
      have called : c ∈ ((start debounce).run engine (before ++ .bump :: after)).calls := by
        rw [← split]
        exact called
      have already := called_before_bump issued c called same
      obtain ⟨due, past⟩ := (orderly_run engine debounce before).due c already
      rw [same] at due
      have due : job.issued + debounce ≤ c.moment := due
      have past : c.moment ≤ superseded.clock := past
      exact ⟨already, by omega, by omega⟩
    refine ⟨late, ?_⟩
    intro apart c called same
    obtain ⟨already, now, tie⟩ := late c called same
    rcases apart with earlier | behind
    · omega
    · have := behind c already
      omega
  · intro highlighter observer turns same
    rw [← same]
    exact exists_mirror highlighter debounce observer turns

theorem engine_calls_disciplined_burst :
    let theme : Theme := .standard []
    let engine : Engine := .constant ['c'] (.error (.engine []))
    let other : Engine := .forLanguage ['c'] fun _ _ source =>
      .error (if source.length = 1 then .breakdown else .engine [])
    let before : List Event :=
      [.bump, .issue ⟨0, 1⟩ ['c'] ['a'] theme, .arrive, .work .receive, .work .settle, .wait 100]
    let events := before ++ .bump ::
      [.issue ⟨0, 2⟩ ['c'] ['a', 'b'] theme, .arrive, .work .adopt, .wait 400, .work .check,
        .work .answer]
    let w := (start 300).run engine events
    w.calls.map (fun c => (c.job.token, c.newest, c.moment)) = [(2, 2, 400)] ∧
      Disciplined 300 w ∧ (∀ c ∈ w.calls, c.job ≠ ⟨1, ⟨0, 1⟩, ['c'], ['a'], theme, 0⟩) ∧
      (start 300).run other events = w := by
  intro theme engine other before events w
  obtain ⟨disciplined, superseded, complete⟩ := (engine_calls_disciplined engine 300).1 events
  have times : w.calls.map (fun c => (c.job.token, c.newest, c.moment)) = [(2, 2, 400)] := by
    decide +kernel
  have texts : w.calls.map (·.job.snapshot) = [['a', 'b']] := by decide +kernel
  have early : ((start 300).run engine before).clock < 0 + 300 := by decide +kernel
  have older := superseded before _ ⟨1, ⟨0, 1⟩, ['c'], ['a'], theme, 0⟩ rfl
    (List.mem_singleton.mpr rfl) (Nat.le_of_lt early)
  have agree : Agree engine other w.calls := by
    intro n c called
    have text : c.job.snapshot ∈ w.calls.map (·.job.snapshot) :=
      List.mem_map_of_mem (List.mem_of_getElem? called)
    rw [texts, List.mem_singleton] at text
    rw [text]
    rfl
  exact ⟨times, disciplined, older.2 (Or.inl early), complete other agree⟩

/-- At its deadline a job is checked and called, and superseded at that very time. -/
theorem superseded_at_deadline_called :
    let theme : Theme := .standard []
    let engine : Engine := .constant ['c'] (.ok ['a'])
    let job : Job := ⟨1, ⟨0, 1⟩, ['c'], ['a'], theme, 0⟩
    let before : List Event := [.bump, .issue job.extent job.language job.snapshot theme, .arrive,
      .work .receive, .work .settle, .wait 300, .work .check]
    let superseded := (start 300).run engine before
    let w := (start 300).run engine (before ++ [.bump])
    job ∈ superseded.issued ∧ superseded.clock ≤ job.issued + 300 ∧
      ¬ ∀ c ∈ w.calls, c.job ≠ job := by
  intro theme engine job before superseded w
  have issued : superseded.issued = [job] := rfl
  have calls : w.calls = [⟨job, 1, 300⟩] := rfl
  refine ⟨?_, by decide, ?_⟩
  · rw [issued]
    exact List.mem_cons_self
  · intro uncalled
    rw [calls] at uncalled
    exact uncalled _ List.mem_cons_self rfl

end SyntaxPaint.Workplace
