import SyntaxPaint.Proofs.Session.Line

/-!
A worker that breaks down takes nothing with it. Whatever it has finished and nobody has read was
asked for before the pass that it dies of, so it can never be the newest again; whatever is asked
for later fails at once. What is left is the buffer with the edits of its owner
(`breakdown_fail_safe`).
-/
namespace SyntaxPaint

inductive Deed where
  | turn (turn : Turn)
  | observe (observer : Option Observer)

namespace Deed

def call? : Deed → Option HostCall
  | .turn (.call call) => some call
  | _ => none

theorem call_or_between (d : Deed) : (∃ call, d = .turn (.call call)) ∨ d.call? = none := by
  cases d with
  | turn t =>
    cases t with
    | call call => exact Or.inl ⟨call, rfl⟩
    | _ => exact Or.inr rfl
  | observe observer => exact Or.inr rfl

end Deed

namespace Session

def deed (s : Session) : Deed → Session
  | .turn t => s.turn t
  | .observe observer => s.setObserver observer

def acts (s : Session) (deeds : List Deed) : Session := deeds.foldl deed s

theorem acts_cons (s : Session) (d : Deed) (deeds : List Deed) :
    s.acts (d :: deeds) = (s.deed d).acts deeds := rfl

theorem acts_invariant (holds : Session → Prop) (step : ∀ s d, holds s → holds (s.deed d))
    {s : Session} (start : holds s) (deeds : List Deed) : holds (s.acts deeds) := by
  induction deeds generalizing s with
  | nil => exact start
  | cons d deeds ih => exact ih (step s d start)

theorem lined_acts (highlighter : Highlighter) (debounce : Nat) (observer : Option Observer)
    (deeds : List Deed) : Lined ((start highlighter debounce observer).acts deeds) := by
  refine acts_invariant Lined ?_ (lined_run highlighter debounce observer []) deeds
  intro s d lined
  cases d with
  | turn t => exact lined_turn lined t
  | observe observer => exact ⟨lined.order, lined.bound⟩

theorem engine_acts (s : Session) (deeds : List Deed) :
    (s.acts deeds).highlighter.engine = s.highlighter.engine := by
  refine acts_invariant (fun after => after.highlighter.engine = s.highlighter.engine) ?_ rfl deeds
  intro after d same
  cases d with
  | turn t => exact (engine_turn after t).trans same
  | observe observer => exact same

/- A session without a worker. -/

/-- The worker is gone, and no result that it has left is of the newest request. -/
structure Dead (s : Session) : Prop where
  gone : s.worker.phase = .gone
  past : ∀ r ∈ s.worker.results, r.job.token < s.token

theorem Dead.isGone {s : Session} (dead : Dead s) : s.worker.phase.isGone = true := by
  rw [dead.gone]
  rfl

theorem foldl_stale {s : Session} {results : List PassResult}
    (old : ∀ r ∈ results, r.job.token ≠ s.token) : results.foldl apply s = s := by
  induction results with
  | nil => rfl
  | cons r rest ih =>
    rw [List.foldl_cons, apply_stale (old r List.mem_cons_self)]
    exact ih fun r' member => old r' (List.mem_cons_of_mem r member)

theorem dead_work {s : Session} (dead : Dead s) (move : Move) : s.turn (.work move) = s := by
  have stuck : s.worker.step? s.highlighter.engine s.token s.clock move = none := by
    cases move <;> simp [Worker.step?, dead.gone]
  have moved : s.turn (.work move) = (s.work? move).getD s := rfl
  rw [moved, work?, stuck]
  rfl

theorem dead_read {s : Session} (dead : Dead s) :
    s.turn .read = s.withResults s.worker.results.tail := by
  cases unread : s.worker.results with
  | nil =>
    rw [turn_read_nothing unread, List.tail_nil, ← unread]
    rfl
  | cons r rest =>
    have old : r.job.token < s.token := dead.past r (by rw [unread]; exact List.mem_cons_self)
    rw [turn_read unread, List.tail_cons]
    exact apply_stale (s := s.withResults rest) (Nat.ne_of_lt old)

theorem dead_applyReady {s : Session} (dead : Dead s) :
    s.applyReady = (s.worker.results.length, s.withResults []) := by
  have old : ∀ r ∈ s.worker.results, r.job.token ≠ s.token :=
    fun r unread => Nat.ne_of_lt (dead.past r unread)
  exact congrArg (s.worker.results.length, ·) (foldl_stale (s := s.withResults []) old)

structure Unmoved (before after : Session) : Prop where
  buffer : after.buffer = before.buffer
  highlighter : after.highlighter = before.highlighter
  notices : after.notices = before.notices
  token : after.token = before.token
  phase : after.worker.phase = before.worker.phase
  results : after.worker.results ⊆ before.worker.results

theorem unmoved_between {s : Session} (dead : Dead s) {d : Deed} (between : d.call? = none) :
    Unmoved s (s.deed d) := by
  have still : Unmoved s s := ⟨rfl, rfl, rfl, rfl, rfl, List.Subset.refl _⟩
  cases d with
  | turn t =>
    cases t with
    | call call => cases between
    | work move =>
      have same : s.deed (.turn (.work move)) = s := dead_work dead move
      rwa [same]
    | read =>
      have shorter : s.deed (.turn .read) = s.withResults s.worker.results.tail := dead_read dead
      rw [shorter]
      exact ⟨rfl, rfl, rfl, rfl, rfl, (List.tail_sublist _).subset⟩
    | wait moment => exact ⟨rfl, rfl, rfl, rfl, rfl, List.Subset.refl _⟩
  | observe observer => exact ⟨rfl, rfl, rfl, rfl, rfl, List.Subset.refl _⟩

structure Lapsed (before after : Session) (call : HostCall) : Prop where
  buffer : after.buffer = before.buffer.changeAll (call.changes before.highlighter)
  highlighter : after.highlighter = (call.restyled? before.highlighter).getD before.highlighter
  language : after.language = call.chosen before.language
  worker : after.worker = before.worker
  pass : ∀ e, before.region? call = some e → after.language ≠ none → e.start < e.stop →
    if before.consents e then
      after.token = before.token + 1 ∧
        after.notices =
          before.notices ++ before.told (.asked e) ++ before.told (.reported e false)
    else
      after.token = before.token ∧ after.notices = before.notices ++ before.told (.asked e)
  nothing : (∀ e, before.region? call = some e → after.language = none ∨ e.stop ≤ e.start) →
    after.token = (if call.turnsOff then before.token + 1 else before.token) ∧
      after.notices = before.notices

theorem lapsed_call {s : Session} (dead : Dead s) (call : HostCall) :
    Lapsed s (s.perform call) call := by
  have alike := perform_alike s call
  constructor
  case buffer => exact alike.buffer
  case highlighter => exact alike.highlighter
  case language => exact alike.language
  case worker =>
    rcases perform_worker s call with worker | ⟨_, _, running⟩
    · exact worker
    · rw [dead.isGone] at running
      cases running
  case pass =>
    intro e region chosen order
    rw [alike.language] at chosen
    obtain ⟨language, named⟩ := Option.ne_none_iff_exists'.mp chosen
    have token := token_prepare chosen
    rw [perform_asked region]
    split
    · next agreed =>
      rw [request_failed named order agreed dead.isGone]
      exact ⟨congrArg (· + 1) token, rfl⟩
    · next refused =>
      rw [request_refused named order (Bool.eq_false_iff.mpr refused)]
      exact ⟨token, rfl⟩
  case nothing =>
    intro nothing
    rw [alike.language] at nothing
    rw [perform_unasked nothing]
    exact ⟨rfl, rfl⟩

/- After any deeds. -/

/-- No token is taken back and no notice is withdrawn, and none of the new ones is of a success. -/
structure Onward (before after : Session) : Prop where
  token : before.token ≤ after.token
  notices : ∃ since, after.notices = before.notices ++ since ∧ ∀ e, .reported e true ∉ since

theorem onward_of_same {before after : Session} (token : before.token ≤ after.token)
    (notices : after.notices = before.notices) : Onward before after :=
  ⟨token, [], by rw [notices, List.append_nil], fun _ member => by cases member⟩

theorem onward_trans {s before after : Session} (first : Onward s before)
    (second : Onward before after) : Onward s after := by
  obtain ⟨token, since, notices, silent⟩ := first
  obtain ⟨token', since', notices', silent'⟩ := second
  refine ⟨Nat.le_trans token token', since ++ since', ?_, ?_⟩
  · rw [notices', notices, List.append_assoc]
  · intro e member
    rcases List.mem_append.mp member with earlier | later
    · exact silent e earlier
    · exact silent' e later

theorem eq_of_mem_told {s : Session} {notice other : Notice} (member : other ∈ s.told notice) :
    other = notice := by
  unfold told at member
  split at member
  · exact List.mem_singleton.mp member
  · cases member

theorem onward_call {s : Session} (dead : Dead s) (call : HostCall) :
    Onward s (s.perform call) := by
  cases perform_effect s call with
  | quiet token _ notices => exact onward_of_same (Nat.le_of_eq token.symm) notices
  | abandoned token _ _ notices => exact onward_of_same (by omega) notices
  | refused e token _ notices =>
    refine ⟨Nat.le_of_eq token.symm, _, notices, ?_⟩
    intro e' member
    cases eq_of_mem_told member
  | failed e token _ _ notices =>
    rw [List.append_assoc] at notices
    refine ⟨by omega, _, notices, ?_⟩
    intro e' member
    rcases List.mem_append.mp member with asked | reported
    · cases eq_of_mem_told asked
    · cases eq_of_mem_told reported
  | issued _ _ running _ =>
    rw [dead.isGone] at running
    cases running

theorem onward_deed {s : Session} (dead : Dead s) (d : Deed) : Onward s (s.deed d) := by
  rcases d.call_or_between with ⟨call, rfl⟩ | between
  · exact onward_call dead call
  · have unmoved := unmoved_between dead between
    exact onward_of_same (Nat.le_of_eq unmoved.token.symm) unmoved.notices

theorem dead_deed {s : Session} (dead : Dead s) (d : Deed) : Dead (s.deed d) := by
  rcases d.call_or_between with ⟨call, rfl⟩ | between
  · have worker : (s.perform call).worker = s.worker := (lapsed_call dead call).worker
    have token := token_le_perform s call
    constructor
    case gone => exact worker ▸ dead.gone
    case past =>
      intro r member
      have unread : r ∈ s.worker.results := worker ▸ member
      exact Nat.lt_of_lt_of_le (dead.past r unread) token
  · have unmoved := unmoved_between dead between
    constructor
    case gone => exact unmoved.phase.trans dead.gone
    case past =>
      intro r member
      rw [unmoved.token]
      exact dead.past r (unmoved.results member)

theorem dead_acts {s : Session} (dead : Dead s) (deeds : List Deed) : Dead (s.acts deeds) :=
  acts_invariant Dead (fun _ d dead => dead_deed dead d) dead deeds

theorem onward_acts {s : Session} (dead : Dead s) (deeds : List Deed) :
    Onward s (s.acts deeds) := by
  induction deeds generalizing s with
  | nil => exact onward_of_same (Nat.le_refl _) rfl
  | cons d deeds ih => exact onward_trans (onward_deed dead d) (ih (dead_deed dead d))

def changes (h : Highlighter) : List Deed → List BufferChange
  | [] => []
  | .turn (.call call) :: later => call.changes h ++ changes ((call.restyled? h).getD h) later
  | _ :: later => changes h later

theorem changes_between {d : Deed} (between : d.call? = none) (h : Highlighter)
    (later : List Deed) : changes h (d :: later) = changes h later := by
  cases d with
  | turn t =>
    cases t with
    | call call => cases between
    | _ => rfl
  | observe observer => rfl

theorem buffer_acts {s : Session} (dead : Dead s) (deeds : List Deed) :
    (s.acts deeds).buffer = s.buffer.changeAll (changes s.highlighter deeds) := by
  induction deeds generalizing s with
  | nil => rfl
  | cons d deeds ih =>
    rw [acts_cons, ih (dead_deed dead d)]
    rcases d.call_or_between with ⟨call, rfl⟩ | between
    · have lapsed := lapsed_call dead call
      have done : s.deed (.turn (.call call)) = s.perform call := rfl
      rw [done, lapsed.buffer, lapsed.highlighter, changes, TextBuffer.changeAll,
        TextBuffer.changeAll, TextBuffer.changeAll, List.foldl_append]
    · have unmoved := unmoved_between dead between
      rw [unmoved.buffer, unmoved.highlighter, changes_between between]

/- The breakdown. -/

theorem phase_of_call? {s : Session} {job : Job} (calling : s.call? = some job) :
    s.worker.phase = .calling job := by
  unfold call? at calling
  split at calling
  · next held => rw [held, Option.some.inj calling]
  · cases calling

theorem dead_of_breakdown {s : Session} (lined : Lined s) {job : Job}
    (calling : s.call? = some job)
    (panics : s.highlighter.engine.reply s.worker.calls (some job.language) job.snapshot =
      .error .breakdown) :
    s.turn (.work .answer) =
        { s with
          worker := { s.worker with phase := .gone, queue := [], calls := s.worker.calls + 1 } } ∧
      Dead (s.turn (.work .answer)) := by
  have broken : job.run s.highlighter.engine s.worker.calls = .error .breakdown := by
    rw [Job.run, panics]
    rfl
  have held := phase_of_call? calling
  have died : s.turn (.work .answer) =
      { s with
        worker := { s.worker with phase := .gone, queue := [], calls := s.worker.calls + 1 } } := by
    have moved : s.turn (.work .answer) = (s.work? .answer).getD s := rfl
    rw [moved, work?, Worker.step?, held]
    dsimp only
    rw [broken]
    rfl
  refine ⟨died, ?_⟩
  rw [died]
  constructor
  case gone => rfl
  case past =>
    intro r unread
    have line : s.worker.line = s.worker.results.map (·.job) ++ job :: s.worker.queue := by
      simp [Worker.line, held, Phase.job?]
    -- what is finished stands before the pass under way in the line
    have older : r.job.token < job.token := by
      have order := lined.order
      unfold Chronicle.Ascending at order
      rw [line, List.map_append, List.pairwise_append] at order
      exact order.2.2 _ (List.mem_map_of_mem (List.mem_map_of_mem unread)) _
        (List.mem_map_of_mem List.mem_cons_self)
    have newest := lined.bound job (by rw [line]; simp)
    exact Nat.lt_of_lt_of_le older newest

/-- What holds after any later deeds of a session whose worker is dead. -/
structure FailSafe (dead : Session) (later : List Deed) (now : Session) : Prop where
  buffer : now.buffer = dead.buffer.changeAll (changes dead.highlighter later)
  replaced : ∀ e text, (now.replace e text).1 =
    ((dead.buffer.changeAll (changes dead.highlighter later)).replace e text).map (·.1)
  attributed : ∀ e attributes, (now.setAttributes e attributes).1 =
    ((dead.buffer.changeAll (changes dead.highlighter later)).setAttributes e attributes).map (·.1)
  onward : Onward dead now
  past : ∀ r ∈ now.worker.results, r.job.token < now.token
  between : ∀ d : Deed, d.call? = none → Unmoved now (now.deed d)
  ready : now.applyReady = (now.worker.results.length, now.withResults [])
  wait : ∀ deadline, now.waitAndApply? deadline = some now.applyReady
  calls : ∀ call, Lapsed now (now.perform call) call

theorem record_edited (s : Session) (edit : Option (EditRecord × TextBuffer)) :
    (s.edited edit).1 = edit.map (·.1) := by
  cases edit <;> rfl

theorem failSafe_acts {dead : Session} (gone : Dead dead) (later : List Deed) :
    FailSafe dead later (dead.acts later) := by
  have still := dead_acts gone later
  have buffer := buffer_acts gone later
  constructor
  case buffer => exact buffer
  case replaced =>
    intro e text
    rw [← buffer]
    exact record_edited _ _
  case attributed =>
    intro e attributes
    rw [← buffer]
    exact record_edited _ _
  case onward => exact onward_acts gone later
  case past => exact still.past
  case between => exact fun d between => unmoved_between still between
  case ready => exact dead_applyReady still
  case wait =>
    intro deadline
    unfold waitAndApply?
    rw [still.isGone]
    simp
  case calls => exact lapsed_call still

/-- The engine breaks down in a call, whatever has led to it, and anything may follow. From then on
the buffer is what the same edits make of it without a session, and no result changes it or is
reported as a success. A pass that is asked for takes a token and is reported as a failure, once and
at once, unless the observer refuses it, and nobody waits for results in vain. -/
theorem breakdown_fail_safe (highlighter : Highlighter) (debounce : Nat)
    (observer : Option Observer) (earlier : List Deed) {s : Session}
    (reached : s = (start highlighter debounce observer).acts earlier) {job : Job}
    (calling : s.call? = some job)
    (panics : highlighter.engine.reply s.worker.calls (some job.language) job.snapshot =
      .error .breakdown) (later : List Deed) :
    let dead := s.turn (.work .answer)
    dead = { s with
        worker := { s.worker with phase := .gone, queue := [], calls := s.worker.calls + 1 } } ∧
      FailSafe dead later (dead.acts later) := by
  have lined : Lined s := by
    rw [reached]
    exact lined_acts highlighter debounce observer earlier
  have engine : s.highlighter.engine = highlighter.engine := by
    rw [reached]
    exact engine_acts _ earlier
  rw [← engine] at panics
  obtain ⟨died, gone⟩ := dead_of_breakdown lined calling panics
  exact ⟨died, failSafe_acts gone later⟩

theorem breakdown_fail_safe_unread :
    let language := "plain".toList
    let engine : Engine := .inTurn language (.constant language (.ok ['a']))
      [.constant language (.error .breakdown)]
    let earlier : List Turn := [.call (.replace ⟨0, 0⟩ ['a']), .call (.setLanguage (some language)),
      .work .receive, .work .settle, .work .check, .work .answer, .call .rehighlight,
      .work .receive, .work .settle, .work .check]
    let highlighter : Highlighter := ⟨engine, .bundled, .standard []⟩
    let s := (start highlighter 0 (some .willing)).acts (earlier.map .turn)
    let dead := s.turn (.work .answer)
    let later : List Deed := [.turn .read, .turn (.call (.replace ⟨1, 1⟩ ['b']))]
    s.worker.results.map (·.job.token) = [1] ∧ FailSafe dead later (dead.acts later) ∧
      (dead.acts later).buffer.text = ['a', 'b'] ∧ (dead.acts later).token = 3 ∧
      (dead.acts later).notices = s.notices ++ [.asked ⟨0, 2⟩, .reported ⟨0, 2⟩ false] := by
  intro language engine earlier highlighter s dead later
  have course : s.worker.results.map (·.job.token) = [1] ∧
      (dead.acts later).buffer.text = ['a', 'b'] ∧ (dead.acts later).token = 3 ∧
      (dead.acts later).notices = s.notices ++ [.asked ⟨0, 2⟩, .reported ⟨0, 2⟩ false] := by
    decide +kernel
  have second : s.call?.isSome = true ∧ s.worker.calls = 1 := by decide +kernel
  obtain ⟨called, count⟩ := second
  obtain ⟨job, calling⟩ := Option.isSome_iff_exists.mp called
  have panics : highlighter.engine.reply s.worker.calls (some job.language) job.snapshot =
      .error .breakdown := by
    rw [count]
    rfl
  have reached : s = (start highlighter 0 (some .willing)).acts (earlier.map .turn) := rfl
  obtain ⟨_, safe⟩ := breakdown_fail_safe _ _ _ _ reached calling panics later
  exact ⟨course.1, safe, course.2⟩

end Session

end SyntaxPaint
