import SyntaxPaint.Session.Workplace
import SyntaxPaint.Proofs.Session.Turns

/-!
What holds in every workplace. The invariant is about one line of jobs, those that have been called
and behind them those that still can be: their tokens ascend, whatever happens. It also counts the
calls, so that the log tells which reply of the engine a worker gets, and an engine that gives the
same replies to the logged calls cannot be told apart.
-/
namespace SyntaxPaint.Workplace

def pending (w : Workplace) : List Job :=
  match w.worker.phase with
  | .gathering job | .waiting job => job :: (w.worker.queue ++ w.onTheWay)
  | _ => w.worker.queue ++ w.onTheWay

def line (w : Workplace) : List Job := w.calls.map (·.job) ++ w.pending

def Numbered (worker : Worker) (calls : List EngineCall) : Prop :=
  match worker.phase with
  | .calling job => ∃ front last, calls = front ++ [last] ∧ last.job = job ∧
      front.length = worker.calls
  | _ => calls.length = worker.calls

structure Orderly (debounce : Nat) (w : Workplace) : Prop where
  waits : w.worker.debounce = debounce
  ascending : (w.line.map (·.token)).Pairwise (· < ·)
  known : ∀ job ∈ w.line, job ∈ w.issued
  past : ∀ job ∈ w.issued, job.token ≤ w.token
  due : ∀ c ∈ w.calls, c.job.deadline debounce ≤ c.moment ∧ c.moment ≤ w.clock
  newest : ∀ c ∈ w.calls, c.newest = c.job.token
  numbered : Numbered w.worker w.calls

theorem orderly_start (debounce : Nat) : Orderly debounce (start debounce) where
  waits := rfl
  ascending := .nil
  known := by simp [line, pending, start, Worker.start]
  past := by simp [start]
  due := by simp [start]
  newest := by simp [start]
  numbered := rfl

theorem work_cases (engine : Engine) (w : Workplace) (move : Move) :
    w.work engine move = w ∨
      ∃ worker, w.work engine move = { w with worker, calls := w.calls ++ w.begun worker } ∧
        w.worker.Effect engine w.token w.clock worker := by
  unfold work
  cases step : w.worker.step? engine w.token w.clock move with
  | none => exact Or.inl rfl
  | some worker => exact Or.inr ⟨worker, rfl, Worker.effect_of_step step⟩

/-- A call begins only with the newest job, after its deadline, and it is logged. -/
theorem begun_spec {engine : Engine} {w : Workplace} {worker : Worker}
    (effect : w.worker.Effect engine w.token w.clock worker) :
    ∀ c ∈ w.begun worker, c.job.deadline w.worker.debounce ≤ c.moment ∧ c.moment = w.clock ∧
      c.newest = w.token ∧ c.job.token = w.token := by
  intro c member
  cases effect with
  | @call job held due newest =>
    simp only [begun, held, List.mem_singleton] at member
    subst member
    exact ⟨due, rfl, rfl, newest⟩
  | receive idle queue => simp [begun, idle] at member
  | adopt held queue => simp [begun, held] at member
  | exchange held queue => simp [begun, held] at member
  | settle held queue => simp [begun, held] at member
  | skip held due stale => simp [begun, held] at member
  | answer held whole => simp [begun, held] at member
  | breakdown held broken => simp [begun, held] at member

theorem line_work {engine : Engine} {w : Workplace} {worker : Worker}
    (effect : w.worker.Effect engine w.token w.clock worker) :
    (line { w with worker, calls := w.calls ++ w.begun worker }).Sublist w.line := by
  unfold line
  cases effect with
  | receive idle queue => simp [pending, begun, idle, queue]
  | adopt held queue => simp [pending, begun, held, queue]
  | exchange held queue => simp [pending, begun, held, queue]
  | settle held queue => simp [pending, begun, held]
  | call held due newest => simp [pending, begun, held]
  | skip held due stale => simp [pending, begun, held]
  | answer held whole => simp [pending, begun, held]
  | breakdown held broken => simp [pending, begun, held]

theorem numbered_work {engine : Engine} {w : Workplace} {worker : Worker}
    (effect : w.worker.Effect engine w.token w.clock worker)
    (numbered : Numbered w.worker w.calls) : Numbered worker (w.calls ++ w.begun worker) := by
  unfold Numbered at numbered
  cases effect with
  | receive idle queue => simpa [Numbered, begun, idle] using numbered
  | adopt held queue => simpa [Numbered, begun, held] using numbered
  | exchange held queue => simpa [Numbered, begun, held] using numbered
  | settle held queue => simpa [Numbered, begun, held] using numbered
  | skip held due stale => simpa [Numbered, begun, held] using numbered
  | @call job held due newest =>
    rw [held] at numbered
    exact ⟨w.calls, ⟨job, w.token, w.clock⟩, by simp [begun, held], rfl, numbered⟩
  | answer held whole =>
    rw [held] at numbered
    obtain ⟨front, last, logged, _, count⟩ := numbered
    simp [Numbered, begun, held, logged, count]
  | breakdown held broken =>
    rw [held] at numbered
    obtain ⟨front, last, logged, _, count⟩ := numbered
    simp [Numbered, begun, held, logged, count]

theorem orderly_work {debounce : Nat} {w : Workplace} (orderly : Orderly debounce w)
    (engine : Engine) (move : Move) : Orderly debounce (w.work engine move) := by
  rcases work_cases engine w move with same | ⟨worker, moved, effect⟩
  · rwa [same]
  · rw [moved]
    have shorter := line_work effect
    have begins := begun_spec effect
    rw [orderly.waits] at begins
    constructor
    case waits =>
      have kept : worker.debounce = w.worker.debounce := by cases effect <;> rfl
      exact kept.trans orderly.waits
    case ascending => exact orderly.ascending.sublist (shorter.map _)
    case known =>
      intro job member
      exact orderly.known job (shorter.subset member)
    case past => exact orderly.past
    case due =>
      intro c logged
      rcases List.mem_append.mp logged with earlier | last
      · exact orderly.due c earlier
      · obtain ⟨due, here, _⟩ := begins c last
        exact ⟨due, Nat.le_of_eq here⟩
    case newest =>
      intro c logged
      rcases List.mem_append.mp logged with earlier | last
      · exact orderly.newest c earlier
      · obtain ⟨_, _, newest, token⟩ := begins c last
        exact newest.trans token.symm
    case numbered => exact numbered_work effect orderly.numbered

theorem line_arrive (w : Workplace) : w.arrive.line = w.line := by
  cases way : w.onTheWay with
  | nil => rw [arrive, way]
  | cons job rest =>
    rw [arrive, way]
    unfold line pending Worker.enqueue
    split <;> simp_all

theorem orderly_arrive {debounce : Nat} {w : Workplace} (orderly : Orderly debounce w) :
    Orderly debounce w.arrive := by
  have ascending := orderly.ascending
  have known := orderly.known
  rw [← line_arrive] at ascending known
  unfold arrive at ascending known ⊢
  cases way : w.onTheWay with
  | nil => exact orderly
  | cons job rest =>
    rw [way] at ascending known
    exact { orderly with ascending, known }

theorem line_issue (w : Workplace) (job : Job) :
    line { w with onTheWay := w.onTheWay ++ [job], issued := w.issued ++ [job] } =
      w.line ++ [job] := by
  unfold line pending
  split <;> simp_all

theorem orderly_issue {debounce : Nat} {w : Workplace} (orderly : Orderly debounce w) (e : Extent)
    (language snapshot : Text) (theme : Theme) :
    Orderly debounce (w.issue e language snapshot theme) := by
  unfold issue
  split
  · next fresh =>
    have older : ∀ job ∈ w.issued, job.token < w.token := by simpa using fresh
    constructor
    case waits => exact orderly.waits
    case ascending =>
      rw [line_issue, List.map_append, List.pairwise_append]
      refine ⟨orderly.ascending, List.pairwise_singleton _ _, ?_⟩
      intro token earlier last member
      obtain ⟨job, inLine, rfl⟩ := List.mem_map.mp earlier
      obtain rfl := List.mem_singleton.mp member
      exact older job (orderly.known job inLine)
    case known =>
      intro job member
      rw [line_issue] at member
      rcases List.mem_append.mp member with earlier | last
      · exact List.mem_append_left _ (orderly.known job earlier)
      · exact List.mem_append_right _ last
    case past =>
      intro job member
      rcases List.mem_append.mp member with earlier | last
      · exact orderly.past job earlier
      · obtain rfl := List.mem_singleton.mp last
        exact Nat.le_refl _
    case due => exact orderly.due
    case newest => exact orderly.newest
    case numbered => exact orderly.numbered
  · exact orderly

theorem orderly_event {debounce : Nat} {w : Workplace} (orderly : Orderly debounce w)
    (engine : Engine) (e : Event) : Orderly debounce (w.event engine e) := by
  cases e with
  | bump =>
    exact { orderly with past := fun job member => Nat.le_succ_of_le (orderly.past job member) }
  | issue e language snapshot theme => exact orderly_issue orderly e language snapshot theme
  | arrive => exact orderly_arrive orderly
  | work move => exact orderly_work orderly engine move
  | collect => exact { orderly with }
  | wait moment =>
    have later (c : EngineCall) (member : c ∈ w.calls) :
        c.job.deadline debounce ≤ c.moment ∧ c.moment ≤ max w.clock moment := by
      obtain ⟨due, past⟩ := orderly.due c member
      exact ⟨due, Nat.le_trans past (Nat.le_max_left _ _)⟩
    exact { orderly with due := later }

theorem run_concat (engine : Engine) (w : Workplace) (events : List Event) (e : Event) :
    w.run engine (events ++ [e]) = (w.run engine events).event engine e := by
  simp [run]

theorem run_append (engine : Engine) (w : Workplace) (events later : List Event) :
    w.run engine (events ++ later) = (w.run engine events).run engine later := List.foldl_append

theorem orderly_run (engine : Engine) (debounce : Nat) (events : List Event) :
    Orderly debounce ((start debounce).run engine events) := by
  induction events using List.reverseRecOn with
  | nil => exact orderly_start debounce
  | append_singleton events e ih =>
    rw [run_concat]
    exact orderly_event ih engine e

/- What comes later. -/

structure Later (w after : Workplace) : Prop where
  token : w.token ≤ after.token
  calls : ∃ others, after.calls = w.calls ++ others ∧ ∀ c ∈ others, w.token ≤ c.newest

theorem later_of_kept {w after : Workplace} (token : w.token ≤ after.token)
    (calls : after.calls = w.calls) : Later w after :=
  ⟨token, [], by rw [calls, List.append_nil], by simp⟩

theorem later_trans {w middle after : Workplace} (first : Later w middle)
    (second : Later middle after) : Later w after := by
  obtain ⟨token, others, calls, newest⟩ := first
  obtain ⟨token', others', calls', newest'⟩ := second
  refine ⟨Nat.le_trans token token', others ++ others', ?_, ?_⟩
  · rw [calls', calls, List.append_assoc]
  · intro c member
    rcases List.mem_append.mp member with left | right
    · exact newest c left
    · exact Nat.le_trans token (newest' c right)

theorem later_event (engine : Engine) (w : Workplace) (e : Event) :
    Later w (w.event engine e) := by
  cases e with
  | bump => exact later_of_kept (Nat.le_succ _) rfl
  | issue e language snapshot theme =>
    simp only [event, issue]
    split <;> exact later_of_kept (Nat.le_refl _) rfl
  | arrive =>
    simp only [event, arrive]
    split <;> exact later_of_kept (Nat.le_refl _) rfl
  | work move =>
    rcases work_cases engine w move with same | ⟨worker, moved, effect⟩
    · rw [event, same]
      exact later_of_kept (Nat.le_refl _) rfl
    · rw [event, moved]
      refine ⟨Nat.le_refl _, w.begun worker, rfl, ?_⟩
      intro c begins
      exact Nat.le_of_eq (begun_spec effect c begins).2.2.1.symm
  | collect => exact later_of_kept (Nat.le_refl _) rfl
  | wait moment => exact later_of_kept (Nat.le_refl _) rfl

theorem later_run (engine : Engine) (w : Workplace) (events : List Event) :
    Later w (w.run engine events) := by
  induction events generalizing w with
  | nil => exact later_of_kept (Nat.le_refl _) rfl
  | cons e events ih => exact later_trans (later_event engine w e) (ih _)

/-- Once a job is superseded no call for it begins any more. -/
theorem called_before_bump {engine : Engine} {debounce : Nat} {before after : List Event}
    {job : Job} (issued : job ∈ ((start debounce).run engine before).issued) :
    ∀ c ∈ ((start debounce).run engine (before ++ .bump :: after)).calls, c.job = job →
      c ∈ ((start debounce).run engine before).calls := by
  intro c called same
  have newest := (orderly_run engine debounce (before ++ .bump :: after)).newest c called
  have old := (orderly_run engine debounce before).past job issued
  rw [run_append] at called
  generalize (start debounce).run engine before = w at called old ⊢
  obtain ⟨others, split, young⟩ := (later_run engine (w.event engine .bump) after).calls
  have split : (w.run engine (.bump :: after)).calls = w.calls ++ others := split
  rw [split] at called
  rcases List.mem_append.mp called with earlier | later
  · exact earlier
  · -- A call that begins later is for the newest token of then.
    have young : w.token + 1 ≤ c.newest := young c later
    rw [newest, same] at young
    omega

/- The log says all. -/

def Agree (engine other : Engine) (calls : List EngineCall) : Prop :=
  ∀ (n : Nat) (c : EngineCall), calls[n]? = some c →
    other.reply n (some c.job.language) c.job.snapshot =
      engine.reply n (some c.job.language) c.job.snapshot

theorem agree_front {engine other : Engine} {calls others : List EngineCall}
    (agree : Agree engine other (calls ++ others)) : Agree engine other calls := by
  intro n c called
  have upper := (List.getElem?_eq_some_iff.mp called).1
  apply agree
  rwa [List.getElem?_append_left upper]

theorem step?_congr {engine other : Engine} {w : Worker}
    (same : ∀ job, w.phase = .calling job → job.run other w.calls = job.run engine w.calls)
    (token now : Nat) (move : Move) :
    w.step? other token now move = w.step? engine token now move := by
  cases move with
  | answer =>
    simp only [Worker.step?]
    split
    · next job held => rw [same job held]
    · rfl
  | _ => rfl

theorem event_congr {engine other : Engine} {w : Workplace} (numbered : Numbered w.worker w.calls)
    (agree : Agree engine other w.calls) (e : Event) : w.event other e = w.event engine e := by
  cases e with
  | work move =>
    have same (job : Job) (held : w.worker.phase = .calling job) :
        job.run other w.worker.calls = job.run engine w.worker.calls := by
      unfold Numbered at numbered
      rw [held] at numbered
      obtain ⟨front, last, logged, rfl, count⟩ := numbered
      have here : w.calls[w.worker.calls]? = some last := by
        rw [logged, ← count, List.getElem?_concat_length]
      unfold Job.run
      rw [agree _ _ here]
    show w.work other move = w.work engine move
    unfold work
    rw [step?_congr same]
  | _ => rfl

theorem run_congr {engine other : Engine} (debounce : Nat) (events : List Event)
    (agree : Agree engine other ((start debounce).run engine events).calls) :
    (start debounce).run other events = (start debounce).run engine events := by
  induction events using List.reverseRecOn with
  | nil => rfl
  | append_singleton events e ih =>
    rw [run_concat] at agree
    obtain ⟨others, split, _⟩ := (later_event engine ((start debounce).run engine events) e).calls
    rw [split] at agree
    have earlier := agree_front agree
    rw [run_concat, run_concat, ih earlier]
    exact event_congr (orderly_run engine debounce events).numbered earlier e

end SyntaxPaint.Workplace
