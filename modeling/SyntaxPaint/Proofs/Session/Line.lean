import SyntaxPaint.Proofs.Session.Accounting
import SyntaxPaint.Proofs.Session.Calls
import Mathlib.Data.List.Nodup

/-!
The line of jobs under way, over any history: its tokens ascend up to that of the session, so the
newest job is its last one. Between calls nothing joins the line, and nothing but the looks of the
buffer changes.
-/
namespace SyntaxPaint

namespace Turn

def isCall : Turn → Bool
  | .call _ => true
  | _ => false

def wholePass : List Turn := [.work .receive, .work .settle, .work .check, .work .answer, .read]

theorem call_or_between (t : Turn) : (∃ call, t = .call call) ∨ t.isCall = false := by
  cases t with
  | call call => exact Or.inl ⟨call, rfl⟩
  | _ => exact Or.inr rfl

end Turn

namespace Session

structure Passed (before after : Session) : Prop where
  line : after.worker.line.Sublist before.worker.line
  token : after.token = before.token
  language : after.language = before.language
  highlighter : after.highlighter = before.highlighter
  observer : after.observer = before.observer
  text : after.buffer.text = before.buffer.text

theorem passed_refl (s : Session) : Passed s s :=
  ⟨List.Sublist.refl _, rfl, rfl, rfl, rfl, rfl⟩

theorem passed_trans {s before after : Session} (first : Passed s before)
    (second : Passed before after) : Passed s after where
  line := second.line.trans first.line
  token := second.token.trans first.token
  language := second.language.trans first.language
  highlighter := second.highlighter.trans first.highlighter
  observer := second.observer.trans first.observer
  text := second.text.trans first.text

theorem text_painted (s : Session) (job : Job) (runs : Runs) :
    (s.painted job runs).text = s.buffer.text := by
  unfold painted TextBuffer.paint
  dsimp only
  split <;> rfl

theorem passed_read (s : Session) : Passed s (s.turn .read) := by
  cases unread : s.worker.results with
  | nil =>
    rw [turn_read_nothing unread]
    exact passed_refl s
  | cons r rest =>
    have line : (s.withResults rest).worker.line.Sublist s.worker.line := by
      rw [Chronicle.line_unread unread]
      exact List.sublist_cons_self _ _
    rw [turn_read unread]
    have effect := apply_effect (s.withResults rest) r
    generalize (s.withResults rest).apply r = after at effect
    cases effect with
    | stale _ => exact ⟨line, rfl, rfl, rfl, rfl, rfl⟩
    | rejected _ _ => exact ⟨line, rfl, rfl, rfl, rfl, rfl⟩
    | painted _ _ _ => exact ⟨line, rfl, rfl, rfl, rfl, text_painted _ _ _⟩

theorem turn_passed (s : Session) {t : Turn} (between : t.isCall = false) :
    Passed s (s.turn t) := by
  cases t with
  | call call => cases between
  | work move =>
    rcases turn_work s move with same | ⟨worker, moved, effect⟩
    · rw [same]
      exact passed_refl s
    · rw [moved]
      exact ⟨Worker.line_sublist effect, rfl, rfl, rfl, rfl, rfl⟩
  | read => exact passed_read s
  | wait moment => exact ⟨List.Sublist.refl _, rfl, rfl, rfl, rfl, rfl⟩

theorem token_le_turn (s : Session) (t : Turn) : s.token ≤ (s.turn t).token := by
  rcases t.call_or_between with ⟨call, rfl⟩ | between
  · exact token_le_perform s call
  · exact Nat.le_of_eq (turn_passed s between).token.symm

theorem token_le_run (s : Session) (turns : List Turn) : s.token ≤ (s.run turns).token := by
  induction turns using List.reverseRecOn with
  | nil => exact Nat.le_refl _
  | append_singleton turns t ih =>
    rw [run_concat]
    exact Nat.le_trans ih (token_le_turn _ t)

theorem passed_run (s : Session) {turns : List Turn} (between : ∀ t ∈ turns, t.isCall = false) :
    Passed s (s.run turns) := by
  induction turns using List.reverseRecOn with
  | nil => exact passed_refl s
  | append_singleton turns t ih =>
    rw [run_concat]
    exact passed_trans (ih fun t' member => between t' (List.mem_append_left _ member))
      (turn_passed _ (between t (by simp)))

theorem observer_run (highlighter : Highlighter) (debounce : Nat) (observer : Option Observer)
    (turns : List Turn) :
    ((start highlighter debounce observer).run turns).observer = observer := by
  refine run_invariant (fun _ s => s.observer = observer) rfl ?_ turns
  intro turns t unchanged
  rcases t.call_or_between with ⟨call, rfl⟩ | between
  · exact (perform_surroundings _ call).observer.trans unchanged
  · exact (turn_passed _ between).observer.trans unchanged

/- Order. -/

structure Lined (s : Session) : Prop where
  order : Chronicle.Ascending s.worker.line
  bound : ∀ job ∈ s.worker.line, job.token ≤ s.token

theorem lined_shorter {s after : Session} (lined : Lined s)
    (line : after.worker.line.Sublist s.worker.line) (token : s.token ≤ after.token) :
    Lined after :=
  ⟨lined.order.sublist (line.map _),
    fun job member => Nat.le_trans (lined.bound job (line.subset member)) token⟩

theorem lined_call {s : Session} (lined : Lined s) (call : HostCall) : Lined (s.perform call) := by
  rcases perform_worker s call with worker | ⟨job, issue, _⟩
  · refine lined_shorter lined ?_ (token_le_perform s call)
    rw [worker]
  · have next := issue.taken
    have number := issue.token
    constructor
    case order =>
      unfold Chronicle.Ascending
      rw [issue.enqueued, Worker.line_enqueue, List.map_append, List.pairwise_append]
      refine ⟨lined.order, List.pairwise_singleton _ _, ?_⟩
      intro x earlier y last
      obtain ⟨older, member, rfl⟩ := List.mem_map.mp earlier
      obtain rfl := List.mem_singleton.mp last
      have limit := lined.bound older member
      show older.token < job.token
      omega
    case bound =>
      rw [issue.enqueued, Worker.line_enqueue]
      intro other member
      rcases List.mem_append.mp member with earlier | last
      · have limit := lined.bound other earlier
        omega
      · obtain rfl := List.mem_singleton.mp last
        exact Nat.le_of_eq number

theorem lined_turn {s : Session} (lined : Lined s) (t : Turn) : Lined (s.turn t) := by
  rcases t.call_or_between with ⟨call, rfl⟩ | between
  · exact lined_call lined call
  · have passed := turn_passed s between
    exact lined_shorter lined passed.line (Nat.le_of_eq passed.token.symm)

theorem lined_run (highlighter : Highlighter) (debounce : Nat) (observer : Option Observer)
    (turns : List Turn) : Lined ((start highlighter debounce observer).run turns) := by
  refine run_invariant (fun _ => Lined) ?_ ?_ turns
  · exact ⟨List.Pairwise.nil, fun job none => by cases none⟩
  · exact fun _ t lined => lined_turn lined t

theorem unique_in_line {s : Session} (lined : Lined s) {job other : Job}
    (member : job ∈ s.worker.line) (member' : other ∈ s.worker.line)
    (same : job.token = other.token) : job = other := by
  have distinct : (s.worker.line.map (·.token)).Nodup :=
    lined.order.imp fun less => Nat.ne_of_lt less
  exact List.inj_on_of_nodup_map distinct member member' same

/- A worker that does not break down. -/

theorem running_turn {s : Session} (sturdy : s.highlighter.engine.Sturdy)
    (running : s.worker.phase.isGone = false) (t : Turn) :
    (s.turn t).worker.phase.isGone = false := by
  cases t with
  | call call =>
    show (s.perform call).worker.phase.isGone = false
    rcases perform_worker s call with worker | ⟨job, issue, _⟩
    · rwa [worker]
    · rw [issue.enqueued]
      exact running
  | work move =>
    rcases turn_work s move with same | ⟨worker, moved, effect⟩
    · rwa [same]
    · rw [moved]
      exact Chronicle.running_of_effect sturdy effect
  | read =>
    cases unread : s.worker.results with
    | nil => rwa [turn_read_nothing unread]
    | cons r rest =>
      obtain ⟨_, _, worker, _⟩ := Chronicle.read_effect unread
      rw [worker]
      exact running
  | wait moment => exact running

theorem engine_turn (s : Session) (t : Turn) :
    (s.turn t).highlighter.engine = s.highlighter.engine := by
  rcases t.call_or_between with ⟨call, rfl⟩ | between
  · exact (perform_surroundings s call).engine
  · rw [(turn_passed s between).highlighter]

theorem running_run {highlighter : Highlighter} (sturdy : highlighter.engine.Sturdy)
    (debounce : Nat) (observer : Option Observer) (turns : List Turn) :
    let s := (start highlighter debounce observer).run turns
    s.highlighter.engine = highlighter.engine ∧ s.worker.phase.isGone = false := by
  refine run_invariant (fun _ s => s.highlighter.engine = highlighter.engine ∧
    s.worker.phase.isGone = false) ⟨rfl, rfl⟩ ?_ turns
  rintro turns t ⟨engine, running⟩
  refine ⟨(engine_turn _ t).trans engine, running_turn ?_ running t⟩
  rwa [engine]

end Session

end SyntaxPaint
