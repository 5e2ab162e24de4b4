import SyntaxPaint.Engine.Basic
import SyntaxPaint.Text.Lines
import SyntaxPaint.Markup.Attributed

/-!
The worker that runs the passes of a session beside it. A job carries everything that its pass
needs, so later changes of the text or the theme do not reach a pass that is under way. The worker
takes jobs in the order of their arrival, keeps only the newest of those that wait, holds it until
its deadline and calls the engine if no newer token was taken in the meantime. Each move is one step
that can interleave with whatever the session does; every move brings the worker closer to rest
(`effort_lt_of_step`).
-/
namespace SyntaxPaint

/-- A pass over an extent of a buffer. `token` numbers the passes, `snapshot` is the text of the
extent at the time `issued`. -/
structure Job where
  token : Nat
  extent : Extent
  language : Text
  snapshot : Text
  theme : Theme
  issued : Nat

namespace Job

def deadline (debounce : Nat) (j : Job) : Nat := j.issued + debounce

def run (engine : Engine) (call : Nat) (j : Job) : Except HighlightError AttributedText :=
  (engine.reply call (some j.language) j.snapshot).bind (Markup.attributed j.theme)

end Job

structure PassResult where
  job : Job
  outcome : Except HighlightError AttributedText

inductive Phase where
  | idle
  | gathering (job : Job)
  | waiting (job : Job)
  | calling (job : Job)
  | gone

namespace Phase

def job? : Phase → Option Job
  | .gathering job | .waiting job | .calling job => some job
  | .idle | .gone => none

def isGone : Phase → Bool
  | .gone => true
  | _ => false

end Phase

inductive Move where
  | receive
  | adopt
  | settle
  | check
  | answer
  deriving DecidableEq, Repr

/-- A worker: the jobs that it has not taken yet and the results that nobody has read yet, both
oldest first, and the number of calls that it has finished. -/
structure Worker where
  phase : Phase
  queue : List Job
  results : List PassResult
  calls : Nat
  debounce : Nat

namespace Worker

def start (debounce : Nat) : Worker := ⟨.idle, [], [], 0, debounce⟩

def enqueue (w : Worker) (job : Job) : Worker := { w with queue := w.queue ++ [job] }

def conclude (w : Worker) (job : Job) (outcome : Except HighlightError AttributedText) : Worker :=
  match outcome with
  | .error .breakdown => { w with phase := .gone, queue := [], calls := w.calls + 1 }
  | outcome =>
    { w with phase := .idle, results := w.results ++ [⟨job, outcome⟩], calls := w.calls + 1 }

/-- The worker after a move, if it can make it at a time at which `token` is the newest one. -/
def step? (engine : Engine) (token now : Nat) (w : Worker) : Move → Option Worker
  | .receive =>
    match w.phase, w.queue with
    | .idle, job :: rest => some { w with phase := .gathering job, queue := rest }
    | _, _ => none
  | .adopt =>
    match w.phase, w.queue with
    | .gathering _, job :: rest => some { w with phase := .gathering job, queue := rest }
    | .waiting _, job :: rest => some { w with phase := .waiting job, queue := rest }
    | _, _ => none
  | .settle =>
    match w.phase, w.queue with
    | .gathering job, [] => some { w with phase := .waiting job }
    | _, _ => none
  | .check =>
    match w.phase with
    | .waiting job =>
      if job.deadline w.debounce ≤ now then
        some { w with phase := if job.token = token then .calling job else .idle }
      else none
    | _ => none
  | .answer =>
    match w.phase with
    | .calling job => some (w.conclude job (job.run engine w.calls))
    | _ => none

def phaseEffort : Phase → Nat
  | .idle | .gone => 0
  | .calling _ => 1
  | .waiting _ => 2
  | .gathering _ => 3

/-- An upper bound for the number of moves until the worker rests. -/
def effort (w : Worker) : Nat := 4 * w.queue.length + phaseEffort w.phase

theorem effort_conclude_le (w : Worker) (job : Job)
    (outcome : Except HighlightError AttributedText) :
    (w.conclude job outcome).effort ≤ 4 * w.queue.length := by
  unfold conclude
  split <;> simp [effort, phaseEffort]

theorem effort_lt_of_step {engine : Engine} {token now : Nat} {w after : Worker} {move : Move}
    (step : w.step? engine token now move = some after) : after.effort < w.effort := by
  cases move with
  | receive =>
    simp only [step?] at step
    split at step
    · next hp hq =>
      cases step
      simp only [effort, hp, hq, phaseEffort, List.length_cons]
      omega
    · cases step
  | adopt =>
    simp only [step?] at step
    split at step
    · next hp hq =>
      cases step
      simp only [effort, hp, hq, phaseEffort, List.length_cons]
      omega
    · next hp hq =>
      cases step
      simp only [effort, hp, hq, phaseEffort, List.length_cons]
      omega
    · cases step
  | settle =>
    simp only [step?] at step
    split at step
    · next hp hq =>
      cases step
      simp only [effort, hp, hq, phaseEffort]
      omega
    · cases step
  | check =>
    simp only [step?] at step
    split at step
    · next job hp =>
      split at step
      · cases step
        by_cases newest : job.token = token <;> simp [effort, hp, newest, phaseEffort]
      · cases step
    · cases step
  | answer =>
    simp only [step?] at step
    split at step
    · next job hp =>
      cases step
      have := w.effort_conclude_le job (job.run engine w.calls)
      simp only [effort, hp, phaseEffort] at this ⊢
      omega
    · cases step

end Worker

end SyntaxPaint
