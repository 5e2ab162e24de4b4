import SyntaxPaint.Session.Worker

/-!
A worker among all that can happen around it, with a log of the calls of the engine. Jobs are
issued with the newest token, and each token is good for one of them; they reach the worker later,
in their order. Tokens can also be taken without a job, which only makes older jobs out of date.
-/
namespace SyntaxPaint

structure EngineCall where
  job : Job
  newest : Nat
  moment : Nat

/-- A worker and its surroundings. `onTheWay` holds the jobs that have not reached the worker;
`issued` and `calls` log all jobs and all calls of the engine. Every list is oldest first. -/
structure Workplace where
  worker : Worker
  token : Nat
  clock : Nat
  onTheWay : List Job
  issued : List Job
  calls : List EngineCall

inductive Event where
  | bump
  /-- A job is issued with the newest token, unless a job has that token already. -/
  | issue (extent : Extent) (language snapshot : Text) (theme : Theme)
  | arrive
  | work (move : Move)
  | collect
  | wait (moment : Nat)

namespace Workplace

def start (debounce : Nat) : Workplace := ⟨.start debounce, 0, 0, [], [], []⟩

def issue (w : Workplace) (e : Extent) (language snapshot : Text) (theme : Theme) : Workplace :=
  if w.issued.all (·.token < w.token) then
    let job : Job := ⟨w.token, e, language, snapshot, theme, w.clock⟩
    { w with onTheWay := w.onTheWay ++ [job], issued := w.issued ++ [job] }
  else w

def arrive (w : Workplace) : Workplace :=
  match w.onTheWay with
  | [] => w
  | job :: rest => { w with worker := w.worker.enqueue job, onTheWay := rest }

def begun (w : Workplace) (after : Worker) : List EngineCall :=
  match w.worker.phase, after.phase with
  | .waiting _, .calling job => [⟨job, w.token, w.clock⟩]
  | _, _ => []

def work (engine : Engine) (w : Workplace) (move : Move) : Workplace :=
  match w.worker.step? engine w.token w.clock move with
  | none => w
  | some worker => { w with worker, calls := w.calls ++ w.begun worker }

/-- What happens to a workplace; what cannot be done changes nothing. -/
def event (engine : Engine) (w : Workplace) : Event → Workplace
  | .bump => { w with token := w.token + 1 }
  | .issue e language snapshot theme => w.issue e language snapshot theme
  | .arrive => w.arrive
  | .work move => w.work engine move
  | .collect => { w with worker := { w.worker with results := w.worker.results.tail } }
  | .wait moment => { w with clock := max w.clock moment }

def run (engine : Engine) (w : Workplace) (events : List Event) : Workplace :=
  events.foldl (event engine) w

end Workplace

end SyntaxPaint
