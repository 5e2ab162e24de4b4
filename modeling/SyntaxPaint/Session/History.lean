import SyntaxPaint.Session.Host

/-!
How a session and its worker take turns. `work?` is a single move of the worker, at any time;
`untilCall` and `untilRest` let the worker go on undisturbed while time passes only as far as it has
to wait. In a history the owner calls, the worker moves, results are taken in one by one and time
passes, in any order. Taking in all results at once is a run of single ones.
-/
namespace SyntaxPaint

namespace Session

def work? (s : Session) (move : Move) : Option Session :=
  (s.worker.step? s.highlighter.engine s.token s.clock move).map fun worker => { s with worker }

theorem effort_lt_of_work {s after : Session} {move : Move} (step : s.work? move = some after) :
    after.worker.effort < s.worker.effort := by
  obtain ⟨worker, hw, rfl⟩ := Option.map_eq_some_iff.1 step
  exact Worker.effort_lt_of_step hw

def waitUntil (s : Session) (moment : Nat) : Session := { s with clock := max s.clock moment }

def undisturbed? (s : Session) : Option Session :=
  match s.worker.phase, s.worker.queue with
  | .idle, _ :: _ => s.work? .receive
  | .gathering _, _ :: _ | .waiting _, _ :: _ => s.work? .adopt
  | .gathering _, [] => s.work? .settle
  | .waiting job, [] => (s.waitUntil (job.deadline s.worker.debounce)).work? .check
  | _, _ => none

theorem effort_lt_of_undisturbed {s after : Session} (step : s.undisturbed? = some after) :
    after.worker.effort < s.worker.effort := by
  unfold undisturbed? at step
  split at step
  · exact effort_lt_of_work step
  · exact effort_lt_of_work step
  · exact effort_lt_of_work step
  · exact effort_lt_of_work step
  · next job _ _ =>
    have later : after.worker.effort <
        (s.waitUntil (job.deadline s.worker.debounce)).worker.effort := effort_lt_of_work step
    exact later
  · cases step

/-- Lets the worker go on until it calls the engine or has nothing to do. -/
def untilCall (s : Session) : Session :=
  match _h : s.undisturbed? with
  | some next => untilCall next
  | none => s
termination_by s.worker.effort
decreasing_by exact effort_lt_of_undisturbed _h

def untilRest (s : Session) : Session :=
  match _h : s.undisturbed? with
  | some next => untilRest next
  | none =>
    match _ha : s.work? .answer with
    | some next => untilRest next
    | none => s
termination_by s.worker.effort
decreasing_by
  · exact effort_lt_of_undisturbed _h
  · exact effort_lt_of_work _ha

def call? (s : Session) : Option Job :=
  match s.worker.phase with
  | .calling job => some job
  | _ => none

def hasFreshJob (s : Session) : Bool := s.worker.queue.getLast?.any (·.token == s.token)

end Session

inductive HostCall where
  | replace (extent : Extent) (text : Text)
  | setAttributes (extent : Extent) (attributes : Attributes)
  | setLanguage (language : Option Text)
  | setTheme (name : Text)
  | setFonts (code : Font) (italic bold : Option Font)
  | setCodeFont (code : Font)
  | setLineSpacing (spacing : Single)
  | rehighlight

inductive Turn where
  | call (call : HostCall)
  | work (move : Move)
  | read
  | wait (moment : Nat)

namespace Session

def perform (s : Session) : HostCall → Session
  | .replace e text => (s.replace e text).2
  | .setAttributes e attributes => (s.setAttributes e attributes).2
  | .setLanguage language => s.setLanguage language
  | .setTheme name => (s.setTheme name).toOption.getD s
  | .setFonts code italic bold => s.setFonts code italic bold
  | .setCodeFont code => s.setCodeFont code
  | .setLineSpacing spacing => s.setLineSpacing spacing
  | .rehighlight => s.rehighlight

/-- The session after a turn; what cannot be done changes nothing. -/
def turn (s : Session) : Turn → Session
  | .call call => s.perform call
  | .work move => (s.work? move).getD s
  | .read => s.applyNext?.getD s
  | .wait moment => s.waitUntil moment

def run (s : Session) (turns : List Turn) : Session := turns.foldl turn s

end Session

end SyntaxPaint
