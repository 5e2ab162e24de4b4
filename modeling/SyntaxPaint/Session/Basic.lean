import SyntaxPaint.Buffer.Edit
import SyntaxPaint.Highlighter
import SyntaxPaint.Session.Worker

/-!
A live session: a buffer that is edited, and a worker whose passes keep its attributes in step
with its text. A pass is painted only if nothing newer was asked for and the text it has seen is
still there, so an edit is never waited for and never undone.
-/
namespace SyntaxPaint

inductive Notice where
  | asked (extent : Extent)
  | reported (extent : Extent) (success : Bool)
  deriving DecidableEq, Repr

/-- Someone who decides which extents are highlighted, and may take into account all that was
noticed before. -/
structure Observer where
  consents : List Notice → Extent → Bool

def Observer.willing : Observer := ⟨fun _ _ => true⟩

/-- A session. `token` is the number of the newest request, `clock` the time, and `notices` holds
what observers were told, oldest first. -/
structure Session where
  buffer : TextBuffer
  highlighter : Highlighter
  language : Option Text
  observer : Option Observer
  token : Nat
  worker : Worker
  clock : Nat
  notices : List Notice

namespace Session

def start (highlighter : Highlighter) (debounce : Nat) (observer : Option Observer) : Session where
  buffer := .ofText [] highlighter.theme.baseAttributes
  highlighter
  language := none
  observer
  token := 0
  worker := .start debounce
  clock := 0
  notices := []

def theme (s : Session) : Theme := s.highlighter.theme

def notify (s : Session) (notice : Notice) : Session :=
  if s.observer.isSome then { s with notices := s.notices ++ [notice] } else s

def consents (s : Session) (e : Extent) : Bool :=
  s.observer.all fun observer => observer.consents s.notices e

def nextJob (s : Session) (language : Text) (e : Extent) : Job where
  token := s.token + 1
  extent := e
  language
  snapshot := s.buffer.slice e
  theme := s.theme
  issued := s.clock

/-- Takes the next token for a job and hands it to the worker. Where the worker is gone the pass has
failed at once. -/
def submit (s : Session) (job : Job) : Session :=
  let s := { s with token := job.token }
  if s.worker.phase.isGone then s.notify (.reported job.extent false)
  else { s with worker := s.worker.enqueue job }

def request (s : Session) (e : Extent) : Session :=
  match s.language with
  | none => s
  | some language =>
    if e.isEmpty then s
    else
      let asked := s.notify (.asked e)
      if s.consents e then asked.submit (asked.nextJob language e) else asked

end Session

end SyntaxPaint
