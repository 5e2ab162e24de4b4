import SyntaxPaint.Session.Basic

/-!
What the owner of a session can do: edit the text, choose the language, the theme and the fonts,
and take in the results of the worker.
-/
namespace SyntaxPaint.Session

def rehighlight (s : Session) : Session := s.request ⟨0, s.buffer.length⟩

/-- Asks for a pass after an edit. A change of characters can change the meaning of everything
behind it, so the pass goes from the start of the edited lines to the end of the buffer. -/
def follow (s : Session) (edit : EditRecord) : Session :=
  if s.language.isNone || edit.kind != .characters then s
  else
    let lines := s.buffer.paragraph edit.edited
    if lines.isEmpty then s else s.request ⟨lines.start, s.buffer.length⟩

def edited (s : Session) : Option (EditRecord × TextBuffer) → Option EditRecord × Session
  | none => (none, s)
  | some (edit, buffer) => (some edit, follow { s with buffer } edit)

def replace (s : Session) (e : Extent) (text : Text) : Option EditRecord × Session :=
  s.edited (s.buffer.replace e text)

def setAttributes (s : Session) (e : Extent) (attributes : Attributes) :
    Option EditRecord × Session :=
  s.edited (s.buffer.setAttributes e attributes)

def setLanguage (s : Session) (language : Option Text) : Session :=
  match language.filter (!·.isEmpty) with
  | some language => rehighlight { s with language := some language }
  | none => { s with language := none, token := s.token + 1 }

/-- Goes on with a changed highlighter: text typed into the empty buffer gets the look of its
theme, and a pass over everything is asked for. -/
def restyle (s : Session) (highlighter : Highlighter) : Session :=
  rehighlight
    { s with
      highlighter
      buffer := s.buffer.withDefaults highlighter.theme.baseAttributes }

def setTheme (s : Session) (name : Text) : Except HighlightError Session :=
  (s.highlighter.withTheme name).map s.restyle

def setFonts (s : Session) (code : Font) (italic bold : Option Font) : Session :=
  s.restyle (s.highlighter.withFonts code italic bold)

def setCodeFont (s : Session) (code : Font) : Session :=
  s.restyle (s.highlighter.withCodeFont code)

def setLineSpacing (s : Session) (spacing : Single) : Session :=
  s.restyle (s.highlighter.withLineSpacing spacing)

def setObserver (s : Session) (observer : Option Observer) : Session := { s with observer }

def matchesText (s : Session) (job : Job) (painted : AttributedText) : Bool :=
  decide (job.extent.stop ≤ s.buffer.length) && s.buffer.slice job.extent == job.snapshot &&
    painted.text == job.snapshot

def painted (s : Session) (job : Job) (runs : Runs) : TextBuffer :=
  ((s.buffer.paint job.extent.start runs).map (·.2)).getD s.buffer

/-- Takes in a result. The result of an old request is passed over in silence; the newest one is
painted and reported if it fits the text, and else reported as a failure. -/
def apply (s : Session) (r : PassResult) : Session :=
  if r.job.token ≠ s.token then s
  else
    match r.outcome with
    | .error _ => s.notify (.reported r.job.extent false)
    | .ok text =>
      if s.matchesText r.job text then
        notify { s with buffer := s.painted r.job text.runs } (.reported r.job.extent true)
      else s.notify (.reported r.job.extent false)

def applyNext? (s : Session) : Option Session :=
  match s.worker.results with
  | [] => none
  | r :: rest => some (apply { s with worker := { s.worker with results := rest } } r)

def applyReady (s : Session) : Nat × Session :=
  (s.worker.results.length,
    s.worker.results.foldl apply { s with worker := { s.worker with results := [] } })

def waitAndApply? (s : Session) (deadline : Nat) : Option (Nat × Session) :=
  if s.worker.results.isEmpty && !s.worker.phase.isGone && decide (s.clock < deadline) then none
  else some s.applyReady

end SyntaxPaint.Session
