import SyntaxPaint.CommandLine.Command
import SyntaxPaint.Highlighter
import SyntaxPaint.Terminal

/-!
The program: from arguments, environment, files and standard input to an exit code and what is
written.
-/
namespace SyntaxPaint.CommandLine

inductive OutputFormat where
  | terminal
  | html
  | json
  deriving DecidableEq, Repr

def OutputFormat.ofSwitches (html json : Bool) : OutputFormat :=
  if html then .html else if json then .json else .terminal

inductive RenderError where
  | unknownLanguage (language : Text)
  | highlighting (e : HighlightError)
  deriving DecidableEq, Repr

namespace RenderError

def message : RenderError → Text
  | unknownLanguage language =>
    "unsupported language '".toList ++ language ++ "' (see `highlightr languages`)".toList
  | highlighting e => e.message

def causes : RenderError → List Text
  | unknownLanguage _ => []
  | highlighting e => e.causes

end RenderError

def write (h : Highlighter) (call : Nat) (language : Option Text) (source : Text) :
    OutputFormat → Except HighlightError Text
  | .terminal => (h.highlight call language source).map Terminal.write
  | .html => h.html call language source
  | .json => (h.highlight call language source).map fun text => text.toJson.pretty

def render (h : Highlighter) (call : Nat) (language : Option Text) (source : Text)
    (format : OutputFormat) : Except RenderError Text :=
  match language.filter (!h.engine.supports ·) with
  | some unknown => .error (.unknownLanguage unknown)
  | none => (write h call language source format).mapError .highlighting

structure Outcome where
  code : Nat
  output : Text
  errors : Text
  deriving DecidableEq, Repr

inductive Failure where
  | settingUp (theme : Text) (e : HighlightError)
  | readingFile (path : OsText) (e : FileError)
  | readingInput (e : FileError)
  | rendering (e : RenderError)
  | listing (e : HighlightError)
  deriving DecidableEq

namespace Failure

def message : Failure → Text
  | settingUp theme _ => "failed to load theme '".toList ++ theme ++ ['\'']
  | readingFile path _ => "failed to read ".toList ++ path.display
  | readingInput _ => "failed to read stdin".toList
  | rendering e => e.message
  | listing e => e.message

def causes : Failure → List Text
  | settingUp _ e => e.message :: e.causes
  | readingFile _ e => [e.message]
  | readingInput e => [e.message]
  | rendering e => e.causes
  | listing e => e.causes

def hang (indent : Nat) (t : Text) : Text :=
  t.flatMap fun c => if c == '\n' then '\n' :: List.replicate indent ' ' else [c]

def column (n : Nat) : Text :=
  let digits := Text.ofNat n
  List.replicate (5 - digits.length) ' ' ++ digits

def numbered (first : Nat) : List Text → Text
  | [] => []
  | cause :: rest =>
    '\n' :: column first ++ ": ".toList ++ hang 7 cause ++ numbered (first + 1) rest

def report (f : Failure) : Text :=
  let heading := "\n\nCaused by:".toList
  "Error: ".toList ++ f.message ++
    (match f.causes with
      | [] => []
      | [cause] => heading ++ '\n' :: List.replicate 4 ' ' ++ hang 4 cause
      | causes => heading ++ numbered 0 causes) ++ ['\n']

end Failure

def version : Text := "highlightr 0.4.0\n".toList

def usage : Text :=
  "Usage: highlightr [-t THEME] [--theme-dir DIR] render [FILE] [-l LANGUAGE] ".toList ++
    "[--html | --json]\n".toList ++
    "       highlightr languages | themes | completions SHELL\n".toList

def lines (ts : List Text) : Text := ts.flatMap (· ++ ['\n'])

section Run
variable {G : Type} (lib : GrammarLibrary G) (reader : ArgumentReader)

def runRender (c : Config) (files : FileView) (input : ByteArray) (file : Option OsText)
    (language : Option Text) (format : OutputFormat) : Except Failure Text := do
  let h ← (c.highlighter lib files).mapError (.settingUp c.theme)
  let source ← match file with
    | some path => ((files path).bind FileNode.text).mapError (.readingFile path)
    | none => (FileNode.file input).text.mapError .readingInput
  let output ← (render h 0 language source format).mapError .rendering
  pure (if format == .terminal then output else output ++ ['\n'])

def runCommand (c : Config) (files : FileView) (input : ByteArray) : Command → Except Failure Text
  | .render file language html json =>
    runRender lib c files input file language (.ofSwitches html json)
  | .languages => (c.grammars lib files).mapError .listing |>.map fun gs => lines (lib.names gs)
  | .themes => .ok (lines (c.assets files).names)
  | .completions _ => .ok []

def run (env : Environment) (files : FileView) (input : ByteArray) (args : List OsText) : Outcome :=
  match reader env args with
  | .error .help => ⟨0, usage, []⟩
  | .error .version => ⟨0, version, []⟩
  | .error e => ⟨e.exitCode, [], usage⟩
  | .ok i =>
    match runCommand lib (i.settings env) files input i.command with
    | .ok output => ⟨0, output, []⟩
    | .error f => ⟨1, [], f.report⟩

def paths (env : Environment) (args : List OsText) : List OsText :=
  match reader env args with
  | .error _ => []
  | .ok i =>
    let c := i.settings env
    let file := match i.command with
      | .render file _ _ _ => file
      | _ => none
    c.themeDirectory.toList ++ (c.grammarDirectory.map OsText.text).toList ++ file.toList

def readsInput (env : Environment) (args : List OsText) : Bool :=
  match reader env args with
  | .ok ⟨_, _, .render none _ _ _⟩ => true
  | _ => false

end Run

end SyntaxPaint.CommandLine
