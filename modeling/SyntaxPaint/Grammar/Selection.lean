import SyntaxPaint.Engine.Basic
import SyntaxPaint.File.Tree

/-!
An engine that chooses a grammar and leaves the rest to a library of grammars. It chooses by what
somebody calls the language, or by the first line of the source. All that it asks of the library is
what `GrammarLibrary` lists, so any library will do.
-/
namespace SyntaxPaint

/-- A library of grammars. A set of grammars is a list; `extend` adds those below a path to a set,
or tells why it cannot. Markup is written by a grammar of a set, with a common start of all classes;
a source that cannot be read gives a reason. -/
structure GrammarLibrary (G : Type) where
  name : G → Text
  extensions : G → List Text
  bundled : List G
  extend : List G → Text → Except FileError FileNode → Except Text (List G)
  named? : List G → Text → Option G
  forExtension? : List G → Text → Option G
  forFirstLine? : List G → Text → Option G
  plain? : List G → Option G
  markup : List G → G → Text → Text → Except Text Text

namespace GrammarLibrary

def classStart : Text := "hljs-".toList

def plainName : Text := "Plain Text".toList

def simplified (name : Text) : Text := Text.asciiLower (name.filter Char.isAlphanum)

def plainWords : List Text := ["text", "txt", "plain", "plaintext"].map String.toList

def aliases : List (List String × List String) := [
  (["cs", "csharp"], ["C#", "cs"]),
  (["shell", "bash", "sh", "zsh"], ["Bourne Again Shell (bash)", "bash", "sh"]),
  (["cpp", "c++"], ["C++", "cpp", "cc"]),
  (["objectivec", "objc"], ["Objective-C", "m"]),
  (["dockerfile"], ["Dockerfile", "bash", "sh"]),
  (["makefile"], ["Makefile", "make"]),
  (["latex"], ["LaTeX", "tex"]),
  (["javascript", "js"], ["JavaScript", "js"]),
  (["python", "py"], ["Python", "py"]),
  (["rust", "rs"], ["Rust", "rs"])]

def candidates (word : Text) : List Text :=
  match aliases.find? (·.1.any (·.toList == word)) with
  | some (_, names) => names.map String.toList
  | none => []

def firstLine? (source : Text) : Option Text :=
  if source.isEmpty then none
  else
    match Text.cutAt ['\n'] source with
    | some (line, _) => some ((Text.dropSuffix? ['\r'] line).getD line)
    | none => some source

variable {G : Type} (lib : GrammarLibrary G) (gs : List G)

def similar? (name : Text) : Option G :=
  gs.find? fun g =>
    Text.sameIgnoringCase (lib.name g) name ||
      (!(simplified name).isEmpty && simplified (lib.name g) == simplified name) ||
      (lib.extensions g).any (Text.sameIgnoringCase · name)

/-- The grammar that a word names: by its name, by an extension, or by something similar. -/
def candidate? (word : Text) : Option G :=
  let word := word.trim
  if word.isEmpty then none
  else ((lib.named? gs word).or (lib.forExtension? gs word)).or (lib.similar? gs word)

def select? (language : Text) : Option G :=
  let word := language.trim
  if word.isEmpty then none
  else if plainWords.contains (Text.asciiLower word) then lib.plain? gs
  else
    (lib.candidate? gs word).or
      ((candidates (Text.asciiLower word)).findSome? (lib.candidate? gs))

def detect? (source : Text) : Option G :=
  ((firstLine? source).bind (lib.forFirstLine? gs)).or (lib.plain? gs)

def names : List Text := (gs.map lib.name).eraseDups.mergeSort Text.atMost

/-- The grammar for a source in a language, or in one that has to be guessed; without the grammar
of plain text there may be none. -/
def grammarFor (language : Option Text) (source : Text) : Except HighlightError G :=
  match language with
  | some language => (lib.select? gs language).elim (.error (.unsupportedLanguage language)) .ok
  | none => (lib.detect? gs source).elim (.error .breakdown) .ok

def write (source : Text) (g : G) : Except HighlightError Text :=
  (lib.markup gs g classStart source).mapError .engine

def engine : Engine where
  reply _ language source := (lib.grammarFor gs language source).bind (lib.write gs source)
  languages := lib.names gs
  supports language := (lib.select? gs language).isSome

def bundledWith (path : Text) (found : Except FileError FileNode) :
    Except HighlightError (List G) :=
  (lib.extend lib.bundled path found).mapError fun reason =>
    .engineStart ("grammars in ".toList ++ path ++ ": ".toList ++ reason)

end GrammarLibrary

end SyntaxPaint
