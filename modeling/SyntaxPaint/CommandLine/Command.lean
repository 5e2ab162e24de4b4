import SyntaxPaint.Config

/-!
What the command line can ask for, and the settings of an invocation: those of the environment, with
the options on top. Which arguments ask for what is left to a reader of the arguments.
-/
namespace SyntaxPaint.CommandLine

inductive Shell where
  | bash
  | elvish
  | fish
  | powershell
  | zsh
  deriving DecidableEq, Repr

namespace Shell

def name : Shell → Text
  | bash => "bash".toList
  | elvish => "elvish".toList
  | fish => "fish".toList
  | powershell => "powershell".toList
  | zsh => "zsh".toList

def ofName? (t : Text) : Option Shell := [bash, elvish, fish, powershell, zsh].find? (·.name == t)

end Shell

inductive Command where
  | render (file : Option OsText) (language : Option Text) (html json : Bool)
  | languages
  | themes
  | completions (shell : Shell)
  deriving DecidableEq

structure Invocation where
  theme : Option Text
  themeDirectory : Option OsText
  command : Command
  deriving DecidableEq

def Invocation.settings (i : Invocation) (env : Environment) : Config :=
  (Config.ofEnvironment env).withOptions i.theme i.themeDirectory

inductive UsageError where
  | help
  | version
  | silence
  | missingCommand
  | unknownCommand
  | unknownArgument
  | missingArgument
  | invalidValue
  | tooManyValues
  | conflict
  | notText
  deriving DecidableEq, Repr

def UsageError.exitCode : UsageError → Nat
  | help | version => 0
  | _ => 2

abbrev ArgumentReader := Environment → List OsText → Except UsageError Invocation

def themeVariable : Text := "HIGHLIGHTR_THEME".toList

def directoryVariable : Text := "HIGHLIGHTR_THEME_DIR".toList

end SyntaxPaint.CommandLine
