import SyntaxPaint.CommandLine.Command

/-!
An `ArgumentReader` that stands in for the option parser of the program. There are two levels, that
of the program and that of the command, and each has its own options; the options for the theme
exist on both. An option or a positional argument is settled when the next one begins, so faults in
what comes later can be found first.
-/
namespace SyntaxPaint.CommandLine

inductive Slot where
  | help
  | version
  | theme
  | themeDirectory
  | file
  | language
  | html
  | json
  | shell
  deriving DecidableEq, Repr

structure OptionSpec where
  slot : Slot
  long : Text
  short : Option Char
  takesValue : Bool
  deriving Repr

structure Level where
  options : List OptionSpec
  positional : Option Slot
  commands : List Text
  deriving Repr

namespace Level

def commonOptions : List OptionSpec := [
  ⟨.theme, "theme".toList, some 't', true⟩,
  ⟨.themeDirectory, "theme-dir".toList, none, true⟩,
  ⟨.help, "help".toList, some 'h', false⟩]

def program : Level where
  options := ⟨.version, "version".toList, some 'V', false⟩ :: commonOptions
  positional := none
  commands := ["render", "languages", "themes", "completions", "help"].map String.toList

def ofCommand (name : Text) : Level :=
  if name == "render".toList then
    { options := commonOptions ++ [
        ⟨.language, "language".toList, some 'l', true⟩,
        ⟨.html, "html".toList, none, false⟩,
        ⟨.json, "json".toList, none, false⟩]
      positional := some .file
      commands := [] }
  else
    { options := commonOptions
      positional := if name == "completions".toList then some .shell else none
      commands := [] }

end Level

structure Progress where
  found : List (Slot × Text)
  pending : Option (Slot × Option Text)
  ended : Bool
  filled : Bool
  deriving Repr

namespace Progress

def start : Progress := ⟨[], none, false, false⟩

def get? (p : Progress) (slot : Slot) : Option Text := p.found.lookup slot

def has (p : Progress) (slot : Slot) : Bool := (p.get? slot).isSome

def awaits (p : Progress) : Bool := p.pending.any (·.2.isNone)

def accepts : Slot → Text → Bool
  | .themeDirectory, value | .file, value => !value.isEmpty
  | .shell, value => (Shell.ofName? value).isSome
  | _, _ => true

def store (p : Progress) (slot : Slot) (value : Text) : Except UsageError Progress :=
  if p.has slot then .error .conflict
  else if accepts slot value then .ok { p with found := (slot, value) :: p.found }
  else .error .invalidValue

def settle (p : Progress) : Except UsageError Progress :=
  match p.pending with
  | none => .ok p
  | some (_, none) => .error .invalidValue
  | some (slot, some value) => { p with pending := none }.store slot value

def turnOn (p : Progress) (slot : Slot) : Except UsageError Progress :=
  p.settle.bind fun p =>
    match slot with
    | .help => .error .help
    | .version => .error .version
    | slot => p.store slot []

def begin (p : Progress) (slot : Slot) (value : Option Text) : Except UsageError Progress :=
  p.settle.bind fun p =>
    match value with
    | some value => p.store slot value
    | none => .ok { p with pending := some (slot, none) }

def takeLong (level : Level) (p : Progress) (written : Text) : Except UsageError Progress :=
  let (name, value) := match Text.cutAt ['='] written with
    | some (name, value) => (name, some value)
    | none => (written, none)
  match level.options.find? (·.long == name) with
  | none => .error .unknownArgument
  | some spec =>
    if spec.takesValue then p.begin spec.slot value
    else if value.isSome then .error .tooManyValues
    else p.turnOn spec.slot

def takeShort (level : Level) (p : Progress) : Text → Except UsageError Progress
  | [] => .ok p
  | c :: rest =>
    match level.options.find? (·.short == some c) with
    | none => .error .unknownArgument
    | some spec =>
      if spec.takesValue then
        p.begin spec.slot (match rest with
          | [] => none
          | '=' :: value => some value
          | value => some value)
      else (p.turnOn spec.slot).bind fun p => takeShort level p rest

def takePlain (level : Level) (p : Progress) (arg : Text) : Except UsageError Progress :=
  match (if p.filled then none else level.positional) with
  | some slot =>
    p.settle.map fun p => { p with pending := some (slot, some arg), filled := true }
  | none =>
    if level.commands.isEmpty || (p.ended && level.commands.contains arg) then
      .error .unknownArgument
    else .error .unknownCommand

def take (level : Level) (p : Progress) (arg : Text) : Except UsageError Progress :=
  if p.ended then p.takePlain level arg
  else
    match arg with
    | ['-', '-'] => .ok { p with ended := true }
    | '-' :: '-' :: written => p.takeLong level written
    | '-' :: c :: written => p.takeShort level (c :: written)
    | arg =>
      match p.pending with
      | some (slot, none) => .ok { p with pending := some (slot, some arg) }
      | _ => p.takePlain level arg

def takeAll (level : Level) (p : Progress) :
    List Text → Except UsageError (Progress × Option (Text × List Text))
  | [] => .ok (p, none)
  | arg :: args =>
    if !p.ended && !p.awaits && level.commands.contains arg then .ok (p, some (arg, args))
    else (p.take level arg).bind fun p => takeAll level p args

end Progress

/-- Settles a level that has been read. The environment is looked at only where no option speaks: a
theme has to be text, and a path must not be empty. -/
def Progress.finish (env : Environment) (p : Progress) : Except UsageError Progress :=
  p.settle.bind fun p =>
    let theme := if p.has .theme then none else env.get? themeVariable
    let path := if p.has .themeDirectory then none else env.get? directoryVariable
    if theme.any (·.text?.isNone) then .error .notText
    else if path.any (·.isEmpty) then .error .invalidValue
    else .ok p

def Progress.command (p : Progress) (name : Text) : Except UsageError Command :=
  if name == "render".toList then
    if p.has .html && p.has .json then .error .conflict
    else .ok (.render ((p.get? .file).map .text) (p.get? .language) (p.has .html) (p.has .json))
  else if name == "languages".toList then .ok .languages
  else if name == "themes".toList then .ok .themes
  else
    match (p.get? .shell).bind Shell.ofName? with
    | some shell => .ok (.completions shell)
    | none => .error .missingArgument

def helpOn : List Text → UsageError
  | [] => .help
  | [name] => if Level.program.commands.contains name then .help else .unknownCommand
  | _ => .unknownCommand

/-- Reads arguments that are text. Options of the command come before those of the program, and both
before the environment. -/
def readTexts (env : Environment) (args : List Text) : Except UsageError Invocation := do
  let (outer, next) ← Progress.start.takeAll Level.program args
  match next with
  | none =>
    let outer ← outer.finish env
    let inEnvironment := (env.get? themeVariable).isSome || (env.get? directoryVariable).isSome
    .error (if outer.found.isEmpty && !inEnvironment then .silence else .missingCommand)
  | some (name, args) =>
    if name == "help".toList then .error (helpOn args)
    else
      let (inner, _) ← Progress.start.takeAll (Level.ofCommand name) args
      let inner ← inner.finish env
      let command ← inner.command name
      let outer ← outer.finish env
      let option (slot : Slot) : Option Text := (inner.get? slot).or (outer.get? slot)
      pure ⟨(option .theme).or (env.text? themeVariable),
        ((option .themeDirectory).map .text).or (env.get? directoryVariable), command⟩

def read : ArgumentReader := fun env args =>
  match args.mapM OsText.text? with
  | none => .error .notText
  | some args => readTexts env args

end SyntaxPaint.CommandLine
