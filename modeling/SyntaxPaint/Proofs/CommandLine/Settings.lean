import SyntaxPaint.CommandLine.Reader
import SyntaxPaint.Proofs.Text.Cutting

/-!
What the program works with when its options say nothing about themes. Let the reader of the
arguments then take over the variables as they stand, whatever else it does (`FillsIn`). Since the
settings of the environment trim their variables and want text, the two agree on some environments
only (`settings_from_environment`). The reader of this library is one of that kind: reading
arguments that do not name an option for themes keeps what is settled and what is pending free of
such options, on both levels, so the environment fills in (`fillsIn_read`).
-/
namespace SyntaxPaint.CommandLine

/- Results. -/

section Ensures
variable {ε α β : Type} {P : α → Prop} {Q : β → Prop}

def Ensures (P : α → Prop) : Except ε α → Prop
  | .ok a => P a
  | .error _ => True

theorem Ensures.bind {x : Except ε α} {f : α → Except ε β} (first : Ensures P x)
    (later : ∀ a, P a → Ensures Q (f a)) : Ensures Q (x.bind f) := by
  cases x with
  | ok a => exact later a first
  | error e => trivial

theorem Ensures.map {x : Except ε α} {f : α → β} (first : Ensures P x)
    (later : ∀ a, P a → Q (f a)) : Ensures Q (x.map f) := by
  cases x with
  | ok a => exact later a first
  | error e => trivial

end Ensures

/- Arguments that say something about themes. -/

def Slot.isTheme : Slot → Bool
  | .theme | .themeDirectory => true
  | _ => false

def isThemeOption : Text → Bool
  | '-' :: '-' :: written =>
    ["theme".toList, "theme-dir".toList].contains (written.takeWhile (· != '='))
  | '-' :: c :: _ => c == 't'
  | _ => false

def givesTheme (args : List Text) : Bool := (args.takeWhile (· != ['-', '-'])).any isThemeOption

theorem givesTheme_cons {arg : Text} (option : arg ≠ ['-', '-']) (args : List Text) :
    givesTheme (arg :: args) = (isThemeOption arg || givesTheme args) := by
  rw [givesTheme, List.takeWhile_cons_of_pos (by simpa using option), List.any_cons]
  rfl

structure Level.Regular (level : Level) : Prop where
  long : ∀ spec ∈ level.options, spec.slot.isTheme = true →
    spec.long ∈ ["theme".toList, "theme-dir".toList]
  short : ∀ spec ∈ level.options, spec.slot.isTheme = true →
    spec.short = none ∨ spec.short = some 't'
  switch : ∀ spec ∈ level.options, spec.short.isSome = true → spec.takesValue = false →
    spec.slot = .help ∨ spec.slot = .version
  positional : ∀ slot ∈ level.positional, slot.isTheme = false
  commands : ['-', '-'] ∉ level.commands

theorem Level.regular_program : Level.program.Regular := by
  constructor <;> decide

theorem Level.regular_ofCommand (name : Text) : (Level.ofCommand name).Regular := by
  unfold Level.ofCommand
  split
  · constructor <;> decide
  · split
    · constructor <;> decide
    · constructor <;> decide

/- Steps of reading. -/

namespace Progress

/-- Nothing about themes has been read, and in the arguments to come there is nothing about them. -/
structure Unthemed (args : List Text) (p : Progress) : Prop where
  found : ∀ e ∈ p.found, e.1.isTheme = false
  pending : ∀ e ∈ p.pending, e.1.isTheme = false
  coming : p.ended = false → givesTheme args = false

variable {args : List Text} {p : Progress}

theorem Unthemed.get?_eq_none (u : p.Unthemed args) {slot : Slot} (theme : slot.isTheme = true) :
    p.get? slot = none := by
  apply List.lookup_eq_none_iff.mpr
  intro e member
  rw [bne_iff_ne]
  rintro rfl
  rw [u.found e member] at theme
  cases theme

theorem unthemed_store (u : p.Unthemed args) {slot : Slot} (other : slot.isTheme = false)
    (value : Text) : Ensures (Unthemed args) (p.store slot value) := by
  unfold store
  split
  · trivial
  · split
    · exact ⟨List.forall_mem_cons.mpr ⟨other, u.found⟩, u.pending, u.coming⟩
    · trivial

theorem unthemed_settle (u : p.Unthemed args) : Ensures (Unthemed args) p.settle := by
  unfold settle
  split
  · exact u
  · trivial
  · next slot value waiting =>
    have rest : Unthemed args { p with pending := none } := ⟨u.found, nofun, u.coming⟩
    exact unthemed_store rest (u.pending (slot, some value) waiting) value

theorem unthemed_turnOn (u : p.Unthemed args) {slot : Slot} (other : slot.isTheme = false) :
    Ensures (Unthemed args) (p.turnOn slot) := by
  apply (unthemed_settle u).bind
  intro p u
  split
  · trivial
  · trivial
  · exact unthemed_store u other []

theorem unthemed_begin (u : p.Unthemed args) {slot : Slot} (other : slot.isTheme = false)
    (value : Option Text) : Ensures (Unthemed args) (p.begin slot value) := by
  apply (unthemed_settle u).bind
  intro p u
  cases value with
  | some value => exact unthemed_store u other value
  | none =>
    refine ⟨u.found, ?_, u.coming⟩
    rintro e ⟨⟩
    exact other

variable {level : Level}

theorem unthemed_takeLong (regular : level.Regular) (u : p.Unthemed args) {written : Text}
    (other : isThemeOption ('-' :: '-' :: written) = false) :
    Ensures (Unthemed args) (p.takeLong level written) := by
  unfold takeLong
  split
  next name value cut =>
    have called : name = written.takeWhile (· != '=') := by
      rw [← Text.takeWhile_of_cutAt_char]
      cases found : Text.cutAt ['='] written with
      | none =>
        rw [found] at cut
        cases cut
        rfl
      | some halves =>
        rw [found] at cut
        cases cut
        rfl
    rw [isThemeOption, ← called] at other
    split
    · trivial
    · next spec found =>
      have silent : spec.slot.isTheme = false := by
        by_contra theme
        have long : spec.long = name := by simpa using List.find?_some found
        have named := regular.long spec (List.mem_of_find?_eq_some found) (by simpa using theme)
        rw [long, ← List.contains_iff_mem] at named
        rw [named] at other
        cases other
      split
      · exact unthemed_begin u silent value
      · split
        · trivial
        · exact unthemed_turnOn u silent

theorem unthemed_takeShort (regular : level.Regular) (u : p.Unthemed args) {c : Char}
    (other : c ≠ 't') (rest : Text) : Ensures (Unthemed args) (p.takeShort level (c :: rest)) := by
  unfold takeShort
  split
  · trivial
  · next spec found =>
    have member := List.mem_of_find?_eq_some found
    have called : spec.short = some c := by simpa using List.find?_some found
    have silent : spec.slot.isTheme = false := by
      by_contra theme
      have letter := regular.short spec member (by simpa using theme)
      simp [called, other] at letter
    split
    · exact unthemed_begin u silent _
    · next bare =>
      -- The rest of the argument is read only if the switch does not end the reading.
      have ends : Ensures (fun _ => False) (p.turnOn spec.slot) := by
        apply (unthemed_settle u).bind
        intro p u
        have named : spec.short.isSome = true := by simp [called]
        rcases regular.switch spec member named (by simpa using bare) with help | version
        · rw [help]
          trivial
        · rw [version]
          trivial
      exact ends.bind fun _ => False.elim

theorem unthemed_takePlain (regular : level.Regular) (u : p.Unthemed args) (arg : Text) :
    Ensures (Unthemed args) (p.takePlain level arg) := by
  unfold takePlain
  split
  · next slot plain =>
    have positional : slot ∈ level.positional := by
      split at plain
      · cases plain
      · exact plain
    apply (unthemed_settle u).map
    intro p u
    refine ⟨u.found, ?_, u.coming⟩
    rintro e ⟨⟩
    exact regular.positional slot positional
  · split <;> trivial

theorem unthemed_take (regular : level.Regular) {arg : Text} (u : p.Unthemed (arg :: args)) :
    Ensures (Unthemed args) (p.take level arg) := by
  unfold take
  cases ended : p.ended with
  | true =>
    have rest : p.Unthemed args := ⟨u.found, u.pending, by simp [ended]⟩
    exact unthemed_takePlain regular rest arg
  | false =>
    by_cases dashes : arg = ['-', '-']
    · subst dashes
      exact ⟨u.found, u.pending, nofun⟩
    · have split := u.coming ended
      rw [givesTheme_cons dashes, Bool.or_eq_false_iff] at split
      obtain ⟨other, later⟩ := split
      have rest : p.Unthemed args := ⟨u.found, u.pending, fun _ => later⟩
      simp only [Bool.false_eq_true, if_false]
      split
      · exact absurd rfl dashes
      · exact unthemed_takeLong regular rest other
      · next c written _ _ =>
        have letter : c ≠ 't' := by
          rintro rfl
          cases other
        exact unthemed_takeShort regular rest letter written
      · split
        · next slot waiting =>
          refine ⟨u.found, ?_, fun _ => later⟩
          rintro e ⟨⟩
          exact u.pending (slot, none) waiting
        · exact unthemed_takePlain regular rest arg

theorem unthemed_takeAll (regular : level.Regular) (u : p.Unthemed args) :
    Ensures (fun r => r.1.Unthemed [] ∧ ∀ next ∈ r.2, givesTheme next.2 = false)
      (p.takeAll level args) := by
  induction args generalizing p with
  | nil => exact ⟨u, nofun⟩
  | cons arg args ih =>
    unfold takeAll
    split
    · next command =>
      simp only [Bool.and_eq_true, Bool.not_eq_true', List.contains_iff_mem] at command
      have dashes : arg ≠ ['-', '-'] := by
        rintro rfl
        exact regular.commands command.2
      have split := u.coming command.1.1
      rw [givesTheme_cons dashes, Bool.or_eq_false_iff] at split
      refine ⟨⟨u.found, u.pending, fun _ => rfl⟩, ?_⟩
      rintro next ⟨⟩
      exact split.2
    · exact (unthemed_take regular u).bind fun p u => ih u

theorem unthemed_start (unthemed : givesTheme args = false) : start.Unthemed args :=
  ⟨nofun, nofun, fun _ => unthemed⟩

theorem unthemed_finish (u : p.Unthemed args) (env : Environment) :
    Ensures (fun q => q.Unthemed args ∧
      (env.text? themeVariable).map OsText.text = env.get? themeVariable) (p.finish env) := by
  apply (unthemed_settle u).bind
  intro q u
  have absent (slot : Slot) (theme : slot.isTheme = true) : q.has slot = false := by
    rw [has, u.get?_eq_none theme]
    rfl
  rw [absent .theme rfl, absent .themeDirectory rfl]
  simp only [Bool.false_eq_true, if_false]
  split
  · trivial
  · next whole =>
    split
    · trivial
    · refine ⟨u, ?_⟩
      unfold Environment.text?
      cases given : env.get? themeVariable with
      | none => rfl
      | some value =>
        cases value with
        | text t => rfl
        | raw bytes broken => simp [given, OsText.text?] at whole

end Progress

/-- Whether a reader lets the environment speak where the options say nothing about themes: what an
option would have given is then the value of its variable, unchanged. -/
structure FillsIn (reader : ArgumentReader) : Prop where
  theme : ∀ env args i, givesTheme (args.map OsText.display) = false → reader env args = .ok i →
    i.theme.map OsText.text = env.get? themeVariable
  directory : ∀ env args i, givesTheme (args.map OsText.display) = false →
    reader env args = .ok i → i.themeDirectory = env.get? directoryVariable

theorem readTexts_unthemed {args : List Text} (unthemed : givesTheme args = false)
    (env : Environment) :
    Ensures (fun i => i.theme.map OsText.text = env.get? themeVariable ∧
      i.themeDirectory = env.get? directoryVariable) (readTexts env args) := by
  unfold readTexts
  apply (Progress.unthemed_takeAll Level.regular_program (Progress.unthemed_start unthemed)).bind
  rintro ⟨outer, next⟩ ⟨u, later⟩
  cases next with
  | none =>
    exact (Progress.unthemed_finish u env).bind fun _ _ => trivial
  | some next =>
    obtain ⟨name, rest⟩ := next
    have started := Progress.unthemed_start (later (name, rest) rfl)
    dsimp only
    split
    · trivial
    · apply (Progress.unthemed_takeAll (Level.regular_ofCommand name) started).bind
      rintro ⟨inner, _⟩ ⟨v, _⟩
      apply (Progress.unthemed_finish v env).bind
      rintro inner ⟨v, whole⟩
      apply Ensures.bind (P := fun _ => True)
      · cases inner.command name <;> trivial
      · intro command _
        apply (Progress.unthemed_finish u env).bind
        rintro outer ⟨u, _⟩
        have silent {slot : Slot} (theme : slot.isTheme = true) :
            (inner.get? slot).or (outer.get? slot) = none := by
          rw [u.get?_eq_none theme, v.get?_eq_none theme]
          rfl
        show ((((inner.get? .theme).or (outer.get? .theme)).or (env.text? themeVariable)).map
            OsText.text = env.get? themeVariable) ∧
          ((((inner.get? .themeDirectory).or (outer.get? .themeDirectory)).map OsText.text).or
            (env.get? directoryVariable) = env.get? directoryVariable)
        rw [silent rfl, silent rfl]
        exact ⟨whole, rfl⟩

theorem display_of_text? {args : List OsText} {texts : List Text}
    (whole : args.mapM OsText.text? = some texts) : args.map OsText.display = texts := by
  induction args generalizing texts with
  | nil =>
    cases whole
    rfl
  | cons arg args ih =>
    cases arg with
    | raw bytes broken => cases whole
    | text t =>
      obtain ⟨rest, found, rfl⟩ :
          ∃ rest, args.mapM OsText.text? = some rest ∧ t :: rest = texts := by
        simpa [OsText.text?, Option.bind_eq_some_iff] using whole
      rw [List.map_cons, ih found]
      rfl

theorem fillsIn_read : FillsIn read := by
  have given (env : Environment) (args : List OsText) (i : Invocation)
      (unthemed : givesTheme (args.map OsText.display) = false) (ok : read env args = .ok i) :
      i.theme.map OsText.text = env.get? themeVariable ∧
        i.themeDirectory = env.get? directoryVariable := by
    unfold read at ok
    split at ok
    · cases ok
    · next texts whole =>
      rw [display_of_text? whole] at unthemed
      have found := readTexts_unthemed unthemed env
      rw [ok] at found
      exact found
  exact ⟨fun env args i unthemed ok => (given env args i unthemed ok).1,
    fun env args i unthemed ok => (given env args i unthemed ok).2⟩

/- The settings. -/

theorem theme_untrimmed (env : Environment) :
    let written := (env.text? themeVariable).filter fun name => !name.trim.isEmpty
    written.getD (Config.ofEnvironment env).theme = written.getD Config.standard.theme ∧
    (written.getD Config.standard.theme = (Config.ofEnvironment env).theme ↔
      ∀ name ∈ env.text? themeVariable, name.trim = name ∨ name.trim = []) := by
  have meant : (Config.ofEnvironment env).theme =
      (env.filled? themeVariable).getD Config.standard.theme := rfl
  rw [meant]
  cases given : env.text? themeVariable with
  | none =>
    rw [Environment.filled?_eq_none (by simp [given])]
    simp
  | some name =>
    by_cases blank : name.trim = []
    · rw [Environment.filled?_eq_none (by simp [given, blank])]
      simp [Option.filter_some, blank]
    · rw [Environment.filled?_eq_some given blank]
      have swapped : name = name.trim ↔ name.trim = name := eq_comm
      simpa [Option.filter_some, blank] using swapped

theorem directory_untrimmed (env : Environment) :
    (env.get? directoryVariable).or (Config.ofEnvironment env).themeDirectory =
      env.get? directoryVariable ∧
    (env.get? directoryVariable = (Config.ofEnvironment env).themeDirectory ↔
      ∀ path ∈ env.get? directoryVariable, ∃ t, path = .text t ∧ t ≠ [] ∧ t.trim = t) := by
  have meant : (Config.ofEnvironment env).themeDirectory =
      (env.filled? directoryVariable).map .text := rfl
  rw [meant]
  cases given : env.get? directoryVariable with
  | none =>
    rw [Environment.filled?_eq_none (by simp [Environment.text?, given])]
    simp
  | some path =>
    refine ⟨rfl, ?_⟩
    cases path with
    | raw bytes broken =>
      rw [Environment.filled?_eq_none (by simp [Environment.text?, given, OsText.text?])]
      simp
    | text t =>
      have read : env.text? directoryVariable = some t := by
        simp [Environment.text?, given, OsText.text?]
      by_cases blank : t.trim = []
      · rw [Environment.filled?_eq_none (by simp [read, blank])]
        have unfilled : ¬ (t ≠ [] ∧ t.trim = t) := by
          rintro ⟨filled, same⟩
          exact filled (same.symm.trans blank)
        simpa using unfilled
      · rw [Environment.filled?_eq_some read blank]
        constructor
        · intro same
          have bare : t = t.trim := OsText.text.inj (Option.some.inj same)
          rintro path ⟨⟩
          refine ⟨t, rfl, ?_, bare.symm⟩
          rintro rfl
          exact blank rfl
        · intro bare
          obtain ⟨u, same, _, trimmed⟩ := bare (.text t) rfl
          obtain rfl := OsText.text.inj same
          rw [Option.map_some, trimmed]

/-- Without options for themes, the settings are those of the environment in every field but the
theme and its directory, for which the variables are taken as they stand. So they are the settings
of the environment if and only if there are no blanks around the theme, unless it is nothing but
blank, and the directory is text that is not empty and has no blanks around it. -/
theorem settings_from_environment {reader : ArgumentReader} (fillsIn : FillsIn reader)
    {env : Environment} {args : List OsText} {i : Invocation}
    (unthemed : givesTheme (args.map OsText.display) = false) (ok : reader env args = .ok i) :
    i.settings env = { Config.ofEnvironment env with
        theme := ((env.text? themeVariable).filter fun name => !name.trim.isEmpty).getD
          Config.standard.theme
        themeDirectory := env.get? directoryVariable } ∧
    (i.settings env = Config.ofEnvironment env ↔
      (∀ name ∈ env.text? themeVariable, name.trim = name ∨ name.trim = []) ∧
        ∀ path ∈ env.get? directoryVariable, ∃ t, path = .text t ∧ t ≠ [] ∧ t.trim = t) := by
  have theme : i.theme = env.text? themeVariable := by
    rw [Environment.text?, ← fillsIn.theme env args i unthemed ok]
    cases i.theme <;> rfl
  have directory := fillsIn.directory env args i unthemed ok
  obtain ⟨themeValue, themeAgrees⟩ := theme_untrimmed env
  obtain ⟨directoryValue, directoryAgrees⟩ := directory_untrimmed env
  have settings : i.settings env = { Config.ofEnvironment env with
      theme := ((env.text? themeVariable).filter fun name => !name.trim.isEmpty).getD
        Config.standard.theme
      themeDirectory := env.get? directoryVariable } := by
    rw [Invocation.settings, Config.withOptions, theme, directory, themeValue, directoryValue]
  refine ⟨settings, ?_⟩
  rw [settings, ← themeAgrees, ← directoryAgrees, Config.mk.injEq]
  simp

theorem settings_from_environment_font :
    let env : Environment := ⟨[(themeVariable, .text "github".toList),
      ("HIGHLIGHTR_FONT_FAMILY".toList, .text " Menlo ".toList)]⟩
    let args := ["render", "-l", "rust", "--", "--theme"].map fun arg => OsText.text arg.toList
    let i : Invocation := ⟨some "github".toList, none,
      .render (some (.text "--theme".toList)) (some "rust".toList) false false⟩
    FillsIn read ∧ givesTheme (args.map OsText.display) = false ∧ read env args = .ok i ∧
      i.settings env = Config.ofEnvironment env := by
  intro env args i
  have unthemed : givesTheme (args.map OsText.display) = false := by decide
  have ok : read env args = .ok i := by rfl
  refine ⟨fillsIn_read, unthemed, ok,
    (settings_from_environment fillsIn_read unthemed ok).2.mpr ⟨?_, ?_⟩⟩
  · decide
  · rintro path ⟨⟩

/-- The environment's settings trim the name of the theme, the program's do not. -/
theorem padded_theme_kept :
    let env : Environment := ⟨[(themeVariable, .text " github ".toList)]⟩
    let args := [OsText.text "themes".toList]
    let i : Invocation := ⟨some " github ".toList, none, .themes⟩
    FillsIn read ∧ givesTheme (args.map OsText.display) = false ∧ read env args = .ok i ∧
      (i.settings env).theme = " github ".toList ∧
        (Config.ofEnvironment env).theme = "github".toList := by
  refine ⟨fillsIn_read, ?_⟩
  decide

end SyntaxPaint.CommandLine
