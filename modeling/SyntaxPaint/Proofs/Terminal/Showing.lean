import SyntaxPaint.Proofs.Markup.Coverage
import SyntaxPaint.Proofs.Run.Expansion
import SyntaxPaint.Terminal

/-!
What a terminal shows of written runs. Each run leaves the screen with the plain pen with which it
found it, so the runs do not touch each other's styles; and as they tile the text, all of it is
shown, once and in order (`shows_written`).
-/
namespace SyntaxPaint.Terminal
open Runs

def Pen.ofAttributes (a : Attributes) : Pen where
  bold := a.font.variant == .bold
  italic := a.font.variant == .italic || a.font.variant == .oblique
  foreground := a.foreground.map fun c => (c.red.toNat, c.green.toNat, c.blue.toNat)

namespace Screen

theorem receiveAll_append (s : Screen) (t u : Text) :
    s.receiveAll (t ++ u) = (s.receiveAll t).receiveAll u := List.foldl_append

theorem receiveAll_cons (s : Screen) (c : Char) (t : Text) :
    s.receiveAll (c :: t) = (s.receive c).receiveAll t := rfl

theorem receive_clean {s : Screen} (ready : s.reception = .ready) {t : Text}
    (clean : '\x1b' ∉ t) : s.receiveAll t = { s with shown := s.shown ++ t.map (·, s.pen) } := by
  induction t generalizing s with
  | nil => simp [receiveAll]
  | cons c t ih =>
    rw [List.mem_cons, not_or] at clean
    have shown : s.receive c = { s with shown := s.shown ++ [(c, s.pen)] } := by
      simp [receive, ready, Ne.symm clean.1]
    rw [receiveAll_cons, shown, ih (by exact ready) clean.2]
    simp

theorem receive_parameters {s : Screen} {before : Text} (within : s.reception = .within before)
    {t : Text} (parameters : ∀ c ∈ t, isParameter c = true) :
    s.receiveAll t = { s with reception := .within (before ++ t) } := by
  induction t generalizing s before with
  | nil => simp [receiveAll, ← within]
  | cons c t ih =>
    have first := parameters c List.mem_cons_self
    have printing : c ≠ '\x1b' := by
      rintro rfl
      exact absurd first (by decide)
    have collected : s.receive c = { s with reception := .within (before ++ [c]) } := by
      simp [receive, within, first, printing]
    rw [receiveAll_cons, collected, ih (by rfl) fun d later =>
      parameters d (List.mem_cons_of_mem c later)]
    simp

/- The numbers of a sequence. -/

def parameters : List Nat → Text
  | [] => []
  | [n] => Text.ofNat n
  | n :: m :: rest => Text.ofNat n ++ ';' :: parameters (m :: rest)

theorem isParameter_parameters (ns : List Nat) : ∀ c ∈ parameters ns, isParameter c = true := by
  have digits (n : Nat) : ∀ c ∈ Text.ofNat n, isParameter c = true := by
    intro c member
    rw [isParameter, Text.digits_ofNat n c member, Bool.true_or]
  induction ns with
  | nil => exact List.forall_mem_nil _
  | cons n rest ih =>
    cases rest with
    | nil => exact digits n
    | cons m rest => exact List.forall_mem_append.mpr ⟨digits n, List.forall_mem_cons.mpr ⟨rfl, ih⟩⟩

theorem numbers_parameters {ns : List Nat} (some : ns ≠ []) : numbers (parameters ns) = ns := by
  have unseparated (n : Nat) : ∀ c ∈ Text.ofNat n, (c == ';') = false := by
    intro c member
    rw [beq_eq_false_iff_ne]
    rintro rfl
    exact absurd (Text.digits_ofNat n ';' member) (by decide)
  induction ns with
  | nil => exact absurd rfl some
  | cons n rest ih =>
    unfold numbers at ih ⊢
    cases rest with
    | nil =>
      rw [parameters, List.splitOnP_eq_singleton (unseparated n)]
      simp [Text.natural?_ofNat]
    | cons m rest =>
      rw [parameters, List.splitOnP_append_cons_of_forall_mem (unseparated n) _ (by simp),
        List.map_cons, Text.natural?_ofNat, ih (by simp)]
      rfl

theorem receive_rendition {s : Screen} (ready : s.reception = .ready) {ns : List Nat}
    (some : ns ≠ []) :
    s.receiveAll (rendition (parameters ns)) = { s with pen := s.pen.select ns } := by
  have opened : s.receiveAll ['\x1b', '['] = { s with reception := .within [] } := by
    simp [receiveAll, receive]
  have split : rendition (parameters ns) = ['\x1b', '['] ++ (parameters ns ++ ['m']) := by
    simp [rendition]
  rw [split, receiveAll_append, opened, receiveAll_append,
    receive_parameters rfl (isParameter_parameters ns)]
  simp [receiveAll, receive, isParameter, ready, numbers_parameters some]

/- Runs. -/

theorem receive_face {s : Screen} (ready : s.reception = .ready) (v : FontVariant) :
    s.receiveAll (faceSequence v) = { s with pen := { s.pen with
      bold := s.pen.bold || v == .bold
      italic := s.pen.italic || (v == .italic || v == .oblique) } } := by
  have bold := receive_rendition ready (List.cons_ne_nil 1 [])
  have italic := receive_rendition ready (List.cons_ne_nil 3 [])
  cases v with
  | regular =>
    have light : (FontVariant.regular == .bold) = false := rfl
    have upright : (FontVariant.regular == .italic || FontVariant.regular == .oblique) = false :=
      rfl
    simp [faceSequence, receiveAll, light, upright]
  | bold =>
    refine bold.trans ?_
    simp [Pen.select]
  | italic =>
    refine italic.trans ?_
    simp [Pen.select]
  | oblique =>
    refine italic.trans ?_
    simp [Pen.select]

theorem receive_color {s : Screen} (ready : s.reception = .ready) (color : Option Color) :
    s.receiveAll (colorSequence color) = { s with pen := { s.pen with
      foreground := (color.map fun c => (c.red.toNat, c.green.toNat, c.blue.toNat)).or
        s.pen.foreground } } := by
  cases color with
  | none => simp [colorSequence, receiveAll]
  | some c =>
    have head : "38;2;".toList = Text.ofNat 38 ++ ';' :: (Text.ofNat 2 ++ [';']) := by decide
    have written : colorSequence (some c) =
        rendition (parameters [38, 2, c.red.toNat, c.green.toNat, c.blue.toNat]) := by
      simp [colorSequence, parameters, head]
    rw [written, receive_rendition ready (by simp)]
    simp [Pen.select]

theorem receive_run {s : Screen} (ready : s.reception = .ready) (plain : s.pen = .plain)
    {content : Text} (clean : '\x1b' ∉ content) (a : Attributes) :
    s.receiveAll (writeRun content a) =
      { s with shown := s.shown ++ content.map (·, Pen.ofAttributes a) } := by
  let style := faceSequence a.font.variant ++ colorSequence a.foreground
  have styled : s.receiveAll style = { s with pen := .ofAttributes a } := by
    rw [receiveAll_append, receive_face ready, receive_color (by exact ready), plain]
    simp [Pen.plain, Pen.ofAttributes]
  have reset : rendition ['0'] = rendition (parameters [0]) := rfl
  have inside : (s.receiveAll style).receiveAll content =
      { s with
        shown := s.shown ++ content.map (·, Pen.ofAttributes a)
        pen := .ofAttributes a } := by
    rw [styled, receive_clean (by exact ready) clean]
  show s.receiveAll (style ++ content ++ (if style.isEmpty then [] else rendition ['0'])) = _
  rw [receiveAll_append, receiveAll_append, inside]
  split
  · next none =>
    -- a run in the plain pen needs no reset
    rw [List.isEmpty_iff.mp none] at styled
    have same : s.pen = .ofAttributes a := congrArg Screen.pen styled
    rw [← same]
    rfl
  · rw [reset, receive_rendition (by exact ready) (by simp)]
    simp [Pen.select, plain]

theorem receive_runs {text : Text} (clean : '\x1b' ∉ text) {start stop : Nat} {runs : Runs}
    (tiles : Tiles start stop runs) (fits : stop ≤ text.length) {s : Screen}
    (ready : s.reception = .ready) (plain : s.pen = .plain) :
    s.receiveAll (write ⟨text, runs⟩) = { s with
      shown := s.shown ++
        ((text.take stop).drop start).zip ((expand runs).map Pen.ofAttributes) } := by
  induction runs generalizing start s with
  | nil => simp [write, receiveAll]
  | cons r rest ih =>
    obtain ⟨first, valid, tail⟩ := tiles
    have room := tiles_start_le tail
    let content := (text.take r.extent.stop).drop r.extent.start
    have written : write ⟨text, r :: rest⟩ =
        writeRun content r.attributes ++ write ⟨text, rest⟩ := by
      have lower : r.extent.start ≤ text.length := by omega
      have upper : r.extent.stop ≤ text.length := by omega
      simp [write, content, lower, upper]
    have whole : content.length = r.extent.length := by
      simp only [content, List.length_drop, List.length_take, Extent.length]
      omega
    have split : (text.take stop).drop start = content ++ (text.take stop).drop r.extent.stop := by
      have sum : stop - start = (r.extent.stop - start) + (stop - r.extent.stop) := by omega
      have reach : start + (r.extent.stop - start) = r.extent.stop := by omega
      simp only [content, first, List.drop_take]
      rw [sum, List.take_add, List.drop_drop, reach]
    have outside : '\x1b' ∉ content := fun member =>
      clean (List.mem_of_mem_take (List.mem_of_mem_drop member))
    have cells : content.map (·, Pen.ofAttributes r.attributes) =
        content.zip (List.replicate r.extent.length (Pen.ofAttributes r.attributes)) := by
      have pairs : (content.map id).zip (content.map fun _ => Pen.ofAttributes r.attributes) =
          content.map (·, Pen.ofAttributes r.attributes) := List.zip_map'
      rw [← pairs, List.map_id, List.map_const', whole]
    rw [written, receiveAll_append, receive_run ready plain outside, ih tail (by exact ready)
      (by exact plain), split, expand_cons, List.map_append, List.map_replicate,
      List.zip_append (by simpa using whole), cells]
    simp

end Screen

/-- A terminal that starts in the plain pen shows exactly the characters of the text, each in the
style of the run that looking up its position finds, and ends in the plain pen. -/
theorem shows_written {theme : Theme} {markup : Text} {t : AttributedText}
    (read : Markup.attributed theme markup = .ok t) (clean : '\x1b' ∉ t.text) :
    let screen := Screen.start.receiveAll (write t)
    screen.shown.map (·.1) = t.text ∧
    (∀ i < t.text.length, ∃ r pen, t.runs.at? i = some r ∧
      screen.shown[i]?.map (·.2) = some pen ∧
      (pen.bold = true ↔ r.attributes.font.variant = .bold) ∧
      (pen.italic = true ↔
        r.attributes.font.variant = .italic ∨ r.attributes.font.variant = .oblique) ∧
      pen.foreground = r.attributes.foreground.map
        fun c => (c.red.toNat, c.green.toNat, c.blue.toNat)) ∧
    screen.pen = .plain ∧ screen.reception = .ready := by
  intro screen
  have tiles := (Markup.attributed_canonical read).1
  let pens := (expand t.runs).map Pen.ofAttributes
  have received : screen = ⟨t.text.zip pens, .plain, .ready⟩ := by
    have whole := Screen.receive_runs clean tiles (Nat.le_refl _) (s := .start) rfl rfl
    rw [List.take_length, List.drop_zero] at whole
    exact whole
  have length : pens.length = t.text.length := by
    rw [List.length_map, length_expand tiles]
    rfl
  rw [received]
  refine ⟨List.map_fst_zip (Nat.le_of_eq length.symm), ?_, rfl, rfl⟩
  intro i upper
  obtain ⟨r, found⟩ := Option.isSome_iff_exists.mp
    ((at?_isSome_iff tiles).mpr ⟨Nat.zero_le i, upper⟩)
  have attributes : (expand t.runs)[i]? = some r.attributes := by
    have labels := getElem?_expand tiles i
    have looked := at?_attributes tiles i
    rw [Nat.zero_add] at labels
    rw [labels, ← looked, found]
    rfl
  refine ⟨r, .ofAttributes r.attributes, found, ?_, ?_, ?_, rfl⟩
  · rw [← List.getElem?_map, List.map_snd_zip (Nat.le_of_eq length), List.getElem?_map, attributes]
    rfl
  · simp [Pen.ofAttributes]
  · simp [Pen.ofAttributes]

theorem shows_written_bold_red :
    ∃ t, Markup.attributed (.standard ".k\x7bcolor:#f00;font-weight:bold\x7d".toList)
        "&copy;=<span class=\"k\">1</span>;".toList = .ok t ∧ '\x1b' ∉ t.text ∧
      let screen := Screen.start.receiveAll (write t)
      screen.shown.map (·.1) = "©=1;".toList ∧ screen.pen = .plain ∧
      write t = "©=\x1b[1m\x1b[38;2;255;0;0m1\x1b[0m;".toList := by
  have shown : (Markup.attributed (.standard ".k\x7bcolor:#f00;font-weight:bold\x7d".toList)
      "&copy;=<span class=\"k\">1</span>;".toList).toOption.map (fun t => (t.text, write t)) =
        some ("©=1;".toList, "©=\x1b[1m\x1b[38;2;255;0;0m1\x1b[0m;".toList) := by decide +kernel
  generalize reading : Markup.attributed
    (.standard ".k\x7bcolor:#f00;font-weight:bold\x7d".toList)
    "&copy;=<span class=\"k\">1</span>;".toList = result at shown ⊢
  cases result with
  | error e => cases shown
  | ok t =>
    obtain ⟨text, written⟩ := Prod.mk.inj (Option.some.inj shown)
    have clean : '\x1b' ∉ t.text := by
      rw [show t.text = "©=1;".toList from text]
      decide
    obtain ⟨characters, _, pen, _⟩ := shows_written reading clean
    exact ⟨t, rfl, clean, characters.trans text, pen, written⟩

end SyntaxPaint.Terminal
