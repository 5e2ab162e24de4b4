import SyntaxPaint.Proofs.Stylesheet.Tables

/-!
Tables written as sheets. A table that the reader can have made reads back as it was written, in the
same order; only classes without declarations are lost (`read_written`). The light sheet is such a
table, with the background of the document left out (`read_light`).
-/
namespace SyntaxPaint.Stylesheet
open Text

def writtenBody (ds : List Declaration) : Text :=
  ds.flatMap fun d => d.property ++ ':' :: d.value ++ [';']

def written (sheet : Stylesheet) : Text := sheet.flatMap fun c => writeClass c.name c.declarations

theorem writtenBody_cons (d : Declaration) (ds : List Declaration) :
    writtenBody (d :: ds) = d.property ++ ':' :: (d.value ++ ';' :: writtenBody ds) := by
  simp [writtenBody]

theorem written_cons (c : ClassEntry) (sheet : Stylesheet) :
    written (c :: sheet) =
      ('.' :: c.name) ++ '\x7b' :: (writtenBody c.declarations ++ '\x7d' :: written sheet) := by
  simp [written, writeClass, writtenBody]

theorem writesBody_written (ds : List Declaration) : WritesBody ds (writtenBody ds) := by
  have nothing : Blank [] := List.forall_mem_nil _
  have bare (t : Text) : Padded t t := ⟨[], [], nothing, nothing, by simp⟩
  induction ds with
  | nil => exact .stop nothing
  | cons d ds ih =>
    rw [writtenBody_cons]
    exact .next (bare _) (bare _) ih

/- Comments. -/

theorem free_writtenBody {ds : List Declaration} {t : Text} (read : ∀ d ∈ ds, d.ReadFrom t)
    (free : ¬ "/*".toList <:+: t) : ¬ "/*".toList <:+: writtenBody ds := by
  induction ds with
  | nil => decide
  | cons d ds ih =>
    have first := read d List.mem_cons_self
    have rest := ih fun e later => read e (List.mem_cons_of_mem d later)
    rw [writtenBody_cons]
    intro inside
    rcases infix_around (by decide) inside with front | behind
    · obtain ⟨p, here, lowered⟩ := first.property
      rw [lowered] at front
      exact free ((infix_of_asciiLower (by decide) front).trans here)
    · rcases infix_around (by decide) behind with front | behind
      · exact free (front.trans first.value)
      · exact rest behind

theorem free_written {sheet : Stylesheet} {t : Text}
    (legible : ∀ c ∈ sheet, c.Legible (·.ReadFrom t)) (free : ¬ "/*".toList <:+: t) :
    ¬ "/*".toList <:+: written sheet := by
  induction sheet with
  | nil => decide
  | cons c sheet ih =>
    have first := legible c List.mem_cons_self
    rw [written_cons]
    intro inside
    rcases infix_around (by decide) inside with front | behind
    · -- a slash is no part of a name
      have slash : '/' ∈ '.' :: c.name := front.subset List.mem_cons_self
      rcases List.mem_cons.mp slash with dot | letter
      · cases dot
      · exact absurd (first.letters _ letter) (by decide)
    · rcases infix_around (by decide) behind with front | behind
      · exact free_writtenBody first.merged.fit free front
      · exact ih (fun other later => legible other (List.mem_cons_of_mem c later)) behind

/- Rules. -/

theorem plain_selector {name : Text} (letters : ∀ ch ∈ name, isNameChar ch = true) :
    Text.Plain ('.' :: name) := by
  intro c member
  rcases List.mem_cons.mp member with rfl | letter
  · decide
  · by_contra delimiter
    have letter := letters c letter
    rw [Bool.not_eq_false] at delimiter
    simp only [isDelimiter, Bool.or_eq_true, beq_iff_eq] at delimiter
    rcases delimiter with (rfl | rfl) | rfl <;> exact absurd letter (by decide)

theorem rules_table {sheet : Stylesheet} {t : Text}
    (legible : ∀ c ∈ sheet, c.Legible (·.ReadFrom t)) :
    rules (written sheet) = sheet.map fun c => ('.' :: c.name, writtenBody c.declarations) := by
  induction sheet with
  | nil => exact rules_unopened List.not_mem_nil
  | cons c sheet ih =>
    have first := legible c List.mem_cons_self
    have writable : ∀ d ∈ c.declarations, d.Writable :=
      fun d member => (first.merged.fit d member).writable
    rw [written_cons, rules_next (plain_selector first.letters)
      (braces_body writable (writesBody_written c.declarations)),
      ih fun other later => legible other (List.mem_cons_of_mem c later), List.map_cons]

theorem bodyDeclarations_written {ds : List Declaration} {t : Text}
    (merged : Merged (·.ReadFrom t) ds) : bodyDeclarations (writtenBody ds) = ds := by
  have settled : ds.map tidy = ds.map id :=
    List.map_congr_left fun d member => (merged.fit d member).settled
  unfold bodyDeclarations
  rw [parts_written (fun d member => (merged.fit d member).writable) (writesBody_written ds),
    settled, List.map_id, foldl_add_nil merged.distinct]

theorem visible_letter {c : Char} (letter : isNameChar c = true) : isBlank c = false := by
  unfold isNameChar at letter
  simp only [Bool.or_eq_true, beq_iff_eq] at letter
  rcases letter with (alphanum | rfl) | rfl
  · exact visible_alphanum alphanum
  · decide
  · decide

theorem selectorClasses_name {name : Text} (filled : name ≠ [])
    (letters : ∀ ch ∈ name, isNameChar ch = true) : selectorClasses ('.' :: name) = [name] := by
  have whole : ∀ c ∈ '.' :: name, (c == ',' || isBlank c) = false := by
    intro c member
    rcases List.mem_cons.mp member with rfl | inside
    · decide
    · have letter := letters c inside
      have comma : c ≠ ',' := by
        rintro rfl
        exact absurd letter (by decide)
      simp [comma, visible_letter letter]
  have found : partClass? ('.' :: name) = some name :=
    partClass?_eq_some.mpr ⟨filled, letters, List.suffix_rfl⟩
  unfold selectorClasses
  rw [List.splitOnP_eq_singleton whole, List.filterMap_cons_some found, List.filterMap_nil]

theorem addRule_written {c : ClassEntry} {t : Text} (legible : c.Legible (·.ReadFrom t))
    {sheet : Stylesheet} (new : c.name ∉ sheet.map (·.name)) :
    addRule sheet ('.' :: c.name, writtenBody c.declarations) =
      sheet ++ [c].filter (!·.declarations.isEmpty) := by
  have unknown : sheet.any (·.name == c.name) = false := by
    simpa [List.any_eq_false] using new
  unfold addRule
  rw [bodyDeclarations_written legible.merged, List.filter_singleton]
  dsimp only
  split
  · next none => simp [none]
  · next some =>
    rw [selectorClasses_name legible.filled legible.letters, List.foldl_cons, List.foldl_nil, add,
      if_neg (by simp [unknown]), foldl_add_nil legible.merged.distinct]
    simp [some]

theorem addRules_written {sheet front : Stylesheet} {t : Text}
    (distinct : ((front ++ sheet).map (·.name)).Nodup)
    (legible : ∀ c ∈ sheet, c.Legible (·.ReadFrom t)) :
    (sheet.map fun c => ('.' :: c.name, writtenBody c.declarations)).foldl addRule front =
      front ++ sheet.filter (!·.declarations.isEmpty) := by
  induction sheet generalizing front with
  | nil => simp
  | cons c sheet ih =>
    have new : c.name ∉ front.map (·.name) := by
      rw [List.map_append, List.nodup_append] at distinct
      exact fun earlier => distinct.2.2 _ earlier _ (by simp) rfl
    rw [List.map_cons, List.foldl_cons, addRule_written (legible c List.mem_cons_self) new, ih]
    · rw [List.append_assoc, ← List.filter_append, List.singleton_append]
    · have shorter : ((front ++ [c].filter (!·.declarations.isEmpty)) ++ sheet).Sublist
          (front ++ c :: sheet) := by
        rw [List.append_assoc]
        exact (List.Sublist.refl front).append
          (List.filter_sublist.append (List.Sublist.refl sheet))
      exact distinct.sublist (shorter.map _)
    · exact fun other later => legible other (List.mem_cons_of_mem c later)

/-- A table that can have been read is read again from its written form, but for its empty
classes. -/
theorem read_written {sheet : Stylesheet} {t : Text} (distinct : (sheet.map (·.name)).Nodup)
    (legible : ∀ c ∈ sheet, c.Legible (·.ReadFrom t)) (free : ¬ "/*".toList <:+: t) :
    read (written sheet) = sheet.filter (!·.declarations.isEmpty) := by
  unfold read
  rw [withoutComments_eq (free_written legible free), rules_table legible]
  exact addRules_written distinct legible

/- The light sheet. -/

def lightened (c : ClassEntry) : ClassEntry :=
  { c with declarations := c.declarations.filter (!isDocumentBackground c.name ·) }

/-- The table without the background of the document, and without a class that declares nothing
else. -/
def withoutBackground (sheet : Stylesheet) : Stylesheet :=
  (sheet.map lightened).filter (!·.declarations.isEmpty)

theorem light_eq (sheet : Stylesheet) : sheet.light = written (sheet.map lightened) := by
  simp [light, written, lightened, List.flatMap_map]

theorem legible_lightened {fits : Declaration → Prop} {c : ClassEntry} (legible : c.Legible fits) :
    (lightened c).Legible fits where
  filled := legible.filled
  letters := legible.letters
  merged :=
    { distinct := legible.merged.distinct.sublist (List.filter_sublist.map _)
      fit := fun d member => legible.merged.fit d (List.mem_filter.mp member).1 }

theorem read_light {css : Text} (free : ¬ "/*".toList <:+: withoutComments css) :
    read (read css).light = (read css).withoutBackground := by
  have sound := sound_read css
  have names : ((read css).map lightened).map (·.name) = (read css).map (·.name) := by
    rw [List.map_map]
    rfl
  rw [light_eq, read_written (names ▸ sound.distinct) _ free]
  · rfl
  · intro c member
    obtain ⟨old, inside, rfl⟩ := List.mem_map.mp member
    exact legible_lightened (sound.legible old inside)

theorem class?_cons (c : ClassEntry) (sheet : Stylesheet) (name : Text) :
    class? (c :: sheet) name =
      if c.name = name then some c.declarations else sheet.class? name := by
  unfold class?
  rw [List.find?_cons]
  by_cases here : c.name = name
  · rw [beq_iff_eq.mpr here, if_pos here]
    rfl
  · rw [beq_eq_false_iff_ne.mpr here, if_neg here]

theorem class?_withoutBackground {sheet : Stylesheet} (distinct : (sheet.map (·.name)).Nodup)
    (name : Text) :
    sheet.withoutBackground.class? name =
      ((sheet.class? name).map (·.filter (!isDocumentBackground name ·))).filter (!·.isEmpty) := by
  induction sheet with
  | nil => rfl
  | cons c sheet ih =>
    obtain ⟨new, distinct⟩ := List.nodup_cons.mp distinct
    have rest := ih distinct
    have split : withoutBackground (c :: sheet) =
        if (lightened c).declarations.isEmpty then withoutBackground sheet
        else lightened c :: withoutBackground sheet := by
      unfold withoutBackground
      rw [List.map_cons, List.filter_cons]
      cases (lightened c).declarations.isEmpty <;> rfl
    have name' : (lightened c).name = c.name := rfl
    rw [split, class?_cons]
    by_cases here : c.name = name
    · subst here
      have absent : class? sheet c.name = none := by
        unfold class?
        rw [Option.map_eq_none_iff, List.find?_eq_none]
        intro d member same
        exact new (List.mem_map.mpr ⟨d, member, beq_iff_eq.mp same⟩)
      rw [absent] at rest
      rw [if_pos rfl, Option.map_some, Option.filter_some]
      split
      · next none =>
        have none : (c.declarations.filter (!isDocumentBackground c.name ·)).isEmpty = true := none
        rw [rest, none]
        rfl
      · next some =>
        have some : (c.declarations.filter (!isDocumentBackground c.name ·)).isEmpty = false :=
          Bool.eq_false_iff.mpr some
        rw [class?_cons, name', if_pos rfl, some]
        rfl
    · rw [if_neg here, ← rest]
      split
      · rfl
      · rw [class?_cons, name', if_neg here]

end SyntaxPaint.Stylesheet
