import SyntaxPaint.Proofs.Stylesheet.Writing
import SyntaxPaint.Proofs.Text.Casing

/-!
What holds of every table that the reader makes, whatever the text was: classes and properties do
not repeat, no class is empty, and each declaration could have been written as it stands in the
table (`sound_read`).
-/
namespace SyntaxPaint
open Text

/-- A declaration that the reader can have found in a text. It is as the table holds it, and could
be written again; only the letters of its property need not stand in the text as they are. -/
structure Declaration.ReadFrom (t : Text) (d : Declaration) : Prop where
  writable : d.Writable
  settled : Stylesheet.tidy d = d
  property : ∃ p, p <:+: t ∧ d.property = asciiLower p
  value : d.value <:+: t

theorem Declaration.ReadFrom.mono {t u : Text} {d : Declaration} (read : d.ReadFrom t)
    (inside : t <:+: u) : d.ReadFrom u := by
  obtain ⟨p, here, lowered⟩ := read.property
  exact ⟨read.writable, read.settled, ⟨p, here.trans inside, lowered⟩, read.value.trans inside⟩

structure Merged (fits : Declaration → Prop) (ds : List Declaration) : Prop where
  distinct : (ds.map (·.property)).Nodup
  fit : ∀ d ∈ ds, fits d

structure ClassEntry.Legible (fits : Declaration → Prop) (c : ClassEntry) : Prop where
  filled : c.name ≠ []
  letters : ∀ ch ∈ c.name, Stylesheet.isNameChar ch = true
  merged : Merged fits c.declarations

namespace Stylesheet

structure Sound (fits : Declaration → Prop) (sheet : Stylesheet) : Prop where
  distinct : (sheet.map (·.name)).Nodup
  legible : ∀ c ∈ sheet, c.Legible fits
  declares : ∀ c ∈ sheet, c.declarations ≠ []

/- Rules and their bodies. -/

theorem rules_body {t : Text} {rule : Text × Text} (member : rule ∈ rules t) :
    rule.2 <:+: t ∧ '\x7b' ∉ rule.2 ∧ '\x7d' ∉ rule.2 := by
  fun_induction rules t with
  | case1 t _ => cases member
  | case2 t before inside opens _ => cases member
  | case3 t before inside opens body after closes nested ih =>
    obtain ⟨within, free⟩ := ih member
    have split := cutAt_eq_some opens
    exact ⟨within.trans ⟨before ++ ['\x7b'], [], by simp [split]⟩, free⟩
  | case4 t before inside opens body after closes flat ih =>
    have split := cutAt_eq_some opens
    have split' := cutAt_eq_some closes
    rcases List.mem_cons.mp member with rfl | later
    · refine ⟨⟨before ++ ['\x7b'], '\x7d' :: after, by simp [split, split']⟩, ?_, ?_⟩
      · simpa using flat
      · exact notMem_of_cutAt closes
    · obtain ⟨within, free⟩ := ih later
      exact ⟨within.trans ⟨before ++ ['\x7b'] ++ body ++ ['\x7d'], [], by simp [split, split']⟩,
        free⟩

theorem plain_within {t u : Text} (plain : u.Plain) (inside : t <:+: u) : t.Plain :=
  fun c member => plain c (inside.subset member)

theorem plain_asciiLower {t : Text} (plain : t.Plain) : (asciiLower t).Plain := by
  intro c member
  obtain ⟨d, inside, lower⟩ := List.mem_map.mp member
  by_contra delimiter
  rw [Bool.not_eq_false] at delimiter
  have unlettered : ¬ (97 ≤ c.toNat ∧ c.toNat ≤ 122) := by
    simp only [isDelimiter, Bool.or_eq_true, beq_iff_eq] at delimiter
    rcases delimiter with (rfl | rfl) | rfl <;> decide
  obtain rfl := eq_of_toLower lower unlettered
  rw [plain d inside] at delimiter
  cases delimiter

theorem partDeclaration?_from {part : Text} {d : Declaration} (plain : part.Plain)
    (found : partDeclaration? part = some d) : d.ReadFrom part := by
  unfold partDeclaration? at found
  split at found
  · cases found
  · next property value cut =>
    have split := cutAt_eq_some cut
    have colonless := notMem_of_cutAt cut
    have front : property <:+: part := ⟨[], ':' :: value, by simp [split]⟩
    have back : value <:+: part := ⟨property ++ [':'], [], by simp [split]⟩
    have front' := (infix_trim property).trans front
    have back' := (infix_trim value).trans back
    dsimp only at found
    split at found
    · cases found
    · next some =>
      obtain rfl := Option.some.inj found
      simp only [Bool.or_eq_true, List.isEmpty_iff, not_or] at some
      have named : property.trim ≠ [] := fun none => some.1 (by rw [none]; rfl)
      obtain ⟨c, inProperty, visible⟩ := exists_visible named
      constructor
      case writable =>
        refine ⟨plain_asciiLower (plain_within plain front'), ?_, plain_within plain back', ?_,
          exists_visible some.2⟩
        · intro member
          obtain ⟨d, inside, lower⟩ := List.mem_map.mp member
          obtain rfl := eq_of_toLower lower (by decide)
          exact colonless ((infix_trim property).subset inside)
        · exact ⟨c.toLower, List.mem_map_of_mem inProperty, by rwa [isBlank_toLower]⟩
      case settled =>
        simp only [tidy, trim_asciiLower, trim_trim, asciiLower_asciiLower]
      case property => exact ⟨property.trim, front', rfl⟩
      case value => exact back'

/- Merging. -/

theorem merged_add {fits : Declaration → Prop} {ds : List Declaration} (merged : Merged fits ds)
    {d : Declaration} (fit : fits d) : Merged fits (Declaration.add ds d) := by
  unfold Declaration.add
  constructor
  case distinct =>
    rw [List.map_append, List.nodup_append]
    refine ⟨merged.distinct.sublist (List.filter_sublist.map _), by simp, ?_⟩
    intro p earlier q here
    obtain rfl := List.mem_singleton.mp here
    obtain ⟨e, member, rfl⟩ := List.mem_map.mp earlier
    simpa using (List.mem_filter.mp member).2
  case fit =>
    intro e member
    rcases List.mem_append.mp member with earlier | here
    · exact merged.fit e (List.mem_filter.mp earlier).1
    · exact List.mem_singleton.mp here ▸ fit

theorem merged_foldl {fits : Declaration → Prop} {ds old : List Declaration}
    (merged : Merged fits old) (fit : ∀ d ∈ ds, fits d) :
    Merged fits (ds.foldl Declaration.add old) := by
  induction ds generalizing old with
  | nil => exact merged
  | cons d ds ih =>
    exact ih (merged_add merged (fit d List.mem_cons_self)) fun e later =>
      fit e (List.mem_cons_of_mem d later)

theorem merged_nil (fits : Declaration → Prop) : Merged fits [] :=
  ⟨List.nodup_nil, List.forall_mem_nil _⟩

theorem foldl_add_ne_nil {ds old : List Declaration} (some : old ≠ [] ∨ ds ≠ []) :
    ds.foldl Declaration.add old ≠ [] := by
  induction ds generalizing old with
  | nil => exact some.resolve_right (by simp)
  | cons d ds ih => exact ih (Or.inl (by simp [Declaration.add]))

theorem foldl_add_distinct {ds old : List Declaration}
    (distinct : ((old ++ ds).map (·.property)).Nodup) :
    ds.foldl Declaration.add old = old ++ ds := by
  induction ds generalizing old with
  | nil => simp
  | cons d ds ih =>
    have kept : old.filter (·.property != d.property) = old := by
      rw [List.filter_eq_self]
      intro e member
      rw [List.map_append, List.nodup_append] at distinct
      rw [bne_iff_ne]
      exact distinct.2.2 _ (List.mem_map_of_mem member) _ (by simp)
    have split : old ++ d :: ds = (old ++ [d]) ++ ds := by simp
    rw [split] at distinct
    rw [List.foldl_cons, Declaration.add, kept, ih distinct, split]

theorem foldl_add_nil {ds : List Declaration} (distinct : (ds.map (·.property)).Nodup) :
    ds.foldl Declaration.add [] = ds := by
  have whole : ds.foldl Declaration.add [] = [] ++ ds := foldl_add_distinct distinct
  exact whole

theorem merged_body {body : Text} (braces : '\x7b' ∉ body ∧ '\x7d' ∉ body) :
    Merged (·.ReadFrom body) (bodyDeclarations body) := by
  refine merged_foldl (merged_nil _) ?_
  intro d member
  obtain ⟨part, piece, found⟩ := List.mem_filterMap.mp member
  obtain ⟨inside, clean⟩ := split_pieces piece
  refine (partDeclaration?_from ?_ found).mono inside
  intro c here
  have inBody := inside.subset here
  have notOpening : c ≠ '\x7b' := fun same => braces.1 (same ▸ inBody)
  have notClosing : c ≠ '\x7d' := fun same => braces.2 (same ▸ inBody)
  simp [isDelimiter, clean c here, notOpening, notClosing]

/- Tables. -/

theorem names_add (sheet : Stylesheet) (name : Text) (ds : List Declaration) :
    (sheet.add name ds).map (·.name) =
      if name ∈ sheet.map (·.name) then sheet.map (·.name) else sheet.map (·.name) ++ [name] := by
  unfold add
  have known : sheet.any (·.name == name) = true ↔ name ∈ sheet.map (·.name) := by
    simp [List.any_eq_true]
  by_cases here : name ∈ sheet.map (·.name)
  · rw [if_pos (known.mpr here), if_pos here, List.map_map]
    apply List.map_congr_left
    intro c _
    rw [Function.comp_apply]
    split <;> rfl
  · rw [if_neg (fun has => here (known.mp has)), if_neg here, List.map_append, List.map_singleton]

theorem sound_nil (fits : Declaration → Prop) : Sound fits [] :=
  ⟨List.nodup_nil, List.forall_mem_nil _, List.forall_mem_nil _⟩

theorem sound_add {fits : Declaration → Prop} {sheet : Stylesheet} (sound : sheet.Sound fits)
    {name : Text} (filled : name ≠ []) (letters : ∀ ch ∈ name, isNameChar ch = true)
    {ds : List Declaration} (some : ds ≠ []) (fit : ∀ d ∈ ds, fits d) :
    (sheet.add name ds).Sound fits := by
  have classes : ∀ c ∈ sheet.add name ds, c.Legible fits ∧ c.declarations ≠ [] := by
    intro c member
    unfold add at member
    split at member
    · obtain ⟨old, inside, rfl⟩ := List.mem_map.mp member
      have before := sound.legible old inside
      split
      · exact ⟨⟨before.filled, before.letters, merged_foldl before.merged fit⟩,
          foldl_add_ne_nil (Or.inr some)⟩
      · exact ⟨before, sound.declares old inside⟩
    · rcases List.mem_append.mp member with earlier | new
      · exact ⟨sound.legible c earlier, sound.declares c earlier⟩
      · obtain rfl := List.mem_singleton.mp new
        exact ⟨⟨filled, letters, merged_foldl (merged_nil _) fit⟩,
          foldl_add_ne_nil (Or.inr some)⟩
  refine ⟨?_, fun c member => (classes c member).1, fun c member => (classes c member).2⟩
  rw [names_add]
  split
  · exact sound.distinct
  · next new => exact List.nodup_append.mpr ⟨sound.distinct, by simp, by simpa using new⟩

theorem named_of_selected {selector name : Text} (member : name ∈ selectorClasses selector) :
    name ≠ [] ∧ ∀ ch ∈ name, isNameChar ch = true := by
  obtain ⟨part, _, found⟩ := List.mem_filterMap.mp member
  obtain ⟨filled, letters, _⟩ := partClass?_eq_some.mp found
  exact ⟨filled, letters⟩

theorem sound_addRule {fits : Declaration → Prop} {sheet : Stylesheet} (sound : sheet.Sound fits)
    {rule : Text × Text} (fit : ∀ d ∈ bodyDeclarations rule.2, fits d) :
    (addRule sheet rule).Sound fits := by
  unfold addRule
  dsimp only
  split
  · exact sound
  · next some =>
    have some : bodyDeclarations rule.2 ≠ [] := by simpa using some
    have named : ∀ name ∈ selectorClasses rule.1, _ := fun _ member => named_of_selected member
    generalize selectorClasses rule.1 = selected at named
    induction selected generalizing sheet with
    | nil => exact sound
    | cons name selected ih =>
      obtain ⟨filled, letters⟩ := named name List.mem_cons_self
      exact ih (sound_add sound filled letters some fit) fun other later =>
        named other (List.mem_cons_of_mem name later)

theorem sound_addRules {fits : Declaration → Prop} {found : List (Text × Text)}
    (fit : ∀ rule ∈ found, ∀ d ∈ bodyDeclarations rule.2, fits d) {sheet : Stylesheet}
    (sound : sheet.Sound fits) : (found.foldl addRule sheet).Sound fits := by
  induction found generalizing sheet with
  | nil => exact sound
  | cons rule found ih =>
    exact ih (fun other later => fit other (List.mem_cons_of_mem rule later))
      (sound_addRule sound (fit rule List.mem_cons_self))

theorem sound_read (css : Text) : (read css).Sound (·.ReadFrom (withoutComments css)) := by
  refine sound_addRules ?_ (sound_nil _)
  intro rule member d here
  obtain ⟨inside, braces⟩ := rules_body member
  exact ((merged_body braces).fit d here).mono inside

end Stylesheet

end SyntaxPaint
