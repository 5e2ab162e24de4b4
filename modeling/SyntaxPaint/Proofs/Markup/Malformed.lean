import SyntaxPaint.Proofs.Markup.Coverage
import SyntaxPaint.Proofs.Text.Cutting

/-!
Malformed markup. The scanner reads the part in front of a `<` as it reads that part alone, so it
fails exactly behind a part that can be read, at an opening tag without an end. A theme has no say
in that.
-/
namespace SyntaxPaint.Markup

theorem except_map_map {ε α β γ : Type} (f : β → γ) (g : α → β) (x : Except ε α) :
    (x.map g).map f = x.map (f ∘ g) := by
  cases x <;> rfl

theorem noPrefix_append {body t : Text} (headOnly : '<' ∉ body)
    (noPrefix : ¬ '<' :: body <+: '<' :: t) (rest : Text) :
    ¬ '<' :: body <+: '<' :: (t ++ '<' :: rest) := by
  simp only [List.cons_prefix_cons, true_and] at noPrefix ⊢
  intro starts
  have ends : t <+: t ++ '<' :: rest := List.prefix_append _ _
  rcases Nat.lt_or_ge t.length body.length with longer | within
  · have upto : t ++ ['<'] <+: t ++ '<' :: rest := ⟨rest, by simp⟩
    have fits : (t ++ ['<']).length ≤ body.length := by
      rw [List.length_append, List.length_singleton]
      exact longer
    have inside := List.prefix_of_prefix_length_le upto starts fits
    exact headOnly (inside.subset (by simp))
  · exact noPrefix (List.prefix_of_prefix_length_le starts ends within)

theorem tokens_front {plain : Text} (noTag : '<' ∉ plain) (offset : Nat) (rest : Text) :
    tokens offset (plain ++ '<' :: rest) =
      (tokens (offset + Text.utf8Length plain) ('<' :: rest)).map (textToken plain ++ ·) := by
  have alone := @tokens_tag [] rest (offset + Text.utf8Length plain) List.not_mem_nil
  rw [List.nil_append] at alone
  rw [tokens_tag offset noTag, alone]
  simp only [Text.utf8Length, textToken, List.foldl_nil, List.isEmpty_nil, if_true, List.nil_append,
    Nat.add_zero]
  split
  · split
    · rfl
    · rw [except_map_map]
      rfl
  · split
    · rw [except_map_map]
      rfl
    · rw [except_map_map]
      rfl

theorem tokens_append {p : Text} {ts : List Token} (scan : Scan p ts) (offset : Nat)
    (rest : Text) :
    tokens offset (p ++ '<' :: rest) =
      (tokens (offset + Text.utf8Length p) ('<' :: rest)).map (ts ++ ·) := by
  induction scan generalizing offset with
  | stop noTag => exact tokens_front noTag offset rest
  | @opening plain behind classes after ts noTag cut _ ih =>
    have more := Text.cutAt_append (by decide) cut ('<' :: rest)
    rw [List.append_assoc, List.append_assoc, tokens_openingStart offset noTag, more]
    dsimp only
    rw [ih, except_map_map, Text.cutAt_eq_some cut]
    simp [Text.utf8Length_append, Function.comp_def, Nat.add_assoc]
  | @closing plain after ts noTag _ ih =>
    rw [List.append_assoc, List.append_assoc, tokens_closing offset noTag, ih, except_map_map]
    simp [Text.utf8Length_append, Function.comp_def, Nat.add_assoc]
  | @lone plain after ts noTag noOpening noClosing _ ih =>
    have stillNoOpening := noPrefix_append (by decide) noOpening rest
    have stillNoClosing := noPrefix_append (by decide) noClosing rest
    have lone : Text.utf8Length ('<' :: after) = 1 + Text.utf8Length after :=
      Text.utf8Length_append ['<'] after
    rw [List.append_assoc, List.cons_append,
      tokens_lone offset noTag stillNoOpening stillNoClosing, ih, except_map_map]
    simp [Text.utf8Length_append, lone, Function.comp_def, Nat.add_assoc]

theorem scan_or_unended (t : Text) :
    (∃ ts, Scan t ts) ∨
      ∃ p ts r, t = p ++ (openingStart ++ r) ∧ Scan p ts ∧ Text.cutAt openingEnd r = none := by
  induction size : t.length using Nat.strongRecOn generalizing t with
  | ind size ih =>
    subst size
    rcases plain_or_tag t with noTag | ⟨plain, after, rfl, noTag⟩
    · exact Or.inl ⟨_, .stop noTag⟩
    · have whole : (plain ++ '<' :: after).length = plain.length + (after.length + 1) := by simp
      by_cases opens : openingStart <+: '<' :: after
      · obtain ⟨behind, split⟩ := opens
        rw [← split]
        cases cut : Text.cutAt openingEnd behind with
        | none => exact Or.inr ⟨plain, _, behind, rfl, .stop noTag, cut⟩
        | some found =>
          obtain ⟨classes, later⟩ := found
          have short := Text.length_lt_of_cutAt (by decide) cut
          have fits := congrArg List.length split
          rw [List.length_append, List.length_cons] at fits
          rcases ih later.length (by omega) later rfl with
            ⟨ts, scan⟩ | ⟨p, ts, r, rfl, scan, unended⟩
          · exact Or.inl ⟨_, .opening noTag cut scan⟩
          · -- The class list ends in front of the torn tag, so it ends there in the front alone.
            have front : Text.cutAt openingEnd (classes ++ openingEnd ++ p) =
                some (classes, p) := by
              apply Text.cutAt_front (by decide)
              rw [← cut, Text.cutAt_eq_some cut]
              simp
            refine Or.inr ⟨_, _, r, ?_, .opening noTag front scan, unended⟩
            rw [Text.cutAt_eq_some cut]
            simp
      · by_cases closes : closingTag <+: '<' :: after
        · obtain ⟨behind, split⟩ := closes
          rw [← split]
          have fits := congrArg List.length split
          rw [List.length_append, List.length_cons] at fits
          have tag : closingTag.length = 7 := rfl
          rcases ih behind.length (by omega) behind rfl with
            ⟨ts, scan⟩ | ⟨p, ts, r, rfl, scan, unended⟩
          · exact Or.inl ⟨_, .closing noTag scan⟩
          · exact Or.inr ⟨_, _, r, by simp, .closing noTag scan, unended⟩
        · rcases ih after.length (by omega) after rfl with
            ⟨ts, scan⟩ | ⟨p, ts, r, rfl, scan, unended⟩
          · exact Or.inl ⟨_, .lone noTag opens closes scan⟩
          · have start : '<' :: p <+: '<' :: (p ++ (openingStart ++ r)) :=
              List.prefix_append ('<' :: p) _
            exact Or.inr ⟨_, _, r, by simp, .lone noTag (fun first => opens (first.trans start))
              (fun first => closes (first.trans start)) scan, unended⟩

theorem tokens_unended {p r : Text} {ts : List Token} (scan : Scan p ts)
    (unended : Text.cutAt openingEnd r = none) (offset : Nat) :
    tokens offset (p ++ (openingStart ++ r)) = .error (offset + Text.utf8Length p) := by
  have tag : openingStart ++ r = '<' :: (openingStart.tail ++ r) := rfl
  have alone := @tokens_openingStart [] (offset + Text.utf8Length p) List.not_mem_nil r
  rw [List.nil_append, unended] at alone
  rw [tag, tokens_append scan, ← tag, alone]
  rfl

/- Themes. -/

theorem segments_text (style style' : List Text → Attributes) (ts : List Token)
    (stack stack' : List Text) :
    (segments style stack ts).flatMap (·.1) = (segments style' stack' ts).flatMap (·.1) := by
  induction ts generalizing stack stack' with
  | nil => rfl
  | cons token ts ih =>
    cases token with
    | opening classes => exact ih _ _
    | closing => exact ih _ _
    | text content =>
      simp only [segments, List.flatMap_cons]
      rw [ih]

theorem attributed_error_iff {theme : Theme} {markup : Text} {e : HighlightError} :
    attributed theme markup = .error e ↔
      ∃ offset, tokens 0 markup = .error offset ∧ e = .unterminatedTag offset := by
  unfold attributed
  cases tokens 0 markup with
  | error offset => simp [eq_comm]
  | ok ts => simp

theorem attributed_ok_iff {theme : Theme} {markup : Text} :
    (∃ t, attributed theme markup = .ok t) ↔ ∃ ts, Scan markup ts := by
  constructor
  · rintro ⟨t, read⟩
    exact scan_of_attributed read
  · rintro ⟨ts, scan⟩
    rw [attributed, tokens_of_scan scan]
    exact ⟨_, rfl⟩

theorem text_of_other_theme {theme : Theme} {markup : Text} {t : AttributedText}
    (read : attributed theme markup = .ok t) (other : Theme) :
    ∃ t', attributed other markup = .ok t' ∧ t'.text = t.text := by
  obtain ⟨ts, scan⟩ := scan_of_attributed read
  rw [attributed, tokens_of_scan scan] at read
  obtain rfl := Except.ok.inj read
  rw [attributed, tokens_of_scan scan]
  refine ⟨_, rfl, ?_⟩
  dsimp only [decode]
  rw [segments_text other.resolve theme.resolve ts [documentClass] [documentClass]]

/-- Markup that can be read up to an opening tag, and no further, because the tag does not end. -/
structure Torn (theme : Theme) (markup front behind : Text) : Prop where
  split : markup = front ++ (openingStart ++ behind)
  read : ∃ t, attributed theme front = .ok t
  unended : ¬ openingEnd <:+: behind

theorem attributed_of_torn {theme : Theme} {markup front behind : Text}
    (torn : Torn theme markup front behind) :
    attributed theme markup = .error (.unterminatedTag (Text.utf8Length front)) := by
  obtain ⟨ts, scan⟩ := attributed_ok_iff.mp torn.read
  have uncut := Text.cutAt_none (by decide) torn.unended
  have failed := tokens_unended scan uncut 0
  rw [← torn.split, Nat.zero_add] at failed
  exact attributed_error_iff.mpr ⟨_, failed, rfl⟩

theorem torn_unique {theme : Theme} {markup front front' behind behind' : Text}
    (torn : Torn theme markup front behind) (torn' : Torn theme markup front' behind') :
    front' = front ∧ behind' = behind := by
  have same := (attributed_of_torn torn).symm.trans (attributed_of_torn torn')
  have lengths : Text.utf8Length front = Text.utf8Length front' := by
    simpa using same
  have fronts : front = front' :=
    Text.eq_of_utf8Length ⟨_, torn.split.symm⟩ ⟨_, torn'.split.symm⟩ lengths
  subst fronts
  have rests := torn.split.symm.trans torn'.split
  exact ⟨rfl, (List.append_cancel_left (List.append_cancel_left rests)).symm⟩

theorem torn_of_error {theme : Theme} {markup : Text} {e : HighlightError}
    (failed : attributed theme markup = .error e) :
    ∃ front behind, Torn theme markup front behind := by
  rcases scan_or_unended markup with ⟨ts, scan⟩ | ⟨front, ts, behind, split, scan, uncut⟩
  · obtain ⟨t, read⟩ : ∃ t, attributed theme markup = .ok t := attributed_ok_iff.mpr ⟨ts, scan⟩
    rw [read] at failed
    cases failed
  · exact ⟨front, behind, split, attributed_ok_iff.mpr ⟨ts, scan⟩, Text.notInfix_of_cutAt uncut⟩

/-- Reading fails exactly at an opening tag without an end behind a part that can be read. There is
one such tag, the error has its offset, and no theme changes that or the text that is read. -/
theorem attributed_torn (theme : Theme) (markup : Text) :
    ((∃ e, attributed theme markup = .error e) ↔
        ∃ front behind, Torn theme markup front behind) ∧
      (∀ front behind, Torn theme markup front behind →
        attributed theme markup = .error (.unterminatedTag (Text.utf8Length front)) ∧
          ∀ front' behind', Torn theme markup front' behind' →
            front' = front ∧ behind' = behind) ∧
      ∀ other : Theme,
        (∀ e, attributed theme markup = .error e ↔ attributed other markup = .error e) ∧
          ∀ t, attributed theme markup = .ok t →
            ∃ t', attributed other markup = .ok t' ∧ t'.text = t.text := by
  refine ⟨⟨?_, ?_⟩, ?_, ?_⟩
  · rintro ⟨e, failed⟩
    exact torn_of_error failed
  · rintro ⟨front, behind, torn⟩
    exact ⟨_, attributed_of_torn torn⟩
  · intro front behind torn
    exact ⟨attributed_of_torn torn, fun front' behind' torn' => torn_unique torn torn'⟩
  · intro other
    constructor
    · intro e
      rw [attributed_error_iff, attributed_error_iff]
    · intro t read
      exact text_of_other_theme read other

theorem attributed_torn_behind_lone_mark :
    let theme : Theme := .standard ".k\x7bcolor:#f00\x7d".toList
    let markup := "é<sp<span class=\"a<span class=\"".toList
    Torn theme markup ['é', '<', 's', 'p'] "a<span class=\"".toList ∧
      attributed theme markup = .error (.unterminatedTag 5) ∧
        attributed (.standard []) markup = .error (.unterminatedTag 5) := by
  intro theme markup
  have scan : Scan (['é'] ++ '<' :: ['s', 'p']) _ :=
    .lone (by decide) (by decide) (by decide) (.stop (by decide))
  have torn : Torn theme markup ['é', '<', 's', 'p'] "a<span class=\"".toList :=
    ⟨by decide +kernel, attributed_ok_iff.mpr ⟨_, scan⟩, by decide +kernel⟩
  obtain ⟨_, failing, others⟩ := attributed_torn theme markup
  have failed := (failing _ _ torn).1
  exact ⟨torn, failed, ((others (.standard [])).1 _).mp failed⟩

end SyntaxPaint.Markup
