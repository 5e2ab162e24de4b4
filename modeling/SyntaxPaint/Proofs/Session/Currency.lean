import SyntaxPaint.Proofs.Markup.Coverage
import SyntaxPaint.Proofs.Session.Line

/-!
Which theme and which language a pass is painted under. A call that changes one of them asks for a
pass over everything, and so takes a token that makes the passes under way stale. Where the observer
refuses, no token is taken, and a pass under way is still painted as it was issued. Those are the
only passes that can be out of date (`painted_current_unless_refused`).
-/
namespace SyntaxPaint.Session

structure Current (s : Session) (job : Job) : Prop where
  language : s.language = some job.language
  theme : s.theme = job.theme

/-- The observer refuses the pass after a call that has changed the theme or the language, or that
finds the buffer empty: over an empty buffer they change without asking for a pass. -/
structure Refused (s : Session) (call : HostCall) : Prop where
  token : (s.perform call).token = s.token
  asked : (s.perform call).notices ≠ s.notices
  outdates : (s.perform call).theme ≠ s.theme ∨ (s.perform call).language ≠ s.language ∨
    s.buffer.length = 0

def RefusedSince (start : Session) (earlier later : List Turn) : Prop :=
  ∃ front call back, later = front ++ .call call :: back ∧
    Refused (start.run (earlier ++ front)) call

theorem refusedSince_append {start : Session} {earlier later : List Turn}
    (refused : RefusedSince start earlier later) (t : Turn) :
    RefusedSince start earlier (later ++ [t]) := by
  obtain ⟨front, call, back, rfl, refusal⟩ := refused
  exact ⟨front, call, back ++ [t], by simp, refusal⟩

structure Emptied (s : Session) : Prop where
  buffer : s.buffer.length = 0
  language : s.language ≠ none

/-- A call has issued the job, and it is still current, or would be stale before there is text
again, or a call since was refused. -/
def Traced (start : Session) (turns : List Turn) (s : Session) (job : Job) : Prop :=
  ∃ earlier call later, turns = earlier ++ .call call :: later ∧
    Issue (start.run earlier) (start.run (earlier ++ [.call call])) job ∧
    (Current s job ∨ Emptied s ∨ RefusedSince start (earlier ++ [.call call]) later)

def Tended (start : Session) (turns : List Turn) (s : Session) : Prop :=
  ∀ job ∈ s.worker.line, job.token = s.token → Traced start turns s job

/- Calls. -/

theorem rehighlight_quiet {s : Session} (language : s.language ≠ none)
    (token : s.rehighlight.token = s.token) (notices : s.rehighlight.notices = s.notices) :
    s.rehighlight = s ∧ s.buffer.length = 0 := by
  obtain ⟨same, none | empty⟩ := request_quiet token notices
  · exact absurd none language
  · exact ⟨same, Nat.le_zero.mp empty⟩

theorem restyle_quiet {s : Session} {highlighter : Highlighter} (language : s.language ≠ none)
    (token : (s.restyle highlighter).token = s.token)
    (notices : (s.restyle highlighter).notices = s.notices) :
    (s.restyle highlighter).language ≠ none ∧ (s.restyle highlighter).buffer.length = 0 := by
  obtain ⟨same, empty⟩ : s.restyle highlighter =
      { s with
        highlighter
        buffer := s.buffer.withDefaults highlighter.theme.baseAttributes } ∧
      s.buffer.length = 0 := rehighlight_quiet language token notices
  rw [same]
  exact ⟨language, empty⟩

theorem perform_quiet {s : Session} {call : HostCall} (language : s.language ≠ none)
    (token : (s.perform call).token = s.token) (notices : (s.perform call).notices = s.notices) :
    (s.perform call).language ≠ none ∧ ((s.perform call).buffer.length = 0 ∨
      s.buffer.length ≠ 0 ∧ (s.perform call).theme = s.theme ∧
        (s.perform call).language = s.language) := by
  have unchanged : s.language ≠ none ∧ (s.buffer.length = 0 ∨
      s.buffer.length ≠ 0 ∧ s.theme = s.theme ∧ s.language = s.language) :=
    ⟨language, (Nat.eq_zero_or_pos _).imp_right fun some => ⟨Nat.ne_of_gt some, rfl, rfl⟩⟩
  cases call with
  | replace e text =>
    rw [perform_replace] at token notices ⊢
    cases done : s.buffer.replace e text with
    | none => exact unchanged
    | some result =>
      obtain ⟨edit, buffer⟩ := result
      rw [done] at token notices
      obtain ⟨same, none | behind⟩ := request_quiet (s := { s with buffer }) token notices
      · exact absurd none language
      · dsimp only
        rw [same]
        refine ⟨language, ?_⟩
        rcases Nat.eq_zero_or_pos s.buffer.length with empty | some
        · -- an edit of the empty buffer stands in its first line
          left
          obtain ⟨within, order, fits, _, rfl, _⟩ := TextBuffer.replace_eq_some done
          have first := buffer.lineOf_le ⟨.characters, within, text.length⟩
          dsimp only at first behind
          show buffer.length = 0
          omega
        · exact Or.inr ⟨Nat.ne_of_gt some, rfl, rfl⟩
  | setAttributes e attributes =>
    obtain ⟨buffer, done, text⟩ := perform_setAttributes s e attributes
    have length : buffer.length = s.buffer.length := congrArg List.length text
    rw [done]
    refine ⟨language, ?_⟩
    dsimp only
    rw [length]
    exact unchanged.2
  | setLanguage chosen =>
    unfold perform setLanguage at token notices ⊢
    dsimp only at token notices ⊢
    generalize chosen.filter (!·.isEmpty) = named at token notices ⊢
    cases named with
    | none => simp at token
    | some name =>
      obtain ⟨same, empty⟩ := rehighlight_quiet (s := { s with language := some name })
        (by simp) token notices
      dsimp only
      rw [same]
      exact ⟨by simp, Or.inl empty⟩
  | setTheme name =>
    rcases perform_setTheme s name with same | ⟨highlighter, done⟩
    · rwa [same]
    · rw [done] at token notices ⊢
      obtain ⟨chosen, empty⟩ := restyle_quiet language token notices
      exact ⟨chosen, Or.inl empty⟩
  | setFonts code italic bold =>
    obtain ⟨chosen, empty⟩ := restyle_quiet language token notices
    exact ⟨chosen, Or.inl empty⟩
  | setCodeFont code =>
    obtain ⟨chosen, empty⟩ := restyle_quiet language token notices
    exact ⟨chosen, Or.inl empty⟩
  | setLineSpacing spacing =>
    obtain ⟨chosen, empty⟩ := restyle_quiet language token notices
    exact ⟨chosen, Or.inl empty⟩
  | rehighlight =>
    obtain ⟨same, empty⟩ := rehighlight_quiet language token notices
    have same : s.perform .rehighlight = s := same
    rw [same]
    exact ⟨language, Or.inl empty⟩

theorem traced_later {start s after : Session} {turns : List Turn} {job : Job}
    (traced : Traced start turns s job) (t : Turn)
    (kept : Current s job ∨ Emptied s → Current after job ∨ Emptied after) :
    Traced start (turns ++ [t]) after job := by
  obtain ⟨earlier, call, later, rfl, issue, state⟩ := traced
  refine ⟨earlier, call, later ++ [t], by simp, issue, ?_⟩
  rcases state with current | empty | refused
  · exact (kept (Or.inl current)).imp_right Or.inl
  · exact (kept (Or.inr empty)).imp_right Or.inl
  · exact Or.inr (Or.inr (refusedSince_append refused t))

theorem language_of_state {s : Session} {job : Job} (state : Current s job ∨ Emptied s) :
    s.language ≠ none := by
  rcases state with current | empty
  · rw [current.language]
    simp
  · exact empty.language

theorem state_quiet {s : Session} {job : Job} (state : Current s job ∨ Emptied s)
    {call : HostCall} (token : (s.perform call).token = s.token)
    (notices : (s.perform call).notices = s.notices) :
    Current (s.perform call) job ∨ Emptied (s.perform call) := by
  obtain ⟨language, empty | ⟨some, theme, chosen⟩⟩ :=
    perform_quiet (language_of_state state) token notices
  · exact Or.inr ⟨empty, language⟩
  · rcases state with current | empty
    · exact Or.inl ⟨chosen.trans current.language, theme.trans current.theme⟩
    · exact absurd empty.buffer some

theorem traced_refused {start s : Session} {turns : List Turn} (here : s = start.run turns)
    {job : Job} (traced : Traced start turns s job) {call : HostCall}
    (token : (s.perform call).token = s.token) (asked : (s.perform call).notices ≠ s.notices) :
    Traced start (turns ++ [.call call]) (s.perform call) job := by
  by_cases outdates : (s.perform call).theme ≠ s.theme ∨ (s.perform call).language ≠ s.language ∨
    s.buffer.length = 0
  · obtain ⟨earlier, call', later, rfl, issue, _⟩ := traced
    refine ⟨earlier, call', later ++ [.call call], by simp, issue, Or.inr (Or.inr ?_)⟩
    refine ⟨later, call, [], rfl, ?_⟩
    rw [List.append_assoc, List.singleton_append, ← here]
    exact ⟨token, asked, outdates⟩
  · simp only [not_or, not_not] at outdates
    obtain ⟨theme, language, some⟩ := outdates
    refine traced_later traced _ ?_
    rintro (current | empty)
    · exact Or.inl ⟨language.trans current.language, theme.trans current.theme⟩
    · exact absurd empty.buffer some

theorem tended_untaken {start s : Session} {turns : List Turn} (here : s = start.run turns)
    (tended : Tended start turns s) {call : HostCall} (token : (s.perform call).token = s.token)
    (worker : (s.perform call).worker = s.worker) :
    Tended start (turns ++ [.call call]) (s.perform call) := by
  unfold Tended
  rw [worker, token]
  intro job member newest
  have traced := tended job member newest
  by_cases asked : (s.perform call).notices = s.notices
  · exact traced_later traced _ fun state => state_quiet state token asked
  · exact traced_refused here traced token asked

theorem tended_call {start s : Session} {turns : List Turn} (here : s = start.run turns)
    (lined : Lined s) (tended : Tended start turns s) (call : HostCall) :
    Tended start (turns ++ [.call call]) (s.perform call) := by
  have taken (token : (s.perform call).token = s.token + 1)
      (worker : (s.perform call).worker = s.worker) :
      Tended start (turns ++ [.call call]) (s.perform call) := by
    unfold Tended
    rw [worker, token]
    intro job member newest
    have older := lined.bound job member
    omega
  cases perform_effect s call with
  | quiet token worker _ => exact tended_untaken here tended token worker
  | refused _ token worker _ => exact tended_untaken here tended token worker
  | abandoned token worker _ _ => exact taken token worker
  | failed _ token worker _ _ => exact taken token worker
  | issued job issue _ _ =>
    unfold Tended
    rw [issue.enqueued, Worker.line_enqueue, issue.taken]
    intro other member newest
    rcases List.mem_append.mp member with earlier | last
    · have older := lined.bound other earlier
      omega
    · obtain rfl := List.mem_singleton.mp last
      have made : start.run (turns ++ [.call call]) = s.perform call := by
        rw [run_concat, ← here]
        rfl
      refine ⟨turns, call, [], rfl, ?_, Or.inl ⟨issue.language, issue.theme.symm⟩⟩
      rw [made, ← here]
      exact issue

theorem tended_passed {start s after : Session} {turns : List Turn} (tended : Tended start turns s)
    (t : Turn) (passed : Passed s after) : Tended start (turns ++ [t]) after := by
  unfold Tended
  rw [passed.token]
  intro job member newest
  refine traced_later (tended job (passed.line.subset member) newest) t ?_
  have theme : after.theme = s.theme := congrArg (·.theme) passed.highlighter
  rintro (current | empty)
  · exact Or.inl ⟨passed.language.trans current.language, theme.trans current.theme⟩
  · refine Or.inr ⟨?_, passed.language ▸ empty.language⟩
    exact (congrArg List.length passed.text).trans empty.buffer

theorem tended_run (highlighter : Highlighter) (debounce : Nat) (observer : Option Observer)
    (turns : List Turn) :
    Tended (.start highlighter debounce observer) turns
      ((start highlighter debounce observer).run turns) := by
  refine run_invariant (Tended _) ?_ ?_ turns
  · intro job none
    cases none
  · intro turns t tended
    have lined := lined_run highlighter debounce observer turns
    rcases t.call_or_between with ⟨call, rfl⟩ | between
    · exact tended_call rfl lined tended call
    · exact tended_passed tended t (turn_passed _ between)

theorem apply_painting {s : Session} {r : PassResult}
    (painted : (s.apply r).buffer ≠ s.buffer ∨
      (s.apply r).notices = s.notices ++ [.reported r.job.extent true]) :
    r.job.token = s.token ∧ ∃ t, s.matchesText r.job t = true := by
  have effect := apply_effect s r
  generalize s.apply r = after at effect painted
  cases effect with
  | painted newest _ fit => exact ⟨newest, _, fit⟩
  | stale _ =>
    rcases painted with changed | reported
    · exact absurd rfl changed
    · simp at reported
  | rejected _ _ =>
    rcases painted with changed | reported
    · exact absurd rfl changed
    · have same : s.told (.reported r.job.extent false) = [.reported r.job.extent true] :=
        List.append_cancel_left reported
      unfold told at same
      split at same <;> simp at same

/-- Painting a result. An earlier call has issued its job, and the language and the theme of the job
are those of the session now, unless since then the observer has refused the pass after a change of
them, or after an edit of the empty buffer. -/
theorem painted_current_unless_refused (highlighter : Highlighter) (debounce : Nat)
    (observer : Option Observer) (turns : List Turn) {s : Session}
    (reached : s = (start highlighter debounce observer).run turns) {r : PassResult}
    {rest : List PassResult} (unread : s.worker.results = r :: rest)
    (painted : (s.turn .read).buffer ≠ s.buffer ∨
      (s.turn .read).notices = s.notices ++ [.reported r.job.extent true]) :
    let begun := start highlighter debounce observer
    ∃ earlier call later, turns = earlier ++ .call call :: later ∧
      Issue (begun.run earlier) (begun.run (earlier ++ [.call call])) r.job ∧
      (Current s r.job ∨ RefusedSince begun (earlier ++ [.call call]) later) := by
  intro begun
  have tended : Tended begun turns s := by
    rw [reached]
    exact tended_run highlighter debounce observer turns
  have member : r.job ∈ s.worker.line := by
    simp only [Worker.line, unread, List.map_cons, List.cons_append]
    exact List.mem_cons_self
  rw [turn_read unread] at painted
  obtain ⟨newest, t, fit⟩ := apply_painting (s := s.withResults rest) painted
  obtain ⟨earlier, call, later, split, issue, state⟩ := tended r.job member newest
  refine ⟨earlier, call, later, split, issue, ?_⟩
  rcases state with current | empty | refused
  · exact Or.inl current
  · -- a pass over some text does not fit the empty buffer
    have order := issue.nonempty
    have none : s.buffer.length = 0 := empty.buffer
    have within : r.job.extent.stop ≤ s.buffer.length := by
      unfold matchesText at fit
      simp only [Bool.and_eq_true, decide_eq_true_eq] at fit
      exact fit.1.1
    omega
  · exact Or.inr refused

theorem painted_current_unless_refused_letter :
    let highlighter : Highlighter :=
      ⟨.constant "plain".toList (.ok ['a']), .bundled, .standard []⟩
    let begun := start highlighter 0 (some .willing)
    let turns : List Turn := [.call (.replace ⟨0, 0⟩ ['a']),
      .call (.setLanguage (some "plain".toList)), .work .receive, .work .settle, .work .check,
      .work .answer]
    ∃ s r, s = begun.run turns ∧ s.worker.results = [r] ∧
      (s.turn .read).notices = s.notices ++ [.reported r.job.extent true] ∧
      ∃ earlier call later, turns = earlier ++ .call call :: later ∧
        Issue (begun.run earlier) (begun.run (earlier ++ [.call call])) r.job ∧
        (Current s r.job ∨ RefusedSince begun (earlier ++ [.call call]) later) := by
  intro highlighter begun turns
  generalize reached : begun.run turns = s
  have pass : s.worker.results.map (·.job.extent) = [⟨0, 1⟩] ∧
      (s.turn .read).notices = s.notices ++ [.reported ⟨0, 1⟩ true] := by
    rw [← reached]
    decide +kernel
  obtain ⟨extents, painted⟩ := pass
  obtain ⟨r, unread, extent⟩ := List.map_eq_singleton_iff.mp extents
  rw [← extent] at painted
  exact ⟨s, r, rfl, unread, painted, painted_current_unless_refused highlighter 0 (some .willing)
    turns reached.symm unread (Or.inr painted)⟩

/-- The observer consents to the first pass only. While that pass is under way the line spacing
changes, and the pass is painted and reported as a success with the spacing from before. -/
theorem refused_change_painted_over :
    let highlighter : Highlighter :=
      ⟨.constant "plain".toList (.ok ['a']), .bundled, .standard []⟩
    let observer : Observer := ⟨fun notices _ => notices.isEmpty⟩
    let turns : List Turn := [.call (.replace ⟨0, 0⟩ ['a']),
      .call (.setLanguage (some "plain".toList)), .work .receive, .work .settle, .work .check,
      .call (.setLineSpacing (.ofRank false 1)), .work .answer]
    ∃ s r, s = (start highlighter 0 (some observer)).run turns ∧ s.worker.results = [r] ∧
      (s.turn .read).notices = s.notices ++ [.reported r.job.extent true] ∧
      r.job.theme.paragraph.lineSpacing ≠ s.theme.paragraph.lineSpacing ∧ ¬ Current s r.job := by
  intro highlighter observer turns
  generalize reached : (start highlighter 0 (some observer)).run turns = s
  have pass : s.worker.results.map
        (fun r => (r.job.extent, r.job.theme.paragraph.lineSpacing)) =
          [(⟨0, 1⟩, .ofRank false 0)] ∧
      (s.turn .read).notices = s.notices ++ [.reported ⟨0, 1⟩ true] ∧
      s.theme.paragraph.lineSpacing = .ofRank false 1 := by
    rw [← reached]
    decide +kernel
  obtain ⟨issued, painted, spacing⟩ := pass
  obtain ⟨r, unread, job⟩ := List.map_eq_singleton_iff.mp issued
  obtain ⟨extent, issuedSpacing⟩ := Prod.mk.inj job
  have outdated : r.job.theme.paragraph.lineSpacing ≠ s.theme.paragraph.lineSpacing := by
    rw [issuedSpacing, spacing]
    decide
  rw [← extent] at painted
  refine ⟨s, r, rfl, unread, painted, outdated, ?_⟩
  intro current
  exact outdated (congrArg (·.paragraph.lineSpacing) current.theme).symm

end SyntaxPaint.Session
