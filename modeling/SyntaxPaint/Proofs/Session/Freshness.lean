import SyntaxPaint.Proofs.Buffer.Painting
import SyntaxPaint.Proofs.Markup.Coverage
import SyntaxPaint.Proofs.Session.Turns

/-!
Only a fresh pass paints. The invariant is about every job under way, wherever it is: an earlier
call has issued it with the text, the theme and the language of that moment, and once it has come
out, its outcome is what the engine and that theme make of that text.
-/
namespace SyntaxPaint.Session
open Runs

def Origin (start : Session) (turns : List Turn) (job : Job) : Prop :=
  ∃ earlier call later, turns = earlier ++ .call call :: later ∧
    Issue (start.run earlier) ((start.run earlier).perform call) job

theorem origin_append {start : Session} {turns : List Turn} {job : Job}
    (origin : Origin start turns job) (t : Turn) : Origin start (turns ++ [t]) job := by
  obtain ⟨earlier, call, later, rfl, issue⟩ := origin
  exact ⟨earlier, call, later ++ [t], by simp, issue⟩

/-- What holds of the buffer and of all jobs under way after a history. -/
structure Sound (start : Session) (turns : List Turn) (s : Session) : Prop where
  engine : s.highlighter.engine = start.highlighter.engine
  mapped : s.buffer.Mapped
  origin : ∀ job ∈ s.worker.line, Origin start turns job
  outcome : ∀ r ∈ s.worker.results, ∃ n, r.outcome = r.job.run start.highlighter.engine n

theorem sound_later {start s : Session} {turns : List Turn} (sound : Sound start turns s)
    (t : Turn) : Sound start (turns ++ [t]) s :=
  ⟨sound.engine, sound.mapped, fun job member => origin_append (sound.origin job member) t,
    sound.outcome⟩

theorem sound_call {start s : Session} {turns : List Turn} (here : s = start.run turns)
    (sound : Sound start turns s) (call : HostCall) :
    Sound start (turns ++ [.call call]) (s.perform call) := by
  obtain ⟨_, _, engine, changes, buffer⟩ := perform_surroundings s call
  have mapped : (s.perform call).buffer.Mapped := by
    rw [buffer]
    exact TextBuffer.mapped_changeAll sound.mapped changes
  have later := sound_later sound (.call call)
  rcases perform_worker s call with worker | ⟨job, issue, _⟩
  · exact ⟨engine.trans sound.engine, mapped, by rw [worker]; exact later.origin,
      by rw [worker]; exact later.outcome⟩
  · constructor
    case engine => exact engine.trans sound.engine
    case mapped => exact mapped
    case origin =>
      intro other member
      rw [issue.enqueued, Worker.line_enqueue] at member
      rcases List.mem_append.mp member with earlier | last
      · exact later.origin other earlier
      · obtain rfl := List.mem_singleton.mp last
        rw [here] at issue
        exact ⟨turns, call, [], rfl, issue⟩
    case outcome =>
      intro r unread
      rw [issue.enqueued] at unread
      exact later.outcome r unread

theorem sound_work {start s : Session} {turns : List Turn} (sound : Sound start turns s)
    (move : Move) : Sound start turns (s.turn (.work move)) := by
  rcases turn_work s move with same | ⟨worker, moved, effect⟩
  · rwa [same]
  · rw [moved]
    constructor
    case engine => exact sound.engine
    case mapped => exact sound.mapped
    case origin =>
      intro job member
      exact sound.origin job ((Worker.line_sublist effect).subset member)
    case outcome =>
      intro r unread
      rcases Worker.outcome_of_effect effect unread with earlier | ran
      · exact sound.outcome r earlier
      · rwa [sound.engine] at ran

theorem sound_read {start s : Session} {turns : List Turn} (sound : Sound start turns s) :
    Sound start turns (s.turn .read) := by
  cases unread : s.worker.results with
  | nil => rwa [turn_read_nothing unread]
  | cons r rest =>
    rw [turn_read unread]
    have line : ∀ job ∈ (s.withResults rest).worker.line, Origin start turns job := by
      intro job member
      apply sound.origin job
      simp only [Worker.line, unread, List.map_cons, List.cons_append]
      exact List.mem_cons_of_mem _ member
    have results : ∀ r ∈ rest, ∃ n, r.outcome = r.job.run start.highlighter.engine n := by
      intro r' later
      exact sound.outcome r' (unread ▸ List.mem_cons_of_mem _ later)
    have effect := apply_effect (s.withResults rest) r
    generalize (s.withResults rest).apply r = after at effect
    cases effect with
    | stale _ => exact ⟨sound.engine, sound.mapped, line, results⟩
    | rejected _ _ => exact ⟨sound.engine, sound.mapped, line, results⟩
    | @painted t _ _ _ =>
      have mapped := TextBuffer.mapped_change sound.mapped (.paint r.job.extent.start t.runs)
      exact ⟨sound.engine, mapped, line, results⟩

theorem sound_wait {start s : Session} {turns : List Turn} (sound : Sound start turns s)
    (moment : Nat) : Sound start turns (s.turn (.wait moment)) :=
  ⟨sound.engine, sound.mapped, sound.origin, sound.outcome⟩

theorem sound_start (highlighter : Highlighter) (debounce : Nat) (observer : Option Observer) :
    Sound (.start highlighter debounce observer) [] (.start highlighter debounce observer) := by
  constructor
  case engine => rfl
  case mapped => exact TextBuffer.mapped_ofText [] _
  case origin =>
    intro job member
    cases member
  case outcome =>
    intro r unread
    cases unread

theorem sound_run (highlighter : Highlighter) (debounce : Nat) (observer : Option Observer)
    (turns : List Turn) :
    Sound (.start highlighter debounce observer) turns
      ((start highlighter debounce observer).run turns) := by
  refine run_invariant (Sound _) (sound_start highlighter debounce observer) ?_ turns
  intro turns t sound
  cases t with
  | call call => exact sound_call rfl sound call
  | work move => exact sound_later (sound_work sound move) _
  | read => exact sound_later (sound_read sound) _
  | wait moment => exact sound_later (sound_wait sound moment) _

/- Taking in a result. -/

theorem length_slice (b : TextBuffer) (e : Extent) :
    (b.slice e).length = min e.stop b.length - e.start := by
  simp [TextBuffer.slice, TextBuffer.length]

theorem snapshot_of_origin {start : Session} {turns : List Turn} {job : Job}
    (origin : Origin start turns job) :
    job.extent.start < job.extent.stop ∧
      job.extent.start + job.snapshot.length = job.extent.stop := by
  obtain ⟨_, _, _, _, issue⟩ := origin
  have order := issue.nonempty
  have fits := issue.fits
  constructor
  · exact order
  · rw [issue.snapshot, length_slice]
    omega

/-- The result of the newest request, when the text that its pass has seen still stands in the
buffer and has come back unchanged. -/
structure Fresh (s : Session) (r : PassResult) (t : AttributedText) : Prop where
  newest : r.job.token = s.token
  done : r.outcome = .ok t
  standing : s.buffer.slice r.job.extent = r.job.snapshot
  answered : t.text = r.job.snapshot

theorem matchesText_iff {s : Session} {job : Job} {t : AttributedText}
    (order : job.extent.start < job.extent.stop)
    (filled : job.extent.start + job.snapshot.length = job.extent.stop) :
    s.matchesText job t = true ↔
      s.buffer.slice job.extent = job.snapshot ∧ t.text = job.snapshot := by
  unfold matchesText
  simp only [Bool.and_eq_true, decide_eq_true_eq, beq_iff_eq]
  constructor
  · rintro ⟨⟨_, standing⟩, answered⟩
    exact ⟨standing, answered⟩
  · rintro ⟨standing, answered⟩
    have length := congrArg List.length standing
    rw [length_slice] at length
    exact ⟨⟨by omega, standing⟩, answered⟩

theorem canonical_of_run {engine : Engine} {n : Nat} {job : Job} {t : AttributedText}
    (ran : job.run engine n = .ok t) : Canonical 0 t.text.length t.runs := by
  unfold Job.run at ran
  cases replied : engine.reply n (some job.language) job.snapshot with
  | error e =>
    rw [replied] at ran
    cases ran
  | ok markup =>
    rw [replied] at ran
    exact Markup.attributed_canonical ran

theorem painted_looks {s : Session} (mapped : s.buffer.Mapped) {job : Job} {t : AttributedText}
    (order : job.extent.start < job.extent.stop)
    (filled : job.extent.start + job.snapshot.length = job.extent.stop)
    (standing : s.buffer.slice job.extent = job.snapshot) (answered : t.text = job.snapshot)
    (canonical : Canonical 0 t.text.length t.runs) :
    (s.painted job t.runs).Mapped ∧ (s.painted job t.runs).text = s.buffer.text ∧
      (∀ i < job.snapshot.length,
        SameLook (look (s.painted job t.runs).runs (job.extent.start + i)) (look t.runs i)) ∧
      ∀ i, i ∉ job.extent →
        SameLook (look (s.painted job t.runs).runs i) (look s.buffer.runs i) := by
  rw [answered] at canonical
  have length := congrArg List.length standing
  rw [length_slice] at length
  obtain ⟨record, after, done, mapped', text, _, _, inside, outside⟩ :=
    TextBuffer.paint_stretch mapped job.extent.start canonical.1 (by omega) (by omega)
  have painted : s.painted job t.runs = after := by
    unfold Session.painted
    rw [done]
    rfl
  rw [painted]
  refine ⟨mapped', text, inside, ?_⟩
  intro i apart
  rw [Extent.mem_def] at apart
  exact outside i (by omega)

theorem run_of_sameLook {a : Option Run} {q : Run}
    (same : SameLook (a.map (·.attributes)) (some q.attributes)) :
    ∃ p, a = some p ∧ p.attributes.Alike q.attributes := by
  cases a with
  | none => cases same
  | some p =>
    cases same with
    | some alike => exact ⟨p, rfl, alike⟩

/-- Taking in the oldest result. An earlier call has issued its job, and the engine was asked about
the text of that moment. A fresh result paints the extent of its job and nothing else, and is
reported as a success; every other one leaves the buffer alone, and is reported as a failure if its
request is the newest and passed over in silence if not. -/
theorem only_fresh_pass_paints (highlighter : Highlighter) (debounce : Nat)
    (observer : Option Observer) (turns : List Turn) {s : Session}
    (reached : s = (start highlighter debounce observer).run turns) {r : PassResult}
    {rest : List PassResult} (unread : s.worker.results = r :: rest) :
    let after := s.turn .read
    Origin (.start highlighter debounce observer) turns r.job ∧
      (∃ n, r.outcome = r.job.run highlighter.engine n) ∧
      (∀ t, Fresh s r t →
        after.buffer.text = s.buffer.text ∧
          (∀ i < r.job.snapshot.length, ∃ p q,
            after.buffer.runAt? (r.job.extent.start + i) = some p ∧ t.runs.at? i = some q ∧
              p.attributes.Alike q.attributes) ∧
          (∀ i, i ∉ r.job.extent → SameLook ((after.buffer.runAt? i).map (·.attributes))
            ((s.buffer.runAt? i).map (·.attributes))) ∧
          after.notices = s.notices ++ s.told (.reported r.job.extent true)) ∧
      ((∀ t, ¬ Fresh s r t) →
        after.buffer = s.buffer ∧
          after.notices = s.notices ++
            if r.job.token = s.token then s.told (.reported r.job.extent false) else []) := by
  intro after
  have sound : Sound (.start highlighter debounce observer) turns s := by
    rw [reached]
    exact sound_run highlighter debounce observer turns
  have origin : Origin (.start highlighter debounce observer) turns r.job := by
    apply sound.origin _
    simp only [Worker.line, unread, List.map_cons, List.cons_append]
    exact List.mem_cons_self
  have ran := sound.outcome r (by rw [unread]; exact List.mem_cons_self)
  obtain ⟨order, filled⟩ := snapshot_of_origin origin
  have effect := apply_effect (s.withResults rest) r
  have taken : after = (s.withResults rest).apply r := turn_read unread
  rw [← taken] at effect
  clear_value after
  refine ⟨origin, ran, ?_, ?_⟩
  · rintro t ⟨newest, done, standing, answered⟩
    cases effect with
    | stale old => exact absurd newest old
    | rejected _ unfit =>
      have fit := (matchesText_iff (s := s) order filled).mpr ⟨standing, answered⟩
      have unfit : s.matchesText r.job t = false := unfit t done
      rw [fit] at unfit
      cases unfit
    | @painted t' _ done' _ =>
      obtain rfl : t = t' := by
        rw [done] at done'
        exact Except.ok.inj done'
      obtain ⟨n, ran⟩ := ran
      rw [done] at ran
      have canonical : Canonical 0 t.text.length t.runs := canonical_of_run ran.symm
      obtain ⟨mapped, text, inside, outside⟩ :=
        painted_looks sound.mapped order filled standing answered canonical
      refine ⟨text, ?_, ?_, rfl⟩
      · intro i upper
        have within : i < t.text.length := by rwa [answered]
        obtain ⟨q, found⟩ := Option.isSome_iff_exists.mp
          ((at?_isSome_iff canonical.1).mpr ⟨Nat.zero_le i, within⟩)
        have alike := inside i upper
        rw [← at?_attributes mapped.1, ← at?_attributes canonical.1, found] at alike
        obtain ⟨p, here, same⟩ := run_of_sameLook alike
        exact ⟨p, q, here, found, same⟩
      · intro i apart
        have alike := outside i apart
        rwa [← at?_attributes mapped.1, ← at?_attributes sound.mapped.1] at alike
  · intro unfresh
    cases effect with
    | stale old =>
      have old : r.job.token ≠ s.token := old
      rw [if_neg old, List.append_nil]
      exact ⟨rfl, rfl⟩
    | rejected newest _ =>
      have newest : r.job.token = s.token := newest
      rw [if_pos newest]
      exact ⟨rfl, rfl⟩
    | @painted t newest done fit =>
      obtain ⟨standing, answered⟩ := (matchesText_iff (s := s) order filled).mp fit
      exact absurd ⟨newest, done, standing, answered⟩ (unfresh t)

theorem only_fresh_pass_paints_letter :
    let highlighter : Highlighter :=
      ⟨.constant "plain".toList (.ok ['a']), .bundled, .standard []⟩
    let called : List Turn := [.call (.replace ⟨0, 0⟩ ['a']),
      .call (.setLanguage (some "plain".toList)), .work .receive, .work .settle, .work .check]
    ∃ s r t, s = (start highlighter 0 (some .willing)).run (called ++ [.work .answer]) ∧
      s.worker.results = [r] ∧ Fresh s r t ∧ (s.turn .read).buffer.text = ['a'] ∧
      (s.turn .read).notices = [.asked ⟨0, 1⟩, .reported ⟨0, 1⟩ true] := by
  intro highlighter called
  let base := highlighter.theme.baseAttributes
  let job : Job := ⟨1, ⟨0, 1⟩, "plain".toList, ['a'], highlighter.theme, 0⟩
  let before : Session := ⟨⟨['a'], [.between 0 1 base], base, 1⟩, highlighter,
    some "plain".toList, some .willing, 1, ⟨.calling job, [], [], 0, 0⟩, 0, [.asked ⟨0, 1⟩]⟩
  have begun : (start highlighter 0 (some .willing)).run called = before := by rfl
  have plain : Markup.Scan ['a'] (Markup.textToken ['a']) := .stop (by decide)
  obtain ⟨t, read, shown, _⟩ := Markup.attributed_of_scan highlighter.theme plain
  have decoded : Reference.decode ['a'] = [('a', 1)] := by
    rw [Reference.decode, if_neg (by decide), Reference.decode]
  have text : t.text = ['a'] := shown.trans (congrArg (List.map (·.1)) decoded)
  have ran : job.run highlighter.engine 0 = .ok t := read
  let s : Session := { before with worker := ⟨.idle, [], [⟨job, .ok t⟩], 1, 0⟩ }
  have moved : before.worker.step? highlighter.engine before.token before.clock .answer =
      some s.worker := by
    simp only [before, Worker.step?, ran]
    rfl
  have reached : s = (start highlighter 0 (some .willing)).run (called ++ [.work .answer]) := by
    rw [run_concat, begun]
    show s = (before.work? .answer).getD before
    have engine : before.highlighter.engine = highlighter.engine := rfl
    rw [work?, engine, moved]
    rfl
  have fresh : Fresh s ⟨job, .ok t⟩ t := ⟨rfl, rfl, rfl, text⟩
  obtain ⟨_, _, paints, _⟩ := only_fresh_pass_paints highlighter 0 (some .willing) _ reached
    (r := ⟨job, .ok t⟩) rfl
  obtain ⟨kept, _, _, reported⟩ := paints t fresh
  exact ⟨s, ⟨job, .ok t⟩, t, reached, rfl, fresh, kept, reported⟩

end SyntaxPaint.Session
