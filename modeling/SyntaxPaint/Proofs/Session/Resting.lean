import SyntaxPaint.Proofs.Engine.Truthful
import SyntaxPaint.Proofs.Session.Freshness
import SyntaxPaint.Proofs.Session.Line

/-!
A session that comes to rest. While nobody calls, the newest pass goes its way, and when no job is
left in the line, the characters look as a view says that was fixed when the pass was issued: in the
extent of the pass as the pass has it, and elsewhere as before (`looks_at_rest`).
-/
namespace SyntaxPaint.Session
open Runs

/-- What holds of a session after any history with an engine that does not break down. -/
structure Healthy (s : Session) : Prop where
  sturdy : s.highlighter.engine.Sturdy
  mapped : s.buffer.Mapped
  running : s.worker.phase.isGone = false
  lined : Lined s
  filled : ∀ job ∈ s.worker.line, job.extent.start < job.extent.stop ∧
    job.extent.start + job.snapshot.length = job.extent.stop
  ran : ∀ r ∈ s.worker.results, ∃ n, r.outcome = r.job.run s.highlighter.engine n

theorem healthy_run {highlighter : Highlighter} (sturdy : highlighter.engine.Sturdy)
    (debounce : Nat) (observer : Option Observer) (turns : List Turn) :
    Healthy ((start highlighter debounce observer).run turns) := by
  have sound := sound_run highlighter debounce observer turns
  obtain ⟨engine, running⟩ := running_run sturdy debounce observer turns
  constructor
  case sturdy => rwa [engine]
  case mapped => exact sound.mapped
  case running => exact running
  case lined => exact lined_run highlighter debounce observer turns
  case filled => exact fun job member => snapshot_of_origin (sound.origin job member)
  case ran =>
    rw [engine]
    exact sound.outcome

/-- The pass of a job reaches to the end of the buffer, and the text that it has seen stands. -/
structure Standing (s : Session) (job : Job) : Prop where
  stop : job.extent.stop = s.buffer.length
  text : s.buffer.slice job.extent = job.snapshot

/-- The newest pass gives what a view says of its extent, or the buffer has become too short for it;
and what it will not give is there already. -/
structure Awaits (s : Session) (view : Nat → Option Attributes) : Prop where
  newest : ∀ job ∈ s.worker.line, job.token = s.token →
    (Standing s job ∧ s.highlighter.engine.Gives job.theme job.language job.snapshot
      job.extent.start view) ∨ s.buffer.length < job.extent.stop
  looks : ∀ i < s.buffer.length, SameLook (look s.buffer.runs i) (view i) ∨
    ∃ job ∈ s.worker.line, job.token = s.token ∧ Standing s job ∧ i ∈ job.extent

theorem looks_at_rest {s : Session} {view : Nat → Option Attributes} (awaits : Awaits s view)
    (rest : s.worker.line = []) {i : Nat} (inside : i < s.buffer.length) :
    SameLook (look s.buffer.runs i) (view i) := by
  rcases awaits.looks i inside with same | ⟨job, member, _⟩
  · exact same
  · rw [rest] at member
    cases member

/- Turns between calls. -/

theorem awaits_kept {s after : Session} {view : Nat → Option Attributes} (awaits : Awaits s view)
    (token : after.token = s.token) (highlighter : after.highlighter = s.highlighter)
    (buffer : after.buffer = s.buffer) (line : after.worker.line ⊆ s.worker.line)
    (stays : ∀ job ∈ s.worker.line, job.token = s.token → job ∈ after.worker.line) :
    Awaits after view := by
  have standing {job : Job} (stands : Standing s job) : Standing after job := by
    refine ⟨?_, ?_⟩
    · rw [buffer]
      exact stands.stop
    · rw [buffer]
      exact stands.text
  constructor
  case newest =>
    rw [token, highlighter, buffer]
    intro job member newest
    exact (awaits.newest job (line member) newest).imp_left fun ⟨stands, gives⟩ =>
      ⟨standing stands, gives⟩
  case looks =>
    rw [token, buffer]
    intro i inside
    refine (awaits.looks i inside).imp_right ?_
    rintro ⟨job, member, newest, stands, covered⟩
    exact ⟨job, stays job member newest, newest, standing stands, covered⟩

theorem awaits_work {s : Session} {view : Nat → Option Attributes} (healthy : Healthy s)
    (awaits : Awaits s view) (move : Move) : Awaits (s.turn (.work move)) view := by
  rcases turn_work s move with same | ⟨worker, moved, effect⟩
  · rwa [same]
  · rw [moved]
    refine awaits_kept awaits rfl rfl rfl (Worker.line_sublist effect).subset ?_
    exact fun job member newest => Chronicle.newest_stays healthy.sturdy effect healthy.lined.order
      healthy.lined.bound member newest

theorem newest_alone {s : Session} {r : PassResult} {rest : List PassResult} (lined : Lined s)
    (unread : s.worker.results = r :: rest) (newest : r.job.token = s.token) :
    ∀ job ∈ (s.withResults rest).worker.line, job.token ≠ s.token := by
  have order := lined.order
  unfold Chronicle.Ascending at order
  rw [Chronicle.line_unread unread, List.map_cons, List.pairwise_cons] at order
  intro job member
  have later := order.1 job.token (List.mem_map_of_mem member)
  omega

theorem awaits_nothing {s after : Session} {view : Nat → Option Attributes} (lined : Lined s)
    {r : PassResult} {rest : List PassResult} (unread : s.worker.results = r :: rest)
    (newest : r.job.token = s.token) (token : after.token = s.token)
    (worker : after.worker = (s.withResults rest).worker)
    (looks : ∀ i < after.buffer.length, SameLook (look after.buffer.runs i) (view i)) :
    Awaits after view := by
  constructor
  case newest =>
    rw [worker, token]
    intro job later same
    exact absurd same (newest_alone lined unread newest job later)
  case looks => exact fun i upper => Or.inl (looks i upper)

theorem awaits_painted {s after : Session} {view : Nat → Option Attributes} (healthy : Healthy s)
    (awaits : Awaits s view) {r : PassResult} {rest : List PassResult} {t : AttributedText}
    (unread : s.worker.results = r :: rest) (newest : r.job.token = s.token)
    (done : r.outcome = .ok t) (fit : s.matchesText r.job t = true)
    (token : after.token = s.token) (worker : after.worker = (s.withResults rest).worker)
    (buffer : after.buffer = s.painted r.job t.runs) : Awaits after view := by
  have member : r.job ∈ s.worker.line := by
    rw [Chronicle.line_unread unread]
    exact List.mem_cons_self
  obtain ⟨order, filled⟩ := healthy.filled r.job member
  obtain ⟨standing, answered⟩ := (matchesText_iff order filled).mp fit
  obtain ⟨n, ran⟩ := healthy.ran r (by rw [unread]; exact List.mem_cons_self)
  rw [done] at ran
  have canonical : Canonical 0 t.text.length t.runs := canonical_of_run ran.symm
  obtain ⟨_, text, inside, outside⟩ :=
    painted_looks healthy.mapped order filled standing answered canonical
  have given : ∀ i < r.job.snapshot.length,
      SameLook (look t.runs i) (view (r.job.extent.start + i)) := by
    rcases awaits.newest r.job member newest with ⟨_, gives⟩ | short
    · obtain ⟨t', run, _, shows⟩ := gives n
      obtain rfl : t = t' := Except.ok.inj (ran.trans run)
      exact shows
    · unfold matchesText at fit
      simp only [Bool.and_eq_true, decide_eq_true_eq] at fit
      omega
  refine awaits_nothing healthy.lined unread newest token worker ?_
  rw [buffer]
  intro i upper
  have length : (s.painted r.job t.runs).length = s.buffer.length := congrArg List.length text
  rw [length] at upper
  by_cases covered : i ∈ r.job.extent
  · obtain ⟨lower, below⟩ := covered
    have within : i - r.job.extent.start < r.job.snapshot.length := by omega
    have painted := sameLook_trans (inside _ within) (given _ within)
    rwa [Nat.add_sub_cancel' lower] at painted
  · rcases awaits.looks i upper with same | ⟨job, inLine, same, _, covers⟩
    · exact sameLook_trans (outside i covered) same
    · obtain rfl := unique_in_line healthy.lined inLine member (same.trans newest.symm)
      exact absurd covers covered

theorem awaits_rejected {s after : Session} {view : Nat → Option Attributes} (healthy : Healthy s)
    (awaits : Awaits s view) {r : PassResult} {rest : List PassResult}
    (unread : s.worker.results = r :: rest) (newest : r.job.token = s.token)
    (unfit : ∀ t, r.outcome = .ok t → s.matchesText r.job t = false)
    (token : after.token = s.token) (worker : after.worker = (s.withResults rest).worker)
    (buffer : after.buffer = s.buffer) : Awaits after view := by
  have member : r.job ∈ s.worker.line := by
    rw [Chronicle.line_unread unread]
    exact List.mem_cons_self
  obtain ⟨order, filled⟩ := healthy.filled r.job member
  have short : s.buffer.length < r.job.extent.stop := by
    rcases awaits.newest r.job member newest with ⟨stands, gives⟩ | short
    · obtain ⟨n, ran⟩ := healthy.ran r (by rw [unread]; exact List.mem_cons_self)
      obtain ⟨t, run, answered, _⟩ := gives n
      have fit := (matchesText_iff (s := s) order filled).mpr ⟨stands.text, answered⟩
      rw [unfit t (ran.trans run)] at fit
      cases fit
    · exact short
  refine awaits_nothing healthy.lined unread newest token worker ?_
  rw [buffer]
  intro i upper
  rcases awaits.looks i upper with same | ⟨job, inLine, same, stands, _⟩
  · exact same
  · obtain rfl := unique_in_line healthy.lined inLine member (same.trans newest.symm)
    have stop := stands.stop
    omega

theorem awaits_read {s : Session} {view : Nat → Option Attributes} (healthy : Healthy s)
    (awaits : Awaits s view) : Awaits (s.turn .read) view := by
  cases unread : s.worker.results with
  | nil => rwa [turn_read_nothing unread]
  | cons r rest =>
    rw [turn_read unread]
    have effect := apply_effect (s.withResults rest) r
    generalize (s.withResults rest).apply r = after at effect
    cases effect with
    | stale old =>
      have line := Chronicle.line_unread unread
      refine awaits_kept awaits rfl rfl rfl ?_ ?_
      · rw [line]
        exact List.subset_cons_self _ _
      · intro job member newest
        rw [line] at member
        rcases List.mem_cons.mp member with rfl | later
        · exact absurd newest old
        · exact later
    | painted newest done fit =>
      exact awaits_painted healthy awaits unread newest done fit rfl rfl rfl
    | rejected newest unfit =>
      exact awaits_rejected healthy awaits unread newest unfit rfl rfl rfl

theorem awaits_between {s : Session} {view : Nat → Option Attributes} (healthy : Healthy s)
    (awaits : Awaits s view) {t : Turn} (between : t.isCall = false) : Awaits (s.turn t) view := by
  cases t with
  | call call => cases between
  | work move => exact awaits_work healthy awaits move
  | read => exact awaits_read healthy awaits
  | wait moment =>
    exact awaits_kept awaits rfl rfl rfl (List.Subset.refl _) fun job member _ => member

theorem awaits_run {highlighter : Highlighter} (sturdy : highlighter.engine.Sturdy)
    (debounce : Nat) (observer : Option Observer) {earlier : List Turn}
    {view : Nat → Option Attributes}
    (awaits : Awaits ((start highlighter debounce observer).run earlier) view) (later : List Turn)
    (between : ∀ t ∈ later, t.isCall = false) :
    Awaits ((start highlighter debounce observer).run (earlier ++ later)) view := by
  induction later using List.reverseRecOn with
  | nil => rwa [List.append_nil]
  | append_singleton later t ih =>
    have awaits := ih fun t' member => between t' (List.mem_append_left _ member)
    have healthy := healthy_run sturdy debounce observer (earlier ++ later)
    rw [← List.append_assoc, run_concat]
    exact awaits_between healthy awaits (between t (by simp))

/- Calls. -/

theorem request_unobserved {s : Session} {language : Text} {e : Extent}
    (chosen : s.language = some language) (unobserved : s.observer = none)
    (running : s.worker.phase.isGone = false) (filled : e.start < e.stop) :
    s.request e =
      { s with token := s.token + 1, worker := s.worker.enqueue (s.nextJob language e) } := by
  have willing : s.consents e = true := by
    unfold consents
    rw [unobserved]
    rfl
  have silent : s.told (.asked e) = [] := by
    unfold told
    rw [unobserved]
    rfl
  rw [request_issued chosen filled willing running, silent, List.append_nil]

theorem slice_to_end (b : TextBuffer) (start : Nat) :
    b.slice ⟨start, b.length⟩ = b.text.drop start := by
  unfold TextBuffer.slice TextBuffer.length
  rw [List.take_length]

theorem awaits_request {before s : Session} {language : Text} {line : Nat}
    {view : Nat → Option Attributes} (kept : Kept before s)
    (lined : Lined before) (chosen : s.language = some language) (unobserved : s.observer = none)
    (running : s.worker.phase.isGone = false) (inside : line ≤ s.buffer.length)
    (above : ∀ i < line, SameLook (look s.buffer.runs i) (view i))
    (gives : s.highlighter.engine.Gives s.theme language (s.buffer.text.drop line) line view)
    (outgrown : s.buffer.length ≤ line → ∀ job ∈ before.worker.line, job.token = before.token →
      s.buffer.length < job.extent.stop) :
    Awaits (s.request ⟨line, s.buffer.length⟩) view := by
  rcases Nat.lt_or_ge line s.buffer.length with filled | none
  · rw [request_unobserved chosen unobserved running filled]
    constructor
    case newest =>
      intro job member newest
      dsimp only at member newest ⊢
      rw [Worker.line_enqueue] at member
      rcases List.mem_append.mp member with earlier | last
      · rw [kept.worker] at earlier
        have older := lined.bound job earlier
        have same := kept.token
        omega
      · obtain rfl := List.mem_singleton.mp last
        refine Or.inl ⟨⟨rfl, rfl⟩, ?_⟩
        show s.highlighter.engine.Gives s.theme language (s.buffer.slice ⟨line, _⟩) line view
        rwa [slice_to_end]
    case looks =>
      intro i upper
      rcases Nat.lt_or_ge i line with high | low
      · exact Or.inl (above i high)
      · refine Or.inr ⟨s.nextJob language ⟨line, s.buffer.length⟩, ?_, rfl, ⟨rfl, rfl⟩, low, upper⟩
        dsimp only
        rw [Worker.line_enqueue]
        exact List.mem_append_right _ List.mem_cons_self
  · rw [request_nothing (Or.inr none)]
    constructor
    case newest =>
      rw [kept.worker, kept.token]
      exact fun job member newest => Or.inr (outgrown none job member newest)
    case looks => exact fun i upper => Or.inl (above i (by omega))

theorem awaits_call {s p : Session} {language : Text} {line : Nat} {view : Nat → Option Attributes}
    (healthy : Healthy s) (unobserved : s.observer = none) (call : HostCall)
    (asks : s.perform call = p.request ⟨line, p.buffer.length⟩) (kept : Kept s p)
    (chosen : p.language = some language) (inside : line ≤ p.buffer.length)
    (above : ∀ i < line, SameLook (look p.buffer.runs i) (view i))
    (gives : s.highlighter.engine.Gives p.theme language (p.buffer.text.drop line) line view)
    (outgrown : p.buffer.length ≤ line → ∀ job ∈ s.worker.line, job.token = s.token →
      p.buffer.length < job.extent.stop) :
    Awaits (s.perform call) view := by
  have engine : p.highlighter.engine = s.highlighter.engine := by
    rw [← (perform_surroundings s call).engine, asks, (request_alike p _).highlighter]
  rw [asks]
  refine awaits_request kept healthy.lined chosen (kept.observer.trans unobserved) ?_ inside above
    ?_ outgrown
  · rw [kept.worker]
    exact healthy.running
  · rwa [engine]

end SyntaxPaint.Session
