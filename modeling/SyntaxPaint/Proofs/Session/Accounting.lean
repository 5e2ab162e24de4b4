import SyntaxPaint.Proofs.Session.Calls
import Mathlib.Data.List.Count

/-!
No pass is reported twice, and the newest one is never lost. A chronicle writes down, next to the
session, which call took which token and which passes were reported. The pass of a call is told from
the call and the session before it, without a look at the worker; that the worker has it is then
proved. The invariant puts the reports and the jobs under way in one line whose tokens ascend: a
turn takes jobs out of that line or appends the next one, and never takes out the newest.
-/
namespace SyntaxPaint

def Notice.report? : Notice → Option (Extent × Bool)
  | .asked _ => none
  | .reported extent success => some (extent, success)

structure Report where
  token : Nat
  newest : Nat
  extent : Extent
  success : Bool

/-- A token, the call that took it, and the pass that the call asked for. -/
structure Taking where
  token : Nat
  call : HostCall
  pass? : Option Job

def Session.pass? (s : Session) (call : HostCall) : Option Job :=
  (s.region? call).bind fun e =>
    (s.prepare call).language.map fun language => (s.prepare call).nextJob language e

structure Chronicle where
  session : Session
  taken : List Taking
  reports : List Report

namespace Chronicle
open Session

def takenBetween (before : Session) (t : Turn) (after : Session) : List Taking :=
  match t with
  | .call call =>
    if after.token = before.token then [] else [⟨after.token, call, before.pass? call⟩]
  | _ => []

/-- The pass that a turn can report: that of the oldest unread result, or one that it issues. -/
def reportable (before : Session) (t : Turn) (after : Session) : Nat :=
  match t, before.worker.results with
  | .read, r :: _ => r.job.token
  | _, _ => after.token

def reportsBetween (before : Session) (t : Turn) (after : Session) : List Report :=
  ((after.notices.drop before.notices.length).filterMap Notice.report?).map fun report =>
    ⟨reportable before t after, after.token, report.1, report.2⟩

def start (s : Session) : Chronicle := ⟨s, [], []⟩

def turn (c : Chronicle) (t : Turn) : Chronicle where
  session := c.session.turn t
  taken := c.taken ++ takenBetween c.session t (c.session.turn t)
  reports := c.reports ++ reportsBetween c.session t (c.session.turn t)

def run (c : Chronicle) (turns : List Turn) : Chronicle := turns.foldl turn c

def copies (c : Chronicle) (token : Nat) : Nat :=
  c.session.worker.queue.countP (·.token == token) +
    c.session.worker.phase.job?.toList.countP (·.token == token) +
    c.session.worker.results.countP (·.job.token == token) +
    c.reports.countP (·.token == token)

theorem session_run (c : Chronicle) (turns : List Turn) :
    (c.run turns).session = c.session.run turns := by
  induction turns generalizing c with
  | nil => rfl
  | cons t turns ih => exact ih (c.turn t)

/- What a turn adds. -/

theorem takenBetween_same {before after : Session} {t : Turn}
    (same : after.token = before.token) : takenBetween before t after = [] := by
  unfold takenBetween
  split
  · exact if_pos same
  · rfl

theorem takenBetween_next {before after : Session} {call : HostCall}
    (next : after.token = before.token + 1) :
    takenBetween before (.call call) after = [⟨before.token + 1, call, before.pass? call⟩] := by
  unfold takenBetween
  dsimp only
  rw [if_neg (by omega), next]

/-- All that a call can do while the worker runs, told by the pass that the call asks for. -/
inductive Booking (before : Session) (call : HostCall) (after : Session) : Prop
  | untaken (more : List Notice) (token : after.token = before.token)
      (worker : after.worker = before.worker) (notices : after.notices = before.notices ++ more)
      (silent : more.filterMap Notice.report? = [])
  | off (off : call.turnsOff = true) (none : before.pass? call = none)
      (token : after.token = before.token + 1) (worker : after.worker = before.worker)
      (notices : after.notices = before.notices)
  | pass (job : Job) (on : call.turnsOff = false) (asked : before.pass? call = some job)
      (number : job.token = before.token + 1) (token : after.token = before.token + 1)
      (worker : after.worker = before.worker.enqueue job)
      (notices : after.notices = before.notices ++ before.told (.asked job.extent))

theorem filterMap_told_asked (s : Session) (e : Extent) :
    (s.told (.asked e)).filterMap Notice.report? = [] := by
  unfold told
  split <;> rfl

theorem language_off {s : Session} {call : HostCall} (off : call.turnsOff = true) :
    (s.prepare call).language = none := by
  cases call with
  | setLanguage language => exact Option.isNone_iff_eq_none.mp off
  | _ => cases off

theorem booking_off {s : Session} {call : HostCall} (off : call.turnsOff = true) :
    Booking s call (s.perform call) := by
  have language := language_off (s := s) off
  have done : s.perform call = s.prepare call := perform_unasked fun _ _ => Or.inl language
  rw [done]
  refine .off off ?_ (if_pos off) rfl rfl
  unfold pass?
  rw [language]
  cases s.region? call <;> rfl

theorem booking_request {s : Session} {call : HostCall} {e : Extent}
    (running : s.worker.phase.isGone = false) (on : call.turnsOff = false)
    (region : s.region? call = some e) : Booking s call ((s.prepare call).request e) := by
  have token : (s.prepare call).token = s.token := if_neg (by simp [on])
  have effect := request_effect (s.prepare call) e
  generalize (s.prepare call).request e = after at effect
  cases effect with
  | nothing _ => exact .untaken [] token rfl (List.append_nil _).symm rfl
  | refused _ _ _ =>
    exact .untaken ((s.prepare call).told (.asked e)) token rfl rfl (filterMap_told_asked _ _)
  | @issued language chosen _ _ _ =>
    have asked : s.pass? call = some ((s.prepare call).nextJob language e) := by
      unfold pass?
      rw [region, Option.bind_some, chosen, Option.map_some]
    have next : (s.prepare call).token + 1 = s.token + 1 := congrArg (· + 1) token
    exact .pass _ on asked next next rfl rfl
  | failed _ _ _ gone =>
    rw [show (s.prepare call).worker = s.worker from rfl, running] at gone
    cases gone

theorem booking {s : Session} (running : s.worker.phase.isGone = false) (call : HostCall) :
    Booking s call (s.perform call) := by
  cases off : call.turnsOff with
  | true => exact booking_off off
  | false =>
    rw [perform_eq_prepare]
    split
    · exact .untaken [] (if_neg (by simp [off])) rfl (List.append_nil _).symm rfl
    · next e region => exact booking_request running off region

theorem reportsBetween_append {before after : Session} {t : Turn} {more : List Notice}
    (notices : after.notices = before.notices ++ more) :
    reportsBetween before t after = (more.filterMap Notice.report?).map fun report =>
      ⟨reportable before t after, after.token, report.1, report.2⟩ := by
  unfold reportsBetween
  rw [notices, List.drop_left]

/- Moves of the worker. -/

theorem run_ne_breakdown {engine : Engine} (sturdy : engine.Sturdy) (n : Nat) (job : Job) :
    job.run engine n ≠ .error .breakdown := by
  intro broken
  unfold Job.run at broken
  cases replied : engine.reply n (some job.language) job.snapshot with
  | error e =>
    rw [replied] at broken
    cases broken
    exact sturdy n _ _ replied
  | ok markup =>
    rw [replied] at broken
    have broken : Markup.attributed job.theme markup = .error .breakdown := broken
    unfold Markup.attributed at broken
    split at broken
    · cases broken
    · cases broken

theorem running_of_effect {engine : Engine} {token now : Nat} {w after : Worker}
    (sturdy : engine.Sturdy) (effect : w.Effect engine token now after) :
    after.phase.isGone = false := by
  cases effect with
  | breakdown held broken => exact absurd broken (run_ne_breakdown sturdy _ _)
  | _ => rfl

def Ascending (jobs : List Job) : Prop := (jobs.map (·.token)).Pairwise (· < ·)

theorem held_lt_next {w : Worker} {old next : Job} {rest : List Job} (order : Ascending w.line)
    (held : w.phase.job? = some old) (queue : w.queue = next :: rest) : old.token < next.token := by
  unfold Ascending Worker.line at order
  rw [held, queue, List.map_append] at order
  have behind := (List.pairwise_append.mp order).2.1
  exact (List.pairwise_cons.mp behind).1 _ List.mem_cons_self

theorem mem_line {w : Worker} {job held : Job} (hand : w.phase.job? = some held)
    (member : job ∈ w.line) (other : job ≠ held) :
    job ∈ w.results.map (·.job) ∨ job ∈ w.queue := by
  unfold Worker.line at member
  rw [hand] at member
  rcases List.mem_append.mp member with front | behind
  · exact Or.inl front
  · rcases List.mem_cons.mp behind with here | back
    · exact absurd here other
    · exact Or.inr back

/-- A job in the queue is newer than the one in the worker's hands, so the newest is not lost when
it replaces that one. -/
theorem newest_remains {w : Worker} {token : Nat} {job old next : Job} {rest : List Job}
    (order : Ascending w.line) (bound : ∀ job ∈ w.line, job.token ≤ token)
    (member : job ∈ w.line) (newest : job.token = token) (held : w.phase.job? = some old)
    (queue : w.queue = next :: rest) :
    job ∈ w.results.map (·.job) ∨ job ∈ next :: rest := by
  have ahead := held_lt_next order held queue
  have inside : next ∈ w.line := by
    unfold Worker.line
    rw [queue]
    simp
  have limit := bound next inside
  rw [← queue]
  apply mem_line held member
  rintro rfl
  omega

theorem newest_stays {engine : Engine} {token now : Nat} {w after : Worker}
    (sturdy : engine.Sturdy) (effect : w.Effect engine token now after)
    (order : Ascending w.line) (bound : ∀ job ∈ w.line, job.token ≤ token) {job : Job}
    (member : job ∈ w.line) (newest : job.token = token) : job ∈ after.line := by
  cases effect with
  | receive idle queue =>
    have same : w.line = w.results.map (·.job) ++ w.queue := by
      simp [Worker.line, idle, Phase.job?]
    rwa [same, queue] at member
  | adopt held queue =>
    have kept := newest_remains order bound member newest (congrArg Phase.job? held) queue
    exact List.mem_append.mpr kept
  | exchange held queue =>
    have kept := newest_remains order bound member newest (congrArg Phase.job? held) queue
    exact List.mem_append.mpr kept
  | settle held queue =>
    unfold Worker.line at member
    rwa [held] at member
  | call held due fresh =>
    unfold Worker.line at member
    rwa [held] at member
  | @skip old held due stale =>
    have hand := congrArg Phase.job? held
    have other : job ≠ old := by
      rintro rfl
      exact stale newest
    have kept := mem_line hand member other
    exact List.mem_append.mpr kept
  | answer held whole =>
    unfold Worker.line at member ⊢
    rw [held] at member
    simpa [Phase.job?] using member
  | breakdown held broken => exact absurd broken (run_ne_breakdown sturdy _ _)

/- The invariant. -/

structure Steady (before after : Session) : Prop where
  observer : after.observer = before.observer
  engine : after.highlighter.engine = before.highlighter.engine

/-- Every token up to the newest was taken once, in order, and by a pass of that number unless the
call turned the highlighting off. -/
structure Booked (taken : List Taking) (newest : Nat) : Prop where
  counted : taken.map (·.token) = List.range' 1 newest
  asked : ∀ x ∈ taken, x.pass? = none ↔ x.call.turnsOff = true
  named : ∀ x ∈ taken, ∀ job ∈ x.pass?, job.token = x.token

section Booked
variable {taken : List Taking} {newest : Nat} {x : Taking}

theorem booked_nil : Booked [] 0 where
  counted := rfl
  asked := fun x none => by cases none
  named := fun x none => by cases none

theorem token_le (booked : Booked taken newest) (member : x ∈ taken) : x.token ≤ newest := by
  have inside := List.mem_map_of_mem (f := (·.token)) member
  rw [booked.counted, List.mem_range'] at inside
  omega

theorem last_token (booked : Booked taken newest) (last : taken.getLast? = some x) :
    x.token = newest := by
  have tokens : (taken.map (·.token)).getLast? = some x.token := by
    rw [List.getLast?_map, last]
    rfl
  rw [booked.counted, List.getLast?_range'] at tokens
  split at tokens
  · cases tokens
  · have := Option.some.inj tokens
    omega

theorem booked_next (booked : Booked taken newest) (next : x.token = newest + 1)
    (asked : x.pass? = none ↔ x.call.turnsOff = true)
    (named : ∀ job ∈ x.pass?, job.token = x.token) :
    Booked (taken ++ [x]) (newest + 1) where
  counted := by
    rw [List.map_append, booked.counted, List.range'_concat, List.map_singleton, next]
    congr 2
    omega
  asked := by
    intro y member
    rcases List.mem_append.mp member with earlier | last
    · exact booked.asked y earlier
    · obtain rfl := List.mem_singleton.mp last
      exact asked
  named := by
    intro y member
    rcases List.mem_append.mp member with earlier | last
    · exact booked.named y earlier
    · obtain rfl := List.mem_singleton.mp last
      exact named

end Booked

structure Accounted (c : Chronicle) : Prop where
  observed : c.session.observer.isSome = true
  sturdy : c.session.highlighter.engine.Sturdy
  running : c.session.worker.phase.isGone = false
  booked : Booked c.taken c.session.token
  issued : ∀ job ∈ c.session.worker.line, ∃ x ∈ c.taken, x.token = job.token ∧ x.pass? = some job
  order : (c.reports.map (·.token) ++ c.session.worker.line.map (·.token)).Pairwise (· < ·)
  reported : ∀ report ∈ c.reports, report.token = report.newest ∧
    ∃ x ∈ c.taken, x.token = report.token ∧ ∃ job ∈ x.pass?, job.extent = report.extent
  newest : ∀ x job, c.taken.getLast? = some x → x.pass? = some job →
    job ∈ c.session.worker.line ∨
      ∃ report ∈ c.reports, report.token = x.token ∧ report.extent = job.extent
  noticed : c.session.notices.filterMap Notice.report? =
    c.reports.map fun report => (report.extent, report.success)

theorem line_le {c : Chronicle} (accounted : Accounted c) :
    ∀ job ∈ c.session.worker.line, job.token ≤ c.session.token := by
  intro job member
  obtain ⟨x, taken, same, _⟩ := accounted.issued job member
  exact same ▸ token_le accounted.booked taken

theorem ascending_line {c : Chronicle} (accounted : Accounted c) :
    Ascending c.session.worker.line := (List.pairwise_append.mp accounted.order).2.1

theorem report_le {c : Chronicle} (accounted : Accounted c) :
    ∀ report ∈ c.reports, report.token ≤ c.session.token := by
  intro report member
  obtain ⟨_, x, taken, same, _⟩ := accounted.reported report member
  exact same ▸ token_le accounted.booked taken

theorem accounted_start (highlighter : Highlighter) (sturdy : highlighter.engine.Sturdy)
    (debounce : Nat) (observer : Observer) :
    Accounted (start (.start highlighter debounce (some observer))) where
  observed := rfl
  sturdy := sturdy
  running := rfl
  booked := booked_nil
  issued := fun job none => by cases none
  order := List.Pairwise.nil
  reported := fun report none => by cases none
  newest := fun x job none => by cases none
  noticed := rfl

theorem accounted_kept {c : Chronicle} (accounted : Accounted c) {t : Turn} {more : List Notice}
    (around : Steady c.session (c.session.turn t))
    (running : (c.session.turn t).worker.phase.isGone = false)
    (token : (c.session.turn t).token = c.session.token)
    (line : (c.session.turn t).worker.line.Sublist c.session.worker.line)
    (stays : ∀ job ∈ c.session.worker.line, job.token = c.session.token →
      job ∈ (c.session.turn t).worker.line)
    (notices : (c.session.turn t).notices = c.session.notices ++ more)
    (silent : more.filterMap Notice.report? = []) : Accounted (c.turn t) := by
  have taken : (c.turn t).taken = c.taken := by
    simp only [turn, takenBetween_same token, List.append_nil]
  have reports : (c.turn t).reports = c.reports := by
    simp only [turn, reportsBetween_append notices, silent, List.map_nil, List.append_nil]
  constructor
  case observed => exact around.observer ▸ accounted.observed
  case sturdy => exact around.engine ▸ accounted.sturdy
  case running => exact running
  case booked =>
    rw [taken]
    exact token ▸ accounted.booked
  case issued =>
    rw [taken]
    exact fun job member => accounted.issued job (line.subset member)
  case order =>
    rw [reports]
    exact accounted.order.sublist ((List.Sublist.refl _).append (line.map _))
  case reported =>
    rw [taken, reports]
    exact accounted.reported
  case newest =>
    rw [taken, reports]
    intro x job last pass
    rcases accounted.newest x job last pass with underway | done
    · refine Or.inl (stays job underway ?_)
      have named := accounted.booked.named x (List.mem_of_getLast? last) job pass
      exact named.trans (last_token accounted.booked last)
    · exact Or.inr done
  case noticed =>
    rw [reports]
    show (c.session.turn t).notices.filterMap _ = _
    rw [notices, List.filterMap_append, silent, List.append_nil]
    exact accounted.noticed

theorem accounted_still {c : Chronicle} (accounted : Accounted c) {t : Turn}
    (same : c.session.turn t = c.session) : Accounted (c.turn t) := by
  have notices : (c.session.turn t).notices = c.session.notices ++ [] := by
    rw [same, List.append_nil]
  refine accounted_kept accounted ?_ ?_ ?_ ?_ ?_ notices rfl
  · rw [same]
    exact ⟨rfl, rfl⟩
  · rw [same]
    exact accounted.running
  · rw [same]
  · rw [same]
  · rw [same]
    exact fun job member _ => member

theorem accounted_taken {c : Chronicle} (accounted : Accounted c) {call : HostCall}
    {more : List Notice} (around : Steady c.session (c.session.perform call))
    (running : (c.session.perform call).worker.phase.isGone = false)
    (token : (c.session.perform call).token = c.session.token + 1)
    (asked : c.session.pass? call = none ↔ call.turnsOff = true)
    (named : ∀ job ∈ c.session.pass? call, job.token = c.session.token + 1)
    (line : (c.session.perform call).worker.line =
      c.session.worker.line ++ (c.session.pass? call).toList)
    (notices : (c.session.perform call).notices = c.session.notices ++ more)
    (silent : more.filterMap Notice.report? = []) : Accounted (c.turn (.call call)) := by
  have taken : (c.turn (.call call)).taken =
      c.taken ++ [⟨c.session.token + 1, call, c.session.pass? call⟩] :=
    congrArg (c.taken ++ ·) (takenBetween_next token)
  have notices : (c.session.turn (.call call)).notices = c.session.notices ++ more := notices
  have reports : (c.turn (.call call)).reports = c.reports := by
    simp only [turn, reportsBetween_append notices, silent, List.map_nil, List.append_nil]
  have line : (c.turn (.call call)).session.worker.line =
    c.session.worker.line ++ (c.session.pass? call).toList := line
  constructor
  case observed => exact around.observer ▸ accounted.observed
  case sturdy => exact around.engine ▸ accounted.sturdy
  case running => exact running
  case booked =>
    rw [taken]
    show Booked _ (c.session.perform call).token
    rw [token]
    exact booked_next accounted.booked rfl asked named
  case issued =>
    rw [taken, line]
    intro job member
    rcases List.mem_append.mp member with earlier | last
    · obtain ⟨x, inside, same⟩ := accounted.issued job earlier
      exact ⟨x, List.mem_append_left _ inside, same⟩
    · have isJob : c.session.pass? call = some job := Option.mem_toList.mp last
      exact ⟨_, List.mem_append_right _ List.mem_cons_self, (named job isJob).symm, isJob⟩
  case order =>
    rw [reports, line, List.map_append, ← List.append_assoc, List.pairwise_append]
    refine ⟨accounted.order, ?_, ?_⟩
    · cases c.session.pass? call with
      | none => exact List.Pairwise.nil
      | some job => exact List.pairwise_singleton _ _
    · intro old member new last
      obtain ⟨job, isLast, rfl⟩ := List.mem_map.mp last
      have next : job.token = c.session.token + 1 := named job (Option.mem_toList.mp isLast)
      have bound : old ≤ c.session.token := by
        rcases List.mem_append.mp member with done | underway
        · obtain ⟨report, inside, rfl⟩ := List.mem_map.mp done
          exact report_le accounted report inside
        · obtain ⟨other, inside, rfl⟩ := List.mem_map.mp underway
          exact line_le accounted other inside
      omega
  case reported =>
    rw [taken, reports]
    intro report member
    obtain ⟨newest, x, inside, rest⟩ := accounted.reported report member
    exact ⟨newest, x, List.mem_append_left _ inside, rest⟩
  case newest =>
    rw [taken, line]
    intro x job last pass
    rw [List.getLast?_concat] at last
    obtain rfl := Option.some.inj last
    exact Or.inl (List.mem_append_right _ (Option.mem_toList.mpr pass))
  case noticed =>
    rw [reports]
    show (c.session.turn (.call call)).notices.filterMap _ = _
    rw [notices, List.filterMap_append, silent, List.append_nil]
    exact accounted.noticed

theorem accounted_call {c : Chronicle} (accounted : Accounted c) (call : HostCall) :
    Accounted (c.turn (.call call)) := by
  have fixed := perform_surroundings c.session call
  have around : Steady c.session (c.session.perform call) := ⟨fixed.observer, fixed.engine⟩
  cases booking accounted.running call with
  | untaken more token worker notices silent =>
    have line : (c.session.turn (.call call)).worker.line = c.session.worker.line :=
      congrArg Worker.line worker
    refine accounted_kept accounted around ?_ token ?_ ?_ notices silent
    · exact worker ▸ accounted.running
    · exact line ▸ List.Sublist.refl _
    · rw [line]
      exact fun job member _ => member
  | off off none token worker notices =>
    refine accounted_taken accounted around ?_ token (by simp [none, off]) (by simp [none]) ?_
      (notices.trans (List.append_nil _).symm) rfl
    · exact worker ▸ accounted.running
    · rw [worker, none]
      exact (List.append_nil _).symm
  | pass job on asked number token worker notices =>
    refine accounted_taken accounted around ?_ token (by simp [asked, on]) ?_ ?_ notices
      (filterMap_told_asked _ _)
    · exact worker ▸ accounted.running
    · rw [asked]
      rintro other ⟨⟩
      exact number
    · rw [worker, asked]
      exact Worker.line_enqueue _ _

theorem accounted_work {c : Chronicle} (accounted : Accounted c) (move : Move) :
    Accounted (c.turn (.work move)) := by
  rcases turn_work c.session move with same | ⟨worker, moved, effect⟩
  · exact accounted_still accounted same
  · have around : Steady c.session (c.session.turn (.work move)) := by
      rw [moved]
      exact ⟨rfl, rfl⟩
    have worked : (c.session.turn (.work move)).worker = worker := congrArg (·.worker) moved
    have token : (c.session.turn (.work move)).token = c.session.token := congrArg (·.token) moved
    have notices : (c.session.turn (.work move)).notices = c.session.notices ++ [] :=
      (congrArg (·.notices) moved).trans (List.append_nil _).symm
    refine accounted_kept accounted around ?_ token ?_ ?_ notices rfl
    · rw [worked]
      exact running_of_effect accounted.sturdy effect
    · rw [worked]
      exact Worker.line_sublist effect
    · rw [worked]
      intro job member newest
      exact newest_stays accounted.sturdy effect (ascending_line accounted) (line_le accounted)
        member newest

theorem line_unread {s : Session} {r : PassResult} {rest : List PassResult}
    (unread : s.worker.results = r :: rest) :
    s.worker.line = r.job :: (s.withResults rest).worker.line := by
  unfold Worker.line
  rw [unread]
  rfl

theorem accounted_reported {c : Chronicle} (accounted : Accounted c) {r : PassResult}
    {rest : List PassResult} {success : Bool} (unread : c.session.worker.results = r :: rest)
    (newest : r.job.token = c.session.token)
    (around : Steady c.session (c.session.turn .read))
    (token : (c.session.turn .read).token = c.session.token)
    (worker : (c.session.turn .read).worker = (c.session.withResults rest).worker)
    (notices : (c.session.turn .read).notices =
      c.session.notices ++ c.session.told (.reported r.job.extent success)) :
    Accounted (c.turn .read) := by
  have told : c.session.told (.reported r.job.extent success) =
      [.reported r.job.extent success] := if_pos accounted.observed
  have taken : (c.turn .read).taken = c.taken := by
    simp only [turn, takenBetween_same token, List.append_nil]
  have pass : reportable c.session .read (c.session.turn .read) = r.job.token := by
    unfold reportable
    rw [unread]
  have reports : (c.turn .read).reports =
      c.reports ++ [⟨r.job.token, c.session.token, r.job.extent, success⟩] := by
    simp only [turn, reportsBetween_append notices, told, pass, token]
    rfl
  have line : c.session.worker.line = r.job :: (c.turn .read).session.worker.line := by
    show _ = r.job :: (c.session.turn .read).worker.line
    rw [worker]
    exact line_unread unread
  have member : r.job ∈ c.session.worker.line := by
    rw [line]
    exact List.mem_cons_self
  constructor
  case observed => exact around.observer ▸ accounted.observed
  case sturdy => exact around.engine ▸ accounted.sturdy
  case running => exact worker ▸ accounted.running
  case booked =>
    rw [taken]
    exact token ▸ accounted.booked
  case issued =>
    rw [taken]
    intro job later
    exact accounted.issued job (line ▸ List.mem_cons_of_mem _ later)
  case order =>
    have order := accounted.order
    rw [line, List.map_cons] at order
    rw [reports, List.map_append, List.append_assoc]
    exact order
  case reported =>
    rw [taken, reports]
    intro report inside
    rcases List.mem_append.mp inside with earlier | last
    · exact accounted.reported report earlier
    · obtain rfl := List.mem_singleton.mp last
      obtain ⟨x, booked, same, pass⟩ := accounted.issued r.job member
      exact ⟨newest, x, booked, same, r.job, pass, rfl⟩
  case newest =>
    rw [taken, reports]
    intro x job last pass
    have number : x.token = c.session.token := last_token accounted.booked last
    rcases accounted.newest x job last pass with underway | ⟨report, inside, same⟩
    · rw [line] at underway
      rcases List.mem_cons.mp underway with here | later
      · refine Or.inr ⟨_, List.mem_append_right _ List.mem_cons_self, ?_, ?_⟩
        · exact newest.trans number.symm
        · rw [here]
      · exact Or.inl later
    · exact Or.inr ⟨report, List.mem_append_left _ inside, same⟩
  case noticed =>
    rw [reports]
    show (c.session.turn .read).notices.filterMap _ = _
    rw [notices, told, List.filterMap_append, accounted.noticed, List.map_append]
    rfl

theorem read_effect {s : Session} {r : PassResult} {rest : List PassResult}
    (unread : s.worker.results = r :: rest) :
    Steady s (s.turn .read) ∧ (s.turn .read).token = s.token ∧
      (s.turn .read).worker = (s.withResults rest).worker ∧
      ((r.job.token ≠ s.token ∧ (s.turn .read).notices = s.notices) ∨
        r.job.token = s.token ∧ ∃ success, (s.turn .read).notices =
          s.notices ++ s.told (.reported r.job.extent success)) := by
  have effect := apply_effect (s.withResults rest) r
  rw [turn_read unread]
  generalize (s.withResults rest).apply r = after at effect
  cases effect with
  | stale old => exact ⟨⟨rfl, rfl⟩, rfl, rfl, Or.inl ⟨old, rfl⟩⟩
  | rejected newest _ => exact ⟨⟨rfl, rfl⟩, rfl, rfl, Or.inr ⟨newest, false, rfl⟩⟩
  | painted newest _ _ => exact ⟨⟨rfl, rfl⟩, rfl, rfl, Or.inr ⟨newest, true, rfl⟩⟩

theorem accounted_read {c : Chronicle} (accounted : Accounted c) : Accounted (c.turn .read) := by
  cases unread : c.session.worker.results with
  | nil => exact accounted_still accounted (turn_read_nothing unread)
  | cons r rest =>
    obtain ⟨around, token, worker, stale | ⟨newest, success, notices⟩⟩ := read_effect unread
    · obtain ⟨old, notices⟩ := stale
      have line : c.session.worker.line = r.job :: (c.session.turn .read).worker.line := by
        rw [worker]
        exact line_unread unread
      refine accounted_kept accounted around ?_ token ?_ ?_
        (notices.trans (List.append_nil _).symm) rfl
      · rw [worker]
        exact accounted.running
      · rw [line]
        exact List.sublist_cons_self _ _
      · intro job member newest
        rw [line] at member
        rcases List.mem_cons.mp member with rfl | later
        · exact absurd newest old
        · exact later
    · exact accounted_reported accounted unread newest around token worker notices

theorem accounted_turn {c : Chronicle} (accounted : Accounted c) (t : Turn) :
    Accounted (c.turn t) := by
  cases t with
  | call call => exact accounted_call accounted call
  | work move => exact accounted_work accounted move
  | read => exact accounted_read accounted
  | wait moment =>
    exact accounted_kept accounted ⟨rfl, rfl⟩ accounted.running rfl (List.Sublist.refl _)
      (fun job member _ => member) (List.append_nil _).symm rfl

theorem accounted_run {c : Chronicle} (accounted : Accounted c) (turns : List Turn) :
    Accounted (c.run turns) := by
  induction turns generalizing c with
  | nil => exact accounted
  | cons t turns ih => exact ih (accounted_turn accounted t)

/- What the books say. -/

theorem copies_eq (c : Chronicle) (token : Nat) :
    c.copies token =
      (c.reports.map (·.token) ++ c.session.worker.line.map (·.token)).count token := by
  simp only [copies, Worker.line, List.map_append, List.map_map, List.count, List.countP_append,
    List.countP_map, Function.comp_def]
  omega

theorem copies_eq_one {c : Chronicle} (accounted : Accounted c) {token : Nat}
    (member : token ∈ c.reports.map (·.token) ++ c.session.worker.line.map (·.token)) :
    c.copies token = 1 := by
  rw [copies_eq]
  have distinct : (c.reports.map (·.token) ++ c.session.worker.line.map (·.token)).Nodup :=
    accounted.order.imp fun less => Nat.ne_of_lt less
  rw [distinct.count, if_pos member]

theorem last_in_queue {w : Worker} {token : Nat} (order : Ascending w.line)
    (bound : ∀ job ∈ w.line, job.token ≤ token) {job : Job} (member : job ∈ w.queue)
    (newest : job.token = token) : w.queue.getLast? = some job := by
  obtain ⟨front, back, split⟩ := List.append_of_mem member
  unfold Worker.line at order bound
  rw [split] at order bound ⊢
  cases back with
  | nil => exact List.getLast?_concat
  | cons other back =>
    have limit := bound other (by simp)
    have part : (job :: other :: back) <:+ w.results.map (·.job) ++
        (w.phase.job?.toList ++ (front ++ job :: other :: back)) :=
      ⟨w.results.map (·.job) ++ (w.phase.job?.toList ++ front), by simp⟩
    have ascending : Ascending (job :: other :: back) := order.sublist (part.sublist.map _)
    have less : job.token < other.token := (List.pairwise_cons.mp ascending).1 _ List.mem_cons_self
    omega

theorem place_of_newest {w : Worker} {token : Nat} (order : Ascending w.line)
    (bound : ∀ job ∈ w.line, job.token ≤ token) {job : Job} (member : job ∈ w.line)
    (newest : job.token = token) :
    w.queue.getLast? = some job ∨ w.phase.job? = some job ∨ ∃ r ∈ w.results, r.job = job := by
  rcases List.mem_append.mp member with unread | behind
  · obtain ⟨r, inside, same⟩ := List.mem_map.mp unread
    exact Or.inr (Or.inr ⟨r, inside, same⟩)
  · rcases List.mem_append.mp behind with held | queued
    · exact Or.inr (Or.inl (Option.mem_toList.mp held))
    · exact Or.inl (last_in_queue order bound queued newest)

theorem newest_in_place {c : Chronicle} (accounted : Accounted c) {x : Taking} {job : Job}
    (last : c.taken.getLast? = some x) (pass : x.pass? = some job) :
    c.copies x.token = 1 ∧
      (c.session.worker.queue.getLast? = some job ∨ c.session.worker.phase.job? = some job ∨
        (∃ r ∈ c.session.worker.results, r.job = job) ∨
        ∃ report ∈ c.reports, report.token = x.token ∧ report.extent = job.extent) := by
  have newest : x.token = c.session.token := last_token accounted.booked last
  have number : job.token = x.token := accounted.booked.named x (List.mem_of_getLast? last) job pass
  refine ⟨copies_eq_one accounted ?_, ?_⟩
  · rcases accounted.newest x job last pass with underway | ⟨report, inside, same, _⟩
    · exact List.mem_append_right _ (List.mem_map.mpr ⟨job, underway, number⟩)
    · exact List.mem_append_left _ (List.mem_map.mpr ⟨report, inside, same⟩)
  · rcases accounted.newest x job last pass with underway | done
    · rcases place_of_newest (ascending_line accounted) (line_le accounted) underway
          (number.trans newest) with last | held | unread
      · exact Or.inl last
      · exact Or.inr (Or.inl held)
      · exact Or.inr (Or.inr (Or.inl unread))
    · exact Or.inr (Or.inr (Or.inr done))

theorem newest_reported {c : Chronicle} (accounted : Accounted c) {x : Taking} {job : Job}
    (last : c.taken.getLast? = some x) (pass : x.pass? = some job)
    (idle : c.session.worker.phase = .idle) (queue : c.session.worker.queue = [])
    (results : c.session.worker.results = []) :
    c.reports.countP (·.token == x.token) = 1 ∧
      ∃ report ∈ c.reports, report.token = x.token ∧ report.extent = job.extent := by
  obtain ⟨once, place⟩ := newest_in_place accounted last pass
  unfold copies at once
  rw [idle, queue, results] at once place
  constructor
  · simpa [Phase.job?] using once
  · rcases place with none | none | ⟨_, none, _⟩ | done
    · cases none
    · cases none
    · cases none
    · exact done

/-- With an engine that does not break down and an observer from the start, every history keeps its
books in order. The tokens are taken in ascending order, each by a pass unless the call that took it
turned the highlighting off; reports are made in ascending order and only about the newest pass. If
the newest token was taken by a pass, that pass is in one place: the end of the queue, the worker's
hands, the unread results, or the reports. -/
theorem newest_pass_accounted (highlighter : Highlighter) (sturdy : highlighter.engine.Sturdy)
    (debounce : Nat) (observer : Observer) (turns : List Turn) :
    let c := (start (.start highlighter debounce (some observer))).run turns
    let w := c.session.worker
    c.session = (Session.start highlighter debounce (some observer)).run turns ∧
      c.taken.map (·.token) = List.range' 1 c.session.token ∧
      (c.taken.map (·.token)).Pairwise (· < ·) ∧
      (∀ x ∈ c.taken, x.pass? = none ↔ x.call.turnsOff = true) ∧
      c.session.notices.filterMap Notice.report? =
        c.reports.map (fun report => (report.extent, report.success)) ∧
      (c.reports.map (·.token)).Pairwise (· < ·) ∧
      (∀ report ∈ c.reports, report.token = report.newest ∧
        ∃ x ∈ c.taken, x.token = report.token ∧ ∃ job ∈ x.pass?, job.extent = report.extent) ∧
      ∀ x, c.taken.getLast? = some x → x.call.turnsOff = false →
        ∃ job, x.pass? = some job ∧ x.token = c.session.token ∧ job.token = x.token ∧
          c.copies x.token = 1 ∧
          (w.queue.getLast? = some job ∨ w.phase.job? = some job ∨ (∃ r ∈ w.results, r.job = job) ∨
            ∃ report ∈ c.reports, report.token = x.token ∧ report.extent = job.extent) ∧
          (w.phase = .idle → w.queue = [] → w.results = [] →
            c.reports.countP (·.token == x.token) = 1 ∧
              ∃ report ∈ c.reports, report.token = x.token ∧ report.extent = job.extent) := by
  intro c w
  have accounted : Accounted c :=
    accounted_run (accounted_start highlighter sturdy debounce observer) turns
  have booked : Booked c.taken c.session.token := accounted.booked
  refine ⟨session_run _ turns, booked.counted, ?_, booked.asked, accounted.noticed,
    (List.pairwise_append.mp accounted.order).1, accounted.reported, ?_⟩
  · rw [booked.counted]
    exact List.pairwise_lt_range'
  · intro x last on
    have member := List.mem_of_getLast? last
    have asked : x.pass? ≠ none := by
      intro none
      rw [(booked.asked x member).mp none] at on
      cases on
    obtain ⟨job, pass⟩ := Option.ne_none_iff_exists'.mp asked
    obtain ⟨once, place⟩ := newest_in_place accounted last pass
    exact ⟨job, pass, last_token booked last, booked.named x member job pass, once, place,
      newest_reported accounted last pass⟩

/-- Two passes are asked for before the worker moves; it passes over the first one, calls the engine
for the second one, and the result is read. -/
theorem newest_pass_accounted_superseded :
    let highlighter : Highlighter :=
      ⟨.constant "plain".toList (.ok ['a']), .bundled, .standard []⟩
    let turns : List Turn := [.call (.replace ⟨0, 0⟩ ['a']),
      .call (.setLanguage (some "plain".toList)), .call .rehighlight, .work .receive, .work .adopt,
      .work .settle, .work .check, .work .answer, .read]
    let c := (start (.start highlighter 0 (some .willing))).run turns
    highlighter.engine.Sturdy ∧ c.taken.map (·.token) = [1, 2] ∧
      (∃ x, c.taken.getLast? = some x ∧ x.call.turnsOff = false ∧ c.copies x.token = 1) ∧
      c.copies 1 = 0 ∧ c.reports.map (·.token) = [2] ∧
      c.session.notices = [.asked ⟨0, 1⟩, .asked ⟨0, 1⟩, .reported ⟨0, 1⟩ true] := by
  intro highlighter turns c
  have sturdy : highlighter.engine.Sturdy := by
    intro n language source broken
    cases broken
  have course : c.taken.map (·.token) = [1, 2] ∧ c.copies 1 = 0 ∧ c.reports.map (·.token) = [2] ∧
      c.session.notices = [.asked ⟨0, 1⟩, .asked ⟨0, 1⟩, .reported ⟨0, 1⟩ true] := by
    decide +kernel
  have found : c.taken.getLast?.map (·.call.turnsOff) = some false := by decide +kernel
  obtain ⟨x, last, on⟩ := Option.map_eq_some_iff.mp found
  obtain ⟨_, _, _, _, _, _, _, newest⟩ :=
    newest_pass_accounted highlighter sturdy 0 .willing turns
  obtain ⟨_, _, _, _, once, _⟩ := newest x last on
  exact ⟨sturdy, course.1, ⟨x, last, on, once⟩, course.2⟩

end Chronicle

end SyntaxPaint
