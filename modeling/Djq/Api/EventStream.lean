import Djq.System.Interleaving
import Djq.Transition.Stream

/-!
# The status stream of a job

`crates/api/src/sse.rs`: a stream that polls the job and sends an event at each
change of its status. What a poll returns is left open, one answer for each of
the calls of `get_job`; so is the JSON encoder, which only has to succeed.
-/

namespace Djq

open Transition

/-- `MAX_POLLS`. -/
def maxPolls : Nat := 1200

structure JobEvent where
  id : Uuid
  status : String
  attempts : Int
  lastError : Option String

/-- An SSE event, by its name and its data. -/
structure Event where
  event : String
  data : String
  deriving DecidableEq

structure StreamState where
  id : Uuid
  last : Option JobStatus
  first : Bool
  done : Bool
  polls : Nat

def Event.timeout : Event := ⟨"timeout", "stream closed"⟩

def Event.notFound : Event := ⟨"error", "job not found"⟩

def Event.encodeError : Event := ⟨"error", "encode error"⟩

def Job.event (job : Job) : JobEvent := ⟨job.id, job.status.asStr, job.attempts, job.lastError⟩

section Stream

variable (jsonData : JobEvent → Except Unit String) (getJob : Uuid → Nat → Except QueueError Job)

/-- The event a changed status is sent as. -/
def Event.status (job : Job) : Event :=
  match jsonData job.event with
  | .ok text => ⟨"status", text⟩
  | .error _ => .encodeError

namespace StreamState

def start (id : Uuid) : StreamState := ⟨id, none, true, false, 0⟩

/-- The loop inside a step of the unfold, up to the next event; `getJob id k` is
what the call number `k` returns. -/
def next (st : StreamState) : Event × StreamState :=
  if maxPolls ≤ st.polls then (.timeout, { st with done := true })
  else
    match getJob st.id st.polls with
    | .ok job =>
      if st.first || decide (st.last ≠ some job.status) then
        (.status jsonData job,
          { st with
            first := false, last := some job.status, polls := st.polls + 1
            done := st.done || job.status.isTerminal })
      else next { st with polls := st.polls + 1 }
    | .error _ => (.notFound, { st with done := true, polls := st.polls + 1 })
termination_by maxPolls - st.polls

/-- A step of the unfold. -/
def step (st : StreamState) : Option (Event × StreamState) :=
  if st.done then none else some (st.next jsonData getJob)

end StreamState

/-! ## The reference -/

/-- The jobs at which a status is sent: the first of each stretch of one status. -/
def told (jobs : List Job) : List Job := jobs.destutter fun a b => a.status ≠ b.status

theorem told_concat (jobs : List Job) (job : Job) :
    told (jobs ++ [job]) = told jobs ++ if jobs.getLast?.map Job.status = some job.status then [] else [job] :=
  destutter_concat Job.status jobs job

/-- The statuses sent are those observed, without consecutive repetitions. -/
theorem told_status (jobs : List Job) : (told jobs).map Job.status = (jobs.map Job.status).destutter (· ≠ ·) :=
  List.map_destutter fun _ _ _ _ => Iff.rfl

/-- The first calls returned these jobs, none of which was done. -/
structure Observed (id : Uuid) (jobs : List Job) : Prop where
  answers : ∀ k (inside : k < jobs.length), getJob id k = .ok jobs[k]
  live : ∀ job ∈ jobs, job.status.isTerminal = false

/-- What a stream sends that has been answered with `seen`, by how it ends, with
the number of calls it makes. -/
inductive Watched (id : Uuid) : List Job → Nat → List Event → Prop where
  | terminal {jobs job} (observed : Observed getJob id jobs) (within : jobs.length < maxPolls)
      (last : getJob id jobs.length = .ok job) (terminal : job.status.isTerminal = true) :
      Watched id (jobs ++ [job]) (jobs.length + 1) ((told (jobs ++ [job])).map (Event.status jsonData))
  | failed {jobs e} (observed : Observed getJob id jobs) (within : jobs.length < maxPolls)
      (last : getJob id jobs.length = .error e) :
      Watched id jobs (jobs.length + 1) ((told jobs).map (Event.status jsonData) ++ [.notFound])
  | timeout {jobs} (observed : Observed getJob id jobs) (full : jobs.length = maxPolls) :
      Watched id jobs maxPolls ((told jobs).map (Event.status jsonData) ++ [.timeout])

/-! ## The stream -/

variable {jsonData getJob} {id : Uuid} {jobs : List Job}

theorem Observed.nil : Observed getJob id [] := by
  constructor
  · intro k inside
    exact absurd inside (Nat.not_lt_zero k)
  · intro job mem
    exact absurd mem List.not_mem_nil

theorem Observed.concat (observed : Observed getJob id jobs) {job : Job} (last : getJob id jobs.length = .ok job)
    (live : job.status.isTerminal = false) : Observed getJob id (jobs ++ [job]) := by
  constructor
  · intro k inside
    rw [List.length_append, List.length_singleton] at inside
    by_cases earlier : k < jobs.length
    · rw [List.getElem_append_left earlier]
      exact observed.answers k earlier
    · obtain rfl : k = jobs.length := by omega
      simpa using last
  · intro other mem
    rcases List.mem_append.1 mem with mem | mem
    · exact observed.live other mem
    · obtain rfl := List.mem_singleton.1 mem
      exact live

namespace StreamState

/-- The state of a stream that has observed `jobs`. -/
def watching (id : Uuid) (jobs : List Job) : StreamState :=
  ⟨id, jobs.getLast?.map Job.status, jobs.isEmpty, false, jobs.length⟩

variable (id jobs) in
/-- A status counts as changed unless it repeats the last one. -/
theorem changed_iff (job : Job) :
    ((watching id jobs).first || decide ((watching id jobs).last ≠ some job.status)) = true ↔
      ¬ jobs.getLast?.map Job.status = some job.status := by
  cases jobs with
  | nil => simp [watching]
  | cons j jobs => simp [watching]

theorem step_watching : (watching id jobs).step jsonData getJob = some ((watching id jobs).next jsonData getJob) := by
  rfl

theorem next_timeout (full : jobs.length = maxPolls) :
    (watching id jobs).next jsonData getJob = (.timeout, { watching id jobs with done := true }) := by
  have polls : maxPolls ≤ (watching id jobs).polls := full.ge
  rw [next, if_pos polls]

variable (jsonData) in
theorem next_failed {e : QueueError} (within : jobs.length < maxPolls) (last : getJob id jobs.length = .error e) :
    (watching id jobs).next jsonData getJob =
      (.notFound, { watching id jobs with done := true, polls := jobs.length + 1 }) := by
  have polls : ¬ maxPolls ≤ (watching id jobs).polls := not_le_of_gt within
  have answer : getJob (watching id jobs).id (watching id jobs).polls = .error e := last
  rw [next, if_neg polls, answer]
  rfl

variable (jsonData) in
theorem next_changed {job : Job} (within : jobs.length < maxPolls) (last : getJob id jobs.length = .ok job)
    (changed : ¬ jobs.getLast?.map Job.status = some job.status) :
    (watching id jobs).next jsonData getJob =
      (.status jsonData job, { watching id (jobs ++ [job]) with done := job.status.isTerminal }) := by
  have polls : ¬ maxPolls ≤ (watching id jobs).polls := not_le_of_gt within
  have answer : getJob (watching id jobs).id (watching id jobs).polls = .ok job := last
  rw [next, if_neg polls, answer]
  simp only [(changed_iff id jobs job).2 changed, if_true]
  simp [watching]

theorem next_same {job : Job} (within : jobs.length < maxPolls) (last : getJob id jobs.length = .ok job)
    (same : jobs.getLast?.map Job.status = some job.status) :
    (watching id jobs).next jsonData getJob = (watching id (jobs ++ [job])).next jsonData getJob := by
  have polls : ¬ maxPolls ≤ (watching id jobs).polls := not_le_of_gt within
  have answer : getJob (watching id jobs).id (watching id jobs).polls = .ok job := last
  have unchanged := mt (changed_iff id jobs job).1 (not_not_intro same)
  have some : jobs.isEmpty = false := by
    cases jobs with
    | nil => cases same
    | cons => rfl
  have state : { watching id jobs with polls := (watching id jobs).polls + 1 } = watching id (jobs ++ [job]) := by
    simp [watching, some, same]
  rw [← state]
  conv_lhs => rw [next, if_neg polls, answer]
  simp only [if_neg unchanged]

end StreamState

open StreamState

variable (jsonData) in
/-- From any number of observations on, the stream comes to one of its ends. -/
theorem Observed.unfolds (observed : Observed getJob id jobs) {left : Nat} (within : jobs.length + left = maxPolls) :
    ∃ rest last seen, Unfold (step jsonData getJob) (watching id jobs) rest last ∧ last.polls ≤ maxPolls ∧
      Watched jsonData getJob id seen last.polls ((told jobs).map (Event.status jsonData) ++ rest) := by
  induction left generalizing jobs with
  | zero =>
    have full : jobs.length = maxPolls := within
    refine ⟨[.timeout], { watching id jobs with done := true }, jobs, ?_, full.le, ?_⟩
    · exact .cons (step_watching.trans (congrArg some (next_timeout full))) (.nil rfl)
    · have polls : ({ watching id jobs with done := true } : StreamState).polls = maxPolls := full
      rw [polls]
      exact .timeout observed full
  | succ left ih =>
    have more : jobs.length < maxPolls := by omega
    cases answer : getJob id jobs.length with
    | error e =>
      have sent := step_watching.trans (congrArg some (next_failed jsonData more answer))
      exact ⟨[.notFound], _, jobs, .cons sent (.nil rfl), more, .failed observed more answer⟩
    | ok job =>
      have length : (jobs ++ [job]).length + left = maxPolls := by
        rw [List.length_append, List.length_singleton]
        omega
      by_cases same : jobs.getLast?.map Job.status = some job.status
      · have live : job.status.isTerminal = false := by
          obtain ⟨before, isLast, status⟩ := Option.map_eq_some_iff.1 same
          exact status ▸ observed.live before (List.mem_of_getLast? isLast)
        obtain ⟨rest, last, seen, unfolds, polls, watched⟩ := ih (observed.concat answer live) length
        refine ⟨rest, last, seen, unfolds.congr ?_ ?_, polls, ?_⟩
        · rw [step_watching, step_watching, next_same more answer same]
        · rw [step_watching]
          simp
        · rwa [told_concat, if_pos same, List.append_nil] at watched
      · have sent := step_watching.trans (congrArg some (next_changed jsonData more answer same))
        cases done : job.status.isTerminal with
        | true =>
          rw [done] at sent
          refine ⟨[.status jsonData job], _, jobs ++ [job], .cons sent (.nil rfl), ?_, ?_⟩
          · show (jobs ++ [job]).length ≤ maxPolls
            omega
          · have watched : Watched jsonData getJob id (jobs ++ [job]) (jobs.length + 1) _ :=
              .terminal observed more answer done
            rw [told_concat, if_neg same, List.map_append, ← List.length_singleton (a := job),
              ← List.length_append] at watched
            exact watched
        | false =>
          rw [done] at sent
          obtain ⟨rest, last, seen, unfolds, polls, watched⟩ := ih (observed.concat answer done) length
          refine ⟨.status jsonData job :: rest, last, seen, .cons sent unfolds, polls, ?_⟩
          rw [told_concat, if_neg same] at watched
          simpa using watched

/-- The events named `status` are those of the jobs at which the status changed. -/
theorem Watched.statuses (encodes : ∀ e, ∃ text, jsonData e = .ok text) {seen : List Job} {calls : Nat}
    {events : List Event} (watched : Watched jsonData getJob id seen calls events) :
    events.filter (fun e => decide (e.event = "status")) = (told seen).map (Event.status jsonData) := by
  have named : ∀ job, (Event.status jsonData job).event = "status" := by
    intro job
    obtain ⟨text, ok⟩ := encodes job.event
    rw [Event.status, ok]
  have all : ∀ jobs : List Job, (jobs.map (Event.status jsonData)).filter (fun e => decide (e.event = "status")) =
      jobs.map (Event.status jsonData) := by
    intro jobs
    rw [List.filter_eq_self]
    intro e mem
    obtain ⟨job, -, rfl⟩ := List.mem_map.1 mem
    exact decide_eq_true (named job)
  cases watched with
  | terminal => exact all _
  | failed => rw [List.filter_append, all, show [Event.notFound].filter _ = [] from rfl, List.append_nil]
  | timeout => rw [List.filter_append, all, show [Event.timeout].filter _ = [] from rfl, List.append_nil]

/-- **The stream is the destuttered observation.** For any answers to its calls the
stream ends, after at most `MAX_POLLS` calls, in one way only. Its events are the
statuses observed without consecutive repetitions, followed by nothing after a
terminal status, one `error` event after a poll that failed, and one `timeout`
event after the last poll. -/
theorem stream_destutters (jsonData : JobEvent → Except Unit String) (encodes : ∀ e, ∃ text, jsonData e = .ok text)
    (getJob : Uuid → Nat → Except QueueError Job) (id : Uuid) :
    ∃ events last seen, Unfold (step jsonData getJob) (start id) events last ∧
      (∀ events' last', Unfold (step jsonData getJob) (start id) events' last' → events' = events ∧ last' = last) ∧
      last.polls ≤ 1200 ∧ Watched jsonData getJob id seen last.polls events ∧
      events.filter (fun e => decide (e.event = "status")) = (told seen).map (Event.status jsonData) ∧
      (told seen).map Job.status = (seen.map Job.status).destutter (· ≠ ·) := by
  have none : Observed getJob id [] := .nil
  obtain ⟨events, last, seen, unfolds, polls, watched⟩ := none.unfolds jsonData (Nat.zero_add maxPolls)
  have watched : Watched jsonData getJob id seen last.polls events := watched
  refine ⟨events, last, seen, unfolds, ?_, polls, watched, watched.statuses encodes, told_status seen⟩
  intro events' last' again
  exact again.unique unfolds

end Stream

/-- The JSON text of an event with a one-digit id and no error. -/
def JobEvent.text (e : JobEvent) : String :=
  "\x7b\"id\":\"00000000-0000-0000-0000-00000000000" ++ toString e.id ++ "\",\"status\":\"" ++ e.status ++
    "\",\"attempts\":" ++ toString e.attempts ++ ",\"last_error\":null\x7d"

/-- A job that is queued for two polls and cancelled at the third. -/
def cancelledAtThird (_ : Uuid) (k : Nat) : Except QueueError Job :=
  .ok (if k < 2 then Job.sample 3 none else (Job.sample 3 none).setCancelled 1000000)

theorem stream_destutters_cancelled :
    (∀ e : JobEvent, ∃ text, (Except.ok e.text : Except Unit String) = .ok text) ∧
    ∃ events last seen, Unfold (StreamState.step (fun e => .ok e.text) cancelledAtThird) (.start 7) events last ∧
      last.polls ≤ 1200 ∧ Watched (fun e => .ok e.text) cancelledAtThird 7 seen last.polls events ∧
      (told seen).map Job.status = (seen.map Job.status).destutter (· ≠ ·) := by
  have encodes : ∀ e : JobEvent, ∃ text, (Except.ok e.text : Except Unit String) = .ok text := fun e => ⟨e.text, rfl⟩
  obtain ⟨events, last, seen, unfolds, -, polls, watched, -, statuses⟩ :=
    stream_destutters (fun e => .ok e.text) encodes cancelledAtThird 7
  exact ⟨encodes, events, last, seen, unfolds, polls, watched, statuses⟩

end Djq
