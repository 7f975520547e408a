import Djq.Api.EventStream
import Djq.Lifecycle.Progress
import Mathlib.Data.Finset.Prod
import Mathlib.Data.Int.Interval

/-!
# A stream beside the store

`stream_destutters` leaves open what the polls return. Here they read the row of
the job in the states of a run, at whatever moments, and may fail.
-/

namespace Djq

open Transition

/-- Poll `k` of a stream reads the state `s k`; until the next one the store commits `ls k`. -/
structure Polled (id : Uuid) (getJob : Uuid → Nat → Except QueueError Job) (s : Nat → Sys) (ls : Nat → List Label) :
    Prop where
  between : ∀ k, Run Step (s k) (ls k) (s (k + 1))
  reads : ∀ k job, getJob id k = .ok job → (s k).db.job? id = some job

/-- What has happened from the first poll to the poll `k`. -/
def passed (ls : Nat → List Label) : Nat → List Label
  | 0 => []
  | k + 1 => passed ls k ++ ls k

/-- What a stream has seen of the job, with the retries until then. -/
def stages (id : Uuid) (ls : Nat → List Label) (seen : List Job) : List (Nat × Job) :=
  seen.zipIdx.map fun a => (retries id (passed ls a.2), a.1)

theorem stages_jobs (id : Uuid) (ls : Nat → List Label) (seen : List Job) : (stages id ls seen).map Prod.snd = seen := by
  rw [stages, List.map_map]
  exact List.zipIdx_map_fst 0 seen

section

variable {id : Uuid} {jsonData : JobEvent → Except Unit String} {getJob : Uuid → Nat → Except QueueError Job}
  {s : Nat → Sys} {ls : Nat → List Label}

/-- Everything a stream has seen is what its polls have returned. -/
theorem Watched.answers {seen : List Job} {calls : Nat} {events : List Event}
    (watched : Watched jsonData getJob id seen calls events) :
    seen.length ≤ calls ∧ ∀ k (inside : k < seen.length), getJob id k = .ok seen[k] := by
  cases watched with
  | @terminal jobs job observed within last =>
    refine ⟨by simp, fun k inside => ?_⟩
    by_cases earlier : k < jobs.length
    · rw [List.getElem_append_left earlier]
      exact observed.answers k earlier
    · have length : (jobs ++ [job]).length = jobs.length + 1 := List.length_append
      obtain rfl : k = jobs.length := by omega
      simpa using last
  | failed observed => exact ⟨Nat.le_succ _, observed.answers⟩
  | timeout observed full => exact ⟨full.le, observed.answers⟩

theorem Polled.run (polled : Polled id getJob s ls) (k : Nat) : Run Step (s 0) (passed ls k) (s k) := by
  induction k with
  | zero => exact .nil
  | succ k ih => exact ih.append (polled.between k)

/-- What happens from one poll to a later one. -/
theorem Polled.later (polled : Polled id getJob s ls) {k m : Nat} (le : k ≤ m) :
    ∃ post, passed ls m = passed ls k ++ post ∧ Run Step (s k) post (s m) := by
  induction m, le using Nat.le_induction with
  | base => exact ⟨[], (List.append_nil _).symm, .nil⟩
  | succ m _ ih =>
    obtain ⟨post, eq, run⟩ := ih
    refine ⟨post ++ ls m, ?_, run.append (polled.between m)⟩
    rw [passed, eq, List.append_assoc]

variable {t : Int} {pre : List Label} (before : Run Step (Sys.init t) pre (s 0)) (polled : Polled id getJob s ls)
include before polled

/-- Of two polls the later one finds the job further on, or in the same status. -/
theorem Polled.onward {k m : Nat} (le : k ≤ m) {j j' : Job} (first : getJob id k = .ok j) (second : getJob id m = .ok j') :
    Onward (retries id (passed ls k), j) (retries id (passed ls m), j') := by
  obtain ⟨post, eq, run⟩ := polled.later le
  have row := polled.reads k j first
  have row' := polled.reads m j' second
  obtain gone | ⟨j'', row'', -, onward⟩ := Run.onward (before.append (polled.run k)) run row
  · cases gone.symm.trans row'
  · obtain rfl := Option.some.inj (row''.symm.trans row')
    rw [eq, retries_append]
    exact onward.shift _

theorem Polled.stages_onward {seen : List Job} (answers : ∀ k (inside : k < seen.length), getJob id k = .ok seen[k]) :
    (stages id ls seen).Pairwise Onward := by
  rw [List.pairwise_iff_getElem]
  intro k m inside inside' less
  have length : (stages id ls seen).length = seen.length := by simp [stages]
  have first := answers k (by omega)
  have second := answers m (by omega)
  have onward := Polled.onward before polled less.le first second
  simpa [stages] using onward

/-- What a poll finds is within the budget the job was submitted with. -/
theorem Polled.bounded {j : Job} (row : (s 0).db.job? id = some j) {k : Nat} {j' : Job} (answer : getJob id k = .ok j') :
    0 ≤ j'.progress ∧ j'.progress ≤ 2 * j.maxAttempts := by
  have row' := polled.reads k j' answer
  have bounds := (Sys.budget_of_run (before.append (polled.run k)) j' (Db.job?_mem row')).progress
  obtain gone | ⟨j'', row'', same, -⟩ := Run.onward before (polled.run k) row
  · cases gone.symm.trans row'
  · obtain rfl := Option.some.inj (row''.symm.trans row')
    rw [← same.maxAttempts]
    exact bounds

/-- **A stream never goes back.** Whatever the clients of the store do between its
polls, and whichever polls fail: the statuses a stream sends are of the row as it was
at its polls, each further on than the one before, by the retries of an operator so
far and then by its attempts. So it sends at most `2 * max_attempts + 1` of them, and
as many again for each retry. -/
theorem stream_advances (encodes : ∀ e, ∃ text, jsonData e = .ok text) {events : List Event} {last : StreamState}
    (unfolds : Unfold (StreamState.step jsonData getJob) (.start id) events last) :
    ∃ sent : List (Nat × Job),
      events.filter (fun e => decide (e.event = "status")) = sent.map (fun a => Event.status jsonData a.2) ∧
      (∀ a ∈ sent, ∃ k < last.polls, (s k).db.job? id = some a.2 ∧ a.1 = retries id (passed ls k)) ∧
      sent.Pairwise Ahead ∧
      ∀ j, (s 0).db.job? id = some j →
        sent.length ≤ (retries id (passed ls last.polls) + 1) * (2 * j.maxAttempts + 1).toNat := by
  have none : Observed getJob id [] := .nil
  obtain ⟨events', last', seen, unfolds', -, watched⟩ := none.unfolds jsonData (Nat.zero_add maxPolls)
  obtain ⟨rfl, rfl⟩ := unfolds'.unique unfolds
  have watched : Watched jsonData getJob id seen last'.polls events' := watched
  obtain ⟨within, answers⟩ := watched.answers
  let sent := (stages id ls seen).destutter fun a b => a.2.status ≠ b.2.status
  have jobs : sent.map Prod.snd = told seen := by
    rw [told, ← stages_jobs id ls seen]
    exact List.map_destutter fun _ _ _ _ => Iff.rfl
  have origin : ∀ a ∈ sent, ∃ k < last'.polls, getJob id k = .ok a.2 ∧ a.1 = retries id (passed ls k) := by
    intro a mem
    obtain ⟨⟨job, k⟩, inside, rfl⟩ := List.mem_map.1 ((List.destutter_sublist _ _).subset mem)
    obtain ⟨-, less, eq⟩ := List.mem_zipIdx inside
    have less : k < seen.length := by omega
    refine ⟨k, by omega, ?_, rfl⟩
    rw [answers k less]
    exact congrArg Except.ok eq.symm
  have ascends : sent.Pairwise Ahead := by
    apply pairwise_destutter (fun a : Nat × Job => a.2.status)
    refine (Polled.stages_onward before polled answers).imp fun {a b} onward changed => ?_
    obtain ahead | ⟨-, -, same⟩ := onward
    · exact ahead
    · exact absurd same changed
  refine ⟨sent, ?_, fun a mem => ?_, ascends, fun j row => ?_⟩
  · rw [watched.statuses encodes, ← jobs, List.map_map]
    rfl
  · obtain ⟨k, less, answer, epoch⟩ := origin a mem
    exact ⟨k, less, polled.reads k a.2 answer, epoch⟩
  · have distinct : sent.Pairwise fun a b => (a.1, a.2.progress) ≠ (b.1, b.2.progress) := by
      refine ascends.imp fun {a b} ahead same => ?_
      obtain ⟨retried, progress⟩ := Prod.mk.inj same
      unfold Ahead at ahead
      omega
    have into : ∀ a ∈ sent, (a.1, a.2.progress) ∈
        Finset.range (retries id (passed ls last'.polls) + 1) ×ˢ Finset.Icc 0 (2 * j.maxAttempts) := by
      intro a mem
      obtain ⟨k, less, answer, epoch⟩ := origin a mem
      obtain ⟨post, eq, -⟩ := polled.later less.le
      have split := retries_append id (passed ls k) post
      rw [← eq] at split
      have bounds := Polled.bounded before polled row answer
      rw [Finset.mem_product, Finset.mem_range, Finset.mem_Icc]
      exact ⟨by omega, bounds⟩
    have short := length_le_card distinct into
    rwa [Finset.card_product, Finset.card_range, Int.card_Icc, Int.sub_zero] at short

end

/-- A job is submitted, and cancelled between the second and the third poll. -/
def watchedSubmit : Sys := (Sys.init 0).replay (Action.submit 0 (.sample 3 none NewJob.sample_thrice) 7)

def watchedStates (k : Nat) : Sys :=
  if k < 2 then watchedSubmit else watchedSubmit.replay (Action.call 1 (.cancelJob 7))

def watchedLabels (k : Nat) : List Label := if k = 1 then watchedSubmit.trace (Action.call 1 (.cancelJob 7)) else []

def watchedPolls (id : Uuid) (k : Nat) : Except QueueError Job := found (.jobNotFound id) ((watchedStates k).db.job? id)

theorem watched_polled : Polled 7 watchedPolls watchedStates watchedLabels := by
  constructor
  · intro k
    match k with
    | 0 => exact .nil
    | 1 => exact @Sys.replay_run watchedSubmit (Action.call 1 (.cancelJob 7)) (by decide)
    | k + 2 => exact .nil
  · intro k job answer
    unfold watchedPolls found at answer
    split at answer
    · cases answer
    · rename_i row
      rw [row, Except.ok.inj answer]

theorem stream_advances_cancelled :
    ∃ events last, ∃ sent : List (Nat × Job),
      Unfold (StreamState.step (fun e => .ok e.text) watchedPolls) (.start 7) events last ∧ sent.Pairwise Ahead ∧
      sent.length ≤ (retries 7 (passed watchedLabels last.polls) + 1) * 7 := by
  have before := @Sys.replay_run (Sys.init 0) (Action.submit 0 (.sample 3 none NewJob.sample_thrice) 7) (by decide)
  have encodes : ∀ e : JobEvent, ∃ text, (Except.ok e.text : Except Unit String) = .ok text := fun e => ⟨e.text, rfl⟩
  have none : Observed watchedPolls 7 [] := .nil
  obtain ⟨events, last, -, unfolds, -⟩ := none.unfolds (fun e => .ok e.text) (Nat.zero_add maxPolls)
  obtain ⟨sent, -, -, ascends, short⟩ := stream_advances before watched_polled encodes unfolds
  exact ⟨events, last, sent, unfolds, ascends, short _ rfl⟩

end Djq
