import Djq.Lifecycle.Epochs

/-!
# The order of `list_attempts`

The listing is ordered by the attempt number, which starts again at one in every
epoch, and only then by the id. It is newest first as long as the numbers rise
along the rows: until a lease that follows an operator's retry, or for good where
a job has one attempt only.
-/

namespace Djq

open Relational Transition

/-- `ORDER BY attempt DESC, id DESC`. -/
def listingOrder (a b : JobAttempt) : Prop := b.attempt < a.attempt ∨ (a.attempt = b.attempt ∧ b.id ≤ a.id)

instance : DecidableRel listingOrder := fun _ _ => inferInstanceAs (Decidable (_ ∨ _))

instance : Std.Total listingOrder := ⟨fun a b => by unfold listingOrder; omega⟩

instance : IsTrans JobAttempt listingOrder := ⟨fun a b c => by unfold listingOrder; omega⟩

/-- `list_attempts`. -/
def Db.listAttempts (db : Db) (id : Uuid) : List JobAttempt :=
  orderBy listingOrder (db.attempts.filter fun a => decide (a.jobId = id))

/-- A row comes before those of earlier leases: ids are drawn lease by lease. -/
def NewestFirst (rows : List JobAttempt) : Prop := rows.Pairwise fun a b => b.id < a.id

instance (rows : List JobAttempt) : Decidable (NewestFirst rows) := inferInstanceAs (Decidable (List.Pairwise _ _))

/-- Somewhere in the run the job is leased after an operator's retry of it. -/
def LeasedAfterRetry (id : Uuid) (ls : List Label) : Prop :=
  ∃ pre post, ls = pre ++ post ∧ (∃ l ∈ pre, l.wrote Call.isRetry id = true) ∧
    ∃ l ∈ post, l.lease.map (·.2.id) = some id

/-! ## Epochs after a retry -/

theorem leasedAfterRetry_snoc {id : Uuid} {ls : List Label} {l : Label} :
    LeasedAfterRetry id (ls ++ [l]) ↔ LeasedAfterRetry id ls ∨
      ((∃ l ∈ ls, l.wrote Call.isRetry id = true) ∧ l.lease.map (·.2.id) = some id) := by
  constructor
  · rintro ⟨pre, post, eq, ⟨r, rMem, retry⟩, k, kMem, leases⟩
    rcases List.eq_nil_or_concat post with rfl | ⟨mid, last, rfl⟩
    · exact absurd kMem List.not_mem_nil
    · rw [List.concat_eq_append, ← List.append_assoc] at eq
      obtain ⟨rfl, same⟩ := List.append_inj' eq rfl
      obtain rfl := List.singleton_inj.1 same
      rcases List.mem_append.1 (List.concat_eq_append ▸ kMem) with inside | isLast
      · exact .inl ⟨pre, mid, rfl, ⟨r, rMem, retry⟩, k, inside, leases⟩
      · obtain rfl := List.mem_singleton.1 isLast
        exact .inr ⟨⟨r, List.mem_append_left _ rMem, retry⟩, leases⟩
  · rintro (⟨pre, post, rfl, retried, k, kMem, leases⟩ | ⟨retried, leases⟩)
    · exact ⟨pre, post ++ [l], List.append_assoc _ _ _, retried, k, List.mem_append_left _ kMem, leases⟩
    · exact ⟨ls, [l], rfl, retried, l, List.mem_singleton_self l, leases⟩

/-- The blocks of rows, one for each epoch. -/
def Epochs.blocks (e : Epochs) : List Nat := e.earlier ++ [e.current]

theorem Epochs.numbers_eq (e : Epochs) : e.numbers = e.blocks.flatMap counted := by
  simp [numbers, blocks]

/-- Leases after a retry are those counted in a block that is not the first. -/
theorem leasedAfterRetry_iff {id : Uuid} {ls : List Label} :
    LeasedAfterRetry id ls ↔ ∃ n ∈ (epochs id ls).blocks.tail, n ≠ 0 := by
  induction ls using List.reverseRecOn with
  | nil =>
    constructor
    · rintro ⟨pre, post, eq, -, k, kMem, -⟩
      obtain ⟨-, rfl⟩ := List.append_eq_nil_iff.1 eq.symm
      exact absurd kMem List.not_mem_nil
    · rintro ⟨n, mem, -⟩
      exact absurd mem List.not_mem_nil
  | append_singleton ls l ih =>
    have retried : (∃ l ∈ ls, l.wrote Call.isRetry id = true) ↔ (epochs id ls).earlier ≠ [] := by
      rw [← List.length_pos_iff, epochs_earlier_length, List.countP_pos_iff]
    rw [leasedAfterRetry_snoc, ih, retried, epochs_snoc]
    generalize epochs id ls = e
    obtain ⟨earlier, current⟩ := e
    unfold Epochs.after Epochs.blocks
    split
    · rename_i retry
      have noLease : ¬ l.lease.map (·.2.id) = some id := by
        intro leases
        obtain ⟨_, leased, -⟩ := Option.map_eq_some_iff.1 leases
        exact Bool.false_ne_true ((Label.wrote_of_lease leased).symm.trans retry)
      cases earlier with
      | nil => simp [noLease]
      | cons n rest => simp [noLease, or_and_right, exists_or]
    · split
      · rename_i leases
        cases earlier with
        | nil => simp
        | cons n rest => simp [leases]
      · rename_i noLease
        simp [noLease]

/-- Every epoch that has ended used up the budget. -/
def Full (id : Uuid) (ls : List Label) (s : Sys) : Prop :=
  ∀ j, s.db.job? id = some j → ∀ n ∈ (epochs id ls).earlier, (n : Int) = j.maxAttempts

theorem Full.step {id : Uuid} {ls : List Label} {s s' : Sys} {l : Label} (full : Full id ls s)
    (numbered : Numbered id ls s) (sound : s.Sound) (budget : ∀ j ∈ s.db.jobs, j.Budget) (step : Step s l s') :
    Full id (ls ++ [l]) s' := by
  intro j' row' n mem
  rw [epochs_snoc] at mem
  obtain ⟨quiet, same⟩ | ⟨i, u, rfl, -, -, -, fresh, rfl, life⟩ := step.row sound id
  · rw [Epochs.after_quiet _ id quiet] at mem
    exact full j' (same.symm.trans row') n mem
  · by_cases retried : (Label.commit i u).wrote Call.isRetry id = true
    · obtain ⟨retry, written⟩ := Label.wrote_commit.1 retried
      obtain ⟨j, row, done, rfl⟩ := life.of_retry retry written row'
      rw [Epochs.after, if_pos retried] at mem
      rcases List.mem_append.1 mem with earlier | last
      · exact full j row n earlier
      · obtain rfl := List.mem_singleton.1 last
        have spent := budget j (Db.job?_mem row)
        have number := (numbered.rows j row).2
        simp only [List.mem_cons, List.not_mem_nil, or_false] at done
        rcases done with failed | deadLettered
        · exact number.symm.trans (spent.failed failed).1
        · exact number.symm.trans (spent.deadLettered deadLettered).1
    · have earlier : ((epochs id ls).after id (.commit i u)).earlier = (epochs id ls).earlier := by
        rw [Epochs.after, if_neg retried]
        split <;> rfl
      rw [earlier] at mem
      obtain ⟨j, row, same⟩ | ⟨-, -, -, drawn⟩ := life.origin row'
      · rw [same.maxAttempts]
        exact full j row n mem
      · rw [numbered.unborn (drawn ▸ fresh)] at mem
        exact absurd mem List.not_mem_nil

theorem Sys.full_of_run {t : Int} {ls : List Label} {s : Sys} (run : Run Step (Sys.init t) ls s) (id : Uuid) :
    Full id ls s := by
  induction run with
  | nil =>
    intro j row
    exact absurd (Db.job?_mem row) List.not_mem_nil
  | snoc before last ih =>
    exact ih.step (Sys.numbered_of_run before id) (Sys.sound_of_run before) (Sys.budget_of_run before) last

/-! ## Rising numbers -/

theorem mem_counted {n : Nat} {x : Int} : x ∈ counted n ↔ 1 ≤ x ∧ x ≤ n := by
  simp only [counted, List.mem_map, List.mem_range]
  constructor
  · rintro ⟨k, less, rfl⟩
    omega
  · rintro ⟨low, high⟩
    exact ⟨(x - 1).toNat, by omega, by omega⟩

theorem counted_rising (n : Nat) : (counted n).Pairwise (· ≤ ·) := by
  induction n with
  | zero => exact List.Pairwise.nil
  | succ n ih =>
    rw [counted_succ, List.pairwise_append]
    refine ⟨ih, List.pairwise_singleton _ _, ?_⟩
    intro x mem y last
    obtain rfl := List.mem_singleton.1 last
    have := (mem_counted.1 mem).2
    omega

/-- Blocks of which all but the last are full: the numbers rise exactly where a
block holds one number, or only the first block holds any. -/
theorem blocks_rising_iff {e : Epochs} {m : Nat} (positive : 1 ≤ m) (full : ∀ n ∈ e.earlier, n = m)
    (within : e.current ≤ m) :
    (e.blocks.flatMap counted).Pairwise (· ≤ ·) ↔ m = 1 ∨ ¬ ∃ n ∈ e.blocks.tail, n ≠ 0 := by
  have bounded : ∀ n ∈ e.blocks, n ≤ m := by
    intro n mem
    rcases List.mem_append.1 mem with earlier | last
    · exact (full n earlier).le
    · obtain rfl := List.mem_singleton.1 last
      exact within
  constructor
  · intro rising
    by_contra neither
    rw [not_or, not_not] at neither
    obtain ⟨several, n, mem, some⟩ := neither
    obtain ⟨earlier, current⟩ := e
    cases earlier with
    | nil => exact absurd mem List.not_mem_nil
    | cons first rest =>
      have isFull : first = m := full first List.mem_cons_self
      have mem : n ∈ rest ++ [current] := mem
      rw [Epochs.blocks, List.cons_append, List.flatMap_cons, List.pairwise_append] at rising
      have two : (2 : Int) ∈ counted first := mem_counted.2 (by omega)
      have one : (1 : Int) ∈ (rest ++ [current]).flatMap counted :=
        List.mem_flatMap.2 ⟨n, mem, mem_counted.2 (by omega)⟩
      have := rising.2.2 2 two 1 one
      omega
  · rintro (single | empty)
    · apply List.pairwise_of_forall_mem_list
      intro x xMem y yMem
      obtain ⟨n, nMem, inN⟩ := List.mem_flatMap.1 xMem
      obtain ⟨k, kMem, inK⟩ := List.mem_flatMap.1 yMem
      have low := (mem_counted.1 inK).1
      have high := (mem_counted.1 inN).2
      have := bounded n nMem
      omega
    · cases eq : e.blocks with
      | nil => exact List.Pairwise.nil
      | cons first rest =>
        rw [eq, List.tail_cons] at empty
        have none : rest.flatMap counted = [] := by
          rw [List.flatMap_eq_nil_iff]
          intro n mem
          have zero : n = 0 := by
            by_contra some
            exact empty ⟨n, mem, some⟩
          rw [zero]
          rfl
        rw [List.flatMap_cons, none, List.append_nil]
        exact counted_rising first

/-! ## The listing -/

/-- **The listing is newest first** exactly where the numbers rise: for a job with
one attempt, and until a lease follows an operator's retry. -/
theorem newest_first_iff {t : Int} {ls : List Label} {s : Sys} (run : Run Step (Sys.init t) ls s) {j : Job}
    (mem : j ∈ s.db.jobs) :
    (s.db.listAttempts j.id).Perm (s.db.attempts.filter fun a => decide (a.jobId = j.id)) ∧
    (NewestFirst (s.db.listAttempts j.id) ↔ j.maxAttempts = 1 ∨ ¬ LeasedAfterRetry j.id ls) := by
  refine ⟨List.perm_insertionSort _ _, ?_⟩
  have row : s.db.job? j.id = some j := (Sys.sound_of_run run).keyed.lookup_self mem
  have budget := Sys.budget_of_run run j mem
  obtain ⟨rows, number⟩ := (Sys.numbered_of_run run j.id).rows j row
  have full := Sys.full_of_run run j.id j row
  have positive := budget.positive
  have within := budget.bounds.2
  have ordered := (Sys.ordered_of_run run).history j.id
  have rising := blocks_rising_iff (e := epochs j.id ls) (m := j.maxAttempts.toNat) (by omega)
    (fun n earlier => by have := full n earlier; omega) (by omega)
  rw [← Epochs.numbers_eq, ← rows, List.pairwise_map, ← leasedAfterRetry_iff] at rising
  have single : j.maxAttempts.toNat = 1 ↔ j.maxAttempts = 1 := by omega
  rw [single] at rising
  rw [← rising]
  exact orderBy_desc_iff (f := JobAttempt.attempt) (g := JobAttempt.id) (fun _ _ => .rfl) ordered

/-- A job of two attempts that has failed once and was leased again. -/
theorem newest_first_before_retry :
    let s := (Sys.init 0).replay (secondRoundScript.take 11)
    ∃ j ∈ s.db.jobs, NewestFirst (s.db.listAttempts j.id) := by
  have run := @Sys.replay_run (Sys.init 0) (secondRoundScript.take 11) (by decide)
  have noRetry : ¬ LeasedAfterRetry 7 ((Sys.init 0).trace (secondRoundScript.take 11)) := by
    rw [leasedAfterRetry_iff]
    decide
  exact ⟨_, List.mem_cons_self, (newest_first_iff run List.mem_cons_self).2.2 (.inr noRetry)⟩

/-- Leased after the retry: the attempt that is running is listed second. -/
theorem retried_not_newest_first :
    let s := (Sys.init 0).replay secondRoundScript
    (s.db.listAttempts 7).map JobAttempt.id = [2, 3, 1] ∧ ¬ NewestFirst (s.db.listAttempts 7) := by
  decide

end Djq
