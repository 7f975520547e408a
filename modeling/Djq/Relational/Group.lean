import Mathlib.Data.List.Dedup
import Mathlib.Data.List.Count

/-!
# GROUP BY and COUNT

`SELECT key, COUNT(*) .. GROUP BY key` answers with one row for each key that
occurs, in any order. A client that reads the rows one after the other into a
record with a field for each key ends up with the counts, whatever the order was.
-/

namespace Relational

variable {α κ ι σ : Type} [DecidableEq κ] {key : α → κ} {t : List α}

/-- The groups in one order. -/
def groupCount (key : α → κ) (t : List α) : List (κ × Nat) :=
  (t.map key).dedup.map fun k => (k, t.countP fun a => decide (key a = k))

/-- An answer a database may give. -/
def Grouped (key : α → κ) (t : List α) (groups : List (κ × Nat)) : Prop := groups.Perm (groupCount key t)

variable {groups : List (κ × Nat)}

theorem Grouped.distinct (grouped : Grouped key t groups) : (groups.map Prod.fst).Nodup := by
  have same : (groupCount key t).map Prod.fst = (t.map key).dedup := by
    rw [groupCount, List.map_map]
    exact List.map_id _
  rw [(grouped.map Prod.fst).nodup_iff, same]
  exact List.nodup_dedup _

theorem Grouped.count (grouped : Grouped key t groups) {k : κ} {n : Nat} (mem : (k, n) ∈ groups) :
    n = t.countP fun a => decide (key a = k) := by
  obtain ⟨k', -, eq⟩ := List.mem_map.1 (grouped.mem_iff.1 mem)
  obtain ⟨rfl, rfl⟩ := Prod.mk.inj eq
  rfl

/-- A key without a row occurs nowhere. -/
theorem Grouped.absent (grouped : Grouped key t groups) {k : κ} (out : k ∉ groups.map Prod.fst) :
    (t.countP fun a => decide (key a = k)) = 0 := by
  rw [List.countP_eq_zero]
  intro a mem isK
  apply out
  have listed : (k, t.countP fun a => decide (key a = k)) ∈ groupCount key t := by
    refine List.mem_map.2 ⟨k, List.mem_dedup.2 ?_, rfl⟩
    rw [← of_decide_eq_true isK]
    exact List.mem_map_of_mem mem
  exact List.mem_map.2 ⟨_, grouped.mem_iff.2 listed, rfl⟩

/-- Rows read into a record: a field holds what the row of its key says. -/
theorem foldl_field {put : σ → κ × Nat → σ} {get : σ → ι → Nat} {name : ι → κ}
    (law : ∀ s k n i, get (put s (k, n)) i = if k = name i then n else get s i) (i : ι)
    (distinct : (groups.map Prod.fst).Nodup) (s : σ) :
    (∃ n, (name i, n) ∈ groups ∧ get (groups.foldl put s) i = n) ∨
      (name i ∉ groups.map Prod.fst ∧ get (groups.foldl put s) i = get s i) := by
  induction groups generalizing s with
  | nil => exact .inr ⟨List.not_mem_nil, rfl⟩
  | cons row rest ih =>
    obtain ⟨k, n⟩ := row
    rw [List.map_cons, List.nodup_cons] at distinct
    rw [List.foldl_cons]
    obtain ⟨m, mem, eq⟩ | ⟨out, eq⟩ := ih distinct.2 (put s (k, n))
    · exact .inl ⟨m, List.mem_cons_of_mem _ mem, eq⟩
    · rw [law] at eq
      by_cases isI : k = name i
      · rw [if_pos isI] at eq
        exact .inl ⟨n, by simp [isI], eq⟩
      · rw [if_neg isI] at eq
        refine .inr ⟨?_, eq⟩
        rw [List.map_cons, List.mem_cons, not_or]
        exact ⟨fun same => isI same.symm, out⟩

/-- **Reading groups.** Into a record whose fields start at zero the counts are read, in any order. -/
theorem Grouped.fold {put : σ → κ × Nat → σ} {get : σ → ι → Nat} {name : ι → κ}
    (law : ∀ s k n i, get (put s (k, n)) i = if k = name i then n else get s i) (grouped : Grouped key t groups)
    {s : σ} (i : ι) (zero : get s i = 0) :
    get (groups.foldl put s) i = t.countP fun a => decide (key a = name i) := by
  obtain ⟨n, mem, eq⟩ | ⟨out, eq⟩ := foldl_field law i grouped.distinct s
  · rw [eq]
    exact grouped.count mem
  · rw [eq, zero, grouped.absent out]

end Relational
