import Djq.Relational.Table
import Mathlib.Data.List.Perm.Subperm

/-!
# How many rows have a property, before and after

A keyed table turns into another one, row by row. The rows that have a property
afterwards had it before under the same key, but for those that gained it.
-/

namespace Relational

variable {α κ : Type} {key : α → κ} {t t' : List α} {has gained : α → Bool}

/-- The keys of the rows that have the property and did not gain it. -/
theorem keys_kept (gains : ∀ a ∈ t', has a = true → gained a = false → ∃ b ∈ t, key b = key a ∧ has b = true) :
    (t'.filter fun a => has a && !gained a).map key ⊆ (t.filter has).map key := by
  intro k mem
  obtain ⟨a, kept, rfl⟩ := List.mem_map.1 mem
  obtain ⟨inside, both⟩ := List.mem_filter.1 kept
  simp only [Bool.and_eq_true, Bool.not_eq_true'] at both
  obtain ⟨b, before, same, had⟩ := gains a inside both.1 both.2
  exact List.mem_map.2 ⟨b, List.mem_filter.2 ⟨before, had⟩, same⟩

theorem countP_split (t : List α) (has gained : α → Bool) :
    t.countP has ≤ (t.filter fun a => has a && !gained a).length + t.countP gained := by
  induction t with
  | nil => simp
  | cons a t ih =>
    simp only [List.countP_cons, List.filter_cons]
    cases has a <;> cases gained a <;> simp <;> omega

/-- The rows that have the property are at most those that had it and those that gained it. -/
theorem Keyed.countP_le_gained (keyed' : Keyed key t')
    (gains : ∀ a ∈ t', has a = true → gained a = false → ∃ b ∈ t, key b = key a ∧ has b = true) :
    t'.countP has ≤ t.countP has + t'.countP gained := by
  have distinct : ((t'.filter fun a => has a && !gained a).map key).Nodup :=
    (List.filter_sublist.map key).nodup keyed'
  have kept := (distinct.subperm (keys_kept gains)).length_le
  rw [List.length_map, List.length_map] at kept
  have split := countP_split t' has gained
  rw [List.countP_eq_length_filter (p := has) (l := t)]
  omega

/-- One fewer, where a row has lost it. -/
theorem Keyed.countP_lt_gained [DecidableEq κ] (keyed' : Keyed key t')
    (gains : ∀ a ∈ t', has a = true → gained a = false → ∃ b ∈ t, key b = key a ∧ has b = true) {r : α}
    (mem : r ∈ t) (had : has r = true) (lost : ∀ a ∈ t', key a = key r → has a = false) :
    t'.countP has + 1 ≤ t.countP has + t'.countP gained := by
  have distinct : ((t'.filter fun a => has a && !gained a).map key).Nodup :=
    (List.filter_sublist.map key).nodup keyed'
  have inside : key r ∈ (t.filter has).map key := List.mem_map_of_mem (List.mem_filter.2 ⟨mem, had⟩)
  have others : (t'.filter fun a => has a && !gained a).map key ⊆ ((t.filter has).map key).erase (key r) := by
    intro k mem'
    have other : k ≠ key r := by
      obtain ⟨a, kept, rfl⟩ := List.mem_map.1 mem'
      obtain ⟨there, both⟩ := List.mem_filter.1 kept
      simp only [Bool.and_eq_true] at both
      intro same
      exact Bool.false_ne_true ((lost a there same).symm.trans both.1)
    exact (List.mem_erase_of_ne other).2 (keys_kept gains mem')
  have kept := (distinct.subperm others).length_le
  rw [List.length_erase_of_mem inside, List.length_map, List.length_map] at kept
  have some : 0 < (t.filter has).length := List.length_pos_of_mem (List.mem_filter.2 ⟨mem, had⟩)
  have split := countP_split t' has gained
  rw [List.countP_eq_length_filter (p := has) (l := t)]
  omega

/-- A DELETE parts the rows that have the property. -/
theorem countP_deleteWhere (p has : α → Bool) (t : List α) :
    (deleteWhere p t).countP has + t.countP (fun a => p a && has a) = t.countP has := by
  induction t with
  | nil => rfl
  | cons a t ih =>
    simp only [deleteWhere, List.filter_cons, List.countP_cons] at ih ⊢
    cases p a with
    | false =>
      simp only [Bool.not_false, ↓reduceIte, List.countP_cons, Bool.false_and, Bool.false_eq_true]
      omega
    | true =>
      simp only [Bool.not_true, Bool.false_eq_true, ↓reduceIte, Bool.true_and]
      omega

end Relational
