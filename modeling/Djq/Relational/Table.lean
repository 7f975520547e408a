import Mathlib.Data.List.Nodup
import Mathlib.Data.List.Perm.Basic

/-!
# Keyed tables

A table is the list of its rows, in whatever physical order they lie; a primary
key is a column whose values are distinct. `UPDATE`, `DELETE` and the two forms
of `INSERT` are list functions, and the row with a given key (`lookup`) is what
an argument about one row sees of them.
-/

namespace Relational

variable {α κ : Type}

/-- `SELECT .. WHERE key = k`. -/
def lookup [DecidableEq κ] (key : α → κ) (k : κ) (t : List α) : Option α :=
  t.find? fun r => decide (key r = k)

/-- `UPDATE .. SET .. WHERE p`. -/
def updateWhere (p : α → Bool) (set : α → α) (t : List α) : List α :=
  t.map fun r => if p r then set r else r

/-- The rows an `UPDATE .. SET .. WHERE p RETURNING *` returns. -/
def returning (p : α → Bool) (set : α → α) (t : List α) : List α :=
  (t.filter p).map set

/-- `DELETE .. WHERE p`. -/
def deleteWhere (p : α → Bool) (t : List α) : List α :=
  t.filter fun r => !p r

/-- `INSERT .. ON CONFLICT (key) DO NOTHING`. -/
def insertIgnore [DecidableEq κ] (key : α → κ) (t : List α) (r : α) : List α :=
  if (lookup key (key r) t).isSome then t else t ++ [r]

/-- `key` is a primary key of the table. -/
def Keyed (key : α → κ) (t : List α) : Prop :=
  (t.map key).Nodup

variable {key : α → κ} {t t' : List α} {k : κ} {r : α} {p : α → Bool} {set : α → α}

/-! ## Primary keys -/

theorem Keyed.unique (keyed : Keyed key t) {a b : α} (ha : a ∈ t) (hb : b ∈ t)
    (same : key a = key b) : a = b :=
  List.inj_on_of_nodup_map keyed ha hb same

/-- A property of one row at most. -/
theorem Keyed.countP_one (keyed : Keyed key t) {q : α → Bool} (mem : r ∈ t)
    (only : ∀ a ∈ t, q a = true → key a = key r) : t.countP q = (q r).toNat := by
  cases has : q r with
  | false =>
    rw [Bool.toNat_false, List.countP_eq_zero]
    intro a inside holds
    rw [keyed.unique inside mem (only a inside holds), has] at holds
    exact Bool.false_ne_true holds
  | true =>
    obtain ⟨before, after, rfl⟩ := List.append_of_mem mem
    have others : ∀ part : List α, (∀ a ∈ part, a ∈ before ++ r :: after ∧ key a ≠ key r) → part.countP q = 0 := by
      intro part elsewhere
      rw [List.countP_eq_zero]
      intro a inside holds
      exact (elsewhere a inside).2 (only a (elsewhere a inside).1 holds)
    have unique := keyed
    rw [Keyed, List.map_append, List.map_cons, List.nodup_append, List.nodup_cons] at unique
    obtain ⟨-, ⟨notAfter, -⟩, apart⟩ := unique
    have first := others before fun a inside => ⟨List.mem_append_left _ inside,
      apart (key a) (List.mem_map_of_mem inside) (key r) List.mem_cons_self⟩
    have last := others after fun a inside => ⟨List.mem_append_right _ (List.mem_cons_of_mem _ inside),
      fun same => notAfter (same ▸ List.mem_map_of_mem inside)⟩
    rw [List.countP_append, List.countP_cons, first, last, has]
    rfl

theorem Keyed.perm (keyed : Keyed key t) (same : t'.Perm t) : Keyed key t' :=
  (same.map key).nodup_iff.2 keyed

theorem map_updateWhere (keeps : ∀ a, key (set a) = key a) : (updateWhere p set t).map key = t.map key := by
  simp only [updateWhere, List.map_map]
  refine List.map_congr_left fun a _ => ?_
  simp only [Function.comp]
  split
  · exact keeps a
  · rfl

theorem Keyed.updateWhere (keyed : Keyed key t) (keeps : ∀ a, key (set a) = key a) :
    Keyed key (updateWhere p set t) := by
  rw [Keyed, map_updateWhere keeps]
  exact keyed

theorem Keyed.deleteWhere (keyed : Keyed key t) : Keyed key (deleteWhere p t) :=
  (List.filter_sublist.map key).nodup keyed

theorem Keyed.append (keyed : Keyed key t) (fresh : ∀ a ∈ t, key a ≠ key r) : Keyed key (t ++ [r]) := by
  rw [Keyed, List.map_append, List.nodup_append]
  refine ⟨keyed, by simp, ?_⟩
  intro x hx y hy
  obtain ⟨a, mem, rfl⟩ := List.mem_map.1 hx
  obtain rfl : y = key r := by simpa using hy
  exact fresh a mem

/-! ## Looking a row up -/

section Lookup

variable [DecidableEq κ]

theorem lookup_mem (h : lookup key k t = some r) : r ∈ t ∧ key r = k :=
  ⟨List.mem_of_find?_eq_some h, by simpa using List.find?_some h⟩

theorem lookup_none_iff : lookup key k t = none ↔ ∀ r ∈ t, key r ≠ k := by
  simp [lookup]

theorem lookup_isSome_iff : (lookup key k t).isSome ↔ ∃ r ∈ t, key r = k := by
  simp [lookup]

theorem Keyed.lookup_iff (keyed : Keyed key t) : lookup key k t = some r ↔ r ∈ t ∧ key r = k := by
  constructor
  · exact lookup_mem
  · rintro ⟨mem, rfl⟩
    cases found : lookup key (key r) t with
    | none => exact absurd rfl (lookup_none_iff.1 found r mem)
    | some b =>
      obtain ⟨memb, same⟩ := lookup_mem found
      rw [keyed.unique memb mem same]

theorem Keyed.lookup_self (keyed : Keyed key t) (mem : r ∈ t) : lookup key (key r) t = some r :=
  keyed.lookup_iff.2 ⟨mem, rfl⟩

/-- The answer to a lookup does not depend on the physical order. -/
theorem Keyed.lookup_perm (keyed : Keyed key t) (same : t'.Perm t) : lookup key k t' = lookup key k t := by
  have keyed' : Keyed key t' := (same.map key).nodup_iff.2 keyed
  ext r
  rw [keyed'.lookup_iff, keyed.lookup_iff, same.mem_iff]

/-! ## UPDATE -/

theorem mem_updateWhere : r ∈ updateWhere p set t ↔ ∃ a ∈ t, (if p a then set a else a) = r := by
  simp [updateWhere]

theorem lookup_updateWhere (keeps : ∀ a, key (set a) = key a) :
    lookup key k (updateWhere p set t) = (lookup key k t).map fun r => if p r then set r else r := by
  simp only [lookup, updateWhere, List.find?_map]
  congr 2
  funext a
  simp only [Function.comp]
  split
  · rw [keeps]
  · rfl

theorem updateWhere_none (h : ∀ a ∈ t, p a = false) : updateWhere p set t = t := by
  rw [updateWhere]
  conv_rhs => rw [← List.map_id t]
  refine List.map_congr_left fun a mem => ?_
  simp [h a mem]

/-- The first returned row is the updated row of a row that met the condition. -/
theorem returning_head {r' : α} (h : (returning p set t).head? = some r') :
    ∃ a ∈ t, p a = true ∧ set a = r' := by
  obtain ⟨a, found, rfl⟩ := List.mem_map.1 (List.mem_of_mem_head? h)
  obtain ⟨mem, ok⟩ := List.mem_filter.1 found
  exact ⟨a, mem, ok, rfl⟩

theorem returning_none (h : (returning p set t).head? = none) : ∀ a ∈ t, p a = false := by
  intro a mem
  have empty := List.head?_eq_none_iff.1 h
  simp only [returning, List.map_eq_nil_iff, List.filter_eq_nil_iff] at empty
  simpa using empty a mem

theorem update_miss (miss : (returning p set t).head? = none) : updateWhere p set t = t :=
  updateWhere_none (returning_none miss)

/-- An UPDATE whose condition fixes the key, when it matches. -/
theorem Keyed.update_hit {r' : α} (keyed : Keyed key t) (keeps : ∀ a, key (set a) = key a)
    (guard : ∀ a, p a = true → key a = k) (hit : (returning p set t).head? = some r') :
    ∃ a, lookup key k t = some a ∧ p a = true ∧ r' = set a ∧
      lookup key k (Relational.updateWhere p set t) = some (set a) := by
  obtain ⟨a, mem, ok, rfl⟩ := returning_head hit
  have row : lookup key k t = some a := keyed.lookup_iff.2 ⟨mem, guard a ok⟩
  refine ⟨a, row, ok, rfl, ?_⟩
  rw [lookup_updateWhere keeps, row]
  simp [ok]

/-- An UPDATE of the rows of a batch taken from the table. -/
theorem Keyed.update_batch {batch : List α} (keyed : Keyed key t) (keeps : ∀ a, key (set a) = key a)
    (sub : ∀ a ∈ batch, a ∈ t) (taken : k ∈ batch.map key) :
    ∃ a ∈ batch, lookup key k t = some a ∧
      lookup key k (Relational.updateWhere (fun r => decide (key r ∈ batch.map key)) set t) = some (set a) := by
  obtain ⟨a, mem, rfl⟩ := List.mem_map.1 taken
  have row := keyed.lookup_self (sub a mem)
  refine ⟨a, mem, row, ?_⟩
  rw [lookup_updateWhere keeps, row]
  simp only [Option.map_some, taken, decide_true, ↓reduceIte]

theorem lookup_update_batch_other {batch : List α} (keeps : ∀ a, key (set a) = key a) (out : k ∉ batch.map key) :
    lookup key k (updateWhere (fun r => decide (key r ∈ batch.map key)) set t) = lookup key k t := by
  rw [lookup_updateWhere keeps]
  cases row : lookup key k t with
  | none => rfl
  | some a =>
    obtain ⟨_, rfl⟩ := lookup_mem row
    simp only [Option.map_some, out, decide_false, Bool.false_eq_true, ↓reduceIte]

/-- An UPDATE that leaves a property of its rows alone does not change how many have it. -/
theorem countP_updateWhere {q : α → Bool} (same : ∀ a ∈ t, p a = true → q (set a) = q a) :
    (updateWhere p set t).countP q = t.countP q := by
  rw [updateWhere, List.countP_map]
  apply List.countP_congr
  intro a mem
  simp only [Function.comp_apply]
  split
  · rename_i hit
    rw [same a mem hit]
  · rfl

/-- An UPDATE that gives no row a property. -/
theorem countP_updateWhere_le {q : α → Bool} (drops : ∀ a ∈ t, p a = true → q (set a) = true → q a = true) :
    (updateWhere p set t).countP q ≤ t.countP q := by
  rw [updateWhere, List.countP_map]
  apply List.countP_mono_left
  intro a mem had
  simp only [Function.comp_apply] at had
  split at had
  · rename_i hit
    exact drops a mem hit had
  · exact had

/-- An UPDATE that gives no row a property, and takes it from one. -/
theorem countP_updateWhere_lt {q : α → Bool} (drops : ∀ a ∈ t, p a = true → q (set a) = true → q a = true)
    (mem : r ∈ t) (hit : p r = true) (had : q r = true) (lost : q (set r) = false) :
    (updateWhere p set t).countP q < t.countP q := by
  obtain ⟨before, after, rfl⟩ := List.append_of_mem mem
  have fewer : ∀ t' : List α, (∀ a ∈ t', a ∈ before ++ r :: after) →
      (updateWhere p set t').countP q ≤ t'.countP q := fun t' sub =>
    countP_updateWhere_le fun a mem => drops a (sub a mem)
  have first := fewer before fun a mem => List.mem_append_left _ mem
  have last := fewer after fun a mem => List.mem_append_right _ (List.mem_cons_of_mem _ mem)
  unfold updateWhere at first last ⊢
  rw [List.map_append, List.map_cons, if_pos hit, List.countP_append, List.countP_append, List.countP_cons,
    List.countP_cons, had, lost]
  simp only [Bool.false_eq_true, ↓reduceIte]
  omega

/-! ## DELETE -/

theorem mem_deleteWhere : r ∈ deleteWhere p t ↔ r ∈ t ∧ p r = false := by
  simp [deleteWhere]

theorem Keyed.lookup_deleteWhere (keyed : Keyed key t) :
    lookup key k (Relational.deleteWhere p t) = (lookup key k t).filter fun r => !p r := by
  ext r
  rw [keyed.deleteWhere.lookup_iff, mem_deleteWhere,
    Option.filter_eq_some_iff, keyed.lookup_iff]
  simp only [Bool.not_eq_eq_eq_not, Bool.not_true]
  tauto

/-! ## INSERT -/

theorem lookup_append : lookup key k (t ++ [r]) = (lookup key k t).or (if key r = k then some r else none) := by
  simp only [lookup, List.find?_append, List.find?_cons, List.find?_nil]
  split <;> simp_all

theorem mem_insertIgnore_of_mem {a : α} (mem : a ∈ t) : a ∈ insertIgnore key t r := by
  rw [insertIgnore]
  split
  · exact mem
  · exact List.mem_append_left _ mem

theorem mem_insertIgnore {a : α} (mem : a ∈ insertIgnore key t r) : a ∈ t ∨ a = r := by
  rw [insertIgnore] at mem
  split at mem
  · exact .inl mem
  · simpa using mem

theorem insertIgnore_has : ∃ a ∈ insertIgnore key t r, key a = key r := by
  rw [insertIgnore]
  split
  · rename_i h
    exact lookup_isSome_iff.1 h
  · exact ⟨r, by simp, rfl⟩

/-- The keys of a table after an `INSERT .. ON CONFLICT DO NOTHING`. -/
theorem lookup_insertIgnore_isSome :
    (lookup key k (insertIgnore key t r)).isSome ↔ (lookup key k t).isSome ∨ key r = k := by
  simp only [lookup_isSome_iff]
  constructor
  · rintro ⟨a, mem, same⟩
    rcases mem_insertIgnore mem with mem | rfl
    · exact .inl ⟨a, mem, same⟩
    · exact .inr same
  · rintro (⟨a, mem, same⟩ | same)
    · exact ⟨a, mem_insertIgnore_of_mem mem, same⟩
    · obtain ⟨a, mem, same'⟩ : ∃ a ∈ insertIgnore key t r, key a = key r := insertIgnore_has
      exact ⟨a, mem, same'.trans same⟩

/-- The same for a batch of rows. -/
theorem lookup_insertBatch_isSome {β : Type} {row : β → α} {batch : List β} :
    (lookup key k (batch.foldl (fun rows b => insertIgnore key rows (row b)) t)).isSome ↔
      (lookup key k t).isSome ∨ ∃ b ∈ batch, key (row b) = k := by
  induction batch generalizing t with
  | nil => simp
  | cons b batch ih =>
    rw [List.foldl_cons, ih, lookup_insertIgnore_isSome]
    simp only [List.mem_cons, exists_eq_or_imp, or_assoc]

theorem lookup_delete_isSome {k' : κ} :
    (lookup key k (deleteWhere (fun a => decide (key a = k')) t)).isSome ↔ (lookup key k t).isSome ∧ k ≠ k' := by
  simp only [lookup_isSome_iff, mem_deleteWhere, decide_eq_false_iff_not]
  constructor
  · rintro ⟨a, ⟨mem, other⟩, rfl⟩
    exact ⟨⟨a, mem, rfl⟩, other⟩
  · rintro ⟨⟨a, mem, rfl⟩, other⟩
    exact ⟨a, ⟨mem, other⟩, rfl⟩

theorem Keyed.insertIgnore (keyed : Keyed key t) : Keyed key (insertIgnore key t r) := by
  rw [Relational.insertIgnore]
  split
  · exact keyed
  · rename_i h
    refine keyed.append ?_
    rwa [Bool.not_eq_true, Option.isSome_eq_false_iff, Option.isNone_iff_eq_none, lookup_none_iff] at h

/-- The rows after a batch: those before, and rows of the batch. -/
theorem mem_insertBatch {β : Type} {row : β → α} {batch : List β} {a : α}
    (mem : a ∈ batch.foldl (fun rows b => insertIgnore key rows (row b)) t) : a ∈ t ∨ ∃ b ∈ batch, a = row b := by
  induction batch generalizing t with
  | nil => exact .inl mem
  | cons b batch ih =>
    obtain before | ⟨c, inside, rfl⟩ := ih mem
    · rcases mem_insertIgnore before with before | rfl
      · exact .inl before
      · exact .inr ⟨b, List.mem_cons_self, rfl⟩
    · exact .inr ⟨c, List.mem_cons_of_mem _ inside, rfl⟩

/-- The same for a batch of rows. -/
theorem Keyed.insertBatch {β : Type} (row : β → α) (batch : List β) (keyed : Keyed key t) :
    Keyed key (batch.foldl (fun rows b => Relational.insertIgnore key rows (row b)) t) := by
  induction batch generalizing t with
  | nil => exact keyed
  | cons b batch ih => exact ih keyed.insertIgnore

end Lookup

/-! ## The rows of one group -/

/-- An UPDATE that moves no row between groups, seen from one group. -/
theorem filter_updateWhere {q : α → Bool} (keeps : ∀ a, q (set a) = q a) :
    (updateWhere p set t).filter q = updateWhere p set (t.filter q) := by
  have stays : q ∘ (fun r => if p r then set r else r) = q := by
    funext a
    simp only [Function.comp_apply]
    split
    · exact keeps a
    · rfl
  rw [updateWhere, updateWhere, List.filter_map, stays]

theorem updateWhere_congr {p' : α → Bool} (same : ∀ a ∈ t, p a = p' a) :
    updateWhere p set t = updateWhere p' set t := by
  apply List.map_congr_left
  intro a mem
  rw [same a mem]

section Group

variable [DecidableEq κ]

/-- What an `INSERT .. ON CONFLICT DO NOTHING` leaves under one key. -/
theorem filter_insertIgnore : (insertIgnore key t r).filter (fun a => decide (key a = k)) =
    if key r = k then insertIgnore key (t.filter fun a => decide (key a = k)) r
    else t.filter fun a => decide (key a = k) := by
  by_cases isK : key r = k
  · subst isK
    have same : (lookup key (key r) (t.filter fun a => decide (key a = key r))).isSome =
        (lookup key (key r) t).isSome := by
      rw [Bool.eq_iff_iff, lookup_isSome_iff, lookup_isSome_iff]
      simp
    rw [if_pos rfl, insertIgnore, insertIgnore, same]
    split
    · rfl
    · simp
  · rw [if_neg isK, insertIgnore]
    split
    · rfl
    · simp [isK]

theorem filter_insertBatch_other {β : Type} {row : β → α} {batch : List β} (other : ∀ b ∈ batch, key (row b) ≠ k) :
    (batch.foldl (fun rows b => insertIgnore key rows (row b)) t).filter (fun a => decide (key a = k)) =
      t.filter fun a => decide (key a = k) := by
  induction batch generalizing t with
  | nil => rfl
  | cons b batch ih =>
    have rest : ∀ b ∈ batch, key (row b) ≠ k := fun b mem => other b (List.mem_cons_of_mem _ mem)
    rw [List.foldl_cons, ih rest, filter_insertIgnore, if_neg (other b List.mem_cons_self)]

/-- What a batch of such INSERTs with distinct keys leaves under one of them. -/
theorem filter_insertBatch {β : Type} (row : β → α) {batch : List β}
    (distinct : (batch.map fun b => key (row b)).Nodup) {b : β} (mem : b ∈ batch) :
    (batch.foldl (fun rows b => insertIgnore key rows (row b)) t).filter (fun a => decide (key a = key (row b))) =
      insertIgnore key (t.filter fun a => decide (key a = key (row b))) (row b) := by
  induction batch generalizing t with
  | nil => exact absurd mem List.not_mem_nil
  | cons c batch ih =>
    rw [List.map_cons, List.nodup_cons] at distinct
    rw [List.foldl_cons]
    rcases List.mem_cons.1 mem with rfl | later
    · rw [filter_insertBatch_other, filter_insertIgnore, if_pos rfl]
      intro c' mem' same
      exact distinct.1 (same ▸ List.mem_map_of_mem mem')
    · rw [ih distinct.2 later, filter_insertIgnore, if_neg]
      intro same
      exact distinct.1 (same ▸ List.mem_map_of_mem later)

end Group

/-- An UPDATE that leaves a property of its rows alone, and their keys: the keys of the rows that have it. -/
theorem filter_update_same {q : α → Bool} (keeps : ∀ a, key (set a) = key a)
    (same : ∀ a ∈ t, p a = true → q (set a) = q a) : ((updateWhere p set t).filter q).map key = (t.filter q).map key := by
  induction t with
  | nil => rfl
  | cons a t ih =>
    have rest := ih fun b mem => same b (List.mem_cons_of_mem _ mem)
    have here : q (if p a then set a else a) = q a ∧ key (if p a then set a else a) = key a := by
      split
      · rename_i hit
        exact ⟨same a List.mem_cons_self hit, keeps a⟩
      · exact ⟨rfl, rfl⟩
    unfold updateWhere at rest ⊢
    rw [List.map_cons, List.filter_cons, List.filter_cons, here.1]
    split
    · rw [List.map_cons, List.map_cons, here.2, rest]
    · exact rest

/-- An UPDATE of a batch of rows that takes a property from them: the keys of the rows that had it. -/
theorem Keyed.filter_update_batch [DecidableEq κ] {q : α → Bool} {batch : List α} (keyed : Keyed key t)
    (keeps : ∀ a, key (set a) = key a) (sub : ∀ a ∈ batch, a ∈ t ∧ q a = true) (distinct : (batch.map key).Nodup)
    (lost : ∀ a ∈ batch, q (set a) = false) :
    ((t.filter q).map key).Perm (batch.map key ++
      ((Relational.updateWhere (fun r => decide (key r ∈ batch.map key)) set t).filter q).map key) := by
  have left : ∀ k, k ∈ ((Relational.updateWhere (fun r => decide (key r ∈ batch.map key)) set t).filter q).map key ↔
      k ∈ (t.filter q).map key ∧ k ∉ batch.map key := by
    intro k
    simp only [List.mem_map, List.mem_filter, mem_updateWhere, decide_eq_true_eq]
    constructor
    · rintro ⟨_, ⟨⟨a, mem, rfl⟩, has⟩, rfl⟩
      by_cases taken : ∃ b ∈ batch, key b = key a
      · obtain ⟨b, bMem, same⟩ := taken
        obtain rfl := keyed.unique (sub b bMem).1 mem same
        rw [if_pos ⟨b, bMem, rfl⟩, lost b bMem] at has
        cases has
      · rw [if_neg taken] at has ⊢
        exact ⟨⟨a, ⟨mem, has⟩, rfl⟩, taken⟩
    · rintro ⟨⟨a, ⟨mem, has⟩, rfl⟩, out⟩
      refine ⟨a, ⟨⟨a, mem, if_neg out⟩, has⟩, rfl⟩
  have before : ((t.filter q).map key).Nodup := (List.filter_sublist.map key).nodup keyed
  have after : ((Relational.updateWhere (fun r => decide (key r ∈ batch.map key)) set t).filter q).map key |>.Nodup :=
    (List.filter_sublist.map key).nodup (keyed.updateWhere keeps)
  rw [List.perm_ext_iff_of_nodup before]
  · intro k
    rw [List.mem_append, left]
    constructor
    · intro had
      by_cases taken : k ∈ batch.map key
      · exact .inl taken
      · exact .inr ⟨had, taken⟩
    · rintro (taken | stays)
      · obtain ⟨a, mem, rfl⟩ := List.mem_map.1 taken
        exact List.mem_map_of_mem (List.mem_filter.2 (sub a mem))
      · exact stays.1
  · rw [List.nodup_append]
    refine ⟨distinct, after, ?_⟩
    rintro k taken _ stays rfl
    exact ((left k).1 stays).2 taken

/-- An UPDATE of one row that takes a property from it. -/
theorem Keyed.filter_update_one [DecidableEq κ] {q : α → Bool} (keyed : Keyed key t) (keeps : ∀ a, key (set a) = key a)
    (mem : r ∈ t) (had : q r = true) (lost : q (set r) = false) :
    ((t.filter q).map key).Perm
      (key r :: ((Relational.updateWhere (fun a => decide (key a = key r)) set t).filter q).map key) := by
  have batch := @Keyed.filter_update_batch _ _ key t set _ q [r] keyed keeps (by simp [mem, had]) (by simp) (by simp [lost])
  simpa using batch

/-- A unique index: of the rows that it compares as equal there is at most one. -/
theorem filter_length_le_one {clash : α → α → Prop} (index : t.Pairwise fun a b => ¬ clash a b)
    (all : ∀ a b, p a = true → p b = true → clash a b) : (t.filter p).length ≤ 1 := by
  have kept : (t.filter p).Pairwise fun a b => ¬ clash a b := index.sublist List.filter_sublist
  cases rows : t.filter p with
  | nil => simp
  | cons a rest =>
    cases rest with
    | nil => simp
    | cons b rest =>
      rw [rows, List.pairwise_cons] at kept
      have mem : ∀ r ∈ a :: b :: rest, p r = true := by
        intro r mem
        rw [← rows] at mem
        exact (List.mem_filter.1 mem).2
      exact absurd (all a b (mem a (by simp)) (mem b (by simp))) (kept.1 b (by simp))

end Relational
