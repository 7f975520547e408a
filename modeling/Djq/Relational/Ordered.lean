import Mathlib.Data.List.Pairwise
import Mathlib.Data.List.Sort

/-!
# ORDER BY and LIMIT

`orderBy` sorts the rows as they lie by a total preorder; rows the preorder ties
keep their physical order. As a table may lie in any order, every answer a
database may give to an `ORDER BY` with ties is one of these. `top n` adds `LIMIT n`.
-/

namespace Relational

variable {α : Type}

/-- `ORDER BY`. -/
def orderBy (before : α → α → Prop) [DecidableRel before] (t : List α) : List α :=
  t.insertionSort before

/-- `ORDER BY .. LIMIT n`. -/
def top (before : α → α → Prop) [DecidableRel before] (n : Nat) (t : List α) : List α :=
  (orderBy before t).take n

variable {before : α → α → Prop} [DecidableRel before] {t : List α} {n : Nat}

theorem mem_orderBy {a : α} : a ∈ orderBy before t ↔ a ∈ t :=
  (List.perm_insertionSort before t).mem_iff

theorem mem_of_mem_top {a : α} (h : a ∈ top before n t) : a ∈ t :=
  mem_orderBy.1 (List.mem_of_mem_take h)

theorem top_length : (top before n t).length = min n t.length := by
  simp [top, orderBy, List.length_insertionSort]

/-- A limit of at least one takes a row as soon as there is one. -/
theorem top_ne_nil (some : t ≠ []) (pos : 0 < n) : top before n t ≠ [] := by
  intro empty
  have len := congrArg List.length empty
  rw [top_length, List.length_nil] at len
  have := List.length_pos_iff.2 some
  omega

theorem top_sublist_keyed {κ : Type} {key : α → κ} (keyed : (t.map key).Nodup) :
    ((top before n t).map key).Nodup := by
  have sorted : ((orderBy before t).map key).Nodup :=
    ((List.perm_insertionSort before t).map key).nodup_iff.2 keyed
  exact ((List.take_sublist n _).map key).nodup sorted

/-- The first row of an ordered answer comes before every row. -/
theorem head_orderBy_min [Std.Total before] [IsTrans α before] {a : α}
    (h : (orderBy before t).head? = some a) : ∀ b ∈ t, b = a ∨ before a b := by
  intro b mem
  have sorted := List.pairwise_insertionSort before t
  replace mem : b ∈ orderBy before t := mem_orderBy.2 mem
  rw [orderBy] at h mem
  cases eq : t.insertionSort before with
  | nil => simp [eq] at h
  | cons x rest =>
    rw [eq] at h mem sorted
    obtain rfl : x = a := by simpa using h
    rcases List.mem_cons.1 mem with rfl | mem
    · exact .inl rfl
    · exact .inr ((List.pairwise_cons.1 sorted).1 b mem)

theorem head_orderBy_mem {a : α} (h : (orderBy before t).head? = some a) : a ∈ t :=
  mem_orderBy.1 (List.mem_of_mem_head? h)

theorem head_orderBy_none (h : (orderBy before t).head? = none) : t = [] := by
  have empty := List.head?_eq_none_iff.1 h
  have perm := List.perm_insertionSort before t
  rw [orderBy] at empty
  rw [empty] at perm
  exact perm.nil_eq.symm

theorem orderBy_pairwise [Std.Total before] [IsTrans α before] : (orderBy before t).Pairwise before :=
  List.pairwise_insertionSort before t

/-! ## Two keys -/

section TwoKeys

variable {ι κ : Type} [LinearOrder ι] [LinearOrder κ] {f : α → κ} {g : α → ι}

/-- Neither key goes down where the other goes up. -/
def Agree (f : α → κ) (g : α → ι) (a b : α) : Prop := (g a < g b → f a ≤ f b) ∧ (g b < g a → f b ≤ f a)

instance : Std.Symm (Agree f g) := ⟨fun _ _ h => ⟨h.2, h.1⟩⟩

theorem Agree.refl (a : α) : Agree f g a a :=
  ⟨fun less => absurd less (lt_irrefl _), fun less => absurd less (lt_irrefl _)⟩

/-- A table that lies in the order of `g`, ordered by `f` and then `g`, both descending:
the answer is in the order of `g` exactly when `f` never goes down along the table. -/
theorem orderBy_desc_iff [Std.Total before] [IsTrans α before]
    (lex : ∀ a b, before a b ↔ f b < f a ∨ (f a = f b ∧ g b ≤ g a)) (increasing : t.Pairwise fun a b => g a < g b) :
    ((orderBy before t).Pairwise fun a b => g b < g a) ↔ t.Pairwise fun a b => f a ≤ f b := by
  have sorted : (orderBy before t).Pairwise before := orderBy_pairwise
  constructor
  · intro descending
    have agree : (orderBy before t).Pairwise (Agree f g) := by
      apply (sorted.and descending).imp
      intro a b both
      refine ⟨fun up => absurd up (not_lt_of_gt both.2), fun _ => ?_⟩
      rcases (lex a b).1 both.1 with less | ⟨same, -⟩
      · exact less.le
      · exact same.ge
    have all := agree.forall_of_forall fun a _ => Agree.refl a
    apply increasing.imp_of_mem
    intro a b aMem bMem less
    exact (all (mem_orderBy.2 aMem) (mem_orderBy.2 bMem)).1 less
  · intro rising
    have agree : t.Pairwise (Agree f g) := by
      apply (increasing.and rising).imp
      intro a b both
      exact ⟨fun _ => both.2, fun down => absurd down (not_lt_of_gt both.1)⟩
    have all := agree.forall_of_forall fun a _ => Agree.refl a
    have apart : (orderBy before t).Pairwise fun a b => g a ≠ g b := by
      apply (List.Perm.pairwise_iff (fun ne => Ne.symm ne) (List.perm_insertionSort before t)).2
      exact increasing.imp fun less => less.ne
    apply (sorted.and apart).imp_of_mem
    intro a b aMem bMem both
    have agrees := all (mem_orderBy.1 aMem) (mem_orderBy.1 bMem)
    apply lt_of_le_of_ne _ both.2.symm
    by_contra up
    have up : g a < g b := lt_of_not_ge up
    rcases (lex a b).1 both.1 with less | ⟨-, down⟩
    · exact absurd less (not_lt_of_ge (agrees.1 up))
    · exact absurd up (not_lt_of_ge down)

end TwoKeys

end Relational
