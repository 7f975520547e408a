import Mathlib.Data.Finset.Card
import Mathlib.Data.List.Destutter

/-!
# Streams

A stream that is unfolded from a state ends once the step yields nothing, and
what it has yielded is then determined. A step that passes over what repeats the
last element yields the destuttered input: `destutter_concat` is one step of it.
-/

namespace Transition

variable {σ α β : Type}

/-- `next` unfolded from `s` yields `as`, ends, and leaves the state `t`. -/
inductive Unfold (next : σ → Option (α × σ)) : σ → List α → σ → Prop where
  | nil {s} (ends : next s = none) : Unfold next s [] s
  | cons {s a s' as t} (yields : next s = some (a, s')) (rest : Unfold next s' as t) : Unfold next s (a :: as) t

variable {next : σ → Option (α × σ)}

/-- A stream that ends does so in one way. -/
theorem Unfold.unique {s t t' : σ} {as as' : List α} (first : Unfold next s as t) (second : Unfold next s as' t') :
    as = as' ∧ t = t' := by
  induction first generalizing as' t' with
  | nil ends =>
    cases second with
    | nil => exact ⟨rfl, rfl⟩
    | cons yields => cases ends.symm.trans yields
  | cons yields _ ih =>
    cases second with
    | nil ends => cases yields.symm.trans ends
    | cons yields' rest =>
      obtain ⟨rfl, rfl⟩ := Prod.mk.inj (Option.some.inj (yields.symm.trans yields'))
      obtain ⟨rfl, rfl⟩ := ih rest
      exact ⟨rfl, rfl⟩

/-- A step that goes on as another state would. -/
theorem Unfold.congr {s s' t : σ} {as : List α} (same : next s = next s') (some : next s' ≠ none)
    (rest : Unfold next s' as t) : Unfold next s as t := by
  cases rest with
  | nil ends => exact absurd ends some
  | cons yields rest => exact .cons (same.trans yields) rest

/-! ## Stuttering -/

section Destutter

variable [DecidableEq β] (f : α → β)

theorem destutter'_concat (l : List α) (a b : α) :
    (l ++ [a]).destutter' (fun x y => f x ≠ f y) b =
      l.destutter' (fun x y => f x ≠ f y) b ++ if f (l.getLastD b) = f a then [] else [a] := by
  induction l generalizing b with
  | nil =>
    by_cases same : f b = f a
    · simp [same]
    · simp [same]
  | cons c l ih =>
    rw [List.cons_append, List.destutter'_cons, List.destutter'_cons, List.getLastD_cons]
    by_cases same : f b = f c
    · have last : f (l.getLastD b) = f (l.getLastD c) := by
        cases l with
        | nil => exact same
        | cons d l => rfl
      rw [if_neg (not_not_intro same), if_neg (not_not_intro same), ih, last]
    · rw [if_pos same, if_pos same, ih, List.cons_append]

/-- One more element is kept unless it repeats the last one. -/
theorem destutter_concat (l : List α) (a : α) :
    (l ++ [a]).destutter (fun x y => f x ≠ f y) =
      l.destutter (fun x y => f x ≠ f y) ++ if l.getLast?.map f = some (f a) then [] else [a] := by
  cases l with
  | nil => rfl
  | cons b l =>
    rw [List.cons_append, List.destutter_cons', List.destutter_cons', destutter'_concat, List.getLast?_cons,
      List.getLastD_eq_getLast?]
    simp only [Option.map_some, Option.some.injEq]

/-- A list that ascends wherever `f` changes ascends strictly once it is destuttered. -/
theorem pairwise_destutter {A : α → α → Prop} [Trans A A A] {l : List α} (ascends : l.Pairwise fun a b => f a ≠ f b → A a b) :
    (l.destutter fun a b => f a ≠ f b).Pairwise A := by
  have kept := ascends.sublist (l.destutter_sublist fun a b => f a ≠ f b)
  have changes := List.isChain_iff_getElem.1 (l.isChain_destutter fun a b => f a ≠ f b)
  apply List.IsChain.pairwise
  rw [List.isChain_iff_getElem]
  intro i inside
  exact List.pairwise_iff_getElem.1 kept i (i + 1) _ inside (Nat.lt_succ_self i) (changes i inside)

end Destutter

/-- A list without repetitions, in a finite set, is no longer than the set. -/
theorem length_le_card [DecidableEq β] {l : List α} {t : Finset β} {f : α → β}
    (distinct : l.Pairwise fun a b => f a ≠ f b) (into : ∀ a ∈ l, f a ∈ t) : l.length ≤ t.card := by
  have nodup : (l.map f).Nodup := List.pairwise_map.2 distinct
  rw [← List.length_map f, ← List.toFinset_card_of_nodup nodup]
  apply Finset.card_le_card
  intro b mem
  obtain ⟨a, inside, rfl⟩ := List.mem_map.1 (List.mem_toFinset.1 mem)
  exact into a inside

end Transition
