import Djq.Relational.Paging

/-!
# Pages of a table that changes

Between two pages the table may change. A row with a key of its own lies at its
rank in every answer, so where the rows before it only become more, a client that
reads until a page is empty has come across it.
-/

namespace Relational

variable {α ι : Type} [LinearOrder ι] {key : α → ι} {t o : List α} {size k : Nat} {c : ι}

/-- A row with a key of its own lies at its rank. -/
theorem Answer.drop_rank (answer : Answer key t o) (single : t.countP (fun a => decide (key a = c)) = 1) :
    ∃ a rest, o.drop (rank key t c) = a :: rest ∧ key a = c ∧ ∀ b ∈ rest, key b ≠ c := by
  have whole : o = o.take (rank key t c) ++ o.drop (rank key t c) := (List.take_append_drop _ _).symm
  have before := answer.take_rank c
  have sorted := answer.sorted
  have one : o.countP (fun a => decide (key a = c)) = 1 := (answer.rows.countP_eq _).trans single
  have greater : o.countP (fun a => decide (c < key a)) = (o.filter fun a => decide (c < key a)).length :=
    List.countP_eq_length_filter
  rw [whole, List.pairwise_append] at sorted
  have split : ∀ p : α → Bool, o.countP p = (o.take (rank key t c)).countP p + (o.drop (rank key t c)).countP p := by
    intro p
    rw [← List.countP_append, List.take_append_drop]
  have noneBefore : (o.take (rank key t c)).countP (fun a => decide (key a = c)) = 0 := by
    rw [before, List.countP_eq_zero]
    intro a mem same
    have less : c < key a := of_decide_eq_true (List.mem_filter.1 mem).2
    exact absurd (of_decide_eq_true same) less.ne'
  have allBefore : (o.drop (rank key t c)).countP (fun a => decide (c < key a)) = 0 := by
    have parts := split fun a => decide (c < key a)
    have here : (o.take (rank key t c)).countP (fun a => decide (c < key a)) =
        (o.filter fun a => decide (c < key a)).length := by
      rw [before, List.countP_eq_length]
      exact fun a mem => (List.mem_filter.1 mem).2
    omega
  have parts := split fun a => decide (key a = c)
  cases after : o.drop (rank key t c) with
  | nil =>
    rw [after, List.countP_nil] at parts
    omega
  | cons a rest =>
    rw [after] at parts allBefore sorted
    have least : key a ≤ c := by
      by_contra less
      exact List.countP_eq_zero.1 allBefore a List.mem_cons_self (decide_eq_true (lt_of_not_ge less))
    have isKey : key a = c := by
      apply le_antisymm least
      have some : 0 < (a :: rest).countP fun a => decide (key a = c) := by omega
      obtain ⟨b, mem, same⟩ := List.countP_pos_iff.1 some
      rw [← of_decide_eq_true same]
      rcases List.mem_cons.1 mem with rfl | mem
      · exact le_refl _
      · exact (List.pairwise_cons.1 sorted.2.1).1 b mem
    refine ⟨a, rest, rfl, isKey, fun b mem same => ?_⟩
    have others : rest.countP (fun a => decide (key a = c)) = 0 := by
      rw [List.countP_cons_of_pos (by simpa using isKey)] at parts
      omega
    exact List.countP_eq_zero.1 others b mem (decide_eq_true same)

/-- The page it is on. -/
theorem Answer.mem_page_iff (answer : Answer key t o) (single : t.countP (fun a => decide (key a = c)) = 1) :
    (∃ a ∈ page size o k, key a = c) ↔ k * size ≤ rank key t c ∧ rank key t c < (k + 1) * size := by
  obtain ⟨a, rest, after, isKey, others⟩ := answer.drop_rank single
  have before : ∀ b ∈ o.take (rank key t c), key b ≠ c := by
    intro b mem
    rw [answer.take_rank] at mem
    exact (of_decide_eq_true (List.mem_filter.1 mem).2 : c < key b).ne'
  constructor
  · rintro ⟨b, mem, same⟩
    constructor
    · by_contra early
      have late : b ∈ o.drop (rank key t c + 1) :=
        List.drop_subset_drop_left o (by omega) (mem_drop_of_mem_page mem (Nat.le_refl k))
      rw [← List.drop_drop, after] at late
      exact others b late same
    · by_contra late
      exact before b (List.take_subset_take_left o (by omega) (mem_take_of_mem_page mem (Nat.lt_add_one k))) same
  · rintro ⟨first, last⟩
    refine ⟨a, ?_, isKey⟩
    obtain ⟨skip, eq⟩ := Nat.exists_eq_add_of_le first
    have here : (o.drop (k * size)).drop skip = a :: rest := by rw [List.drop_drop, ← eq, after]
    have within : skip < size := by
      rw [Nat.succ_mul] at last
      omega
    apply List.mem_of_getElem? (i := skip)
    rw [page, List.getElem?_take_of_lt within, ← List.head?_drop, here]
    rfl

/-- **Nothing is passed over.** -/
theorem exists_page_of_growing {tables answers : Nat → List α} (valid : ∀ k, Answer key (tables k) (answers k))
    (single : ∀ k, (tables k).countP (fun a => decide (key a = c)) = 1)
    (grows : ∀ k, rank key (tables k) c ≤ rank key (tables (k + 1)) c) (positive : 0 < size) {m : Nat}
    (ends : page size (answers m) m = []) : ∃ k < m, ∃ a ∈ page size (answers k) k, key a = c := by
  have passed : rank key (tables m) c < m * size := by
    obtain ⟨a, rest, after, -⟩ := (valid m).drop_rank (single m)
    rw [page_eq_nil_iff positive] at ends
    by_contra notPassed
    rw [List.drop_eq_nil_of_le (by omega)] at after
    cases after
  have found : ∀ n, (∃ k < n, ∃ a ∈ page size (answers k) k, key a = c) ∨ n * size ≤ rank key (tables n) c := by
    intro n
    induction n with
    | zero => exact .inr (by omega)
    | succ n ih =>
      obtain ⟨k, less, there⟩ | reached := ih
      · exact .inl ⟨k, by omega, there⟩
      · by_cases here : rank key (tables n) c < (n + 1) * size
        · exact .inl ⟨n, by omega, ((valid n).mem_page_iff (single n)).2 ⟨reached, here⟩⟩
        · exact .inr (by have := grows n; omega)
  obtain there | reached := found m
  · exact there
  · omega

end Relational
