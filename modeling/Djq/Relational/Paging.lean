import Djq.Relational.Ordered
import Mathlib.Data.List.Perm.Basic
import Mathlib.Data.List.Nodup

/-!
# Paging through an ordered answer

Each page of a listing is a query of its own, and each query may put rows with
equal keys in an order of its own (`Answer`). Pages taken from such answers are
together the table exactly when every page begins with a new key: then all
answers have the same rows on it, and otherwise two answers can be chosen that
have a row on the page before and another missing.
-/

namespace Relational

variable {α ι : Type} [LinearOrder ι] {key : α → ι} {t o o' : List α} {k size : Nat}

/-- An answer to `ORDER BY key DESC`. -/
structure Answer (key : α → ι) (t o : List α) : Prop where
  rows : o.Perm t
  sorted : o.Pairwise fun a b => key b ≤ key a

/-- `LIMIT size OFFSET k * size`. -/
def page (size : Nat) (o : List α) (k : Nat) : List α := (o.drop (k * size)).take size

/-- How many rows come before those with the key `c`. -/
def rank (key : α → ι) (t : List α) (c : ι) : Nat := t.countP fun a => decide (c < key a)

/-- No page begins within a group of rows with equal keys. -/
def CleanPages (key : α → ι) (t : List α) (size : Nat) : Prop :=
  ∀ k, k * size < t.length → ∃ a ∈ t, rank key t (key a) = k * size

/-! ## Pages of one answer -/

theorem page_length : (page size o k).length = min size (o.length - k * size) := by
  rw [page, List.length_take, List.length_drop]

theorem page_eq_nil_iff (positive : 0 < size) : page size o k = [] ↔ o.length ≤ k * size := by
  rw [← List.length_eq_zero_iff, page_length]
  omega

theorem take_page : o.take ((k + 1) * size) = o.take (k * size) ++ page size o k := by
  rw [Nat.succ_mul, List.take_add, page]

/-- The pages one after the other are the answer. -/
theorem flatMap_page (m : Nat) : (List.range m).flatMap (page size o) = o.take (m * size) := by
  induction m with
  | zero => simp
  | succ m ih => rw [List.range_succ, List.flatMap_append, ih, List.flatMap_singleton, take_page]

theorem mem_take_of_mem_page {a : α} {i : Nat} (mem : a ∈ page size o i) (before : i < k) : a ∈ o.take (k * size) := by
  rw [page, List.take_drop] at mem
  have fits : i * size + size ≤ k * size := by
    rw [← Nat.succ_mul]
    exact Nat.mul_le_mul_right size before
  exact List.take_subset_take_left o fits (List.mem_of_mem_drop mem)

theorem mem_drop_of_mem_page {a : α} {i : Nat} (mem : a ∈ page size o i) (later : k ≤ i) : a ∈ o.drop (k * size) :=
  List.drop_subset_drop_left o (Nat.mul_le_mul_right size later) (List.mem_of_mem_take mem)

/-! ## Pages of different answers -/

/-- The rows before those with the key `c` are a prefix of a sorted list. -/
theorem take_rank {c : ι} (sorted : o.Pairwise fun a b => key b ≤ key a) :
    o.take (rank key o c) = o.filter fun a => decide (c < key a) := by
  induction o with
  | nil => rfl
  | cons a o ih =>
    rw [List.pairwise_cons] at sorted
    by_cases greater : c < key a
    · have more : rank key (a :: o) c = rank key o c + 1 := by simp [rank, greater]
      rw [more, List.take_succ_cons, ih sorted.2]
      simp [greater]
    · have none : ∀ b ∈ a :: o, ¬ (decide (c < key b) = true) := by
        intro b mem less
        have less : c < key b := of_decide_eq_true less
        rcases List.mem_cons.1 mem with rfl | mem
        · exact greater less
        · exact greater (less.trans_le (sorted.1 b mem))
      rw [rank, List.countP_eq_zero.2 none, List.take_zero, List.filter_eq_nil_iff.2 none]

theorem Answer.length (answer : Answer key t o) : o.length = t.length := answer.rows.length_eq

theorem Answer.take_rank (answer : Answer key t o) (c : ι) :
    o.take (rank key t c) = o.filter fun a => decide (c < key a) := by
  have same : rank key t c = rank key o c := answer.rows.symm.countP_eq _
  rw [same]
  exact Relational.take_rank answer.sorted

/-- Up to the beginning of a clean page all answers have the same rows. -/
theorem Answer.take_perm (answer : Answer key t o) (answer' : Answer key t o') (clean : CleanPages key t size)
    (k : Nat) : (o.take (k * size)).Perm (o'.take (k * size)) := by
  by_cases inside : k * size < t.length
  · obtain ⟨a, -, at_⟩ := clean k inside
    rw [← at_, answer.take_rank, answer'.take_rank]
    exact (answer.rows.trans answer'.rows.symm).filter _
  · rw [List.take_of_length_le (by rw [answer.length]; omega), List.take_of_length_le (by rw [answer'.length]; omega)]
    exact answer.rows.trans answer'.rows.symm

theorem Answer.page_perm (answer : Answer key t o) (answer' : Answer key t o') (clean : CleanPages key t size)
    (k : Nat) : (page size o k).Perm (page size o' k) := by
  have here := answer.take_perm answer' clean k
  have next := answer.take_perm answer' clean (k + 1)
  rw [take_page, take_page] at next
  exact (List.perm_append_left_iff _).1 ((here.append_right _).symm.trans next)

/-! ## All pages -/

/-- What a client has read that goes from page to page until one is empty. -/
def ReadsAll (size : Nat) (answers : Nat → List α) (out : List α) : Prop :=
  ∃ m, (∀ k, k < m → page size (answers k) k ≠ []) ∧ page size (answers m) m = [] ∧
    out = (List.range m).flatMap fun k => page size (answers k) k

/-- Whatever the answers, the client comes to an end. -/
theorem readsAll_exists (positive : 0 < size) {answers : Nat → List α} (valid : ∀ k, Answer key t (answers k)) :
    ∃ out, ReadsAll size answers out := by
  have ends : ∃ m, t.length ≤ m * size := ⟨t.length, Nat.le_mul_of_pos_right _ positive⟩
  refine ⟨_, Nat.find ends, ?_, ?_, rfl⟩
  · intro k before
    rw [ne_eq, page_eq_nil_iff positive, (valid k).length]
    exact Nat.find_min ends before
  · rw [page_eq_nil_iff positive, (valid _).length]
    exact Nat.find_spec ends

theorem ReadsAll.perm (positive : 0 < size) {answers : Nat → List α} (valid : ∀ k, Answer key t (answers k))
    (clean : CleanPages key t size) {out : List α} (reads : ReadsAll size answers out) : out.Perm t := by
  obtain ⟨m, -, ends, rfl⟩ := reads
  have all : ((List.range m).flatMap fun k => page size (answers k) k).Perm
      ((List.range m).flatMap (page size (answers 0))) :=
    List.Perm.flatMap_left _ fun k _ => (valid k).page_perm (valid 0) clean k
  rw [page_eq_nil_iff positive, (valid m).length] at ends
  rw [flatMap_page, List.take_of_length_le (by rw [(valid 0).length]; exact ends)] at all
  exact all.trans (valid 0).rows

theorem rank_of_split {x y : List α} {b : α} (sorted : (x ++ b :: y).Pairwise fun a b => key b ≤ key a)
    (greater : ∀ a ∈ x, key b < key a) : rank key (x ++ b :: y) (key b) = x.length := by
  have before : x.countP (fun a => decide (key b < key a)) = x.length := by
    rw [List.countP_eq_length]
    intro a mem
    exact decide_eq_true (greater a mem)
  have after : (b :: y).countP (fun a => decide (key b < key a)) = 0 := by
    rw [List.countP_eq_zero]
    intro a mem less
    have less : key b < key a := of_decide_eq_true less
    rcases List.mem_cons.1 mem with rfl | mem
    · exact lt_irrefl _ less
    · have := (List.pairwise_cons.1 (List.pairwise_append.1 sorted).2.1).1 a mem
      exact absurd less (not_lt_of_ge this)
  rw [rank, List.countP_append, before, after, Nat.add_zero]

/-- A page that begins within a group of equal keys: another answer has the two
rows at its edge the other way round. -/
theorem exists_swapped (answer : Answer key t o) (inside : k < t.length)
    (unclean : ∀ a ∈ t, rank key t (key a) ≠ k) :
    ∃ x a b y, o = x ++ a :: b :: y ∧ x.length + 1 = k ∧ Answer key t (x ++ b :: a :: y) := by
  have within : k < o.length := by rw [answer.length]; exact inside
  obtain ⟨b, y, split⟩ : ∃ b y, o.drop k = b :: y := ⟨_, _, List.drop_eq_getElem_cons within⟩
  have whole : o = o.take k ++ b :: y := by rw [← split, List.take_append_drop]
  have length : (o.take k).length = k := List.length_take_of_le within.le
  have sorted := answer.sorted
  rw [whole] at sorted
  have bMem : b ∈ t := answer.rows.mem_iff.1 (by rw [whole]; simp)
  have notGreater : ¬ ∀ a ∈ o.take k, key b < key a := by
    intro greater
    have atEdge := rank_of_split sorted greater
    rw [← whole, length] at atEdge
    exact unclean b bMem ((answer.rows.symm.countP_eq _).trans atEdge)
  rcases List.eq_nil_or_concat (o.take k) with none | ⟨x, a, last⟩
  · rw [none] at notGreater
    exact absurd (fun _ mem => absurd mem List.not_mem_nil) notGreater
  · rw [List.concat_eq_append] at last
    rw [last, List.append_assoc, List.singleton_append] at whole sorted
    have tie : key a = key b := by
      apply le_antisymm _ ((List.pairwise_cons.1 (List.pairwise_append.1 sorted).2.1).1 b List.mem_cons_self)
      by_contra greater
      refine notGreater ?_
      rw [last]
      intro c mem
      rcases List.mem_append.1 mem with mem | mem
      · exact (lt_of_not_ge greater).trans_le ((List.pairwise_append.1 sorted).2.2 c mem a List.mem_cons_self)
      · obtain rfl := List.mem_singleton.1 mem
        exact lt_of_not_ge greater
    have size : x.length + 1 = k := by
      rw [← length, last, List.length_append, List.length_singleton]
    refine ⟨x, a, b, y, whole, size, ?_, ?_⟩
    · exact (List.Perm.append_left x (List.Perm.swap a b y)).trans (whole ▸ answer.rows)
    · have keys : (x ++ b :: a :: y).map key = (x ++ a :: b :: y).map key := by simp [tie]
      rw [← List.pairwise_map (f := key) (R := fun c d => d ≤ c)] at sorted ⊢
      rw [keys]
      exact sorted

/-- **Pages partition the table**, whatever the answers, exactly if they are clean. -/
theorem readsAll_perm_iff (positive : 0 < size) (distinct : t.Nodup) (some : Answer key t o) :
    (∀ answers : Nat → List α, (∀ k, Answer key t (answers k)) → ∃ out, ReadsAll size answers out ∧ out.Perm t) ↔
      CleanPages key t size := by
  constructor
  · intro all k inside
    by_contra unclean
    push Not at unclean
    obtain ⟨x, a, b, y, rfl, length, swapped⟩ := exists_swapped some inside unclean
    have valid : ∀ i, Answer key t (if i < k then x ++ a :: b :: y else x ++ b :: a :: y) := by
      intro i
      split
      · exact some
      · exact swapped
    obtain ⟨_, ⟨m, -, -, rfl⟩, perm⟩ := all _ valid
    have bMem : b ∈ t := some.rows.mem_iff.1 (by simp)
    obtain ⟨i, -, mem⟩ := List.mem_flatMap.1 (perm.mem_iff.2 bMem)
    have nodup : (x ++ a :: b :: y).Nodup := some.rows.nodup_iff.2 distinct
    have apart : b ∉ x ∧ b ≠ a ∧ b ∉ y := by
      obtain ⟨-, rest, cross⟩ := List.nodup_append.1 nodup
      simp only [List.nodup_cons, List.mem_cons, not_or] at rest
      exact ⟨fun inX => cross b inX b (by simp) rfl, fun same => rest.1.1 same.symm, rest.2.1⟩
    by_cases before : i < k
    · simp only [before, if_true] at mem
      have early := mem_take_of_mem_page mem before
      rw [← length, List.take_length_add_append, List.take_succ_cons, List.take_zero] at early
      simp [apart] at early
    · simp only [before, if_false] at mem
      have late := mem_drop_of_mem_page mem (not_lt.1 before)
      rw [← length, List.drop_length_add_append, List.drop_succ_cons, List.drop_zero] at late
      simp [apart] at late
  · intro clean answers valid
    obtain ⟨out, reads⟩ := readsAll_exists positive valid
    exact ⟨out, reads, reads.perm positive valid clean⟩

end Relational
