import Mathlib.Data.List.Sort
import Mathlib.Data.Nat.Bitwise
import Mathlib.Order.Compare

/-!
# Sorting by a key

A list of distinct keys, sorted by a comparison that agrees with the order of the keys on the
members of the list, is strictly ascending. Two lists that differ somewhere are ordered by the first
difference, whatever stands around them (`Diverges`). Whether small numbers are distinct is a
computation on a set of bits (`nodup_of_freshBits`).
-/

namespace Sorting

section sort

variable {α β : Type*}

theorem merge_congr {le le' : α → α → Bool} : ∀ {xs ys : List α},
    (∀ x ∈ xs, ∀ y ∈ ys, le x y = le' x y) → xs.merge ys le = xs.merge ys le'
  | [], ys, _ => by rw [List.nil_merge, List.nil_merge]
  | x :: xs, [], _ => by rw [List.merge_right, List.merge_right]
  | x :: xs, y :: ys, h => by
    have hxs : xs.merge (y :: ys) le = xs.merge (y :: ys) le' :=
      merge_congr fun a ha b hb => h a (List.mem_cons_of_mem x ha) b hb
    have hys : (x :: xs).merge ys le = (x :: xs).merge ys le' :=
      merge_congr fun a ha b hb => h a ha b (List.mem_cons_of_mem y hb)
    rw [List.cons_merge_cons, List.cons_merge_cons, h x List.mem_cons_self y List.mem_cons_self, hxs,
      hys]

/-- A member is only compared with those behind it. -/
theorem mergeSort_congr {le le' : α → α → Bool} (n : ℕ) : ∀ xs : List α, xs.length ≤ n →
    (xs.Pairwise fun x y => le x y = le' x y) → xs.mergeSort le = xs.mergeSort le' := by
  induction n with
  | zero =>
    intro xs hlength _
    rw [List.length_eq_zero_iff.mp (Nat.le_zero.mp hlength), List.mergeSort_nil, List.mergeSort_nil]
  | succ n ih =>
    intro xs hlength h
    match xs with
    | [] => rw [List.mergeSort_nil, List.mergeSort_nil]
    | [x] => rw [List.mergeSort_singleton, List.mergeSort_singleton]
    | x :: y :: xs =>
      have hsplit := List.take_append_drop ((xs.length + 1 + 1 + 1) / 2) (x :: y :: xs)
      rw [← hsplit, List.pairwise_append] at h
      obtain ⟨htake, hdrop, hacross⟩ := h
      simp only [List.length_cons] at hlength
      rw [List.mergeSort, List.mergeSort]
      simp only [List.MergeSort.Internal.splitInTwo_fst, List.MergeSort.Internal.splitInTwo_snd,
        List.length_cons]
      rw [ih _ ?_ htake, ih _ ?_ hdrop]
      · apply merge_congr
        intro a ha b hb
        exact hacross a ((List.mergeSort_perm _ _).mem_iff.mp ha) b
          ((List.mergeSort_perm _ _).mem_iff.mp hb)
      · rw [List.length_drop, List.length_cons, List.length_cons]
        omega
      · rw [List.length_take, List.length_cons, List.length_cons]
        omega

/-- **A list of distinct keys is sorted strictly** by a comparison that agrees with their order. -/
theorem pairwise_mergeSort [LinearOrder β] {key : α → β} {le : α → α → Bool} {xs : List α}
    (hle : xs.Pairwise fun x y => le x y = decide (key x ≤ key y)) (hnodup : (xs.map key).Nodup) :
    (xs.mergeSort le).Pairwise fun x y => key x < key y := by
  rw [mergeSort_congr xs.length xs le_rfl hle]
  have hsorted : (xs.mergeSort fun x y => decide (key x ≤ key y)).Pairwise fun x y => key x ≤ key y := by
    have hpairwise := @List.pairwise_mergeSort α (fun x y => decide (key x ≤ key y))
      (fun a b c hab hbc => by simpa using le_trans (of_decide_eq_true hab) (of_decide_eq_true hbc))
      (fun a b => by simpa using le_total (key a) (key b)) xs
    simpa using hpairwise
  have hne : (xs.mergeSort fun x y => decide (key x ≤ key y)).Pairwise fun x y => key x ≠ key y := by
    have hperm := (List.mergeSort_perm xs fun x y => decide (key x ≤ key y)).map key
    exact List.pairwise_map.mp (hperm.nodup_iff.mpr hnodup)
  exact (hsorted.and hne).imp fun ⟨hle, hne⟩ => lt_of_le_of_ne hle hne

/-- A sorted list has its least member first. -/
theorem eq_nil_of_least_last [LinearOrder β] {key : α → β} {xs : List α} {x : α}
    (hsorted : (xs ++ [x]).Pairwise fun a b => key a < key b) (hleast : ∀ k, key x ≤ k) : xs = [] := by
  match xs with
  | [] => rfl
  | y :: ys =>
    have hlt : key y < key x :=
      (List.pairwise_append.mp hsorted).2.2 y List.mem_cons_self x List.mem_cons_self
    exact absurd hlt (not_lt_of_ge (hleast (key y)))

end sort

/-! ## The first difference of two lists -/

section lists

variable {α : Type*} [LT α]

/-- Up to a point the lists are the same, and there the first one has the lesser member. -/
def Diverges (a b : List α) : Prop :=
  ∃ p c d s s', a = p ++ c :: s ∧ b = p ++ d :: s' ∧ c < d

theorem Diverges.append {a b : List α} (h : Diverges a b) (pre suf suf' : List α) :
    Diverges (pre ++ a ++ suf) (pre ++ b ++ suf') := by
  obtain ⟨p, c, d, s, s', rfl, rfl, hlt⟩ := h
  exact ⟨pre ++ p, c, d, s ++ suf, s' ++ suf', by simp, by simp, hlt⟩

/-- The first list is the lesser one. -/
theorem Diverges.lt {a b : List α} (h : Diverges a b) : a < b := by
  obtain ⟨p, c, d, s, s', rfl, rfl, hlt⟩ := h
  induction p with
  | nil => exact List.Lex.rel hlt
  | cons e p ih => exact List.Lex.cons ih

end lists

/-! ## Distinct numbers -/

/-- Whether the numbers of a list differ from each other and from those of a set of bits. -/
def freshBits : List ℕ → ℕ → Bool
  | [], _ => true
  | k :: ks, seen => !seen.testBit k && freshBits ks (seen ||| 1 <<< k)

theorem nodup_of_freshBits {ks : List ℕ} : ∀ {seen : ℕ}, freshBits ks seen = true →
    ks.Nodup ∧ ∀ k ∈ ks, seen.testBit k = false := by
  induction ks with
  | nil => exact fun _ => ⟨List.nodup_nil, fun k hk => absurd hk List.not_mem_nil⟩
  | cons k ks ih =>
    intro seen h
    rw [freshBits, Bool.and_eq_true, Bool.not_eq_true'] at h
    obtain ⟨hfresh, h⟩ := h
    obtain ⟨hnodup, hnot⟩ := ih h
    have hseen : ∀ k' ∈ ks, seen.testBit k' = false ∧ k ≠ k' := by
      intro k' hk'
      have hbit := hnot k' hk'
      rw [Nat.testBit_or, Bool.or_eq_false_iff, Nat.one_shiftLeft, Nat.testBit_two_pow] at hbit
      exact ⟨hbit.1, of_decide_eq_false hbit.2⟩
    refine ⟨List.nodup_cons.mpr ⟨fun hmem => (hseen k hmem).2 rfl, hnodup⟩, ?_⟩
    exact List.forall_mem_cons.mpr ⟨hfresh, fun k' hk' => (hseen k' hk').1⟩

end Sorting
