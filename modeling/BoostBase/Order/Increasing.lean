import Mathlib.Algebra.Order.Ring.Int
import Mathlib.Data.List.Nodup
import Mathlib.Data.List.Perm.Subperm

/-! Strictly increasing lists of integers. -/

namespace Increasing

variable {l : List Int}

theorem nodup (increasing : l.Pairwise (· < ·)) : l.Nodup :=
  increasing.imp fun less => ne_of_lt less

theorem gap_add (increasing : l.Pairwise (· < ·)) (i k : Nat) (inside : i + k < l.length) :
    l[i] + k ≤ l[i + k] := by
  induction k with
  | zero => simp
  | succ k ih =>
    have before := ih (by omega)
    have next : l[i + k] < l[i + (k + 1)] :=
      List.pairwise_iff_getElem.mp increasing _ _ (by omega) inside (by omega)
    push_cast
    omega

/-- There are at least as many numbers between two members as there are places. -/
theorem gap (increasing : l.Pairwise (· < ·)) {i j : Nat} (before : i ≤ j) (inside : j < l.length) :
    l[i] + (j - i : Nat) ≤ l[j] := by
  have apart := gap_add increasing i (j - i) (by omega)
  simpa only [show i + (j - i) = j by omega] using apart

/-- The numbers from `lo` on that an increasing list begins with. -/
theorem exists_first_gap (increasing : l.Pairwise (· < ·)) {lo : Int} (above : ∀ v ∈ l, lo ≤ v) :
    ∃ j, j ≤ l.length ∧ (∀ (i : Nat) (inside : i < l.length), i < j → l[i] = lo + i) ∧
      ∀ inside : j < l.length, lo + j < l[j] := by
  induction l generalizing lo with
  | nil => exact ⟨0, Nat.le_refl 0, fun i inside => absurd inside (Nat.not_lt_zero i),
      fun inside => absurd inside (Nat.not_lt_zero 0)⟩
  | cons a l ih =>
    obtain ⟨greater, rest⟩ := List.pairwise_cons.mp increasing
    rcases (above a List.mem_cons_self).lt_or_eq with more | rfl
    · exact ⟨0, Nat.zero_le _, fun i _ before => absurd before (Nat.not_lt_zero i), fun _ => by simpa using more⟩
    · obtain ⟨j, bound, run, free⟩ := ih rest (show ∀ v ∈ l, lo + 1 ≤ v from greater)
      refine ⟨j + 1, Nat.succ_le_succ bound, fun i inside before => ?_, fun inside => ?_⟩
      · cases i with
        | zero => simp
        | succ i =>
          have same := run i (Nat.lt_of_succ_lt_succ inside) (Nat.lt_of_succ_lt_succ before)
          rw [List.getElem_cons_succ, same]
          push_cast
          omega
      · have less := free (Nat.lt_of_succ_lt_succ inside)
        rw [List.getElem_cons_succ]
        push_cast
        omega

/-- The number after those an increasing list begins with is not in it. -/
theorem first_gap_free (increasing : l.Pairwise (· < ·)) {lo : Int} {j : Nat} (bound : j ≤ l.length)
    (run : ∀ (i : Nat) (inside : i < l.length), i < j → l[i] = lo + i)
    (free : ∀ inside : j < l.length, lo + j < l[j]) : lo + j ∉ l := by
  intro member
  obtain ⟨i, inside, same⟩ := List.getElem_of_mem member
  rcases Nat.lt_or_ge i j with before | after
  · rw [run i inside before] at same
    omega
  · have less := free (by omega)
    have apart := gap increasing after inside
    omega

end Increasing
