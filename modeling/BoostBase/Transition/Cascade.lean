import Mathlib.Order.Basic

namespace Transition

/-- A chain of links from 0 to `n`, each live until the next has ended. A mark on a live link is
    forwarded to the next, where it is pending until it arrives. -/
structure Cascade (n : Nat) (live ended pending marked : Nat → Prop) : Prop where
  apart : ∀ i, ended i → ¬ live i
  forwarded : ∀ i, i < n → live i → marked i → pending (i + 1) ∨ marked (i + 1) ∨ ¬ live (i + 1)
  below : ∀ i, i < n → ¬ live i → ended (i + 1)

/-- Nothing is under way: no mark, no link that is about to end, no link that could take up the
    end of the next, and the last one is not marked. -/
structure Settles (n : Nat) (live ended pending marked : Nat → Prop) : Prop where
  drained : ∀ i, i ≤ n → ¬ pending i
  left : ∀ i, i ≤ n → ¬ live i → ended i
  returned : ∀ i, i < n → live i → ¬ ended (i + 1)
  last : live n → ¬ marked n

variable {n i : Nat} {live ended pending marked live' ended' pending' marked' : Nat → Prop}

theorem Cascade.start (all : ∀ i, live i) (none_marked : ∀ i, ¬ marked i) (none_ended : ∀ i, ¬ ended i) :
    Cascade n live ended pending marked :=
  ⟨fun i gone => absurd gone (none_ended i), fun i _ _ marks => absurd marks (none_marked i),
    fun i _ gone => absurd (all i) gone⟩

theorem Cascade.mono (cascade : Cascade n live ended pending marked) (lives : ∀ i, live' i ↔ live i)
    (ends : ∀ i, ended' i ↔ ended i) (waits : ∀ i, pending i → pending' i)
    (marks : ∀ i, marked' i ↔ marked i) : Cascade n live' ended' pending' marked' := by
  refine ⟨fun i gone => ?_, fun i inside lives_ marks_ => ?_, fun i inside gone => ?_⟩
  · rw [lives]
    exact cascade.apart i ((ends i).mp gone)
  · rw [marks, lives]
    exact (cascade.forwarded i inside ((lives i).mp lives_) ((marks i).mp marks_)).imp_left (waits _)
  · exact (ends _).mpr (cascade.below i inside (mt (lives i).mpr gone))

theorem Cascade.arrives (cascade : Cascade n live ended pending marked) (lives : ∀ k, live' k ↔ live k)
    (ends : ∀ k, ended' k ↔ ended k) (waits : ∀ k, k ≠ i → pending k → pending' k)
    (marks : ∀ k, marked' k ↔ marked k ∨ k = i ∧ live i) (next : i < n → live i → pending' (i + 1)) :
    Cascade n live' ended' pending' marked' := by
  refine ⟨fun k gone => ?_, fun k inside lives_ marks_ => ?_, fun k inside gone => ?_⟩
  · rw [lives]
    exact cascade.apart k ((ends k).mp gone)
  · rw [marks, lives]
    rcases (marks k).mp marks_ with before | ⟨rfl, here⟩
    · rcases cascade.forwarded k inside ((lives k).mp lives_) before with pends | arrived | gone
      · by_cases at_ : k + 1 = i
        · by_cases here : live (k + 1)
          · exact .inr (.inl (.inr ⟨at_, at_ ▸ here⟩))
          · exact .inr (.inr here)
        · exact .inl (waits _ at_ pends)
      · exact .inr (.inl (.inl arrived))
      · exact .inr (.inr gone)
    · exact .inl (next inside here)
  · exact (ends _).mpr (cascade.below k inside (mt (lives k).mpr gone))

theorem Cascade.leaves (cascade : Cascade n live ended pending marked)
    (lives : ∀ k, live' k ↔ live k ∧ k ≠ i) (ends : ∀ k, ended' k ↔ ended k)
    (waits : ∀ k, pending k → pending' k) (marks : ∀ k, marked' k ↔ marked k)
    (returned : i < n → ended (i + 1)) : Cascade n live' ended' pending' marked' := by
  refine ⟨fun k gone => ?_, fun k inside lives_ marks_ => ?_, fun k inside gone => ?_⟩
  · rw [lives]
    exact fun both => cascade.apart k ((ends k).mp gone) both.1
  · rw [marks, lives]
    refine (cascade.forwarded k inside ((lives k).mp lives_).1 ((marks k).mp marks_)).imp (waits _) ?_
    exact Or.imp_right fun gone both => gone both.1
  · rw [ends]
    by_cases here : k = i
    · subst here
      exact returned inside
    · exact cascade.below k inside fun lives_ => gone ((lives k).mpr ⟨lives_, here⟩)

theorem Cascade.ends (cascade : Cascade n live ended pending marked) (gone : ¬ live i)
    (lives : ∀ k, live' k ↔ live k) (ends : ∀ k, ended' k ↔ ended k ∨ k = i)
    (waits : ∀ k, pending k → pending' k) (marks : ∀ k, marked' k ↔ marked k) :
    Cascade n live' ended' pending' marked' := by
  have same : Cascade n live' ended pending' marked' := cascade.mono lives (fun _ => Iff.rfl) waits marks
  refine ⟨fun k over_ => ?_, same.forwarded, fun k inside left => ?_⟩
  · rcases (ends k).mp over_ with before | rfl
    · exact same.apart k before
    · rw [lives]
      exact gone
  · exact (ends (k + 1)).mpr (.inl (same.below k inside left))

theorem Cascade.marked_all (cascade : Cascade n live ended pending marked)
    (settles : Settles n live ended pending marked) (root : live 0) (mark : marked 0) (i : Nat)
    (inside : i ≤ n) : live i ∧ marked i := by
  induction i with
  | zero => exact ⟨root, mark⟩
  | succ i ih =>
    obtain ⟨lives, marks⟩ := ih (by omega)
    have next : live (i + 1) := by
      by_contra gone
      exact settles.returned i (by omega) lives (settles.left (i + 1) inside gone)
    rcases cascade.forwarded i (by omega) lives marks with waits | arrived | gone
    · exact absurd waits (settles.drained (i + 1) inside)
    · exact ⟨next, arrived⟩
    · exact absurd next gone

/-- When nothing is under way and a mark was put on the first link, every link has ended. -/
theorem Cascade.ended_all (cascade : Cascade n live ended pending marked)
    (settles : Settles n live ended pending marked) (root : live 0 → marked 0) (i : Nat)
    (inside : i ≤ n) : ended i := by
  have first : ¬ live 0 := by
    intro lives
    obtain ⟨last, marks⟩ := cascade.marked_all settles lives (root lives) n (Nat.le_refl n)
    exact settles.last last marks
  induction i with
  | zero => exact settles.left 0 inside first
  | succ i ih => exact cascade.below i (by omega) (cascade.apart i (ih (by omega)))

end Transition
