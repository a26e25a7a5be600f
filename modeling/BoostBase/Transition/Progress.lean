import BoostBase.Transition.Machine

namespace Transition

namespace Machine

universe u v

variable {σ : Type u} {α : Type v} {m : Machine σ α} {I : σ → Prop} {P : α → Prop} {rank : σ → Nat}

/-- The steps of the kind `P` keep `I`, and each uses up some of `rank`. -/
structure Ranked (m : Machine σ α) (I : σ → Prop) (P : α → Prop) (rank : σ → Nat) : Prop where
  keeps : ∀ s a t, I s → P a → m.next s a = some t → I t
  falls : ∀ s a t, I s → P a → m.next s a = some t → rank t < rank s

def Stuck (m : Machine σ α) (P : α → Prop) (s : σ) : Prop := ∀ a, P a → m.next s a = none

theorem not_stuck {s : σ} (moves : ¬ m.Stuck P s) : ∃ a t, P a ∧ m.next s a = some t := by
  simp only [Stuck, not_forall] at moves
  obtain ⟨a, kind, enabled⟩ := moves
  obtain ⟨t, taken⟩ := Option.ne_none_iff_exists'.mp enabled
  exact ⟨a, t, kind, taken⟩

theorem Ranked.run_le (ranked : m.Ranked I P rank) {s t : σ} {as : List α} (holds : I s)
    (kinds : ∀ a ∈ as, P a) (ran : m.run s as = some t) : I t ∧ as.length + rank t ≤ rank s := by
  induction as generalizing s with
  | nil =>
    cases ran
    exact ⟨holds, by simp⟩
  | cons a as ih =>
    obtain ⟨u, taken, rest⟩ := run_cons.mp ran
    obtain ⟨kind, kinds⟩ := List.forall_mem_cons.mp kinds
    have fell := ranked.falls s a u holds kind taken
    obtain ⟨later, bound⟩ := ih (ranked.keeps s a u holds kind taken) kinds rest
    refine ⟨later, ?_⟩
    rw [List.length_cons]
    omega

/-- A run of such steps can be carried on until none is left. -/
theorem Ranked.settles (ranked : m.Ranked I P rank) {s : σ} (holds : I s) :
    ∃ as t, (∀ a ∈ as, P a) ∧ m.run s as = some t ∧ m.Stuck P t := by
  generalize bound : rank s = n
  induction n using Nat.strongRecOn generalizing s with
  | ind n ih =>
    by_cases stuck : m.Stuck P s
    · exact ⟨[], s, by simp, rfl, stuck⟩
    · obtain ⟨a, u, kind, taken⟩ := not_stuck stuck
      have fell := ranked.falls s a u holds kind taken
      obtain ⟨as, t, kinds, ran, ended⟩ :=
        ih (rank u) (by omega) (ranked.keeps s a u holds kind taken) rfl
      exact ⟨a :: as, t, List.forall_mem_cons.mpr ⟨kind, kinds⟩, run_cons.mpr ⟨u, taken, ran⟩, ended⟩

end Machine

end Transition
