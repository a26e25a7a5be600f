import Mathlib.Data.List.Induction

namespace Transition

variable {ε : Type*}

/-- Every event of a log satisfies `P`, a fact about the events before it and itself. -/
def Each (P : List ε → ε → Prop) (log : List ε) : Prop :=
  ∀ before event after, log = before ++ event :: after → P before event

theorem each_nil (P : List ε → ε → Prop) : Each P [] := by
  intro before event after split
  simp at split

theorem each_snoc {P : List ε → ε → Prop} {log : List ε} {last : ε} :
    Each P (log ++ [last]) ↔ Each P log ∧ P log last := by
  constructor
  · intro each
    refine ⟨?_, each log last [] rfl⟩
    rintro before event after rfl
    exact each before event (after ++ [last]) (by simp)
  · rintro ⟨each, final⟩ before event after split
    rcases List.eq_nil_or_concat after with rfl | ⟨rest, x, rfl⟩
    · obtain ⟨rfl, same⟩ := List.append_inj' split rfl
      cases same
      exact final
    · rw [List.concat_eq_append, ← List.cons_append, ← List.append_assoc] at split
      obtain ⟨rfl, _⟩ := List.append_inj' split rfl
      exact each before event rest rfl

end Transition
