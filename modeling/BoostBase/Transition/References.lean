import Mathlib.Data.Finset.Image

namespace Transition

/-- Who holds a counted reference to what. -/
abbrev References (η ο : Type*) := Finset (η × ο)

namespace References

variable {η ο : Type*}

def Held (refs : References η ο) (o : ο) : Prop := ∃ h, (h, o) ∈ refs

/-- Each thing that is `linked` is kept by its custodian alone, and that keeps `e` as well. -/
def Custody {ι : Type*} (refs : References η ο) (linked : ι → Prop) (thing : ι → ο)
    (custodian : ι → η) (e : ο) : Prop :=
  ∀ i, linked i → (∀ h, (h, thing i) ∈ refs ↔ h = custodian i) ∧ (custodian i, e) ∈ refs

variable {refs : References η ο} {h : η} {o o' e : ο}

theorem Custody.none_left {ι : Type*} {linked : ι → Prop} {thing : ι → ο} {custodian : ι → η}
    (custody : refs.Custody linked thing custodian e) (released : ¬ refs.Held e) (i : ι) :
    ¬ linked i := fun there => released ⟨custodian i, (custody i there).2⟩

variable [DecidableEq ο]

instance Held.decidable (refs : References η ο) (o : ο) : Decidable (refs.Held o) :=
  decidable_of_iff (o ∈ refs.image Prod.snd) (by simp [Held])

variable [DecidableEq η]

theorem held_insert : Held (insert (h, o) refs) o' ↔ o' = o ∨ refs.Held o' := by
  constructor
  · rintro ⟨k, member⟩
    rcases Finset.mem_insert.mp member with same | before
    · exact .inl (Prod.mk.inj same).2
    · exact .inr ⟨k, before⟩
  · rintro (rfl | ⟨k, member⟩)
    · exact ⟨h, Finset.mem_insert_self _ _⟩
    · exact ⟨k, Finset.mem_insert_of_mem member⟩

theorem held_erase (other : o' ≠ o) : Held (refs.erase (h, o)) o' ↔ refs.Held o' := by
  constructor
  · exact fun ⟨k, member⟩ => ⟨k, Finset.mem_of_mem_erase member⟩
  · refine fun ⟨k, member⟩ => ⟨k, Finset.mem_erase.mpr ⟨fun same => ?_, member⟩⟩
    exact other (Prod.mk.inj same).2

theorem Held.of_erase (held : Held (refs.erase (h, o)) o') : refs.Held o' := by
  obtain ⟨k, member⟩ := held
  exact ⟨k, Finset.mem_of_mem_erase member⟩

end References

end Transition
