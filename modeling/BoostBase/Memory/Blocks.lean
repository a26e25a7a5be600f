import Mathlib.Logic.Function.Basic
import Mathlib.Order.Basic

namespace Memory

/-- A heap of numbered blocks; a number is given out once. -/
structure Blocks (β : Type) where
  content : Nat → Option (List β)
  next : Nat
  fresh : ∀ b, next ≤ b → content b = none

namespace Blocks

variable {β : Type} {m : Blocks β} {b c : Nat} {bytes : List β}

def empty : Blocks β := ⟨fun _ => none, 0, fun _ _ => rfl⟩

theorem lt_next (there : m.content b = some bytes) : b < m.next := by
  by_contra beyond
  rw [m.fresh b (Nat.not_lt.mp beyond)] at there
  cases there

def alloc (m : Blocks β) (bytes : List β) : Blocks β where
  content := Function.update m.content m.next (some bytes)
  next := m.next + 1
  fresh b beyond := by
    rw [Function.update_of_ne (by omega)]
    exact m.fresh b (by omega)

def free (m : Blocks β) (b : Nat) : Blocks β where
  content := Function.update m.content b none
  next := m.next
  fresh c beyond := by
    by_cases same : c = b
    · rw [same, Function.update_self]
    · rw [Function.update_of_ne same]
      exact m.fresh c beyond

/-- What is written to a block that is not there goes nowhere. -/
def store (m : Blocks β) (b : Nat) (bytes : List β) : Blocks β where
  content := Function.update m.content b ((m.content b).map fun _ => bytes)
  next := m.next
  fresh c beyond := by
    by_cases same : c = b
    · rw [same, Function.update_self, m.fresh b (same ▸ beyond)]
      rfl
    · rw [Function.update_of_ne same]
      exact m.fresh c beyond

@[simp] theorem alloc_self : (m.alloc bytes).content m.next = some bytes := Function.update_self ..

@[simp] theorem free_self : (m.free b).content b = none := Function.update_self ..

theorem alloc_old (old : b < m.next) : (m.alloc bytes).content b = m.content b :=
  Function.update_of_ne (Nat.ne_of_lt old) _ _

theorem free_other (other : c ≠ b) : (m.free b).content c = m.content c := Function.update_of_ne other _ _

theorem store_self (there : m.content b = some bytes) (bytes' : List β) :
    (m.store b bytes').content b = some bytes' := by
  show Function.update m.content b _ b = _
  rw [Function.update_self, there]
  rfl

theorem store_other (other : c ≠ b) : (m.store b bytes).content c = m.content c :=
  Function.update_of_ne other _ _

/-- The blocks that are there stay, and as long as they are. -/
structure Shaped (m m' : Blocks β) : Prop where
  next : m'.next = m.next
  lengths : ∀ b, (m'.content b).map List.length = (m.content b).map List.length

theorem Shaped.refl (m : Blocks β) : Shaped m m := ⟨rfl, fun _ => rfl⟩

theorem Shaped.of_store (there : m.content b = some bytes) {bytes' : List β}
    (same : bytes'.length = bytes.length) : Shaped m (m.store b bytes') := by
  refine ⟨rfl, fun c => ?_⟩
  by_cases here : c = b
  · rw [here, store_self there, there, Option.map_some, Option.map_some, same]
  · rw [store_other here]

theorem Shaped.some {m' : Blocks β} (shaped : Shaped m m') (there : m.content b = some bytes) :
    ∃ bytes', m'.content b = some bytes' ∧ bytes'.length = bytes.length := by
  have lengths := shaped.lengths b
  rw [there, Option.map_some] at lengths
  obtain ⟨bytes', there', same⟩ := Option.map_eq_some_iff.mp lengths
  exact ⟨bytes', there', same⟩

theorem Shaped.symm {m' : Blocks β} (shaped : Shaped m m') : Shaped m' m :=
  ⟨shaped.next.symm, fun b => (shaped.lengths b).symm⟩

end Blocks

variable {β : Type}

/-- `bytes` written over `content` from `at_` on. -/
def overwrite (content : List β) (at_ : Nat) (bytes : List β) : List β :=
  content.take at_ ++ bytes ++ content.drop (at_ + bytes.length)

theorem overwrite_length {content bytes : List β} {at_ : Nat}
    (room : at_ + bytes.length ≤ content.length) :
    (overwrite content at_ bytes).length = content.length := by
  simp only [overwrite, List.length_append, List.length_take, List.length_drop]
  omega

/-- One more piece is there after those that were. -/
theorem overwrite_take_end {content bytes : List β} {at_ : Nat} (room : at_ ≤ content.length) :
    (overwrite content at_ bytes).take (at_ + bytes.length) = content.take at_ ++ bytes := by
  have length : (content.take at_ ++ bytes).length = at_ + bytes.length := by
    rw [List.length_append, List.length_take, Nat.min_eq_left room]
  rw [overwrite, ← length, List.take_left]

end Memory
