import BoostBase.Transition.Machine
import Mathlib.Logic.Function.Basic

namespace Transition.LastOut

inductive Side
  | a
  | b
  deriving DecidableEq, Repr

namespace Side

def other : Side → Side
  | .a => .b
  | .b => .a

@[simp] theorem other_other (x : Side) : x.other.other = x := by
  cases x <;> rfl

@[simp] theorem other_ne (x : Side) : x.other ≠ x := by
  cases x <;> exact nofun

@[simp] theorem ne_other (x : Side) : x ≠ x.other := by
  cases x <;> exact nofun

theorem eq_or_other (x y : Side) : y = x ∨ y = x.other := by
  cases x <;> cases y <;> simp [other]

theorem forall_iff {p : Side → Prop} (x : Side) : (∀ y, p y) ↔ p x ∧ p x.other := by
  constructor
  · exact fun all => ⟨all x, all x.other⟩
  · rintro ⟨here, there⟩ y
    rcases eq_or_other x y with rfl | rfl
    · exact here
    · exact there

end Side

/-- Two parties leave a room. One that knows the other has left closes the door behind
    itself, one that does not sends a notice. -/
structure Room where
  out : Side → Bool
  inbox : Side → Nat
  told : Side → Bool
  closers : List Side

inductive Action
  | leave (x : Side)
  | deliver (x : Side)

def room : Machine Room Action where
  initial := ⟨fun _ => false, fun _ => 0, fun _ => false, []⟩
  next r
    | .leave x =>
      if r.out x then none
      else if r.told x then
        some { r with out := Function.update r.out x true, closers := r.closers ++ [x] }
      else
        some { r with
          out := Function.update r.out x true
          inbox := Function.update r.inbox x.other (r.inbox x.other + 1) }
    | .deliver x =>
      if 0 < r.inbox x then
        some { r with
          inbox := Function.update r.inbox x (r.inbox x - 1)
          told := Function.update r.told x true }
      else none

/-- The door is closed by at most one party, when both have left; until then each was
    told, or is being told, exactly if the other has left. -/
structure Settled (r : Room) : Prop where
  notices : ∀ x, r.inbox x + (r.told x).toNat =
    if r.out x.other = true ∧ x.other ∉ r.closers then 1 else 0
  closed : r.closers ≠ [] → ∀ x, r.out x = true
  single : r.closers.length ≤ 1

theorem Settled.open (settled : Settled r) {x : Side} (inside : r.out x = false) :
    r.closers = [] := by
  by_contra closed
  simp [settled.closed closed x] at inside

theorem settled_next {r s : Room} {a : Action} (settled : Settled r)
    (taken : room.next r a = some s) : Settled s := by
  cases a with
  | leave x =>
    simp only [room] at taken
    split at taken
    · cases taken
    · rename_i inside
      have unclosed := settled.open (x := x) (by simpa using inside)
      have here := settled.notices x
      have there := settled.notices x.other
      simp only [unclosed, List.not_mem_nil, not_false_eq_true, and_true, Side.other_other,
        inside, Bool.false_eq_true, if_false] at here there
      split at taken
      · rename_i told
        cases taken
        have gone : r.out x.other = true := by
          by_contra stays
          simp [told, stays] at here
        refine ⟨?_, fun _ => ?_, by simp [unclosed]⟩
        · rw [Side.forall_iff x]
          simp only [unclosed, List.nil_append, List.mem_singleton, Side.other_other,
            Side.other_ne, not_false_eq_true, and_true, not_true_eq_false, and_false, if_false]
          refine ⟨?_, there⟩
          simpa [gone] using here
        · rw [Side.forall_iff x]
          simpa using gone
      · rename_i untold
        cases taken
        refine ⟨?_, fun closed => absurd unclosed closed, by simp [unclosed]⟩
        rw [Side.forall_iff x]
        simp only [unclosed, List.not_mem_nil, not_false_eq_true, and_true, Side.other_other,
          Function.update_self, if_true]
        refine ⟨by simpa using here, ?_⟩
        omega
  | deliver x =>
    simp only [room] at taken
    split at taken
    · rename_i waiting
      cases taken
      refine ⟨?_, settled.closed, settled.single⟩
      intro y
      have before := settled.notices y
      by_cases same : y = x
      · subst same
        cases told : r.told y <;> simp_all
        · omega
        · split at before <;> omega
      · simpa [same] using before
    · cases taken

theorem settled {r : Room} (reached : room.Reachable r) : Settled r :=
  reached.invariant ⟨by simp [room], by simp [room], by simp [room]⟩
    fun _ _ _ kept taken => settled_next kept taken

/-- Of two parties the second closes if no notice is on its way to it. -/
theorem Settled.told_iff {r : Room} (settled : Settled r) {x : Side} (inside : r.out x = false)
    (gone : r.out x.other = true) : r.told x = true ↔ r.inbox x = 0 := by
  have notices := settled.notices x
  rw [settled.open inside] at notices
  simp only [gone, List.not_mem_nil, not_false_eq_true, and_true, if_true] at notices
  cases told : r.told x <;> simp [told] at notices ⊢ <;> omega

theorem Settled.inbox_empty {r : Room} (settled : Settled r) {x : Side}
    (there : r.out x.other = false) : r.inbox x = 0 ∧ r.told x = false := by
  have notices := settled.notices x
  simp only [there, false_and, if_false, Nat.add_eq_zero_iff, reduceCtorEq] at notices
  cases told : r.told x <;> simp [told] at notices ⊢
  exact notices

end Transition.LastOut
