import BoostBase.Transition.Machine
import Mathlib.Data.List.Nodup
import Mathlib.Data.Set.Insert

namespace Transition.FifoMatching

variable {γ ρ : Type*}

def Precedes {α : Type*} (l : List α) (a b : α) : Prop := [a, b].Sublist l

theorem precedes_or {α : Type*} {l : List α} {a b : α} (left : a ∈ l) (right : b ∈ l)
    (different : a ≠ b) : Precedes l a b ∨ Precedes l b a := by
  obtain ⟨before, after, rfl⟩ := List.append_of_mem left
  rcases List.mem_append.mp right with earlier | later
  · right
    exact (List.singleton_sublist.mpr earlier).append
      (List.singleton_sublist.mpr List.mem_cons_self)
  · left
    have behind : b ∈ after := by simpa [different.symm] using later
    exact ((List.singleton_sublist.mpr behind).cons_cons a).trans (List.sublist_append_right _ _)

theorem Precedes.asymm {α : Type*} {l : List α} {a b : α} (nodup : l.Nodup)
    (forward : Precedes l a b) : ¬ Precedes l b a := by
  induction l with
  | nil => simp [Precedes] at forward
  | cons c l ih =>
    obtain ⟨fresh, rest⟩ := List.nodup_cons.mp nodup
    intro backward
    cases forward with
    | cons _ forward =>
      cases backward with
      | cons _ backward => exact ih rest forward backward
      | cons_cons _ backward => exact fresh (forward.subset (by simp))
    | cons_cons _ forward =>
      cases backward with
      | cons _ backward => exact fresh (backward.subset (by simp))
      | cons_cons _ backward => exact fresh (forward.subset (by simp))

theorem Precedes.map {α β : Type*} {l : List α} {a b : α} (f : α → β) (forward : Precedes l a b) :
    Precedes (l.map f) (f a) (f b) := List.Sublist.map f forward

theorem Precedes.filter {α : Type*} {l : List α} {a b : α} (p : α → Bool) (forward : Precedes l a b)
    (left : p a = true) (right : p b = true) : Precedes (l.filter p) a b := by
  simpa [Precedes, left, right] using List.Sublist.filter p forward

/-- A sublist without repetition is what is left of the list by membership. -/
theorem sublist_eq_filter {α : Type*} {s l : List α} (sub : s.Sublist l) (nodup : l.Nodup)
    (p : α → Bool) (same : ∀ a ∈ l, p a = true ↔ a ∈ s) : s = l.filter p := by
  induction sub with
  | slnil => rfl
  | @cons s l a sub ih =>
    obtain ⟨fresh, rest⟩ := List.nodup_cons.mp nodup
    have dropped : p a = false := by
      rw [← Bool.not_eq_true, same a List.mem_cons_self]
      exact fun member => fresh (sub.subset member)
    rw [List.filter_cons_of_neg (by simp [dropped])]
    exact ih rest fun b member => same b (List.mem_cons_of_mem a member)
  | @cons_cons s l a sub ih =>
    obtain ⟨fresh, rest⟩ := List.nodup_cons.mp nodup
    rw [List.filter_cons_of_pos ((same a List.mem_cons_self).mpr List.mem_cons_self)]
    refine congrArg (a :: ·) (ih rest fun b member => ?_)
    have other : b ≠ a := fun equal => fresh (equal ▸ member)
    simpa [other] using same b (List.mem_cons_of_mem a member)

/-- Clients that arrive, wait in line and are served in turn, or depart unserved.
    Everything but `waiting` is history. -/
structure Board (γ ρ : Type*) where
  arrived : List γ
  waiting : List γ
  served : List (γ × ρ)
  departed : Set γ

inductive Action (γ ρ : Type*)
  | arrive (client : γ)
  | depart (client : γ)
  | serve (with_ : ρ)

variable [DecidableEq γ]

def board : Machine (Board γ ρ) (Action γ ρ) where
  initial := ⟨[], [], [], ∅⟩
  next b
    | .arrive g =>
      if g ∈ b.arrived then none
      else some { b with
        arrived := b.arrived ++ [g]
        waiting := b.waiting ++ [g]
        departed := b.departed \ {g} }
    | .depart g => some { b with
        waiting := b.waiting.erase g
        departed := insert g b.departed }
    | .serve r =>
      match b.waiting with
      | [] => none
      | g :: rest => some { b with waiting := rest, served := b.served ++ [(g, r)] }

structure InLine (b : Board γ ρ) : Prop where
  distinct : b.arrived.Nodup
  order : (b.served.map Prod.fst ++ b.waiting).Sublist b.arrived
  waits : ∀ g, g ∈ b.waiting ↔ g ∈ b.arrived ∧ g ∉ b.served.map Prod.fst ∧ g ∉ b.departed

theorem inLine_next {b c : Board γ ρ} {a : Action γ ρ} (line : InLine b)
    (taken : board.next b a = some c) : InLine c := by
  have nodup := line.distinct.sublist line.order
  cases a with
  | arrive g =>
    simp only [board] at taken
    split at taken
    · cases taken
    · rename_i fresh
      cases taken
      have unserved : g ∉ b.served.map Prod.fst :=
        fun member => fresh (line.order.subset (List.mem_append_left _ member))
      refine ⟨?_, ?_, ?_⟩
      · simpa [List.nodup_append, line.distinct] using fun h member => by
          intro same
          subst same
          exact fresh member
      · rw [← List.append_assoc]
        exact line.order.append_right [g]
      · intro h
        by_cases same : h = g
        · subst same
          simpa using unserved
        · simp [same, line.waits h]
  | depart g =>
    cases taken
    refine ⟨line.distinct, ((List.erase_sublist).append_left _).trans line.order, ?_⟩
    intro h
    rw [List.Nodup.mem_erase_iff (List.nodup_append.mp nodup).2.1, line.waits h, Set.mem_insert_iff]
    tauto
  | serve r =>
    simp only [board] at taken
    split at taken
    · cases taken
    · rename_i g rest front
      cases taken
      have order := line.order
      rw [front] at order nodup
      refine ⟨line.distinct, by simpa using order, ?_⟩
      intro h
      have before := line.waits h
      rw [front] at before
      have unserved : g ∉ b.served.map Prod.fst ∧ g ∉ rest := by
        rw [List.nodup_append] at nodup
        exact ⟨fun member => nodup.2.2 g member g List.mem_cons_self rfl,
          (List.nodup_cons.mp nodup.2.1).1⟩
      by_cases same : h = g
      · subst same
        simpa using unserved.2
      · rw [List.mem_cons, or_iff_right same] at before
        rw [before, List.map_append, List.mem_append]
        simp [same]

theorem inLine {b : Board γ ρ} (reached : board.Reachable b) : InLine b :=
  reached.invariant ⟨List.nodup_nil, List.nil_sublist _, by simp [board]⟩
    fun _ _ _ => inLine_next

omit [DecidableEq γ] in
/-- The line is the arrivals that were neither served nor have departed. -/
theorem InLine.waiting_eq {b : Board γ ρ} (line : InLine b) (p : γ → Bool)
    (same : ∀ g ∈ b.arrived, p g = true ↔ g ∉ b.served.map Prod.fst ∧ g ∉ b.departed) :
    b.waiting = b.arrived.filter p := by
  apply sublist_eq_filter ((List.sublist_append_right _ _).trans line.order) line.distinct p
  intro g member
  rw [same g member, line.waits g]
  exact ⟨fun unserved => ⟨member, unserved⟩, fun waiting => waiting.2⟩

omit [DecidableEq γ] in
theorem InLine.served_once {b : Board γ ρ} (line : InLine b) : (b.served.map Prod.fst).Nodup :=
  (List.nodup_append.mp (line.distinct.sublist line.order)).1

omit [DecidableEq γ] in
theorem InLine.served_in_order {b : Board γ ρ} (line : InLine b) {g h : γ} {q r : ρ}
    (arrived : Precedes b.arrived g h) (first : (g, q) ∈ b.served) (second : (h, r) ∈ b.served) :
    Precedes b.served (g, q) (h, r) := by
  have different : g ≠ h := by
    intro same
    subst same
    exact arrived.asymm line.distinct arrived
  have pairs : (g, q) ≠ (h, r) := fun same => different (congrArg Prod.fst same)
  refine (precedes_or first second pairs).resolve_right fun backward => ?_
  have served := (backward.map Prod.fst).trans (List.sublist_append_left _ b.waiting)
  exact arrived.asymm line.distinct (served.trans line.order)

end Transition.FifoMatching
