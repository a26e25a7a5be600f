import BoostBase.Asio.Error
import BoostBase.Intrusive.LinkedList
import BoostBase.Transition.Machine
import Mathlib.Logic.Function.Basic

namespace BoostBase

open Asio Intrusive

/-- `AwaitableEvent::TOperation`: the object a waiter's slot closure keeps. -/
structure TOperation where
  finalizing : Bool
  deriving DecidableEq

/-- The members of `AwaitableEvent`, with the operation objects and the slot
    closures `co_wait` has created. Waits are told apart by `ι`. -/
structure AwaitableEvent (ι : Type) where
  isSet : Bool
  operations : LinkedList ι
  operation : ι → Option TOperation
  slot : ι → Bool

namespace AwaitableEvent

variable {ι : Type} [DecidableEq ι]

abbrev Completion (ι : Type) := ι × ErrorCode

def new : AwaitableEvent ι where
  isSet := false
  operations := .empty
  operation := fun _ => none
  slot := fun _ => false

abbrev Posting (ι : Type) := AwaitableEvent ι × List (Completion ι)

def finalize (i : ι) (ec : ErrorCode) (e : AwaitableEvent ι) : Posting ι :=
  match e.operation i with
  | none => (e, [])
  | some op =>
    if op.finalizing then (e, [])
    else ({ e with
      operations := e.operations.unlink i
      operation := Function.update e.operation i (some ⟨true⟩) }, [(i, ec)])

def withOperations (p : Posting ι) (operations : LinkedList ι) : Posting ι :=
  ({ p.1 with operations := operations }, p.2)

def dispose (op : ι) (p : Posting ι) : Posting ι :=
  ((finalize op .success p.1).1, p.2 ++ (finalize op .success p.1).2)

def set (e : AwaitableEvent ι) : Posting ι :=
  LinkedList.clearAndDispose withOperations (fun p => p.1.operations) dispose
    ({ e with isSet := true }, [])

/-- The initiation of `co_wait`. The slot closure is assigned only when the
    operation is left waiting. -/
def coWait (i : ι) (e : AwaitableEvent ι) : Posting ι :=
  let created := { e with operation := Function.update e.operation i (some ⟨false⟩) }
  if e.isSet then finalize i .success created
  else ({ created with
    operations := e.operations.pushBack i
    slot := Function.update e.slot i true }, [])

/-- Emitting a waiter's cancellation signal runs the closure in its slot. -/
def cancel (i : ι) (e : AwaitableEvent ι) : Posting ι :=
  if e.slot i then finalize i .operationCanceled e else (e, [])

/-- What every critical section leaves behind: the linked operations are those
    that still wait, each with its closure, and a set event links none. -/
structure WellFormed (e : AwaitableEvent ι) : Prop where
  linked : ∀ i, i ∈ e.operations.nodes ↔ e.operation i = some ⟨false⟩
  connected : ∀ i, e.operation i = some ⟨false⟩ → e.slot i = true
  owned : ∀ i, e.slot i = true → e.operation i ≠ none
  drained : e.isSet = true → e.operations.nodes = []

omit [DecidableEq ι] in
theorem new_wellFormed : (new : AwaitableEvent ι).WellFormed := by
  constructor <;> simp [new]

theorem finalize_waiting (i : ι) (ec : ErrorCode) (e : AwaitableEvent ι)
    (waits : e.operation i = some ⟨false⟩) :
    finalize i ec e = ({ e with
      operations := e.operations.unlink i
      operation := Function.update e.operation i (some ⟨true⟩) }, [(i, ec)]) := by
  simp [finalize, waits]

theorem finalize_idle (i : ι) (ec : ErrorCode) (e : AwaitableEvent ι)
    (idle : e.operation i ≠ some ⟨false⟩) : finalize i ec e = (e, []) := by
  unfold finalize
  split
  · rfl
  · rename_i op same
    obtain ⟨_ | _⟩ := op
    · exact absurd same idle
    · rfl

structure Walking (e : AwaitableEvent ι) (rest : List ι) (p : Posting ι) : Prop where
  isSet : p.1.isSet = true
  slot : p.1.slot = e.slot
  nodes : p.1.operations.nodes = rest
  operation : ∀ i, p.1.operation i =
    if i ∈ e.operations.nodes ∧ i ∉ rest then some ⟨true⟩ else e.operation i
  posted : e.operations.nodes.map (·, ErrorCode.success) = p.2 ++ rest.map (·, ErrorCode.success)

theorem walking_set {e : AwaitableEvent ι} (wf : e.WellFormed) : Walking e [] e.set := by
  apply LinkedList.clearAndDispose_rule (I := Walking e)
  · intro i rest p walking
    have unlinked : i ∉ rest := (List.nodup_cons.mp (walking.nodes ▸ p.1.operations.nodup)).1
    have member : i ∈ e.operations.nodes := by
      have first : (i, ErrorCode.success) ∈ e.operations.nodes.map (·, ErrorCode.success) := by
        rw [walking.posted]
        simp
      simpa using first
    have waits : p.1.operation i = some ⟨false⟩ := by
      rw [walking.operation i]
      simpa using (wf.linked i).mp member
    have visited := finalize_waiting i .success
      (withOperations p (p.1.operations.unlink i)).1 waits
    unfold dispose
    rw [visited]
    refine ⟨walking.isSet, walking.slot, by simp [withOperations, walking.nodes, unlinked], ?_, ?_⟩
    · intro j
      by_cases same : j = i
      · subst same
        simp [member, unlinked]
      · simp [withOperations, same, walking.operation j]
    · simp [withOperations, walking.posted]
  · intro p walking
    exact ⟨walking.isSet, walking.slot, rfl, walking.operation, walking.posted⟩
  · exact ⟨rfl, rfl, rfl, by simp, by simp⟩

theorem set_posted {e : AwaitableEvent ι} (wf : e.WellFormed) :
    e.set.2 = e.operations.nodes.map (·, ErrorCode.success) := by
  simpa using (walking_set wf).posted.symm

theorem set_operation {e : AwaitableEvent ι} (wf : e.WellFormed) (i : ι) :
    e.set.1.operation i = if i ∈ e.operations.nodes then some ⟨true⟩ else e.operation i := by
  simpa using (walking_set wf).operation i

theorem set_wellFormed {e : AwaitableEvent ι} (wf : e.WellFormed) : e.set.1.WellFormed := by
  have walked := walking_set wf
  have none_waits (i : ι) : e.set.1.operation i ≠ some ⟨false⟩ := by
    rw [set_operation wf i]
    split
    · simp
    · rename_i unlinked
      exact fun waits => unlinked ((wf.linked i).mpr waits)
  refine ⟨?_, ?_, ?_, fun _ => walked.nodes⟩
  · intro i
    simp [walked.nodes, none_waits i]
  · exact fun i waits => absurd waits (none_waits i)
  · intro i connected
    rw [walked.slot] at connected
    rw [set_operation wf i]
    split
    · simp
    · exact wf.owned i connected

theorem coWait_of_set (i : ι) {e : AwaitableEvent ι} (isSet : e.isSet = true) :
    e.coWait i = ({ e with
      operations := e.operations.unlink i
      operation := Function.update e.operation i (some ⟨true⟩) }, [(i, .success)]) := by
  simp [coWait, isSet, finalize]

theorem coWait_of_unset (i : ι) {e : AwaitableEvent ι} (unset : e.isSet = false) :
    e.coWait i = ({ e with
      operations := e.operations.pushBack i
      operation := Function.update e.operation i (some ⟨false⟩)
      slot := Function.update e.slot i true }, []) := by
  simp [coWait, unset]

theorem WellFormed.change {i : ι} {e e' : AwaitableEvent ι} (wf : e.WellFormed)
    (links : ∀ j, j ≠ i → (j ∈ e'.operations.nodes ↔ j ∈ e.operations.nodes))
    (operation : ∀ j, j ≠ i → e'.operation j = e.operation j)
    (slot : ∀ j, j ≠ i → e'.slot j = e.slot j)
    (linked : i ∈ e'.operations.nodes ↔ e'.operation i = some ⟨false⟩)
    (connected : e'.operation i = some ⟨false⟩ → e'.slot i = true)
    (owned : e'.slot i = true → e'.operation i ≠ none)
    (drained : e'.isSet = true → e'.operations.nodes = []) : e'.WellFormed := by
  refine ⟨fun j => ?_, fun j => ?_, fun j => ?_, drained⟩
  all_goals by_cases same : j = i
  · rw [same, linked]
  · rw [links j same, operation j same, wf.linked j]
  · rw [same]
    exact connected
  · rw [operation j same, slot j same]
    exact wf.connected j
  · rw [same]
    exact owned
  · rw [slot j same, operation j same]
    exact wf.owned j

theorem coWait_wellFormed {i : ι} {e : AwaitableEvent ι} (wf : e.WellFormed)
    (fresh : e.operation i = none) : (e.coWait i).1.WellFormed := by
  have unlinked : i ∉ e.operations.nodes := by simp [wf.linked, fresh]
  cases isSet : e.isSet with
  | true =>
    rw [coWait_of_set i isSet, LinkedList.unlink_of_not_mem unlinked]
    refine wf.change (fun j _ => Iff.rfl) (fun j other => Function.update_of_ne other _ _)
      (fun j _ => rfl) ?_ ?_ ?_ fun _ => wf.drained isSet
    · simp [unlinked]
    · simp
    · simp
  | false =>
    rw [coWait_of_unset i isSet]
    refine wf.change (fun j other => ?_) (fun j other => Function.update_of_ne other _ _)
      (fun j other => Function.update_of_ne other _ _) ?_ ?_ ?_ ?_
    · simp [LinkedList.pushBack_nodes unlinked, other]
    · simp [LinkedList.pushBack_nodes unlinked]
    · simp
    · simp
    · exact fun drained => absurd drained (by simp [isSet])

theorem cancel_waiting {i : ι} {e : AwaitableEvent ι} (wf : e.WellFormed)
    (waits : e.operation i = some ⟨false⟩) :
    e.cancel i = ({ e with
      operations := e.operations.unlink i
      operation := Function.update e.operation i (some ⟨true⟩) }, [(i, .operationCanceled)]) := by
  simp [cancel, wf.connected i waits, finalize_waiting i _ e waits]

theorem cancel_idle {i : ι} {e : AwaitableEvent ι} (idle : e.operation i ≠ some ⟨false⟩) :
    e.cancel i = (e, []) := by
  unfold cancel
  split
  · exact finalize_idle i _ e idle
  · rfl

theorem cancel_wellFormed {e : AwaitableEvent ι} (wf : e.WellFormed) (i : ι) :
    (e.cancel i).1.WellFormed := by
  by_cases waits : e.operation i = some ⟨false⟩
  · rw [cancel_waiting wf waits]
    refine wf.change (fun j other => ?_) (fun j other => Function.update_of_ne other _ _)
      (fun j _ => rfl) ?_ ?_ ?_ ?_
    · rw [LinkedList.mem_unlink]
      simp [other]
    · rw [LinkedList.mem_unlink]
      simp
    · simp
    · simp
    · exact fun isSet => by simp [wf.drained isSet]
  · rw [cancel_idle waits]
    exact wf

end AwaitableEvent

end BoostBase
