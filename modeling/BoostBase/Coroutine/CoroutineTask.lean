import BoostBase.Asio.Error

namespace BoostBase

open Asio

inductive TaskState
  | initial
  | running
  | done
  | stopped
  deriving DecidableEq, Repr

def TaskState.rank : TaskState → Nat
  | .initial => 0
  | .running => 1
  | .done => 2
  | .stopped => 3

/-- `m_state` and `m_cancellation`; `κ` names cancellation signals. -/
structure CoroutineTask (κ : Type) where
  state : TaskState
  cancellation : Option κ

namespace CoroutineTask

variable {κ : Type}

def new : CoroutineTask κ := ⟨.initial, none⟩

def running (t : CoroutineTask κ) : Bool := t.state = .running

/-- `work` up to the call of `run`. -/
def enter (cancel : κ) (t : CoroutineTask κ) : Except Exception (CoroutineTask κ) :=
  if t.state ≠ .initial then .error (.systemError .stateNotRecoverable)
  else .ok { state := .running, cancellation := some cancel }

/-- The scope guard of `work`. -/
def leave (t : CoroutineTask κ) : CoroutineTask κ :=
  if t.state ≠ .stopped then { t with state := .done } else t

/-- The body of `co_stop` up to `onStop`; `none` when the task is stopped already. -/
def stopEntry (t : CoroutineTask κ) : Option (CoroutineTask κ) :=
  if t.state = .stopped then none else some { t with state := .stopped }

theorem enter_initial {cancel : κ} {t : CoroutineTask κ} (fresh : t.state = .initial) :
    t.enter cancel = .ok ⟨.running, some cancel⟩ := by
  simp [enter, fresh]

theorem enter_late {cancel : κ} {t : CoroutineTask κ} (late : t.state ≠ .initial) :
    t.enter cancel = .error (.systemError .stateNotRecoverable) := by
  simp [enter, late]

theorem enter_ok {cancel : κ} {t u : CoroutineTask κ} :
    t.enter cancel = .ok u ↔ t.state = .initial ∧ u = ⟨.running, some cancel⟩ := by
  unfold enter
  split
  · simp_all
  · simp_all [eq_comm]

@[simp] theorem leave_cancellation (t : CoroutineTask κ) : t.leave.cancellation = t.cancellation := by
  unfold leave
  split <;> rfl

theorem leave_state (t : CoroutineTask κ) :
    t.leave.state = if t.state = .stopped then .stopped else .done := by
  unfold leave
  split <;> simp_all

theorem stopEntry_none {t : CoroutineTask κ} : t.stopEntry = none ↔ t.state = .stopped := by
  simp [stopEntry]

theorem stopEntry_some {t u : CoroutineTask κ} :
    t.stopEntry = some u ↔ t.state ≠ .stopped ∧ u = ⟨.stopped, t.cancellation⟩ := by
  simp [stopEntry, eq_comm]

end CoroutineTask

end BoostBase
