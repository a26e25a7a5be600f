import BoostBase.Network.ClientCourse

namespace BoostBase.Client

open Asio Transition

/-- `run` has left its loop only if the client was stopped or its coroutine cancelled. -/
def LeavesAsked (c : Client) : Prop := ∀ e, c.phase = .left e → c.asked = true

/-- A session that ends with `operation_canceled` does so in a client that was stopped or
    whose coroutine was cancelled, at the latest while its `sessionCompleted` runs. -/
def SessionsEndAsked (c : Client) (a : Action) (_ : Client) : Prop :=
  a = .slotsDone → ∀ i e, c.phase = .completing i (some e) → e.canceled = true → c.asked = true

variable {c d : Client}

theorem leavesAsked_of_active (active : c.phase.active = true) : LeavesAsked c := by
  intro e left
  simp [left, ClientPhase.active] at active

theorem loop_asked (going : Going c) : LeavesAsked c.loop := by
  unfold loop
  split
  · split
    · rename_i cancelled
      exact fun _ _ => going.cancelled cancelled
    · exact leavesAsked_of_active rfl
  · rename_i past
    have stopped := going.entered.resolve_left fun running => past (decide_eq_true running)
    exact fun _ _ => going.stopped stopped

theorem pause_asked (going : Going c) : LeavesAsked c.pause := by
  unfold pause
  split
  · rename_i cancelled
    exact fun _ _ => going.cancelled cancelled
  · exact leavesAsked_of_active rfl

theorem leavesAsked_iff (course : Course c) (asked : LeavesAsked c) {a : Action}
    (taken : (machine true).next c a = some d) : LeavesAsked d ↔ SessionsEndAsked c a d := by
  have going {phase : ClientPhase} (was : c.phase = phase) (active : phase.active = true) : Going c :=
    course.going (was ▸ active)
  cases stepped taken with
  | startsAgain | holds => exact iff_of_true asked fun same => (by cases same)
  | refuses => exact iff_of_true (fun _ left => by cases left) fun same => (by cases same)
  | starts fresh => exact iff_of_true (loop_asked (.started course fresh)) fun same => (by cases same)
  | stops | cancels => exact iff_of_true (fun _ _ => rfl) fun same => (by cases same)
  | stopsItself =>
    refine iff_of_true (fun e left => ?_) fun same => (by cases same)
    have before := asked e (by simpa [stopBody_phase] using left)
    unfold stopBody
    split <;> exact before
  | connects | completes =>
    exact iff_of_true (leavesAsked_of_active rfl) fun same => (by cases same)
  | givesUp was allowed last =>
    refine iff_of_true (fun _ _ => ?_) fun same => (by cases same)
    exact (going was rfl).cancelled (allowed (last rfl))
  | retries was => exact iff_of_true (pause_asked (going was rfl)) fun same => (by cases same)
  | handsOut _ once => cases once
  | entersSession was | cutsShort was =>
    refine iff_of_true (leavesAsked_of_active rfl) fun _ j e completing => ?_
    rw [was] at completing
    cases completing
  | rethrows was canceled =>
    exact ⟨fun asked _ _ _ _ _ => asked _ rfl, fun ends _ _ => ends rfl _ _ was canceled⟩
  | reconnects was other =>
    refine iff_of_true (pause_asked (going was rfl).released) fun _ j e same canceled => ?_
    obtain rfl := (ClientPhase.completing.inj (was.symm.trans same)).2
    exact absurd (canceled.symm.trans other) (by decide)
  | waitAborted was cancelled =>
    exact iff_of_true (fun _ _ => (going was rfl).cancelled cancelled) fun same => (by cases same)
  | waited was => exact iff_of_true (loop_asked (going was rfl)) fun same => (by cases same)

/-- In a run a managed client leaves its loop unasked nowhere, if and only if no session
    ends with `operation_canceled` unasked. -/
theorem reconnects_until_asked (as : List Action) :
    (machine true).Visits LeavesAsked (machine true).initial as ↔
      (machine true).Always SessionsEndAsked (machine true).initial as :=
  Machine.visits_iff_always (I := Course) (fun _ _ _ kept taken => course_next kept taken)
    (fun _ _ _ kept asked taken => leavesAsked_iff kept asked taken) course_initial
    (fun _ left => (by cases left)) as

/-- The session is stopped, the client is not, and the client is gone. -/
theorem session_stop_ends_client : ∃ c : Client,
    (machine true).run (machine true).initial
      [.start none, .connectDone none, .slotsDone, .sessionDone .stopped, .slotsDone] = some c ∧
    c.phase = .left (some (.systemError .operationCanceled)) ∧ c.asked = false ∧ ¬ LeavesAsked c := by
  refine ⟨_, rfl, rfl, rfl, fun asked => ?_⟩
  cases asked _ rfl

end BoostBase.Client
