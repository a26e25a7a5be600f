import BoostBase.Network.Client

namespace BoostBase.Client

open Asio Transition

variable {c d : Client} {managed : Bool}

inductive Stepped (managed : Bool) (c : Client) : Action → Client → Prop
  | startsAgain (late : c.task.state ≠ .initial) (address : Option Exception) :
      Stepped managed c (.start address) c
  | refuses (fresh : c.task.state = .initial) (e : Exception) :
      Stepped managed c (.start (some e)) { c with task := ⟨.done, some ()⟩, phase := .refused e }
  | starts (fresh : c.task.state = .initial) :
      Stepped managed c (.start none) (loop { c with task := ⟨.running, some ()⟩ })
  | stops : Stepped managed c .stop { c.stopBody with asked := true }
  | stopsItself (posted : 0 < c.selfStops) :
      Stepped managed c .selfStop { c.stopBody with selfStops := c.selfStops - 1 }
  | cancels (signal : c.task.cancellation.isSome = true) :
      Stepped managed c .cancel { c with cancelled := true, asked := true }
  | connects (was : c.phase = .connecting) : Stepped managed c (.connectDone none) (c.connect managed)
  | givesUp (was : c.phase = .connecting) {e : Exception} (allowed : e.canceled = true → c.cancelled = true)
      (last : managed = true → e.canceled = true) :
      Stepped managed c (.connectDone (some e)) (c.leave (some e))
  | retries (was : c.phase = .connecting) {e : Exception} (again : managed = true) :
      Stepped managed c (.connectDone (some e)) c.pause
  | handsOut {i : Nat} (was : c.phase = .newSession i) (once : managed = false) :
      Stepped managed c .slotsDone ({ c with frame := none }.leave none)
  | entersSession {i : Nat} (was : c.phase = .newSession i) (again : managed = true) :
      Stepped managed c .slotsDone { c with phase := .inSession i }
  | cutsShort {i : Nat} (was : c.phase = .newSession i) (again : managed = true) :
      Stepped managed c .slotsDone (c.complete i (some (.systemError .operationCanceled)))
  | rethrows {i : Nat} {e : Exception} (was : c.phase = .completing i (some e)) (canceled : e.canceled = true) :
      Stepped managed c .slotsDone ({ c with frame := none }.leave (some e))
  | reconnects {i : Nat} {e : Option Exception} (was : c.phase = .completing i e)
      (other : e.any Exception.canceled = false) : Stepped managed c .slotsDone { c with frame := none }.pause
  | completes {i : Nat} (was : c.phase = .inSession i) (result : SessionEnd) :
      Stepped managed c (.sessionDone result) (c.complete i result.exception)
  | waitAborted (was : c.phase = .waiting) (cancelled : c.cancelled = true) :
      Stepped managed c (.waitDone true) (c.leave (some (.systemError .operationCanceled)))
  | waited (was : c.phase = .waiting) : Stepped managed c (.waitDone false) c.loop
  | holds (i : Nat) (held : Bool) :
      Stepped managed c (.hold i held) { c with others := Function.update c.others i held }

theorem started (c : Client) (address : Option Exception) :
    Stepped managed c (.start address) (c.startBody address) := by
  unfold startBody
  split
  · rename_i refused
    refine .startsAgain (fun fresh => ?_) address
    rw [CoroutineTask.enter_ok.mpr ⟨fresh, rfl⟩] at refused
    cases refused
  · rename_i task entered
    obtain ⟨fresh, rfl⟩ := CoroutineTask.enter_ok.mp entered
    cases address with
    | none => exact .starts fresh
    | some e => exact .refuses fresh e

theorem announced_stepped {i : Nat} (was : c.phase = .newSession i) :
    Stepped managed c .slotsDone (c.enterSession managed i) := by
  unfold enterSession
  split
  · rename_i again
    split
    · exact .cutsShort was again
    · exact .entersSession was again
  · rename_i once
    exact .handsOut was ((Bool.not_eq_true _).mp once)

theorem completed_stepped {i : Nat} {e : Option Exception} (was : c.phase = .completing i e) :
    Stepped managed c .slotsDone (c.afterSession e) := by
  unfold afterSession
  dsimp only
  split
  · rename_i canceled
    obtain ⟨e, rfl, canceled⟩ := (Option.any_eq_true _ _).mp canceled
    exact .rethrows was canceled
  · rename_i other
    exact .reconnects was ((Bool.not_eq_true _).mp other)

theorem failed_stepped (was : c.phase = .connecting) {e : Exception}
    (allowed : e.canceled = true → c.cancelled = true) :
    Stepped managed c (.connectDone (some e)) (c.connectFailed managed e) := by
  unfold connectFailed
  split
  · rename_i last
    exact .givesUp was allowed fun again => by simpa [again] using last
  · rename_i other
    exact .retries was (by simp at other; exact other.2)

theorem stepped {a : Action} (taken : (machine managed).next c a = some d) : Stepped managed c a d := by
  cases a with
  | start address =>
    cases taken
    exact started c address
  | stop =>
    cases taken
    exact .stops
  | selfStop =>
    simp only [machine, Option.ite_none_right_eq_some, Option.some.injEq] at taken
    obtain ⟨posted, rfl⟩ := taken
    exact .stopsItself posted
  | cancel =>
    simp only [machine, Option.ite_none_right_eq_some, Option.some.injEq] at taken
    obtain ⟨signal, rfl⟩ := taken
    exact .cancels signal
  | connectDone failure =>
    simp only [machine] at taken
    split at taken
    · rename_i was
      cases taken
      exact .connects was
    · rename_i e was
      simp only [Option.ite_none_left_eq_some, Option.some.injEq] at taken
      obtain ⟨allowed, rfl⟩ := taken
      exact failed_stepped was (by simpa using allowed)
    · cases taken
  | slotsDone =>
    simp only [machine] at taken
    split at taken
    · rename_i i was
      cases taken
      exact announced_stepped was
    · rename_i i e was
      cases taken
      exact completed_stepped was
    · cases taken
  | sessionDone result =>
    simp only [machine] at taken
    split at taken
    · rename_i i was
      cases taken
      exact .completes was result
    · cases taken
  | waitDone aborted =>
    simp only [machine] at taken
    split at taken
    · rename_i was
      cases aborted with
      | true =>
        simp only [if_true, Option.ite_none_right_eq_some, Option.some.injEq] at taken
        obtain ⟨cancelled, rfl⟩ := taken
        exact .waitAborted was cancelled
      | false =>
        cases taken
        exact .waited was
    · cases taken
  | hold i held =>
    cases taken
    exact .holds i held

/-- Inside the loop of `run` the task is running or stopped, and it is stopped or
    cancelled only from outside. -/
structure Going (c : Client) : Prop where
  entered : c.task.state = .running ∨ c.task.state = .stopped
  cancelled : c.cancelled = true → c.asked = true
  stopped : c.task.state = .stopped → c.asked = true
  unposted : c.selfStops = 0

structure Course (c : Client) : Prop where
  going : c.phase.active = true → Going c
  fresh : c.task.state = .initial →
    c.phase = .idle ∧ c.task.cancellation = none ∧ c.cancelled = false ∧ c.selfStops = 0

theorem Going.late (going : Going c) : c.task.state ≠ .initial := by
  rcases going.entered with running | stopped <;> simp [*]

theorem Going.released (going : Going c) : Going { c with frame := none } :=
  ⟨going.entered, going.cancelled, going.stopped, going.unposted⟩

theorem leave_course (c : Client) (e : Option Exception) : Course (c.leave e) := by
  refine ⟨fun active => (by cases active), fun fresh => ?_⟩
  have state : (c.leave e).task.state = if c.task.state = .stopped then .stopped else .done :=
    CoroutineTask.leave_state c.task
  rw [fresh] at state
  split at state <;> cases state

theorem Going.course (going : Going c) : Course c :=
  ⟨fun _ => going, fun fresh => absurd fresh going.late⟩

theorem loop_course (going : Going c) : Course c.loop := by
  unfold loop
  split
  · split
    · exact leave_course _ _
    · exact Going.course ⟨going.entered, going.cancelled, going.stopped, going.unposted⟩
  · exact leave_course _ _

theorem pause_course (going : Going c) : Course c.pause := by
  unfold pause
  split
  · exact leave_course _ _
  · exact Going.course ⟨going.entered, going.cancelled, going.stopped, going.unposted⟩

theorem Going.started (course : Course c) (fresh : c.task.state = .initial) :
    Going { c with task := ⟨.running, some ()⟩ } := by
  obtain ⟨_, _, live, unposted⟩ := course.fresh fresh
  exact ⟨.inl rfl, fun cancelled => absurd cancelled (by simp [live]),
    fun stopped => (by cases stopped), unposted⟩

theorem stopBody_going (going : Going c) : Going { c.stopBody with asked := true } := by
  unfold stopBody
  split
  · exact ⟨going.entered, fun _ => rfl, fun _ => rfl, going.unposted⟩
  · rename_i task entry
    obtain ⟨_, rfl⟩ := CoroutineTask.stopEntry_some.mp entry
    exact ⟨.inr rfl, fun _ => rfl, fun _ => rfl, going.unposted⟩

theorem stopBody_phase (c : Client) : c.stopBody.phase = c.phase := by
  unfold stopBody
  split <;> rfl

theorem stopBody_late (c : Client) : c.stopBody.task.state ≠ .initial := by
  unfold stopBody
  split
  · rename_i already
    rw [CoroutineTask.stopEntry_none.mp already]
    simp
  · rename_i task entry
    obtain ⟨_, rfl⟩ := CoroutineTask.stopEntry_some.mp entry
    simp

theorem course_next (course : Course c) {a : Action} (taken : (machine managed).next c a = some d) :
    Course d := by
  have going {phase : ClientPhase} (was : c.phase = phase) (active : phase.active = true) : Going c :=
    course.going (was ▸ active)
  cases stepped taken with
  | startsAgain => exact course
  | refuses => exact ⟨fun active => (by cases active), fun same => (by cases same)⟩
  | starts fresh => exact loop_course (Going.started course fresh)
  | stops =>
    refine ⟨fun active => stopBody_going (course.going ?_), fun fresh => absurd fresh (stopBody_late c)⟩
    simpa [stopBody_phase] using active
  | stopsItself posted =>
    refine ⟨fun active => ?_, fun fresh => absurd fresh (stopBody_late c)⟩
    have going := course.going (by simpa [stopBody_phase] using active)
    simp [going.unposted] at posted
  | cancels signal =>
    refine ⟨fun active => ?_, fun fresh => ?_⟩
    · have going := course.going active
      exact ⟨going.entered, fun _ => rfl, fun _ => rfl, going.unposted⟩
    · simp [(course.fresh fresh).2.1] at signal
  | givesUp | handsOut | rethrows | waitAborted => exact leave_course _ _
  | retries was => exact pause_course (going was rfl)
  | reconnects was => exact pause_course (going was rfl).released
  | waited was => exact loop_course (going was rfl)
  | connects was | entersSession was | cutsShort was | completes was =>
    obtain ⟨entered, cancelled, stopped, unposted⟩ := going was rfl
    exact Going.course ⟨entered, cancelled, stopped, unposted⟩
  | holds =>
    exact ⟨fun active => ⟨(course.going active).entered, (course.going active).cancelled,
      (course.going active).stopped, (course.going active).unposted⟩, course.fresh⟩

theorem course_initial : Course (machine managed).initial :=
  ⟨fun active => (by cases active), fun _ => ⟨rfl, rfl, rfl, rfl⟩⟩

end BoostBase.Client
