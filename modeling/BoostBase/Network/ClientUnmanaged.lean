import BoostBase.Network.ClientCourse

namespace BoostBase.Client

open Asio Transition

variable {c d : Client}

/-- What a client without a reconnect time has done, phase by phase. It does not get to its
    `assert(m_managedMode)`, and so not to the wait either. -/
def Story (log : List ClientEvent) : ClientPhase → Prop
  | .idle | .refused _ => log = []
  | .connecting => log = [.attempt .running]
  | .newSession i => i = 0 ∧ log = [.attempt .running, .newSession 0]
  | .left none => log = [.attempt .running, .newSession 0, .left]
  | .left (some _) => log = [.attempt .running, .left]
  | .inSession _ | .completing _ _ | .waiting => False

structure Unmanaged (c : Client) : Prop where
  session : c.session = none
  made : c.phase = .connecting → c.created = 0
  unmade : c.task.state = .initial → c.created = 0
  story : Story c.log c.phase

namespace Unmanaged

theorem initial : Unmanaged (machine false).initial := ⟨rfl, fun _ => rfl, fun _ => rfl, rfl⟩

theorem leave {e : Option Exception} (session : c.session = none)
    (story : Story (c.log ++ [.left]) (.left e)) : Unmanaged (c.leave e) where
  session := session
  made connecting := by cases connecting
  unmade fresh := by
    have state : (c.leave e).task.state = if c.task.state = .stopped then .stopped else .done :=
      CoroutineTask.leave_state c.task
    rw [fresh] at state
    split at state <;> cases state
  story := story

theorem stopBody (unmanaged : Unmanaged c) : Unmanaged c.stopBody := by
  unfold Client.stopBody
  split
  · exact unmanaged
  · rename_i task entry
    obtain ⟨-, rfl⟩ := CoroutineTask.stopEntry_some.mp entry
    exact ⟨unmanaged.session, unmanaged.made, fun same => (by cases same), unmanaged.story⟩

theorem starts (unmanaged : Unmanaged c) (course : Course c) (fresh : c.task.state = .initial) :
    Unmanaged (loop { c with task := ⟨.running, some ()⟩ }) := by
  obtain ⟨idle, -, live, -⟩ := course.fresh fresh
  have story : Story c.log .idle := idle ▸ unmanaged.story
  have unlogged : c.log = [] := story
  have attempt : loop { c with task := ⟨.running, some ()⟩ } =
      { note { c with task := ⟨.running, some ()⟩ } (.attempt .running) with phase := .connecting } := by
    simp [loop, CoroutineTask.running, live]
  rw [attempt]
  refine ⟨unmanaged.session, fun _ => unmanaged.unmade fresh, fun same => (by cases same), ?_⟩
  simp [Story, note, unlogged]

theorem next (unmanaged : Unmanaged c) (course : Course c) {a : Action}
    (taken : (machine false).next c a = some d) : Unmanaged d := by
  have story {phase : ClientPhase} (was : c.phase = phase) : Story c.log phase := was ▸ unmanaged.story
  cases stepped taken with
  | startsAgain => exact unmanaged
  | refuses fresh =>
    have unlogged : c.log = [] := story (course.fresh fresh).1
    exact ⟨unmanaged.session, fun connecting => (by cases connecting), fun same => (by cases same), unlogged⟩
  | starts fresh => exact unmanaged.starts course fresh
  | stops | stopsItself =>
    obtain ⟨session, made, unmade, story⟩ := unmanaged.stopBody
    exact ⟨session, made, unmade, story⟩
  | cancels | holds => exact ⟨unmanaged.session, unmanaged.made, unmanaged.unmade, unmanaged.story⟩
  | connects was =>
    have going := course.going (was ▸ rfl)
    have made := unmanaged.made was
    exact ⟨unmanaged.session, fun same => (by cases same), fun fresh => absurd fresh going.late,
      made, by simp [connect, note, show c.log = _ from story was, made]⟩
  | givesUp was => exact leave unmanaged.session (by simp [Story, show c.log = _ from story was])
  | handsOut was => exact leave unmanaged.session (by simp [Story, show c.log = _ from (story was).2])
  | retries _ again | entersSession _ again | cutsShort _ again => cases again
  | rethrows was | reconnects was | completes was | waitAborted was | waited was => cases story was

end Unmanaged

theorem unmanaged (reached : (machine false).Reachable c) : Unmanaged c := by
  have both : Course c ∧ Unmanaged c := by
    refine reached.invariant (I := fun c => Course c ∧ Unmanaged c) ⟨course_initial, .initial⟩ ?_
    exact fun _ _ _ kept taken => ⟨course_next kept.1 taken, kept.2.next kept.1 taken⟩
  exact both.2

/-- A client without a reconnect time makes one attempt. It hands out a session and ends with it,
    or throws; it completes no session, is not connected, waits for nothing and does not get
    behind its `assert`. -/
theorem unmanaged_once (reached : (machine false).Reachable c) :
    c.connected = false ∧
      (c.log <+: [.attempt .running, .newSession 0, .left] ∨ c.log = [.attempt .running, .left]) ∧
      (∀ e, c.phase = .left e → (e = none ↔ .newSession 0 ∈ c.log)) ∧
      c.phase ≠ .waiting ∧ ∀ i e, c.phase ≠ .inSession i ∧ c.phase ≠ .completing i e := by
  obtain ⟨session, -, -, story⟩ := unmanaged reached
  refine ⟨by simp [connected, session], ?_⟩
  cases phase : c.phase with
  | idle | refused e | connecting =>
    rw [phase] at story
    simp [show c.log = _ from story]
  | newSession i =>
    rw [phase] at story
    simp [show c.log = _ from story.2]
  | left e =>
    rw [phase] at story
    cases e with
    | none => simp [show c.log = _ from story]
    | some e => simp [show c.log = _ from story]
  | inSession i | completing i e | waiting =>
    rw [phase] at story
    cases story

/-- Stopped while it connects, the client still hands out its session. -/
theorem unmanaged_once_stopped : ∃ c : Client,
    (machine false).run (machine false).initial
      [.start none, .stop, .connectDone none, .slotsDone, .start none] = some c ∧
    c.connected = false ∧ .newSession 0 ∈ c.log ∧ c.phase = .left none := by
  have ran : (machine false).run (machine false).initial
      [.start none, .stop, .connectDone none, .slotsDone, .start none] = some _ := rfl
  obtain ⟨unconnected, -, ends, -⟩ := unmanaged_once ⟨_, ran⟩
  exact ⟨_, ran, unconnected, (ends none rfl).mp rfl, rfl⟩

end BoostBase.Client
