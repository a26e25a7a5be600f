import BoostBase.Network.ClientSignals
import BoostBase.Network.ClientUnmanaged
import BoostBase.Transition.Progress

namespace BoostBase

open Asio Transition

/-- How far `run` has to go once its task is stopped. -/
def ClientPhase.rank : ClientPhase → Nat
  | .connecting => 4
  | .newSession _ => 3
  | .inSession _ => 2
  | .completing _ _ | .waiting => 1
  | .idle | .refused _ | .left _ => 0

namespace Client

variable {c d : Client} {managed : Bool}

/-- What the connection, the sessions, the slots and the timer do, and the stop `work`
    has posted. -/
def Action.internal : Action → Bool
  | .connectDone _ | .slotsDone | .sessionDone _ | .waitDone _ | .selfStop => true
  | .start _ | .stop | .cancel | .hold _ _ => false

/-- A posted stop costs one step, and the end of `run` posts one. -/
def rank (c : Client) : Nat := 2 * c.phase.rank + c.selfStops

/-- A stop that finds `run` in its loop cancels its coroutine. -/
structure Marked (c : Client) : Prop where
  signal : c.phase.active = true → c.task.cancellation.isSome = true
  cancelled : c.phase.active = true → c.task.state = .stopped → c.cancelled = true

theorem Marked.idle (idle : c.phase.active = false) : Marked c :=
  ⟨fun active => absurd (idle.symm.trans active) (by decide),
    fun active => absurd (idle.symm.trans active) (by decide)⟩

theorem Marked.stay (marked : Marked c) (before : c.phase.active = true) (task : d.task = c.task)
    (cancelled : d.cancelled = c.cancelled) : Marked d :=
  ⟨fun _ => task ▸ marked.signal before, fun _ stopped => cancelled ▸ marked.cancelled before (task ▸ stopped)⟩

theorem loop_marked (signal : c.task.cancellation.isSome = true)
    (cancelled : c.task.state = .stopped → c.cancelled = true) : Marked c.loop := by
  unfold loop
  split
  · split
    · exact .idle rfl
    · exact ⟨fun _ => signal, fun _ => cancelled⟩
  · exact .idle rfl

theorem pause_marked (marked : Marked c) (before : c.phase.active = true) : Marked c.pause := by
  unfold pause
  split
  · exact .idle rfl
  · exact marked.stay before rfl rfl

theorem stopBody_marked (marked : Marked c) : Marked c.stopBody := by
  unfold stopBody
  split
  · exact marked
  · rename_i task entry
    obtain ⟨_, rfl⟩ := CoroutineTask.stopEntry_some.mp entry
    exact ⟨marked.signal, fun active _ => by simp [marked.signal active]⟩

theorem marked_next (marked : Marked c) {a : Action}
    (taken : (machine managed).next c a = some d) : Marked d := by
  have active {phase : ClientPhase} (was : c.phase = phase) (inside : phase.active = true) :
      c.phase.active = true := was ▸ inside
  cases stepped taken with
  | startsAgain => exact marked
  | refuses | givesUp | handsOut | rethrows | waitAborted => exact .idle rfl
  | starts => exact loop_marked rfl fun stopped => by cases stopped
  | stops | stopsItself =>
    obtain ⟨signal, cancelled⟩ := stopBody_marked marked
    exact ⟨signal, cancelled⟩
  | cancels => exact ⟨marked.signal, fun _ _ => rfl⟩
  | holds => exact ⟨marked.signal, marked.cancelled⟩
  | connects was | entersSession was | cutsShort was | completes was =>
    exact marked.stay (active was rfl) rfl rfl
  | retries was => exact pause_marked marked (active was rfl)
  | reconnects was => exact pause_marked (marked.stay (active was rfl) rfl rfl) (active was rfl)
  | waited was => exact loop_marked (marked.signal (active was rfl)) (marked.cancelled (active was rfl))

theorem marked (reached : (machine managed).Reachable c) : Marked c :=
  reached.invariant (.idle rfl) fun _ _ _ before taken => marked_next before taken

/-- The task stays stopped, and less is left to do. -/
def Winds (c d : Client) : Prop := d.task.state = .stopped ∧ d.rank < c.rank

theorem leave_winds (stopped : c.task.state = .stopped) (inside : 0 < c.phase.rank) (e : Option Exception) :
    Winds c (c.leave e) := by
  refine ⟨(CoroutineTask.leave_state c.task).trans (if_pos stopped), ?_⟩
  have posted : (c.leave e).selfStops ≤ c.selfStops + 1 := by
    unfold leave
    dsimp only
    split <;> omega
  have left : (c.leave e).phase.rank = 0 := rfl
  rw [rank, rank, left]
  omega

theorem loop_winds (stopped : c.task.state = .stopped) (inside : 0 < c.phase.rank) : Winds c c.loop := by
  unfold loop
  rw [if_neg (by simp [CoroutineTask.running, stopped])]
  exact leave_winds stopped inside _

theorem pause_winds (stopped : c.task.state = .stopped) (cancelled : c.cancelled = true)
    (inside : 0 < c.phase.rank) : Winds c c.pause := by
  unfold pause
  rw [if_pos cancelled]
  exact leave_winds stopped inside _

theorem phase_winds (stopped : c.task.state = .stopped) {phase : ClientPhase}
    (task : d.task = c.task) (selfStops : d.selfStops = c.selfStops) (moved : d.phase = phase)
    (closer : phase.rank < c.phase.rank) : Winds c d := by
  refine ⟨task ▸ stopped, ?_⟩
  rw [rank, rank, moved, selfStops]
  omega

theorem internal_winds (marked : Marked c) (stopped : c.task.state = .stopped) {a : Action}
    (internal : a.internal = true) (taken : (machine managed).next c a = some d) : Winds c d := by
  have inside {phase : ClientPhase} (was : c.phase = phase) (before : 0 < phase.rank) : 0 < c.phase.rank :=
    was ▸ before
  have cancelled {phase : ClientPhase} (was : c.phase = phase) (active : phase.active = true) :=
    marked.cancelled (was ▸ active) stopped
  cases stepped taken with
  | startsAgain | refuses | starts | stops | cancels | holds => cases internal
  | stopsItself posted =>
    have same : c.stopBody = c := by
      unfold stopBody
      rw [CoroutineTask.stopEntry_none.mpr stopped]
    rw [same]
    refine ⟨stopped, ?_⟩
    simp only [rank]
    omega
  | connects was => exact phase_winds stopped rfl rfl rfl (was ▸ Nat.lt_succ_self 3)
  | entersSession was => exact phase_winds stopped rfl rfl rfl (was ▸ Nat.lt_succ_self 2)
  | cutsShort was => exact phase_winds stopped rfl rfl rfl (was ▸ (by decide : 1 < 3))
  | completes was => exact phase_winds stopped rfl rfl rfl (was ▸ Nat.lt_succ_self 1)
  | givesUp was | waitAborted was => exact leave_winds stopped (inside was (by decide)) _
  | handsOut was | rethrows was =>
    exact leave_winds (c := { c with frame := none }) stopped (inside was (by simp [ClientPhase.rank])) _
  | retries was => exact pause_winds stopped (cancelled was rfl) (inside was (by decide))
  | reconnects was =>
    exact pause_winds (c := { c with frame := none }) stopped (cancelled was rfl)
      (inside was (by simp [ClientPhase.rank]))
  | waited was => exact loop_winds stopped (inside was (by decide))

theorem ranked : (machine managed).Ranked
    (fun c => (machine managed).Reachable c ∧ c.task.state = .stopped) (fun a => a.internal = true) rank where
  keeps _ _ _ both internal taken :=
    ⟨both.1.step taken, (internal_winds (marked both.1) both.2 internal taken).1⟩
  falls _ _ _ both internal taken := (internal_winds (marked both.1) both.2 internal taken).2

/-- `run` is not under way, and no stop of its own is queued. -/
def AtRest (c : Client) : Prop := c.phase.active = false ∧ c.selfStops = 0

theorem atRest_iff : (machine managed).Stuck (fun a => a.internal = true) c ↔ AtRest c := by
  constructor
  · intro stuck
    have stops := stuck .selfStop rfl
    have connects := stuck (.connectDone none) rfl
    have slots := stuck .slotsDone rfl
    have ends := stuck (.sessionDone .returned) rfl
    have waits := stuck (.waitDone false) rfl
    simp only [machine] at stops connects slots ends waits
    refine ⟨?_, ?_⟩
    · cases phase : c.phase <;> simp_all [ClientPhase.active]
    · by_contra queued
      rw [if_pos (Nat.pos_of_ne_zero queued)] at stops
      cases stops
  · intro rest a internal
    obtain ⟨idle, unposted⟩ := rest
    cases a with
    | connectDone _ | slotsDone | sessionDone _ | waitDone _ =>
      cases phase : c.phase <;> simp_all [machine, ClientPhase.active]
    | selfStop => simp [machine, unposted]
    | start _ | stop | cancel | hold _ _ => cases internal

/-- A stopped client comes to rest by itself, however its connection, its session, its slots and
    its timer end and in whatever order, and is then not connected. -/
theorem stopped_rests (reached : (machine managed).Reachable c) (stopped : c.task.state = .stopped)
    {as : List Action} (internal : ∀ a ∈ as, a.internal = true) (ran : (machine managed).run c as = some d) :
    as.length ≤ c.rank ∧ ((machine managed).Stuck (fun a => a.internal = true) d ↔ AtRest d) ∧
      ∃ bs e, (∀ b ∈ bs, b.internal = true) ∧ (machine managed).run d bs = some e ∧ AtRest e ∧
        e.connected = false := by
  obtain ⟨later, bound⟩ := ranked.run_le ⟨reached, stopped⟩ internal ran
  obtain ⟨bs, e, kinds, carried, stuck⟩ := ranked.settles later
  have rest := atRest_iff.mp stuck
  have ended : (machine managed).Reachable e := later.1.trans ⟨bs, carried⟩
  refine ⟨by omega, atRest_iff, bs, e, kinds, carried, rest, ?_⟩
  have closed : e.session = none := by
    cases managed with
    | false => exact (unmanaged ended).session
    | true =>
      rw [(ok_reachable ended).session]
      cases phase : e.phase <;> simp_all [AtRest, ClientPhase.active, ClientPhase.current]
  rw [connected, closed]
  rfl

/-- The stop comes while the slots of the second `newSession` run. -/
def stoppedAnnouncing : List Action :=
  [.start none, .connectDone none, .slotsDone, .sessionDone (.threw .unknown), .slotsDone, .waitDone false,
    .connectDone none, .hold 1 true, .stop]

theorem stopped_rests_announcing : ∃ c d : Client,
    (machine true).run (machine true).initial stoppedAnnouncing = some c ∧
    (machine true).run c [.slotsDone, .slotsDone] = some d ∧ 2 ≤ c.rank ∧ c.connected = true ∧
    ∃ bs e, (∀ b ∈ bs, b.internal = true) ∧ (machine true).run d bs = some e ∧ AtRest e ∧
      e.connected = false := by
  have rests (c d : Client) (ran : (machine true).run (machine true).initial stoppedAnnouncing = some c)
      (stopped : c.task.state = .stopped) (on : (machine true).run c [.slotsDone, .slotsDone] = some d) :=
    stopped_rests ⟨stoppedAnnouncing, ran⟩ stopped (by decide) on
  obtain ⟨bound, _, carried⟩ := rests _ _ rfl rfl rfl
  exact ⟨_, _, rfl, rfl, bound, rfl, carried⟩

end Client

end BoostBase
