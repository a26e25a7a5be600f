import BoostBase.Network.ClientCourse
import BoostBase.Transition.History
import Mathlib.Data.List.Nodup

namespace BoostBase.Client

open Asio Transition

/-- The session whose `newSession` is the last event. -/
def opened (log : List ClientEvent) : Option Nat :=
  match log.getLast? with
  | some (.newSession i) => some i
  | _ => none

/-- What an event needs of the events before it: `sessionCompleted` closes the session
    that was just announced, nothing else happens while one is open, and an attempt is
    made by a running task. -/
def Adjacent (before : List ClientEvent) : ClientEvent → Prop
  | .sessionCompleted i => opened before = some i
  | .attempt state => opened before = none ∧ state = .running
  | .newSession _ | .left => opened before = none

def announced (log : List ClientEvent) : List Nat :=
  log.filterMap fun
    | .newSession i => some i
    | _ => none

structure Closed (c : Client) : Prop where
  session : c.session = none
  opened : opened c.log = none
  adjacent : Each Adjacent c.log
  announced : announced c.log = List.range c.created

structure Ok (c : Client) : Prop where
  session : c.session = c.phase.current
  owned : ∀ i, c.phase.current = some i → c.frame = some i
  opened : opened c.log = c.phase.current
  adjacent : Each Adjacent c.log
  announced : announced c.log = List.range c.created

variable {c d : Client}

theorem opened_snoc (log : List ClientEvent) (e : ClientEvent) :
    Client.opened (log ++ [e]) = match e with
      | .newSession i => some i
      | _ => none := by
  simp [Client.opened]
  cases e <;> rfl

theorem announced_snoc (log : List ClientEvent) (e : ClientEvent) :
    Client.announced (log ++ [e]) = Client.announced log ++ Client.announced [e] :=
  List.filterMap_append

theorem Ok.closed (ok : Ok c) (idle : c.phase.current = none) : Closed c :=
  ⟨ok.session.trans idle, ok.opened.trans idle, ok.adjacent, ok.announced⟩

theorem Closed.released (closed : Closed c) : Closed { c with frame := none } :=
  ⟨closed.session, closed.opened, closed.adjacent, closed.announced⟩

theorem leave_ok (closed : Closed c) (e : Option Exception) : Ok (c.leave e) where
  session := closed.session
  owned _ current := by cases current
  opened := opened_snoc c.log .left
  adjacent := each_snoc.mpr ⟨closed.adjacent, closed.opened⟩
  announced := by
    simpa [leave, note, announced_snoc, Client.announced] using closed.announced

theorem loop_ok (closed : Closed c) : Ok c.loop := by
  unfold loop
  split
  · rename_i running
    split
    · exact leave_ok closed _
    · refine ⟨closed.session, fun _ current => (by cases current), ?_, ?_, ?_⟩
      · exact opened_snoc c.log (.attempt c.task.state)
      · exact each_snoc.mpr ⟨closed.adjacent, closed.opened, of_decide_eq_true running⟩
      · simpa [note, announced_snoc, Client.announced] using closed.announced
  · exact leave_ok closed _

theorem pause_ok (closed : Closed c) : Ok c.pause := by
  unfold pause
  split
  · exact leave_ok closed _
  · exact ⟨closed.session, fun _ current => (by cases current), closed.opened, closed.adjacent,
      closed.announced⟩

theorem connect_ok (closed : Closed c) : Ok (c.connect true) where
  session := rfl
  owned _ current := current
  opened := opened_snoc c.log (.newSession c.created)
  adjacent := each_snoc.mpr ⟨closed.adjacent, closed.opened⟩
  announced := by
    change Client.announced (c.log ++ [.newSession c.created]) = List.range (c.created + 1)
    rw [announced_snoc, closed.announced, List.range_succ]
    rfl

theorem complete_ok (ok : Ok c) {i : Nat} (current : c.phase.current = some i)
    (e : Option Exception) : Ok (c.complete i e) where
  session := rfl
  owned _ other := by cases other
  opened := opened_snoc c.log (.sessionCompleted i)
  adjacent := each_snoc.mpr ⟨ok.adjacent, ok.opened.trans current⟩
  announced := by
    simpa [complete, note, announced_snoc, Client.announced] using ok.announced

theorem stopBody_ok (ok : Ok c) : Ok c.stopBody := by
  unfold stopBody
  split
  · exact ok
  · exact ⟨ok.session, ok.owned, ok.opened, ok.adjacent, ok.announced⟩

theorem ok_next (course : Course c) (ok : Ok c) {a : Action}
    (taken : (machine true).next c a = some d) : Ok d := by
  have closed {phase : ClientPhase} (was : c.phase = phase) (none : phase.current = none) : Closed c :=
    ok.closed (was ▸ none)
  cases stepped taken with
  | startsAgain => exact ok
  | refuses fresh =>
    obtain ⟨session, opened, adjacent, announced⟩ := closed (course.fresh fresh).1 rfl
    exact ⟨session, fun _ current => (by cases current), opened, adjacent, announced⟩
  | starts fresh =>
    obtain ⟨session, opened, adjacent, announced⟩ := closed (course.fresh fresh).1 rfl
    exact loop_ok ⟨session, opened, adjacent, announced⟩
  | stops | stopsItself =>
    obtain ⟨session, owned, opened, adjacent, announced⟩ := stopBody_ok ok
    exact ⟨session, owned, opened, adjacent, announced⟩
  | cancels | holds => exact ⟨ok.session, ok.owned, ok.opened, ok.adjacent, ok.announced⟩
  | connects was => exact connect_ok (closed was rfl)
  | givesUp was | waitAborted was => exact leave_ok (closed was rfl) _
  | retries was => exact pause_ok (closed was rfl)
  | handsOut _ once => cases once
  | entersSession was =>
    have current := congrArg ClientPhase.current was
    exact ⟨ok.session.trans current, fun j same => ok.owned j (current.trans same),
      ok.opened.trans current, ok.adjacent, ok.announced⟩
  | cutsShort was | completes was => exact complete_ok ok (congrArg ClientPhase.current was) _
  | rethrows was => exact leave_ok (closed was rfl).released _
  | reconnects was => exact pause_ok (closed was rfl).released
  | waited was => exact loop_ok (closed was rfl)

theorem ok_reachable (reached : (machine true).Reachable c) : Ok c := by
  have both : Course c ∧ Ok c := by
    refine reached.invariant (I := fun c => Course c ∧ Ok c) ⟨course_initial, ?_⟩ ?_
    · exact ⟨rfl, fun _ current => (by cases current), rfl, each_nil _, rfl⟩
    · exact fun c a d holds taken => ⟨course_next holds.1 taken, ok_next holds.1 holds.2 taken⟩
  exact both.2

/-- In every state a managed client reaches: its signals are paired without anything in
    between, sessions are announced once, `connected` is true exactly while a session
    is open, and `run` does not end with one open. -/
theorem signals_paired (reached : (machine true).Reachable c) :
    Each Adjacent c.log ∧ (Client.announced c.log).Nodup ∧
    Client.opened c.log = c.phase.current ∧ c.connected = c.phase.current.isSome := by
  have ok := ok_reachable reached
  refine ⟨ok.adjacent, ok.announced ▸ List.nodup_range, ok.opened, ?_⟩
  cases current : c.phase.current with
  | none => simp [connected, ok.session, current]
  | some i => simp [connected, ok.session, current, ok.owned i current]

/-- One session that throws, a failed attempt, a second session cut short by a stop. -/
theorem signals_paired_twice : ∃ c : Client,
    (machine true).Reachable c ∧
    c.log = [.attempt .running, .newSession 0, .sessionCompleted 0, .attempt .running,
      .attempt .running, .newSession 1, .sessionCompleted 1, .left] ∧
    (Client.announced c.log).Nodup := by
  have reached : (machine true).Reachable _ := ⟨[.start none, .connectDone none, .slotsDone,
    .sessionDone (.threw .unknown), .slotsDone, .waitDone false,
    .connectDone (some (.systemError .timedOut)), .waitDone false, .connectDone none, .slotsDone,
    .stop, .sessionDone .stopped, .slotsDone], rfl⟩
  exact ⟨_, reached, rfl, (signals_paired reached).2.1⟩

end BoostBase.Client
