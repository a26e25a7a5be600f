import BoostBase.Network.Session
import BoostBase.Network.SocketClosing

namespace BoostBase.Session

open Asio Transition Socket

variable {tcp : TCPSocket} {socket : Socket} {s t : Session} {a : Action}

/-- `run` is left before the `co_start` of the socket is entered: `prepare` throws, `run` is
    cancelled by the end of it, or the coroutine for `co_start` is given up before it begins. -/
def skipsStart (s : Session) : Action → Prop
  | .prepared failure => (failure ≠ none ∨ s.cancelled = true) ∧ s.phase = .preparing
  | .startEnds _ => s.phase = .starting none
  | _ => False

/-- `run` is left once the `co_start` of the socket was entered, and the coroutine for
    `co_close` begins before it times out. -/
def Covered (s : Session) (a : Action) (_ : Session) : Prop :=
  (s.skipsStart a → s.socket.state ≠ .initial) ∧ a ≠ .closeDropped

/-- `run` has entered the `co_start` of the socket and has not been left. -/
def entered : RunPhase → Bool
  | .starting (some _) | .working => true
  | _ => false

theorem entered_inside {phase : RunPhase} (inside : entered phase = true) : ¬ phase.isOver = true := by
  cases phase <;> simp_all [entered, RunPhase.isOver]

inductive Stepped (s : Session) : Action → Session → Prop
  | goes (a : Action) (phase : RunPhase) (cancelled : Bool) (same : phase.isOver = s.phase.isOver)
      (enters : entered phase = true → entered s.phase = true) (stays : ¬ s.skipsStart a)
      (other : a ≠ .closeDropped) : Stepped s a { s with phase := phase, cancelled := cancelled }
  | starts (inside : s.phase.isOver = false) (world : StreamWorld) :
      Stepped s (.startBegins world) (s.startSocket world)
  | leaves (a : Action) (inside : s.phase.isOver = false) (e : Option Exception)
      (exits : s.skipsStart a ∨ entered s.phase = true) (other : a ≠ .closeDropped) :
      Stepped s a (s.leave e)
  | closing (spawned : s.closer = .spawned) : Stepped s .closerRuns { s with closer := .closing }
  | closes (closing : s.closer = .closing) (world : StreamWorld) :
      Stepped s (.closeBegins world) (s.runCloser world)
  | drops (closing : s.closer = .closing) : Stepped s .closeDropped { s with closer := .finished }

theorem timeout_unbegun (timerEc : ErrorCode) :
    ∃ e, timeout timerEc (some (.systemError .operationCanceled)) = some e := by
  unfold timeout TimedInitiation.groupCompletion
  by_cases expired : timerEc = .success
  · rw [if_pos expired]
    exact ⟨_, rfl⟩
  · rw [if_neg expired]
    exact ⟨_, rfl⟩

theorem next_stepped (taken : s.next a = some t) : Stepped s a t := by
  cases a with
  | run =>
    simp only [next] at taken
    split at taken
    · rename_i created
      split at taken
      · cases taken
      · cases taken
        exact .goes .run .preparing s.cancelled (by rw [created]; rfl) (fun h => by cases h) id (by simp)
    · cases taken
  | cancel =>
    cases taken
    exact .goes .cancel s.phase true rfl id id (by simp)
  | prepared failure =>
    simp only [next] at taken
    split at taken
    · rename_i preparing
      have inside : s.phase.isOver = false := by rw [preparing]; rfl
      cases failure with
      | some e =>
        cases taken
        exact .leaves _ inside _ (.inl ⟨.inl (by simp), preparing⟩) (by simp)
      | none =>
        cases taken
        unfold await
        split
        · rename_i cancelled
          exact .leaves _ inside _ (.inl ⟨.inr cancelled, preparing⟩) (by simp)
        · rename_i live
          refine .goes _ (.starting none) s.cancelled (by rw [preparing]; rfl) (fun h => by cases h) ?_ (by simp)
          rintro ⟨fails | cancelled, _⟩
          · exact fails rfl
          · exact live cancelled
    · cases taken
  | startBegins world =>
    simp only [next] at taken
    split at taken
    · rename_i starting
      cases taken
      exact .starts (by rw [starting]; rfl) world
    · cases taken
  | startEnds timerEc =>
    simp only [next] at taken
    split at taken
    · rename_i result starting
      have inside : s.phase.isOver = false := by rw [starting]; rfl
      have exits : s.skipsStart (.startEnds timerEc) ∨ entered s.phase = true := by
        rw [starting]
        cases result with
        | none => exact .inl starting
        | some failure => exact .inr rfl
      split at taken
      · cases taken
      · split at taken
        · cases taken
          exact .leaves _ inside _ exits (by simp)
        · rename_i returned
          cases taken
          have begun : ¬ s.skipsStart (.startEnds timerEc) := by
            intro skips
            obtain rfl : result = none := by simpa using starting.symm.trans skips
            obtain ⟨e, failed⟩ := timeout_unbegun timerEc
            exact absurd (returned.symm.trans failed) (by simp)
          unfold await
          split
          · exact .leaves _ inside _ exits (by simp)
          · exact .goes _ .working s.cancelled (by rw [starting]; rfl)
              (fun _ => exits.resolve_left begun) begun (by simp)
    · cases taken
  | worked failure =>
    simp only [next] at taken
    split at taken
    · rename_i working
      cases taken
      exact .leaves _ (by rw [working]; rfl) _ (.inr (by rw [working]; rfl)) (by simp)
    · cases taken
  | closerRuns =>
    simp only [next, Option.ite_none_right_eq_some, Option.some.injEq] at taken
    obtain ⟨spawned, rfl⟩ := taken
    exact .closing spawned
  | closeBegins world =>
    simp only [next, Option.ite_none_right_eq_some, Option.some.injEq] at taken
    obtain ⟨closing, rfl⟩ := taken
    exact .closes closing world
  | closeDropped =>
    simp only [next, Option.ite_none_right_eq_some, Option.some.injEq] at taken
    obtain ⟨closing, rfl⟩ := taken
    exact .drops closing

/-- What the labels `as` have made of a session with a plain TCP socket. -/
structure Kept (tcp : TCPSocket) (socket : Socket) (as : List Action) (s : Session) : Prop where
  autoClose : s.socketAutoClose = true
  impl : s.socket.impl = .tcp tcp
  entered : entered s.phase = true → s.socket.state ≠ .initial
  unclosed : s.closer ≠ .finished → s.socket.state ≠ .closed ∧ ∀ event ∈ s.events, event.op ≠ .close
  inside : s.phase.isOver = false → s.closer = .absent ∧ (machine socket).Always Covered (.new socket) as
  outside : s.phase.isOver = true → s.closer ≠ .finished →
    s.closer ≠ .absent ∧ ((machine socket).Always Covered (.new socket) as ↔ s.socket.state ≠ .initial)
  closed : s.closer = .finished → (ClosesTcp s.events ↔ (machine socket).Always Covered (.new socket) as)

theorem startSocket_impl (impl : s.socket.impl = .tcp tcp) (world : StreamWorld) :
    (s.startSocket world).socket.impl = .tcp tcp := by
  unfold startSocket coStart enterStart
  dsimp only
  by_cases fresh : s.socket.state = .initial
  · rw [if_pos fresh]
    exact impl
  · rw [if_neg fresh]
    exact impl

theorem startSocket_unclosed (impl : s.socket.impl = .tcp tcp) (unclosed : s.socket.state ≠ .closed)
    (open_ : ∀ event ∈ s.events, event.op ≠ .close) (world : StreamWorld) :
    (s.startSocket world).socket.state ≠ .closed ∧
      ∀ event ∈ (s.startSocket world).events, event.op ≠ .close := by
  have only : s.socket.coStart.2.Only (fun op => op ≠ .close) := by
    unfold coStart enterStart
    by_cases fresh : s.socket.state = .initial
    · rw [if_pos fresh]
      simp only [impl]
      exact tcp.start_only fun _ => by simp
    · rw [if_neg fresh]
      exact trivial
  constructor
  · unfold startSocket coStart enterStart
    by_cases fresh : s.socket.state = .initial
    · simp [fresh]
    · simpa [fresh] using unclosed
  · intro event performed
    rcases List.mem_append.mp performed with before | now
    · exact open_ event before
    · exact only.run event now

theorem runCloser_impl (impl : s.socket.impl = .tcp tcp) (world : StreamWorld) :
    (s.runCloser world).socket.impl = .tcp tcp := by
  unfold runCloser coClose enterClose
  dsimp only
  by_cases started : s.socket.state = .started
  · rw [if_pos started]
    exact impl
  · rw [if_neg started]
    exact impl

theorem runCloser_closes (impl : s.socket.impl = .tcp tcp) (unclosed : s.socket.state ≠ .closed)
    (open_ : ∀ event ∈ s.events, event.op ≠ .close) (world : StreamWorld) :
    ClosesTcp (s.runCloser world).events ↔ s.socket.state ≠ .initial := by
  unfold runCloser coClose enterClose
  by_cases started : s.socket.state = .started
  · rw [if_pos started]
    simp only [impl]
    exact iff_of_true (tcpClose_closes s.events) (by simp [started])
  · rw [if_neg started]
    refine iff_of_false ?_ ?_
    · simpa using not_closesTcp open_
    · cases state : s.socket.state <;> simp_all

theorem stays_covered (stays : ¬ s.skipsStart a) (other : a ≠ .closeDropped) : Covered s a t :=
  ⟨fun skips => absurd skips stays, other⟩

theorem startSocket_entered (s : Session) (world : StreamWorld) :
    (s.startSocket world).socket.state ≠ .initial := by
  unfold startSocket coStart enterStart
  by_cases fresh : s.socket.state = .initial
  · simp [fresh]
  · simp [fresh]

theorem Kept.over {as : List Action} (kept : Kept tcp socket as s) (closer : s.closer ≠ .absent) :
    s.phase.isOver = true := by
  by_contra inside
  exact closer (kept.inside (by simpa using inside)).1

theorem kept_next {as : List Action} (ran : (machine socket).run (.new socket) as = some s)
    (kept : Kept tcp socket as s) (taken : s.next a = some t) : Kept tcp socket (as ++ [a]) t := by
  have snoc := Machine.always_taken (P := Covered) ran taken
  cases next_stepped taken with
  | goes _ phase cancelled same enters stays other =>
    have quiet := snoc.trans (and_iff_left (stays_covered stays other))
    refine ⟨kept.autoClose, kept.impl, fun inside => kept.entered (enters inside), kept.unclosed, ?_, ?_, ?_⟩
    · rw [quiet]
      exact fun inside => kept.inside (same ▸ inside)
    · rw [quiet]
      exact fun isOver => kept.outside (same ▸ isOver)
    · rw [quiet]
      exact kept.closed
  | starts inside world =>
    obtain ⟨absent, covered⟩ := kept.inside inside
    have unfinished : s.closer ≠ .finished := by simp [absent]
    obtain ⟨unclosed, open_⟩ := kept.unclosed unfinished
    have now : (machine socket).Always Covered (.new socket) (as ++ [.startBegins world]) :=
      snoc.mpr ⟨covered, stays_covered id (by simp)⟩
    exact ⟨kept.autoClose, startSocket_impl kept.impl world, fun _ => startSocket_entered s world,
      fun _ => startSocket_unclosed kept.impl unclosed open_ world, fun _ => ⟨absent, now⟩,
      fun isOver => (by cases isOver), fun finished => absurd finished unfinished⟩
  | leaves _ inside e exits other =>
    obtain ⟨absent, covered⟩ := kept.inside inside
    have left : s.leave e = { s with phase := .ended e, closer := .spawned } := by
      unfold leave
      dsimp only
      rw [if_pos kept.autoClose]
      rfl
    have unfinished : s.closer ≠ .finished := by simp [absent]
    rw [left] at snoc ⊢
    refine ⟨kept.autoClose, kept.impl, fun inside => (by cases inside), fun _ => kept.unclosed unfinished,
      fun isOver => (by cases isOver), fun _ _ => ⟨by simp, ?_⟩, fun finished => (by cases finished)⟩
    rw [snoc]
    constructor
    · rintro ⟨_, skips, _⟩
      exact exits.elim skips kept.entered
    · exact fun entered => ⟨covered, fun _ => entered, other⟩
  | closing spawned =>
    have unfinished : s.closer ≠ .finished := by simp [spawned]
    have isOver := kept.over (by simp [spawned])
    have quiet := snoc.trans (and_iff_left (stays_covered id (by simp)))
    refine ⟨kept.autoClose, kept.impl, kept.entered, fun _ => kept.unclosed unfinished, fun inside => ?_,
      fun _ _ => ⟨by simp, ?_⟩, fun finished => (by cases finished)⟩
    · rw [isOver] at inside
      cases inside
    · exact quiet.trans (kept.outside isOver unfinished).2
  | closes closing world =>
    have unfinished : s.closer ≠ .finished := by simp [closing]
    have isOver := kept.over (by simp [closing])
    have quiet := snoc.trans (and_iff_left (stays_covered id (by simp)))
    obtain ⟨unclosed, open_⟩ := kept.unclosed unfinished
    refine ⟨kept.autoClose, runCloser_impl kept.impl world, fun inside => ?_,
      fun running => absurd rfl running, fun inside => absurd (isOver.symm.trans inside) (by simp),
      fun _ running => absurd rfl running, fun _ => ?_⟩
    · exact absurd isOver (entered_inside inside)
    · rw [quiet, (kept.outside isOver unfinished).2]
      exact runCloser_closes kept.impl unclosed open_ world
  | drops closing =>
    have unfinished : s.closer ≠ .finished := by simp [closing]
    have isOver := kept.over (by simp [closing])
    refine ⟨kept.autoClose, kept.impl, kept.entered, fun running => absurd rfl running,
      fun inside => absurd (isOver.symm.trans inside) (by simp), fun _ running => absurd rfl running,
      fun _ => ?_⟩
    refine iff_of_false (not_closesTcp (kept.unclosed unfinished).2) fun all => ?_
    exact (snoc.mp all).2.2 rfl

theorem kept_initial (state : SocketState) (unclosed : state ≠ .closed) :
    Kept tcp ⟨state, .tcp tcp⟩ [] (.new ⟨state, .tcp tcp⟩) := by
  refine ⟨rfl, rfl, fun inside => (by cases inside), fun _ => ⟨unclosed, fun _ performed => ?_⟩,
    fun _ => ⟨rfl, trivial⟩, fun isOver => (by cases isOver), fun finished => (by cases finished)⟩
  cases performed

/-- Once the closing coroutine has finished, and `run` before it, the TCP stream is closed if and
    only if `run` was left after the start of the socket was entered and the closing coroutine
    did not time out before it began to close. -/
theorem auto_close_iff (tcp : TCPSocket) (state : SocketState) (unclosed : state ≠ .closed)
    (as : List Action) (s : Session)
    (ran : (machine ⟨state, .tcp tcp⟩).run (machine ⟨state, .tcp tcp⟩).initial as = some s)
    (finished : s.closer = .finished) :
    ClosesTcp s.events ↔
      (machine ⟨state, .tcp tcp⟩).Always Covered (machine ⟨state, .tcp tcp⟩).initial as := by
  have kept : Kept tcp ⟨state, .tcp tcp⟩ as s :=
    Machine.run_course (Kept tcp ⟨state, .tcp tcp⟩) (kept_initial state unclosed)
      (fun _ _ _ _ => kept_next) ran
  exact kept.closed finished

def worked : List Action :=
  [.run, .prepared none, .startBegins accepting, .startEnds .operationCanceled, .worked none,
    .closerRuns, .closeBegins accepting]

theorem auto_close_iff_worked :
    (machine ⟨.initial, .tcp .new⟩).Always Covered (machine ⟨.initial, .tcp .new⟩).initial worked := by
  obtain ⟨s, ran, finished, closes⟩ : ∃ s : Session,
      (machine ⟨.initial, .tcp .new⟩).run (machine ⟨.initial, .tcp .new⟩).initial worked = some s ∧
        s.closer = .finished ∧ ClosesTcp s.events := ⟨_, rfl, rfl, by decide⟩
  exact (auto_close_iff .new .initial (by simp) worked s ran finished).mp closes

/-- A session whose `prepare` throws ends with its connection left open. -/
theorem unprepared_left_open : ∃ s : Session,
    (machine ⟨.initial, .tcp .new⟩).run (machine ⟨.initial, .tcp .new⟩).initial
      [.run, .prepared (some .unknown), .closerRuns, .closeBegins accepting] = some s ∧
    s.phase.isOver = true ∧ s.closer = .finished ∧ s.events = [] ∧ ¬ ClosesTcp s.events := by
  refine ⟨_, rfl, rfl, rfl, rfl, ?_⟩
  exact not_closesTcp fun _ performed => by cases performed

end BoostBase.Session
