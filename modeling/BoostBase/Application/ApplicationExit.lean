import BoostBase.Application.ApplicationInvariant

namespace BoostBase.Application

open Asio Text Transition

variable {s t : Application} {threadNum : Int}

def entersExit (s : Application) : Action → Bool
  | .exit _ _ _ => s.exit = .queued
  | _ => false

@[simp] theorem log_exit (s : Application) (now : LocalTime) (msg : List Byte) :
    (s.log now msg).exit = s.exit := by
  unfold log
  dsimp only
  split
  · rfl
  · split <;> rfl

@[simp] theorem log_oneExit (s : Application) (now : LocalTime) (msg : List Byte) :
    (s.log now msg).oneExit = s.oneExit := by
  unfold log
  dsimp only
  split
  · rfl
  · split <;> rfl

theorem logAll_keeps {β : Type*} {part : Application → β}
    (kept : ∀ (s : Application) now msg, part (s.log now msg) = part s) (s : Application) (now : LocalTime)
    (msgs : List (List Byte)) : part (s.logAll now msgs) = part s := by
  induction msgs generalizing s with
  | nil => rfl
  | cons msg msgs ih => exact (ih (s.log now msg)).trans (kept s now msg)

@[simp] theorem logAll_exit (s : Application) (now : LocalTime) (msgs : List (List Byte)) :
    (s.logAll now msgs).exit = s.exit := logAll_keeps log_exit s now msgs

@[simp] theorem logAll_oneExit (s : Application) (now : LocalTime) (msgs : List (List Byte)) :
    (s.logAll now msgs).oneExit = s.oneExit := logAll_keeps log_oneExit s now msgs

@[simp] theorem thrown_exit (s : Application) (on : AppThread) (now : LocalTime) (e : AppException) :
    (s.thrown on now e).exit = s.exit := by
  cases on with
  | main => cases e <;> simp [thrown, execThrows]
  | pool => rfl

@[simp] theorem thrown_oneExit (s : Application) (on : AppThread) (now : LocalTime) (e : AppException) :
    (s.thrown on now e).oneExit = s.oneExit := by
  cases on with
  | main => cases e <;> simp [thrown, execThrows]
  | pool => rfl

@[simp] theorem destroyMembers_exit (s : Application) : s.destroyMembers.exit = s.exit := by
  unfold destroyMembers
  dsimp only
  split <;> split <;> simp

@[simp] theorem destroyMembers_oneExit (s : Application) : s.destroyMembers.oneExit = s.oneExit := by
  unfold destroyMembers
  dsimp only
  split <;> split <;> simp

/-- The main thread neither asks for the exit nor runs it. -/
theorem Executed.exit (executed : Executed threadNum s t) : t.exit = s.exit ∧ t.oneExit = s.oneExit := by
  cases executed <;> simp [onLogger, onPool]

theorem callOnExit_exit (io : Io s) :
    s.callOnExit.oneExit = true ∧ s.callOnExit.exit.entered = s.exit.entered := by
  unfold callOnExit
  split
  · exact ⟨‹_›, rfl⟩
  · rename_i unset
    have unasked := io.asked (by simpa using unset)
    unfold onExitRequest
    split
    · exact ⟨rfl, rfl⟩
    · rw [unasked]
      exact ⟨rfl, rfl⟩

theorem exit_next (io : Io s) {a : Action} (taken : (machine threadNum).next s a = some t) :
    t.exit.entered = (s.exit.entered || entersExit s a) ∧ t.oneExit = (s.oneExit || a.asks) := by
  cases (stepped taken).2 with
  | exec env executed =>
    obtain ⟨exit, oneExit⟩ := executed.exit
    simp [exit, oneExit, entersExit, Action.asks]
  | asks asks =>
    obtain ⟨oneExit, exit⟩ := callOnExit_exit io
    have other : entersExit s a = false := by cases a <;> first | rfl | cases asks
    simp [exit, oneExit, other, asks]
  | exitBegins was | exits was | exitFails was | stopsLogger was | exitEnds was =>
    simp [was, entersExit, Action.asks, ExitHandler.entered, onLogger, onPool]
  | ticks => simp [entersExit, Action.asks, onLogger]
  | logs | posts | taskEnds | taskFails | loggerRuns | returns => simp [entersExit, Action.asks]

/-- The exit logic finds `ThreadPool::run` called and `m_logger` started: a thread is in
    `m_io.run()`. -/
def EntersServed (s : Application) (a : Action) (_ : Application) : Prop :=
  entersExit s a = true → (∃ on, s.free on = true) ∧ s.phase.early = false ∧
    ∃ l, s.logger = some l ∧ l.Started

theorem entersServed (ok : Ok s) {a : Action} (taken : (machine threadNum).next s a = some t) :
    EntersServed s a t := by
  intro enters
  obtain ⟨alive, stepped⟩ := stepped taken
  cases stepped with
  | exitBegins was free =>
    have serving := ok.serving free
    exact ⟨⟨_, free⟩, serving.late, serving.begun alive⟩
  | exits was | exitFails was | stopsLogger was | exitEnds was => simp [entersExit, was] at enters
  | asks asks => cases a <;> first | cases enters | cases asks
  | exec | logs | posts | taskEnds | taskFails | loggerRuns | ticks | returns => cases enters

/-- However many signals and calls of `quit` there are, the exit logic runs once at most, and
    not before a thread of the pool is there to run it. -/
theorem exits_once {as : List Action}
    (ran : (machine threadNum).run (machine threadNum).initial as = some s) :
    (machine threadNum).tally entersExit (machine threadNum).initial as =
        (if s.exit.entered then 1 else 0) ∧
      (s.oneExit = true ↔ ∃ a ∈ as, a.asks = true) ∧
      (machine threadNum).Always EntersServed (machine threadNum).initial as := by
  refine ⟨?_, ?_, Machine.always_of_invariant (fun _ _ _ before taken => ok_next before taken)
    (fun _ _ _ before taken => entersServed before taken) ok_initial as⟩
  · refine Machine.run_course (m := machine threadNum) (fun as s =>
      (machine threadNum).tally entersExit (machine threadNum).initial as =
        if s.exit.entered then 1 else 0) rfl (fun as s a t ran count taken => ?_) ran
    have after := (exit_next (ok ⟨as, ran⟩).io taken).1
    rw [Machine.tally_snoc ran taken, count, after]
    cases enters : entersExit s a with
    | false => simp
    | true =>
      have queued : s.exit = .queued := by
        cases a <;> first | exact of_decide_eq_true enters | cases enters
      simp [queued, ExitHandler.entered]
  · refine Machine.run_course (m := machine threadNum) (fun as s =>
      s.oneExit = true ↔ ∃ a ∈ as, a.asks = true) (by simp [machine, new])
      (fun as s a t ran asked taken => ?_) ran
    rw [(exit_next (ok ⟨as, ran⟩).io taken).2, Bool.or_eq_true, asked]
    simp [or_and_right, exists_or]

def noon : LocalTime := ⟨12, 0, 0, 0⟩

def calm : MainEnv := ⟨noon, .config, .ok true, .ok true, .ok ()⟩

def interrupted : List Action :=
  List.replicate 6 (.exec calm) ++ [.signal .int] ++ List.replicate 5 (.exec calm) ++
    [.signal .term, .log noon [79, 75], .logger] ++ List.replicate 4 (.exit .pool noon (.ok ())) ++
    [.logger, .logger, .logger, .threadReturns] ++ List.replicate 3 (.exec calm)

theorem exits_once_interrupted : ∃ s, (machine 1).run (machine 1).initial interrupted = some s ∧
    (machine 1).tally entersExit (machine 1).initial interrupted = 1 ∧ s.phase = .left .ran := by
  have ran : (machine 1).run (machine 1).initial interrupted = some _ := rfl
  exact ⟨_, ran, (exits_once ran).1, rfl⟩

/-- What is true once `m_io.run()` has returned on the main thread: the exit logic was run to its
    end, nothing the program gave to the pool is left, and the logger was stopped and sleeps no
    more. -/
structure Settled (s : Application) : Prop where
  exit : s.exit = .done
  tasks : s.tasks = 0
  logger : ∃ l, s.logger = some l ∧ l.task.state = .stopped ∧ l.strand = [] ∧ l.phase ≠ .waiting
  pool : ∃ p, s.threadPool = some p ∧ p.workGuard = false ∧ (s.phase.joined = true → p.threads = 0 ∧ p.inside = 0)

/-- The work guard keeps the pool until the exit logic has run, so that `exec` comes back from it
    only then. -/
theorem settled_of_drained (reached : (machine threadNum).Reachable s)
    (drained : s.phase.drained = true) : Settled s := by
  obtain ⟨io, placed⟩ := ok reached
  obtain ⟨p, pool, stopped⟩ := (Option.any_eq_true _ _).mp (placed.drained drained)
  have alive : s.phase.alive = true := by
    cases h : s.phase <;> simp_all [MainPhase.drained, MainPhase.alive]
  have spawned : s.phase.spawned = true := by
    cases h : s.phase <;> simp_all [MainPhase.drained, MainPhase.spawned]
    all_goals rename_i e; cases e <;> simp_all
  obtain ⟨done, tasks, unheld⟩ := io.stopped p pool stopped
  obtain ⟨l, logger, -⟩ := placed.started alive (.inl spawned)
  rw [logger, Option.any_some] at unheld
  simp only [LoggerTask.held, Bool.or_eq_false_iff, Bool.not_eq_false', List.isEmpty_iff,
    decide_eq_false_iff_not] at unheld
  obtain ⟨empty, awake⟩ := unheld
  refine ⟨done, tasks, ⟨l, logger, ?_, empty, awake⟩, ⟨p, pool, (io.guard p pool).mpr done, fun joined => ?_⟩⟩
  · have told := io.told (by rw [done]; rfl) l logger
    exact told.resolve_left (by simp [empty])
  · have threads := placed.joined joined p pool
    have inside := io.inside p pool
    exact ⟨threads, by omega⟩

theorem settled_of_drained_interrupted : ∃ s, (machine 1).run (machine 1).initial interrupted = some s ∧
    Settled s := by
  have ran : (machine 1).run (machine 1).initial interrupted = some _ := rfl
  exact ⟨_, ran, settled_of_drained ⟨_, ran⟩ rfl⟩

/-- An exit that is asked for first finds the pool made. -/
def AsksLate (s : Application) (a : Action) (_ : Application) : Prop :=
  a.asks = true → s.oneExit = true ∨ s.threadPool.isSome = true

theorem asksLate_of_asks {a : Action} (asks : a.asks = true) :
    AsksLate s a t ↔ s.oneExit = true ∨ s.threadPool.isSome = true := forall_prop_of_true asks

def Sound (s : Application) : Prop := s.phase ≠ .crashed

instance (s : Application) : Decidable s.Sound := inferInstanceAs (Decidable (_ ≠ _))

theorem SameControl.sound (same : SameControl s t) (sound : Sound s) : Sound t := by
  unfold Sound
  rw [same.phase]
  exact sound

theorem leave_sound (current : s.currentLogger = .asyncLogger → s.logger.isSome = true) (e : ExecExit)
    (now : LocalTime) (msgs : List (List Byte)) : Sound ({ s with phase := .left e }.logAll now msgs) :=
  (logAll_sameControl (s := { s with phase := .left e }) current now msgs).sound (by simp [Sound])

theorem thrown_sound (current : s.currentLogger = .asyncLogger → s.logger.isSome = true)
    (on : AppThread) (now : LocalTime) (e : AppException) : Sound (s.thrown on now e) := by
  cases on with
  | main =>
    obtain ⟨exit, msgs, -, -, same⟩ := execThrows_eq s now e
    rw [show s.thrown .main now e = _ from same]
    exact leave_sound current exit now msgs
  | pool => simp [Sound, thrown]

theorem destroyMembers_sound (s : Application) : Sound s.destroyMembers := by
  unfold destroyMembers Sound
  dsimp only
  split <;> split <;> simp

theorem Executed.sound (placed : Placed s) (sound : Sound s) (executed : Executed threadNum s t) :
    Sound t := by
  cases executed with
  | goesOn next =>
    rename_i phase
    rintro (rfl : phase = .crashed)
    cases was : s.phase <;> simp [was, MainPhase.following] at next
  | leaves _ _ _ now msgs => exact leave_sound placed.current _ now msgs
  | makesThread => exact sound
  | destroys => exact destroyMembers_sound s
  | makesPool | makesLogger | setsLogger | startsLogger | runs | ranOut | stopsPool | joins | resets =>
    simp [Sound]

theorem callOnExit_sound (sound : Sound s) :
    Sound s.callOnExit ↔ s.oneExit = true ∨ s.threadPool.isSome = true := by
  unfold callOnExit
  split
  · rename_i set
    exact iff_of_true sound (.inl set)
  · rename_i unset
    unfold onExitRequest
    dsimp only
    cases pool : s.threadPool with
    | none => exact iff_of_false (fun alive => alive rfl) (by simpa using unset)
    | some p => exact iff_of_true sound (.inr rfl)

theorem sound_next (ok : Ok s) (sound : Sound s) {a : Action}
    (taken : (machine threadNum).next s a = some t) : Sound t ↔ AsksLate s a t := by
  cases (stepped taken).2 with
  | exec env executed => exact iff_of_true (executed.sound ok.placed sound) fun asks => (by cases asks)
  | logs now msg =>
    exact iff_of_true ((log_sameControl ok.placed.current now msg).sound sound) fun asks => (by cases asks)
  | asks asks => rw [callOnExit_sound sound, asksLate_of_asks asks]
  | taskFails free now e =>
    exact iff_of_true (thrown_sound (s := { s with tasks := s.tasks - 1 }) ok.placed.current _ now e)
      fun asks => (by cases asks)
  | exitFails was by_ now e =>
    exact iff_of_true (thrown_sound (s := { s with exit := .failed }) ok.placed.current _ now e)
      fun asks => (by cases asks)
  | posts | taskEnds | exitBegins | exits | stopsLogger | exitEnds | loggerRuns | ticks | returns =>
    exact iff_of_true sound fun asks => (by cases asks)

end BoostBase.Application
