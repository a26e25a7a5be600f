import BoostBase.Application.ApplicationSteps
import BoostBase.Logger.LoggerTaskRuns

namespace BoostBase

open Asio Text Transition

namespace MainPhase

def pooled : MainPhase → Bool
  | .constructed | .argsRead | .destroyed | .terminated | .crashed => false
  | .left e | .reset e => e ≠ .noConfig
  | _ => true

/-- `ThreadPool::run` was not called yet. -/
def early : MainPhase → Bool
  | .constructed | .argsRead | .poolMade | .loggerMade | .loggerSet | .sigintSet | .handlersSet
  | .configRead | .itemsStarted => true
  | _ => false

/-- `m_logger` was made, and `ThreadPool::run` was not called yet. -/
def hasLogger : MainPhase → Bool
  | .poolMade => false
  | p => p.early && p.pooled

/-- `ThreadPool::run` was called and did not throw. -/
def spawned : MainPhase → Bool
  | .spawning | .running | .stopping | .joining | .left .ran | .reset .ran => true
  | _ => false

/-- `m_io.run()` has returned. -/
def drained : MainPhase → Bool
  | .stopping | .joining | .left .ran | .reset .ran => true
  | _ => false

def joined : MainPhase → Bool
  | .left .ran | .reset .ran => true
  | _ => false

end MainPhase

def ExitHandler.told : ExitHandler → Bool
  | .loggerStopped _ | .done => true
  | _ => false

theorem ExitHandler.entered_of_told {e : ExitHandler} (told : e.told = true) : e.entered = true := by
  cases e <;> first | rfl | cases told

namespace Application

/-- What holds of the pool, the exit handler and the logger wherever the main thread stands. -/
structure Io (s : Application) : Prop where
  asked : s.oneExit = false → s.exit = .unasked
  guard : ∀ p, s.threadPool = some p → (p.workGuard = false ↔ s.exit = .done)
  inside : ∀ p, s.threadPool = some p → p.inside ≤ p.threads
  stopped : ∀ p, s.threadPool = some p → p.stopped = true →
    s.exit = .done ∧ s.tasks = 0 ∧ s.logger.any LoggerTask.held = false
  told : s.exit.told = true → ∀ l, s.logger = some l → l.Told
  logger : ∀ l, s.logger = some l → l.Ok

structure Placed (s : Application) : Prop where
  pooled : s.phase.pooled = true → s.threadPool.isSome = true
  current : s.currentLogger = .asyncLogger → s.logger.isSome = true
  made : s.phase.hasLogger = true → s.logger.isSome = true
  reset : ∀ e, s.phase = .reset e → s.currentLogger = .defaultLogger
  requested : s.phase ≠ .crashed → s.oneExit = true → s.exit ≠ .unasked
  served : s.phase.alive = true → s.exit ≠ .unasked → s.threadPool.isSome = true
  early : s.phase.early = true →
    s.exit.entered = false ∧ ∀ p, s.threadPool = some p → p.threads = 0 ∧ p.stopped = false
  drained : s.phase.drained = true → s.threadPool.any ThreadPool.stopped = true
  joined : s.phase.joined = true → ∀ p, s.threadPool = some p → p.threads = 0
  started : s.phase.alive = true →
    (s.phase.spawned = true ∨ ∃ p, s.threadPool = some p ∧ 0 < p.threads) →
      ∃ l, s.logger = some l ∧ l.Started

structure Ok (s : Application) : Prop where
  io : Io s
  placed : Placed s

variable {s t : Application} {threadNum : Int}

theorem ok_initial : Ok (machine threadNum).initial := by
  constructor <;> constructor <;>
    simp [machine, new, MainPhase.pooled, MainPhase.early, MainPhase.hasLogger, MainPhase.drained,
      MainPhase.joined, MainPhase.spawned, ExitHandler.told, ExitHandler.entered]

/-- Only what the loggers hold and what they print differs. -/
structure SameControl (s t : Application) : Prop where
  phase : t.phase = s.phase
  oneExit : t.oneExit = s.oneExit
  currentLogger : t.currentLogger = s.currentLogger
  threadPool : t.threadPool = s.threadPool
  exit : t.exit = s.exit
  tasks : t.tasks = s.tasks
  logger : ∃ f : AsyncLogger → AsyncLogger, t.logger = s.logger.map fun l => { l with queue := f l.queue }

theorem SameControl.held (same : SameControl s t) :
    t.logger.any LoggerTask.held = s.logger.any LoggerTask.held := by
  obtain ⟨f, logger⟩ := same.logger
  rw [logger]
  cases s.logger <;> rfl

theorem SameControl.io (same : SameControl s t) (io : Io s) : Io t := by
  obtain ⟨f, logger⟩ := same.logger
  refine ⟨?_, ?_, ?_, ?_, ?_, ?_⟩
  · rw [same.oneExit, same.exit]
    exact io.asked
  · rw [same.threadPool, same.exit]
    exact io.guard
  · rw [same.threadPool]
    exact io.inside
  · rw [same.threadPool, same.exit, same.tasks, same.held]
    exact io.stopped
  · rw [same.exit, logger]
    intro told l given
    obtain ⟨k, before, rfl⟩ := Option.map_eq_some_iff.mp given
    exact io.told told k before
  · rw [logger]
    intro l given
    obtain ⟨k, before, rfl⟩ := Option.map_eq_some_iff.mp given
    have ok := io.logger k before
    exact ⟨ok.signal, ok.cancelled, ok.woken⟩

theorem SameControl.placed (same : SameControl s t) (placed : Placed s) : Placed t := by
  obtain ⟨f, logger⟩ := same.logger
  have isSome : t.logger.isSome = s.logger.isSome := by rw [logger, Option.isSome_map]
  refine ⟨?_, ?_, ?_, ?_, ?_, ?_, ?_, ?_, ?_, ?_⟩
  · rw [same.phase, same.threadPool]
    exact placed.pooled
  · rw [same.currentLogger, isSome]
    exact placed.current
  · rw [same.phase, isSome]
    exact placed.made
  · rw [same.phase, same.currentLogger]
    exact placed.reset
  · rw [same.phase, same.oneExit, same.exit]
    exact placed.requested
  · rw [same.phase, same.exit, same.threadPool]
    exact placed.served
  · rw [same.phase, same.exit, same.threadPool]
    exact placed.early
  · rw [same.phase, same.threadPool]
    exact placed.drained
  · rw [same.phase, same.threadPool]
    exact placed.joined
  · rw [same.phase, same.threadPool]
    intro alive spawned
    obtain ⟨l, before, started⟩ := placed.started alive spawned
    exact ⟨{ l with queue := f l.queue }, by rw [logger, before]; rfl, started⟩

theorem SameControl.ok (same : SameControl s t) (ok : Ok s) : Ok t :=
  ⟨same.io ok.io, same.placed ok.placed⟩

theorem log_sameControl (current : s.currentLogger = .asyncLogger → s.logger.isSome = true)
    (now : LocalTime) (msg : List Byte) : SameControl s (s.log now msg) := by
  unfold log
  dsimp only
  split
  · exact ⟨rfl, rfl, rfl, rfl, rfl, rfl, id, by simp⟩
  · rename_i async
    split
    · rename_i dangling
      have alive := current async
      rw [dangling] at alive
      cases alive
    · rename_i l logger
      exact ⟨rfl, rfl, rfl, rfl, rfl, rfl,
        fun queue => queue.logImpl (ALogger.newMsg now msg), by simp [logger]⟩

theorem log_ok (ok : Ok s) (now : LocalTime) (msg : List Byte) : Ok (s.log now msg) :=
  (log_sameControl ok.placed.current now msg).ok ok

theorem SameControl.current (same : SameControl s t)
    (current : s.currentLogger = .asyncLogger → s.logger.isSome = true) :
    t.currentLogger = .asyncLogger → t.logger.isSome = true := by
  obtain ⟨f, logger⟩ := same.logger
  rw [same.currentLogger, logger, Option.isSome_map]
  exact current

theorem SameControl.trans {u : Application} (first : SameControl s t) (second : SameControl t u) :
    SameControl s u := by
  obtain ⟨f, logger⟩ := first.logger
  obtain ⟨g, logger'⟩ := second.logger
  refine ⟨second.phase.trans first.phase, second.oneExit.trans first.oneExit,
    second.currentLogger.trans first.currentLogger, second.threadPool.trans first.threadPool,
    second.exit.trans first.exit, second.tasks.trans first.tasks, fun queue => g (f queue), ?_⟩
  rw [logger', logger, Option.map_map]
  rfl

theorem logAll_sameControl (current : s.currentLogger = .asyncLogger → s.logger.isSome = true)
    (now : LocalTime) (msgs : List (List Byte)) : SameControl s (s.logAll now msgs) := by
  induction msgs generalizing s with
  | nil => exact ⟨rfl, rfl, rfl, rfl, rfl, rfl, id, by simp [logAll]⟩
  | cons msg msgs ih =>
    have first := log_sameControl current now msg
    exact first.trans (ih (first.current current))

theorem callOnExit_ok (ok : Ok s) : Ok s.callOnExit := by
  obtain ⟨io, placed⟩ := ok
  unfold callOnExit
  split
  · exact ⟨io, placed⟩
  · rename_i unset
    have unasked := io.asked (by simpa using unset)
    unfold onExitRequest
    split
    · refine ⟨⟨fun set => (by cases set), io.guard, io.inside, io.stopped, io.told, io.logger⟩,
        ⟨fun pooled => (by cases pooled), placed.current, fun made => (by cases made),
          fun e reset => (by cases reset), fun alive => absurd rfl alive, fun alive => (by cases alive),
          fun early => (by cases early), fun drained => (by cases drained),
          fun joined => (by cases joined), fun alive => (by cases alive)⟩⟩
    · rename_i p pool
      refine ⟨⟨fun set => (by cases set), ?_, io.inside, ?_, fun told => (by cases told), io.logger⟩,
        ⟨placed.pooled, placed.current, placed.made, placed.reset, fun _ _ queued => (by cases queued),
          fun _ _ => (congrArg Option.isSome pool).trans rfl,
          fun early => ⟨rfl, (placed.early early).2⟩, placed.drained, placed.joined, placed.started⟩⟩
      · intro p given
        have guard := io.guard p given
        rw [unasked] at guard
        exact iff_of_false (fun released => by simpa using guard.mp released) (by simp)
      · intro p given stopped
        have done := (io.stopped p given stopped).1
        rw [unasked] at done
        cases done

theorem Placed.of_left {e : ExecExit} (placed : Placed s) (alive : s.phase.alive = true)
    (pooled : e ≠ .noConfig → s.threadPool.isSome = true) (other : e ≠ .ran) :
    Placed { s with phase := .left e } := by
  refine ⟨fun made => pooled (of_decide_eq_true made), placed.current, fun made => (by cases made),
    fun e reset => (by cases reset), fun _ set => placed.requested ?_ set,
    fun _ asked => placed.served alive asked, fun early => (by cases early),
    fun drained => ?_, fun joined => ?_, fun _ threads => placed.started alive (.inr ?_)⟩
  · intro crashed
    rw [crashed] at alive
    cases alive
  · cases e <;> first | exact absurd rfl other | cases drained
  · cases e <;> first | exact absurd rfl other | cases joined
  · rcases threads with spawned | threads
    · cases e <;> first | exact absurd rfl other | cases spawned
    · exact threads

theorem Placed.of_terminated (placed : Placed s) (alive : s.phase.alive = true) :
    Placed { s with phase := .terminated } := by
  refine ⟨fun pooled => (by cases pooled), placed.current, fun made => (by cases made),
    fun e reset => (by cases reset), fun _ set => placed.requested ?_ set, fun alive => (by cases alive),
    fun early => (by cases early), fun drained => (by cases drained),
    fun joined => (by cases joined), fun alive => (by cases alive)⟩
  intro crashed
  rw [crashed] at alive
  cases alive

theorem Io.at_phase (io : Io s) (phase : MainPhase) : Io { s with phase := phase } :=
  ⟨io.asked, io.guard, io.inside, io.stopped, io.told, io.logger⟩

theorem leave_ok {e : ExecExit} (ok : Ok s) (alive : s.phase.alive = true)
    (pooled : e ≠ .noConfig → s.threadPool.isSome = true) (other : e ≠ .ran) (now : LocalTime)
    (msgs : List (List Byte)) : Ok ({ s with phase := .left e }.logAll now msgs) := by
  have left : Ok { s with phase := .left e } := ⟨ok.io.at_phase _, ok.placed.of_left alive pooled other⟩
  exact (logAll_sameControl left.placed.current now msgs).ok left

theorem thrown_ok (ok : Ok s) (alive : s.phase.alive = true) (pooled : s.threadPool.isSome = true)
    (on : AppThread) (now : LocalTime) (e : AppException) : Ok (s.thrown on now e) := by
  cases on with
  | main =>
    obtain ⟨exit, msgs, -, other, same⟩ := execThrows_eq s now e
    rw [show s.thrown .main now e = _ from same]
    exact leave_ok ok alive (fun _ => pooled) other now msgs
  | pool => exact ⟨ok.io.at_phase _, ok.placed.of_terminated alive⟩

theorem Placed.goOn {phase : MainPhase} (placed : Placed s) (was : s.phase.early = true)
    (early : phase.early = true) (pooled : phase.pooled = true → s.threadPool.isSome = true)
    (made : phase.hasLogger = true → s.logger.isSome = true) : Placed { s with phase := phase } := by
  have alive : s.phase.alive = true := by cases h : s.phase <;> simp_all [MainPhase.early, MainPhase.alive]
  refine ⟨pooled, placed.current, made, fun e reset => ?_, fun _ set => placed.requested ?_ set,
    fun _ asked => placed.served alive asked, fun _ => placed.early was, fun drained => ?_, fun joined => ?_, fun _ threads => ?_⟩
  · rw [show phase = .reset e from reset] at early
    cases early
  · intro crashed
    rw [crashed] at alive
    cases alive
  · cases phase <;> simp_all [MainPhase.early, MainPhase.drained]
  · cases phase <;> simp_all [MainPhase.early, MainPhase.joined]
  · rcases threads with spawned | threads
    · cases phase <;> simp_all [MainPhase.early, MainPhase.spawned]
    · exact placed.started alive (.inr threads)

theorem Placed.fresh (placed : Placed s) (early : s.phase.early = true) (io : Io s) :
    ∀ p, s.threadPool = some p → p.threads = 0 ∧ p.inside = 0 ∧ p.stopped = false := by
  intro p pool
  obtain ⟨threads, running⟩ := (placed.early early).2 p pool
  have bound := io.inside p pool
  exact ⟨threads, by omega, running⟩

theorem makePool_ok (ok : Ok s) (was : s.phase = .argsRead) :
    Ok { s with threadPool := some (.new threadNum), phase := .poolMade } := by
  have entered := (ok.placed.early (by rw [was]; rfl)).1
  refine ⟨⟨ok.io.asked, ?_, ?_, ?_, ok.io.told, ok.io.logger⟩,
    ⟨fun _ => rfl, ok.placed.current, fun made => (by cases made), fun e reset => (by cases reset),
      fun _ set => ok.placed.requested (by simp [was]) set, fun _ _ => rfl, fun _ => ⟨entered, ?_⟩,
      fun drained => (by cases drained), fun joined => (by cases joined), ?_⟩⟩
  · intro p pool
    cases pool
    refine iff_of_false (fun guard => (by cases guard)) fun done => ?_
    rw [show s.exit = .done from done] at entered
    cases entered
  · intro p pool
    cases pool
    exact Nat.le_refl _
  · intro p pool stopped
    cases pool
    cases stopped
  · intro p pool
    cases pool
    exact ⟨rfl, rfl⟩
  · rintro _ (spawned | ⟨p, pool, threads⟩)
    · cases spawned
    · cases pool
      cases threads

theorem makeLogger_ok (ok : Ok s) (was : s.phase = .poolMade) :
    Ok { s with logger := some .new, phase := .loggerMade } := by
  have early : s.phase.early = true := by rw [was]; rfl
  have fresh := ok.placed.fresh early ok.io
  have entered := (ok.placed.early early).1
  refine ⟨⟨ok.io.asked, ok.io.guard, ok.io.inside, ?_, ?_, ?_⟩,
    ⟨fun _ => ok.placed.pooled (by rw [was]; rfl), fun _ => rfl, fun _ => rfl,
      fun e reset => (by cases reset), fun _ set => ok.placed.requested (by simp [was]) set,
      fun _ asked => ok.placed.served (by rw [was]; rfl) asked, fun _ => ok.placed.early early,
      fun drained => (by cases drained), fun joined => (by cases joined), ?_⟩⟩
  · intro p pool stopped
    rw [(fresh p pool).2.2] at stopped
    cases stopped
  · intro told
    rw [ExitHandler.entered_of_told told] at entered
    cases entered
  · intro l logger
    cases logger
    exact LoggerTask.new_ok
  · rintro _ (spawned | ⟨p, pool, threads⟩)
    · cases spawned
    · rw [(fresh p pool).1] at threads
      cases threads

theorem setLogger_ok (ok : Ok s) (was : s.phase = .loggerMade) :
    Ok { s with currentLogger := .asyncLogger, phase := .loggerSet } := by
  have made : s.logger.isSome = true := ok.placed.made (by rw [was]; rfl)
  have pooled : s.threadPool.isSome = true := ok.placed.pooled (by rw [was]; rfl)
  have went : Placed { s with phase := .loggerSet } :=
    ok.placed.goOn (by rw [was]; rfl) rfl (fun _ => pooled) fun _ => made
  exact ⟨⟨ok.io.asked, ok.io.guard, ok.io.inside, ok.io.stopped, ok.io.told, ok.io.logger⟩,
    ⟨went.pooled, fun _ => made, went.made, fun e reset => (by cases reset), went.requested, went.served,
      went.early, went.drained, went.joined, went.started⟩⟩

theorem startLogger_ok (ok : Ok s) (was : s.phase = .itemsStarted) :
    Ok { s.onLogger fun l => l.post .start with phase := .spawning } := by
  have early : s.phase.early = true := by rw [was]; rfl
  have fresh := ok.placed.fresh early ok.io
  obtain ⟨l, logger⟩ := Option.isSome_iff_exists.mp (ok.placed.made (by rw [was]; rfl))
  have posted : (s.onLogger fun l => l.post .start).logger = some (l.post .start) := by
    simp [onLogger, logger]
  have begun : (l.post .start).Started := .inl (List.mem_append_right _ (List.mem_singleton_self _))
  refine ⟨⟨ok.io.asked, ok.io.guard, ok.io.inside, ?_, ?_, ?_⟩,
    ⟨fun _ => ok.placed.pooled (by rw [was]; rfl), fun _ => (congrArg Option.isSome posted).trans rfl,
      fun made => (by cases made), fun e reset => (by cases reset),
      fun _ set => ok.placed.requested (by simp [was]) set,
      fun _ asked => ok.placed.served (by rw [was]; rfl) asked, fun early => (by cases early),
      fun drained => (by cases drained), fun joined => (by cases joined),
      fun _ _ => ⟨_, posted, begun⟩⟩⟩
  · intro p pool stopped
    rw [(fresh p pool).2.2] at stopped
    cases stopped
  · intro told k given
    obtain rfl := Option.some.inj (posted.symm.trans given)
    exact (ok.io.told told l logger).post .start
  · intro k given
    obtain rfl := Option.some.inj (posted.symm.trans given)
    exact (ok.io.logger l logger).post .start

theorem makeThread_ok (ok : Ok s) (was : s.phase = .spawning) {p : ThreadPool}
    (pool : s.threadPool = some p) :
    Ok { s with threadPool := some { p with threads := p.threads + 1, inside := p.inside + 1 } } := by
  have begun := ok.placed.started (by rw [was]; rfl) (.inl (by rw [was]; rfl))
  refine ⟨⟨ok.io.asked, ?_, ?_, ?_, ok.io.told, ok.io.logger⟩,
    ⟨fun _ => rfl, ok.placed.current, fun made => ok.placed.made made, ok.placed.reset,
      ok.placed.requested, fun _ _ => rfl, fun early => ?_, fun drained => ?_, fun joined => ?_,
      fun _ _ => begun⟩⟩
  · intro q same
    cases same
    exact ok.io.guard p pool
  · intro q same
    cases same
    exact Nat.succ_le_succ (ok.io.inside p pool)
  · intro q same
    cases same
    exact ok.io.stopped p pool
  · rw [show s.phase.early = false by rw [was]; rfl] at early
    cases early
  · rw [show s.phase.drained = false by rw [was]; rfl] at drained
    cases drained
  · rw [show s.phase.joined = false by rw [was]; rfl] at joined
    cases joined

theorem run_ok (ok : Ok s) (was : s.phase = .spawning) : Ok { s with phase := .running } := by
  have alive : s.phase.alive = true := by rw [was]; rfl
  have pooled : s.threadPool.isSome = true := ok.placed.pooled (by rw [was]; rfl)
  have begun := ok.placed.started alive (.inl (by rw [was]; rfl))
  exact ⟨ok.io.at_phase _, ⟨fun _ => pooled, ok.placed.current, fun made => (by cases made),
    fun e reset => (by cases reset), fun _ set => ok.placed.requested (by simp [was]) set,
    fun _ asked => ok.placed.served alive asked, fun early => (by cases early),
    fun drained => (by cases drained), fun joined => (by cases joined), fun _ _ => begun⟩⟩

/-- `m_io` runs out of work only after the exit handler, which gives up the work guard last. -/
theorem Io.drained (io : Io s) {p : ThreadPool} (pool : s.threadPool = some p)
    (out : s.outOfWork = true) :
    s.exit = .done ∧ s.tasks = 0 ∧ s.logger.any LoggerTask.held = false := by
  simp only [outOfWork, pool, Option.any_some, Bool.or_eq_true, Bool.not_eq_true'] at out
  rcases out with stopped | idle
  · exact io.stopped p pool stopped
  · simp only [hasWork, pool, Option.any_some, Bool.or_eq_false_iff, decide_eq_false_iff_not] at idle
    obtain ⟨⟨⟨guard, -⟩, tasks⟩, held⟩ := idle
    exact ⟨(io.guard p pool).mp guard, by omega, held⟩

theorem ranOut_ok (ok : Ok s) (was : s.phase = .running) (out : s.outOfWork = true) :
    Ok { s.onPool fun p => { p with stopped := true } with phase := .stopping } := by
  have alive : s.phase.alive = true := by rw [was]; rfl
  obtain ⟨p, pool⟩ := Option.isSome_iff_exists.mp (ok.placed.pooled (by rw [was]; rfl))
  have done := ok.io.drained pool out
  have after : (s.onPool fun p => { p with stopped := true }).threadPool = some { p with stopped := true } := by
    simp [onPool, pool]
  refine ⟨⟨ok.io.asked, ?_, ?_, fun _ _ _ => done, ok.io.told, ok.io.logger⟩,
    ⟨fun _ => (congrArg Option.isSome after).trans rfl, ok.placed.current, fun made => (by cases made),
      fun e reset => (by cases reset), fun _ set => ok.placed.requested (by simp [was]) set,
      fun _ _ => (congrArg Option.isSome after).trans rfl, fun early => (by cases early),
      fun _ => (congrArg (Option.any _) after).trans rfl, fun joined => (by cases joined),
      fun _ _ => ok.placed.started alive (.inl (by rw [was]; rfl))⟩⟩
  · intro q same
    obtain rfl := Option.some.inj (after.symm.trans same)
    exact ok.io.guard p pool
  · intro q same
    obtain rfl := Option.some.inj (after.symm.trans same)
    exact ok.io.inside p pool

theorem stopPool_ok (ok : Ok s) (was : s.phase = .stopping) :
    Ok { s.onPool fun p => { p with workGuard := false } with phase := .joining } := by
  have alive : s.phase.alive = true := by rw [was]; rfl
  have stopped := ok.placed.drained (by rw [was]; rfl)
  obtain ⟨p, pool⟩ := Option.isSome_iff_exists.mp (ok.placed.pooled (by rw [was]; rfl))
  rw [pool, Option.any_some] at stopped
  have after : (s.onPool fun p => { p with workGuard := false }).threadPool =
      some { p with workGuard := false } := by simp [onPool, pool]
  have done := ok.io.stopped p pool stopped
  refine ⟨⟨ok.io.asked, ?_, ?_, fun _ _ _ => done, ok.io.told, ok.io.logger⟩,
    ⟨fun _ => (congrArg Option.isSome after).trans rfl, ok.placed.current, fun made => (by cases made),
      fun e reset => (by cases reset), fun _ set => ok.placed.requested (by simp [was]) set,
      fun _ _ => (congrArg Option.isSome after).trans rfl, fun early => (by cases early),
      fun _ => (congrArg (Option.any _) after).trans stopped, fun joined => (by cases joined),
      fun _ _ => ok.placed.started alive (.inl (by rw [was]; rfl))⟩⟩
  · intro q same
    obtain rfl := Option.some.inj (after.symm.trans same)
    exact iff_of_true rfl done.1
  · intro q same
    obtain rfl := Option.some.inj (after.symm.trans same)
    exact ok.io.inside p pool

theorem join_ok (ok : Ok s) (was : s.phase = .joining) {p : ThreadPool} (pool : s.threadPool = some p)
    (gone : p.inside = 0) : Ok { s with threadPool := some { p with threads := 0 }, phase := .left .ran } := by
  have alive : s.phase.alive = true := by rw [was]; rfl
  have stopped := ok.placed.drained (by rw [was]; rfl)
  rw [pool, Option.any_some] at stopped
  have done := ok.io.stopped p pool stopped
  refine ⟨⟨ok.io.asked, ?_, ?_, fun _ _ _ => done, ok.io.told, ok.io.logger⟩,
    ⟨fun _ => rfl, ok.placed.current, fun made => (by cases made), fun e reset => (by cases reset),
      fun _ set => ok.placed.requested (by simp [was]) set, fun _ _ => rfl,
      fun early => (by cases early), fun _ => stopped, fun _ q same => ?_,
      fun _ _ => ok.placed.started alive (.inl (by rw [was]; rfl))⟩⟩
  · intro q same
    cases same
    exact ok.io.guard p pool
  · intro q same
    cases same
    exact Nat.le_of_eq gone
  · cases same
    rfl

theorem resetLogger_ok (ok : Ok s) {e : ExecExit} (was : s.phase = .left e) :
    Ok { s with currentLogger := .defaultLogger, phase := .reset e } := by
  have alive : s.phase.alive = true := by rw [was]; rfl
  refine ⟨⟨ok.io.asked, ok.io.guard, ok.io.inside, ok.io.stopped, ok.io.told, ok.io.logger⟩,
    ⟨fun pooled => ok.placed.pooled (by rw [was]; exact pooled), fun set => (by cases set),
      fun made => (by cases made), fun _ _ => rfl, fun _ set => ok.placed.requested (by simp [was]) set,
      fun _ asked => ok.placed.served alive asked, fun early => (by cases early),
      fun drained => ok.placed.drained ?_, fun joined => ok.placed.joined ?_,
      fun _ threads => ok.placed.started alive (threads.imp_left fun spawned => ?_)⟩⟩
  all_goals
    rw [was]
    cases e <;> assumption

theorem releaseLogger_io (io : Io s) : Io s.releaseLogger := by
  unfold releaseLogger
  split
  · exact io
  · exact ⟨io.asked, io.guard, io.inside, fun p pool stopped => ⟨(io.stopped p pool stopped).1,
      (io.stopped p pool stopped).2.1, rfl⟩, fun _ l given => (by cases given),
      fun l given => (by cases given)⟩

@[simp] theorem releaseLogger_exit (s : Application) : s.releaseLogger.exit = s.exit := by
  unfold releaseLogger
  split <;> rfl

@[simp] theorem releaseLogger_oneExit (s : Application) : s.releaseLogger.oneExit = s.oneExit := by
  unfold releaseLogger
  split <;> rfl

@[simp] theorem releaseLogger_currentLogger (s : Application) :
    s.releaseLogger.currentLogger = s.currentLogger := by
  unfold releaseLogger
  split <;> rfl

/-- An application whose members are gone, with the default logger as its current one. -/
theorem placed_of_dead {phase : MainPhase} (dead : phase = .destroyed ∨ phase = .terminated)
    (current : s.currentLogger = .defaultLogger) (requested : s.oneExit = true → s.exit ≠ .unasked) :
    Placed { s with phase := phase } := by
  refine ⟨?_, fun set => ?_, ?_, ?_, fun _ => requested, ?_, ?_, ?_, ?_, ?_⟩
  · rcases dead with rfl | rfl <;> exact fun pooled => (by cases pooled)
  · rw [show s.currentLogger = .asyncLogger from set] at current
    cases current
  · rcases dead with rfl | rfl <;> exact fun made => (by cases made)
  · rcases dead with rfl | rfl <;> exact fun e reset => (by cases reset)
  · rcases dead with rfl | rfl <;> exact fun alive => (by cases alive)
  · rcases dead with rfl | rfl <;> exact fun early => (by cases early)
  · rcases dead with rfl | rfl <;> exact fun drained => (by cases drained)
  · rcases dead with rfl | rfl <;> exact fun joined => (by cases joined)
  · rcases dead with rfl | rfl <;> exact fun alive => (by cases alive)

theorem destroyMembers_ok (ok : Ok s) {e : ExecExit} (was : s.phase = .reset e) :
    Ok s.destroyMembers := by
  have current := ok.placed.reset e was
  have requested := ok.placed.requested (by simp [was])
  have members : ∃ u : Application, Io u ∧ u.currentLogger = .defaultLogger ∧
      (u.oneExit = true → u.exit ≠ .unasked) ∧ (if s.logger.any LoggerTask.held then s else s.releaseLogger) = u := by
    split
    · exact ⟨s, ok.io, current, requested, rfl⟩
    · exact ⟨_, releaseLogger_io ok.io, by simpa using current, by simpa using requested, rfl⟩
  obtain ⟨u, io, current, requested, released⟩ := members
  unfold destroyMembers
  rw [released]
  dsimp only
  split
  · exact ⟨io.at_phase _, placed_of_dead (.inr rfl) current requested⟩
  · have io := releaseLogger_io io
    refine ⟨⟨io.asked, fun p pool => (by cases pool), fun p pool => (by cases pool),
      fun p pool => (by cases pool), io.told, io.logger⟩, ?_⟩
    exact placed_of_dead (s := { u.releaseLogger with threadPool := none }) (.inl rfl)
      (by simpa using current) (by simpa using requested)

theorem Ok.goOn {phase : MainPhase} (ok : Ok s) (next : s.phase.following = some phase) :
    Ok { s with phase := phase } := by
  have kept : s.phase.early = true ∧ phase.early = true ∧
      (phase.pooled = true → s.phase.pooled = true) ∧ (phase.hasLogger = true → s.phase.hasLogger = true) := by
    cases was : s.phase <;> simp only [was, MainPhase.following, reduceCtorEq, Option.some.injEq] at next <;>
      subst next <;> decide
  obtain ⟨was, early, pooled, made⟩ := kept
  exact ⟨ok.io.at_phase _, ok.placed.goOn was early (fun still => ok.placed.pooled (pooled still))
    fun still => ok.placed.made (made still)⟩

theorem Executed.ok (ok : Ok s) (executed : Executed threadNum s t) : Ok t := by
  cases executed with
  | goesOn next => exact ok.goOn next
  | leaves was pooled other now msgs =>
    have alive : s.phase.alive = true := by
      cases h : s.phase <;> simp_all [MainPhase.leaving, MainPhase.alive]
    refine leave_ok ok alive (fun made => ok.placed.pooled ?_) other now msgs
    have late := pooled made
    cases h : s.phase <;> simp_all [MainPhase.leaving, MainPhase.pooled]
  | makesPool was => exact makePool_ok ok was
  | makesLogger was => exact makeLogger_ok ok was
  | setsLogger was => exact setLogger_ok ok was
  | startsLogger was => exact startLogger_ok ok was
  | makesThread was pool _ => exact makeThread_ok ok was pool
  | runs was => exact run_ok ok was
  | ranOut was out => exact ranOut_ok ok was out
  | stopsPool was => exact stopPool_ok ok was
  | joins was pool gone => exact join_ok ok was pool gone
  | resets was => exact resetLogger_ok ok was
  | destroys was => exact destroyMembers_ok ok was

/-- A thread that is in `m_io.run()` finds the pool, work left in it, and `ThreadPool::run`
    called before. -/
structure Serving (s : Application) : Prop where
  pool : ∃ p, s.threadPool = some p ∧ p.stopped = false
  late : s.phase.early = false
  begun : s.phase.alive = true → ∃ l, s.logger = some l ∧ l.Started

theorem Ok.serving (ok : Ok s) {on : AppThread} (free : s.free on = true) : Serving s := by
  simp only [Application.free, Bool.and_eq_true, Bool.not_eq_true'] at free
  obtain ⟨running, free⟩ := free
  cases on with
  | main =>
    obtain ⟨was, -⟩ := Bool.and_eq_true_iff.mp free
    have phase : s.phase = .running := of_decide_eq_true was
    obtain ⟨p, pool⟩ := Option.isSome_iff_exists.mp (ok.placed.pooled (by rw [phase]; rfl))
    rw [pool, Option.any_some] at running
    exact ⟨⟨p, pool, running⟩, by rw [phase]; rfl,
      fun alive => ok.placed.started alive (.inl (by rw [phase]; rfl))⟩
  | pool =>
    obtain ⟨p, pool, busy⟩ := (Option.any_eq_true _ _).mp free
    rw [pool, Option.any_some] at running
    have inside := ok.io.inside p pool
    have busy := of_decide_eq_true busy
    have threads : 0 < p.threads := by
      split at busy <;> omega
    refine ⟨⟨p, pool, running⟩, ?_, fun alive => ok.placed.started alive (.inr ⟨p, pool, threads⟩)⟩
    by_contra early
    have none_ := ((ok.placed.early (by simpa using early)).2 p pool).1
    omega

theorem Ok.serving_canRun (ok : Ok s) (run : s.canRun = true) : Serving s := by
  rcases (Bool.or_eq_true _ _).mp run with free | free
  · exact ok.serving free
  · exact ok.serving free

theorem Serving.unstopped (serving : Serving s) {p : ThreadPool} (pool : s.threadPool = some p) :
    p.stopped = false := by
  obtain ⟨q, same, running⟩ := serving.pool
  rw [pool] at same
  cases same
  exact running

theorem exit_ok {e : ExitHandler} (ok : Ok s) (was : s.exit.pending = true)
    (serving : s.exit.entered = false → Serving s) (entered : e.entered = true)
    (told : e.told = true → ∀ l, s.logger = some l → l.Told) (unfinished : e ≠ .done) :
    Ok { s with exit := e } := by
  have asked : s.oneExit = true := by
    by_contra unset
    rw [ok.io.asked (by simpa using unset)] at was
    cases was
  have undone : s.exit ≠ .done := fun done => (by rw [done] at was; cases was)
  refine ⟨⟨fun unset => ?_, ?_, ok.io.inside, ?_, told, ok.io.logger⟩,
    ⟨ok.placed.pooled, ok.placed.current, ok.placed.made, ok.placed.reset, fun _ _ same => ?_,
      fun alive _ => ok.placed.served alive fun unasked => (by rw [unasked] at was; cases was),
      fun early => ?_, ok.placed.drained, ok.placed.joined, ok.placed.started⟩⟩
  · rw [show s.oneExit = false from unset] at asked
    cases asked
  · intro p pool
    exact iff_of_false (fun released => undone ((ok.io.guard p pool).mp released)) unfinished
  · intro p pool stopped
    exact absurd (ok.io.stopped p pool stopped).1 undone
  · rw [show e = .unasked from same] at entered
    cases entered
  · have before := (ok.placed.early early).1
    rw [(serving before).late] at early
    cases early

theorem doneExit_ok (ok : Ok s) {on : AppThread} (was : s.exit = .loggerStopped on) :
    Ok { s.onPool fun p => { p with workGuard := false } with exit := .done } := by
  have asked : s.oneExit = true := by
    by_contra unset
    have unasked := ok.io.asked (by simpa using unset)
    rw [was] at unasked
    cases unasked
  have late (phase : s.phase.early = true) : False := by
    have before := (ok.placed.early phase).1
    rw [was] at before
    cases before
  have mapped {q : ThreadPool} (same : s.threadPool.map (fun p => { p with workGuard := false }) = some q) :
      ∃ p, s.threadPool = some p ∧ { p with workGuard := false } = q := Option.map_eq_some_iff.mp same
  refine ⟨⟨fun unset => ?_, ?_, ?_, ?_, fun _ => ok.io.told (by rw [was]; rfl), ok.io.logger⟩,
    ⟨fun pooled => ?_, ok.placed.current, ok.placed.made, ok.placed.reset, fun _ _ same => (by cases same),
      fun alive _ => ?_, fun early => (late early).elim, fun drained => ?_, fun joined => ?_, ?_⟩⟩
  · rw [show s.oneExit = false from unset] at asked
    cases asked
  · intro q same
    obtain ⟨p, pool, rfl⟩ := mapped same
    exact iff_of_true rfl rfl
  · intro q same
    obtain ⟨p, pool, rfl⟩ := mapped same
    exact ok.io.inside p pool
  · intro q same stopped
    obtain ⟨p, pool, rfl⟩ := mapped same
    have done := (ok.io.stopped p pool stopped).1
    rw [was] at done
    cases done
  · exact (Option.isSome_map ..).trans (ok.placed.pooled pooled)
  · exact (Option.isSome_map ..).trans (ok.placed.served alive (by rw [was]; simp))
  · show (s.threadPool.map _).any _ = true
    rw [Option.any_map]
    exact ok.placed.drained drained
  · intro q same
    obtain ⟨p, pool, rfl⟩ := mapped same
    exact ok.placed.joined joined p pool
  · rintro alive (spawned | ⟨q, same, threads⟩)
    · exact ok.placed.started alive (.inl spawned)
    · obtain ⟨p, pool, rfl⟩ := mapped same
      exact ok.placed.started alive (.inr ⟨p, pool, threads⟩)

theorem logger_ok {l k : LoggerTask} (ok : Ok s) (logger : s.logger = some l) (terminal : Terminal)
    (running : ∀ p, s.threadPool = some p → p.stopped = true → False)
    (next : k.Ok) (told : l.Told → k.Told) (started : l.Started → k.Started) :
    Ok { s with logger := some k, terminal := terminal } := by
  refine ⟨⟨ok.io.asked, ok.io.guard, ok.io.inside, fun p pool stopped => (running p pool stopped).elim,
      ?_, ?_⟩,
    ⟨ok.placed.pooled, fun _ => rfl, fun _ => rfl, ok.placed.reset, ok.placed.requested,
      ok.placed.served, ok.placed.early, ok.placed.drained, ok.placed.joined, ?_⟩⟩
  · intro was j same
    cases same
    exact told (ok.io.told was l logger)
  · intro j same
    cases same
    exact next
  · intro alive threads
    obtain ⟨j, same, begun⟩ := ok.placed.started alive threads
    obtain rfl := Option.some.inj (logger.symm.trans same)
    exact ⟨k, rfl, started begun⟩

theorem stopLogger_ok (ok : Ok s) {on : AppThread} (was : s.exit = .exited on) :
    Ok { s.onLogger fun l => l.post .stop with exit := .loggerStopped on } := by
  have running : ∀ p, s.threadPool = some p → p.stopped = true → False := by
    intro p pool stopped
    have done := (ok.io.stopped p pool stopped).1
    rw [was] at done
    cases done
  have posted : Ok (s.onLogger fun l => l.post .stop) := by
    unfold onLogger
    cases logger : s.logger with
    | none =>
      rw [Option.map_none, ← logger]
      exact ok
    | some l =>
      exact logger_ok ok logger s.terminal running ((ok.io.logger l logger).post .stop)
        (fun told => told.post .stop) (fun started => started.post .stop)
  refine exit_ok posted (by rw [show (s.onLogger _).exit = s.exit from rfl, was]; rfl) ?_ rfl ?_ (by simp)
  · intro entered
    rw [show (s.onLogger _).exit = s.exit from rfl, was] at entered
    cases entered
  · intro _ l given
    obtain ⟨k, -, rfl⟩ := Option.map_eq_some_iff.mp given
    exact .inl (List.mem_append_right _ (List.mem_singleton_self _))

theorem leaveExit_ok (ok : Ok s) {on : AppThread} (was : s.exit = .exiting on) {e : ExitHandler}
    (entered : e.entered = true) (told : e.told = false) : Ok { s with exit := e } := by
  refine exit_ok ok (by rw [was]; rfl) (fun entered => ?_) entered (fun already => ?_) ?_
  · rw [was] at entered
    cases entered
  · rw [told] at already
    cases already
  · rintro rfl
    cases told

theorem tick_ok {l : LoggerTask} (ok : Ok s) (run : s.canRun = true) (logger : s.logger = some l) :
    Ok (s.onLogger fun l => l.post (.wake false)) := by
  have serving := ok.serving_canRun run
  have posted : (s.onLogger fun l => l.post (.wake false)) =
      { s with logger := some (l.post (.wake false)), terminal := s.terminal } := by
    simp [onLogger, logger]
  rw [posted]
  refine logger_ok ok logger _ (fun p pool stopped => ?_) ((ok.io.logger l logger).post _)
    (fun told => told.post _) (fun started => started.post _)
  rw [serving.unstopped pool] at stopped
  cases stopped

theorem threadReturns_ok (ok : Ok s) {p : ThreadPool} (pool : s.threadPool = some p) (inside : 0 < p.inside)
    (out : s.outOfWork = true) :
    Ok { s with threadPool := some { p with inside := p.inside - 1, stopped := true } } := by
  have done := ok.io.drained pool out
  have bound := ok.io.inside p pool
  refine ⟨⟨ok.io.asked, ?_, ?_, fun _ _ _ => done, ok.io.told, ok.io.logger⟩,
    ⟨fun _ => rfl, ok.placed.current, ok.placed.made, ok.placed.reset, ok.placed.requested,
      fun _ _ => rfl, fun early => ?_, fun _ => rfl, fun joined q same => ?_, ?_⟩⟩
  · intro q same
    cases same
    exact ok.io.guard p pool
  · intro q same
    cases same
    show p.inside - 1 ≤ p.threads
    omega
  · have none_ := ((ok.placed.early early).2 p pool).1
    omega
  · cases same
    exact ok.placed.joined joined p pool
  · rintro alive (spawned | ⟨q, same, threads⟩)
    · exact ok.placed.started alive (.inl spawned)
    · cases same
      exact ok.placed.started alive (.inr ⟨p, pool, threads⟩)

theorem tasks_ok (ok : Ok s) (tasks : Nat)
    (running : ∀ p, s.threadPool = some p → p.stopped = true → tasks = 0) :
    Ok { s with tasks := tasks } :=
  ⟨⟨ok.io.asked, ok.io.guard, ok.io.inside, fun p pool stopped =>
      ⟨(ok.io.stopped p pool stopped).1, running p pool stopped, (ok.io.stopped p pool stopped).2.2⟩,
    ok.io.told, ok.io.logger⟩,
  ⟨ok.placed.pooled, ok.placed.current, ok.placed.made, ok.placed.reset, ok.placed.requested,
    ok.placed.served, ok.placed.early, ok.placed.drained, ok.placed.joined, ok.placed.started⟩⟩

theorem post_ok (ok : Ok s) (posting : s.posting = true) : Ok { s with tasks := s.tasks + 1 } := by
  refine tasks_ok ok _ fun p pool stopped => ?_
  simp only [Application.posting, Bool.or_eq_true, Bool.and_eq_true] at posting
  rcases posting with (starting | ⟨run, -⟩) | exiting
  · have early : s.phase.early = true := by
      cases h : s.phase <;> simp_all [MainPhase.starting, MainPhase.early]
    rw [((ok.placed.early early).2 p pool).2] at stopped
    cases stopped
  · rw [(ok.serving_canRun run).unstopped pool] at stopped
    cases stopped
  · rw [(ok.io.stopped p pool stopped).1] at exiting
    cases exiting

theorem ok_next (ok : Ok s) {a : Action} (taken : (machine threadNum).next s a = some t) : Ok t := by
  obtain ⟨alive, stepped⟩ := stepped taken
  cases stepped with
  | exec env executed => exact executed.ok ok
  | logs now msg => exact log_ok ok now msg
  | asks asks => exact callOnExit_ok ok
  | posts posting => exact post_ok ok posting
  | taskEnds =>
    refine tasks_ok ok _ fun p pool stopped => ?_
    have none_ := (ok.io.stopped p pool stopped).2.1
    omega
  | taskFails free now e =>
    obtain ⟨p, pool, running⟩ := (ok.serving free).pool
    refine thrown_ok (s := { s with tasks := s.tasks - 1 })
      (tasks_ok ok _ fun q same stopped => ?_) alive ((congrArg Option.isSome pool).trans rfl) _ _ _
    have none_ := (ok.io.stopped q same stopped).2.1
    omega
  | exitBegins was free now doExit =>
    exact exit_ok ok (by rw [was]; rfl) (fun _ => ok.serving free) rfl (fun told => (by cases told))
      (by simp)
  | exits was by_ now => exact leaveExit_ok ok was rfl rfl
  | exitFails was by_ now e =>
    exact thrown_ok (s := { s with exit := .failed }) (leaveExit_ok ok was rfl rfl) alive
      (ok.placed.served alive (by rw [was]; simp)) _ _ _
  | stopsLogger was by_ now doExit => exact stopLogger_ok ok was
  | exitEnds was by_ now doExit => exact doneExit_ok ok was
  | loggerRuns run logger head =>
    rename_i l h rest
    have serving := ok.serving_canRun run
    refine logger_ok ok logger _ (fun p pool stopped => ?_)
      (LoggerTask.execute_ok (ok.io.logger l logger) head _) (fun told => told.execute head _)
      (fun started => started.execute head _)
    rw [serving.unstopped pool] at stopped
    cases stopped
  | ticks run logger => exact tick_ok ok run logger
  | returns pool inside out => exact threadReturns_ok ok pool inside out

theorem ok (reached : (machine threadNum).Reachable s) : Ok s :=
  reached.invariant ok_initial fun _ _ _ before taken => ok_next before taken

end Application

end BoostBase
