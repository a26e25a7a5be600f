import BoostBase.Application.ApplicationExit
import BoostBase.Transition.Progress

namespace BoostBase

open Asio Text Transition

/-- `exec` was left, or the process is gone. -/
def MainPhase.over : MainPhase → Bool
  | .left _ | .reset _ | .destroyed | .terminated | .crashed => true
  | _ => false

def ExitHandler.rank : ExitHandler → Nat
  | .unasked | .queued => 8
  | .exiting _ => 6
  | .exited _ => 4
  | .loggerStopped _ => 1
  | .done | .failed => 0

namespace Application

variable {s t : Application} {threadNum : Int}

def poolRank (pool : Option ThreadPool) : Nat :=
  pool.elim 0 fun p => 2 * (p.threadNum.toNat - p.threads)

def mainRank (threadNum : Int) (pool : Option ThreadPool) : MainPhase → Nat
  | .constructed => 65 + 2 * threadNum.toNat
  | .argsRead => 60 + 2 * threadNum.toNat
  | .poolMade => 55 + poolRank pool
  | .loggerMade => 50 + poolRank pool
  | .loggerSet => 45 + poolRank pool
  | .sigintSet => 40 + poolRank pool
  | .handlersSet => 35 + poolRank pool
  | .configRead => 30 + poolRank pool
  | .itemsStarted => 25 + poolRank pool
  | .spawning => 20 + poolRank pool
  | .running => 15
  | .stopping => 12
  | .joining => 10
  | .left _ => 8
  | .reset _ => 4
  | .destroyed | .terminated | .crashed => 0

def insideRank (pool : Option ThreadPool) : Nat := pool.elim 0 ThreadPool.inside

def loggerRank (logger : Option LoggerTask) : Nat := logger.elim 0 LoggerTask.rank

/-- What the application still has to do, a thread that is made coming back once. -/
def rank (threadNum : Int) (s : Application) : Nat :=
  mainRank threadNum s.threadPool s.phase + insideRank s.threadPool + s.exit.rank + loggerRank s.logger

/-- What the application does by itself when nothing is given to the pool any more and no timer
    expires; `doExit` returns. -/
def Action.internal : Action → Bool
  | .exec _ | .logger | .threadReturns | .exit _ _ (.ok ()) => true
  | _ => false

theorem SameControl.rank (same : SameControl s t) : t.rank threadNum = s.rank threadNum := by
  obtain ⟨f, logger⟩ := same.logger
  have loggers : loggerRank t.logger = loggerRank s.logger := by
    rw [logger]
    cases s.logger <;> rfl
  simp only [Application.rank, same.phase, same.threadPool, same.exit, loggers]

theorem leave_rank (current : s.currentLogger = .asyncLogger → s.logger.isSome = true) (e : ExecExit)
    (now : LocalTime) (msgs : List (List Byte)) :
    ({ s with phase := .left e }.logAll now msgs).rank threadNum =
      8 + insideRank s.threadPool + s.exit.rank + loggerRank s.logger :=
  (logAll_sameControl (s := { s with phase := .left e }) current now msgs).rank

theorem releaseLogger_rank (s : Application) :
    insideRank s.releaseLogger.threadPool = insideRank s.threadPool ∧
      s.releaseLogger.exit.rank = s.exit.rank ∧
      loggerRank s.releaseLogger.logger ≤ loggerRank s.logger := by
  unfold releaseLogger
  split
  · exact ⟨rfl, rfl, Nat.le_refl _⟩
  · exact ⟨rfl, rfl, Nat.zero_le _⟩

theorem destroyMembers_rank (s : Application) :
    s.destroyMembers.rank threadNum ≤ insideRank s.threadPool + s.exit.rank + loggerRank s.logger := by
  have members : ∃ u : Application, insideRank u.threadPool = insideRank s.threadPool ∧
      u.exit.rank = s.exit.rank ∧ loggerRank u.logger ≤ loggerRank s.logger ∧
      (if s.logger.any LoggerTask.held then s else s.releaseLogger) = u := by
    split
    · exact ⟨s, rfl, rfl, Nat.le_refl _, rfl⟩
    · obtain ⟨inside, exit, logger⟩ := releaseLogger_rank s
      exact ⟨_, inside, exit, logger, rfl⟩
  obtain ⟨u, inside, exit, logger, released⟩ := members
  unfold destroyMembers
  rw [released]
  dsimp only
  split
  · simp only [rank, mainRank]
    omega
  · obtain ⟨-, exit', logger'⟩ := releaseLogger_rank u
    have gone : insideRank none = 0 := rfl
    simp only [rank, mainRank, gone]
    omega

theorem onPool_rank (s : Application) (f : ThreadPool → ThreadPool)
    (inside : ∀ p, (f p).inside = p.inside) :
    insideRank (s.onPool f).threadPool = insideRank s.threadPool := by
  unfold onPool insideRank
  cases s.threadPool with
  | none => rfl
  | some p => exact inside p

theorem onLogger_rank (s : Application) (h : LoggerHandler) :
    loggerRank (s.onLogger fun l => l.post h).logger ≤ loggerRank s.logger + LoggerTask.weight h := by
  unfold onLogger loggerRank
  cases s.logger with
  | none => exact Nat.zero_le _
  | some l => exact Nat.le_of_eq (LoggerTask.post_rank l h)

theorem Executed.rank (ok : Ok s) (executed : Executed threadNum s t) :
    t.rank threadNum < s.rank threadNum := by
  cases executed with
  | goesOn next =>
    cases was : s.phase <;> simp only [was, MainPhase.following, reduceCtorEq, Option.some.injEq] at next
    all_goals
      subst next
      simp only [Application.rank, was, mainRank]
      omega
  | leaves was _ _ now msgs =>
    rw [leave_rank ok.placed.current]
    cases leaving : s.phase <;> simp only [leaving, MainPhase.leaving, Bool.false_eq_true] at was
    all_goals
      simp only [Application.rank, leaving, mainRank]
      omega
  | makesPool was =>
    have fresh : insideRank (some (.new threadNum)) = 0 := rfl
    have more : poolRank (some (.new threadNum)) = 2 * threadNum.toNat := rfl
    simp only [Application.rank, was, mainRank, fresh, more]
    omega
  | makesLogger was =>
    have fresh : loggerRank (some .new) = 3 := rfl
    simp only [Application.rank, was, mainRank, fresh]
    omega
  | startsLogger was =>
    have posted := onLogger_rank s .start
    simp only [Application.rank, was, mainRank, LoggerTask.weight] at posted ⊢
    show 20 + poolRank s.threadPool + insideRank s.threadPool + s.exit.rank +
      loggerRank (s.onLogger fun l => l.post .start).logger < _
    omega
  | makesThread was pool more =>
    simp only [Application.rank, was, mainRank, pool, poolRank, insideRank, Option.elim_some]
    omega
  | ranOut was =>
    have inside := onPool_rank s (fun p => { p with stopped := true }) fun _ => rfl
    simp only [Application.rank, was, mainRank, inside]
    show 12 + insideRank s.threadPool + s.exit.rank + loggerRank s.logger < _
    omega
  | stopsPool was =>
    have inside := onPool_rank s (fun p => { p with workGuard := false }) fun _ => rfl
    simp only [Application.rank, was, mainRank, inside]
    show 10 + insideRank s.threadPool + s.exit.rank + loggerRank s.logger < _
    omega
  | joins was pool =>
    simp only [Application.rank, was, mainRank, pool, insideRank, Option.elim_some]
    omega
  | destroys was =>
    have members : s.destroyMembers.rank threadNum ≤ _ := destroyMembers_rank s
    simp only [Application.rank, was, mainRank] at members ⊢
    omega
  | setsLogger was | runs was | resets was =>
    simp only [Application.rank, was, mainRank]
    omega

theorem exitEnds_rank {on : AppThread} (was : s.exit = .loggerStopped on) :
    ({ s.onPool fun p => { p with workGuard := false } with exit := .done } : Application).rank threadNum <
      s.rank threadNum := by
  have inside := onPool_rank s (fun p => { p with workGuard := false }) fun _ => rfl
  have more : poolRank (s.onPool fun p => { p with workGuard := false }).threadPool =
      poolRank s.threadPool := by
    unfold onPool poolRank
    cases s.threadPool <;> rfl
  have main : mainRank threadNum (s.onPool fun p => { p with workGuard := false }).threadPool s.phase =
      mainRank threadNum s.threadPool s.phase := by
    cases s.phase <;> simp only [mainRank, more]
  simp only [rank, was, ExitHandler.rank, inside]
  show mainRank threadNum (s.onPool fun p => { p with workGuard := false }).threadPool s.phase +
    insideRank s.threadPool + 0 + loggerRank s.logger < _
  omega

theorem threadReturns_rank {p : ThreadPool} (pool : s.threadPool = some p) (inside : 0 < p.inside) :
    ({ s with threadPool := some { p with inside := p.inside - 1, stopped := true } } : Application).rank
      threadNum < s.rank threadNum := by
  have main : mainRank threadNum (some { p with inside := p.inside - 1, stopped := true }) s.phase =
      mainRank threadNum s.threadPool s.phase := by
    cases s.phase <;> simp only [mainRank, poolRank, pool, Option.elim_some]
  simp only [rank, main, pool, insideRank, Option.elim_some]
  omega

theorem log_over (ended : s.phase.over = true) (now : LocalTime) (msg : List Byte) :
    (s.log now msg).phase.over = true := by
  unfold log
  dsimp only
  split
  · exact ended
  · split
    · rfl
    · exact ended

theorem logAll_over (ended : s.phase.over = true) (now : LocalTime) (msgs : List (List Byte)) :
    (s.logAll now msgs).phase.over = true := by
  induction msgs generalizing s with
  | nil => exact ended
  | cons msg msgs ih => exact ih (log_over ended now msg)

theorem thrown_over (s : Application) (on : AppThread) (now : LocalTime) (e : AppException) :
    (s.thrown on now e).phase.over = true := by
  cases on with
  | main =>
    obtain ⟨exit, msgs, -, -, same⟩ := execThrows_eq s now e
    rw [show s.thrown .main now e = _ from same]
    exact logAll_over rfl now msgs
  | pool => rfl

theorem destroyMembers_over (s : Application) : s.destroyMembers.phase.over = true := by
  unfold destroyMembers
  dsimp only
  split <;> split <;> rfl

theorem Executed.over (ended : s.phase.over = true) (executed : Executed threadNum s t) :
    t.phase.over = true := by
  cases executed with
  | goesOn next => cases was : s.phase <;> simp_all [MainPhase.following, MainPhase.over]
  | leaves _ _ _ now msgs => exact logAll_over rfl now msgs
  | joins | resets => rfl
  | destroys => exact destroyMembers_over s
  | makesPool was | makesLogger was | setsLogger was | startsLogger was | makesThread was | runs was
  | ranOut was | stopsPool was =>
    rw [was] at ended
    cases ended

def FailsOver (s : Application) : Prop := s.exit = .failed → s.phase.over = true

theorem callOnExit_failsOver (fails : FailsOver s) : FailsOver s.callOnExit := by
  unfold callOnExit
  split
  · exact fails
  · unfold onExitRequest
    split
    · exact fun _ => rfl
    · exact fun failed => (by cases failed)

theorem failsOver_next (fails : FailsOver s) {a : Action}
    (taken : (machine threadNum).next s a = some t) : FailsOver t := by
  cases (stepped taken).2 with
  | exec env executed =>
    intro failed
    rw [executed.exit.1] at failed
    exact executed.over (fails failed)
  | logs now msg =>
    intro failed
    rw [log_exit] at failed
    exact log_over (fails failed) now msg
  | asks => exact callOnExit_failsOver fails
  | taskFails | exitFails => exact fun _ => thrown_over _ _ _ _
  | exitBegins | exits | stopsLogger | exitEnds => exact fun failed => (by cases failed)
  | posts | taskEnds | loggerRuns | ticks | returns => exact fails

/-- The exit was asked for and the program has nothing in the pool. -/
structure Closing (s : Application) : Prop where
  ok : Ok s
  sound : Sound s
  fails : FailsOver s
  asked : s.oneExit = true
  idle : s.tasks = 0

theorem log_tasks (s : Application) (now : LocalTime) (msg : List Byte) :
    (s.log now msg).tasks = s.tasks := by
  unfold log
  dsimp only
  split
  · rfl
  · split <;> rfl

theorem releaseLogger_tasks (s : Application) : s.releaseLogger.tasks = s.tasks := by
  unfold releaseLogger
  split <;> rfl

theorem destroyMembers_tasks (s : Application) : s.destroyMembers.tasks = s.tasks := by
  unfold destroyMembers
  dsimp only
  split <;> split <;> simp [releaseLogger_tasks]

theorem Executed.tasks (executed : Executed threadNum s t) : t.tasks = s.tasks := by
  cases executed with
  | leaves _ _ _ now msgs => exact logAll_keeps log_tasks _ now msgs
  | destroys => exact destroyMembers_tasks s
  | _ => rfl

theorem closing_next (closing : Closing s) {a : Action} (internal : a.internal = true)
    (taken : (machine threadNum).next s a = some t) : Closing t := by
  have asks : a.asks = false := by cases a <;> first | rfl | cases internal
  refine ⟨ok_next closing.ok taken, ?_, failsOver_next closing.fails taken, ?_, ?_⟩
  · exact (sound_next closing.ok closing.sound taken).mpr fun set => (by rw [asks] at set; cases set)
  · rw [(exit_next closing.ok.io taken).2, closing.asked, Bool.true_or]
  · rw [← closing.idle]
    cases (stepped taken).2 with
    | exec env executed => exact executed.tasks
    | asks set => exact absurd (set.symm.trans asks) (by decide)
    | exitBegins | exits | stopsLogger | exitEnds | loggerRuns | returns => rfl
    | logs | posts | taskEnds | taskFails | exitFails | ticks => cases internal

theorem closing_rank (closing : Closing s) {a : Action} (internal : a.internal = true)
    (taken : (machine threadNum).next s a = some t) : t.rank threadNum < s.rank threadNum := by
  cases (stepped taken).2 with
  | exec env executed => exact executed.rank closing.ok
  | asks set =>
    have other : a.asks = false := by cases a <;> first | rfl | cases internal
    exact absurd (set.symm.trans other) (by decide)
  | exitBegins was | exits was =>
    simp only [rank, was, ExitHandler.rank]
    omega
  | stopsLogger was =>
    have posted := onLogger_rank s .stop
    simp only [rank, was, ExitHandler.rank, LoggerTask.weight] at posted ⊢
    show mainRank threadNum s.threadPool s.phase + insideRank s.threadPool + 1 +
      loggerRank (s.onLogger fun l => l.post .stop).logger < _
    omega
  | exitEnds was => exact exitEnds_rank was
  | loggerRuns run logger head =>
    have fell := LoggerTask.execute_rank (closing.ok.io.logger _ logger) head s.terminal
    simp only [rank, logger, loggerRank, Option.elim_some]
    omega
  | returns pool inside out => exact threadReturns_rank pool inside
  | logs | posts | taskEnds | taskFails | exitFails | ticks => cases internal

theorem ranked : (machine threadNum).Ranked Closing (fun a => a.internal = true) (rank threadNum) :=
  ⟨fun _ _ _ closing internal taken => closing_next closing internal taken,
    fun _ _ _ closing internal taken => closing_rank closing internal taken⟩

/-- While the main thread is in `m_io.run()` and there is work, somebody does some of it. -/
theorem running_moves (closing : Closing s) (was : s.phase = .running) (work : s.outOfWork = false) :
    (∃ t, s.exitStep .main noon (.ok ()) = some t) ∨ (s.canRun = true ∧ ∃ t, s.loggerStep = some t) := by
  obtain ⟨p, pool⟩ := Option.isSome_iff_exists.mp (closing.ok.placed.pooled (by rw [was]; rfl))
  simp only [outOfWork, pool, Option.any_some, Bool.or_eq_false_iff, Bool.not_eq_false'] at work
  obtain ⟨running, work⟩ := work
  have free (other : s.exit.thread = none) : s.free .main = true := by
    simp [Application.free, pool, running, was, other]
  have requested := closing.ok.placed.requested (by rw [was]; simp) closing.asked
  cases exit : s.exit with
  | unasked => exact absurd exit requested
  | queued =>
    refine .inl ⟨{ s with exit := .exiting .main }, ?_⟩
    simp [exitStep, exit, free (by rw [exit]; rfl)]
  | exiting on => exact .inl ⟨_, by simp only [exitStep, exit]; rfl⟩
  | exited on => exact .inl ⟨_, by simp only [exitStep, exit]; rfl⟩
  | loggerStopped on => exact .inl ⟨_, by simp only [exitStep, exit]; rfl⟩
  | failed =>
    have ended := closing.fails exit
    rw [was] at ended
    cases ended
  | done =>
    have guard := (closing.ok.io.guard p pool).mpr exit
    have held : s.logger.any LoggerTask.held = true := by
      simpa [hasWork, pool, guard, exit, ExitHandler.pending, ExitHandler.thread, closing.idle] using work
    obtain ⟨l, logger, held⟩ := (Option.any_eq_true _ _).mp held
    refine .inr ⟨(Bool.or_eq_true _ _).mpr (.inl (free (by rw [exit]; rfl))), ?_⟩
    cases strand : l.strand with
    | cons h rest => exact ⟨_, by simp only [loggerStep, logger, strand]; rfl⟩
    | nil =>
      -- the strand is empty, so the stop has run, and it would have woken the logger
      have told := (closing.ok.io.told (by rw [exit]; rfl) l logger).resolve_left (by simp [strand])
      simp only [LoggerTask.held, strand, List.isEmpty_nil, Bool.not_true, Bool.false_or,
        decide_eq_true_eq] at held
      have woken := (closing.ok.io.logger l logger).woken held told
      simp [strand] at woken

theorem stuck_over (closing : Closing s)
    (stuck : (machine threadNum).Stuck (fun a => a.internal = true) s) : s.phase.over = true := by
  by_contra going
  have alive : s.phase.alive = true := by
    cases h : s.phase <;> simp_all [MainPhase.over, MainPhase.alive]
  have halted {a : Action} (internal : a.internal = true) : s.step threadNum a = none := by
    have none_ := stuck a internal
    simp only [machine, alive, if_true] at none_
    exact none_
  have exec : s.execStep threadNum calm = none := halted (a := .exec calm) rfl
  have pooled (phase : s.phase.pooled = true) := Option.isSome_iff_exists.mp (closing.ok.placed.pooled phase)
  cases was : s.phase with
  | spawning =>
    obtain ⟨p, pool⟩ := pooled (by rw [was]; rfl)
    simp only [execStep, was, spawnThread, pool, calm] at exec
    split at exec <;> cases exec
  | running =>
    have work : s.outOfWork = false := by
      by_contra out
      rw [Bool.not_eq_false] at out
      simp [execStep, was, out] at exec
    rcases running_moves closing was work with ⟨t, taken⟩ | ⟨run, t, taken⟩
    · have none_ : s.exitStep .main noon (.ok ()) = none := halted (a := .exit .main noon (.ok ())) rfl
      rw [taken] at none_
      cases none_
    · have none_ := halted (a := .logger) rfl
      simp only [step, run, if_true, taken] at none_
      cases none_
  | joining =>
    obtain ⟨p, pool⟩ := pooled (by rw [was]; rfl)
    have stopped := closing.ok.placed.drained (by rw [was]; rfl)
    have out : s.outOfWork = true := (Bool.or_eq_true _ _).mpr (.inl stopped)
    have returns : s.threadReturns = none := halted (a := .threadReturns) rfl
    simp only [execStep, was, join, pool] at exec
    split at exec
    · cases exec
    · rename_i inside
      simp [threadReturns, pool, out, Nat.pos_of_ne_zero inside] at returns
  | left e => simp [was, MainPhase.over] at going
  | reset e => simp [was, MainPhase.over] at going
  | destroyed => simp [was, MainPhase.over] at going
  | terminated => simp [was, MainPhase.over] at going
  | crashed => simp [was, MainPhase.over] at going
  | _ => simp [execStep, was, calm] at exec

theorem failsOver (reached : (machine threadNum).Reachable s) : FailsOver s :=
  reached.invariant (fun failed => (by cases failed)) fun _ _ _ before taken => failsOver_next before taken

/-- Once the exit was asked for and the program has nothing left in the pool, the shutdown cannot
    hang and cannot go on for ever: whoever takes the next step, after boundedly many of them
    nothing more can be done, and then `exec` was left. -/
theorem exec_returns (reached : (machine threadNum).Reachable s) (sound : s.Sound)
    (asked : s.oneExit = true) (idle : s.tasks = 0) :
    (∀ as t, (∀ a ∈ as, a.internal = true) → (machine threadNum).run s as = some t →
      as.length ≤ s.rank threadNum ∧
      ((machine threadNum).Stuck (fun a => a.internal = true) t → t.phase.over = true ∧ t.Sound)) ∧
    ∃ as t, (∀ a ∈ as, a.internal = true) ∧ (machine threadNum).run s as = some t ∧
      t.phase.over = true ∧ t.Sound := by
  have closing : Closing s := ⟨ok reached, sound, failsOver reached, asked, idle⟩
  have ranked : (machine threadNum).Ranked Closing (fun a => a.internal = true) (rank threadNum) :=
    ranked
  constructor
  · intro as t internal ran
    obtain ⟨later, bound⟩ := ranked.run_le closing internal ran
    exact ⟨by omega, fun stuck => ⟨stuck_over later stuck, later.sound⟩⟩
  · obtain ⟨as, t, internal, ran, stuck⟩ := ranked.settles closing
    have later := (ranked.run_le closing internal ran).1
    exact ⟨as, t, internal, ran, stuck_over later stuck, later.sound⟩

/-- The signal comes while the configuration is read. -/
theorem exec_returns_interrupted : ∃ s : Application,
    (machine 1).run (machine 1).initial (interrupted.take 7) = some s ∧ s.phase = .handlersSet ∧
      ∃ as t, (∀ a ∈ as, a.internal = true) ∧ (machine 1).run s as = some t ∧
        t.phase.over = true ∧ t.Sound := by
  have ran : (machine 1).run (machine 1).initial (interrupted.take 7) = some _ := rfl
  exact ⟨_, ran, rfl, (exec_returns ⟨_, ran⟩ (by decide) rfl rfl).2⟩

end Application

end BoostBase
