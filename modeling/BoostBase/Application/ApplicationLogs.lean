import BoostBase.Application.ApplicationExit

namespace BoostBase

open Asio Text Transition

/-- The default logger is the only one until `m_logger` is made. -/
def MainPhase.unlogged : MainPhase → Bool
  | .constructed | .argsRead | .poolMade => true
  | _ => false

namespace Application

variable {s t : Application} {threadNum : Int}

def loggedTo (s : Application) (r : LoggerRef) : List (List Byte) :=
  (s.logged.filter fun p => p.1 = r).map Prod.snd

def queue (s : Application) : Option AsyncLogger := s.logger.map LoggerTask.queue

/-- What `r` was given and has not printed. -/
def queuedIn (s : Application) : LoggerRef → List (List Byte)
  | .defaultLogger => []
  | .asyncLogger => s.queue.elim [] AsyncLogger.logs

structure Accounted (s : Application) : Prop where
  logged : ∀ r, s.loggedTo r = s.terminal.ofLogger r ++ s.queuedIn r
  quiet : ∀ q, s.queue = some q → q.base.autoFlush = false
  whole : s.terminal.Whole
  unmade : s.phase.unlogged = true → s.logger = none
  gone : s.phase = .destroyed → s.logger = none

theorem accounted_initial : Accounted (machine threadNum).initial := by
  refine ⟨fun r => ?_, fun q given => (by cases given), Terminal.new_whole, fun _ => rfl, fun _ => rfl⟩
  cases r <;> rfl

theorem Accounted.same (acc : Accounted s) (logged : t.logged = s.logged)
    (terminal : t.terminal = s.terminal) (queue : t.queue = s.queue)
    (unmade : t.phase.unlogged = true → t.logger = none)
    (gone : t.phase = .destroyed → t.logger = none) : Accounted t := by
  refine ⟨fun r => ?_, by rw [queue]; exact acc.quiet, by rw [terminal]; exact acc.whole, unmade, gone⟩
  have before := acc.logged r
  cases r <;> simp only [loggedTo, queuedIn, logged, terminal, queue] at before ⊢ <;> exact before

theorem Accounted.at_phase (acc : Accounted s) {phase : MainPhase} (late : phase.unlogged = false)
    (alive : phase ≠ .destroyed) : Accounted { s with phase := phase } :=
  acc.same rfl rfl rfl (fun early => absurd (late.symm.trans early) (by simp))
    fun gone => absurd gone alive

theorem loggedTo_snoc (s : Application) (r r' : LoggerRef) (msg : List Byte) :
    ({ s with logged := s.logged ++ [(r', msg)] } : Application).loggedTo r =
      s.loggedTo r ++ if r' = r then [msg] else [] := by
  unfold loggedTo
  rw [List.filter_append, List.map_append]
  split <;> simp [*]

theorem log_accounted (acc : Accounted s) (alive : s.phase ≠ .destroyed) (now : LocalTime)
    (msg : List Byte) : Accounted (s.log now msg) := by
  unfold log
  dsimp only
  split
  · rename_i current
    refine ⟨fun r => ?_, acc.quiet, acc.whole.print _, acc.unmade, acc.gone⟩
    have before := acc.logged r
    rw [current]
    refine (loggedTo_snoc s r .defaultLogger _).trans ?_
    rw [before]
    cases r with
    | defaultLogger => simp [queuedIn, Terminal.print, Terminal.ofLogger]
    | asyncLogger =>
      simp [queuedIn, queue, Terminal.print, Terminal.ofLogger]
  · rename_i current
    split
    · rename_i dangling
      exact acc.same rfl rfl rfl (fun early => (by cases early)) fun gone => (by cases gone)
    · rename_i l logger
      refine ⟨fun r => ?_, fun q given => ?_, acc.whole, fun early => ?_, fun gone => absurd gone alive⟩
      · have before := acc.logged r
        rw [current]
        refine (loggedTo_snoc s r .asyncLogger _).trans ?_
        rw [before]
        cases r with
        | defaultLogger => simp [queuedIn]
        | asyncLogger => simp [queuedIn, queue, logger, AsyncLogger.logImpl]
      · cases given
        exact acc.quiet l.queue (by rw [queue, logger]; rfl)
      · have none_ := acc.unmade early
        rw [logger] at none_
        cases none_

theorem Accounted.passed {l : LoggerTask} {done : LoggerTask × Terminal} (acc : Accounted s)
    (logger : s.logger = some l) (passes : LoggerTask.Passes l s.terminal done)
    (whole : done.2.Whole) (late : s.phase.unlogged = false) (alive : s.phase ≠ .destroyed) :
    Accounted { s with logger := some done.1, terminal := done.2 } := by
  have queue : s.queue = some l.queue := by rw [Application.queue, logger]; rfl
  refine ⟨fun r => ?_, fun q given => ?_, whole, fun early => absurd (late.symm.trans early) (by simp),
    fun gone => absurd gone alive⟩
  · have before := acc.logged r
    cases r with
    | defaultLogger =>
      refine before.trans ?_
      show s.terminal.ofLogger .defaultLogger ++ [] = done.2.ofLogger .defaultLogger ++ []
      rw [passes.others]
    | asyncLogger =>
      refine before.trans ?_
      show s.terminal.ofLogger .asyncLogger ++ s.queue.elim [] AsyncLogger.logs =
        done.2.ofLogger .asyncLogger ++ done.1.queue.logs
      rw [passes.queued, queue]
      rfl
  · cases given
    show done.1.queue.base.autoFlush = false
    rw [passes.base]
    exact acc.quiet l.queue queue

theorem releaseLogger_accounted (acc : Accounted s) : Accounted s.releaseLogger := by
  unfold releaseLogger
  split
  · exact acc
  · rename_i l logger
    have queue : s.queue = some l.queue := by rw [Application.queue, logger]; rfl
    have passes := LoggerTask.flush_passes l s.terminal
    refine ⟨fun r => ?_, fun q given => (by cases given),
      LoggerTask.flush_whole (acc.quiet l.queue queue) acc.whole, fun _ => rfl, fun _ => rfl⟩
    have before := acc.logged r
    cases r with
    | defaultLogger =>
      refine before.trans ?_
      show s.terminal.ofLogger .defaultLogger ++ [] = (l.flush s.terminal).2.ofLogger .defaultLogger ++ []
      rw [passes.others]
    | asyncLogger =>
      refine before.trans ?_
      show s.terminal.ofLogger .asyncLogger ++ s.queue.elim [] AsyncLogger.logs =
        (l.flush s.terminal).2.ofLogger .asyncLogger ++ []
      have queued := passes.queued
      rw [LoggerTask.flush_logs] at queued
      rw [queued, queue]
      rfl

@[simp] theorem releaseLogger_logger (s : Application) : s.releaseLogger.logger = none := by
  unfold releaseLogger
  split
  · assumption
  · rfl

theorem destroyMembers_accounted (acc : Accounted s) : Accounted s.destroyMembers := by
  have members : ∃ u, Accounted u ∧ (if s.logger.any LoggerTask.held then s else s.releaseLogger) = u := by
    split
    · exact ⟨s, acc, rfl⟩
    · exact ⟨_, releaseLogger_accounted acc, rfl⟩
  obtain ⟨u, acc, released⟩ := members
  unfold destroyMembers
  rw [released]
  dsimp only
  split
  · exact acc.at_phase rfl (by simp)
  · have flushed := releaseLogger_accounted acc
    exact flushed.same rfl rfl rfl (fun early => (by cases early)) fun _ => releaseLogger_logger u

theorem log_alive (alive : s.phase ≠ .destroyed) (now : LocalTime) (msg : List Byte) :
    (s.log now msg).phase ≠ .destroyed := by
  unfold log
  dsimp only
  split
  · exact alive
  · split
    · simp
    · exact alive

theorem logAll_accounted (acc : Accounted s) (alive : s.phase ≠ .destroyed) (now : LocalTime)
    (msgs : List (List Byte)) : Accounted (s.logAll now msgs) := by
  induction msgs generalizing s with
  | nil => exact acc
  | cons msg msgs ih => exact ih (log_accounted acc alive now msg) (log_alive alive now msg)

theorem leave_accounted (acc : Accounted s) (e : ExecExit) (now : LocalTime) (msgs : List (List Byte)) :
    Accounted ({ s with phase := .left e }.logAll now msgs) :=
  logAll_accounted (acc.at_phase rfl (by simp)) (by simp) now msgs

theorem thrown_accounted (acc : Accounted s) (on : AppThread) (now : LocalTime) (e : AppException) :
    Accounted (s.thrown on now e) := by
  cases on with
  | main =>
    obtain ⟨exit, msgs, -, -, same⟩ := execThrows_eq s now e
    rw [show s.thrown .main now e = _ from same]
    exact leave_accounted acc exit now msgs
  | pool => exact acc.at_phase rfl (by simp)

theorem post_accounted (acc : Accounted s) (h : LoggerHandler) :
    Accounted (s.onLogger fun l => l.post h) := by
  refine acc.same rfl rfl ?_ (fun early => ?_) fun gone => ?_
  · show (s.logger.map _).map LoggerTask.queue = s.logger.map LoggerTask.queue
    rw [Option.map_map]
    rfl
  · show s.logger.map _ = none
    rw [acc.unmade early, Option.map_none]
  · show s.logger.map _ = none
    rw [acc.gone gone, Option.map_none]

theorem makeLogger_accounted (acc : Accounted s) (was : s.phase = .poolMade) :
    Accounted { s with logger := some .new, phase := .loggerMade } := by
  have none_ := acc.unmade (by rw [was]; rfl)
  refine ⟨fun r => ?_, fun q given => ?_, acc.whole, fun early => (by cases early),
    fun gone => (by cases gone)⟩
  · have before := acc.logged r
    cases r with
    | defaultLogger => exact before
    | asyncLogger =>
      rw [queuedIn, Application.queue, none_] at before
      exact before
  · cases given
    rfl

theorem Executed.accounted (acc : Accounted s) (executed : Executed threadNum s t) : Accounted t := by
  cases executed with
  | goesOn next =>
    refine acc.same rfl rfl rfl (fun early => acc.unmade ?_) fun gone => ?_
    · cases was : s.phase <;> simp only [was, MainPhase.following, reduceCtorEq, Option.some.injEq] at next <;>
        subst next <;> first | rfl | cases early
    · cases was : s.phase <;> simp_all [MainPhase.following]
  | leaves _ _ _ now msgs => exact leave_accounted acc _ now msgs
  | makesPool was =>
    exact acc.same rfl rfl rfl (fun _ => acc.unmade (by rw [was]; rfl)) fun gone => (by cases gone)
  | makesLogger was => exact makeLogger_accounted acc was
  | startsLogger => exact (post_accounted acc .start).at_phase rfl (by simp)
  | makesThread => exact acc.same rfl rfl rfl (fun early => acc.unmade early) fun gone => acc.gone gone
  | destroys => exact destroyMembers_accounted acc
  | setsLogger | runs | ranOut | stopsPool | joins | resets =>
    exact acc.same rfl rfl rfl (fun early => (by cases early)) fun gone => (by cases gone)

theorem callOnExit_accounted (acc : Accounted s) : Accounted s.callOnExit := by
  unfold callOnExit
  split
  · exact acc
  · unfold onExitRequest
    split
    · exact acc.same rfl rfl rfl (fun early => (by cases early)) fun gone => (by cases gone)
    · exact acc.same rfl rfl rfl acc.unmade acc.gone

theorem loggerRuns_accounted (acc : Accounted s) (ok : Ok s) (run : s.canRun = true)
    (alive : s.phase.alive = true) {l : LoggerTask} (logger : s.logger = some l) (h : LoggerHandler)
    (rest : List LoggerHandler) :
    Accounted { s with
      logger := some ((l.popped rest).execute s.terminal h).1
      terminal := ((l.popped rest).execute s.terminal h).2 } := by
  have late : s.phase.unlogged = false := by
    have serving := (ok.serving_canRun run).late
    cases h : s.phase <;> simp_all [MainPhase.early, MainPhase.unlogged]
  have quiet : l.queue.base.autoFlush = false := acc.quiet l.queue (by rw [Application.queue, logger]; rfl)
  exact acc.passed logger
    ((LoggerTask.execute_passes (l.popped rest) s.terminal h).of_queue rfl)
    (LoggerTask.execute_whole (l := l.popped rest) quiet acc.whole h) late
    fun gone => (by rw [gone] at alive; cases alive)

theorem accounted_next (ok : Ok s) (acc : Accounted s) {a : Action}
    (taken : (machine threadNum).next s a = some t) : Accounted t := by
  have at_exit {u : Application} (acc : Accounted u) (e : ExitHandler) : Accounted { u with exit := e } :=
    acc.same rfl rfl rfl acc.unmade acc.gone
  obtain ⟨alive, stepped⟩ := stepped taken
  cases stepped with
  | exec env executed => exact executed.accounted acc
  | logs now msg => exact log_accounted acc (fun gone => by rw [gone] at alive; cases alive) now msg
  | asks => exact callOnExit_accounted acc
  | taskFails free now e =>
    exact thrown_accounted (s := { s with tasks := s.tasks - 1 })
      (acc.same rfl rfl rfl acc.unmade acc.gone) _ now e
  | exitBegins | exits => exact at_exit acc _
  | exitFails was by_ now e => exact thrown_accounted (at_exit acc _) _ now e
  | stopsLogger => exact at_exit (post_accounted acc .stop) _
  | loggerRuns run logger head => exact loggerRuns_accounted acc ok run alive logger _ _
  | ticks => exact post_accounted acc _
  | posts | taskEnds | exitEnds | returns => exact acc.same rfl rfl rfl acc.unmade acc.gone

theorem accounted (reached : (machine threadNum).Reachable s) : Accounted s :=
  (reached.invariant (I := fun s => Ok s ∧ Accounted s) ⟨ok_initial, accounted_initial⟩
    fun _ _ _ both taken => ⟨ok_next both.1 taken, accounted_next both.1 both.2 taken⟩).2

/-- Tagged lists that agree tag by tag are rearrangements of each other. -/
theorem perm_of_ofLogger {l m : List (LoggerRef × List Byte)}
    (same : ∀ r, l.filter (fun p => p.1 = r) = m.filter fun p => p.1 = r) : l.Perm m := by
  have parts (k : List (LoggerRef × List Byte)) :
      (k.filter (fun p => p.1 = .defaultLogger) ++ k.filter fun p => p.1 = .asyncLogger).Perm k := by
    have other : (fun p : LoggerRef × List Byte => decide (p.1 = .asyncLogger)) =
        fun p => !decide (p.1 = .defaultLogger) := by
      funext p
      obtain ⟨_ | _, _⟩ := p <;> rfl
    rw [other]
    exact List.filter_append_perm _ k
  have halves := parts l
  rw [same, same] at halves
  exact halves.symm.trans (parts m)

theorem tagged_eq (l : List (LoggerRef × List Byte)) (r : LoggerRef) :
    l.filter (fun p => p.1 = r) = ((l.filter fun p => p.1 = r).map Prod.snd).map fun msg => (r, msg) := by
  rw [List.map_map]
  refine (List.map_id _).symm.trans (List.map_congr_left fun p member => ?_)
  obtain ⟨_, same⟩ := List.mem_filter.mp member
  exact Prod.ext (of_decide_eq_true same) rfl

/-- At every moment of the life of an application each logger has printed what it was given, in
    that order, up to what it still holds; and once the application is destroyed every message
    logged was printed once, whichever logger was current, the bytes being those of the lines
    unless there is a NUL in a message. -/
theorem prints_all (reached : (machine threadNum).Reachable s) :
    (∀ r, s.loggedTo r = s.terminal.ofLogger r ++ s.queuedIn r) ∧
    (s.phase = .destroyed →
      s.terminal.printed.Perm s.logged ∧
      (∀ r, s.terminal.printed.filter (fun p => p.1 = r) = s.logged.filter fun p => p.1 = r) ∧
      s.terminal.out.buffered = [] ∧
      ((∀ p ∈ s.logged, nul ∉ p.2) →
        s.terminal.out.sent = s.terminal.printed.flatMap fun p => line p.2)) := by
  have acc := accounted reached
  refine ⟨acc.logged, fun destroyed => ?_⟩
  have same (r : LoggerRef) :
      s.terminal.printed.filter (fun p => p.1 = r) = s.logged.filter fun p => p.1 = r := by
    have queued : s.queuedIn r = [] := by
      cases r with
      | defaultLogger => rfl
      | asyncLogger => rw [queuedIn, queue, acc.gone destroyed]; rfl
    have given := acc.logged r
    rw [queued, List.append_nil] at given
    rw [tagged_eq s.terminal.printed, tagged_eq s.logged]
    exact congrArg _ given.symm
  have perm := perm_of_ofLogger same
  exact ⟨perm, same, acc.whole.settled,
    fun clean => acc.whole.sent fun p member => clean p (perm.mem_iff.mp member)⟩

/-- The last message is logged when `exec` has returned already. -/
def lived : List Action := interrupted ++ [.log noon [98, 121, 101], .exec calm, .exec calm]

theorem prints_all_lived : ∃ s, (machine 1).run (machine 1).initial lived = some s ∧
    s.terminal.printed.Perm s.logged ∧ s.logged.length = 2 ∧
    s.terminal.out.sent = s.terminal.printed.flatMap fun p => line p.2 := by
  have ran : (machine 1).run (machine 1).initial lived = some _ := rfl
  have printed := (prints_all ⟨_, ran⟩).2 rfl
  exact ⟨_, ran, printed.1, rfl, printed.2.2.2 (by decide)⟩

end Application

end BoostBase
