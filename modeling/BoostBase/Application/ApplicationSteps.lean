import BoostBase.Application.Application

namespace BoostBase

open Asio Text Transition

/-- Where `exec` only goes on to the next piece. -/
def MainPhase.following : MainPhase → Option MainPhase
  | .constructed => some .argsRead
  | .loggerSet => some .sigintSet
  | .sigintSet => some .handlersSet
  | .handlersSet => some .configRead
  | .configRead => some .itemsStarted
  | _ => none

/-- Where `exec` can be left before the pool has run. -/
def MainPhase.leaving : MainPhase → Bool
  | .constructed | .handlersSet | .configRead | .spawning => true
  | _ => false

namespace Application

variable {s t : Application} {threadNum : Int}

def Action.asks : Action → Bool
  | .quit | .signal _ => true
  | _ => false

def logAll (s : Application) (now : LocalTime) (msgs : List (List Byte)) : Application :=
  msgs.foldl (fun u msg => u.log now msg) s

inductive Executed (threadNum : Int) (s : Application) : Application → Prop
  | goesOn {phase : MainPhase} (next : s.phase.following = some phase) :
      Executed threadNum s { s with phase := phase }
  | leaves {e : ExecExit} (was : s.phase.leaving = true) (pooled : e ≠ .noConfig → s.phase ≠ .constructed)
      (other : e ≠ .ran) (now : LocalTime) (msgs : List (List Byte)) :
      Executed threadNum s ({ s with phase := .left e }.logAll now msgs)
  | makesPool (was : s.phase = .argsRead) :
      Executed threadNum s { s with threadPool := some (.new threadNum), phase := .poolMade }
  | makesLogger (was : s.phase = .poolMade) :
      Executed threadNum s { s with logger := some .new, phase := .loggerMade }
  | setsLogger (was : s.phase = .loggerMade) :
      Executed threadNum s { s with currentLogger := .asyncLogger, phase := .loggerSet }
  | startsLogger (was : s.phase = .itemsStarted) :
      Executed threadNum s { s.onLogger fun l => l.post .start with phase := .spawning }
  | makesThread {p : ThreadPool} (was : s.phase = .spawning) (pool : s.threadPool = some p)
      (more : (p.threads : Int) < p.threadNum) :
      Executed threadNum s
        { s with threadPool := some { p with threads := p.threads + 1, inside := p.inside + 1 } }
  | runs (was : s.phase = .spawning) : Executed threadNum s { s with phase := .running }
  | ranOut (was : s.phase = .running) (out : s.outOfWork = true) :
      Executed threadNum s { s.onPool fun p => { p with stopped := true } with phase := .stopping }
  | stopsPool (was : s.phase = .stopping) :
      Executed threadNum s { s.onPool fun p => { p with workGuard := false } with phase := .joining }
  | joins {p : ThreadPool} (was : s.phase = .joining) (pool : s.threadPool = some p) (gone : p.inside = 0) :
      Executed threadNum s { s with threadPool := some { p with threads := 0 }, phase := .left .ran }
  | resets {e : ExecExit} (was : s.phase = .left e) :
      Executed threadNum s { s with currentLogger := .defaultLogger, phase := .reset e }
  | destroys {e : ExecExit} (was : s.phase = .reset e) : Executed threadNum s s.destroyMembers

theorem execThrows_eq (s : Application) (now : LocalTime) (e : AppException) :
    ∃ exit msgs, exit ≠ .noConfig ∧ exit ≠ .ran ∧
      s.execThrows now e = { s with phase := .left exit }.logAll now msgs := by
  cases e with
  | standard what => exact ⟨.caught, [_], by simp, by simp, rfl⟩
  | foreign => exact ⟨.threw, [], by simp, by simp, rfl⟩

theorem Executed.throws (was : s.phase.leaving = true) (late : s.phase ≠ .constructed) (now : LocalTime)
    (e : AppException) : Executed threadNum s (s.execThrows now e) := by
  obtain ⟨exit, msgs, -, other, same⟩ := execThrows_eq s now e
  rw [same]
  exact .leaves was (fun _ => late) other now msgs

theorem executed {env : MainEnv} (taken : s.execStep threadNum env = some t) : Executed threadNum s t := by
  unfold execStep at taken
  have leaves {e : ExecExit} (was : s.phase.leaving = true) (pooled : e ≠ .noConfig → s.phase ≠ .constructed)
      (other : e ≠ .ran) (msgs : List (List Byte)) :
      Executed threadNum s ({ s with phase := .left e }.logAll env.now msgs) := .leaves was pooled other env.now msgs
  cases was : s.phase with
  | constructed =>
    rw [was] at taken
    cases taken
    unfold processArgs
    cases env.args with
    | config => exact .goesOn (by rw [was]; rfl)
    | noConfig => exact leaves (by rw [was]; rfl) (fun other => absurd rfl other) (by simp) [_]
    | unparsable what => exact leaves (by rw [was]; rfl) (fun other => absurd rfl other) (by simp) [_, _]
  | argsRead =>
    rw [was] at taken
    cases taken
    exact .makesPool was
  | poolMade =>
    rw [was] at taken
    cases taken
    exact .makesLogger was
  | loggerMade =>
    rw [was] at taken
    cases taken
    exact .setsLogger was
  | loggerSet =>
    rw [was] at taken
    cases taken
    exact .goesOn (by rw [was]; rfl)
  | sigintSet =>
    rw [was] at taken
    cases taken
    exact .goesOn (by rw [was]; rfl)
  | handlersSet =>
    rw [was] at taken
    dsimp only at taken
    split at taken
    · cases taken
      exact .goesOn (by rw [was]; rfl)
    · cases taken
      exact leaves (by rw [was]; rfl) (by simp [was]) (by simp) []
    · cases taken
      exact .throws (by rw [was]; rfl) (by simp [was]) _ _
  | configRead =>
    rw [was] at taken
    dsimp only at taken
    split at taken
    · cases taken
      exact .goesOn (by rw [was]; rfl)
    · cases taken
      exact leaves (by rw [was]; rfl) (by simp [was]) (by simp) []
    · cases taken
      exact .throws (by rw [was]; rfl) (by simp [was]) _ _
  | itemsStarted =>
    rw [was] at taken
    cases taken
    exact .startsLogger was
  | spawning =>
    rw [was] at taken
    simp only [spawnThread] at taken
    split at taken
    · cases taken
    · rename_i p pool
      split at taken
      · rename_i more
        split at taken
        · cases taken
          exact .makesThread was pool more
        · cases taken
          exact .throws (by rw [was]; rfl) (by simp [was]) _ _
      · cases taken
        exact .runs was
  | running =>
    rw [was] at taken
    simp only [Option.ite_none_right_eq_some, Option.some.injEq] at taken
    obtain ⟨out, rfl⟩ := taken
    exact .ranOut was out
  | stopping =>
    rw [was] at taken
    cases taken
    exact .stopsPool was
  | joining =>
    rw [was] at taken
    simp only [join] at taken
    split at taken
    · cases taken
    · rename_i p pool
      simp only [Option.ite_none_right_eq_some, Option.some.injEq] at taken
      obtain ⟨gone, rfl⟩ := taken
      exact .joins was pool gone
  | left e =>
    rw [was] at taken
    cases taken
    exact .resets was
  | reset e =>
    rw [was] at taken
    cases taken
    exact .destroys was
  | destroyed | terminated | crashed =>
    rw [was] at taken
    cases taken

inductive Stepped (threadNum : Int) (s : Application) : Action → Application → Prop
  | exec {t : Application} (env : MainEnv) (executed : Executed threadNum s t) :
      Stepped threadNum s (.exec env) t
  | logs (now : LocalTime) (msg : List Byte) : Stepped threadNum s (.log now msg) (s.log now msg)
  | asks {a : Action} (asks : a.asks = true) : Stepped threadNum s a s.callOnExit
  | posts (posting : s.posting = true) : Stepped threadNum s .post { s with tasks := s.tasks + 1 }
  | taskEnds : Stepped threadNum s .taskDone { s with tasks := s.tasks - 1 }
  | taskFails {on : AppThread} (free : s.free on = true) (now : LocalTime) (e : AppException) :
      Stepped threadNum s (.taskThrows on now e) ({ s with tasks := s.tasks - 1 }.thrown on now e)
  | exitBegins {on : AppThread} (was : s.exit = .queued) (free : s.free on = true) (now : LocalTime)
      (doExit : Except AppException Unit) :
      Stepped threadNum s (.exit on now doExit) { s with exit := .exiting on }
  | exits {on : AppThread} (was : s.exit = .exiting on) (by_ : AppThread) (now : LocalTime) :
      Stepped threadNum s (.exit by_ now (.ok ())) { s with exit := .exited on }
  | exitFails {on : AppThread} (was : s.exit = .exiting on) (by_ : AppThread) (now : LocalTime)
      (e : AppException) :
      Stepped threadNum s (.exit by_ now (.error e)) ({ s with exit := .failed }.thrown on now e)
  | stopsLogger {on : AppThread} (was : s.exit = .exited on) (by_ : AppThread) (now : LocalTime)
      (doExit : Except AppException Unit) :
      Stepped threadNum s (.exit by_ now doExit)
        { s.onLogger fun l => l.post .stop with exit := .loggerStopped on }
  | exitEnds {on : AppThread} (was : s.exit = .loggerStopped on) (by_ : AppThread) (now : LocalTime)
      (doExit : Except AppException Unit) :
      Stepped threadNum s (.exit by_ now doExit)
        { s.onPool fun p => { p with workGuard := false } with exit := .done }
  | loggerRuns {l : LoggerTask} {h : LoggerHandler} {rest : List LoggerHandler} (run : s.canRun = true)
      (logger : s.logger = some l) (head : l.strand = h :: rest) :
      Stepped threadNum s .logger
        { s with
          logger := some ((l.popped rest).execute s.terminal h).1
          terminal := ((l.popped rest).execute s.terminal h).2 }
  | ticks {l : LoggerTask} (run : s.canRun = true) (logger : s.logger = some l) :
      Stepped threadNum s .tick (s.onLogger fun l => l.post (.wake false))
  | returns {p : ThreadPool} (pool : s.threadPool = some p) (inside : 0 < p.inside)
      (out : s.outOfWork = true) :
      Stepped threadNum s .threadReturns
        { s with threadPool := some { p with inside := p.inside - 1, stopped := true } }

theorem stepped {a : Action} (taken : (machine threadNum).next s a = some t) :
    s.phase.alive = true ∧ Stepped threadNum s a t := by
  simp only [machine, Option.ite_none_right_eq_some] at taken
  refine ⟨taken.1, ?_⟩
  replace taken := taken.2
  cases a with
  | exec env => exact .exec env (executed taken)
  | log now msg =>
    cases taken
    exact .logs now msg
  | quit =>
    cases taken
    exact .asks rfl
  | signal sig =>
    simp only [step, Option.ite_none_right_eq_some, Option.some.injEq] at taken
    obtain ⟨_, rfl⟩ := taken
    exact .asks rfl
  | post =>
    simp only [step, Option.ite_none_right_eq_some, Option.some.injEq] at taken
    obtain ⟨posting, rfl⟩ := taken
    exact .posts posting
  | taskDone =>
    simp only [step, Option.ite_none_right_eq_some, Option.some.injEq] at taken
    obtain ⟨_, rfl⟩ := taken
    exact .taskEnds
  | taskThrows on now e =>
    simp only [step, Option.ite_none_right_eq_some, Option.some.injEq] at taken
    obtain ⟨free, rfl⟩ := taken
    exact .taskFails (Bool.and_eq_true_iff.mp free).1 now e
  | exit on now doExit =>
    simp only [step, exitStep] at taken
    cases was : s.exit with
    | queued =>
      rw [was] at taken
      simp only [Option.ite_none_right_eq_some, Option.some.injEq] at taken
      obtain ⟨free, rfl⟩ := taken
      exact .exitBegins was free now doExit
    | exiting by_ =>
      rw [was] at taken
      cases doExit with
      | ok done =>
        cases taken
        exact .exits was on now
      | error e =>
        cases taken
        exact .exitFails was on now e
    | exited by_ =>
      rw [was] at taken
      cases taken
      exact .stopsLogger was on now doExit
    | loggerStopped by_ =>
      rw [was] at taken
      cases taken
      exact .exitEnds was on now doExit
    | unasked | done | failed =>
      rw [was] at taken
      cases taken
  | logger =>
    simp only [step, Option.ite_none_right_eq_some, loggerStep] at taken
    obtain ⟨run, taken⟩ := taken
    split at taken
    · cases taken
    · rename_i l logger
      split at taken
      · cases taken
      · rename_i h rest head
        cases taken
        exact .loggerRuns run logger head
  | tick =>
    simp only [step, Option.ite_none_right_eq_some, tick, Option.some.injEq] at taken
    obtain ⟨run, waits, rfl⟩ := taken
    obtain ⟨l, logger, -⟩ := (Option.any_eq_true _ _).mp waits
    exact .ticks run logger
  | threadReturns =>
    simp only [step, threadReturns] at taken
    split at taken
    · cases taken
    · rename_i p pool
      simp only [Option.ite_none_right_eq_some, Option.some.injEq] at taken
      obtain ⟨⟨inside, out⟩, rfl⟩ := taken
      exact .returns pool inside out

end Application

end BoostBase
