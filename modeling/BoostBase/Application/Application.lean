import BoostBase.Logger.ALogger
import BoostBase.Logger.LoggerTask

namespace BoostBase

open Asio Text Transition

/-- What is thrown, as `catch (const std::exception& e)` sees it. -/
inductive AppException
  | standard (what : List Byte)
  | foreign
  deriving DecidableEq

inductive ArgsResult
  | config
  | noConfig
  | unparsable (what : List Byte)
  deriving DecidableEq

inductive ExecExit
  | noConfig
  | unreadable
  | refused
  | ran
  | caught
  | threw
  deriving DecidableEq

def ExecExit.code : ExecExit → Option Int
  | .noConfig | .refused => some 1
  | .unreadable => some 2
  | .ran | .caught => some 0
  | .threw => none

/-- Where the main thread stands. It is inside `ThreadPool::run` from `spawning` on, inside
    `m_io.run()` in `running`, and in the destructor in `reset`. `terminated` is
    `std::terminate`, and `crashed` is the use of a null or dangling pointer. -/
inductive MainPhase
  | constructed
  | argsRead
  | poolMade
  | loggerMade
  | loggerSet
  | sigintSet
  | handlersSet
  | configRead
  | itemsStarted
  | spawning
  | running
  | stopping
  | joining
  | left (e : ExecExit)
  | reset (e : ExecExit)
  | destroyed
  | terminated
  | crashed
  deriving DecidableEq

namespace MainPhase

def alive : MainPhase → Bool
  | .destroyed | .terminated | .crashed => false
  | _ => true

/-- The handler of `SIGINT` is installed. -/
def sigint : MainPhase → Bool
  | .constructed | .argsRead | .poolMade | .loggerMade | .loggerSet => false
  | .left e | .reset e => e ≠ .noConfig
  | _ => true

def sigterm : MainPhase → Bool
  | .sigintSet => false
  | p => p.sigint

/-- `readConfig` and `start` run, which may give work to the pool. -/
def starting : MainPhase → Bool
  | .handlersSet | .configRead => true
  | _ => false

end MainPhase

inductive AppThread
  | main
  | pool
  deriving DecidableEq

/-- The handler `onExitRequest` posts, and the thread that runs it. `failed` is a `doExit`
    that has thrown. -/
inductive ExitHandler
  | unasked
  | queued
  | exiting (on : AppThread)
  | exited (on : AppThread)
  | loggerStopped (on : AppThread)
  | done
  | failed
  deriving DecidableEq

namespace ExitHandler

def thread : ExitHandler → Option AppThread
  | .exiting on | .exited on | .loggerStopped on => some on
  | _ => none

def pending : ExitHandler → Bool
  | .queued => true
  | e => e.thread.isSome

/-- `doExit` was called. -/
def entered : ExitHandler → Bool
  | .unasked | .queued => false
  | _ => true

end ExitHandler

/-- `ThreadPool`: `threads` are those to be joined, `inside` how many of them are in
    `m_io.run()`, and `stopped` tells that `m_io` has run out of work. -/
structure ThreadPool where
  threadNum : Int
  workGuard : Bool
  threads : Nat
  inside : Nat
  stopped : Bool
  deriving DecidableEq

def ThreadPool.new (threadNum : Int) : ThreadPool := ⟨threadNum, true, 0, 0, false⟩

/-- An application with its loggers and its pool. `tasks` is the work the program has given to
    the pool; `logged` is history. -/
structure Application where
  phase : MainPhase
  oneExit : Bool
  currentLogger : LoggerRef
  threadPool : Option ThreadPool
  logger : Option LoggerTask
  terminal : Terminal
  exit : ExitHandler
  tasks : Nat
  logged : List (LoggerRef × List Byte)

/-- What the main thread meets. -/
structure MainEnv where
  now : LocalTime
  args : ArgsResult
  readConfig : Except AppException Bool
  start : Except AppException Bool
  newThread : Except (List Byte) Unit

namespace Application

def new : Application where
  phase := .constructed
  oneExit := false
  currentLogger := .defaultLogger
  threadPool := none
  logger := none
  terminal := .new
  exit := .unasked
  tasks := 0
  logged := []

def onLogger (s : Application) (f : LoggerTask → LoggerTask) : Application :=
  { s with logger := s.logger.map f }

def onPool (s : Application) (f : ThreadPool → ThreadPool) : Application :=
  { s with threadPool := s.threadPool.map f }

def log (s : Application) (now : LocalTime) (msg : List Byte) : Application :=
  let newMsg := ALogger.newMsg now msg
  let noted := { s with logged := s.logged ++ [(s.currentLogger, newMsg)] }
  match s.currentLogger with
  | .defaultLogger => { noted with terminal := s.terminal.print newMsg }
  | .asyncLogger =>
    match s.logger with
    | none => { s with phase := .crashed }
    | some l => { noted with logger := some { l with queue := l.queue.logImpl newMsg } }

/-- `post` dereferences `m_threadPool`. -/
def onExitRequest (s : Application) : Application :=
  match s.threadPool with
  | none => { s with phase := .crashed }
  | some _ => { s with exit := .queued }

def callOnExit (s : Application) : Application :=
  if s.oneExit then s else { s with oneExit := true }.onExitRequest

def processArgs (s : Application) (env : MainEnv) : Application :=
  let refused := { s with phase := .left .noConfig }
  match env.args with
  | .config => { s with phase := .argsRead }
  | .noConfig => refused.log env.now (bytes "Must set config with --c <config_path>")
  | .unparsable what =>
    (refused.log env.now (bytes "Error parsing command line arguments " ++ what)).log env.now
      (bytes "Must set config with --c <config_path>")

def execThrows (s : Application) (now : LocalTime) : AppException → Application
  | .standard what =>
    { s with phase := .left .caught }.log now (bytes "BaseConfigApplication exec exception " ++ what)
  | .foreign => { s with phase := .left .threw }

def thrown (s : Application) (on : AppThread) (now : LocalTime) (e : AppException) : Application :=
  match on with
  | .main => s.execThrows now e
  | .pool => { s with phase := .terminated }

def hasWork (s : Application) : Bool :=
  s.threadPool.any ThreadPool.workGuard || s.exit.pending || 0 < s.tasks ||
    s.logger.any LoggerTask.held

def outOfWork (s : Application) : Bool := s.threadPool.any ThreadPool.stopped || !s.hasWork

/-- A thread is in `m_io.run()` and can take a handler. -/
def free (s : Application) (on : AppThread) : Bool :=
  !s.threadPool.any ThreadPool.stopped &&
    match on with
    | .main => s.phase = .running && s.exit.thread ≠ some .main
    | .pool =>
      s.threadPool.any fun p => (if s.exit.thread = some .pool then 1 else 0) < p.inside

def canRun (s : Application) : Bool := s.free .main || s.free .pool

/-- The loop of `ThreadPool::run`. -/
def spawnThread (s : Application) (env : MainEnv) : Option Application :=
  match s.threadPool with
  | none => none
  | some p =>
    if (p.threads : Int) < p.threadNum then
      match env.newThread with
      | .ok () =>
        some { s with threadPool := some { p with threads := p.threads + 1, inside := p.inside + 1 } }
      | .error what => some (s.execThrows env.now (.standard what))
    else some { s with phase := .running }

def join (s : Application) : Option Application :=
  match s.threadPool with
  | none => none
  | some p =>
    if p.inside = 0 then
      some { s with threadPool := some { p with threads := 0 }, phase := .left .ran }
    else none

def releaseLogger (s : Application) : Application :=
  match s.logger with
  | none => s
  | some l => { s with logger := none, terminal := (l.flush s.terminal).2 }

/-- The members of the application in reverse order. A logger that is held goes with the
    handlers of `m_io`; a thread that was not joined ends the process before that. -/
def destroyMembers (s : Application) : Application :=
  let s := if s.logger.any LoggerTask.held then s else s.releaseLogger
  if s.threadPool.any fun p => 0 < p.threads then { s with phase := .terminated }
  else { s.releaseLogger with threadPool := none, phase := .destroyed }

/-- The next piece of `exec`, then the destructor. -/
def execStep (threadNum : Int) (s : Application) (env : MainEnv) : Option Application :=
  match s.phase with
  | .constructed => some (s.processArgs env)
  | .argsRead => some { s with threadPool := some (.new threadNum), phase := .poolMade }
  | .poolMade => some { s with logger := some .new, phase := .loggerMade }
  | .loggerMade => some { s with currentLogger := .asyncLogger, phase := .loggerSet }
  | .loggerSet => some { s with phase := .sigintSet }
  | .sigintSet => some { s with phase := .handlersSet }
  | .handlersSet =>
    match env.readConfig with
    | .ok true => some { s with phase := .configRead }
    | .ok false => some { s with phase := .left .unreadable }
    | .error e => some (s.execThrows env.now e)
  | .configRead =>
    match env.start with
    | .ok true => some { s with phase := .itemsStarted }
    | .ok false => some { s with phase := .left .refused }
    | .error e => some (s.execThrows env.now e)
  | .itemsStarted => some { s.onLogger fun l => l.post .start with phase := .spawning }
  | .spawning => s.spawnThread env
  | .running =>
    if s.outOfWork then
      some { s.onPool fun p => { p with stopped := true } with phase := .stopping }
    else none
  | .stopping => some { s.onPool fun p => { p with workGuard := false } with phase := .joining }
  | .joining => s.join
  | .left e => some { s with currentLogger := .defaultLogger, phase := .reset e }
  | .reset _ => some s.destroyMembers
  | .destroyed | .terminated | .crashed => none

/-- The next piece of the handler `onExitRequest` posts; `on` is the thread that takes it. -/
def exitStep (s : Application) (on : AppThread) (now : LocalTime) (doExit : Except AppException Unit) :
    Option Application :=
  match s.exit with
  | .queued => if s.free on then some { s with exit := .exiting on } else none
  | .exiting on =>
    match doExit with
    | .ok () => some { s with exit := .exited on }
    | .error e => some ({ s with exit := .failed }.thrown on now e)
  | .exited on => some { s.onLogger fun l => l.post .stop with exit := .loggerStopped on }
  | .loggerStopped _ => some { s.onPool fun p => { p with workGuard := false } with exit := .done }
  | .unasked | .done | .failed => none

def loggerStep (s : Application) : Option Application :=
  match s.logger with
  | none => none
  | some l =>
    match l.strand with
    | [] => none
    | h :: rest =>
      let done := (l.popped rest).execute s.terminal h
      some { s with logger := some done.1, terminal := done.2 }

def tick (s : Application) : Option Application :=
  if s.logger.any LoggerTask.waits then some (s.onLogger fun l => l.post (.wake false)) else none

def threadReturns (s : Application) : Option Application :=
  match s.threadPool with
  | none => none
  | some p =>
    if 0 < p.inside ∧ s.outOfWork then
      some { s with threadPool := some { p with inside := p.inside - 1, stopped := true } }
    else none

/-- Who may give work to the pool: `readConfig`, `start`, a task, `doExit`. -/
def posting (s : Application) : Bool :=
  s.phase.starting || (s.canRun && 0 < s.tasks) ||
    match s.exit with
    | .exiting _ => true
    | _ => false

inductive Signal
  | int
  | term
  deriving DecidableEq

def installed (s : Application) : Signal → Bool
  | .int => s.phase.sigint
  | .term => s.phase.sigterm

inductive Action
  | exec (env : MainEnv)
  | log (now : LocalTime) (msg : List Byte)
  | quit
  | signal (sig : Signal)
  | post
  | taskDone
  | taskThrows (on : AppThread) (now : LocalTime) (e : AppException)
  | exit (on : AppThread) (now : LocalTime) (doExit : Except AppException Unit)
  | logger
  | tick
  | threadReturns

def step (threadNum : Int) (s : Application) : Action → Option Application
  | .exec env => s.execStep threadNum env
  | .log now msg => some (s.log now msg)
  | .quit => some s.callOnExit
  | .signal sig => if s.installed sig then some s.callOnExit else none
  | .post => if s.posting then some { s with tasks := s.tasks + 1 } else none
  | .taskDone => if s.canRun && 0 < s.tasks then some { s with tasks := s.tasks - 1 } else none
  | .taskThrows on now e =>
    if s.free on && 0 < s.tasks then some ({ s with tasks := s.tasks - 1 }.thrown on now e) else none
  | .exit on now doExit => s.exitStep on now doExit
  | .logger => if s.canRun then s.loggerStep else none
  | .tick => if s.canRun then s.tick else none
  | .threadReturns => s.threadReturns

def machine (threadNum : Int) : Machine Application Action where
  initial := new
  next s a := if s.phase.alive then s.step threadNum a else none

end Application

end BoostBase
