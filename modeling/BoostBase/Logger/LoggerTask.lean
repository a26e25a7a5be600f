import BoostBase.Coroutine.CoroutineTask
import BoostBase.Logger.AsyncLogger

namespace BoostBase

open Asio Text Transition

/-- The two loggers of an application, `m_defaultLogger` and `m_logger`. -/
inductive LoggerRef
  | defaultLogger
  | asyncLogger
  deriving DecidableEq

/-- `stdout`. `printed` is history: the messages handed to `printf` and whose they were. -/
structure Terminal where
  out : Stdout
  printed : List (LoggerRef × List Byte)

namespace Terminal

def new : Terminal := ⟨.empty, []⟩

def ofLogger (term : Terminal) (r : LoggerRef) : List (List Byte) :=
  (term.printed.filter fun p => p.1 = r).map Prod.snd

def print (term : Terminal) (msg : List Byte) : Terminal :=
  ⟨SimpleLogger.new.logImpl msg term.out, term.printed ++ [(.defaultLogger, msg)]⟩

end Terminal

inductive LoggerHandler
  | start
  | stop
  | wake (aborted : Bool)
  deriving DecidableEq

def LoggerHandler.isWake : LoggerHandler → Bool
  | .wake _ => true
  | _ => false

inductive LoggerPhase
  | idle
  | waiting
  | ended (e : Option Exception)
  deriving DecidableEq

/-- `AsyncLogger` as the task it is: `run` is suspended in `wait` in `waiting`. -/
structure LoggerTask where
  queue : AsyncLogger
  task : CoroutineTask Unit
  cancelled : Bool
  phase : LoggerPhase
  strand : List LoggerHandler

namespace LoggerTask

def new : LoggerTask := ⟨.new, .new, false, .idle, []⟩

def post (l : LoggerTask) (h : LoggerHandler) : LoggerTask := { l with strand := l.strand ++ [h] }

def flush (l : LoggerTask) (term : Terminal) : LoggerTask × Terminal :=
  let call := l.queue.flush term.out
  ({ l with queue := call.1 },
    ⟨call.2, term.printed ++ l.queue.logs.map fun msg => (.asyncLogger, msg)⟩)

def endRun (l : LoggerTask) (e : Option Exception) : LoggerTask :=
  let l := if e.any Exception.canceled then l.post .stop else l
  { l with task := l.task.leave, phase := .ended e }

/-- `while(running())` up to the suspension in `wait`. -/
def loop (l : LoggerTask) (term : Terminal) : LoggerTask × Terminal :=
  if l.task.running then
    let (l, term) := l.flush term
    if l.cancelled then (l.endRun (some (.systemError .operationCanceled)), term)
    else ({ l with phase := .waiting }, term)
  else (l.endRun none, term)

def startBody (l : LoggerTask) (term : Terminal) : LoggerTask × Terminal :=
  match l.task.enter () with
  | .error _ => (l, term)
  | .ok task => loop { l with task := task } term

def waits (l : LoggerTask) : Bool := l.phase = .waiting && !l.strand.any LoggerHandler.isWake

def emit (l : LoggerTask) : LoggerTask :=
  if l.task.cancellation.isSome then
    let marked := { l with cancelled := true }
    if l.waits then marked.post (.wake true) else marked
  else l

/-- The body of `co_stop`, with the `flush` of `onStop`. -/
def stopBody (l : LoggerTask) (term : Terminal) : LoggerTask × Terminal :=
  match l.task.stopEntry with
  | none => (l, term)
  | some task =>
    let (l, term) := { l with task := task }.flush term
    (l.emit, term)

/-- The timer of `wait` has expired or was cancelled. -/
def resume (l : LoggerTask) (aborted : Bool) (term : Terminal) : LoggerTask × Terminal :=
  match l.phase with
  | .waiting =>
    if aborted then (l.endRun (some (.systemError .operationCanceled)), term) else l.loop term
  | _ => (l, term)

def execute (l : LoggerTask) (term : Terminal) : LoggerHandler → LoggerTask × Terminal
  | .start => l.startBody term
  | .stop => l.stopBody term
  | .wake aborted => l.resume aborted term

/-- The state in which a handler runs: it has left the strand. -/
def popped (l : LoggerTask) (rest : List LoggerHandler) : LoggerTask := { l with strand := rest }

/-- What the coroutines and the queued handlers of the logger keep it alive for. -/
def held (l : LoggerTask) : Bool := !l.strand.isEmpty || l.phase = .waiting

/-- Nothing is lost, doubled or moved to the front, and the other logger is left alone. -/
structure Passes (l : LoggerTask) (term : Terminal) (done : LoggerTask × Terminal) : Prop where
  base : done.1.queue.base = l.queue.base
  queued : done.2.ofLogger .asyncLogger ++ done.1.queue.logs =
    term.ofLogger .asyncLogger ++ l.queue.logs
  others : done.2.ofLogger .defaultLogger = term.ofLogger .defaultLogger

variable {l : LoggerTask} {term : Terminal}

theorem Passes.refl (l : LoggerTask) (term : Terminal) : Passes l term (l, term) := ⟨rfl, rfl, rfl⟩

theorem Passes.of_queue {k : LoggerTask} {done : LoggerTask × Terminal} (passes : Passes k term done)
    (same : k.queue = l.queue) : Passes l term done :=
  ⟨passes.base.trans (congrArg _ same), passes.queued.trans (by rw [same]), passes.others⟩

theorem Passes.to_queue {done : LoggerTask × Terminal} {k : LoggerTask} (passes : Passes l term done)
    (same : k.queue = done.1.queue) : Passes l term (k, done.2) :=
  ⟨(congrArg _ same).trans passes.base, by rw [same]; exact passes.queued, passes.others⟩

@[simp] theorem post_queue (l : LoggerTask) (h : LoggerHandler) : (l.post h).queue = l.queue := rfl

@[simp] theorem endRun_queue (l : LoggerTask) (e : Option Exception) :
    (l.endRun e).queue = l.queue := by
  unfold endRun
  split <;> rfl

@[simp] theorem emit_queue (l : LoggerTask) : l.emit.queue = l.queue := by
  unfold emit
  split
  · dsimp only
    split <;> rfl
  · rfl

theorem flush_logs (l : LoggerTask) (term : Terminal) : (l.flush term).1.queue.logs = [] := by
  simp only [flush, AsyncLogger.flush]
  split <;> rfl

theorem flush_passes (l : LoggerTask) (term : Terminal) : Passes l term (l.flush term) := by
  refine ⟨?_, ?_, ?_⟩
  · simp only [flush, AsyncLogger.flush]
    split <;> rfl
  · rw [flush_logs]
    simp [flush, Terminal.ofLogger, List.filter_map, Function.comp_def]
  · simp [flush, Terminal.ofLogger, List.filter_map, Function.comp_def]

theorem loop_passes (l : LoggerTask) (term : Terminal) : Passes l term (l.loop term) := by
  unfold loop
  split
  · dsimp only
    split
    · exact (flush_passes l term).to_queue (endRun_queue _ _)
    · exact (flush_passes l term).to_queue rfl
  · exact (Passes.refl l term).to_queue (endRun_queue _ _)

theorem execute_passes (l : LoggerTask) (term : Terminal) (h : LoggerHandler) :
    Passes l term (l.execute term h) := by
  cases h with
  | start =>
    simp only [execute, startBody]
    split
    · exact .refl l term
    · exact (loop_passes _ term).of_queue rfl
  | stop =>
    simp only [execute, stopBody]
    split
    · exact .refl l term
    · exact ((flush_passes _ term).to_queue (emit_queue _)).of_queue rfl
  | wake aborted =>
    simp only [execute, resume]
    split
    · split
      · exact (Passes.refl l term).to_queue (endRun_queue _ _)
      · exact loop_passes l term
    · exact .refl l term

end LoggerTask

/-- Nothing is left in `stdio`, and what was sent are the messages printed, a line each, unless
    one has a NUL in it. -/
structure Terminal.Whole (term : Terminal) : Prop where
  settled : term.out.buffered = []
  sent : (∀ p ∈ term.printed, nul ∉ p.2) → term.out.sent = term.printed.flatMap fun p => line p.2

theorem Terminal.new_whole : Terminal.new.Whole := ⟨rfl, fun _ => rfl⟩

theorem Terminal.Whole.print {term : Terminal} (whole : term.Whole) (msg : List Byte) :
    (term.print msg).Whole := by
  have printed : (term.print msg).out = ⟨term.out.sent ++ line msg, []⟩ := by
    simp [Terminal.print, SimpleLogger.logImpl, SimpleLogger.new, Stdout.printf, Stdout.fflush,
      whole.settled]
  refine ⟨by rw [printed], fun clean => ?_⟩
  have before := whole.sent fun p member => clean p (List.mem_append_left _ member)
  rw [printed, Terminal.print, List.flatMap_append, ← before]
  simp

namespace LoggerTask

variable {l : LoggerTask} {term : Terminal}

theorem flush_whole (quiet : l.queue.base.autoFlush = false) (whole : term.Whole) :
    (l.flush term).2.Whole := by
  simp only [flush, AsyncLogger.flush_eq quiet whole.settled]
  refine ⟨rfl, fun clean => ?_⟩
  have before := whole.sent fun p member => clean p (List.mem_append_left _ member)
  have batch : AsyncLogger.batch l.queue.logs = l.queue.logs.flatMap line := by
    rw [AsyncLogger.batch_eq]
    intro msg member
    exact clean (.asyncLogger, msg)
      (List.mem_append_right _ (List.mem_map_of_mem (List.dropLast_subset _ member)))
  simp only [List.flatMap_append, before, batch, List.flatMap_map]

theorem loop_whole (quiet : l.queue.base.autoFlush = false) (whole : term.Whole) :
    (l.loop term).2.Whole := by
  unfold loop
  split
  · dsimp only
    split <;> exact flush_whole quiet whole
  · exact whole

theorem execute_whole (quiet : l.queue.base.autoFlush = false) (whole : term.Whole)
    (h : LoggerHandler) : (l.execute term h).2.Whole := by
  cases h with
  | start =>
    simp only [execute, startBody]
    split
    · exact whole
    · exact loop_whole quiet whole
  | stop =>
    simp only [execute, stopBody]
    split
    · exact whole
    · exact flush_whole quiet whole
  | wake aborted =>
    simp only [execute, resume]
    split
    · split
      · exact whole
      · exact loop_whole quiet whole
    · exact whole

end LoggerTask

end BoostBase
