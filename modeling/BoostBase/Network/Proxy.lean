import BoostBase.Network.ProxyDataSession

namespace BoostBase

open Asio Transition LastOut

/-- Where `Proxy::run` stands. In `handoff` it has called `p1->start()` and has not yet
    reached the `co_await` of `p2`. -/
inductive ProxyPhase
  | idle
  | getSession
  | firstWork
  | secondWork
  | handoff
  | awaitSecond
  | ended (e : Option Exception)
  deriving DecidableEq

/-- The stages before the data sessions exist, each with its own timeout. -/
def ProxyPhase.stage : ProxyPhase → Bool
  | .getSession | .firstWork | .secondWork => true
  | _ => false

def ProxyPhase.isOver : ProxyPhase → Bool
  | .ended _ => true
  | _ => false

inductive ProxyHandler
  | start
  | stop
  | emit
  | resume (failure : Option Exception)
  deriving DecidableEq

/-- `pair` are the data sessions: `p1` is side `a`, `p2` side `b`. Until `run` makes them
    they are as constructed. -/
structure Proxy where
  task : CoroutineTask Unit
  cancelled : Bool
  phase : ProxyPhase
  pair : ProxyPair
  strand : List ProxyHandler

namespace Proxy

def new : Proxy := ⟨.new, false, .idle, .new, []⟩

def post (p : Proxy) (h : ProxyHandler) : Proxy := { p with strand := p.strand ++ [h] }

def resumed : ProxyHandler → Bool
  | .resume _ => true
  | _ => false

/-- The exits of `work`; the frame of `run` gives up `p1` and `p2`. -/
def endRun (p : Proxy) (e : Option Exception) : Proxy :=
  let p := if e.any Exception.canceled then p.post .stop else p
  { p with task := p.task.leave, phase := .ended e, pair := (p.pair.release .a).release .b }

/-- A `co_await`. A cancelled coroutine does not begin it. -/
def await (p : Proxy) (phase : ProxyPhase) : Proxy :=
  if p.cancelled then p.endRun (some (.systemError .operationCanceled))
  else { p with phase := phase }

/-- The body of `co_start` up to the suspension in `m_provider->get`. -/
def startBody (p : Proxy) : Proxy :=
  match p.task.enter () with
  | .error _ => p
  | .ok task => { p with task := task, phase := .getSession }

/-- The cancellation of the coroutine that executes `run`. While it awaits `p2` the
    cancellation slot passes it on to the coroutine of `p2`. -/
def emit (p : Proxy) : Proxy :=
  if p.task.cancellation.isSome then
    { p with
      cancelled := true
      pair := if p.phase = .awaitSecond then p.pair.post .b .emit else p.pair }
  else p

/-- The body of `co_stop`; `onStop` does nothing in a proxy. -/
def stopBody (p : Proxy) : Proxy :=
  match p.task.stopEntry with
  | none => p
  | some task => { p with task := task }.emit

def resume (p : Proxy) (failure : Option Exception) : Proxy :=
  match failure with
  | some e => p.endRun (some e)
  | none =>
    match p.phase with
    | .getSession => p.await .firstWork
    | .firstWork => p.await .secondWork
    | .secondWork => { p with pair := p.pair.start .a, phase := .handoff }
    | .awaitSecond => p.endRun none
    | .idle | .handoff | .ended _ => p

def startSecond (p : Proxy) : Proxy :=
  if p.cancelled then p.endRun (some (.systemError .operationCanceled))
  else { p with pair := p.pair.start .b, phase := .awaitSecond }

def execute (p : Proxy) : ProxyHandler → Proxy
  | .start => p.startBody
  | .stop => p.stopBody
  | .emit => p.emit
  | .resume failure => p.resume failure

/-- What the `co_start` of a data session gives when a handler of the session ends it. -/
def joined (before after : ProxyDataSession) : Option (Option Exception) :=
  match after.phase with
  | .ended _ e => if before.phase.active then some e else none
  | .idle =>
    if before.strand.head? = some .start then some (some (.systemError .stateNotRecoverable))
    else none
  | .preparing | .reading | .writing => none

/-- A handler of a data session has run; the end of `p2` resumes `run`. -/
def ranData (p : Proxy) (x : Side) (pair : ProxyPair) : Proxy :=
  let p' := { p with pair := pair }
  match x with
  | .a => p'
  | .b =>
    match joined (p.pair.session .b) (pair.session .b) with
    | none => p'
    | some e => p'.post (.resume e)

inductive Action
  | start
  | stop
  | cancel
  | complete (failure : Option Exception)
  | startSecond
  | run
  | completeData (x : Side) (failure : Option Exception)
  | runData (x : Side)
  deriving DecidableEq

def machine : Machine Proxy Action where
  initial := new
  next p
    | .start => some (p.post .start)
    | .stop => some (p.post .stop)
    | .cancel => some (p.post .emit)
    | .complete failure =>
      if p.phase.stage && !p.strand.any resumed then some (p.post (.resume failure)) else none
    | .startSecond => if p.phase = .handoff then some p.startSecond else none
    | .run =>
      if p.phase = .handoff then none
      else
        match p.strand with
        | [] => none
        | h :: rest => some ({ p with strand := rest }.execute h)
    | .completeData x failure =>
      if (p.pair.session x).suspended then some { p with pair := p.pair.complete x failure }
      else none
    | .runData x => (p.pair.runHead x).map (p.ranData x)

end Proxy

end BoostBase
