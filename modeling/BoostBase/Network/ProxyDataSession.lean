import BoostBase.Coroutine.CoroutineTask
import BoostBase.Transition.LastOut

namespace BoostBase

open Asio Transition LastOut

inductive ProxyState
  | read
  | write
  deriving DecidableEq, Repr

/-- What stands in the strand of a session; a failed operation resumes its coroutine
    with an exception. -/
inductive SessionHandler
  | start
  | stop
  | emit
  | otherDone (lastState : ProxyState)
  | resume (failure : Option Exception)
  deriving DecidableEq

/-- Where `Session::run` stands. `worked` tells whether `work` has armed its scope
    guard before the end. -/
inductive SessionPhase
  | idle
  | preparing
  | reading
  | writing
  | ended (worked : Bool) (e : Option Exception)
  deriving DecidableEq

def SessionPhase.active : SessionPhase → Bool
  | .preparing | .reading | .writing => true
  | _ => false

/-- `work` is between its scope guard's creation and its end. -/
def SessionPhase.working : SessionPhase → Bool
  | .reading | .writing => true
  | _ => false

def SessionPhase.isOver : SessionPhase → Bool
  | .ended _ _ => true
  | _ => false

def SessionPhase.finished : SessionPhase → Bool
  | .ended true _ => true
  | _ => false

structure ProxyDataSession where
  task : CoroutineTask Unit
  cancelled : Bool
  phase : SessionPhase
  state : ProxyState
  otherDone : Bool
  strand : List SessionHandler

inductive SocketOpKind
  | read
  | write
  deriving DecidableEq

namespace ProxyDataSession

def new : ProxyDataSession := ⟨.new, false, .idle, .read, false, []⟩

def post (x : ProxyDataSession) (h : SessionHandler) : ProxyDataSession :=
  { x with strand := x.strand ++ [h] }

/-- What a handler of a session does: its own members, what it posts to the other
    session, the operation it starts, and whether it closes both sockets. -/
structure Output where
  own : ProxyDataSession
  toOther : List SessionHandler
  op : Option SocketOpKind
  closing : Bool

def quietly (x : ProxyDataSession) : Output := ⟨x, [], none, false⟩

/-- `Session::run` ends and `CoroutineTask::work` with it, which stops the task on
    `operation_canceled`. -/
def endRun (x : ProxyDataSession) (worked : Bool) (e : Option Exception) : ProxyDataSession :=
  let x := if e.any Exception.canceled then x.post .stop else x
  { x with task := x.task.leave, phase := .ended worked e }

/-- The scope guard of `work`. -/
def endWork (x : ProxyDataSession) (e : Option Exception) : Output where
  own := x.endRun true e
  toOther := if x.otherDone then [] else [.otherDone x.state]
  op := none
  closing := x.otherDone

/-- `while(running() && !m_otherDone)` up to the suspension in `reader().some()`. A
    cancelled coroutine does not begin the next `co_await`. -/
def loop (x : ProxyDataSession) : Output :=
  if x.task.running && !x.otherDone then
    let x := { x with state := .read }
    if x.cancelled then x.endWork (some (.systemError .operationCanceled))
    else ⟨{ x with phase := .reading }, [], some .read, false⟩
  else x.endWork none

def afterRead (x : ProxyDataSession) (failure : Option Exception) : Output :=
  match failure with
  | some e => x.endWork (some e)
  | none =>
    let x := { x with state := .write }
    if x.cancelled then x.endWork (some (.systemError .operationCanceled))
    else ⟨{ x with phase := .writing }, [], some .write, false⟩

def afterWrite (x : ProxyDataSession) (failure : Option Exception) : Output :=
  match failure with
  | some e => x.endWork (some e)
  | none => x.loop

/-- `Session::run` once the socket has started: `work` locks the other session. -/
def afterPrepare (x : ProxyDataSession) (otherAlive : Bool) (failure : Option Exception) : Output :=
  match failure with
  | some e => quietly (x.endRun false (some e))
  | none =>
    if x.cancelled then quietly (x.endRun false (some (.systemError .operationCanceled)))
    else if otherAlive then x.loop
    else quietly (x.endRun false (some (.systemError .stateNotRecoverable)))

def resume (x : ProxyDataSession) (otherAlive : Bool) (failure : Option Exception) : Output :=
  match x.phase with
  | .preparing => x.afterPrepare otherAlive failure
  | .reading => x.afterRead failure
  | .writing => x.afterWrite failure
  | .idle | .ended _ _ => quietly x

/-- The body of `co_start` up to the suspension in `socket()->co_start()`. -/
def startBody (x : ProxyDataSession) : ProxyDataSession :=
  match x.task.enter () with
  | .error _ => x
  | .ok task => { x with task := task, phase := .preparing }

/-- The cancellation of the coroutine that executes `run`. -/
def emit (x : ProxyDataSession) : ProxyDataSession :=
  if x.task.cancellation.isSome then { x with cancelled := true } else x

/-- The body of `co_stop` with `onStop`, which stops the other session first. -/
def stopBody (x : ProxyDataSession) (otherAlive : Bool) : Output :=
  match x.task.stopEntry with
  | none => quietly x
  | some task => ⟨{ x with task := task }.emit, if otherAlive then [.stop] else [], none, false⟩

def otherDoneBody (x : ProxyDataSession) (lastState : ProxyState) : ProxyDataSession :=
  let x := if lastState = .read then x.post .stop else x
  { x with otherDone := true }

def execute (x : ProxyDataSession) (otherAlive : Bool) : SessionHandler → Output
  | .start => quietly x.startBody
  | .stop => x.stopBody otherAlive
  | .emit => quietly x.emit
  | .otherDone lastState => quietly (x.otherDoneBody lastState)
  | .resume failure => x.resume otherAlive failure

def resumed : SessionHandler → Bool
  | .resume _ => true
  | _ => false

/-- The operation the coroutine waits for has not completed yet. -/
def suspended (x : ProxyDataSession) : Bool := x.phase.active && !x.strand.any resumed

end ProxyDataSession

/-- A read or write that a `work` loop has started and that has not completed. -/
structure SocketOp where
  kind : SocketOpKind
  socket : Side
  issuer : Side
  deriving DecidableEq

/-- Two sessions linked by `setOther`. `held` are the owners outside the pair; `closes`
    counts the calls of `closeSocket`; `started` and `closers` are history. -/
structure ProxyPair where
  session : Side → ProxyDataSession
  held : Side → Bool
  started : Side → Bool
  ops : List SocketOp
  closes : Side → Nat
  closers : List Side

namespace ProxyPair

open ProxyDataSession

def new : ProxyPair where
  session := fun _ => .new
  held := fun _ => true
  started := fun _ => false
  ops := []
  closes := fun _ => 0
  closers := []

def setSession (p : ProxyPair) (x : Side) (s : ProxyDataSession) : ProxyPair :=
  { p with session := Function.update p.session x s }

def post (p : ProxyPair) (x : Side) (h : SessionHandler) : ProxyPair :=
  p.setSession x ((p.session x).post h)

/-- `m_other.lock()` succeeds: the session is owned from outside, by a handler in its
    strand, by its own coroutine or by the `work` loop of the other. -/
def alive (p : ProxyPair) (x : Side) : Bool :=
  p.held x || !(p.session x).strand.isEmpty || (p.session x).phase.active ||
    (p.session x.other).phase.working

/-- A loop reads from its own socket and writes to the other. -/
def issue (x : Side) : Option SocketOpKind → List SocketOp
  | none => []
  | some .read => [⟨.read, x, x⟩]
  | some .write => [⟨.write, x.other, x⟩]

def apply (p : ProxyPair) (x : Side) (o : Output) : ProxyPair :=
  let other := p.session x.other
  { p with
    session := Function.update
      (Function.update p.session x.other { other with strand := other.strand ++ o.toOther }) x o.own
    ops := p.ops ++ issue x o.op
    closes := if o.closing then fun y => p.closes y + 1 else p.closes
    closers := if o.closing then p.closers ++ [x] else p.closers }

def popped (p : ProxyPair) (x : Side) (rest : List SessionHandler) : ProxyPair :=
  p.setSession x { p.session x with strand := rest }

/-- Running the handler in front of a strand; the handler itself owns its session. -/
def runHead (p : ProxyPair) (x : Side) : Option ProxyPair :=
  match (p.session x).strand with
  | [] => none
  | h :: rest =>
    let p := p.popped x rest
    some (p.apply x ((p.session x).execute (p.alive x.other) h))

def start (p : ProxyPair) (x : Side) : ProxyPair :=
  { p.post x .start with started := Function.update p.started x true }

def release (p : ProxyPair) (x : Side) : ProxyPair :=
  { p with held := Function.update p.held x false }

def complete (p : ProxyPair) (x : Side) (failure : Option Exception) : ProxyPair :=
  { p.post x (.resume failure) with ops := p.ops.filter fun op => op.issuer ≠ x }

inductive Action
  | start (x : Side)
  | stop (x : Side)
  | emit (x : Side)
  | release (x : Side)
  | complete (x : Side) (failure : Option Exception)
  | run (x : Side)

def machine : Machine ProxyPair Action where
  initial := new
  next p
    | .start x => if p.alive x then some (p.start x) else none
    | .stop x => if p.alive x then some (p.post x .stop) else none
    | .emit x => if p.alive x then some (p.post x .emit) else none
    | .release x => some (p.release x)
    | .complete x failure =>
      if (p.session x).suspended then some (p.complete x failure) else none
    | .run x => p.runHead x

end ProxyPair

end BoostBase
