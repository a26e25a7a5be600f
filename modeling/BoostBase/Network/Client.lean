import BoostBase.Coroutine.CoroutineTask
import BoostBase.Transition.Machine

namespace BoostBase

open Asio Transition

/-- How `co_await session->co_start()` can end. A session that is stopped through its
    own `stop`, or whose socket is closed under its reads, rethrows the cancellation. -/
inductive SessionEnd
  | returned
  | threw (e : Exception)
  | stopped
  | socketClosed

def SessionEnd.exception : SessionEnd → Option Exception
  | .returned => none
  | .threw e => some e
  | .stopped | .socketClosed => some (.systemError .operationCanceled)

/-- Where `Client::run` stands. `refused` is an address that does not parse; a slot of a
    signal is running in `newSession` and `completing`. -/
inductive ClientPhase
  | idle
  | refused (e : Exception)
  | connecting
  | newSession (i : Nat)
  | inSession (i : Nat)
  | completing (i : Nat) (e : Option Exception)
  | waiting
  | left (e : Option Exception)

def ClientPhase.current : ClientPhase → Option Nat
  | .newSession i | .inSession i => some i
  | _ => none

def ClientPhase.active : ClientPhase → Bool
  | .idle | .refused _ | .left _ => false
  | _ => true

inductive ClientEvent
  | attempt (state : TaskState)
  | newSession (i : Nat)
  | sessionCompleted (i : Nat)
  | left
  deriving DecidableEq

/-- `Client` with the frame of `run`. Sessions are numbered as they are created;
    `frame` is the session the frame of `run` owns, `others` those somebody else does.
    `asked` and `log` are history. -/
structure Client where
  task : CoroutineTask Unit
  cancelled : Bool
  phase : ClientPhase
  session : Option Nat
  frame : Option Nat
  others : Nat → Bool
  created : Nat
  selfStops : Nat
  asked : Bool
  log : List ClientEvent

namespace Client

def new : Client where
  task := .new
  cancelled := false
  phase := .idle
  session := none
  frame := none
  others := fun _ => false
  created := 0
  selfStops := 0
  asked := false
  log := []

/-- `m_session.lock() != nullptr`. -/
def connected (c : Client) : Bool := c.session.any fun i => c.frame = some i || c.others i

def note (c : Client) (e : ClientEvent) : Client := { c with log := c.log ++ [e] }

/-- `run` ends and `work` with it, which stops the task on `operation_canceled`. -/
def leave (c : Client) (e : Option Exception) : Client :=
  let selfStops := if e.any Exception.canceled then c.selfStops + 1 else c.selfStops
  { c.note .left with task := c.task.leave, phase := .left e, selfStops := selfStops }

/-- `while(running())` up to the suspension in `async_connect`. -/
def loop (c : Client) : Client :=
  if c.task.running then
    if c.cancelled then c.leave (some (.systemError .operationCanceled))
    else { c.note (.attempt c.task.state) with phase := .connecting }
  else c.leave (some (.systemError .stateNotRecoverable))

def pause (c : Client) : Client :=
  if c.cancelled then c.leave (some (.systemError .operationCanceled))
  else { c with phase := .waiting }

/-- The connection succeeded: a session is made and `newSession` runs its slots. -/
def connect (managed : Bool) (c : Client) : Client :=
  { c.note (.newSession c.created) with
    session := if managed then some c.created else c.session
    frame := some c.created
    created := c.created + 1
    phase := .newSession c.created }

/-- The handlers around `co_await timeout(socket.async_connect(..))`. -/
def connectFailed (managed : Bool) (c : Client) (e : Exception) : Client :=
  if e.canceled || !managed then c.leave (some e) else c.pause

/-- The scope guard runs the slots of `sessionCompleted`; `e` is what is being thrown. -/
def complete (c : Client) (i : Nat) (e : Option Exception) : Client :=
  { c.note (.sessionCompleted i) with session := none, phase := .completing i e }

def enterSession (managed : Bool) (c : Client) (i : Nat) : Client :=
  if managed then
    if c.cancelled then c.complete i (some (.systemError .operationCanceled))
    else { c with phase := .inSession i }
  else { c with frame := none }.leave none

def afterSession (c : Client) (e : Option Exception) : Client :=
  let released := { c with frame := none }
  if e.any Exception.canceled then released.leave e else released.pause

/-- The body of `co_start`: `work`, then `run` up to its first suspension. -/
def startBody (c : Client) (address : Option Exception) : Client :=
  match c.task.enter () with
  | .error _ => c
  | .ok task =>
    let entered := { c with task := task }
    match address with
    | some e => { entered with task := task.leave, phase := .refused e }
    | none => entered.loop

/-- The body of `co_stop`; `onStop` does not suspend in a client. -/
def stopBody (c : Client) : Client :=
  match c.task.stopEntry with
  | none => c
  | some task => { c with task := task, cancelled := c.cancelled || task.cancellation.isSome }

/-- `start`, `stop` and `selfStop` are bodies of `co_start` and `co_stop` that run;
    `selfStop` is the one `work` has posted. `cancel` is a cancellation from the awaiting
    parent. `slotsDone` is the return of the slots of a signal. -/
inductive Action
  | start (address : Option Exception)
  | stop
  | selfStop
  | cancel
  | connectDone (failure : Option Exception)
  | slotsDone
  | sessionDone (result : SessionEnd)
  | waitDone (aborted : Bool)
  | hold (i : Nat) (held : Bool)

/-- A connect and a timer end with `operation_canceled` only once the coroutine that
    waits for them is cancelled; a session may do so by itself. -/
def machine (managed : Bool) : Machine Client Action where
  initial := new
  next c
    | .start address => some (c.startBody address)
    | .stop => some { c.stopBody with asked := true }
    | .selfStop => if 0 < c.selfStops then some { c.stopBody with selfStops := c.selfStops - 1 } else none
    | .cancel =>
      if c.task.cancellation.isSome then some { c with cancelled := true, asked := true } else none
    | .connectDone failure =>
      match c.phase, failure with
      | .connecting, none => some (c.connect managed)
      | .connecting, some e =>
        if e.canceled && !c.cancelled then none else some (c.connectFailed managed e)
      | _, _ => none
    | .slotsDone =>
      match c.phase with
      | .newSession i => some (c.enterSession managed i)
      | .completing _ e => some (c.afterSession e)
      | _ => none
    | .sessionDone result =>
      match c.phase with
      | .inSession i => some (c.complete i result.exception)
      | _ => none
    | .waitDone aborted =>
      match c.phase with
      | .waiting =>
        if aborted then
          if c.cancelled then some (c.leave (some (.systemError .operationCanceled))) else none
        else some c.loop
      | _ => none
    | .hold i held => some { c with others := Function.update c.others i held }

end Client

end BoostBase
