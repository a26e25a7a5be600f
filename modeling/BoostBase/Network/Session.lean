import BoostBase.Network.Socket
import BoostBase.Timed.Timed

namespace BoostBase

open Asio Transition

def timeout (timerEc : ErrorCode) (failure : Option Exception) : Option Exception :=
  match TimedInitiation.groupCompletion timerEc (.exceptionPtr failure ()) with
  | .exceptionPtr e _ => e
  | .errorCode _ _ | .plain _ => none

/-- Where `Session::run` stands. In `starting` the result of `co_start` is there once the
    coroutine that `timeout` has spawned for it has begun. -/
inductive RunPhase
  | created
  | preparing
  | starting (result : Option (Option Exception))
  | working
  | ended (e : Option Exception)

def RunPhase.isOver : RunPhase → Bool
  | .ended _ => true
  | _ => false

/-- The coroutine of `closeSocket`; in `closing` the one that `timeout` has spawned for
    `co_close` has not begun. -/
inductive CloserPhase
  | absent
  | spawned
  | closing
  | finished
  deriving DecidableEq

/-- A session with its socket. `events` is what its socket has done with the stream. -/
structure Session where
  socketAutoClose : Bool
  phase : RunPhase
  cancelled : Bool
  socket : Socket
  closer : CloserPhase
  events : List StreamEvent

namespace Session

def new (socket : Socket) : Session := ⟨true, .created, false, socket, .absent, []⟩

def closeSocket (s : Session) : Session := { s with closer := .spawned }

/-- `run` is left, and its scope guard with it. -/
def leave (s : Session) (e : Option Exception) : Session :=
  let s := { s with phase := .ended e }
  if s.socketAutoClose then s.closeSocket else s

/-- The next `co_await`, which a cancelled coroutine does not begin. -/
def await (s : Session) (phase : RunPhase) : Session :=
  if s.cancelled then s.leave (some (.systemError .operationCanceled)) else { s with phase := phase }

def failed {α : Type} : Except Exception α → Option Exception
  | .ok _ => none
  | .error e => some e

/-- A coroutine of `co_start` begins, and for a TCP socket ends. -/
def startSocket (s : Session) (world : StreamWorld) : Session :=
  let (socket, script) := s.socket.coStart
  let (events, result) := script.run world s.events
  { s with socket := socket, events := s.events ++ events, phase := .starting (some (failed result)) }

def runCloser (s : Session) (world : StreamWorld) : Session :=
  let (socket, script) := s.socket.coClose
  let (events, _) := script.run world s.events
  { s with socket := socket, events := s.events ++ events, closer := .finished }

/-- `prepared` and `worked` are the ends of the virtual `prepare` and `work`. `startEnds` and
    `closeDropped` are the ends of the two groups of a timer and a coroutine; a coroutine that
    was cancelled before it has begun does not begin. -/
inductive Action
  | run
  | cancel
  | prepared (failure : Option Exception)
  | startBegins (world : StreamWorld)
  | startEnds (timerEc : ErrorCode)
  | worked (failure : Option Exception)
  | closerRuns
  | closeBegins (world : StreamWorld)
  | closeDropped

def next (s : Session) : Action → Option Session
  | .run =>
    match s.phase with
    | .created => if s.cancelled then none else some { s with phase := .preparing }
    | _ => none
  | .cancel => some { s with cancelled := true }
  | .prepared failure =>
    match s.phase with
    | .preparing =>
      match failure with
      | some e => some (s.leave (some e))
      | none => some (s.await (.starting none))
    | _ => none
  | .startBegins world =>
    match s.phase with
    | .starting none => some (s.startSocket world)
    | _ => none
  | .startEnds timerEc =>
    match s.phase with
    | .starting result =>
      if result = none ∧ timerEc ≠ .success ∧ s.cancelled = false then none
      else
        match timeout timerEc (result.getD (some (.systemError .operationCanceled))) with
        | some e => some (s.leave (some e))
        | none => some (s.await .working)
    | _ => none
  | .worked failure =>
    match s.phase with
    | .working => some (s.leave failure)
    | _ => none
  | .closerRuns => if s.closer = .spawned then some { s with closer := .closing } else none
  | .closeBegins world => if s.closer = .closing then some (s.runCloser world) else none
  | .closeDropped => if s.closer = .closing then some { s with closer := .finished } else none

/-- A session with auto-close on that wraps `socket`. -/
def machine (socket : Socket) : Machine Session Action where
  initial := .new socket
  next := next

end Session

end BoostBase
