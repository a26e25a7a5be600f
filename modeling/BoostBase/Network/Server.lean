import BoostBase.Coroutine.CoroutineTask
import BoostBase.Transition.Machine

namespace BoostBase

open Asio Transition

/-- A session `Server::run` has created: whether its `stop` is connected to
    `m_stopped`, whether `start` was called, how often `stop` was, and whether the
    object still exists. -/
structure AcceptedSession where
  registered : Bool
  started : Bool
  stops : Nat
  alive : Bool
  deriving DecidableEq

inductive ServerPhase
  | idle
  | accepting
  | ended (e : Option Exception)
  deriving DecidableEq

inductive ServerHandler
  | start
  | stop
  | emit
  | resume (ec : ErrorCode)
  deriving DecidableEq

/-- What `run` meets while it runs: an acceptor that cannot be opened, a factory that
    throws, and `m_handler`, which may be empty, decide or throw. -/
structure ServerEnv where
  acceptor : Option Exception
  create : Option Exception
  handler : Option (Except Exception Bool)

structure Server where
  task : CoroutineTask Unit
  cancelled : Bool
  phase : ServerPhase
  sessions : List AcceptedSession
  fired : Bool
  strand : List ServerHandler

namespace Server

def new : Server := ⟨.new, false, .idle, [], false, []⟩

def post (s : Server) (h : ServerHandler) : Server := { s with strand := s.strand ++ [h] }

def resumed : ServerHandler → Bool
  | .resume _ => true
  | _ => false

def acceptPending (s : Server) : Bool := s.phase = .accepting && !s.strand.any resumed

def endRun (s : Server) (e : Option Exception) : Server :=
  let s := if e.any Exception.canceled then s.post .stop else s
  { s with task := s.task.leave, phase := .ended e }

/-- `while(running())` up to the suspension in `async_accept`. -/
def loop (s : Server) : Server :=
  if s.task.running then
    if s.cancelled then s.endRun (some (.systemError .operationCanceled))
    else { s with phase := .accepting }
  else s.endRun none

def emit (s : Server) : Server :=
  if s.task.cancellation.isSome then
    let marked := { s with cancelled := true }
    if s.acceptPending then marked.post (.resume .operationCanceled) else marked
  else s

/-- The slot `registerStop` connects; it tracks its session. -/
def AcceptedSession.stop (x : AcceptedSession) : AcceptedSession :=
  if x.registered && x.alive then { x with stops := x.stops + 1 } else x

/-- The body of `co_stop`; `onStop` does not suspend in a server. -/
def stopBody (s : Server) : Server :=
  match s.task.stopEntry with
  | none => s
  | some task =>
    let stopped := { s with task := task }.emit
    { stopped with sessions := stopped.sessions.map AcceptedSession.stop, fired := true }

/-- The body of `co_start`: `work`, then `run` up to its first suspension. -/
def startBody (s : Server) (env : ServerEnv) : Server :=
  match s.task.enter () with
  | .error _ => s
  | .ok task =>
    let entered := { s with task := task }
    match env.acceptor with
    | some e => entered.endRun (some e)
    | none => entered.loop

/-- `run` from the resumption of `async_accept` on. -/
def accepted (s : Server) (env : ServerEnv) (ec : ErrorCode) : Server :=
  if ec ≠ .success then s.endRun (some (.systemError ec))
  else
    match env.create with
    | some e => s.endRun (some e)
    | none =>
      let registered (started : Bool) : Server :=
        { s with sessions := s.sessions ++ [⟨true, started, 0, true⟩] }
      match env.handler with
      | none => (registered true).loop
      | some (.ok started) => (registered started).loop
      | some (.error e) => (registered false).endRun (some e)

def execute (s : Server) (env : ServerEnv) : ServerHandler → Server
  | .start => s.startBody env
  | .stop => s.stopBody
  | .emit => s.emit
  | .resume ec =>
    match s.phase with
    | .accepting => s.accepted env ec
    | _ => s

inductive Action
  | start
  | stop
  | cancel
  | complete (ec : ErrorCode)
  | destroy (i : Nat)
  | run (env : ServerEnv)

def machine : Machine Server Action where
  initial := new
  next s
    | .start => some (s.post .start)
    | .stop => some (s.post .stop)
    | .cancel => some (s.post .emit)
    | .complete ec => if s.acceptPending then some (s.post (.resume ec)) else none
    | .destroy i => some { s with sessions := s.sessions.modify i fun x => { x with alive := false } }
    | .run env =>
      match s.strand with
      | [] => none
      | h :: rest => some ({ s with strand := rest }.execute env h)

end Server

end BoostBase
