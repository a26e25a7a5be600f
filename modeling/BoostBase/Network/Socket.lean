import BoostBase.Asio.Error
import BoostBase.Transition.Script

namespace BoostBase

open Asio Transition

inductive SocketOption
  | noDelay (enable : Bool)
  | keepAlive (enable : Bool)
  | keepIdle (secs : Nat)
  | keepIntvl (secs : Nat)
  | keepCnt (count : Nat)
  deriving DecidableEq

/-- `TCPSocket::m_socket`, or the TLS stream on top of it. -/
inductive StreamLayer
  | tcp
  | tls
  deriving DecidableEq

inductive HandshakeType
  | client
  | server
  deriving DecidableEq

/-- What a socket asks of its stream. `shutdown`, `close` and `cancel` are those of the TCP
    stream, `tlsShutdown` is `async_shutdown`. -/
inductive StreamOp
  | setOption (option : SocketOption)
  | shutdown
  | close
  | cancel
  | readSome (layer : StreamLayer) (size : Nat)
  | readAll (layer : StreamLayer) (size : Nat)
  | writeAll (layer : StreamLayer) (data : List UInt8)
  | handshake (type : HandshakeType)
  | tlsShutdown
  deriving DecidableEq

/-- The error code with what was read or written; for `tlsShutdown`, whether the coroutine
    that waited for it has been cancelled by the time it is resumed. -/
@[reducible] def StreamOp.Answer : StreamOp → Type
  | .setOption _ | .shutdown | .close | .cancel | .handshake _ => ErrorCode
  | .readSome _ _ | .readAll _ _ => ErrorCode × List UInt8
  | .writeAll _ _ => ErrorCode × Nat
  | .tlsShutdown => ErrorCode × Bool

abbrev Await (α : Type) : Type := Script StreamOp StreamOp.Answer Exception α

abbrev StreamWorld : Type := World StreamOp StreamOp.Answer

abbrev StreamEvent : Type := Event StreamOp StreamOp.Answer

/-- A connection on which every operation succeeds. -/
def accepting : StreamWorld
  | _, .setOption _ | _, .shutdown | _, .close | _, .cancel | _, .handshake _ => .success
  | _, .readSome _ _ | _, .readAll _ _ => (.success, [])
  | _, .writeAll _ data => (.success, data.length)
  | _, .tlsShutdown => (.success, false)

def StreamOp.isTransfer : StreamOp → Bool
  | .readSome _ _ | .readAll _ _ | .writeAll _ _ => true
  | _ => false

def StreamOp.perform (op : StreamOp) : Await op.Answer := Script.ask op

/-- An operation that ends with an error code throws it. -/
def finish {α : Type} (ec : ErrorCode) (result : α) : Await α :=
  if ec = .success then .ret result else .raise (.systemError ec)

theorem finish_only {P : StreamOp → Prop} {α : Type} (ec : ErrorCode) (result : α) :
    (finish ec result).Only P := by
  unfold finish
  split <;> exact trivial

structure TCPSocket where
  fastPreset : Bool

namespace TCPSocket

def new : TCPSocket := ⟨true⟩

def setOption (option : SocketOption) : Await Unit := do
  let ec ← (StreamOp.setOption option).perform
  finish ec ()

def setNagle (enable : Bool) : Await Unit := setOption (.noDelay !enable)

def setKeepAlive (enable : Bool) : Await Unit := do
  setOption (.keepAlive enable)
  if enable then
    setOption (.keepIdle 20)
    setOption (.keepIntvl 10)
    setOption (.keepCnt 4)

def start (s : TCPSocket) : Await Unit := do
  if s.fastPreset then
    setNagle false
    setKeepAlive true

/-- Both error codes are ignored. -/
def close : Await Unit := do
  let _ec1 ← StreamOp.shutdown.perform
  let _ec2 ← StreamOp.close.perform

def readSome (layer : StreamLayer) (size : Nat) : Await (List UInt8) := do
  let (ec, bytes) ← (StreamOp.readSome layer size).perform
  finish ec bytes

def readAll (layer : StreamLayer) (size : Nat) : Await (List UInt8) := do
  let (ec, bytes) ← (StreamOp.readAll layer size).perform
  finish ec bytes

def writeAll (layer : StreamLayer) (data : List UInt8) : Await Nat := do
  let (ec, size) ← (StreamOp.writeAll layer data).perform
  finish ec size

def coReadSome (size : Nat) : Await (List UInt8) := readSome .tcp size

def coReadAll (size : Nat) : Await (List UInt8) := readAll .tcp size

def coWriteAll (data : List UInt8) : Await Nat := writeAll .tcp data

/-- The error code is ignored. -/
def cancel : Await Unit := do
  let _ec ← StreamOp.cancel.perform

end TCPSocket

namespace TCPSocket

variable {P : StreamOp → Prop}

theorem setOption_only (kind : ∀ option, P (.setOption option)) (option : SocketOption) :
    (setOption option).Only P := .bind (.ask (kind option)) fun ec => finish_only ec ()

theorem start_only (s : TCPSocket) (kind : ∀ option, P (.setOption option)) : s.start.Only P := by
  have sets := setOption_only kind
  unfold start
  split
  · have keepsAlive : (setKeepAlive true).Only P :=
      .bind (sets _) fun _ => .bind (sets _) fun _ => .bind (sets _) fun _ => sets _
    exact .bind (sets _) fun _ => keepsAlive
  · exact trivial

end TCPSocket

structure SSLSocket extends TCPSocket where
  ssl : Bool
  client : Bool

namespace SSLSocket

def new : SSLSocket := ⟨.new, true, true⟩

def setSSL (s : SSLSocket) (enabled : Bool) : SSLSocket := { s with ssl := enabled }

def start (s : SSLSocket) : Await Unit := do
  s.toTCPSocket.start
  let type := if s.client then HandshakeType.client else .server
  let ec ← (StreamOp.handshake type).perform
  finish ec ()

/-- A coroutine that was cancelled while it waited for the shutdown of the TLS stream does not
    begin `TCPSocket::close`. -/
def close (s : SSLSocket) : Await Unit := do
  if s.ssl then
    TCPSocket.cancel
    let (ec, cancelled) ← StreamOp.tlsShutdown.perform
    finish ec ()
    if cancelled then .raise (.systemError .operationCanceled)
  TCPSocket.close

def coReadSome (s : SSLSocket) (size : Nat) : Await (List UInt8) :=
  if s.ssl then TCPSocket.readSome .tls size else TCPSocket.coReadSome size

def coReadAll (s : SSLSocket) (size : Nat) : Await (List UInt8) :=
  if s.ssl then TCPSocket.readAll .tls size else TCPSocket.coReadAll size

def coWriteAll (s : SSLSocket) (data : List UInt8) : Await Nat :=
  if s.ssl then TCPSocket.writeAll .tls data else TCPSocket.coWriteAll data

end SSLSocket

inductive SocketState
  | initial
  | started
  | closed
  deriving DecidableEq, Repr

inductive SocketClass
  | tcp (s : TCPSocket)
  | ssl (s : SSLSocket)

namespace SocketClass

def start : SocketClass → Await Unit
  | .tcp s => s.start
  | .ssl s => s.start

def close : SocketClass → Await Unit
  | .tcp _ => TCPSocket.close
  | .ssl s => s.close

def coReadSome : SocketClass → Nat → Await (List UInt8)
  | .tcp _ => TCPSocket.coReadSome
  | .ssl s => s.coReadSome

def coReadAll : SocketClass → Nat → Await (List UInt8)
  | .tcp _ => TCPSocket.coReadAll
  | .ssl s => s.coReadAll

def coWriteAll : SocketClass → List UInt8 → Await Nat
  | .tcp _ => TCPSocket.coWriteAll
  | .ssl s => s.coWriteAll

def create : SocketClass → SocketClass
  | .tcp _ => .tcp .new
  | .ssl _ => .ssl .new

def sameClass : SocketClass → SocketClass → Bool
  | .tcp _, .tcp _ | .ssl _, .ssl _ => true
  | _, _ => false

theorem create_sameClass (impl : SocketClass) : impl.create.sameClass impl = true := by
  cases impl <;> rfl

end SocketClass

structure Socket where
  state : SocketState
  impl : SocketClass

namespace Socket

def new (impl : SocketClass) : Socket := ⟨.initial, impl⟩

/-- `co_start` up to the call of `start`, unless it returns before. -/
def enterStart (s : Socket) : Option Socket :=
  if s.state = .initial then some { s with state := .started } else none

/-- `co_close` up to the call of `close`, unless it returns before. -/
def enterClose (s : Socket) : Option Socket :=
  if s.state = .started then some { s with state := .closed } else none

def coStart (s : Socket) : Socket × Await Unit :=
  match s.enterStart with
  | none => (s, .ret ())
  | some t => (t, t.impl.start)

def coClose (s : Socket) : Socket × Await Unit :=
  match s.enterClose with
  | none => (s, .ret ())
  | some t => (t, t.impl.close)

end Socket

inductive SocketCall
  | start
  | close
  | readSome (size : Nat)
  | readAll (size : Nat)
  | writeAll (data : List UInt8)
  deriving DecidableEq

/-- What a call that has not failed returns; a read returns with the bytes in its buffer. -/
inductive SocketReply
  | done
  | bytes (data : List UInt8)
  | size (n : Nat)
  deriving DecidableEq

namespace Socket

def call (s : Socket) : SocketCall → Socket × Await SocketReply
  | .start => (s.coStart.1, do s.coStart.2; pure .done)
  | .close => (s.coClose.1, do s.coClose.2; pure .done)
  | .readSome size => (s, do pure (.bytes (← s.impl.coReadSome size)))
  | .readAll size => (s, do pure (.bytes (← s.impl.coReadAll size)))
  | .writeAll data => (s, do pure (.size (← s.impl.coWriteAll data)))

/-- Calls one after another on one connection: what is performed on the stream and what each
    call returns or throws. -/
def runCalls (world : StreamWorld) (history : List StreamEvent) (s : Socket) :
    List SocketCall → List StreamEvent × List (Except Exception SocketReply)
  | [] => ([], [])
  | c :: cs =>
    let (events, result) := (s.call c).2.run world history
    let (later, results) := runCalls world (history ++ events) (s.call c).1 cs
    (events ++ later, result :: results)

theorem call_transfer (s : Socket) {c : SocketCall} (start : c ≠ .start) (close : c ≠ .close) :
    (s.call c).1 = s ∧ (s.call c).2.Only (fun op => op.isTransfer = true) := by
  cases c with
  | start => exact absurd rfl start
  | close => exact absurd rfl close
  | readSome size | readAll size | writeAll data =>
    refine ⟨rfl, .bind ?_ fun _ => trivial⟩
    cases s.impl with
    | tcp t => exact .bind (.ask rfl) fun answer => finish_only answer.1 answer.2
    | ssl t =>
      simp only [SocketClass.coReadSome, SocketClass.coReadAll, SocketClass.coWriteAll,
        SSLSocket.coReadSome, SSLSocket.coReadAll, SSLSocket.coWriteAll]
      split <;> exact .bind (.ask rfl) fun answer => finish_only answer.1 answer.2

end Socket

end BoostBase
