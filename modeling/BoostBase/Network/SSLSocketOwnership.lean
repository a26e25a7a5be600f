import BoostBase.Transition.Ledger
import BoostBase.Transition.Machine

namespace BoostBase

open Transition

/-- What the members of a socket point to: the TCP socket made for the base class, the next
    layers of the SSL streams and the SSL contexts, numbered as they were made. -/
inductive RawObject
  | placeholder
  | nextLayer (stream : Nat)
  | context (k : Nat)
  deriving DecidableEq

inductive DeletingClass
  | tcpSocket
  | sslSocket
  deriving DecidableEq

def RawObject.isSocket : RawObject → Bool
  | .placeholder | .nextLayer _ => true
  | .context _ => false

def RawObject.deleter : RawObject → DeletingClass
  | .placeholder => .tcpSocket
  | .nextLayer _ | .context _ => .sslSocket

structure SocketHeap where
  ledger : Ledger RawObject DeletingClass
  streams : Nat
  contexts : Nat

namespace SocketHeap

def new : SocketHeap := ⟨.empty, 0, 0⟩

def make (h : SocketHeap) (o : RawObject) : SocketHeap := { h with ledger := h.ledger.make o }

def delete (h : SocketHeap) (o : RawObject) (by_ : DeletingClass) : SocketHeap :=
  { h with ledger := h.ledger.free o by_ }

def deletePtr (h : SocketHeap) (p : Option RawObject) (by_ : DeletingClass) : SocketHeap :=
  match p with
  | none => h
  | some o => h.delete o by_

def makeContext (h : SocketHeap) : SocketHeap :=
  { h.make (.context h.contexts) with contexts := h.contexts + 1 }

def makeNextLayer (h : SocketHeap) : SocketHeap :=
  { h.make (.nextLayer h.streams) with streams := h.streams + 1 }

end SocketHeap

structure TCPSocketMembers where
  socket : Option RawObject
  socketOwner : Bool
  deriving DecidableEq

namespace TCPSocketMembers

def new (h : SocketHeap) : TCPSocketMembers × SocketHeap :=
  (⟨some .placeholder, true⟩, h.make .placeholder)

def release (t : TCPSocketMembers) : TCPSocketMembers := { t with socket := none }

def setTCPSocket (t : TCPSocketMembers) (s : RawObject) (h : SocketHeap) :
    TCPSocketMembers × SocketHeap :=
  let t := if t.socketOwner then t else t.release
  (⟨some s, false⟩, h.deletePtr t.socket .tcpSocket)

/-- The destructor, then that of `m_socket`. -/
def destroy (t : TCPSocketMembers) (h : SocketHeap) : SocketHeap :=
  let t := if t.socketOwner then t else t.release
  h.deletePtr t.socket .tcpSocket

end TCPSocketMembers

/-- How `new` of a context or a stream ends: it throws before there is an object, it throws
    when there is one, or it returns. -/
inductive NewExit
  | throwsBefore
  | throwsAfter
  | returns
  deriving DecidableEq

/-- A context that does not load its files throws and is lost. -/
def createSSLContext (exit : NewExit) (h : SocketHeap) : Option Nat × SocketHeap :=
  match exit with
  | .throwsBefore => (none, h)
  | .throwsAfter => (none, h.makeContext)
  | .returns => (some h.contexts, h.makeContext)

/-- A stream makes its next layer first; if the rest throws, that is deleted again. -/
def newStream (exit : NewExit) (h : SocketHeap) : Option Nat × SocketHeap :=
  match exit with
  | .throwsBefore => (none, h)
  | .throwsAfter => (none, h.makeNextLayer.delete (.nextLayer h.streams) .sslSocket)
  | .returns => (some h.streams, h.makeNextLayer)

/-- `sslContext` is `m_sslContext`, `stream` the stream `SSLSocket::m_socket` owns. -/
structure SSLSocketMembers extends TCPSocketMembers where
  sslContext : Nat
  stream : Nat
  deriving DecidableEq

/-- How the parts of the constructor end; `base` and `context` tell that these throw. -/
structure ConstructorExit where
  base : Bool
  context : Bool
  stream : NewExit
  deriving DecidableEq

/-- How the parts of `setSSLParameters` end; `verify` tells that a setter at its end throws. -/
structure SSLParametersExit where
  context : NewExit
  stream : NewExit
  verify : Bool
  deriving DecidableEq

namespace SSLSocketMembers

/-- What is built when a part throws is taken down again, the base last. -/
def construct (exit : ConstructorExit) (h : SocketHeap) : Option SSLSocketMembers × SocketHeap :=
  if exit.base then (none, h)
  else
    let (t, h) := TCPSocketMembers.new h
    if exit.context then (none, t.destroy h)
    else
      let k := h.contexts
      match newStream exit.stream h.makeContext with
      | (none, h) => (none, t.destroy (h.delete (.context k) .sslSocket))
      | (some s, h) =>
        let (t, h) := t.setTCPSocket (.nextLayer s) h
        (some { t with sslContext := k, stream := s }, h)

structure SSLParametersCall where
  returned : Bool
  members : SSLSocketMembers
  heap : SocketHeap

def setSSLParameters (exit : SSLParametersExit) (m : SSLSocketMembers) (h : SocketHeap) :
    SSLParametersCall :=
  match createSSLContext exit.context h with
  | (none, h) => ⟨false, m, h⟩
  | (some k, h) =>
    let h := h.delete (.context m.sslContext) .sslSocket
    let m := { m with sslContext := k }
    match newStream exit.stream h with
    | (none, h) => ⟨false, m, h⟩
    | (some s, h) =>
      -- the old stream takes its next layer with it, and the pointer of the base class dangles
      -- until it is set
      let h := h.delete (.nextLayer m.stream) .sslSocket
      let (t, h) := m.setTCPSocket (.nextLayer s) h
      ⟨!exit.verify, { t with sslContext := k, stream := s }, h⟩

/-- The members in reverse order, then the base class. -/
def destroy (m : SSLSocketMembers) (h : SocketHeap) : SocketHeap :=
  m.toTCPSocketMembers.destroy
    ((h.delete (.nextLayer m.stream) .sslSocket).delete (.context m.sslContext) .sslSocket)

end SSLSocketMembers

inductive SSLSocketPhase
  | unborn
  | alive (m : SSLSocketMembers)
  | dead
  deriving DecidableEq

structure SSLSocketLife where
  phase : SSLSocketPhase
  heap : SocketHeap

namespace SSLSocketLife

inductive Action
  | construct (exit : ConstructorExit)
  | setSSLParameters (exit : SSLParametersExit)
  | destroy
  deriving DecidableEq

def machine : Machine SSLSocketLife Action where
  initial := ⟨.unborn, .new⟩
  next s
    | .construct exit =>
      match s.phase with
      | .unborn =>
        match SSLSocketMembers.construct exit s.heap with
        | (none, h) => some ⟨.dead, h⟩
        | (some m, h) => some ⟨.alive m, h⟩
      | .alive _ | .dead => none
    | .setSSLParameters exit =>
      match s.phase with
      | .alive m =>
        let call := m.setSSLParameters exit s.heap
        some ⟨.alive call.members, call.heap⟩
      | .unborn | .dead => none
    | .destroy =>
      match s.phase with
      | .alive m => some ⟨.dead, m.destroy s.heap⟩
      | .unborn | .dead => none

end SSLSocketLife

/-- Everything made is in `live`, is a context that was lost, or was deleted once and by the
    class it belongs to. -/
structure Balanced (h : SocketHeap) (live : List RawObject) (lost : List Nat) : Prop where
  accounts : h.ledger.Accounts (live ++ lost.map .context)
  streams : ∀ k, .nextLayer k ∈ h.ledger.made → k < h.streams
  contexts : ∀ k, .context k ∈ h.ledger.made → k < h.contexts
  deleted : ∀ f ∈ h.ledger.freed, f.2 = f.1.deleter

namespace Balanced

variable {h h' : SocketHeap} {live live' : List RawObject} {lost : List Nat} {o : RawObject}

theorem new : Balanced .new [] [] where
  accounts := Ledger.empty_accounts
  streams := by simp [SocketHeap.new, Ledger.empty]
  contexts := by simp [SocketHeap.new, Ledger.empty]
  deleted := by simp [SocketHeap.new, Ledger.empty]

theorem perm (ok : Balanced h live lost) (same : live.Perm live') : Balanced h live' lost :=
  ⟨ok.accounts.perm (same.append_right _), ok.streams, ok.contexts, ok.deleted⟩

theorem made {streams contexts : Nat} (ok : Balanced h live lost) (fresh : o ∉ h.ledger.made)
    (laterStreams : h.streams ≤ streams) (laterContexts : h.contexts ≤ contexts)
    (stream : ∀ k, o = .nextLayer k → k < streams) (context : ∀ k, o = .context k → k < contexts) :
    Balanced ⟨h.ledger.make o, streams, contexts⟩ (o :: live) lost where
  accounts := ok.accounts.make fresh
  streams := by
    intro k made
    rcases List.mem_append.mp made with before | last
    · exact Nat.lt_of_lt_of_le (ok.streams k before) laterStreams
    · exact stream k (List.mem_singleton.mp last).symm
  contexts := by
    intro k made
    rcases List.mem_append.mp made with before | last
    · exact Nat.lt_of_lt_of_le (ok.contexts k before) laterContexts
    · exact context k (List.mem_singleton.mp last).symm
  deleted := ok.deleted

theorem placeholder (ok : Balanced h live lost) (fresh : .placeholder ∉ h.ledger.made) :
    Balanced (h.make .placeholder) (.placeholder :: live) lost :=
  ok.made fresh (Nat.le_refl _) (Nat.le_refl _) (by simp) (by simp)

theorem makeNextLayer (ok : Balanced h live lost) :
    Balanced h.makeNextLayer (.nextLayer h.streams :: live) lost :=
  ok.made (fun made => Nat.lt_irrefl _ (ok.streams _ made)) (Nat.le_succ _) (Nat.le_refl _)
    (by simp) (by simp)

theorem makeContext (ok : Balanced h live lost) :
    Balanced h.makeContext (.context h.contexts :: live) lost :=
  ok.made (fun made => Nat.lt_irrefl _ (ok.contexts _ made)) (Nat.le_refl _) (Nat.le_succ _)
    (by simp) (by simp)

theorem delete (ok : Balanced h (o :: live) lost) : Balanced (h.delete o o.deleter) live lost where
  accounts := ok.accounts.free o.deleter
  streams := ok.streams
  contexts := ok.contexts
  deleted := by
    intro f member
    rcases List.mem_append.mp member with before | last
    · exact ok.deleted f before
    · rw [List.mem_singleton.mp last]

theorem lose {k : Nat} (ok : Balanced h (.context k :: live) lost) : Balanced h live (k :: lost) :=
  ⟨ok.accounts.perm List.perm_middle.symm, ok.streams, ok.contexts, ok.deleted⟩

theorem createSSLContext {exit : NewExit} {built : Option Nat} (ok : Balanced h live lost)
    (call : BoostBase.createSSLContext exit h = (built, h')) :
    match built with
    | none => ∃ lost', Balanced h' live lost'
    | some k => Balanced h' (.context k :: live) lost := by
  cases exit with
  | throwsBefore =>
    cases call
    exact ⟨lost, ok⟩
  | throwsAfter =>
    cases call
    exact ⟨_, ok.makeContext.lose⟩
  | returns =>
    cases call
    exact ok.makeContext

theorem newStream {exit : NewExit} {built : Option Nat} (ok : Balanced h live lost)
    (call : BoostBase.newStream exit h = (built, h')) :
    match built with
    | none => Balanced h' live lost
    | some s => Balanced h' (.nextLayer s :: live) lost := by
  cases exit with
  | throwsBefore =>
    cases call
    exact ok
  | throwsAfter =>
    cases call
    exact ok.makeNextLayer.delete
  | returns =>
    cases call
    exact ok.makeNextLayer

end Balanced

theorem TCPSocketMembers.setTCPSocket_alias {t : TCPSocketMembers} (aliased : t.socketOwner = false)
    (s : RawObject) (h : SocketHeap) : t.setTCPSocket s h = (⟨some s, false⟩, h) := by
  simp [setTCPSocket, aliased, release, SocketHeap.deletePtr]

theorem TCPSocketMembers.destroy_alias {t : TCPSocketMembers} (aliased : t.socketOwner = false)
    (h : SocketHeap) : t.destroy h = h := by
  simp [destroy, aliased, release, SocketHeap.deletePtr]

/-- The base class points to the next layer of the stream and does not own it. -/
structure SSLSocketMembers.Aliases (m : SSLSocketMembers) : Prop where
  socket : m.socket = some (.nextLayer m.stream)
  socketOwner : m.socketOwner = false

structure SSLSocketMembers.Whole (m : SSLSocketMembers) (h : SocketHeap) : Prop where
  aliases : m.Aliases
  balanced : ∃ lost, Balanced h [.nextLayer m.stream, .context m.sslContext] lost

namespace SSLSocketMembers

variable {m : SSLSocketMembers} {h h' : SocketHeap}

theorem setSSLParameters_whole (whole : m.Whole h) (exit : SSLParametersExit) :
    (m.setSSLParameters exit h).members.Whole (m.setSSLParameters exit h).heap := by
  obtain ⟨aliases, lost, ok⟩ := whole
  unfold setSSLParameters
  split
  · rename_i h₁ context
    obtain ⟨lost', ok₁⟩ := ok.createSSLContext context
    exact ⟨aliases, lost', ok₁⟩
  · rename_i k h₁ context
    have ok₁ : Balanced h₁ [.context k, .nextLayer m.stream, .context m.sslContext] lost :=
      ok.createSSLContext context
    have ok₂ : Balanced (h₁.delete (.context m.sslContext) .sslSocket)
        [.context k, .nextLayer m.stream] lost :=
      (ok₁.perm (List.perm_append_singleton _ [_, _])).delete
    dsimp only
    split
    · rename_i h₃ stream
      have ok₃ : Balanced h₃ [.context k, .nextLayer m.stream] lost := ok₂.newStream stream
      exact ⟨⟨aliases.socket, aliases.socketOwner⟩, lost, ok₃.perm (.swap _ _ _)⟩
    · rename_i s h₃ stream
      have ok₃ : Balanced h₃ [.nextLayer s, .context k, .nextLayer m.stream] lost :=
        ok₂.newStream stream
      have ok₄ : Balanced (h₃.delete (.nextLayer m.stream) .sslSocket) [.nextLayer s, .context k]
          lost := (ok₃.perm (List.perm_append_singleton _ [_, _])).delete
      rw [TCPSocketMembers.setTCPSocket_alias aliases.socketOwner]
      exact ⟨⟨rfl, rfl⟩, lost, ok₄⟩

theorem construct_spec (exit : ConstructorExit) :
    match construct exit .new with
    | (none, h) => ∃ lost, Balanced h [] lost
    | (some m, h) => m.Whole h := by
  have based : Balanced (SocketHeap.new.make .placeholder) [.placeholder] [] :=
    Balanced.new.placeholder (by simp [SocketHeap.new, Ledger.empty])
  have ok := based.makeContext
  unfold construct
  cases exit.base with
  | true => exact ⟨[], .new⟩
  | false =>
    cases exit.context with
    | true => exact ⟨[], based.delete⟩
    | false =>
      simp only [TCPSocketMembers.new, Bool.false_eq_true, if_false]
      cases stream : newStream exit.stream (SocketHeap.new.make .placeholder).makeContext with
      | mk built h =>
        cases built with
        | none =>
          have ok₁ : Balanced h [.context 0, .placeholder] [] := ok.newStream stream
          have ok₂ : Balanced (h.delete (.context 0) .sslSocket) [.placeholder] [] := ok₁.delete
          exact ⟨[], ok₂.delete⟩
        | some s =>
          have ok₁ : Balanced h [.nextLayer s, .context 0, .placeholder] [] := ok.newStream stream
          exact ⟨⟨rfl, rfl⟩, [], (ok₁.perm (List.perm_append_singleton _ [_, _])).delete⟩

theorem destroy_balanced (whole : m.Whole h) : ∃ lost, Balanced (m.destroy h) [] lost := by
  obtain ⟨aliases, lost, ok⟩ := whole
  unfold destroy
  rw [TCPSocketMembers.destroy_alias aliases.socketOwner]
  have ok₁ : Balanced (h.delete (.nextLayer m.stream) .sslSocket) [.context m.sslContext] lost :=
    ok.delete
  exact ⟨lost, ok₁.delete⟩

end SSLSocketMembers

namespace SSLSocketLife

variable {s t : SSLSocketLife} {a : Action}

def Sound (s : SSLSocketLife) : Prop :=
  match s.phase with
  | .unborn => s.heap = .new
  | .alive m => m.Whole s.heap
  | .dead => ∃ lost, Balanced s.heap [] lost

theorem sound_next (sound : s.Sound) (taken : machine.next s a = some t) : t.Sound := by
  obtain ⟨phase, h⟩ := s
  cases phase with
  | unborn =>
    obtain rfl : h = .new := sound
    cases a with
    | construct exit =>
      have built := SSLSocketMembers.construct_spec exit
      cases made : SSLSocketMembers.construct exit .new with
      | mk members h =>
        rw [made] at built
        cases members with
        | none =>
          simp only [machine, made, Option.some.injEq] at taken
          subst taken
          exact built
        | some m =>
          simp only [machine, made, Option.some.injEq] at taken
          subst taken
          exact built
    | setSSLParameters exit => cases taken
    | destroy => cases taken
  | alive m =>
    have whole : m.Whole h := sound
    cases a with
    | construct exit => cases taken
    | setSSLParameters exit =>
      cases taken
      exact SSLSocketMembers.setSSLParameters_whole whole exit
    | destroy =>
      cases taken
      exact SSLSocketMembers.destroy_balanced whole
  | dead => cases a <;> cases taken

theorem sound_initial : machine.initial.Sound := rfl

theorem sound (reached : machine.Reachable s) : s.Sound :=
  reached.invariant sound_initial fun _ _ _ => sound_next

theorem Sound.balanced (sound : s.Sound) : ∃ live lost, Balanced s.heap live lost := by
  obtain ⟨phase, h⟩ := s
  cases phase with
  | unborn =>
    obtain rfl : h = .new := sound
    exact ⟨[], [], .new⟩
  | alive m => exact ⟨_, SSLSocketMembers.Whole.balanced sound⟩
  | dead => exact ⟨[], sound⟩

/-- The socket behind the base class is that of the current stream, which owns it, and once the
    socket is destroyed every socket object has been deleted once, the placeholder by the base
    class and the others by the derived one. -/
theorem sockets_deleted_once (reached : machine.Reachable s) :
    (∀ m, s.phase = .alive m →
      m.socket = some (.nextLayer m.stream) ∧ m.socketOwner = false ∧
        .nextLayer m.stream ∈ s.heap.ledger.made ∧
        .nextLayer m.stream ∉ s.heap.ledger.freed.map Prod.fst) ∧
    (s.heap.ledger.freed.map Prod.fst).Nodup ∧
    (∀ f ∈ s.heap.ledger.freed, f.1 ∈ s.heap.ledger.made ∧ f.2 = f.1.deleter) ∧
    (s.phase = .dead → ∀ o ∈ s.heap.ledger.made, o.isSocket = true →
      s.heap.ledger.freed.filter (fun f => f.1 = o) = [(o, o.deleter)]) := by
  have ok := sound reached
  obtain ⟨live, lost, balanced⟩ := ok.balanced
  refine ⟨fun m alive => ?_, balanced.accounts.freed_nodup, fun f freed => ⟨?_, ?_⟩,
    fun dead o made socket => ?_⟩
  · simp only [Sound, alive] at ok
    obtain ⟨aliases, lost', whole⟩ := ok
    have lives : .nextLayer m.stream ∈
        [.nextLayer m.stream, .context m.sslContext] ++ lost'.map RawObject.context := by simp
    exact ⟨aliases.socket, aliases.socketOwner, whole.accounts.mem_iff.mpr (.inl lives),
      whole.accounts.not_freed lives⟩
  · exact balanced.accounts.mem_iff.mpr (.inr (List.mem_map_of_mem freed))
  · exact balanced.deleted f freed
  · simp only [Sound, dead] at ok
    obtain ⟨lost', ended⟩ := ok
    have gone : o ∉ [] ++ lost'.map RawObject.context := by
      intro lives
      obtain ⟨k, _, rfl⟩ := List.mem_map.mp lives
      cases socket
    obtain ⟨by_, once⟩ := ended.accounts.freed_once made gone
    have entry : (o, by_) ∈ s.heap.ledger.freed :=
      List.mem_of_mem_filter (once ▸ List.mem_singleton_self _)
    obtain rfl : by_ = o.deleter := ended.deleted _ entry
    exact once

def reconfigured : List Action :=
  [.construct ⟨false, false, .returns⟩, .setSSLParameters ⟨.returns, .returns, true⟩,
    .setSSLParameters ⟨.returns, .throwsAfter, false⟩, .destroy]

theorem sockets_deleted_once_reconfigured : ∃ s, machine.run machine.initial reconfigured = some s ∧
    s.phase = .dead ∧
    s.heap.ledger.freed.filter (fun f => f.1.isSocket) =
      [(.placeholder, .tcpSocket), (.nextLayer 0, .sslSocket), (.nextLayer 2, .sslSocket),
        (.nextLayer 1, .sslSocket)] ∧
    ∀ o ∈ s.heap.ledger.made, o.isSocket = true →
      s.heap.ledger.freed.filter (fun f => f.1 = o) = [(o, o.deleter)] := by
  have ran : machine.run machine.initial reconfigured = some _ := rfl
  exact ⟨_, ran, rfl, by decide, (sockets_deleted_once ⟨_, ran⟩).2.2.2 rfl⟩

end SSLSocketLife

end BoostBase
