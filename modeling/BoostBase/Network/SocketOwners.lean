import BoostBase.Network.Socket
import BoostBase.Transition.Machine
import BoostBase.Transition.Ownership

namespace BoostBase

open Asio Transition

inductive SocketEntry
  | start
  | close
  deriving DecidableEq, Repr

/-- A socket object; `entered` is which of its virtual functions were entered, in order. -/
structure OwnedSocket where
  socket : Socket
  entered : List SocketEntry

/-- A `co_start` or `co_close` bound to a socket object, that has not begun or, if `inside`, has
    entered the virtual function. -/
structure LifecycleCall where
  kind : SocketEntry
  socket : Nat
  inside : Bool

/-- Where `mutate` throws: at the allocation of the new session, in `sock->create(io())`, in the
    constructor of the new session before it takes the socket, or after that, in which case the
    socket is deleted with the session. -/
inductive MutateThrow
  | allocation
  | create
  | construct
  | discard
  deriving DecidableEq

/-- The socket of a `mutate` that throws is either where it was or gone. -/
def MutateThrow.keepsOwner : MutateThrow → Bool
  | .allocation | .discard => true
  | .create | .construct => false

/-- The new session has had the socket. -/
def MutateThrow.handsOver : MutateThrow → Bool
  | .discard => true
  | .allocation | .create | .construct => false

/-- Sessions and sockets by number. `owns` is `m_socket` of a session, `gone` are the sessions
    destroyed, `closers` those of the `closeSocket` coroutines that have not run yet. -/
structure SocketOwners where
  sockets : Nat → Option OwnedSocket
  owns : Nat → Option Nat
  nextSocket : Nat
  nextSession : Nat
  gone : List Nat
  closers : List Nat
  calls : List LifecycleCall

namespace SocketOwners

def addSocket (p : SocketOwners) (impl : SocketClass) : SocketOwners :=
  { p with
    sockets := Function.update p.sockets p.nextSocket (some ⟨.new impl, []⟩)
    nextSocket := p.nextSocket + 1 }

def setSocket (p : SocketOwners) (session socket : Nat) : SocketOwners :=
  { p with owns := Function.update p.owns session (some socket) }

def addSession (p : SocketOwners) (socket : Nat) : SocketOwners :=
  { p.setSocket p.nextSession socket with nextSession := p.nextSession + 1 }

/-- `releaseSocket`: the session gets a new socket, of the class of the one it gives away. -/
def releaseSocket (p : SocketOwners) (session : Nat) (impl : SocketClass) : SocketOwners :=
  (p.addSocket impl.create).setSocket session p.nextSocket

def deleteSocket (p : SocketOwners) (socket : Nat) : SocketOwners :=
  { p with sockets := Function.update p.sockets socket none }

/-- What a `mutate` that throws leaves of a session and its socket. `releaseSocket` takes the
    socket out of the session before it makes the new one. -/
def unwindMutate (p : SocketOwners) (session socket : Nat) (impl : SocketClass) : MutateThrow → SocketOwners
  | .allocation => p
  | .create => { p with owns := Function.update p.owns session none }
  | .construct => p.releaseSocket session impl
  | .discard => (p.releaseSocket session impl).deleteSocket socket

def call (p : SocketOwners) (kind : SocketEntry) (socket : Nat) : SocketOwners :=
  { p with calls := p.calls ++ [⟨kind, socket, false⟩] }

def enter (s : Socket) : SocketEntry → Option Socket
  | .start => s.enterStart
  | .close => s.enterClose

def begin (p : SocketOwners) (k : Nat) (c : LifecycleCall) (cell : OwnedSocket) : SocketOwners :=
  match enter cell.socket c.kind with
  | none => { p with calls := p.calls.eraseIdx k }
  | some t =>
    { p with
      sockets := Function.update p.sockets c.socket (some ⟨t, cell.entered ++ [c.kind]⟩)
      calls := p.calls.set k { c with inside := true } }

def destroy (p : SocketOwners) (session : Nat) : SocketOwners :=
  let p' := { p with owns := Function.update p.owns session none, gone := p.gone ++ [session] }
  match p.owns session with
  | none => p'
  | some socket => p'.deleteSocket socket

/-- `accept` makes a session with a new socket, `mutate` one with the socket of another, and
    `destroy` ends one that no closing coroutine holds, its socket with it. A call that `ends`
    has returned, thrown, or was cancelled before it has begun. -/
inductive Action
  | accept (impl : SocketClass)
  | mutate (session : Nat)
  | mutateThrows (session : Nat) (exit : MutateThrow)
  | destroy (session : Nat)
  | startSocket (session : Nat)
  | closeSocket (session : Nat)
  | closerRuns (k : Nat)
  | begins (k : Nat)
  | ends (k : Nat)

/-- The run of a session that uses its `m_socket` without having one is not followed. -/
def next (p : SocketOwners) : Action → Option SocketOwners
  | .accept impl => some ((p.addSocket impl).addSession p.nextSocket)
  | .mutate session =>
    match p.owns session with
    | none => none
    | some j => (p.sockets j).map fun cell => (p.releaseSocket session cell.socket.impl).addSession j
  | .mutateThrows session exit =>
    match p.owns session with
    | none => none
    | some j => (p.sockets j).map fun cell => p.unwindMutate session j cell.socket.impl exit
  | .destroy session =>
    if session < p.nextSession ∧ session ∉ p.gone ∧ session ∉ p.closers then some (p.destroy session)
    else none
  | .startSocket session => (p.owns session).map (p.call .start)
  | .closeSocket session =>
    if session < p.nextSession ∧ session ∉ p.gone then some { p with closers := p.closers ++ [session] }
    else none
  | .closerRuns k =>
    match p.closers[k]? with
    | none => none
    | some session =>
      (p.owns session).map fun j => { p with closers := p.closers.eraseIdx k }.call .close j
  | .begins k =>
    match p.calls[k]? with
    | none => none
    | some c =>
      match p.sockets c.socket with
      | none => none
      | some cell => if c.inside then none else some (p.begin k c cell)
  | .ends k => if k < p.calls.length then some { p with calls := p.calls.eraseIdx k } else none

def machine : Machine SocketOwners Action where
  initial := ⟨fun _ => none, fun _ => none, 0, 0, [], [], []⟩
  next := next

variable {p q : SocketOwners} {session j : Nat}

/-- The state of a socket tells what was entered. -/
def Recorded (cell : OwnedSocket) : Prop :=
  cell.entered = match cell.socket.state with
    | .initial => []
    | .started => [.start]
    | .closed => [.start, .close]

def There (p : SocketOwners) (j : Nat) : Prop := p.sockets j ≠ none

structure OwnersOk (p : SocketOwners) : Prop where
  recorded : ∀ j cell, p.sockets j = some cell → Recorded cell
  unborn : ∀ j, p.nextSocket ≤ j → p.sockets j = none
  unmade : ∀ i, p.nextSession ≤ i → p.owns i = none
  buried : ∀ i ∈ p.gone, i < p.nextSession ∧ p.owns i = none
  apart : Apart p.owns p.There

/-- No socket has lost its owner, and no session its socket. -/
structure Complete (p : SocketOwners) : Prop where
  owned : Owned p.owns p.There
  owning : ∀ i, i < p.nextSession → i ∉ p.gone → p.owns i ≠ none

theorem OwnersOk.absent (ok : OwnersOk p) : ¬ p.There p.nextSocket :=
  not_not_intro (ok.unborn p.nextSocket (Nat.le_refl _))

theorem OwnersOk.free (ok : OwnersOk p) : p.owns p.nextSession = none :=
  ok.unmade p.nextSession (Nat.le_refl _)

theorem OwnersOk.made (ok : OwnersOk p) (held : p.owns session = some j) : session < p.nextSession := by
  by_contra late
  rw [ok.unmade session (by omega)] at held
  cases held

theorem OwnersOk.alive (ok : OwnersOk p) (held : p.owns session = some j) : session ∉ p.gone := by
  intro dead
  rw [(ok.buried session dead).2] at held
  cases held

theorem OwnersOk.old (ok : OwnersOk p) (there : p.There j) : j ≠ p.nextSocket := by
  rintro rfl
  exact ok.absent there

theorem addSocket_there (p : SocketOwners) (impl : SocketClass) (j : Nat) :
    (p.addSocket impl).There j ↔ j = p.nextSocket ∨ p.There j := by
  by_cases new : j = p.nextSocket
  · subst new
    simp [addSocket, There]
  · simp [addSocket, There, new]

theorem deleteSocket_there (p : SocketOwners) (socket j : Nat) :
    (p.deleteSocket socket).There j ↔ p.There j ∧ j ≠ socket := by
  by_cases same : j = socket
  · subst same
    simp [deleteSocket, There]
  · simp [deleteSocket, There, same]

theorem addSocket_recorded (ok : OwnersOk p) (impl : SocketClass) {cell : OwnedSocket}
    (here : (p.addSocket impl).sockets j = some cell) : Recorded cell := by
  by_cases new : j = p.nextSocket
  · subst new
    simp only [addSocket, Function.update_self, Option.some.injEq] at here
    subst here
    rfl
  · simp only [addSocket, Function.update_of_ne new] at here
    exact ok.recorded j cell here

theorem addSocket_unborn (ok : OwnersOk p) (impl : SocketClass) (late : p.nextSocket + 1 ≤ j) :
    (p.addSocket impl).sockets j = none := by
  have new : j ≠ p.nextSocket := by omega
  simp only [addSocket, Function.update_of_ne new]
  exact ok.unborn j (by omega)

theorem enter_recorded {s t : Socket} {entered : List SocketEntry} {kind : SocketEntry}
    (recorded : Recorded ⟨s, entered⟩) (enters : enter s kind = some t) :
    Recorded ⟨t, entered ++ [kind]⟩ := by
  unfold Recorded at recorded ⊢
  cases kind with
  | start =>
    simp only [enter, Socket.enterStart, Option.ite_none_right_eq_some, Option.some.injEq] at enters
    obtain ⟨state, rfl⟩ := enters
    simp only [state] at recorded
    simp [recorded]
  | close =>
    simp only [enter, Socket.enterClose, Option.ite_none_right_eq_some, Option.some.injEq] at enters
    obtain ⟨state, rfl⟩ := enters
    simp only [state] at recorded
    simp [recorded]

theorem OwnersOk.congr (ok : OwnersOk p) (sockets : q.sockets = p.sockets) (owns : q.owns = p.owns)
    (nextSocket : q.nextSocket = p.nextSocket) (nextSession : q.nextSession = p.nextSession)
    (gone : q.gone = p.gone) : OwnersOk q := by
  refine ⟨?_, ?_, ?_, ?_, ?_⟩
  · rw [sockets]
    exact ok.recorded
  · rw [sockets, nextSocket]
    exact ok.unborn
  · rw [owns, nextSession]
    exact ok.unmade
  · rw [owns, nextSession, gone]
    exact ok.buried
  · unfold There
    rw [sockets, owns]
    exact ok.apart

theorem OwnersOk.delete (ok : OwnersOk p) (unowned : ∀ i, p.owns i ≠ some j) :
    OwnersOk (p.deleteSocket j) := by
  refine ⟨fun k cell here => ?_, fun k late => ?_, ok.unmade, ok.buried, ?_⟩
  · by_cases same : k = j
    · subst same
      simp [deleteSocket] at here
    · simp only [deleteSocket, Function.update_of_ne same] at here
      exact ok.recorded k cell here
  · by_cases same : k = j
    · simp [deleteSocket, same]
    · simp only [deleteSocket, Function.update_of_ne same]
      exact ok.unborn k late
  · refine ⟨fun i k held => (deleteSocket_there p j k).mpr ⟨ok.apart.present i k held, ?_⟩, ok.apart.single⟩
    rintro rfl
    exact unowned i held

theorem accept_ok (ok : OwnersOk p) (impl : SocketClass) :
    OwnersOk ((p.addSocket impl).addSession p.nextSocket) := by
  refine ⟨fun j cell here => addSocket_recorded ok impl here, fun j late => addSocket_unborn ok impl late,
    fun i late => ?_, fun i dead => ?_, ?_⟩
  · have late : p.nextSession + 1 ≤ i := late
    have other : i ≠ p.nextSession := by omega
    simp only [addSession, setSocket, addSocket, Function.update_of_ne other]
    exact ok.unmade i (by omega)
  · obtain ⟨made, bare⟩ := ok.buried i dead
    have other : i ≠ p.nextSession := by omega
    simp only [addSession, setSocket, addSocket, Function.update_of_ne other]
    exact ⟨by omega, bare⟩
  · exact (ok.apart.add p.nextSession ok.absent).mono fun j => (addSocket_there p impl j).mpr

theorem accept_complete (ok : OwnersOk p) (complete : Complete p) (impl : SocketClass) :
    Complete ((p.addSocket impl).addSession p.nextSocket) := by
  refine ⟨?_, fun i made here => ?_⟩
  · exact (complete.owned.add ok.free p.nextSocket).mono fun j => (addSocket_there p impl j).mp
  · have made : i < p.nextSession + 1 := made
    by_cases new : i = p.nextSession
    · simp [addSession, setSocket, addSocket, new]
    · simp only [addSession, setSocket, addSocket, Function.update_of_ne new]
      exact complete.owning i (by omega) here

theorem release_ok (ok : OwnersOk p) (held : p.owns session = some j) (impl : SocketClass) :
    OwnersOk (p.releaseSocket session impl) := by
  refine ⟨fun k cell here => addSocket_recorded ok impl.create here,
    fun k late => addSocket_unborn ok impl.create late, fun i late => ?_, fun i dead => ?_, ?_⟩
  · have late : p.nextSession ≤ i := late
    have made := ok.made held
    have other : i ≠ session := by omega
    simp only [releaseSocket, setSocket, addSocket, Function.update_of_ne other]
    exact ok.unmade i late
  · have other : i ≠ session := by
      rintro rfl
      exact ok.alive held dead
    simp only [releaseSocket, setSocket, addSocket, Function.update_of_ne other]
    exact ok.buried i dead
  · exact (ok.apart.add session ok.absent).mono fun k => (addSocket_there p impl.create k).mpr

theorem release_unowned (ok : OwnersOk p) (held : p.owns session = some j) (impl : SocketClass) (i : Nat) :
    (p.releaseSocket session impl).owns i ≠ some j := by
  intro owned
  by_cases same : i = session
  · subst same
    simp only [releaseSocket, setSocket, Function.update_self, Option.some.injEq] at owned
    exact ok.old (ok.apart.present _ j held) owned.symm
  · simp only [releaseSocket, setSocket, addSocket, Function.update_of_ne same] at owned
    exact same (ok.apart.single i session j owned held)

theorem mutate_ok (ok : OwnersOk p) (held : p.owns session = some j) (impl : SocketClass) :
    OwnersOk ((p.releaseSocket session impl).addSession j) := by
  have released := release_ok ok held impl
  refine ⟨released.recorded, released.unborn, fun i late => ?_, fun i dead => ?_, ?_⟩
  · have late : p.nextSession + 1 ≤ i := late
    have other : i ≠ (p.releaseSocket session impl).nextSession := by
      change i ≠ p.nextSession
      omega
    simp only [addSession, setSocket, Function.update_of_ne other]
    exact released.unmade i (by change p.nextSession ≤ i; omega)
  · obtain ⟨made, bare⟩ := released.buried i dead
    have other : i ≠ (p.releaseSocket session impl).nextSession := by omega
    simp only [addSession, setSocket, Function.update_of_ne other]
    exact ⟨by omega, bare⟩
  · exact (ok.apart.handOver held ok.absent p.nextSession).mono fun k => (addSocket_there p impl.create k).mpr

theorem mutate_complete (ok : OwnersOk p) (complete : Complete p) (held : p.owns session = some j)
    (impl : SocketClass) : Complete ((p.releaseSocket session impl).addSession j) := by
  refine ⟨?_, fun i made here => ?_⟩
  · exact (complete.owned.handOver held ok.free p.nextSocket).mono fun k => (addSocket_there p impl.create k).mp
  · have made : i < p.nextSession + 1 := made
    by_cases new : i = p.nextSession
    · simp [addSession, setSocket, releaseSocket, addSocket, new]
    · simp only [addSession, setSocket, releaseSocket, addSocket, Function.update_of_ne new]
      by_cases giver : i = session
      · simp [giver]
      · rw [Function.update_of_ne giver]
        exact complete.owning i (by omega) here

theorem drop_ok (ok : OwnersOk p) (held : p.owns session = some j) :
    OwnersOk { p with owns := Function.update p.owns session none } := by
  refine ⟨ok.recorded, ok.unborn, fun i late => ?_, fun i dead => ⟨(ok.buried i dead).1, ?_⟩,
    (ok.apart.remove held).mono fun k => And.left⟩
  · by_cases same : i = session
    · simp [same]
    · simp only [Function.update_of_ne same]
      exact ok.unmade i late
  · by_cases same : i = session
    · simp [same]
    · simp only [Function.update_of_ne same]
      exact (ok.buried i dead).2

theorem drop_unowned (ok : OwnersOk p) (held : p.owns session = some j) (i : Nat) :
    Function.update p.owns session none i ≠ some j := by
  intro owned
  by_cases same : i = session
  · simp [same] at owned
  · rw [Function.update_of_ne same] at owned
    exact same (ok.apart.single i session j owned held)

theorem unwind_ok (ok : OwnersOk p) (held : p.owns session = some j) (impl : SocketClass)
    (exit : MutateThrow) : OwnersOk (p.unwindMutate session j impl exit) := by
  cases exit with
  | allocation => exact ok
  | create => exact drop_ok ok held
  | construct => exact release_ok ok held impl
  | discard => exact (release_ok ok held impl).delete (release_unowned ok held impl)

theorem discard_complete (complete : Complete p) (held : p.owns session = some j)
    (impl : SocketClass) : Complete ((p.releaseSocket session impl).deleteSocket j) := by
  refine ⟨?_, fun i made here => ?_⟩
  · refine (complete.owned.renew held p.nextSocket).mono fun k there => ?_
    obtain ⟨there, other⟩ := (deleteSocket_there _ j k).mp there
    exact ((addSocket_there p impl.create k).mp there).imp_right fun old => ⟨old, other⟩
  · by_cases giver : i = session
    · simp [deleteSocket, releaseSocket, setSocket, giver]
    · simp only [deleteSocket, releaseSocket, setSocket, addSocket, Function.update_of_ne giver]
      exact complete.owning i made here

theorem unwind_complete (ok : OwnersOk p) (complete : Complete p) (held : p.owns session = some j)
    (impl : SocketClass) (exit : MutateThrow) :
    Complete (p.unwindMutate session j impl exit) ↔ exit.keepsOwner = true := by
  cases exit with
  | allocation => exact iff_of_true complete rfl
  | create =>
    refine iff_of_false (fun after => ?_) Bool.false_ne_true
    exact after.owning session (ok.made held) (ok.alive held) (Function.update_self ..)
  | construct =>
    refine iff_of_false (fun after => ?_) Bool.false_ne_true
    have there := (addSocket_there p impl.create j).mpr (.inr (ok.apart.present session j held))
    obtain ⟨i, owned⟩ := after.owned j there
    exact release_unowned ok held impl i owned
  | discard => exact iff_of_true (discard_complete complete held impl) rfl

theorem begin_there {k : Nat} {c : LifecycleCall} {cell : OwnedSocket}
    (here : p.sockets c.socket = some cell) (i : Nat) : (p.begin k c cell).There i ↔ p.There i := by
  unfold begin
  split
  · exact Iff.rfl
  · by_cases same : i = c.socket
    · subst same
      simp [There, here]
    · simp [There, same]

theorem begin_owns (k : Nat) (c : LifecycleCall) (cell : OwnedSocket) :
    (p.begin k c cell).owns = p.owns := by
  unfold begin
  split <;> rfl

theorem begin_ok (ok : OwnersOk p) {k : Nat} {c : LifecycleCall} {cell : OwnedSocket}
    (here : p.sockets c.socket = some cell) : OwnersOk (p.begin k c cell) := by
  have apart : Apart (p.begin k c cell).owns (p.begin k c cell).There := by
    rw [begin_owns]
    exact ok.apart.mono fun i => (begin_there here i).mpr
  revert apart
  unfold begin
  split
  · exact fun apart => ⟨ok.recorded, ok.unborn, ok.unmade, ok.buried, apart⟩
  · rename_i t enters
    refine fun apart => ⟨fun i other at_ => ?_, fun i late => ?_, ok.unmade, ok.buried, apart⟩
    · by_cases same : i = c.socket
      · subst same
        simp only [Function.update_self, Option.some.injEq] at at_
        subst at_
        exact enter_recorded (ok.recorded _ cell here) enters
      · simp only [Function.update_of_ne same] at at_
        exact ok.recorded i other at_
    · have same : i ≠ c.socket := by
        rintro rfl
        rw [ok.unborn _ late] at here
        cases here
      simp only [Function.update_of_ne same]
      exact ok.unborn i late

theorem begin_complete (complete : Complete p) {k : Nat} {c : LifecycleCall} {cell : OwnedSocket}
    (here : p.sockets c.socket = some cell) : Complete (p.begin k c cell) := by
  constructor
  · rw [begin_owns]
    exact complete.owned.mono fun i => (begin_there here i).mp
  · rw [begin_owns]
    unfold begin
    split <;> exact complete.owning

theorem OwnersOk.bury (ok : OwnersOk p) (made : session < p.nextSession) (bare : p.owns session = none) :
    OwnersOk { p with gone := p.gone ++ [session] } := by
  refine ⟨ok.recorded, ok.unborn, ok.unmade, fun i dead => ?_, ok.apart⟩
  rcases List.mem_append.mp dead with before | now
  · exact ok.buried i before
  · rw [List.mem_singleton.mp now]
    exact ⟨made, bare⟩

theorem destroy_ok (ok : OwnersOk p) (made : session < p.nextSession) : OwnersOk (p.destroy session) := by
  unfold destroy
  split
  · rename_i free
    have same : Function.update p.owns session none = p.owns := by
      rw [← free, Function.update_eq_self]
    exact (ok.bury made free).congr rfl same rfl rfl rfl
  · rename_i j held
    have dropped := (drop_ok ok held).delete (drop_unowned ok held)
    exact (dropped.bury made (Function.update_self ..)).congr rfl rfl rfl rfl rfl

theorem destroy_complete (complete : Complete p) : Complete (p.destroy session) := by
  unfold destroy
  split
  · rename_i free
    refine ⟨?_, fun i made here => ?_⟩
    · rw [← free, Function.update_eq_self]
      exact complete.owned
    · simp only [List.mem_append, List.mem_singleton, not_or] at here
      simp only [Function.update_of_ne here.2]
      exact complete.owning i made here.1
  · rename_i j held
    refine ⟨?_, fun i made here => ?_⟩
    · exact (complete.owned.remove held).mono fun k => (deleteSocket_there _ j k).mp
    · simp only [deleteSocket, List.mem_append, List.mem_singleton, not_or] at here
      simp only [deleteSocket, Function.update_of_ne here.2]
      exact complete.owning i made here.1

/-- The steps that only queue or end calls. -/
def Action.queues : Action → Bool
  | .startSocket _ | .closeSocket _ | .closerRuns _ | .ends _ => true
  | .accept _ | .mutate _ | .mutateThrows .. | .destroy _ | .begins _ => false

inductive Stepped (p : SocketOwners) : Action → SocketOwners → Prop
  | accepts (impl : SocketClass) :
      Stepped p (.accept impl) ((p.addSocket impl).addSession p.nextSocket)
  | mutates {session j : Nat} {cell : OwnedSocket} (held : p.owns session = some j)
      (here : p.sockets j = some cell) :
      Stepped p (.mutate session) ((p.releaseSocket session cell.socket.impl).addSession j)
  | unwinds {session j : Nat} (held : p.owns session = some j) (impl : SocketClass) (exit : MutateThrow) :
      Stepped p (.mutateThrows session exit) (p.unwindMutate session j impl exit)
  | destroys {session : Nat} (made : session < p.nextSession) : Stepped p (.destroy session) (p.destroy session)
  | begins (k : Nat) {c : LifecycleCall} {cell : OwnedSocket} (here : p.sockets c.socket = some cell) :
      Stepped p (.begins k) (p.begin k c cell)
  | queues {a : Action} (only : a.queues = true) (closers : List Nat) (calls : List LifecycleCall) :
      Stepped p a { p with closers := closers, calls := calls }

theorem stepped {a : Action} (taken : p.next a = some q) : Stepped p a q := by
  cases a with
  | accept impl =>
    cases taken
    exact .accepts impl
  | mutate session =>
    simp only [next] at taken
    split at taken
    · cases taken
    · rename_i j held
      obtain ⟨cell, here, rfl⟩ := Option.map_eq_some_iff.mp taken
      exact .mutates held here
  | mutateThrows session exit =>
    simp only [next] at taken
    split at taken
    · cases taken
    · rename_i j held
      obtain ⟨cell, _, rfl⟩ := Option.map_eq_some_iff.mp taken
      exact .unwinds held cell.socket.impl exit
  | destroy session =>
    simp only [next, Option.ite_none_right_eq_some, Option.some.injEq] at taken
    obtain ⟨⟨made, _⟩, rfl⟩ := taken
    exact .destroys made
  | startSocket session =>
    simp only [next, Option.map_eq_some_iff] at taken
    obtain ⟨j, _, rfl⟩ := taken
    exact .queues rfl p.closers _
  | closeSocket session =>
    simp only [next, Option.ite_none_right_eq_some, Option.some.injEq] at taken
    obtain ⟨_, rfl⟩ := taken
    exact .queues rfl _ p.calls
  | closerRuns k =>
    simp only [next] at taken
    split at taken
    · cases taken
    · simp only [Option.map_eq_some_iff] at taken
      obtain ⟨j, _, rfl⟩ := taken
      exact .queues rfl _ _
  | begins k =>
    simp only [next] at taken
    split at taken
    · cases taken
    · split at taken
      · cases taken
      · rename_i cell here
        simp only [Option.ite_none_left_eq_some, Option.some.injEq] at taken
        obtain ⟨_, rfl⟩ := taken
        exact .begins k here
  | ends k =>
    simp only [next, Option.ite_none_right_eq_some, Option.some.injEq] at taken
    obtain ⟨_, rfl⟩ := taken
    exact .queues rfl p.closers _

theorem ok_next {a : Action} (ok : OwnersOk p) (taken : p.next a = some q) : OwnersOk q := by
  cases stepped taken with
  | accepts impl => exact accept_ok ok impl
  | mutates held here => exact mutate_ok ok held _
  | unwinds held impl exit => exact unwind_ok ok held impl exit
  | destroys made => exact destroy_ok ok made
  | begins k here => exact begin_ok ok here
  | queues only closers calls => exact ok.congr rfl rfl rfl rfl rfl

theorem ok_initial : OwnersOk machine.initial :=
  ⟨fun _ _ here => (by cases here), fun _ _ => rfl, fun _ _ => rfl, fun _ dead => (by cases dead), .empty⟩

theorem complete_initial : Complete machine.initial :=
  ⟨fun _ there => absurd rfl there, fun _ made => absurd made (Nat.not_lt_zero _)⟩

/-- No `mutate` throws between the release of the socket and its new session having it. -/
def KeepsOwner (_ : SocketOwners) (a : Action) (_ : SocketOwners) : Prop :=
  ∀ i exit, a = .mutateThrows i exit → exit.keepsOwner = true

theorem complete_next (ok : OwnersOk p) (complete : Complete p) {a : Action} (taken : p.next a = some q) :
    Complete q ↔ KeepsOwner p a q := by
  have quiet (only : ∀ i exit, a ≠ .mutateThrows i exit) : KeepsOwner p a q :=
    fun i exit same => absurd same (only i exit)
  cases stepped taken with
  | accepts impl => exact iff_of_true (accept_complete ok complete impl) (quiet fun _ _ => by simp)
  | mutates held here => exact iff_of_true (mutate_complete ok complete held _) (quiet fun _ _ => by simp)
  | unwinds held impl exit =>
    rw [unwind_complete ok complete held impl exit]
    constructor
    · rintro keeps _ _ ⟨⟩
      exact keeps
    · exact fun keeps => keeps _ _ rfl
  | destroys made => exact iff_of_true (destroy_complete complete) (quiet fun _ _ => by simp)
  | begins k here => exact iff_of_true (begin_complete complete here) (quiet fun _ _ => by simp)
  | queues only closers calls =>
    refine iff_of_true ⟨complete.owned, complete.owning⟩ (quiet fun i exit same => ?_)
    rw [same] at only
    cases only

/-- `start` is entered at most once, `close` at most once and only after `start`. -/
def EnteredOnce (p : SocketOwners) : Prop :=
  ∀ j cell, p.sockets j = some cell → cell.entered <+: [.start, .close]

/-- Every socket is owned by exactly one session, and every session owns a socket. -/
def OwnedOnce (p : SocketOwners) : Prop :=
  (∀ j, p.sockets j ≠ none → ∃! i, p.owns i = some j) ∧
    ∀ i, i < p.nextSession → i ∉ p.gone → ∃ j, p.owns i = some j ∧ p.sockets j ≠ none

/-- `mutate` passes the socket of a session as it is to a new session and leaves the old one
    with a new socket of the same class that was not started. -/
def MutatesFresh (p : SocketOwners) (a : Action) (q : SocketOwners) : Prop :=
  ∀ i, a = .mutate i → ∃ j cell k fresh, p.owns i = some j ∧ p.sockets j = some cell ∧
    q.owns p.nextSession = some j ∧ q.sockets j = some cell ∧
    p.sockets k = none ∧ q.owns i = some k ∧ q.sockets k = some fresh ∧
    fresh.socket.state = .initial ∧ fresh.entered = [] ∧
    fresh.socket.impl.sameClass cell.socket.impl = true

theorem Recorded.leads {cell : OwnedSocket} (recorded : Recorded cell) :
    cell.entered <+: [.start, .close] := by
  unfold Recorded at recorded
  rw [recorded]
  cases cell.socket.state <;> decide

theorem OwnersOk.enteredOnce (ok : OwnersOk p) : EnteredOnce p :=
  fun j cell here => (ok.recorded j cell here).leads

theorem mutatesFresh (ok : OwnersOk p) {a : Action} (taken : p.next a = some q) :
    MutatesFresh p a q := by
  rintro i rfl
  cases stepped taken with
  | mutates held here =>
    rename_i j cell
    have old : i ≠ p.nextSession := Nat.ne_of_lt (ok.made held)
    have other : j ≠ p.nextSocket := ok.old (ok.apart.present i j held)
    refine ⟨j, cell, p.nextSocket, ⟨.new cell.socket.impl.create, []⟩, held, here, ?_, ?_,
      ok.unborn _ (Nat.le_refl _), ?_, ?_, rfl, rfl, cell.socket.impl.create_sameClass⟩
    · simp [addSession, setSocket, releaseSocket, addSocket]
    · simp [addSession, setSocket, releaseSocket, addSocket, other, here]
    · simp [addSession, setSocket, releaseSocket, addSocket, old]
    · simp [addSession, setSocket, releaseSocket, addSocket]
  | queues only closers calls => cases only

theorem OwnersOk.ownedOnce_iff (ok : OwnersOk p) : OwnedOnce p ↔ Complete p := by
  constructor
  · intro once
    refine ⟨fun j there => (once.1 j there).exists, fun i made here bare => ?_⟩
    obtain ⟨j, held, _⟩ := once.2 i made here
    rw [bare] at held
    cases held
  · intro complete
    refine ⟨fun j there => ?_, fun i made here => ?_⟩
    · obtain ⟨i, held⟩ := complete.owned j there
      exact ok.apart.unique held
    · obtain ⟨j, held⟩ := Option.ne_none_iff_exists'.mp (complete.owning i made here)
      exact ⟨j, held, ok.apart.present i j held⟩

theorem visits_enteredOnce (as : List Action) : machine.Visits EnteredOnce machine.initial as := by
  refine Machine.visits_iff.mpr fun bs cs p split ran => ?_
  have ok : OwnersOk p := Machine.Reachable.invariant (I := OwnersOk) ok_initial
    (fun _ _ _ kept taken => ok_next kept taken) ⟨bs, ran⟩
  exact ok.enteredOnce

theorem always_mutatesFresh (as : List Action) : machine.Always MutatesFresh machine.initial as :=
  Machine.always_of_invariant (I := OwnersOk) (fun _ _ _ kept taken => ok_next kept taken)
    (fun _ _ _ kept taken => mutatesFresh kept taken) ok_initial as

/-- In every run every socket is started and closed at most once, in this order, and a `mutate`
    that returns leaves a new socket. Every socket also has one owner and every session one
    socket in exactly the runs in which no `mutate` throws while the socket is under way. -/
theorem lifecycle_once_iff (as : List Action) :
    (machine.Visits EnteredOnce machine.initial as ∧ machine.Always MutatesFresh machine.initial as) ∧
      (machine.Visits (fun p => EnteredOnce p ∧ OwnedOnce p) machine.initial as ∧
          machine.Always MutatesFresh machine.initial as ↔
        machine.Always KeepsOwner machine.initial as) := by
  have entered := visits_enteredOnce as
  have fresh := always_mutatesFresh as
  refine ⟨⟨entered, fresh⟩, ?_⟩
  rw [and_iff_left fresh]
  refine Machine.visits_iff_always (I := OwnersOk) (fun _ _ _ kept taken => ok_next kept taken)
    (fun p a q ok once taken => ?_) ok_initial
    ⟨ok_initial.enteredOnce, ok_initial.ownedOnce_iff.mpr complete_initial⟩ as
  have after := ok_next ok taken
  rw [and_iff_right after.enteredOnce, after.ownedOnce_iff]
  exact complete_next ok (ok.ownedOnce_iff.mp once.2) taken

/-- `sock->create(io())` throws in `mutate`: the session is left without a socket, and nobody
    has the one it had. -/
theorem released_unowned :
    ¬ machine.Visits (fun p => EnteredOnce p ∧ OwnedOnce p) machine.initial
      [.accept (.ssl .new), .mutateThrows 0 .create] := by
  intro visited
  obtain ⟨_, held, _⟩ := ((visited.2 _ rfl).2 _ rfl).2.2 0 (by decide) (by decide)
  cases held

end SocketOwners

end BoostBase
