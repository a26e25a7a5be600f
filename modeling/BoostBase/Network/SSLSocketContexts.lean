import BoostBase.Network.SSLSocketOwnership

namespace BoostBase

open Transition

namespace SSLSocketLife

variable {s t : SSLSocketLife}

/-- A call that makes a context and cannot load its files: `createSSLContext` holds it by a bare
    pointer. -/
def losesContext (_ : SSLSocketLife) : Action → Bool
  | .setSSLParameters exit => exit.context = .throwsAfter
  | _ => false

/-- What the socket points to: the next layer of its stream and its context. -/
def held (s : SSLSocketLife) : List RawObject :=
  match s.phase with
  | .alive m => [.nextLayer m.stream, .context m.sslContext]
  | .unborn | .dead => []

def madeCount (h : SocketHeap) : Nat := h.ledger.made.length

def freedCount (h : SocketHeap) : Nat := h.ledger.freed.length

@[simp] theorem madeCount_makeContext (h : SocketHeap) : madeCount h.makeContext = madeCount h + 1 :=
  List.length_append

@[simp] theorem madeCount_makeNextLayer (h : SocketHeap) : madeCount h.makeNextLayer = madeCount h + 1 :=
  List.length_append

@[simp] theorem madeCount_make (h : SocketHeap) (o : RawObject) : madeCount (h.make o) = madeCount h + 1 :=
  List.length_append

@[simp] theorem madeCount_delete (h : SocketHeap) (o : RawObject) (by_ : DeletingClass) :
    madeCount (h.delete o by_) = madeCount h := rfl

@[simp] theorem freedCount_makeContext (h : SocketHeap) : freedCount h.makeContext = freedCount h := rfl

@[simp] theorem freedCount_makeNextLayer (h : SocketHeap) :
    freedCount h.makeNextLayer = freedCount h := rfl

@[simp] theorem freedCount_make (h : SocketHeap) (o : RawObject) :
    freedCount (h.make o) = freedCount h := rfl

@[simp] theorem freedCount_delete (h : SocketHeap) (o : RawObject) (by_ : DeletingClass) :
    freedCount (h.delete o by_) = freedCount h + 1 :=
  List.length_append

theorem newStream_count (exit : NewExit) (h : SocketHeap) :
    madeCount (newStream exit h).2 + freedCount h =
      madeCount h + freedCount (newStream exit h).2 + if exit = .returns then 1 else 0 := by
  cases exit <;> simp [newStream] <;> omega

theorem newStream_some {exit : NewExit} {h : SocketHeap} :
    (newStream exit h).1.isSome = true ↔ exit = .returns := by
  cases exit <;> simp [newStream]

theorem setSSLParameters_count {m : SSLSocketMembers} (aliased : m.socketOwner = false)
    (exit : SSLParametersExit) (h : SocketHeap) :
    madeCount (m.setSSLParameters exit h).heap + freedCount h =
      madeCount h + freedCount (m.setSSLParameters exit h).heap +
        if exit.context = .throwsAfter then 1 else 0 := by
  unfold SSLSocketMembers.setSSLParameters createSSLContext
  cases exit.context with
  | throwsBefore => rfl
  | throwsAfter =>
    simp only [madeCount_makeContext, freedCount_makeContext, if_true]
    omega
  | returns =>
    dsimp only
    have count := newStream_count exit.stream (h.makeContext.delete (.context m.sslContext) .sslSocket)
    have built : (newStream exit.stream
        (h.makeContext.delete (.context m.sslContext) .sslSocket)).1.isSome = true ↔
        exit.stream = .returns := newStream_some
    simp only [madeCount_delete, freedCount_delete, madeCount_makeContext,
      freedCount_makeContext] at count
    split
    · rename_i h' stream
      rw [stream] at count built
      rw [if_neg (fun returns => by simpa using built.mpr returns)] at count
      simp only [reduceCtorEq, if_false] at count ⊢
      omega
    · rename_i k h' stream
      rw [stream] at count built
      rw [if_pos (built.mp rfl)] at count
      rw [TCPSocketMembers.setTCPSocket_alias aliased]
      simp only [madeCount_delete, freedCount_delete, reduceCtorEq, if_false] at count ⊢
      omega

theorem construct_count (exit : ConstructorExit) :
    madeCount (SSLSocketMembers.construct exit .new).2 =
      freedCount (SSLSocketMembers.construct exit .new).2 +
        if (SSLSocketMembers.construct exit .new).1.isSome then 2 else 0 := by
  obtain ⟨base, context, stream⟩ := exit
  cases base <;> cases context <;> cases stream <;> rfl

theorem destroy_count {m : SSLSocketMembers} (aliased : m.socketOwner = false) (h : SocketHeap) :
    madeCount (m.destroy h) = madeCount h ∧ freedCount (m.destroy h) = freedCount h + 2 := by
  rw [SSLSocketMembers.destroy, TCPSocketMembers.destroy_alias aliased]
  exact ⟨rfl, by rw [freedCount_delete, freedCount_delete]⟩

theorem Sound.aliased {m : SSLSocketMembers} {h : SocketHeap}
    (sound : Sound ⟨.alive m, h⟩) : m.socketOwner = false :=
  SSLSocketMembers.Aliases.socketOwner (SSLSocketMembers.Whole.aliases sound)

theorem count_next {lost : Nat} (sound : s.Sound)
    (count : madeCount s.heap = freedCount s.heap + lost + s.held.length) {a : Action}
    (taken : machine.next s a = some t) :
    madeCount t.heap = freedCount t.heap + (lost + if losesContext s a then 1 else 0) + t.held.length := by
  obtain ⟨phase, h⟩ := s
  cases phase with
  | unborn =>
    obtain rfl : h = .new := sound
    cases a with
    | construct exit =>
      have built := construct_count exit
      have fresh : madeCount SocketHeap.new = freedCount SocketHeap.new := rfl
      simp only [held, List.length_nil] at count
      cases made : SSLSocketMembers.construct exit .new with
      | mk members h =>
        rw [made] at built
        simp only [machine, made] at taken
        cases members with
        | none =>
          cases taken
          simp only [losesContext, held, List.length_nil, Option.isSome_none, Bool.false_eq_true, if_false] at built ⊢
          omega
        | some m =>
          cases taken
          simp only [losesContext, held, List.length_cons, List.length_nil, Option.isSome_some, if_true, Bool.false_eq_true,
            if_false] at built ⊢
          omega
    | setSSLParameters exit => cases taken
    | destroy => cases taken
  | alive m =>
    cases a with
    | construct exit => cases taken
    | setSSLParameters exit =>
      cases taken
      have changed := setSSLParameters_count sound.aliased exit h
      simp only [held, List.length_cons, List.length_nil, losesContext, decide_eq_true_eq] at count ⊢
      omega
    | destroy =>
      cases taken
      obtain ⟨made, freed⟩ := destroy_count sound.aliased h
      simp only [held, List.length_cons, List.length_nil, losesContext, Bool.false_eq_true, if_false] at count ⊢
      omega
  | dead => cases a <;> cases taken

theorem Sound.held (sound : s.Sound) :
    ∃ lost : List Nat, Balanced s.heap s.held lost := by
  obtain ⟨phase, h⟩ := s
  cases phase with
  | unborn =>
    obtain rfl : h = .new := sound
    exact ⟨[], .new⟩
  | alive m => exact SSLSocketMembers.Whole.balanced sound
  | dead => exact sound

/-- What a socket leaves behind, whatever calls of `setSSLParameters` it went through and however
    they ended: what it points to as long as it is there, and one context for each call whose
    context could not load its files. -/
theorem contexts_lost {as : List Action} (ran : machine.run machine.initial as = some s) :
    ∃ lost : List Nat, lost.length = machine.tally losesContext machine.initial as ∧
      s.heap.ledger.unfreed.Perm (s.held ++ lost.map RawObject.context) := by
  obtain ⟨lost, balanced⟩ := Sound.held (sound ⟨as, ran⟩)
  have perm := balanced.accounts.unfreed_perm
  refine ⟨lost, ?_, perm⟩
  have count : madeCount s.heap = freedCount s.heap + machine.tally losesContext machine.initial as +
      s.held.length := by
    refine Machine.run_course (m := machine) (fun as s => madeCount s.heap =
        freedCount s.heap + machine.tally losesContext machine.initial as + s.held.length)
      rfl (fun as s a t ran count taken => ?_) ran
    rw [Machine.tally_snoc ran taken]
    exact count_next (sound ⟨as, ran⟩) count taken
  have total : madeCount s.heap = (s.held ++ lost.map RawObject.context).length + freedCount s.heap := by
    have split := balanced.accounts.split.length_eq
    rwa [List.length_append, List.length_map] at split
  rw [List.length_append, List.length_map] at total
  omega

def misconfigured : List Action :=
  [.construct ⟨false, false, .returns⟩, .setSSLParameters ⟨.throwsAfter, .returns, false⟩,
    .setSSLParameters ⟨.throwsAfter, .returns, false⟩, .setSSLParameters ⟨.returns, .returns, false⟩,
    .destroy]

theorem contexts_lost_misconfigured : ∃ s lost, machine.run machine.initial misconfigured = some s ∧
    List.length lost = 2 ∧ s.heap.ledger.unfreed.Perm (lost.map RawObject.context) := by
  have ran : machine.run machine.initial misconfigured = some _ := rfl
  obtain ⟨lost, count, perm⟩ := contexts_lost ran
  exact ⟨_, lost, ran, count, perm⟩

end SSLSocketLife

/-- A socket with the stream whose next layer has the connection. -/
structure SSLConnection where
  life : SSLSocketLife
  connection : Option Nat

namespace SSLConnection

open SSLSocketLife

/-- `std::move(m_socket->next_layer())` of the stream `from_` goes to the stream that is made. A
    stream that throws takes the connection with it. -/
def moved (exit : NewExit) (from_ made : Nat) (connection : Option Nat) : Option Nat :=
  if connection = some from_ then
    match exit with
    | .throwsBefore => connection
    | .throwsAfter => none
    | .returns => some made
  else connection

def machine : Machine SSLConnection Action where
  initial := ⟨SSLSocketLife.machine.initial, none⟩
  next s a := (SSLSocketLife.machine.next s.life a).map fun life =>
    match s.life.phase, a with
    | .unborn, .construct _ =>
      -- the constructor is handed the connection, and a stream that throws takes it along
      match life.phase with
      | .alive m => ⟨life, some m.stream⟩
      | .unborn | .dead => ⟨life, none⟩
    | .alive m, .setSSLParameters exit =>
      if exit.context = .returns then
        ⟨life, moved exit.stream m.stream s.life.heap.streams s.connection⟩
      else ⟨life, s.connection⟩
    | _, _ => ⟨life, none⟩

variable {s t : SSLConnection} {a : Action}

/-- The socket that is there talks over the connection it was handed. -/
def Connected (s : SSLConnection) : Prop :=
  ∀ m, s.life.phase = .alive m → s.connection = some m.stream

/-- The call does not make a stream that takes the connection and throws. -/
def KeepsConnection (s : SSLConnection) (a : Action) (_ : SSLConnection) : Prop :=
  ∀ m exit, s.life.phase = .alive m → a = .setSSLParameters exit → exit.context = .returns →
    exit.stream ≠ .throwsAfter

theorem setSSLParameters_stream (exit : SSLParametersExit) (m : SSLSocketMembers) (h : SocketHeap) :
    (m.setSSLParameters exit h).members.stream =
      if exit.context = .returns ∧ exit.stream = .returns then h.streams else m.stream := by
  obtain ⟨context, stream, verify⟩ := exit
  cases context <;> cases stream <;> rfl

theorem connected_alive {m : SSLSocketMembers} {h : SocketHeap} {connection : Option Nat} :
    Connected ⟨⟨.alive m, h⟩, connection⟩ ↔ connection = some m.stream := by
  constructor
  · exact fun connected => connected m rfl
  · intro kept m' same
    cases same
    exact kept

theorem keepsConnection_alive {m : SSLSocketMembers} {h : SocketHeap} {connection : Option Nat}
    {exit : SSLParametersExit} :
    KeepsConnection ⟨⟨.alive m, h⟩, connection⟩ (.setSSLParameters exit) t ↔
      (exit.context = .returns → exit.stream ≠ .throwsAfter) := by
  constructor
  · exact fun keeps => keeps m exit rfl rfl
  · intro keeps m' exit' _ same
    cases same
    exact keeps

/-- The connection is gone, and the socket was made before it went. -/
def Lost (s : SSLConnection) : Prop := s.connection = none ∧ s.life.phase ≠ .unborn

theorem connected_next (connected : s.Connected) (taken : machine.next s a = some t) :
    (KeepsConnection s a t → t.Connected) ∧ (¬ KeepsConnection s a t → t.Lost) := by
  obtain ⟨⟨phase, h⟩, connection⟩ := s
  obtain ⟨life, moved_, rfl⟩ := Option.map_eq_some_iff.mp taken
  cases phase with
  | unborn =>
    cases a with
    | construct exit =>
      refine ⟨fun _ m alive => ?_, fun loses => (loses fun m _ alive => by cases alive).elim⟩
      obtain ⟨phase, h'⟩ := life
      cases phase with
      | alive m' =>
        cases alive
        rfl
      | unborn => cases alive
      | dead => cases alive
    | setSSLParameters exit => cases moved_
    | destroy => cases moved_
  | alive m =>
    obtain rfl : connection = some m.stream := connected m rfl
    cases a with
    | construct exit => cases moved_
    | setSSLParameters exit =>
      cases moved_
      have stream := setSSLParameters_stream exit m h
      rw [keepsConnection_alive]
      by_cases context : exit.context = .returns
      · simp only [context, if_true, true_and, forall_const] at stream ⊢
        rw [connected_alive, stream]
        cases exit.stream <;> simp [moved, Lost]
      · simp only [context, if_false, false_and, false_imp_iff] at stream ⊢
        exact ⟨fun _ => connected_alive.mpr (congrArg some stream.symm), fun no => (no trivial).elim⟩
    | destroy =>
      cases moved_
      exact ⟨fun _ m alive => (by cases alive),
        fun loses => (loses fun _ _ _ same => by cases same).elim⟩
  | dead => cases a <;> cases moved_

theorem lost_next (lost : s.Lost) (taken : machine.next s a = some t) : t.Lost := by
  obtain ⟨⟨phase, h⟩, connection⟩ := s
  obtain ⟨rfl, born⟩ : connection = none ∧ phase ≠ .unborn := lost
  obtain ⟨life, moved_, rfl⟩ := Option.map_eq_some_iff.mp taken
  cases phase with
  | unborn => exact absurd rfl born
  | alive m =>
    cases a with
    | construct exit => cases moved_
    | setSSLParameters exit =>
      cases moved_
      dsimp only
      split
      · exact ⟨by simp [moved], fun unborn => by cases unborn⟩
      · exact ⟨rfl, fun unborn => by cases unborn⟩
    | destroy =>
      cases moved_
      exact ⟨rfl, fun unborn => by cases unborn⟩
  | dead => cases a <;> cases moved_

theorem connection_course {as : List Action} (ran : machine.run machine.initial as = some s) :
    (machine.Always KeepsConnection machine.initial as → s.Connected) ∧
      (¬ machine.Always KeepsConnection machine.initial as → s.Lost) := by
  refine Machine.run_course (m := machine) (fun as s =>
    (machine.Always KeepsConnection machine.initial as → s.Connected) ∧
      (¬ machine.Always KeepsConnection machine.initial as → s.Lost)) ?_ ?_ ran
  · exact ⟨fun _ m alive => (by cases alive), fun no => (no trivial).elim⟩
  · rintro as s a t ran ⟨kept, lost⟩ taken
    rw [Machine.always_taken ran taken]
    refine ⟨fun all => (connected_next (kept all.1) taken).1 all.2, fun loses => ?_⟩
    by_cases before : machine.Always KeepsConnection machine.initial as
    · exact (connected_next (kept before) taken).2 fun keeps => loses ⟨before, keeps⟩
    · exact lost_next (lost before) taken

/-- A socket that is there still has its connection, in the stream it has now, if and only if no
    call of `setSSLParameters` made a stream that threw after it had taken the connection. -/
theorem connection_kept {m : SSLSocketMembers} {as : List Action}
    (ran : machine.run machine.initial as = some s) (alive : s.life.phase = .alive m) :
    s.connection = some m.stream ↔ machine.Always KeepsConnection machine.initial as := by
  obtain ⟨kept, lost⟩ := connection_course ran
  constructor
  · intro there
    by_contra loses
    rw [(lost loses).1] at there
    cases there
  · exact fun all => kept all m alive

def renewed : List Action :=
  [.construct ⟨false, false, .returns⟩, .setSSLParameters ⟨.returns, .returns, false⟩,
    .setSSLParameters ⟨.throwsAfter, .throwsAfter, false⟩,
    .setSSLParameters ⟨.returns, .returns, true⟩]

theorem connection_kept_renewed : ∃ s m, machine.run machine.initial renewed = some s ∧
    s.life.phase = .alive m ∧ s.connection = some 2 ∧ m.stream = 2 ∧
    machine.Always KeepsConnection machine.initial renewed := by
  have ran : machine.run machine.initial renewed = some _ := rfl
  exact ⟨_, _, ran, rfl, rfl, rfl, (connection_kept ran rfl).mp rfl⟩

end SSLConnection

end BoostBase
