import BoostBase.Transition.Machine
import Mathlib.Data.List.TakeWhile
import Mathlib.Logic.Function.Basic

namespace BoostBase

open Transition

def bytesOf (n : BitVec 32) : List UInt8 :=
  [n.toNat, n.toNat / 256, n.toNat / 65536, n.toNat / 16777216].map UInt8.ofNat

def ofBytes : List UInt8 → BitVec 32
  | [a, b, c, d] => BitVec.ofNat 32 (a.toNat + 256 * b.toNat + 65536 * c.toNat + 16777216 * d.toNat)
  | _ => 0

@[simp] theorem length_bytesOf (n : BitVec 32) : (bytesOf n).length = 4 := rfl

@[simp] theorem ofBytes_bytesOf (n : BitVec 32) : ofBytes (bytesOf n) = n := by
  apply BitVec.eq_of_toNat_eq
  have bound := n.isLt
  simp only [bytesOf, List.map_cons, List.map_nil, ofBytes, BitVec.toNat_ofNat, UInt8.toNat_ofNat']
  omega

/-- The calls of `boost::interprocess::message_queue`. `ω` is a system with its queues, `δ` a
    queue that is open and `ε` what is thrown; what is received comes with its priority. -/
structure MessageQueues (ω δ ε : Type) where
  remove : String → EStateM ε ω Bool
  openOnly : String → EStateM ε ω δ
  createOnly : String → Nat → Nat → EStateM ε ω δ
  trySend : δ → List UInt8 → Nat → EStateM ε ω Bool
  tryReceive : δ → Nat → EStateM ε ω (Option (Nat × List UInt8))

structure IPCIntQueue (δ : Type) where
  parent : Bool
  name : String
  queue : δ
  deriving DecidableEq

variable {ω δ ε : Type}

namespace IPCIntQueue

variable (boost : MessageQueues ω δ ε)

def new (name : String) (child : Bool) (size : Nat) : EStateM ε ω (IPCIntQueue δ) :=
  if child then do
    let queue ← boost.openOnly name
    return ⟨!child, name, queue⟩
  else do
    let _ ← boost.remove name
    let queue ← boost.createOnly name size 4
    return ⟨!child, name, queue⟩

def delete (x : IPCIntQueue δ) : EStateM ε ω Unit :=
  if x.parent then do
    let _ ← boost.remove x.name
    return ()
  else
    return ()

def trySend (x : IPCIntQueue δ) (msg : BitVec 32) : EStateM ε ω Bool :=
  boost.trySend x.queue (bytesOf msg) 0

/-- What is received is written over the bytes of `msg`. -/
def tryReceive (x : IPCIntQueue δ) (msg : BitVec 32) : EStateM ε ω (Bool × BitVec 32) := do
  match ← boost.tryReceive x.queue 4 with
  | none => return (false, msg)
  | some (_, bytes) =>
    return (decide (bytes.length = 4), ofBytes (bytes ++ (bytesOf msg).drop bytes.length))

end IPCIntQueue

/-- The processes of a system with their `IPCIntQueue`s; one that was destroyed is `none`. `sent`
    and `received` are history: what the calls that returned true have sent and received. -/
structure Interprocess (ω δ : Type) where
  system : ω
  handles : List (Option (IPCIntQueue δ))
  sent : List (δ × BitVec 32)
  received : List (δ × BitVec 32)

namespace Interprocess

inductive Action
  | construct (name : String) (child : Bool) (size : Nat)
  | trySend (h : Nat) (msg : BitVec 32)
  | tryReceive (h : Nat) (msg : BitVec 32)
  | destroy (h : Nat)
  deriving DecidableEq

def handle (s : Interprocess ω δ) (h : Nat) : Option (IPCIntQueue δ) := s.handles[h]?.join

def construct (boost : MessageQueues ω δ ε) (s : Interprocess ω δ) (name : String) (child : Bool)
    (size : Nat) : Interprocess ω δ :=
  match IPCIntQueue.new boost name child size s.system with
  | .error _ w => { s with system := w }
  | .ok x w => { s with system := w, handles := s.handles ++ [some x] }

def trySend (boost : MessageQueues ω δ ε) (s : Interprocess ω δ) (x : IPCIntQueue δ)
    (msg : BitVec 32) : Interprocess ω δ :=
  match x.trySend boost msg s.system with
  | .error _ w | .ok false w => { s with system := w }
  | .ok true w => { s with system := w, sent := s.sent ++ [(x.queue, msg)] }

def tryReceive (boost : MessageQueues ω δ ε) (s : Interprocess ω δ) (x : IPCIntQueue δ)
    (msg : BitVec 32) : Interprocess ω δ :=
  match x.tryReceive boost msg s.system with
  | .error _ w | .ok (false, _) w => { s with system := w }
  | .ok (true, msg) w => { s with system := w, received := s.received ++ [(x.queue, msg)] }

def destroy (boost : MessageQueues ω δ ε) (s : Interprocess ω δ) (h : Nat) (x : IPCIntQueue δ) :
    Interprocess ω δ :=
  match x.delete boost s.system with
  | .error _ w | .ok _ w => { s with system := w, handles := s.handles.set h none }

def machine (boost : MessageQueues ω δ ε) (system : ω) : Machine (Interprocess ω δ) Action where
  initial := ⟨system, [], [], []⟩
  next s
    | .construct name child size => some (s.construct boost name child size)
    | .trySend h msg => (s.handle h).map fun x => s.trySend boost x msg
    | .tryReceive h msg => (s.handle h).map fun x => s.tryReceive boost x msg
    | .destroy h => (s.handle h).map (s.destroy boost h)

end Interprocess

/-- A queue as it is documented: bounded in the number of its messages and in their size, with
    the messages in the order they are received. -/
structure MessageQueue where
  maxNum : Nat
  maxSize : Nat
  messages : List (Nat × List UInt8)

/-- A message comes behind those of its priority and above. -/
def MessageQueue.insert (q : MessageQueue) (priority : Nat) (bytes : List UInt8) : MessageQueue :=
  { q with
    messages := q.messages.takeWhile (fun m => priority ≤ m.1) ++
      (priority, bytes) :: q.messages.dropWhile (fun m => priority ≤ m.1) }

/-- `names` are the queues that can be opened; one that was removed stays with those who have it. -/
structure SharedQueues where
  names : String → Option Nat
  queues : List MessageQueue

namespace SharedQueues

def empty : SharedQueues := ⟨fun _ => none, []⟩

def unlink (g : SharedQueues) (name : String) : SharedQueues :=
  { g with names := Function.update g.names name none }

def create (g : SharedQueues) (name : String) (maxNum maxSize : Nat) : SharedQueues where
  names := Function.update g.names name (some g.queues.length)
  queues := g.queues ++ [⟨maxNum, maxSize, []⟩]

def set (g : SharedQueues) (k : Nat) (q : MessageQueue) : SharedQueues :=
  { g with queues := g.queues.set k q }

end SharedQueues

/-- What is documented of the calls, for a message that fits and a buffer that is large enough:
    `shared` are the queues of a system, and `place` tells which one was opened. Opening and
    creating may fail, and so may removing. -/
structure Documented (boost : MessageQueues ω δ ε) where
  shared : ω → SharedQueues
  place : δ → Nat
  remove (name : String) (w : ω) : ∃ b w', boost.remove name w = .ok b w' ∧
    (shared w' = (shared w).unlink name ∨ b = false ∧ shared w' = shared w)
  openOnly {name : String} {d : δ} {w w' : ω} (opened : boost.openOnly name w = .ok d w') :
    (shared w).names name = some (place d) ∧ shared w' = shared w
  openOnly_error {name : String} {e : ε} {w w' : ω} (failed : boost.openOnly name w = .error e w') :
    shared w' = shared w
  createOnly {name : String} {maxNum maxSize : Nat} {d : δ} {w w' : ω}
    (created : boost.createOnly name maxNum maxSize w = .ok d w') : (shared w).names name = none ∧
      place d = (shared w).queues.length ∧ shared w' = (shared w).create name maxNum maxSize
  createOnly_error {name : String} {maxNum maxSize : Nat} {e : ε} {w w' : ω}
    (failed : boost.createOnly name maxNum maxSize w = .error e w') : shared w' = shared w
  trySend {d : δ} {w : ω} {q : MessageQueue} (open_ : (shared w).queues[place d]? = some q)
    {bytes : List UInt8} (fits : bytes.length ≤ q.maxSize) (priority : Nat) :
    ∃ w', boost.trySend d bytes priority w = .ok (decide (q.messages.length < q.maxNum)) w' ∧
      shared w' = if q.messages.length < q.maxNum then (shared w).set (place d) (q.insert priority bytes)
        else shared w
  tryReceive {d : δ} {w : ω} {q : MessageQueue} (open_ : (shared w).queues[place d]? = some q)
    {bufferSize : Nat} (fits : q.maxSize ≤ bufferSize) :
    ∃ w', boost.tryReceive d bufferSize w = .ok q.messages.head? w' ∧
      shared w' = (shared w).set (place d) { q with messages := q.messages.tail }

namespace SharedQueues

variable {g : SharedQueues}

theorem unlink_names {name other : String} {k : Nat} (open_ : (g.unlink name).names other = some k) :
    g.names other = some k := by
  by_cases same : other = name
  · subst same
    simp [unlink] at open_
  · simpa [unlink, same] using open_

@[simp] theorem unlink_create (g : SharedQueues) (name : String) (maxNum maxSize : Nat) :
    (g.unlink name).create name maxNum maxSize = g.create name maxNum maxSize := by
  simp [unlink, create]

theorem create_self (g : SharedQueues) (name : String) (maxNum maxSize : Nat) :
    (g.create name maxNum maxSize).names name = some g.queues.length := Function.update_self ..

theorem create_other {name other : String} (ne : other ≠ name) (maxNum maxSize : Nat) :
    (g.create name maxNum maxSize).names other = g.names other := Function.update_of_ne ne ..

theorem get_create {name : String} {maxNum maxSize k : Nat} {q : MessageQueue}
    (there : (g.create name maxNum maxSize).queues[k]? = some q) :
    k = g.queues.length ∧ q = ⟨maxNum, maxSize, []⟩ ∨ g.queues[k]? = some q := by
  unfold create at there
  by_cases inside : k < g.queues.length
  · rw [List.getElem?_append_left inside] at there
    exact .inr there
  · have bound := (List.getElem?_eq_some_iff.mp there).1
    rw [List.length_append, List.length_singleton] at bound
    obtain rfl : k = g.queues.length := by omega
    rw [List.getElem?_concat_length] at there
    exact .inl ⟨rfl, (Option.some.inj there).symm⟩

theorem get_set {j k : Nat} {q r : MessageQueue} (there : (g.set j r).queues[k]? = some q) :
    k = j ∧ q = r ∨ k ≠ j ∧ g.queues[k]? = some q := by
  unfold set at there
  by_cases same : k = j
  · subst same
    have inside : k < g.queues.length := by simpa using (List.getElem?_eq_some_iff.mp there).1
    rw [List.getElem?_set_self inside] at there
    exact .inl ⟨rfl, (Option.some.inj there).symm⟩
  · rw [List.getElem?_set_ne (Ne.symm same)] at there
    exact .inr ⟨same, there⟩

end SharedQueues

inductive InterprocessError
  | notFound
  | alreadyExists
  | size
  deriving DecidableEq

/-- Queues that do what is documented, in a system that never runs out of memory. -/
def SharedQueues.calls : MessageQueues SharedQueues Nat InterprocessError where
  remove name g := .ok (g.names name).isSome (g.unlink name)
  openOnly name g :=
    match g.names name with
    | none => .error .notFound g
    | some k => .ok k g
  createOnly name maxNum maxSize g :=
    if (g.names name).isSome then .error .alreadyExists g
    else .ok g.queues.length (g.create name maxNum maxSize)
  trySend k bytes priority g :=
    match g.queues[k]? with
    | none => .error .notFound g
    | some q =>
      if q.maxSize < bytes.length then .error .size g
      else if q.messages.length < q.maxNum then .ok true (g.set k (q.insert priority bytes))
      else .ok false g
  tryReceive k bufferSize g :=
    match g.queues[k]? with
    | none => .error .notFound g
    | some q =>
      if bufferSize < q.maxSize then .error .size g
      else .ok q.messages.head? (g.set k { q with messages := q.messages.tail })

def SharedQueues.documented : Documented SharedQueues.calls where
  shared g := g
  place k := k
  remove name g := ⟨_, _, rfl, .inl rfl⟩
  openOnly {name d w w'} opened := by
    simp only [calls] at opened
    split at opened
    · cases opened
    · rename_i k open_
      cases opened
      exact ⟨open_, rfl⟩
  openOnly_error {name e w w'} failed := by
    simp only [calls] at failed
    split at failed
    · cases failed
      rfl
    · cases failed
  createOnly {name maxNum maxSize d w w'} created := by
    simp only [calls] at created
    split at created
    · cases created
    · rename_i absent
      cases created
      exact ⟨Option.not_isSome_iff_eq_none.mp absent, rfl, rfl⟩
  createOnly_error {name maxNum maxSize e w w'} failed := by
    simp only [calls] at failed
    split at failed
    · cases failed
      rfl
    · cases failed
  trySend {d w q} open_ {bytes} fits priority := by
    simp only [calls, open_, if_neg (Nat.not_lt.mpr fits)]
    split
    · rename_i room
      exact ⟨_, by rw [decide_eq_true room], rfl⟩
    · rename_i full
      exact ⟨_, by rw [decide_eq_false full], rfl⟩
  tryReceive {d w q} open_ {bufferSize} fits := by
    simp only [calls, open_, if_neg (Nat.not_lt.mpr fits)]
    exact ⟨_, rfl, rfl⟩

namespace MessageQueue

variable {q : MessageQueue}

def contents (q : MessageQueue) : List (BitVec 32) := q.messages.map fun m => ofBytes m.2

structure Ints (q : MessageQueue) : Prop where
  maxSize : q.maxSize = 4
  bounded : q.messages.length ≤ q.maxNum
  ints : ∀ m ∈ q.messages, ∃ n, m.2 = bytesOf n

theorem Ints.empty (size : Nat) : Ints ⟨size, 4, []⟩ := ⟨rfl, Nat.zero_le _, by simp⟩

/-- The message comes last: no priority is below that of an `int`. -/
theorem insert_zero (q : MessageQueue) (bytes : List UInt8) :
    q.insert 0 bytes = { q with messages := q.messages ++ [(0, bytes)] } := by
  have before : q.messages.takeWhile (fun m => 0 ≤ m.1) = q.messages :=
    List.takeWhile_eq_self_iff.mpr fun _ _ => decide_eq_true (Nat.zero_le _)
  have behind : q.messages.dropWhile (fun m => 0 ≤ m.1) = [] :=
    List.dropWhile_eq_nil_iff.mpr fun _ _ => decide_eq_true (Nat.zero_le _)
  rw [insert, before, behind]

theorem Ints.insert (ints : Ints q) (room : q.messages.length < q.maxNum) (msg : BitVec 32) :
    Ints (q.insert 0 (bytesOf msg)) := by
  rw [insert_zero]
  refine ⟨ints.maxSize, ?_, fun m member => ?_⟩
  · simp only [List.length_append, List.length_singleton]
    omega
  · rcases List.mem_append.mp member with before | last
    · exact ints.ints m before
    · obtain rfl := List.mem_singleton.mp last
      exact ⟨msg, rfl⟩

theorem contents_insert (q : MessageQueue) (msg : BitVec 32) :
    (q.insert 0 (bytesOf msg)).contents = q.contents ++ [msg] := by
  simp [insert_zero, contents]

theorem Ints.tail (ints : Ints q) : Ints { q with messages := q.messages.tail } where
  maxSize := ints.maxSize
  bounded := by
    rw [List.length_tail]
    exact Nat.le_trans (Nat.sub_le _ _) ints.bounded
  ints m member := ints.ints m (List.mem_of_mem_tail member)

end MessageQueue

section Documented

open MessageQueue

variable {boost : MessageQueues ω δ ε} (spec : Documented boost)

namespace IPCIntQueue

variable {name : String} {child : Bool} {size : Nat} {x : IPCIntQueue δ} {w w' : ω} {q : MessageQueue}

/-- A child has the queue that is open under its name, a parent a new one. -/
theorem new_ok (made : new boost name child size w = .ok x w') : x.name = name ∧
    if child then
      (spec.shared w).names name = some (spec.place x.queue) ∧ spec.shared w' = spec.shared w
    else
      spec.place x.queue = (spec.shared w).queues.length ∧
        spec.shared w' = (spec.shared w).create name size 4 := by
  cases child with
  | true =>
    cases opened : boost.openOnly name w with
    | error e w₁ => simp [new, bind, EStateM.bind, opened] at made
    | ok d w₁ =>
      simp only [new, if_true, bind, EStateM.bind, opened, pure, EStateM.pure, EStateM.Result.ok.injEq] at made
      obtain ⟨rfl, rfl⟩ := made
      exact ⟨rfl, spec.openOnly opened⟩
  | false =>
    obtain ⟨b, w₁, removed, left⟩ := spec.remove name w
    cases created : boost.createOnly name size 4 w₁ with
    | error e w₂ => simp [new, bind, EStateM.bind, removed, created] at made
    | ok d w₂ =>
      simp only [new, Bool.false_eq_true, if_false, bind, EStateM.bind, removed, created, pure, EStateM.pure,
        EStateM.Result.ok.injEq] at made
      obtain ⟨rfl, rfl⟩ := made
      obtain ⟨-, last, shared⟩ := spec.createOnly created
      refine ⟨rfl, ?_⟩
      rw [if_neg Bool.false_ne_true, last, shared]
      rcases left with gone | ⟨-, same⟩
      · rw [gone, SharedQueues.unlink_create]
        exact ⟨rfl, rfl⟩
      · rw [same]
        exact ⟨rfl, rfl⟩

/-- A parent that is not made may have removed the name. -/
theorem new_error {e : ε} (failed : new boost name child size w = .error e w') :
    spec.shared w' = spec.shared w ∨ spec.shared w' = (spec.shared w).unlink name := by
  cases child with
  | true =>
    cases opened : boost.openOnly name w with
    | error e w₁ =>
      simp only [new, if_true, bind, EStateM.bind, opened, EStateM.Result.error.injEq] at failed
      obtain ⟨rfl, rfl⟩ := failed
      exact .inl (spec.openOnly_error opened)
    | ok d w₁ => simp [new, bind, EStateM.bind, opened, pure, EStateM.pure] at failed
  | false =>
    obtain ⟨b, w₁, removed, left⟩ := spec.remove name w
    cases created : boost.createOnly name size 4 w₁ with
    | error e w₂ =>
      simp only [new, Bool.false_eq_true, if_false, bind, EStateM.bind, removed, created,
        EStateM.Result.error.injEq] at failed
      obtain ⟨rfl, rfl⟩ := failed
      rw [spec.createOnly_error created]
      exact left.symm.imp_left And.right
    | ok d w₂ => simp [new, bind, EStateM.bind, removed, created, pure, EStateM.pure] at failed

theorem delete_spec (x : IPCIntQueue δ) (w : ω) : ∃ w', x.delete boost w = .ok () w' ∧
    (spec.shared w' = spec.shared w ∨ spec.shared w' = (spec.shared w).unlink x.name) := by
  unfold delete
  split
  · obtain ⟨b, w₁, removed, left⟩ := spec.remove x.name w
    refine ⟨w₁, ?_, left.symm.imp_left And.right⟩
    simp only [bind, EStateM.bind, removed, pure, EStateM.pure]
  · exact ⟨w, rfl, .inl rfl⟩

theorem trySend_spec (open_ : (spec.shared w).queues[spec.place x.queue]? = some q) (ints : Ints q)
    (msg : BitVec 32) :
    ∃ w', x.trySend boost msg w = .ok (decide (q.messages.length < q.maxNum)) w' ∧
      spec.shared w' = if q.messages.length < q.maxNum then
          (spec.shared w).set (spec.place x.queue) (q.insert 0 (bytesOf msg))
        else spec.shared w :=
  spec.trySend open_ (by rw [length_bytesOf, ints.maxSize]) 0

theorem tryReceive_spec (open_ : (spec.shared w).queues[spec.place x.queue]? = some q) (ints : Ints q)
    (msg : BitVec 32) :
    ∃ w', x.tryReceive boost msg w = .ok (q.contents.head?.isSome, q.contents.head?.getD msg) w' ∧
      spec.shared w' = (spec.shared w).set (spec.place x.queue) { q with messages := q.messages.tail } := by
  obtain ⟨w', received, shared⟩ := spec.tryReceive open_ (Nat.le_of_eq ints.maxSize)
  refine ⟨w', ?_, shared⟩
  unfold tryReceive
  simp only [bind, EStateM.bind, received, contents]
  cases first : q.messages with
  | nil => rfl
  | cons m rest =>
    obtain ⟨n, bytes⟩ := ints.ints m (by simp [first])
    have whole : (bytesOf msg).drop 4 = [] := rfl
    simp [bytes, whole, pure, EStateM.pure]

end IPCIntQueue

namespace Interprocess

variable {s t : Interprocess ω δ} {a : Action} {system : ω}

def sentTo (s : Interprocess ω δ) (k : Nat) : List (BitVec 32) :=
  (s.sent.filter fun p => spec.place p.1 = k).map Prod.snd

def receivedFrom (s : Interprocess ω δ) (k : Nat) : List (BitVec 32) :=
  (s.received.filter fun p => spec.place p.1 = k).map Prod.snd

/-- What was sent to a queue was received from it or is in it, in one order, and every handle has a
    queue. -/
structure Ok (s : Interprocess ω δ) : Prop where
  ints : ∀ k q, (spec.shared s.system).queues[k]? = some q →
    Ints q ∧ s.sentTo spec k = s.receivedFrom spec k ++ q.contents
  unmade : ∀ k, (spec.shared s.system).queues.length ≤ k →
    s.sentTo spec k = [] ∧ s.receivedFrom spec k = []
  names : ∀ name k, (spec.shared s.system).names name = some k → k < (spec.shared s.system).queues.length
  mapped : ∀ x, some x ∈ s.handles → spec.place x.queue < (spec.shared s.system).queues.length

variable {spec}

theorem Ok.initial (clean : spec.shared system = .empty) : Ok spec (machine boost system).initial where
  ints k q there := by
    change (spec.shared system).queues[k]? = some q at there
    rw [clean] at there
    cases there
  unmade _ _ := ⟨rfl, rfl⟩
  names name k open_ := by
    change (spec.shared system).names name = some k at open_
    rw [clean] at open_
    cases open_
  mapped x member := by cases member

theorem Ok.less (ok : Ok spec s) (sent : t.sent = s.sent) (received : t.received = s.received)
    (handles : ∀ x, some x ∈ t.handles → some x ∈ s.handles)
    (shared : spec.shared t.system = spec.shared s.system ∨
      ∃ name, spec.shared t.system = (spec.shared s.system).unlink name) : Ok spec t := by
  have queues : (spec.shared t.system).queues = (spec.shared s.system).queues := by
    rcases shared with same | ⟨name, same⟩ <;> rw [same]
    rfl
  have names (name : String) (k : Nat) (open_ : (spec.shared t.system).names name = some k) :
      (spec.shared s.system).names name = some k := by
    rcases shared with same | ⟨other, same⟩ <;> rw [same] at open_
    · exact open_
    · exact SharedQueues.unlink_names open_
  refine ⟨?_, ?_, fun name k open_ => ?_, fun x member => ?_⟩
  · unfold sentTo receivedFrom
    rw [queues, sent, received]
    exact ok.ints
  · unfold sentTo receivedFrom
    rw [queues, sent, received]
    exact ok.unmade
  · rw [queues]
    exact ok.names name k (names name k open_)
  · rw [queues]
    exact ok.mapped x (handles x member)

theorem Ok.onQueue (ok : Ok spec s) {j : Nat} {r : MessageQueue}
    (shared : spec.shared t.system = (spec.shared s.system).set j r) (handles : t.handles = s.handles)
    (inside : j < (spec.shared s.system).queues.length)
    (changed : Ints r ∧ t.sentTo spec j = t.receivedFrom spec j ++ r.contents)
    (others : ∀ k ≠ j, t.sentTo spec k = s.sentTo spec k ∧ t.receivedFrom spec k = s.receivedFrom spec k) :
    Ok spec t := by
  have length : (spec.shared t.system).queues.length = (spec.shared s.system).queues.length := by
    rw [shared]
    exact List.length_set
  refine ⟨fun k q there => ?_, fun k beyond => ?_, fun name k open_ => ?_, fun x member => ?_⟩
  · rcases SharedQueues.get_set (shared ▸ there) with ⟨rfl, rfl⟩ | ⟨away, before⟩
    · exact changed
    · rw [(others k away).1, (others k away).2]
      exact ok.ints k q before
  · rw [length] at beyond
    rw [(others k (by omega)).1, (others k (by omega)).2]
    exact ok.unmade k beyond
  · rw [length]
    rw [shared] at open_
    exact ok.names name k open_
  · rw [length]
    exact ok.mapped x (handles ▸ member)

theorem Ok.opened (ok : Ok spec s) {x : IPCIntQueue δ} {w : ω}
    (open_ : (spec.shared s.system).names x.name = some (spec.place x.queue))
    (shared : spec.shared w = spec.shared s.system) :
    Ok spec { s with system := w, handles := s.handles ++ [some x] } := by
  have kept : Ok spec { s with system := w } := ok.less rfl rfl (fun _ => id) (.inl shared)
  refine ⟨kept.ints, kept.unmade, kept.names, fun y member => ?_⟩
  rcases List.mem_append.mp member with before | last
  · exact kept.mapped y before
  · obtain rfl : y = x := Option.some.inj (List.mem_singleton.mp last)
    exact kept.names y.name _ (shared ▸ open_)

theorem Ok.created (ok : Ok spec s) {x : IPCIntQueue δ} {w : ω} {name : String} {size : Nat}
    (last : spec.place x.queue = (spec.shared s.system).queues.length)
    (shared : spec.shared w = (spec.shared s.system).create name size 4) :
    Ok spec { s with system := w, handles := s.handles ++ [some x] } := by
  have longer : (spec.shared w).queues.length = (spec.shared s.system).queues.length + 1 := by
    rw [shared]
    exact List.length_append
  refine ⟨fun k q there => ?_, fun k beyond => ?_, fun other k open_ => ?_, fun y member => ?_⟩
  · rcases SharedQueues.get_create (shared ▸ there) with ⟨rfl, rfl⟩ | before
    · obtain ⟨unsent, unreceived⟩ := ok.unmade _ (Nat.le_refl _)
      exact ⟨.empty size, unsent.trans (by rw [← unreceived]; exact (List.append_nil _).symm)⟩
    · exact ok.ints k q before
  · exact ok.unmade k (by change (spec.shared w).queues.length ≤ k at beyond; omega)
  · change (spec.shared w).names other = some k at open_
    change k < (spec.shared w).queues.length
    rw [longer]
    rw [shared] at open_
    by_cases same : other = name
    · rw [same, SharedQueues.create_self] at open_
      cases open_
      exact Nat.lt_succ_self _
    · rw [SharedQueues.create_other same] at open_
      exact Nat.lt_succ_of_lt (ok.names other k open_)
  · change spec.place y.queue < (spec.shared w).queues.length
    rw [longer]
    rcases List.mem_append.mp member with before | new
    · exact Nat.lt_succ_of_lt (ok.mapped y before)
    · obtain rfl : y = x := Option.some.inj (List.mem_singleton.mp new)
      exact Nat.lt_succ_of_le (Nat.le_of_eq last)

theorem handle_some {h : Nat} {x : IPCIntQueue δ} : s.handle h = some x ↔ s.handles[h]? = some (some x) := by
  rw [handle, Option.join_eq_some_iff]

theorem Ok.handleQueue (ok : Ok spec s) {h : Nat} {x : IPCIntQueue δ} (there : s.handle h = some x) :
    ∃ q, (spec.shared s.system).queues[spec.place x.queue]? = some q := by
  have mapped := ok.mapped x (List.mem_of_getElem? (handle_some.mp there))
  exact ⟨_, List.getElem?_eq_getElem mapped⟩

/-- A call of a handle leaves the handles and the names as they are. -/
structure Called (spec : Documented boost) (s t : Interprocess ω δ) : Prop where
  ok : Ok spec t
  handles : t.handles = s.handles
  names : (spec.shared t.system).names = (spec.shared s.system).names

theorem trySend_called (ok : Ok spec s) {h : Nat} {x : IPCIntQueue δ} (there : s.handle h = some x)
    (msg : BitVec 32) : Called spec s (s.trySend boost x msg) := by
  obtain ⟨q, at_⟩ := ok.handleQueue there
  obtain ⟨ints, history⟩ := ok.ints _ q at_
  obtain ⟨w, sent, shared⟩ := x.trySend_spec spec at_ ints msg
  have names : (spec.shared w).names = (spec.shared s.system).names := by
    rw [shared]
    split <;> rfl
  unfold trySend
  rw [sent]
  by_cases room : q.messages.length < q.maxNum
  · rw [if_pos room] at shared
    rw [decide_eq_true room]
    refine ⟨ok.onQueue shared rfl (List.getElem?_eq_some_iff.mp at_).1 ⟨ints.insert room msg, ?_⟩
      fun k away => ⟨?_, rfl⟩, rfl, names⟩
    · rw [contents_insert, ← List.append_assoc]
      simp only [sentTo, receivedFrom] at history ⊢
      simp [history]
    · simp [sentTo, away.symm]
  · rw [if_neg room] at shared
    rw [decide_eq_false room]
    exact ⟨ok.less rfl rfl (fun _ => id) (.inl shared), rfl, names⟩

theorem tryReceive_called (ok : Ok spec s) {h : Nat} {x : IPCIntQueue δ} (there : s.handle h = some x)
    (msg : BitVec 32) : Called spec s (s.tryReceive boost x msg) := by
  obtain ⟨q, at_⟩ := ok.handleQueue there
  obtain ⟨ints, history⟩ := ok.ints _ q at_
  obtain ⟨w, received, shared⟩ := x.tryReceive_spec spec at_ ints msg
  have mapped := (List.getElem?_eq_some_iff.mp at_).1
  have names : (spec.shared w).names = (spec.shared s.system).names := by
    rw [shared]
    rfl
  unfold tryReceive
  rw [received]
  cases first : q.messages with
  | nil =>
    have none_ : q.contents = [] := by simp [contents, first]
    rw [none_]
    have left : ({ q with messages := q.messages.tail } : MessageQueue).contents = q.contents := by
      simp [contents, first]
    refine ⟨ok.onQueue shared rfl mapped ⟨ints.tail, ?_⟩ fun _ _ => ⟨rfl, rfl⟩, rfl, names⟩
    rw [left]
    exact history
  | cons m rest =>
    have all : q.contents = ofBytes m.2 :: ({ q with messages := q.messages.tail } : MessageQueue).contents := by
      simp [contents, first]
    rw [all] at history ⊢
    refine ⟨ok.onQueue shared rfl mapped ⟨ints.tail, ?_⟩ fun k away => ⟨rfl, ?_⟩, rfl, names⟩
    · simp only [sentTo, receivedFrom] at history ⊢
      simp [history]
    · simp [receivedFrom, away.symm]

inductive Stepped (boost : MessageQueues ω δ ε) (spec : Documented boost) (s : Interprocess ω δ) :
    Action → Interprocess ω δ → Prop
  | refused {name : String} {child : Bool} {size : Nat} {e : ε} {w : ω}
      (failed : IPCIntQueue.new boost name child size s.system = .error e w) :
      Stepped boost spec s (.construct name child size) { s with system := w }
  | opened {size : Nat} {x : IPCIntQueue δ} {w : ω}
      (open_ : (spec.shared s.system).names x.name = some (spec.place x.queue))
      (shared : spec.shared w = spec.shared s.system) :
      Stepped boost spec s (.construct x.name true size)
        { s with system := w, handles := s.handles ++ [some x] }
  | created {size : Nat} {x : IPCIntQueue δ} {w : ω}
      (made : IPCIntQueue.new boost x.name false size s.system = .ok x w)
      (last : spec.place x.queue = (spec.shared s.system).queues.length)
      (shared : spec.shared w = (spec.shared s.system).create x.name size 4) :
      Stepped boost spec s (.construct x.name false size)
        { s with system := w, handles := s.handles ++ [some x] }
  | called {a : Action} {t : Interprocess ω δ} (call : ∀ name child size, a ≠ .construct name child size)
      (called : Called spec s t) : Stepped boost spec s a t
  | deleted (h : Nat) {name : String} {w : ω} (shared : spec.shared w = spec.shared s.system ∨
        spec.shared w = (spec.shared s.system).unlink name) :
      Stepped boost spec s (.destroy h) { s with system := w, handles := s.handles.set h none }

theorem stepped (ok : Ok spec s) (taken : (machine boost system).next s a = some t) :
    Stepped boost spec s a t := by
  cases a with
  | construct name child size =>
    cases taken
    unfold construct
    split
    · rename_i failed
      exact .refused failed
    · rename_i made
      obtain ⟨rfl, known⟩ := IPCIntQueue.new_ok spec made
      cases child with
      | true => exact .opened known.1 known.2
      | false => exact .created made known.1 known.2
  | trySend h msg =>
    obtain ⟨x, there, rfl⟩ := Option.map_eq_some_iff.mp taken
    exact .called (fun _ _ _ => by simp) (trySend_called ok there msg)
  | tryReceive h msg =>
    obtain ⟨x, there, rfl⟩ := Option.map_eq_some_iff.mp taken
    exact .called (fun _ _ _ => by simp) (tryReceive_called ok there msg)
  | destroy h =>
    obtain ⟨x, _, rfl⟩ := Option.map_eq_some_iff.mp taken
    obtain ⟨w, deleted, shared⟩ := x.delete_spec spec s.system
    unfold destroy
    rw [deleted]
    exact .deleted h shared

theorem some_of_set {h : Nat} {x : IPCIntQueue δ} (member : some x ∈ s.handles.set h none) :
    some x ∈ s.handles := by
  rcases List.mem_or_eq_of_mem_set member with before | gone
  · exact before
  · cases gone

theorem ok_next (ok : Ok spec s) (taken : (machine boost system).next s a = some t) : Ok spec t := by
  cases stepped ok taken with
  | refused failed =>
    exact ok.less rfl rfl (fun _ => id) ((IPCIntQueue.new_error spec failed).imp_right fun gone => ⟨_, gone⟩)
  | opened open_ shared => exact ok.opened open_ shared
  | created made last shared => exact ok.created last shared
  | called _ called => exact called.ok
  | deleted h shared =>
    exact ok.less rfl rfl (fun _ => some_of_set) (shared.imp_right fun gone => ⟨_, gone⟩)

theorem ok (clean : spec.shared system = .empty) (reached : (machine boost system).Reachable s) :
    Ok spec s :=
  reached.invariant (.initial clean) fun _ _ _ kept taken => ok_next kept taken

/-- Whoever sends and receives: what was sent to a queue was received in that order, once, up to
    what is still in the queue; a call of a handle that is there does not throw, it sends unless the
    queue is full and receives unless it is empty. -/
theorem delivered (spec : Documented boost) (clean : spec.shared system = .empty)
    (reached : (machine boost system).Reachable s) {h : Nat} {x : IPCIntQueue δ}
    (there : s.handle h = some x) : ∃ q,
      (spec.shared s.system).queues[spec.place x.queue]? = some q ∧
      s.sentTo spec (spec.place x.queue) = s.receivedFrom spec (spec.place x.queue) ++ q.contents ∧
      q.messages.length ≤ q.maxNum ∧
      (∀ msg, ∃ w, x.trySend boost msg s.system = .ok (decide (q.messages.length < q.maxNum)) w) ∧
      ∀ msg, ∃ n w, x.tryReceive boost msg s.system = .ok (!q.messages.isEmpty, n) w := by
  have ok := ok clean reached
  obtain ⟨q, at_⟩ := ok.handleQueue there
  obtain ⟨ints, history⟩ := ok.ints _ q at_
  refine ⟨q, at_, history, ints.bounded, fun msg => ?_, fun msg => ?_⟩
  · obtain ⟨w, sent, -⟩ := x.trySend_spec spec at_ ints msg
    exact ⟨w, sent⟩
  · obtain ⟨w, received, -⟩ := x.tryReceive_spec spec at_ ints msg
    refine ⟨q.contents.head?.getD msg, w, received.trans ?_⟩
    cases first : q.messages <;> simp [contents, first]

def exchange : List Action :=
  [.construct "q" false 2, .construct "q" true 0, .trySend 0 7, .trySend 1 8, .trySend 0 9,
    .tryReceive 1 0, .trySend 0 10]

theorem delivered_exchange : ∃ s x q,
    (machine SharedQueues.calls .empty).run (machine SharedQueues.calls .empty).initial exchange = some s ∧
    s.handle 1 = some x ∧ s.system.queues[x.queue]? = some q ∧
    s.sentTo SharedQueues.documented x.queue = [7, 8, 10] ∧
    s.receivedFrom SharedQueues.documented x.queue ++ q.contents = [7, 8, 10] := by
  have ran : (machine SharedQueues.calls .empty).run (machine SharedQueues.calls .empty).initial exchange =
    some _ := rfl
  obtain ⟨q, at_, history, -⟩ :=
    delivered SharedQueues.documented rfl ⟨_, ran⟩ (rfl : handle _ 1 = some _)
  exact ⟨_, _, q, ran, rfl, at_, by decide, history.symm.trans (by decide)⟩

/-- Handles of one name are handles of one queue, which is the one that is opened under it. -/
structure Paired (spec : Documented boost) (s : Interprocess ω δ) : Prop where
  shared : ∀ x y, some x ∈ s.handles → some y ∈ s.handles → x.name = y.name →
    spec.place x.queue = spec.place y.queue
  opened : ∀ x, some x ∈ s.handles → ∀ k, (spec.shared s.system).names x.name = some k →
    spec.place x.queue = k

def Sole (boost : MessageQueues ω δ ε) (s : Interprocess ω δ) (a : Action) (_ : Interprocess ω δ) : Prop :=
  ∀ name size x w, a = .construct name false size →
    IPCIntQueue.new boost name false size s.system = .ok x w → ∀ y, some y ∈ s.handles → y.name ≠ name

theorem Paired.of_less (paired : Paired spec s) (handles : ∀ x, some x ∈ t.handles → some x ∈ s.handles)
    (names : ∀ name k, (spec.shared t.system).names name = some k →
      (spec.shared s.system).names name = some k) : Paired spec t where
  shared x y mx my := paired.shared x y (handles x mx) (handles y my)
  opened x member k open_ := paired.opened x (handles x member) k (names _ _ open_)

theorem mem_snoc {l : List (Option (IPCIntQueue δ))} {x y : IPCIntQueue δ} (member : some y ∈ l ++ [some x]) :
    some y ∈ l ∨ y = x :=
  (List.mem_append.mp member).imp_right fun last => Option.some.inj (List.mem_singleton.mp last)

theorem Paired.child (paired : Paired spec s) {x : IPCIntQueue δ} {w : ω}
    (open_ : (spec.shared s.system).names x.name = some (spec.place x.queue))
    (shared : spec.shared w = spec.shared s.system) :
    Paired spec { s with system := w, handles := s.handles ++ [some x] } := by
  have named (y : IPCIntQueue δ) (member : some y ∈ s.handles) (same : y.name = x.name) :
      spec.place y.queue = spec.place x.queue := paired.opened y member _ (same ▸ open_)
  refine ⟨fun y z my mz same => ?_, fun y member k open' => ?_⟩
  · rcases mem_snoc my with old | rfl <;> rcases mem_snoc mz with old' | rfl
    · exact paired.shared y z old old' same
    · exact named y old same
    · exact (named z old' same.symm).symm
    · rfl
  · change (spec.shared w).names y.name = some k at open'
    rw [shared] at open'
    rcases mem_snoc member with member | rfl
    · exact paired.opened y member k open'
    · exact Option.some.inj (open_.symm.trans open')

theorem Paired.parent (ok : Ok spec s) (paired : Paired spec s) {x : IPCIntQueue δ} {w : ω} {size : Nat}
    (last : spec.place x.queue = (spec.shared s.system).queues.length)
    (shared : spec.shared w = (spec.shared s.system).create x.name size 4) :
    Paired spec { s with system := w, handles := s.handles ++ [some x] } ↔
      ∀ y, some y ∈ s.handles → y.name ≠ x.name := by
  constructor
  · intro after y member same
    have both := after.shared y x (List.mem_append_left _ member)
      (List.mem_append_right _ (List.mem_singleton_self _)) same
    exact absurd (both.trans last) (Nat.ne_of_lt (ok.mapped y member))
  · intro sole
    refine ⟨fun y z my mz same => ?_, fun y member k open_ => ?_⟩
    · rcases mem_snoc my with old | rfl <;> rcases mem_snoc mz with old' | rfl
      · exact paired.shared y z old old' same
      · exact absurd same (sole y old)
      · exact absurd same.symm (sole z old')
      · rfl
    · change (spec.shared w).names y.name = some k at open_
      rw [shared] at open_
      rcases mem_snoc member with member | rfl
      · rw [SharedQueues.create_other (sole y member)] at open_
        exact paired.opened y member k open_
      · rw [SharedQueues.create_self] at open_
        exact last.trans (Option.some.inj open_)

theorem paired_next (ok : Ok spec s) (paired : Paired spec s)
    (taken : (machine boost system).next s a = some t) : Paired spec t ↔ Sole boost s a t := by
  have unlinked {g g' : SharedQueues} {name : String} (left : g' = g ∨ g' = g.unlink name) (other : String)
      (k : Nat) (open_ : g'.names other = some k) : g.names other = some k := by
    rcases left with rfl | rfl
    · exact open_
    · exact SharedQueues.unlink_names open_
  cases stepped ok taken with
  | refused failed =>
    refine iff_of_true (paired.of_less (fun _ => id) (unlinked (IPCIntQueue.new_error spec failed))) ?_
    rintro name size x w ⟨⟩ made
    rw [failed] at made
    cases made
  | opened open_ shared =>
    refine iff_of_true (paired.child open_ shared) ?_
    rintro name size x w ⟨⟩
  | created made last shared =>
    rw [paired.parent ok last shared]
    constructor
    · rintro sole name size x w ⟨⟩ _
      exact sole
    · exact fun sole => sole _ _ _ _ rfl made
  | called call called =>
    refine iff_of_true (paired.of_less (fun _ member => called.handles ▸ member) fun _ _ open_ =>
      called.names ▸ open_) ?_
    rintro name size x w rfl
    exact absurd rfl (call name false size)
  | deleted h shared =>
    refine iff_of_true (paired.of_less (fun _ => some_of_set) (unlinked shared)) ?_
    rintro name size x w ⟨⟩

/-- In a run handles of one name never talk past each other, if and only if every parent is made
    when no handle of its name is left. -/
theorem paired_iff (spec : Documented boost) (clean : spec.shared system = .empty) (as : List Action) :
    (machine boost system).Visits (Paired spec) (machine boost system).initial as ↔
      (machine boost system).Always (Sole boost) (machine boost system).initial as :=
  Machine.visits_iff_always (fun _ _ _ kept taken => ok_next kept taken)
    (fun _ _ _ kept paired taken => paired_next kept paired taken) (.initial clean)
    ⟨fun _ _ member _ => (by cases member), fun _ member => (by cases member)⟩ as

/-- A second parent takes the name from the first. -/
theorem paired_iff_parents :
    ¬ (machine SharedQueues.calls .empty).Visits (Paired SharedQueues.documented)
      (machine SharedQueues.calls .empty).initial [.construct "q" false 2, .construct "q" false 2] := by
  intro visited
  have sole := (paired_iff SharedQueues.documented rfl _).mp visited
  exact ((sole _ rfl).2 _ rfl).1 "q" 2 _ _ rfl rfl _ List.mem_cons_self rfl

end Interprocess

end Documented

end BoostBase
