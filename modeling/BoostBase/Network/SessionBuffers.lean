import BoostBase.Memory.Blocks
import BoostBase.Network.ProxyStream

namespace BoostBase

open Memory Transition

/-- A `std::vector<uint8_t>`: the block it owns, which may be longer than its size. -/
structure TBuffer where
  block : Nat
  size : Nat

inductive SessionOpSide
  | reader
  | writer
  deriving DecidableEq

/-- The `m_buffer` of the reader or the writer of a session. -/
structure BufferRef where
  session : Nat
  side : SessionOpSide
  deriving DecidableEq

inductive BufferOpKind
  | readSome
  | readAll
  | writeAll
  deriving DecidableEq

/-- An operation under way: the memory it was given, which was that of `buffer`, how much of it is
    done and the bytes that have gone through it. `given` is what the memory of a write held when it
    was given. -/
structure BufferOp where
  kind : BufferOpKind
  buffer : BufferRef
  block : Nat
  size : Nat
  done : Nat
  given : List UInt8
  moved : List UInt8

/-- How far a vector grows that has no room for a new size. -/
structure Growth where
  capacity : Nat → Nat → Nat
  enough : ∀ size n, n ≤ capacity size n

/-- The readers and writers of all sessions and what the sockets still do with their memory. -/
structure SessionBuffers where
  memory : Blocks UInt8
  buffer : BufferRef → Option TBuffer
  ops : List BufferOp
  ended : List BufferOp

namespace SessionBuffers

def new : SessionBuffers := ⟨.empty, fun _ => none, [], []⟩

def content (s : SessionBuffers) (v : TBuffer) : List UInt8 := (s.memory.content v.block).getD []

def release (s : SessionBuffers) (b : BufferRef) : SessionBuffers :=
  match s.buffer b with
  | none => s
  | some v => { s with memory := s.memory.free v.block, buffer := Function.update s.buffer b none }

/-- A buffer without memory gets a block. -/
def acquire (s : SessionBuffers) (b : BufferRef) (bytes : List UInt8) (size : Nat) : SessionBuffers :=
  { s with
    memory := s.memory.alloc bytes
    buffer := Function.update s.buffer b (some ⟨s.memory.next, size⟩) }

def sessionOpBase (s : SessionBuffers) (b : BufferRef) : SessionBuffers :=
  s.acquire b (List.replicate defaultBufferSize 0) defaultBufferSize

/-- `m_buffer.resize(n)`: in place as far as the block goes, new elements being zero. -/
def setBufferSize (growth : Growth) (s : SessionBuffers) (b : BufferRef) (n : Nat) :
    Option SessionBuffers :=
  (s.buffer b).map fun v =>
    let bytes := s.content v
    if n ≤ bytes.length then
      { s with
        memory := s.memory.store v.block (overwrite bytes v.size (List.replicate (n - v.size) 0))
        buffer := Function.update s.buffer b (some ⟨v.block, n⟩) }
    else
      (s.release b).acquire b
        (overwrite (List.replicate (growth.capacity v.size n) 0) 0 (bytes.take v.size)) n

/-- An operation on a socket gets the first `size` bytes of a buffer. -/
def initiate (s : SessionBuffers) (kind : BufferOpKind) (b : BufferRef) (v : TBuffer) (size : Nat) :
    SessionBuffers :=
  { s with ops := s.ops ++ [⟨kind, b, v.block, size, 0, (s.content v).take size, []⟩] }

def read (s : SessionBuffers) (kind : BufferOpKind) (x : Nat) (maxSize : Nat) : Option SessionBuffers :=
  (s.buffer ⟨x, .reader⟩).map fun v => s.initiate kind ⟨x, .reader⟩ v (min maxSize v.size)

def readerSome (s : SessionBuffers) (x maxSize : Nat) : Option SessionBuffers := s.read .readSome x maxSize

def readerAll (s : SessionBuffers) (x maxSize : Nat) : Option SessionBuffers := s.read .readAll x maxSize

/-- `SessionWriter::all(Container&&)`: the buffer takes over the memory of the container. -/
def writerAll (s : SessionBuffers) (x : Nat) (c : List UInt8) : Option SessionBuffers :=
  (s.buffer ⟨x, .writer⟩).map fun _ =>
    let moved := (s.release ⟨x, .writer⟩).acquire ⟨x, .writer⟩ c c.length
    moved.initiate .writeAll ⟨x, .writer⟩ ⟨s.memory.next, c.length⟩ c.length

/-- `SessionWriter::all(ptr, n)` with the `ptr` of a reader or a writer, be it another session's. -/
def writerAllOf (s : SessionBuffers) (x : Nat) (b : BufferRef) (n : Nat) : Option SessionBuffers :=
  (s.buffer ⟨x, .writer⟩).bind fun _ => (s.buffer b).map fun v => s.initiate .writeAll b v n

/-- What an operation finds in its memory, if that is there; otherwise anything may happen, and the
    run is not followed any further. -/
def found (s : SessionBuffers) (op : BufferOp) : Option (List UInt8) :=
  (s.memory.content op.block).filter fun bytes => op.size ≤ bytes.length

/-- The socket puts bytes into the memory of a read; `async_read_some` does so once. -/
def receive (s : SessionBuffers) (i : Nat) (bytes : List UInt8) : Option SessionBuffers :=
  (s.ops[i]?).bind fun op =>
    (s.found op).bind fun content =>
      if op.kind ≠ .writeAll ∧ op.done + bytes.length ≤ op.size ∧ (op.kind = .readSome → op.done = 0) then
        some { s with
          memory := s.memory.store op.block (overwrite content op.done bytes)
          ops := s.ops.set i { op with done := op.done + bytes.length, moved := op.moved ++ bytes } }
      else none

def transmit (s : SessionBuffers) (i n : Nat) : Option SessionBuffers :=
  (s.ops[i]?).bind fun op =>
    (s.found op).bind fun content =>
      if op.kind = .writeAll ∧ op.done + n ≤ op.size then
        some { s with
          ops := s.ops.set i
            { op with done := op.done + n, moved := op.moved ++ (content.drop op.done).take n } }
      else none

def finish (s : SessionBuffers) (i : Nat) : Option SessionBuffers :=
  (s.ops[i]?).map fun op => { s with ops := s.ops.eraseIdx i, ended := s.ended ++ [op] }

inductive Action
  | construct (x : Nat)
  | destroy (x : Nat)
  | setBufferSize (b : BufferRef) (n : Nat)
  | readerSome (x maxSize : Nat)
  | readerAll (x maxSize : Nat)
  | writerAll (x : Nat) (c : List UInt8)
  | writerAllOf (x : Nat) (b : BufferRef) (n : Nat)
  | receive (i : Nat) (bytes : List UInt8)
  | transmit (i n : Nat)
  | finish (i : Nat)

def machine (growth : Growth) : Machine SessionBuffers Action where
  initial := new
  next s
    | .construct x =>
      if s.buffer ⟨x, .reader⟩ = none ∧ s.buffer ⟨x, .writer⟩ = none then
        some ((s.sessionOpBase ⟨x, .reader⟩).sessionOpBase ⟨x, .writer⟩)
      else none
    | .destroy x => some ((s.release ⟨x, .writer⟩).release ⟨x, .reader⟩)
    | .setBufferSize b n => s.setBufferSize growth b n
    | .readerSome x maxSize => s.readerSome x maxSize
    | .readerAll x maxSize => s.readerAll x maxSize
    | .writerAll x c => s.writerAll x c
    | .writerAllOf x b n => s.writerAllOf x b n
    | .receive i bytes => s.receive i bytes
    | .transmit i n => s.transmit i n
    | .finish i => s.finish i

def Backed (s : SessionBuffers) (op : BufferOp) : Prop :=
  ∃ bytes, s.memory.content op.block = some bytes ∧ op.size ≤ bytes.length

def Safe (s : SessionBuffers) : Prop := ∀ op ∈ s.ops, s.Backed op

def Unused (s : SessionBuffers) (b : BufferRef) : Prop := ∀ op ∈ s.ops, op.buffer ≠ b

/-- A buffer is destroyed, replaced or moved only when no operation has its memory, and a write is
    given no more than there is. -/
def Careful (s : SessionBuffers) : Action → SessionBuffers → Prop
  | .destroy x, _ => s.Unused ⟨x, .reader⟩ ∧ s.Unused ⟨x, .writer⟩
  | .setBufferSize b n, _ => (∀ v, s.buffer b = some v → n ≤ (s.content v).length) ∨ s.Unused b
  | .writerAll x _, _ => s.Unused ⟨x, .writer⟩
  | .writerAllOf _ b n, _ => ∀ v, s.buffer b = some v → n ≤ (s.content v).length
  | _, _ => True

/-- What every step keeps: a buffer owns a block of its own that its size fits, and a block that is
    there and was given to an operation is still that of the buffer. -/
structure Ok (s : SessionBuffers) : Prop where
  owned : ∀ b v, s.buffer b = some v → ∃ bytes, s.memory.content v.block = some bytes ∧ v.size ≤ bytes.length
  apart : ∀ b c v w, s.buffer b = some v → s.buffer c = some w → v.block = w.block → b = c
  made : ∀ op ∈ s.ops, op.block < s.memory.next
  lent : ∀ op ∈ s.ops, ∀ bytes, s.memory.content op.block = some bytes →
    ∃ v, s.buffer op.buffer = some v ∧ v.block = op.block

variable {growth : Growth} {s t : SessionBuffers} {b : BufferRef} {v : TBuffer}

theorem update_some {c : BufferRef} {w : TBuffer}
    (has : Function.update s.buffer b (some v) c = some w) :
    (c = b ∧ w = v) ∨ (c ≠ b ∧ s.buffer c = some w) := by
  by_cases same : c = b
  · rw [same, Function.update_self] at has
    exact .inl ⟨same, (Option.some.inj has).symm⟩
  · rw [Function.update_of_ne same] at has
    exact .inr ⟨same, has⟩

theorem Ok.initial : Ok (machine growth).initial := by
  constructor <;> simp [machine, new]

theorem release_none (gone : s.buffer b = none) : s.release b = s := by rw [release, gone]

theorem release_some (there : s.buffer b = some v) : s.release b =
    { s with memory := s.memory.free v.block, buffer := Function.update s.buffer b none } := by
  rw [release, there]

@[simp] theorem release_ops (s : SessionBuffers) (b : BufferRef) : (s.release b).ops = s.ops := by
  unfold release
  split <;> rfl

@[simp] theorem release_next (s : SessionBuffers) (b : BufferRef) :
    (s.release b).memory.next = s.memory.next := by
  unfold release
  split <;> rfl

@[simp] theorem release_self (s : SessionBuffers) (b : BufferRef) : (s.release b).buffer b = none := by
  unfold release
  split
  · assumption
  · exact Function.update_self ..

theorem release_ok (ok : Ok s) (b : BufferRef) : Ok (s.release b) := by
  cases there : s.buffer b with
  | none => rwa [release_none there]
  | some v =>
    have kept {c : BufferRef} {w : TBuffer} (has : Function.update s.buffer b none c = some w) :
        c ≠ b ∧ s.buffer c = some w := by
      by_cases same : c = b
      · rw [same, Function.update_self] at has
        cases has
      · rw [Function.update_of_ne same] at has
        exact ⟨same, has⟩
    rw [release_some there]
    refine ⟨fun c w has => ?_, fun c d w u left right => ?_, ok.made, fun op member bytes content => ?_⟩
    · obtain ⟨other, has⟩ := kept has
      obtain ⟨bytes, content, fits⟩ := ok.owned c w has
      refine ⟨bytes, ?_, fits⟩
      rwa [Blocks.free_other fun same => other (ok.apart c b w v has there same)]
    · exact ok.apart c d w u (kept left).2 (kept right).2
    · by_cases freed : op.block = v.block
      · rw [freed, Blocks.free_self] at content
        cases content
      · rw [Blocks.free_other freed] at content
        obtain ⟨w, has, block⟩ := ok.lent op member bytes content
        refine ⟨w, (Function.update_of_ne (fun same => ?_) _ _).trans has, block⟩
        rw [same, there] at has
        exact freed (Option.some.inj has ▸ block.symm)

theorem release_safe (ok : Ok s) (safe : Safe s) : Safe (s.release b) ↔ s.Unused b := by
  cases there : s.buffer b with
  | none =>
    rw [release_none there]
    refine iff_of_true safe fun op member same => ?_
    obtain ⟨bytes, content, -⟩ := safe op member
    obtain ⟨v, has, -⟩ := ok.lent op member bytes content
    rw [same, there] at has
    cases has
  | some v =>
    rw [release_some there]
    constructor
    · intro after op member same
      obtain ⟨bytes, content, -⟩ := safe op member
      obtain ⟨w, has, block⟩ := ok.lent op member bytes content
      obtain rfl : v = w := by
        rw [same, there] at has
        exact Option.some.inj has
      obtain ⟨bytes', content', -⟩ := after op member
      rw [← block, Blocks.free_self] at content'
      cases content'
    · intro unused op member
      obtain ⟨bytes, content, fits⟩ := safe op member
      refine ⟨bytes, ?_, fits⟩
      rw [Blocks.free_other]
      · exact content
      · intro freed
        obtain ⟨w, has, block⟩ := ok.lent op member bytes content
        exact unused op member (ok.apart _ b w v has there (block.trans freed))

theorem safe_of_release (safe : Safe (s.release b)) : Safe s := by
  cases there : s.buffer b with
  | none => rwa [release_none there] at safe
  | some v =>
    rw [release_some there] at safe
    intro op member
    obtain ⟨bytes, content, fits⟩ := safe op member
    refine ⟨bytes, ?_, fits⟩
    by_cases freed : op.block = v.block
    · rw [freed, Blocks.free_self] at content
      cases content
    · rwa [Blocks.free_other freed] at content

theorem acquire_ok (ok : Ok s) (gone : s.buffer b = none) {bytes : List UInt8} {size : Nat}
    (fits : size ≤ bytes.length) : Ok (s.acquire b bytes size) := by
  have old {c : BufferRef} {w : TBuffer} (has : s.buffer c = some w) : w.block < s.memory.next := by
    obtain ⟨bytes, content, -⟩ := ok.owned c w has
    exact Blocks.lt_next content
  refine ⟨fun c w has => ?_, fun c d w u left right same => ?_, fun op member => ?_, fun op member bytes' content => ?_⟩
  · rcases update_some has with ⟨rfl, rfl⟩ | ⟨-, has⟩
    · exact ⟨bytes, Blocks.alloc_self, fits⟩
    · obtain ⟨bytes', content, fits'⟩ := ok.owned c w has
      exact ⟨bytes', (Blocks.alloc_old (old has)).trans content, fits'⟩
  · rcases update_some left with ⟨rfl, rfl⟩ | ⟨-, left⟩
    · rcases update_some right with ⟨rfl, -⟩ | ⟨-, right⟩
      · rfl
      · exact absurd same (Nat.ne_of_gt (old right))
    · rcases update_some right with ⟨-, rfl⟩ | ⟨-, right⟩
      · exact absurd same (Nat.ne_of_lt (old left))
      · exact ok.apart c d w u left right same
  · exact Nat.lt_succ_of_lt (ok.made op member)
  · rw [acquire, Blocks.alloc_old (ok.made op member)] at content
    obtain ⟨w, has, block⟩ := ok.lent op member bytes' content
    refine ⟨w, (Function.update_of_ne (fun same => ?_) _ _).trans has, block⟩
    rw [same, gone] at has
    cases has

theorem acquire_safe (ok : Ok s) {bytes : List UInt8} {size : Nat} :
    Safe (s.acquire b bytes size) ↔ Safe s := by
  refine forall_congr' fun op => forall_congr' fun member => ?_
  rw [Backed, Backed, acquire, Blocks.alloc_old (ok.made op member)]

theorem Ok.of_shaped (ok : Ok s) (shaped : Blocks.Shaped s.memory t.memory)
    (owners : ∀ c, (t.buffer c).map TBuffer.block = (s.buffer c).map TBuffer.block)
    (sizes : ∀ c v bytes, t.buffer c = some v → t.memory.content v.block = some bytes → v.size ≤ bytes.length)
    (ops : ∀ op ∈ t.ops, ∃ op' ∈ s.ops, op'.block = op.block ∧ op'.buffer = op.buffer) : Ok t := by
  have owner {c : BufferRef} {v : TBuffer} (has : t.buffer c = some v) :
      ∃ w, s.buffer c = some w ∧ w.block = v.block := by
    have same := owners c
    rw [has, Option.map_some] at same
    exact Option.map_eq_some_iff.mp same.symm
  refine ⟨fun c v has => ?_, fun c d v w left right same => ?_, fun op member => ?_, fun op member bytes content => ?_⟩
  · obtain ⟨w, has', block⟩ := owner has
    obtain ⟨bytes, content, -⟩ := ok.owned c w has'
    obtain ⟨bytes', content', -⟩ := shaped.some (block ▸ content)
    exact ⟨bytes', content', sizes c v bytes' has content'⟩
  · obtain ⟨v', left', block⟩ := owner left
    obtain ⟨w', right', block'⟩ := owner right
    exact ok.apart c d v' w' left' right' (by rw [block, block', same])
  · obtain ⟨op', member', block, -⟩ := ops op member
    rw [shaped.next, ← block]
    exact ok.made op' member'
  · obtain ⟨op', member', block, buffer⟩ := ops op member
    obtain ⟨bytes', content', -⟩ := shaped.symm.some content
    obtain ⟨w, has, same⟩ := ok.lent op' member' bytes' (block ▸ content')
    have there := owners op'.buffer
    rw [has, Option.map_some] at there
    obtain ⟨v, has', block'⟩ := Option.map_eq_some_iff.mp there
    exact ⟨v, buffer ▸ has', by rw [block', same, block]⟩

theorem Backed.of_shaped (shaped : Blocks.Shaped s.memory t.memory) {op op' : BufferOp}
    (block : op'.block = op.block) (size : op'.size = op.size) (backed : s.Backed op) : t.Backed op' := by
  obtain ⟨bytes, content, fits⟩ := backed
  obtain ⟨bytes', content', same⟩ := shaped.some content
  exact ⟨bytes', block ▸ content', by omega⟩

theorem content_some (ok : Ok s) (has : s.buffer b = some v) :
    s.memory.content v.block = some (s.content v) ∧ v.size ≤ (s.content v).length := by
  obtain ⟨bytes, content, fits⟩ := ok.owned b v has
  rw [SessionBuffers.content, content]
  exact ⟨rfl, fits⟩

theorem initiate_ok (ok : Ok s) (has : s.buffer b = some v) (kind : BufferOpKind) (size : Nat) :
    Ok (s.initiate kind b v size) := by
  refine ⟨ok.owned, ok.apart, fun op member => ?_, fun op member bytes content => ?_⟩
  · rcases List.mem_append.mp member with old | new
    · exact ok.made op old
    · rw [List.mem_singleton.mp new]
      exact Blocks.lt_next (content_some ok has).1
  · rcases List.mem_append.mp member with old | new
    · exact ok.lent op old bytes content
    · rw [List.mem_singleton.mp new]
      exact ⟨v, has, rfl⟩

theorem initiate_safe (ok : Ok s) (has : s.buffer b = some v) (kind : BufferOpKind) (size : Nat) :
    Safe (s.initiate kind b v size) ↔ Safe s ∧ size ≤ (s.content v).length := by
  obtain ⟨content, -⟩ := content_some ok has
  simp only [Safe, initiate, List.forall_mem_append, List.forall_mem_singleton]
  refine and_congr_right fun _ => ⟨fun ⟨bytes, content', fits⟩ => ?_, fun fits => ⟨_, content, fits⟩⟩
  rw [Option.some.inj (content.symm.trans content')]
  exact fits

theorem read_next (ok : Ok s) {kind : BufferOpKind} {x maxSize : Nat}
    (taken : s.read kind x maxSize = some t) : Ok t ∧ (Safe s → Safe t) := by
  obtain ⟨v, has, rfl⟩ := Option.map_eq_some_iff.mp taken
  refine ⟨initiate_ok ok has kind _, fun safe => (initiate_safe ok has kind _).mpr ⟨safe, ?_⟩⟩
  exact (Nat.min_le_right maxSize v.size).trans (content_some ok has).2

theorem setBufferSize_next (ok : Ok s) {n : Nat} (taken : s.setBufferSize growth b n = some t) :
    Ok t ∧ (Safe s → (Safe t ↔ (∀ v, s.buffer b = some v → n ≤ (s.content v).length) ∨ s.Unused b)) := by
  obtain ⟨v, has, grown⟩ := Option.map_eq_some_iff.mp taken
  obtain ⟨content, fits⟩ := content_some ok has
  dsimp only at grown
  split at grown
  · rename_i room
    subst grown
    have length : (overwrite (s.content v) v.size (List.replicate (n - v.size) 0)).length =
        (s.content v).length := overwrite_length (by rw [List.length_replicate]; omega)
    have shaped := Blocks.Shaped.of_store content length
    refine ⟨ok.of_shaped shaped (fun c => ?_) (fun c w bytes owns there => ?_) fun op member => ⟨op, member, rfl, rfl⟩,
      fun safe => iff_of_true (fun op member => Backed.of_shaped shaped rfl rfl (safe op member)) (.inl fun w has' => ?_)⟩
    · show (Function.update s.buffer b _ c).map TBuffer.block = _
      by_cases same : c = b
      · rw [same, Function.update_self, has]
        rfl
      · rw [Function.update_of_ne same]
    · rcases update_some owns with ⟨rfl, rfl⟩ | ⟨-, owns⟩
      · rw [Blocks.store_self content] at there
        rw [← Option.some.inj there, length]
        exact room
      · obtain ⟨bytes', there', fits'⟩ := ok.owned c w owns
        obtain ⟨bytes'', there'', same⟩ := shaped.some there'
        rw [there] at there''
        rw [Option.some.inj there'', same]
        exact fits'
    · rw [has] at has'
      rw [← Option.some.inj has']
      exact room
  · rename_i full
    subst grown
    have whole : n ≤ (overwrite (List.replicate (growth.capacity v.size n) (0 : UInt8)) 0
        ((s.content v).take v.size)).length := by
      have enough := growth.enough v.size n
      rw [overwrite_length] <;> rw [List.length_replicate]
      · exact enough
      · rw [List.length_take]
        omega
    refine ⟨acquire_ok (release_ok ok b) (release_self s b) whole, fun safe => ?_⟩
    rw [acquire_safe (release_ok ok b), release_safe ok safe]
    exact ⟨.inr, fun careful => careful.resolve_left fun fit => full (fit v has)⟩

theorem writerAll_next (ok : Ok s) {x : Nat} {c : List UInt8} (taken : s.writerAll x c = some t) :
    Ok t ∧ (Safe s → (Safe t ↔ s.Unused ⟨x, .writer⟩)) := by
  obtain ⟨v, -, rfl⟩ := Option.map_eq_some_iff.mp taken
  have moved := acquire_ok (release_ok ok ⟨x, .writer⟩) (release_self s _) (Nat.le_refl c.length)
  have has : ((s.release ⟨x, .writer⟩).acquire ⟨x, .writer⟩ c c.length).buffer ⟨x, .writer⟩ =
      some ⟨s.memory.next, c.length⟩ := by
    rw [← release_next s ⟨x, .writer⟩]
    exact Function.update_self ..
  refine ⟨initiate_ok moved has _ _, fun safe => ?_⟩
  rw [initiate_safe moved has, acquire_safe (release_ok ok _), release_safe ok safe]
  exact and_iff_left (content_some moved has).2

theorem writerAllOf_next (ok : Ok s) {x n : Nat} (taken : s.writerAllOf x b n = some t) :
    Ok t ∧ (Safe s → (Safe t ↔ ∀ v, s.buffer b = some v → n ≤ (s.content v).length)) := by
  obtain ⟨-, -, taken⟩ := Option.bind_eq_some_iff.mp taken
  obtain ⟨v, has, rfl⟩ := Option.map_eq_some_iff.mp taken
  refine ⟨initiate_ok ok has _ _, fun safe => ?_⟩
  rw [initiate_safe ok has]
  refine ⟨fun ⟨_, fits⟩ w has' => ?_, fun fits => ⟨safe, fits v has⟩⟩
  rw [has] at has'
  exact Option.some.inj has' ▸ fits

theorem progress_next (ok : Ok s) {i : Nat} {op op' : BufferOp} {m : Blocks UInt8} (here : s.ops[i]? = some op)
    (shaped : Blocks.Shaped s.memory m) (same : op'.block = op.block ∧ op'.buffer = op.buffer ∧ op'.size = op.size) :
    Ok { s with memory := m, ops := s.ops.set i op' } ∧
      (Safe s → Safe { s with memory := m, ops := s.ops.set i op' }) := by
  have member := List.mem_of_getElem? here
  refine ⟨ok.of_shaped shaped (fun _ => rfl) (fun c v bytes has there => ?_) (fun p inside => ?_), fun safe p inside => ?_⟩
  · obtain ⟨bytes', content, fits⟩ := ok.owned c v has
    obtain ⟨bytes'', content', length⟩ := shaped.some content
    rw [there] at content'
    rw [Option.some.inj content', length]
    exact fits
  · rcases List.mem_or_eq_of_mem_set inside with old | rfl
    · exact ⟨p, old, rfl, rfl⟩
    · exact ⟨op, member, same.1.symm, same.2.1.symm⟩
  · rcases List.mem_or_eq_of_mem_set inside with old | rfl
    · exact Backed.of_shaped shaped rfl rfl (safe p old)
    · exact Backed.of_shaped shaped same.1 same.2.2 (safe op member)

theorem found_some {op : BufferOp} {content : List UInt8} (there : s.found op = some content) :
    s.memory.content op.block = some content ∧ op.size ≤ content.length := by
  obtain ⟨there, fits⟩ := Option.filter_eq_some_iff.mp there
  exact ⟨there, of_decide_eq_true fits⟩

theorem receive_of {i : Nat} {op : BufferOp} {bytes content : List UInt8} (here : s.ops[i]? = some op)
    (there : s.memory.content op.block = some content) (fits : op.size ≤ content.length)
    (enabled : op.kind ≠ .writeAll ∧ op.done + bytes.length ≤ op.size ∧ (op.kind = .readSome → op.done = 0)) :
    s.receive i bytes = some { s with
      memory := s.memory.store op.block (overwrite content op.done bytes)
      ops := s.ops.set i { op with done := op.done + bytes.length, moved := op.moved ++ bytes } } := by
  have holds : s.found op = some content := by
    rw [found, there, Option.filter_some, if_pos (by simpa using fits)]
  rw [receive, here, Option.bind_some, holds, Option.bind_some, if_pos enabled]

theorem receive_next (ok : Ok s) {i : Nat} {bytes : List UInt8} (taken : s.receive i bytes = some t) :
    Ok t ∧ (Safe s → Safe t) := by
  obtain ⟨op, here, taken⟩ := Option.bind_eq_some_iff.mp taken
  obtain ⟨content, there, taken⟩ := Option.bind_eq_some_iff.mp taken
  obtain ⟨there, fits⟩ := found_some there
  split at taken
  · rename_i enabled
    cases taken
    have length : (overwrite content op.done bytes).length = content.length := overwrite_length (by omega)
    exact progress_next ok here (Blocks.Shaped.of_store there length) ⟨rfl, rfl, rfl⟩
  · cases taken

theorem transmit_next (ok : Ok s) {i n : Nat} (taken : s.transmit i n = some t) :
    Ok t ∧ (Safe s → Safe t) := by
  obtain ⟨op, here, taken⟩ := Option.bind_eq_some_iff.mp taken
  obtain ⟨content, -, taken⟩ := Option.bind_eq_some_iff.mp taken
  split at taken
  · cases taken
    exact progress_next ok here (Blocks.Shaped.refl s.memory) ⟨rfl, rfl, rfl⟩
  · cases taken

theorem finish_next (ok : Ok s) {i : Nat} (taken : s.finish i = some t) : Ok t ∧ (Safe s → Safe t) := by
  obtain ⟨op, -, rfl⟩ := Option.map_eq_some_iff.mp taken
  have left {p : BufferOp} (member : p ∈ s.ops.eraseIdx i) : p ∈ s.ops := List.mem_of_mem_eraseIdx member
  exact ⟨⟨ok.owned, ok.apart, fun p member => ok.made p (left member), fun p member => ok.lent p (left member)⟩,
    fun safe p member => safe p (left member)⟩

theorem buffers_next (ok : Ok s) {a : Action} (taken : (machine growth).next s a = some t) :
    Ok t ∧ (Safe s → (Safe t ↔ Careful s a t)) := by
  cases a with
  | construct x =>
    simp only [machine] at taken
    split at taken
    · rename_i gone
      cases taken
      have size : defaultBufferSize ≤ (List.replicate defaultBufferSize (0 : UInt8)).length := by
        rw [List.length_replicate]
      have first : Ok (s.sessionOpBase ⟨x, .reader⟩) := acquire_ok ok gone.1 size
      have still : (s.sessionOpBase ⟨x, .reader⟩).buffer ⟨x, .writer⟩ = none :=
        (Function.update_of_ne (by simp) _ _).trans gone.2
      refine ⟨acquire_ok first still size, fun safe => iff_of_true ?_ trivial⟩
      exact (acquire_safe first).mpr ((acquire_safe ok).mpr safe)
    · cases taken
  | destroy x =>
    cases taken
    have first := release_ok ok ⟨x, .writer⟩
    refine ⟨release_ok first _, fun safe => ?_⟩
    have same : (s.release ⟨x, .writer⟩).Unused ⟨x, .reader⟩ ↔ s.Unused ⟨x, .reader⟩ := by
      rw [Unused, release_ops, Unused]
    constructor
    · intro after
      have between := safe_of_release after
      exact ⟨same.mp ((release_safe first between).mp after), (release_safe ok safe).mp between⟩
    · rintro ⟨reader, writer⟩
      exact (release_safe first ((release_safe ok safe).mpr writer)).mpr (same.mpr reader)
  | setBufferSize b n => exact setBufferSize_next ok taken
  | readerSome x maxSize | readerAll x maxSize =>
    obtain ⟨kept, safe⟩ := read_next ok taken
    exact ⟨kept, fun before => iff_of_true (safe before) trivial⟩
  | writerAll x c => exact writerAll_next ok taken
  | writerAllOf x b n => exact writerAllOf_next ok taken
  | receive i bytes =>
    obtain ⟨kept, safe⟩ := receive_next ok taken
    exact ⟨kept, fun before => iff_of_true (safe before) trivial⟩
  | transmit i n =>
    obtain ⟨kept, safe⟩ := transmit_next ok taken
    exact ⟨kept, fun before => iff_of_true (safe before) trivial⟩
  | finish i =>
    obtain ⟨kept, safe⟩ := finish_next ok taken
    exact ⟨kept, fun before => iff_of_true (safe before) trivial⟩

/-- In a run the sockets never touch memory that is not there any more, if and only if no buffer is
    replaced, moved or destroyed while an operation has its memory and no write is given more than
    there is. -/
theorem safe_iff_careful (growth : Growth) (as : List Action) :
    (machine growth).Visits Safe (machine growth).initial as ↔
      (machine growth).Always Careful (machine growth).initial as :=
  Machine.visits_iff_always (fun _ _ _ ok taken => (buffers_next ok taken).1)
    (fun _ _ _ ok safe taken => (buffers_next ok taken).2 safe) .initial (fun _ member => by cases member) as

end SessionBuffers

end BoostBase
