import BoostBase.Network.SessionBuffers

namespace BoostBase

open Asio Memory Transition LastOut

/-- Two linked sessions with the memory of their readers and writers. -/
structure ProxyMemory where
  stream : ProxyStream
  buffers : SessionBuffers

namespace ProxyMemory

open ProxyStream (reading writing headOp issued)
open SessionBuffers (Safe)

def number : Side → Nat
  | .a => 0
  | .b => 1

def reader (x : Side) : BufferRef := ⟨number x, .reader⟩

def writer (x : Side) : BufferRef := ⟨number x, .writer⟩

/-- Where the operation stands that the loop of a session has under way. -/
def place (s : SessionBuffers) (x : Side) : Nat := s.ops.findIdx fun op => op.buffer = reader x

/-- What a step of the sessions and their sockets does to memory: `work` calls `reader().some()` of
    its own session and `writer().all(reader().ptr(), size)` of the other one. -/
def calls (p : ProxyMemory) : ProxyStream.Action → List SessionBuffers.Action
  | .run x =>
    match headOp p.stream.pair x with
    | some .read => [.readerSome (number x) defaultBufferSize]
    | some .write => [.writerAllOf (number x.other) (reader x) (p.stream.flow x).size]
    | none => []
  | .readDone x bytes => [.receive (place p.buffers x) bytes, .finish (place p.buffers x)]
  | .progress x n => [.transmit (place p.buffers x) n]
  | .readFailed x _ | .writeDone x | .writeFailed x _ => [.finish (place p.buffers x)]
  | .start _ | .stop _ | .emit _ | .release _ | .prepared _ _ => []

def zeros (_ : Side) : List UInt8 := List.replicate defaultBufferSize 0

def constructed : SessionBuffers :=
  (((SessionBuffers.new.sessionOpBase (reader .a)).sessionOpBase (writer .a)).sessionOpBase
    (reader .b)).sessionOpBase (writer .b)

inductive Action
  | step (a : ProxyStream.Action)
  | destroy (x : Side)

/-- A session may be destroyed as soon as nobody owns it. -/
def machine (growth : Growth) : Machine ProxyMemory Action where
  initial := ⟨(ProxyStream.machine zeros).initial, constructed⟩
  next p
    | .step a =>
      ((ProxyStream.machine zeros).next p.stream a).bind fun stream =>
        ((SessionBuffers.machine growth).run p.buffers (p.calls a)).map fun buffers => ⟨stream, buffers⟩
    | .destroy x =>
      if p.stream.pair.alive x then none
      else ((SessionBuffers.machine growth).next p.buffers (.destroy (number x))).map fun buffers =>
        { p with buffers := buffers }

/-- The operations on the memory of a reader, those that have ended first. -/
def lent (s : SessionBuffers) (x : Side) : List BufferOp := s.ops.filter fun op => op.buffer = reader x

def returned (s : SessionBuffers) (x : Side) : List BufferOp := s.ended.filter fun op => op.buffer = reader x

def passed (kind : BufferOpKind) (ops : List BufferOp) : List UInt8 :=
  (ops.filter fun op => op.kind = kind).flatMap BufferOp.moved

/-- What the sockets have put into the memory of a reader. -/
def received (s : SessionBuffers) (x : Side) : List UInt8 := passed .readSome (returned s x ++ lent s x)

/-- What they have taken out of it for the other session. -/
def sent (s : SessionBuffers) (x : Side) : List UInt8 := passed .writeAll (returned s x ++ lent s x)

/-- The operation a loop has under way at the socket has the memory of its reader. -/
inductive Lent (x : Side) (f : Relay UInt8) : List SocketOp → List BufferOp → Prop
  | idle : Lent x f [] []
  | reads {op : BufferOp} (kind : op.kind = .readSome) (size : op.size = defaultBufferSize)
      (done : op.done = 0) (moved : op.moved = []) : Lent x f [⟨.read, x, x⟩] [op]
  | writes {op : BufferOp} (kind : op.kind = .writeAll) (size : op.size = f.size)
      (done : f.writing = some op.done) : Lent x f [⟨.write, x.other, x⟩] [op]

/-- The operations of a loop on memory are those it has at the sockets, and have moved its bytes. -/
structure Follows (s : SessionBuffers) (x : Side) (f : Relay UInt8) (ops : List SocketOp) : Prop where
  lent : Lent x f ops (lent s x)
  received : received s x = f.chunks.flatten
  sent : sent s x = f.written
  whole : f.buffer.length = defaultBufferSize
  fits : f.size ≤ f.buffer.length
  chunks : ∀ c ∈ f.chunks, c.length ≤ defaultBufferSize

/-- The reader of a session has its memory, and the bytes of `f` in it. -/
structure Kept (s : SessionBuffers) (x : Side) (f : Relay UInt8) : Prop where
  reader : ∃ v, s.buffer (reader x) = some v ∧ v.size = defaultBufferSize ∧
    s.memory.content v.block = some f.buffer
  writer : ∃ v, s.buffer (writer x) = some v

structure Ok (p : ProxyMemory) : Prop where
  stream : p.stream.StreamOk
  buffers : p.buffers.Ok
  safe : Safe p.buffers
  follows : ∀ x, Follows p.buffers x (p.stream.flow x) (p.stream.pair.opsOf x)
  kept : ∀ x, p.stream.pair.alive x = true → Kept p.buffers x (p.stream.flow x)
  only : ∀ op ∈ p.buffers.ops, ∃ x, op.buffer = reader x

variable {s t : SessionBuffers} {x y : Side} {f g : Relay UInt8} {op op' : BufferOp} {growth : Growth}

theorem single_split {α : Type} {l : List α} {keep : α → Bool} {a : α} (single : l.filter keep = [a]) :
    ∃ before after, l = before ++ a :: after ∧ l.findIdx keep = before.length ∧ keep a = true ∧
      before.filter keep = [] ∧ after.filter keep = [] := by
  obtain ⟨before, after, rfl, earlier, holds, later⟩ := List.filter_eq_cons_iff.mp single
  have absent : before.findIdx keep = before.length :=
    List.findIdx_eq_length.mpr fun b member => by simpa using earlier b member
  refine ⟨before, after, rfl, ?_, holds, List.filter_eq_nil_iff.mpr earlier, later⟩
  rw [List.findIdx_append, absent, if_neg (Nat.lt_irrefl _), List.findIdx_cons, holds]
  simp

theorem reader_inj (same : reader x = reader y) : x = y := by
  cases x <;> cases y <;> first | rfl | cases same

theorem reader_ne_writer (x y : Side) : reader x ≠ writer y := by
  intro same
  cases congrArg BufferRef.side same

theorem mem_lent : op ∈ lent s x ↔ op ∈ s.ops ∧ op.buffer = reader x := by
  simp [lent]

theorem lent_place (mine : lent s x = [op]) : s.ops[place s x]? = some op := by
  obtain ⟨before, after, split, found, -⟩ := single_split mine
  have here : place s x = before.length := found
  rw [here, split]
  simp

theorem lent_set (mine : lent s x = [op]) (same : op'.buffer = op.buffer)
    (ops : t.ops = s.ops.set (place s x) op') : lent t x = [op'] ∧ ∀ y, y ≠ x → lent t y = lent s y := by
  obtain ⟨before, after, split, found, own, earlier, later⟩ := single_split mine
  have here : place s x = before.length := found
  have buffer : op.buffer = reader x := of_decide_eq_true own
  have replaced : t.ops = before ++ op' :: after := by
    rw [ops, here, split]
    simp
  refine ⟨?_, fun y other => ?_⟩
  · rw [lent, replaced, List.filter_append, earlier, List.filter_cons_of_pos (by simpa [same] using own), later]
    rfl
  · have elsewhere : reader x ≠ reader y := fun equal => other (reader_inj equal).symm
    simp [lent, replaced, split, same, buffer, elsewhere]

theorem lent_erase (mine : lent s x = [op]) (ops : t.ops = s.ops.eraseIdx (place s x)) :
    lent t x = [] ∧ ∀ y, y ≠ x → lent t y = lent s y := by
  obtain ⟨before, after, split, found, own, earlier, later⟩ := single_split mine
  have here : place s x = before.length := found
  have buffer : op.buffer = reader x := of_decide_eq_true own
  have erased : t.ops = before ++ after := by
    rw [ops, here, split, List.eraseIdx_append_of_length_le (Nat.le_refl _)]
    simp
  refine ⟨?_, fun y other => ?_⟩
  · rw [lent, erased, List.filter_append, earlier, later]
    rfl
  · have elsewhere : reader x ≠ reader y := fun equal => other (reader_inj equal).symm
    simp [lent, erased, split, buffer, elsewhere]

theorem passed_append (kind : BufferOpKind) (before after : List BufferOp) :
    passed kind (before ++ after) = passed kind before ++ passed kind after := by
  simp [passed]

theorem passed_self (op : BufferOp) : passed op.kind [op] = op.moved := by
  simp [passed]

theorem passed_other {kind : BufferOpKind} (other : op.kind ≠ kind) : passed kind [op] = [] := by
  simp [passed, other]

theorem follows_congr {ops : List SocketOp} (follows : Follows s x f ops) (under : lent t x = lent s x)
    (ended : returned t x = returned s x) : Follows t x f ops := by
  refine ⟨under ▸ follows.lent, ?_, ?_, follows.whole, follows.fits, follows.chunks⟩
  · rw [received, under, ended]
    exact follows.received
  · rw [sent, under, ended]
    exact follows.sent

/-- The memory of an operation on the reader's buffer is the reader's, and it holds the bytes of `f`. -/
theorem Kept.backs (ok : s.Ok) (safe : Safe s) (kept : Kept s x f) (mine : lent s x = [op]) :
    s.memory.content op.block = some f.buffer ∧ op.size ≤ f.buffer.length ∧
      ∀ v, s.buffer (ProxyMemory.reader x) = some v → v.block = op.block := by
  obtain ⟨member, buffer⟩ := mem_lent.mp (mine ▸ List.mem_singleton.mpr rfl : op ∈ lent s x)
  obtain ⟨content, there, fits⟩ := safe op member
  obtain ⟨v, has, block⟩ := ok.lent op member content there
  obtain ⟨w, has', -, holds⟩ := kept.reader
  obtain rfl : v = w := Option.some.inj ((buffer ▸ has).symm.trans has')
  rw [block, there] at holds
  obtain rfl := Option.some.inj holds
  refine ⟨there, fits, fun u owns => ?_⟩
  obtain rfl := Option.some.inj (has'.symm.trans owns)
  exact block

theorem none_lent (follows : Follows s x f []) : lent s x = [] := by
  have under := follows.lent
  generalize lent s x = ops at under ⊢
  cases under
  rfl

theorem read_lent (follows : Follows s x f [⟨.read, x, x⟩]) : ∃ op, lent s x = [op] ∧
    op.kind = .readSome ∧ op.size = defaultBufferSize ∧ op.done = 0 ∧ op.moved = [] := by
  have under := follows.lent
  generalize lent s x = ops at under ⊢
  cases under with
  | reads kind size done moved => exact ⟨_, rfl, kind, size, done, moved⟩

theorem write_lent (follows : Follows s x f [⟨.write, x.other, x⟩]) : ∃ op, lent s x = [op] ∧
    op.kind = .writeAll ∧ op.size = f.size ∧ f.writing = some op.done := by
  have under := follows.lent
  generalize lent s x = ops at under ⊢
  cases under with
  | writes kind size done => exact ⟨_, rfl, kind, size, done⟩

theorem safe_run {as : List SessionBuffers.Action} (ok : s.Ok) (safe : Safe s)
    (ran : (SessionBuffers.machine growth).run s as = some t)
    (careful : (SessionBuffers.machine growth).Always SessionBuffers.Careful s as) : t.Ok ∧ Safe t := by
  refine Machine.Always.invariant (m := SessionBuffers.machine growth) (I := fun s => s.Ok ∧ Safe s)
    ?_ ⟨ok, safe⟩ careful ran
  rintro s a t ⟨ok, safe⟩ careful taken
  obtain ⟨kept, safely⟩ := SessionBuffers.buffers_next ok taken
  exact ⟨kept, (safely safe).mpr careful⟩

/-- `s` after the operation on the reader of `x` has ended as `op`. -/
def finished (s : SessionBuffers) (x : Side) (memory : Blocks UInt8) (op : BufferOp) : SessionBuffers :=
  { s with memory := memory, ops := s.ops.eraseIdx (place s x), ended := s.ended ++ [op] }

theorem finish_runs (growth : Growth) (mine : lent s x = [op]) :
    (SessionBuffers.machine growth).run s [.finish (place s x)] = some (finished s x s.memory op) := by
  have taken : s.finish (place s x) = some (finished s x s.memory op) := by
    rw [SessionBuffers.finish, lent_place mine]
    rfl
  exact Machine.run_cons.mpr ⟨_, taken, rfl⟩

/-- What the operation has been given when it ends having received `bytes`. -/
def filled (op : BufferOp) (bytes : List UInt8) : BufferOp :=
  { op with done := op.done + bytes.length, moved := op.moved ++ bytes }

theorem receive_runs (growth : Growth) (ok : s.Ok) (safe : Safe s) (kept : Kept s x f) (mine : lent s x = [op])
    (kind : op.kind = .readSome) (done : op.done = 0) {bytes : List UInt8} (fits : bytes.length ≤ op.size) :
    (SessionBuffers.machine growth).run s [.receive (place s x) bytes, .finish (place s x)] =
      some (finished s x (s.memory.store op.block (overwrite f.buffer 0 bytes)) (filled op bytes)) := by
  obtain ⟨there, room, -⟩ := kept.backs ok safe mine
  have here := lent_place mine
  have taken : s.receive (place s x) bytes = some _ :=
    SessionBuffers.receive_of here there room ⟨by simp [kind], by omega, fun _ => done⟩
  obtain ⟨inside, -⟩ := List.getElem?_eq_some_iff.mp here
  refine Machine.run_cons.mpr ⟨_, taken, Machine.run_cons.mpr ⟨_, ?_, rfl⟩⟩
  simp [SessionBuffers.machine, SessionBuffers.finish, finished, filled, inside, done, List.eraseIdx_set_eq]

def advanced (s : SessionBuffers) (x : Side) (op : BufferOp) : SessionBuffers :=
  { s with ops := s.ops.set (place s x) op }

/-- What the operation has sent when it has taken `n` bytes more of `buffer`. -/
def drained (op : BufferOp) (buffer : List UInt8) (n : Nat) : BufferOp :=
  { op with done := op.done + n, moved := op.moved ++ (buffer.drop op.done).take n }

theorem transmit_runs (growth : Growth) (ok : s.Ok) (safe : Safe s) (kept : Kept s x f) (mine : lent s x = [op])
    (kind : op.kind = .writeAll) {n : Nat} (fits : op.done + n ≤ op.size) :
    (SessionBuffers.machine growth).run s [.transmit (place s x) n] =
      some (advanced s x (drained op f.buffer n)) := by
  obtain ⟨there, room, -⟩ := kept.backs ok safe mine
  have found : s.found op = some f.buffer := by
    rw [SessionBuffers.found, there, Option.filter_some, if_pos (by simpa using room)]
  have taken : s.transmit (place s x) n = some (advanced s x (drained op f.buffer n)) := by
    rw [SessionBuffers.transmit, lent_place mine, Option.bind_some, found, Option.bind_some, if_pos ⟨kind, fits⟩]
    rfl
  exact Machine.run_cons.mpr ⟨_, taken, rfl⟩

theorem finished_frame (mine : lent s x = [op]) (memory : Blocks UInt8) (op' : BufferOp)
    (buffer : op'.buffer = op.buffer) :
    lent (finished s x memory op') x = [] ∧
      returned (finished s x memory op') x = returned s x ++ [op'] ∧
      ∀ y, y ≠ x → lent (finished s x memory op') y = lent s y ∧
        returned (finished s x memory op') y = returned s y := by
  have own : op'.buffer = reader x := by
    rw [buffer]
    exact (mem_lent.mp (mine ▸ List.mem_singleton.mpr rfl : op ∈ lent s x)).2
  obtain ⟨none_left, others⟩ := lent_erase (t := finished s x memory op') mine rfl
  refine ⟨none_left, by simp [returned, finished, own], fun y other => ⟨others y other, ?_⟩⟩
  have elsewhere : reader x ≠ reader y := fun equal => other (reader_inj equal).symm
  simp [returned, finished, own, elsewhere]

theorem filled_follows (follows : Follows s x f [⟨.read, x, x⟩]) (mine : lent s x = [op])
    (kind : op.kind = .readSome) (moved : op.moved = []) {bytes : List UInt8}
    (fits : bytes.length ≤ f.buffer.length) (memory : Blocks UInt8) :
    Follows (finished s x memory (filled op bytes)) x (f.readDone bytes) [] := by
  obtain ⟨under, ended, -⟩ := finished_frame mine memory (filled op bytes) rfl
  have before := follows.received
  have out := follows.sent
  rw [received, mine, passed_append, ← kind, passed_self, moved, List.append_nil] at before
  rw [sent, mine, passed_append, passed_other (by simp [kind]), List.append_nil] at out
  refine ⟨?_, ?_, ?_, ?_, ?_, fun c member => ?_⟩
  · rw [under]
    exact .idle
  · rw [received, under, ended, List.append_nil, passed_append, ← kind, before,
      show op.kind = (filled op bytes).kind from rfl, passed_self]
    simp [Relay.readDone, filled, moved]
  · rw [sent, under, ended, List.append_nil, passed_append, out,
      passed_other (by simp [filled, kind]), List.append_nil]
    rfl
  · have whole := follows.whole
    simp only [Relay.readDone, List.length_append, List.length_drop]
    omega
  · simp only [Relay.readDone, List.length_append, List.length_drop]
    omega
  · rcases List.mem_append.mp member with old | new
    · exact follows.chunks c old
    · rw [List.mem_singleton.mp new, ← follows.whole]
      exact fits

theorem finished_follows {ops : List SocketOp} (follows : Follows s x f ops) (mine : lent s x = [op])
    (same : g.buffer = f.buffer ∧ g.size = f.size ∧ g.chunks = f.chunks ∧ g.written = f.written) :
    Follows (finished s x s.memory op) x g [] := by
  obtain ⟨under, ended, -⟩ := finished_frame mine s.memory op rfl
  obtain ⟨buffer, size, chunks, written⟩ := same
  have all : returned (finished s x s.memory op) x ++ lent (finished s x s.memory op) x =
      returned s x ++ lent s x := by
    rw [under, ended, mine, List.append_nil]
  refine ⟨?_, ?_, ?_, buffer ▸ follows.whole, buffer ▸ size ▸ follows.fits, chunks ▸ follows.chunks⟩
  · rw [under]
    exact .idle
  · rw [received, all, chunks]
    exact follows.received
  · rw [sent, all, written]
    exact follows.sent

theorem drained_follows (follows : Follows s x f [⟨.write, x.other, x⟩]) (mine : lent s x = [op])
    (kind : op.kind = .writeAll) (size : op.size = f.size) (done : f.writing = some op.done) {n : Nat}
    (taken : f.progress n = some g) :
    Follows (advanced s x (drained op f.buffer n)) x g [⟨.write, x.other, x⟩] ∧ op.done + n ≤ op.size ∧
      g.buffer = f.buffer := by
  unfold Relay.progress at taken
  rw [done] at taken
  simp only [Option.ite_none_right_eq_some, Option.some.injEq] at taken
  obtain ⟨room, rfl⟩ := taken
  have same : (drained op f.buffer n).buffer = op.buffer := rfl
  obtain ⟨under, -⟩ := lent_set (t := advanced s x (drained op f.buffer n)) mine same rfl
  have before := follows.sent
  have in_ := follows.received
  rw [sent, mine, passed_append, ← kind, passed_self] at before
  rw [received, mine, passed_append, passed_other (by simp [kind]), List.append_nil] at in_
  refine ⟨⟨?_, ?_, ?_, follows.whole, follows.fits, follows.chunks⟩, by omega, rfl⟩
  · rw [under]
    exact .writes kind size rfl
  · rw [received, under, passed_append, passed_other (by simp [drained, kind]), List.append_nil]
    exact in_
  · have ended : returned (advanced s x (drained op f.buffer n)) x = returned s x := rfl
    rw [sent, under, ended, passed_append, ← kind,
      show op.kind = (drained op f.buffer n).kind from rfl, passed_self]
    simp only [drained]
    rw [← List.append_assoc, before]

theorem opsOf_reading {p : ProxyPair} (ok : p.PairOk) (under : reading x ∈ p.ops) :
    p.opsOf x = [⟨.read, x, x⟩] := by
  obtain ⟨phase, suspended⟩ := ProxyStream.reading_outstanding (p := ⟨p, fun _ => .new []⟩) ok under
  rw [(ok.sessions x).ops, ProxyDataSession.outstanding, if_pos suspended, phase]

theorem opsOf_writing {p : ProxyPair} (ok : p.PairOk) (under : writing x ∈ p.ops) :
    p.opsOf x = [⟨.write, x.other, x⟩] := by
  obtain ⟨phase, suspended⟩ := ProxyStream.writing_outstanding (p := ⟨p, fun _ => .new []⟩) ok under
  rw [(ok.sessions x).ops, ProxyDataSession.outstanding, if_pos suspended, phase]

theorem complete_ops (p : ProxyPair) (x : Side) (failure : Option Exception) :
    (p.complete x failure).opsOf x = [] ∧ ∀ y, y ≠ x → (p.complete x failure).opsOf y = p.opsOf y := by
  refine ⟨by simp [ProxyPair.opsOf, ProxyPair.complete], fun y other => ?_⟩
  simp only [ProxyPair.opsOf, ProxyPair.complete, List.filter_filter]
  refine List.filter_congr fun op _ => ?_
  by_cases own : op.issuer = y <;> simp [own, other]

theorem opsOf_le_one {p : ProxyPair} (ok : p.PairOk) (x : Side) : (p.opsOf x).length ≤ 1 := by
  rw [(ok.sessions x).ops, ProxyDataSession.outstanding]
  split
  · split <;> simp
  · simp

theorem passed_fresh (kind : BufferOpKind) (moved : op.moved = []) : passed kind [op] = [] := by
  by_cases same : op.kind = kind <;> simp [passed, same, moved]

theorem initiate_follows {ops : List SocketOp} (follows : Follows s x f []) {kind : BufferOpKind} {v : TBuffer}
    {size : Nat} (same : g.buffer = f.buffer ∧ g.size = f.size ∧ g.chunks = f.chunks ∧ g.written = f.written)
    (under : Lent x g ops [⟨kind, reader x, v.block, size, 0, (s.content v).take size, []⟩]) :
    Follows (s.initiate kind (reader x) v size) x g ops ∧
      ∀ y, y ≠ x → lent (s.initiate kind (reader x) v size) y = lent s y := by
  have idle := none_lent follows
  obtain ⟨buffer, bytes, chunks, written⟩ := same
  have own : lent (s.initiate kind (reader x) v size) x =
      [⟨kind, reader x, v.block, size, 0, (s.content v).take size, []⟩] := by
    simpa [lent, SessionBuffers.initiate] using idle
  have ended : returned (s.initiate kind (reader x) v size) x = returned s x := rfl
  have before := follows.received
  have out := follows.sent
  rw [received, idle, List.append_nil] at before
  rw [sent, idle, List.append_nil] at out
  refine ⟨⟨?_, ?_, ?_, buffer ▸ follows.whole, buffer ▸ bytes ▸ follows.fits, chunks ▸ follows.chunks⟩,
    fun y other => ?_⟩
  · rw [own]
    exact under
  · rw [received, own, ended, passed_append, passed_fresh _ rfl, List.append_nil, before, chunks]
  · rw [sent, own, ended, passed_append, passed_fresh _ rfl, List.append_nil, out, written]
  · have elsewhere : reader x ≠ reader y := fun equal => other (reader_inj equal).symm
    simp [lent, SessionBuffers.initiate, elsewhere]

end ProxyMemory

end BoostBase
