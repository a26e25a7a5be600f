import BoostBase.Network.SessionBuffers

namespace BoostBase

open Memory Transition

/-- What two operations must know of each other: which memory they have and how they use it. -/
def BufferOp.use (op : BufferOp) : BufferRef × BufferOpKind := (op.buffer, op.kind)

def Shareable (p q : BufferRef × BufferOpKind) : Prop := p.1 = q.1 → p.2 = .writeAll ∧ q.2 = .writeAll

namespace SessionBuffers

/-- The calls leave the bytes of the operations under way alone: memory that is read into is given
    to nobody else, and a buffer that is in use does not grow. -/
def Orderly (s : SessionBuffers) (a : Action) (t : SessionBuffers) : Prop :=
  Careful s a t ∧
    match a with
    | .readerSome x _ | .readerAll x _ => s.Unused ⟨x, .reader⟩
    | .writerAllOf _ b _ => ∀ op ∈ s.ops, op.buffer = b → op.kind = .writeAll
    | .setBufferSize b n => (∀ v, s.buffer b = some v → n ≤ v.size) ∨ s.Unused b
    | _ => True

/-- What has gone through an operation is as much as it has done, and for a write the beginning of
    what it was given. -/
structure Faithful (op : BufferOp) : Prop where
  bound : op.done ≤ op.size
  moved : op.moved.length = op.done
  given : op.kind = .writeAll → op.given.length = op.size ∧ op.moved = op.given.take op.done

/-- The memory of a write holds what it was given, that of a read what it has received. -/
def Holds (op : BufferOp) (content : List UInt8) : Prop :=
  if op.kind = .writeAll then content.take op.size = op.given else content.take op.done = op.moved

structure Intact (s : SessionBuffers) : Prop where
  shared : (s.ops.map BufferOp.use).Pairwise Shareable
  under : ∀ op ∈ s.ops, Faithful op ∧ ∀ content, s.memory.content op.block = some content → Holds op content
  ended : ∀ op ∈ s.ended, Faithful op

variable {growth : Growth} {s t : SessionBuffers} {b : BufferRef} {v : TBuffer}

theorem Intact.of_kept (intact : Intact s) (ops : t.ops = s.ops) (ended : t.ended = s.ended)
    (memory : ∀ op ∈ s.ops, ∀ content, t.memory.content op.block = some content →
      s.memory.content op.block = some content) : Intact t := by
  refine ⟨ops ▸ intact.shared, fun op member => ?_, ended ▸ intact.ended⟩
  rw [ops] at member
  obtain ⟨faithful, holds⟩ := intact.under op member
  exact ⟨faithful, fun content there => holds content (memory op member content there)⟩

theorem release_intact (intact : Intact s) (b : BufferRef) : Intact (s.release b) := by
  cases there : s.buffer b with
  | none => rwa [release_none there]
  | some v =>
    rw [release_some there]
    refine intact.of_kept rfl rfl fun op _ content found => ?_
    by_cases freed : op.block = v.block
    · rw [freed, Blocks.free_self] at found
      cases found
    · rwa [Blocks.free_other freed] at found

theorem acquire_intact (ok : Ok s) (intact : Intact s) (b : BufferRef) (bytes : List UInt8) (size : Nat) :
    Intact (s.acquire b bytes size) := by
  refine intact.of_kept rfl rfl fun op member content found => ?_
  rwa [acquire, Blocks.alloc_old (ok.made op member)] at found

theorem initiate_intact (ok : Ok s) (intact : Intact s) (has : s.buffer b = some v) {kind : BufferOpKind}
    {size : Nat} (fits : size ≤ (s.content v).length)
    (others : ∀ op ∈ s.ops, op.buffer = b → op.kind = .writeAll ∧ kind = .writeAll) :
    Intact (s.initiate kind b v size) := by
  obtain ⟨there, -⟩ := content_some ok has
  have length : ((s.content v).take size).length = size := by rw [List.length_take, Nat.min_eq_left fits]
  refine ⟨?_, fun op member => ?_, intact.ended⟩
  · rw [initiate, List.map_append, List.map_singleton]
    refine List.pairwise_append.mpr ⟨intact.shared, List.pairwise_singleton _ _, fun p old q new => ?_⟩
    obtain ⟨op, member, rfl⟩ := List.mem_map.mp old
    rw [List.mem_singleton.mp new]
    exact others op member
  · rcases List.mem_append.mp member with old | new
    · exact intact.under op old
    · rw [List.mem_singleton.mp new]
      refine ⟨⟨Nat.zero_le size, rfl, fun _ => ⟨length, rfl⟩⟩, fun content found => ?_⟩
      obtain rfl := Option.some.inj (there.symm.trans found)
      unfold Holds
      split <;> rfl

theorem read_intact (ok : Ok s) (intact : Intact s) {kind : BufferOpKind} {x maxSize : Nat}
    (unused : s.Unused ⟨x, .reader⟩) (taken : s.read kind x maxSize = some t) : Intact t := by
  obtain ⟨v, has, rfl⟩ := Option.map_eq_some_iff.mp taken
  refine initiate_intact ok intact has ?_ fun op member same => absurd same (unused op member)
  exact (Nat.min_le_right maxSize v.size).trans (content_some ok has).2

theorem setBufferSize_intact (ok : Ok s) (intact : Intact s) {n : Nat}
    (orderly : (∀ v, s.buffer b = some v → n ≤ v.size) ∨ s.Unused b)
    (taken : s.setBufferSize growth b n = some t) : Intact t := by
  obtain ⟨v, has, grown⟩ := Option.map_eq_some_iff.mp taken
  obtain ⟨there, -⟩ := content_some ok has
  dsimp only at grown
  split at grown
  · subst grown
    refine intact.of_kept rfl rfl fun op member content found => ?_
    by_cases here : op.block = v.block
    · rw [here, Blocks.store_self there] at found
      obtain rfl := Option.some.inj found
      rcases orderly with less | unused
      · -- nothing is written
        rw [Nat.sub_eq_zero_of_le (less v has), List.replicate_zero, overwrite, List.append_nil,
          List.length_nil, Nat.add_zero, List.take_append_drop, here]
        exact there
      · obtain ⟨w, has', block⟩ := ok.lent op member _ (here ▸ there)
        exact absurd (ok.apart _ b w v has' has (block.trans here)) (unused op member)
    · rwa [Blocks.store_other here] at found
  · subst grown
    exact acquire_intact (release_ok ok b) (release_intact intact b) b _ n

theorem writerAll_intact (ok : Ok s) (intact : Intact s) {x : Nat} {c : List UInt8}
    (unused : s.Unused ⟨x, .writer⟩) (taken : s.writerAll x c = some t) : Intact t := by
  obtain ⟨v, -, rfl⟩ := Option.map_eq_some_iff.mp taken
  have moved := acquire_ok (release_ok ok ⟨x, .writer⟩) (release_self s _) (Nat.le_refl c.length)
  have has : ((s.release ⟨x, .writer⟩).acquire ⟨x, .writer⟩ c c.length).buffer ⟨x, .writer⟩ =
      some ⟨s.memory.next, c.length⟩ := by
    rw [← release_next s ⟨x, .writer⟩]
    exact Function.update_self ..
  refine initiate_intact moved (acquire_intact (release_ok ok _) (release_intact intact _) _ _ _) has
    (content_some moved has).2 fun op member same => absurd same (unused op ?_)
  rwa [acquire, release_ops] at member

theorem writerAllOf_intact (ok : Ok s) (intact : Intact s) {x n : Nat}
    (fits : ∀ v, s.buffer b = some v → n ≤ (s.content v).length)
    (writes : ∀ op ∈ s.ops, op.buffer = b → op.kind = .writeAll)
    (taken : s.writerAllOf x b n = some t) : Intact t := by
  obtain ⟨-, -, taken⟩ := Option.bind_eq_some_iff.mp taken
  obtain ⟨v, has, rfl⟩ := Option.map_eq_some_iff.mp taken
  exact initiate_intact ok intact has (fits v has) fun op member same => ⟨writes op member same, rfl⟩

theorem alone (ok : Ok s) (intact : Intact s) {i j : Nat} {op p : BufferOp} (here : s.ops[i]? = some op)
    (there : s.ops[j]? = some p) (other : i ≠ j) (reads : op.kind ≠ .writeAll) {content : List UInt8}
    (content_ : s.memory.content op.block = some content) : p.block ≠ op.block := by
  intro same
  have member := List.mem_of_getElem? here
  have member' := List.mem_of_getElem? there
  obtain ⟨v, has, block⟩ := ok.lent op member content content_
  obtain ⟨w, has', block'⟩ := ok.lent p member' content (same ▸ content_)
  have buffer : op.buffer = p.buffer := ok.apart _ _ v w has has' (by rw [block, block', same])
  obtain ⟨inside, rfl⟩ := List.getElem?_eq_some_iff.mp here
  obtain ⟨inside', rfl⟩ := List.getElem?_eq_some_iff.mp there
  have pairs := List.pairwise_iff_getElem.mp intact.shared
  rcases Nat.lt_or_gt_of_ne other with before | after
  · have share := pairs i j (by simpa using inside) (by simpa using inside') before
    rw [List.getElem_map, List.getElem_map] at share
    exact reads (share buffer).1
  · have share := pairs j i (by simpa using inside') (by simpa using inside) after
    rw [List.getElem_map, List.getElem_map] at share
    exact reads (share buffer.symm).2

theorem mem_set {l : List BufferOp} {i : Nat} {op p : BufferOp} (member : p ∈ l.set i op) :
    p = op ∨ ∃ j, i ≠ j ∧ l[j]? = some p := by
  obtain ⟨j, inside, rfl⟩ := List.getElem_of_mem member
  rw [List.length_set] at inside
  by_cases same : i = j
  · subst same
    exact .inl (List.getElem_set_self _)
  · exact .inr ⟨j, same, by rw [List.getElem_set_ne same, List.getElem?_eq_getElem inside]⟩

theorem shared_set (intact : Intact s) {i : Nat} {op op' : BufferOp} (here : s.ops[i]? = some op)
    (same : op'.use = op.use) : ((s.ops.set i op').map BufferOp.use).Pairwise Shareable := by
  have unchanged : (s.ops.set i op').map BufferOp.use = s.ops.map BufferOp.use := by
    rw [List.map_set, same]
    obtain ⟨inside, rfl⟩ := List.getElem?_eq_some_iff.mp here
    rw [← List.getElem_map BufferOp.use (h := by simpa using inside), List.set_getElem_self]
  rw [unchanged]
  exact intact.shared

theorem receive_intact (ok : Ok s) (intact : Intact s) {i : Nat} {bytes : List UInt8}
    (taken : s.receive i bytes = some t) : Intact t := by
  obtain ⟨op, here, taken⟩ := Option.bind_eq_some_iff.mp taken
  obtain ⟨content, there, taken⟩ := Option.bind_eq_some_iff.mp taken
  obtain ⟨there, fits⟩ := found_some there
  split at taken
  · rename_i enabled
    cases taken
    obtain ⟨reads, room, -⟩ := enabled
    obtain ⟨faithful, holds⟩ := intact.under op (List.mem_of_getElem? here)
    refine ⟨shared_set intact here rfl, fun p member => ?_, intact.ended⟩
    rcases mem_set member with rfl | ⟨j, other, place⟩
    · refine ⟨⟨room, ?_, fun writes => absurd writes reads⟩, fun after found => ?_⟩
      · rw [List.length_append, faithful.moved]
      · rw [Blocks.store_self there] at found
        obtain rfl := Option.some.inj found
        have received := holds content there
        rw [Holds, if_neg reads] at received
        rw [Holds, if_neg reads, overwrite_take_end (by have := faithful.bound; omega), received]
    · obtain ⟨faithful', holds'⟩ := intact.under p (List.mem_of_getElem? place)
      refine ⟨faithful', fun after found => holds' after ?_⟩
      rwa [Blocks.store_other (alone ok intact here place other reads there)] at found
  · cases taken

theorem transmit_intact (intact : Intact s) {i n : Nat} (taken : s.transmit i n = some t) : Intact t := by
  obtain ⟨op, here, taken⟩ := Option.bind_eq_some_iff.mp taken
  obtain ⟨content, there, taken⟩ := Option.bind_eq_some_iff.mp taken
  obtain ⟨there, fits⟩ := found_some there
  split at taken
  · rename_i enabled
    cases taken
    obtain ⟨writes, room⟩ := enabled
    obtain ⟨faithful, holds⟩ := intact.under op (List.mem_of_getElem? here)
    obtain ⟨length, sent⟩ := faithful.given writes
    have holding := holds content there
    rw [Holds, if_pos writes] at holding
    have piece : (content.drop op.done).take n = (op.given.drop op.done).take n := by
      rw [← holding, List.drop_take, List.take_take, Nat.min_eq_left (by omega)]
    have onward : op.moved ++ (content.drop op.done).take n = op.given.take (op.done + n) := by
      rw [piece, List.take_add, ← sent]
    refine ⟨shared_set intact here rfl, fun p member => ?_, intact.ended⟩
    rcases mem_set member with rfl | ⟨j, -, place⟩
    · refine ⟨⟨room, ?_, fun _ => ⟨length, onward⟩⟩, fun content' found => ?_⟩
      · rw [onward, List.length_take, length, Nat.min_eq_left room]
      · rw [Holds, if_pos writes]
        obtain rfl := Option.some.inj (there.symm.trans found)
        exact holding
    · exact intact.under p (List.mem_of_getElem? place)
  · cases taken

theorem finish_intact (intact : Intact s) {i : Nat} (taken : s.finish i = some t) : Intact t := by
  obtain ⟨op, here, rfl⟩ := Option.map_eq_some_iff.mp taken
  refine ⟨?_, fun p member => intact.under p (List.mem_of_mem_eraseIdx member), fun p member => ?_⟩
  · exact intact.shared.sublist ((List.eraseIdx_sublist s.ops i).map _)
  · rcases List.mem_append.mp member with old | new
    · exact intact.ended p old
    · rw [List.mem_singleton.mp new]
      exact (intact.under op (List.mem_of_getElem? here)).1

theorem intact_next (ok : Ok s) (intact : Intact s) {a : Action} (orderly : Orderly s a t)
    (taken : (machine growth).next s a = some t) : Intact t := by
  cases a with
  | construct x =>
    simp only [machine] at taken
    split at taken
    · rename_i gone
      cases taken
      have size : defaultBufferSize ≤ (List.replicate defaultBufferSize (0 : UInt8)).length := by
        rw [List.length_replicate]
      exact acquire_intact (acquire_ok ok gone.1 size) (acquire_intact ok intact _ _ _) _ _ _
    · cases taken
  | destroy x =>
    cases taken
    exact release_intact (release_intact intact _) _
  | setBufferSize b n => exact setBufferSize_intact ok intact orderly.2 taken
  | readerSome x maxSize | readerAll x maxSize => exact read_intact ok intact orderly.2 taken
  | writerAll x c => exact writerAll_intact ok intact orderly.1 taken
  | writerAllOf x b n => exact writerAllOf_intact ok intact orderly.1 orderly.2 taken
  | receive i bytes => exact receive_intact ok intact taken
  | transmit i n => exact transmit_intact intact taken
  | finish i => exact finish_intact intact taken

/-- In a run of orderly calls every read finds what it has received at the beginning of its buffer,
    and every write has sent, in order, the beginning of what it was given, and all of it if it has
    come to its end. -/
theorem moved_exact {as : List Action} (ran : (machine growth).run (machine growth).initial as = some s)
    (orderly : (machine growth).Always Orderly (machine growth).initial as) :
    (∀ op ∈ s.ops, op.kind ≠ .writeAll → ∃ v, s.buffer op.buffer = some v ∧
      (s.content v).take op.done = op.moved ∧ op.moved.length = op.done) ∧
    ∀ op ∈ s.ops ++ s.ended, op.kind = .writeAll →
      op.moved = op.given.take op.done ∧ op.given.length = op.size ∧ op.done ≤ op.size := by
  obtain ⟨ok, safe, intact⟩ : Ok s ∧ Safe s ∧ Intact s := by
    refine Machine.Always.invariant (m := machine growth) (I := fun s => Ok s ∧ Safe s ∧ Intact s) ?_
      ⟨.initial, fun _ member => (by cases member), ?_⟩ orderly ran
    · rintro s a t ⟨ok, safe, intact⟩ orderly taken
      obtain ⟨kept, safely⟩ := buffers_next ok taken
      exact ⟨kept, (safely safe).mpr orderly.1, intact_next ok intact orderly taken⟩
    · exact ⟨List.Pairwise.nil, fun _ member => (by cases member), fun _ member => by cases member⟩
  constructor
  · intro op member reads
    obtain ⟨content, there, -⟩ := safe op member
    obtain ⟨v, has, block⟩ := ok.lent op member content there
    obtain ⟨faithful, holds⟩ := intact.under op member
    have received := holds content there
    rw [Holds, if_neg reads] at received
    refine ⟨v, has, ?_, faithful.moved⟩
    rw [SessionBuffers.content, block, there]
    exact received
  · intro op member writes
    have faithful : Faithful op := by
      rcases List.mem_append.mp member with under | ended
      · exact (intact.under op under).1
      · exact intact.ended op ended
    obtain ⟨length, sent⟩ := faithful.given writes
    exact ⟨sent, length, faithful.bound⟩

section

def exactGrowth : Growth := ⟨fun _ n => n, fun _ n => Nat.le_refl n⟩

/-- A session receives three bytes and sends the first of two of its own. -/
def exchanged : List Action :=
  [.construct 0, .readerSome 0 4, .receive 0 [7, 8, 9], .writerAll 0 [1, 2], .transmit 1 1]

theorem exchanged_room : 3 ≤ min 4 defaultBufferSize := by decide

-- the buffers are not to be written out
attribute [local irreducible] defaultBufferSize

def exchangeBegun : SessionBuffers :=
  ((new.sessionOpBase ⟨0, .reader⟩).sessionOpBase ⟨0, .writer⟩).initiate .readSome ⟨0, .reader⟩
    ⟨0, defaultBufferSize⟩ (min 4 defaultBufferSize)

theorem moved_exact_exchanged : ∃ s, (machine exactGrowth).run (machine exactGrowth).initial exchanged = some s ∧
    s.ops.map BufferOp.moved = [[7, 8, 9], [1]] ∧
    (∀ op ∈ s.ops, op.kind ≠ .writeAll → ∃ v, s.buffer op.buffer = some v ∧
      (s.content v).take op.done = op.moved ∧ op.moved.length = op.done) ∧
    ∀ op ∈ s.ops ++ s.ended, op.kind = .writeAll →
      op.moved = op.given.take op.done ∧ op.given.length = op.size ∧ op.done ≤ op.size := by
  have room : min 4 defaultBufferSize ≤ (List.replicate defaultBufferSize (0 : UInt8)).length := by
    rw [List.length_replicate]
    exact Nat.min_le_right _ _
  have there : exchangeBegun.memory.content 0 = some (List.replicate defaultBufferSize 0) := rfl
  have received : exchangeBegun.receive 0 [7, 8, 9] = some _ :=
    receive_of rfl there room ⟨by decide, exchanged_room, fun _ => rfl⟩
  have ran : (machine exactGrowth).run (machine exactGrowth).initial exchanged = some _ :=
    Machine.run_cons.mpr ⟨_, rfl, Machine.run_cons.mpr ⟨exchangeBegun, rfl,
      Machine.run_cons.mpr ⟨_, received, rfl⟩⟩⟩
  have orderly : (machine exactGrowth).Always Orderly (machine exactGrowth).initial exchanged :=
    .cons rfl ⟨trivial, trivial⟩ <| .cons (t := exchangeBegun) rfl ⟨trivial, fun _ member => by cases member⟩ <|
      .cons received ⟨trivial, trivial⟩ <|
        .cons rfl ⟨fun op member => by rw [List.mem_singleton.mp member]; decide, trivial⟩ <|
          .cons rfl ⟨trivial, trivial⟩ trivial
  exact ⟨_, ran, rfl, moved_exact ran orderly⟩

end

end SessionBuffers

end BoostBase
