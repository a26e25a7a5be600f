import BoostBase.Network.ProxyMemory
import BoostBase.Network.ProxyPairProgress

namespace BoostBase

open Asio Memory Transition LastOut

namespace ProxyMemory

open ProxyStream (reading writing headOp issued)
open SessionBuffers (Safe)

variable {s t : SessionBuffers} {x y : Side} {f g : Relay UInt8} {op op' : BufferOp} {growth : Growth}

theorem lost_steps {p q : ProxyPair} (steps : ProxyPair.machine.Steps p q) (alive : q.alive x = true) :
    p.alive x = true := by
  obtain ⟨as, ran⟩ := steps
  induction as generalizing p with
  | nil =>
    cases ran
    exact alive
  | cons a as ih =>
    obtain ⟨u, taken, rest⟩ := Machine.run_cons.mp ran
    have later := ih rest
    by_contra lost
    rw [ProxyPair.lost_next (by simpa using lost) taken] at later
    cases later

variable {p : ProxyMemory} {q : ProxyStream}

theorem ok_step (ok : Ok p) (stream : q.StreamOk) (steps : ProxyPair.machine.Steps p.stream.pair q.pair)
    (memory : t.Ok ∧ Safe t) (x : Side) (here : Follows t x (q.flow x) (q.pair.opsOf x))
    (others : ∀ y, y ≠ x → lent t y = lent p.buffers y ∧ returned t y = returned p.buffers y)
    (apart : ∀ y, y ≠ x → q.flow y = p.stream.flow y ∧ q.pair.opsOf y = p.stream.pair.opsOf y)
    (kept : ∀ y, p.stream.pair.alive y = true → Kept t y (q.flow y))
    (only : ∀ op ∈ t.ops, ∃ y, op.buffer = reader y) : Ok ⟨q, t⟩ := by
  refine ⟨stream, memory.1, memory.2, fun y => ?_, fun y alive => kept y (lost_steps steps alive), only⟩
  by_cases same : y = x
  · rw [same]
    exact here
  · obtain ⟨under, ended⟩ := others y same
    obtain ⟨flow, ops⟩ := apart y same
    show Follows t y (q.flow y) (q.pair.opsOf y)
    rw [flow, ops]
    exact follows_congr (ok.follows y) under ended

theorem kept_congr (kept : Kept s y f) (buffer : t.buffer = s.buffer) (memory : t.memory = s.memory)
    (same : g.buffer = f.buffer) : Kept t y g := by
  obtain ⟨v, has, size, content⟩ := kept.reader
  exact ⟨⟨v, buffer ▸ has, size, by rw [memory, same]; exact content⟩, buffer ▸ kept.writer⟩

theorem quiet_ok (ok : Ok p) (stream : q.StreamOk) (steps : ProxyPair.machine.Steps p.stream.pair q.pair)
    (flow : q.flow = p.stream.flow) (ops : ∀ y, q.pair.opsOf y = p.stream.pair.opsOf y) :
    Ok ⟨q, p.buffers⟩ := by
  refine ok_step ok stream steps ⟨ok.buffers, ok.safe⟩ .a ?_ (fun _ _ => ⟨rfl, rfl⟩)
    (fun y _ => ⟨congrFun flow y, ops y⟩) (fun y alive => ?_) ok.only
  · rw [flow, ops]
    exact ok.follows .a
  · rw [flow]
    exact ok.kept y alive

theorem alive_of_suspended {p : ProxyPair} (suspended : (p.session x).suspended = true) : p.alive x = true := by
  have active := (ProxyDataSession.suspended_iff.mp suspended).1
  simp [ProxyPair.alive, active]

theorem finished_ok (ok : Ok p) {failure : Option Exception} (mine : lent p.buffers x = [op])
    (same : g.buffer = (p.stream.flow x).buffer ∧ g.size = (p.stream.flow x).size ∧
      g.chunks = (p.stream.flow x).chunks ∧ g.written = (p.stream.flow x).written)
    (stream : ProxyStream.StreamOk ⟨p.stream.pair.complete x failure, p.stream.setFlow x g⟩)
    (steps : ProxyPair.machine.Steps p.stream.pair (p.stream.pair.complete x failure)) :
    ∃ t, (SessionBuffers.machine growth).run p.buffers [.finish (place p.buffers x)] = some t ∧
      Ok ⟨⟨p.stream.pair.complete x failure, p.stream.setFlow x g⟩, t⟩ := by
  have ran := finish_runs growth mine
  have memory := safe_run ok.buffers ok.safe ran fun _ _ => ⟨trivial, trivial⟩
  obtain ⟨idle, apart⟩ := complete_ops p.stream.pair x failure
  refine ⟨_, ran, ok_step ok stream steps memory x ?_ (finished_frame mine _ _ rfl).2.2 (fun y other => ?_)
    (fun y alive => ?_) fun op member => ok.only op (List.mem_of_mem_eraseIdx member)⟩
  · simp only [ProxyStream.setFlow, Function.update_self, idle]
    exact finished_follows (ok.follows x) mine same
  · exact ⟨Function.update_of_ne other _ _, apart y other⟩
  · exact kept_congr (ok.kept y alive) rfl rfl (ProxyStream.setFlow_same Relay.buffer same.1 y)

theorem filled_ok (ok : Ok p) (under : reading x ∈ p.stream.pair.ops) {bytes : List UInt8}
    (fits : bytes.length ≤ ProxyStream.readSize (p.stream.flow x))
    (stream : ProxyStream.StreamOk ⟨p.stream.pair.complete x none,
      p.stream.setFlow x ((p.stream.flow x).readDone bytes)⟩)
    (steps : ProxyPair.machine.Steps p.stream.pair (p.stream.pair.complete x none)) :
    ∃ t, (SessionBuffers.machine growth).run p.buffers (p.calls (.readDone x bytes)) = some t ∧
      Ok ⟨⟨p.stream.pair.complete x none, p.stream.setFlow x ((p.stream.flow x).readDone bytes)⟩, t⟩ := by
  have follows := ok.follows x
  rw [opsOf_reading ok.stream.pair under] at follows
  obtain ⟨op, mine, kind, size, done, moved⟩ := read_lent follows
  have alive := alive_of_suspended (ProxyStream.reading_outstanding ok.stream.pair under).2
  have kept := ok.kept x alive
  obtain ⟨there, -, block⟩ := kept.backs ok.buffers ok.safe mine
  have whole := follows.whole
  rw [ProxyStream.readSize] at fits
  have ran := receive_runs growth ok.buffers ok.safe kept mine kind done (Nat.le_trans fits (by omega))
  have memory := safe_run ok.buffers ok.safe ran fun _ _ => ⟨trivial, fun _ _ => ⟨trivial, trivial⟩⟩
  obtain ⟨idle, apart⟩ := complete_ops p.stream.pair x none
  have stored : overwrite (p.stream.flow x).buffer 0 bytes = ((p.stream.flow x).readDone bytes).buffer := by
    simp [overwrite, Relay.readDone]
  obtain ⟨v, has, size, -⟩ := kept.reader
  have others := (finished_frame mine (p.buffers.memory.store op.block
    (overwrite (p.stream.flow x).buffer 0 bytes)) (filled op bytes) rfl).2.2
  refine ⟨_, ran, ok_step ok stream steps memory x ?_ others (fun y other => ?_)
    ((Side.forall_iff x).mpr ⟨fun _ => ?_, fun alive => ?_⟩)
    fun op member => ok.only op (List.mem_of_mem_eraseIdx member)⟩
  · simp only [ProxyStream.setFlow, Function.update_self, idle]
    exact filled_follows follows mine kind moved (by omega) _
  · exact ⟨Function.update_of_ne other _ _, apart y other⟩
  · refine ⟨⟨v, has, size, ?_⟩, kept.writer⟩
    simp only [ProxyStream.setFlow, Function.update_self, ← stored, finished, block v has]
    exact Blocks.store_self there _
  · obtain ⟨⟨w, owns, full, content⟩, writes⟩ := ok.kept x.other alive
    have elsewhere : w.block ≠ op.block := fun same =>
      Side.other_ne x (reader_inj (ok.buffers.apart _ _ w v owns has (same.trans (block v has).symm)))
    simp only [ProxyStream.setFlow, Function.update_of_ne (Side.other_ne x)]
    exact ⟨⟨w, owns, full, (Blocks.store_other elsewhere).trans content⟩, writes⟩

theorem drained_ok (ok : Ok p) (under : writing x ∈ p.stream.pair.ops) {n : Nat}
    (taken : (p.stream.flow x).progress n = some g)
    (stream : ProxyStream.StreamOk { p.stream with flow := p.stream.setFlow x g }) :
    ∃ t, (SessionBuffers.machine growth).run p.buffers (p.calls (.progress x n)) = some t ∧
      Ok ⟨{ p.stream with flow := p.stream.setFlow x g }, t⟩ := by
  have follows := ok.follows x
  have outstanding := opsOf_writing ok.stream.pair under
  rw [outstanding] at follows
  obtain ⟨op, mine, kind, size, done⟩ := write_lent follows
  have alive := alive_of_suspended (ProxyStream.writing_outstanding ok.stream.pair under).2
  obtain ⟨further, fits, buffer⟩ := drained_follows follows mine kind size done taken
  have ran := transmit_runs growth ok.buffers ok.safe (ok.kept x alive) mine kind fits
  have memory := safe_run ok.buffers ok.safe ran fun _ _ => ⟨trivial, trivial⟩
  have same : (drained op (p.stream.flow x).buffer n).buffer = op.buffer := rfl
  obtain ⟨-, others⟩ := lent_set (t := advanced p.buffers x (drained op (p.stream.flow x).buffer n)) mine same rfl
  refine ⟨_, ran, ok_step ok stream (.refl _) memory x ?_ (fun y other => ⟨others y other, rfl⟩)
    (fun y other => ⟨Function.update_of_ne other _ _, rfl⟩) (fun y alive => ?_) fun op' member => ?_⟩
  · simp only [ProxyStream.setFlow, Function.update_self, outstanding]
    exact further
  · exact kept_congr (ok.kept y alive) rfl rfl (ProxyStream.setFlow_same Relay.buffer buffer y)
  · rcases List.mem_or_eq_of_mem_set member with old | rfl
    · exact ok.only op' old
    · exact ok.only op (mem_lent.mp (mine ▸ List.mem_singleton.mpr rfl : op ∈ lent p.buffers x)).1

theorem runHead_ops {p q : ProxyPair} (ran : p.runHead x = some q) (y : Side) :
    q.opsOf y = p.opsOf y ++ if x = y then ProxyPair.issue x (headOp p x) else [] := by
  obtain ⟨h, rest, head, rfl⟩ := ProxyPair.runHead_cases ran
  rw [ProxyPair.apply_ops, headOp, head, ProxyPair.popped_alive]
  rfl

theorem initiated_ok (ok : Ok p) (stream : q.StreamOk) (steps : ProxyPair.machine.Steps p.stream.pair q.pair)
    {kind : BufferOpKind} {v : TBuffer} {size : Nat} {ops : List SocketOp}
    (idle : p.stream.pair.opsOf x = []) (issued : q.pair.opsOf x = ops)
    (same : g.buffer = (p.stream.flow x).buffer ∧ g.size = (p.stream.flow x).size ∧
      g.chunks = (p.stream.flow x).chunks ∧ g.written = (p.stream.flow x).written)
    (under : Lent x g ops [⟨kind, reader x, v.block, size, 0, (p.buffers.content v).take size, []⟩])
    (flow : q.flow = p.stream.setFlow x g) (apart : ∀ y, y ≠ x → q.pair.opsOf y = p.stream.pair.opsOf y)
    (memory : (p.buffers.initiate kind (reader x) v size).Ok ∧ Safe (p.buffers.initiate kind (reader x) v size)) :
    Ok ⟨q, p.buffers.initiate kind (reader x) v size⟩ := by
  have follows := ok.follows x
  rw [idle] at follows
  obtain ⟨here, others⟩ := initiate_follows follows same under
  refine ok_step ok stream steps memory x ?_ (fun y other => ⟨others y other, rfl⟩)
    (fun y other => ⟨?_, apart y other⟩) (fun y alive => ?_) fun op member => ?_
  · rw [flow, issued]
    simp only [ProxyStream.setFlow, Function.update_self]
    exact here
  · rw [flow]
    exact Function.update_of_ne other _ _
  · rw [flow]
    exact kept_congr (ok.kept y alive) rfl rfl (ProxyStream.setFlow_same Relay.buffer same.1 y)
  · rcases List.mem_append.mp member with old | new
    · exact ok.only op old
    · exact ⟨x, by rw [List.mem_singleton.mp new]⟩

theorem ran_ok (ok : Ok p) {pair : ProxyPair} (ran : p.stream.pair.runHead x = some pair)
    (stream : ProxyStream.StreamOk
      ⟨pair, p.stream.setFlow x (issued (p.stream.flow x) (headOp p.stream.pair x))⟩) :
    ∃ t, (SessionBuffers.machine growth).run p.buffers (p.calls (.run x)) = some t ∧
      Ok ⟨⟨pair, p.stream.setFlow x (issued (p.stream.flow x) (headOp p.stream.pair x))⟩, t⟩ := by
  have steps : ProxyPair.machine.Steps p.stream.pair pair := .single (a := .run x) ran
  have ops := runHead_ops ran
  have few := opsOf_le_one stream.pair x
  have here := ops x
  have apart (y : Side) (other : y ≠ x) : pair.opsOf y = p.stream.pair.opsOf y := by
    rw [ops y, if_neg (Ne.symm other), List.append_nil]
  rw [if_pos rfl] at here
  have idle (op : SocketOp) (issues : ProxyPair.issue x (headOp p.stream.pair x) = [op]) :
      p.stream.pair.opsOf x = [] := by
    rw [here, issues, List.length_append] at few
    exact List.length_eq_zero_iff.mp (by simpa using few)
  cases begun : headOp p.stream.pair x with
  | none =>
    refine ⟨p.buffers, by rw [calls, begun]; rfl, quiet_ok ok (begun ▸ stream) steps ?_ fun y => ?_⟩
    · exact ProxyStream.setFlow_self p.stream x
    · rw [ops y, begun]
      split <;> exact List.append_nil _
  | some kind =>
    rw [begun] at here idle stream
    cases kind with
    | read =>
      have unlent := idle _ rfl
      have outstanding : pair.opsOf x = [⟨.read, x, x⟩] := by
        rw [here, unlent]
        rfl
      have under : reading x ∈ pair.ops := (List.mem_filter.mp (outstanding ▸ List.mem_singleton.mpr rfl)).1
      have alive := lost_steps steps (alive_of_suspended (ProxyStream.reading_outstanding stream.pair under).2)
      obtain ⟨v, has, size, -⟩ := (ok.kept x alive).reader
      have ran : (SessionBuffers.machine growth).run p.buffers [.readerSome (number x) defaultBufferSize] =
          some (p.buffers.initiate .readSome (reader x) v (min defaultBufferSize v.size)) := by
        refine Machine.run_cons.mpr ⟨_, ?_, rfl⟩
        exact congrArg (Option.map _) has
      have memory := safe_run ok.buffers ok.safe ran fun _ _ => ⟨trivial, trivial⟩
      refine ⟨_, by rw [calls, begun]; exact ran, ?_⟩
      refine initiated_ok ok stream steps unlent outstanding ⟨rfl, rfl, rfl, rfl⟩ ?_ rfl apart memory
      exact .reads rfl (by rw [size, Nat.min_self]) rfl rfl
    | write =>
      have unlent := idle _ rfl
      have outstanding : pair.opsOf x = [⟨.write, x.other, x⟩] := by
        rw [here, unlent]
        rfl
      have under : writing x ∈ pair.ops := (List.mem_filter.mp (outstanding ▸ List.mem_singleton.mpr rfl)).1
      obtain ⟨phase, suspended⟩ := ProxyStream.writing_outstanding stream.pair under
      have alive := lost_steps steps (alive_of_suspended suspended)
      -- the frame of `work` owns the other session, whose writer it calls
      have owned : pair.alive x.other = true := by
        simp [ProxyPair.alive, show (pair.session x).phase = .writing from phase, SessionPhase.working]
      obtain ⟨v, has, size, content⟩ := (ok.kept x alive).reader
      obtain ⟨w, owns⟩ := (ok.kept x.other (lost_steps steps owned)).writer
      have ran : (SessionBuffers.machine growth).run p.buffers
          [.writerAllOf (number x.other) (reader x) (p.stream.flow x).size] =
          some (p.buffers.initiate .writeAll (reader x) v (p.stream.flow x).size) := by
        refine Machine.run_cons.mpr ⟨_, ?_, rfl⟩
        exact (congrArg (Option.bind · _) owns).trans (congrArg (Option.map _) has)
      have memory := safe_run ok.buffers ok.safe ran fun _ _ => ⟨fun u has' => ?_, trivial⟩
      · refine ⟨_, by rw [calls, begun]; exact ran, ?_⟩
        refine initiated_ok (g := (p.stream.flow x).beginWrite) ok stream steps unlent outstanding
          ⟨rfl, rfl, rfl, rfl⟩ ?_ rfl apart memory
        exact .writes rfl rfl rfl
      · obtain rfl := Option.some.inj (has.symm.trans has')
        rw [SessionBuffers.content, content]
        exact (ok.follows x).fits

/-- Whatever the sessions and the sockets do next, the memory for it is there. -/
theorem step_follows (growth : Growth) (ok : Ok p) {a : ProxyStream.Action}
    (taken : (ProxyStream.machine zeros).next p.stream a = some q) :
    ∃ t, (SessionBuffers.machine growth).run p.buffers (p.calls a) = some t ∧ Ok ⟨q, t⟩ := by
  have stream := ProxyStream.ok_next ok.stream taken
  have steps := ProxyStream.next_pair taken
  cases a with
  | start x | stop x | emit x =>
    obtain ⟨pair, stepped, rfl⟩ := ProxyStream.advance_some.mp taken
    simp only [ProxyPair.machine, Option.ite_none_right_eq_some, Option.some.injEq] at stepped
    obtain ⟨-, rfl⟩ := stepped
    exact ⟨p.buffers, rfl, quiet_ok ok stream steps rfl fun _ => rfl⟩
  | release x =>
    simp only [ProxyStream.machine] at taken
    obtain ⟨pair, stepped, rfl⟩ := ProxyStream.advance_some.mp taken
    cases stepped
    exact ⟨p.buffers, rfl, quiet_ok ok stream steps rfl fun _ => rfl⟩
  | prepared x failure =>
    simp only [ProxyStream.machine, Option.ite_none_right_eq_some] at taken
    obtain ⟨phase, taken⟩ := taken
    obtain ⟨-, rfl⟩ := ProxyStream.complete_some taken
    refine ⟨p.buffers, rfl, quiet_ok ok stream steps rfl fun y => ?_⟩
    obtain ⟨idle, apart⟩ := complete_ops p.stream.pair x failure
    by_cases same : y = x
    · rw [same, idle, (ok.stream.pair.sessions x).ops, ProxyDataSession.outstanding, phase]
      split <;> rfl
    · exact apart y same
  | readDone x bytes =>
    simp only [ProxyStream.machine, Option.ite_none_right_eq_some] at taken
    obtain ⟨⟨under, fits⟩, taken⟩ := taken
    obtain ⟨-, rfl⟩ := ProxyStream.complete_some taken
    exact filled_ok ok under fits stream steps
  | readFailed x e =>
    simp only [ProxyStream.machine, Option.ite_none_right_eq_some] at taken
    obtain ⟨under, taken⟩ := taken
    obtain ⟨-, rfl⟩ := ProxyStream.complete_some taken
    obtain ⟨op, mine, -⟩ := read_lent (opsOf_reading ok.stream.pair under ▸ ok.follows x)
    rw [← ProxyStream.setFlow_self p.stream x] at stream ⊢
    exact finished_ok ok mine ⟨rfl, rfl, rfl, rfl⟩ stream steps
  | progress x n =>
    simp only [ProxyStream.machine, Option.ite_none_right_eq_some, Option.map_eq_some_iff] at taken
    obtain ⟨under, f, progressed, rfl⟩ := taken
    exact drained_ok ok under progressed stream
  | writeDone x =>
    simp only [ProxyStream.machine, Option.ite_none_right_eq_some] at taken
    obtain ⟨⟨under, -⟩, taken⟩ := taken
    obtain ⟨-, rfl⟩ := ProxyStream.complete_some taken
    obtain ⟨op, mine, -⟩ := write_lent (opsOf_writing ok.stream.pair under ▸ ok.follows x)
    exact finished_ok ok mine ⟨rfl, rfl, rfl, rfl⟩ stream steps
  | writeFailed x e =>
    simp only [ProxyStream.machine, Option.ite_none_right_eq_some] at taken
    obtain ⟨under, taken⟩ := taken
    obtain ⟨-, rfl⟩ := ProxyStream.complete_some taken
    obtain ⟨op, mine, -⟩ := write_lent (opsOf_writing ok.stream.pair under ▸ ok.follows x)
    exact finished_ok ok mine ⟨rfl, rfl, rfl, rfl⟩ stream steps
  | run x =>
    obtain ⟨pair, stepped, rfl⟩ := ProxyStream.advance_some.mp taken
    exact ran_ok ok stepped stream

theorem release_ended (s : SessionBuffers) (b : BufferRef) : (s.release b).ended = s.ended := by
  unfold SessionBuffers.release
  split <;> rfl

theorem kept_release {b : BufferRef} (ok : s.Ok) (kept : Kept s x f) (reads : b ≠ reader x)
    (writes : b ≠ writer x) : Kept (s.release b) x f := by
  obtain ⟨⟨v, has, size, content⟩, w, owns⟩ := kept
  cases there : s.buffer b with
  | none =>
    rw [SessionBuffers.release_none there]
    exact ⟨⟨v, has, size, content⟩, w, owns⟩
  | some u =>
    rw [SessionBuffers.release_some there]
    have elsewhere : v.block ≠ u.block := fun same => reads (ok.apart _ _ u v there has same.symm)
    exact ⟨⟨v, (Function.update_of_ne (Ne.symm reads) _ _).trans has, size,
      (Blocks.free_other elsewhere).trans content⟩, w, (Function.update_of_ne (Ne.symm writes) _ _).trans owns⟩

theorem destroy_ok (ok : Ok p) (lost : p.stream.pair.alive x = false)
    (taken : (SessionBuffers.machine growth).next p.buffers (.destroy (number x)) = some t) :
    Ok ⟨p.stream, t⟩ := by
  obtain ⟨memory, safely⟩ := SessionBuffers.buffers_next ok.buffers taken
  have inactive := (ProxyPair.alive_false.mp lost).2.2.1
  have idle : p.stream.pair.opsOf x = [] := by
    rw [(ok.stream.pair.sessions x).ops, ProxyDataSession.outstanding, if_neg]
    simp [ProxyDataSession.suspended, inactive]
  have unlent := none_lent (idle ▸ ok.follows x)
  have unused : p.buffers.Unused (reader x) ∧ p.buffers.Unused (writer x) := by
    refine ⟨fun op member same => ?_, fun op member same => ?_⟩
    · have mine := mem_lent.mpr ⟨member, same⟩
      rw [unlent] at mine
      cases mine
    · obtain ⟨y, own⟩ := ok.only op member
      exact reader_ne_writer y x (own.symm.trans same)
  have safe := (safely ok.safe).mpr unused
  cases taken
  have ops : ((p.buffers.release (writer x)).release (reader x)).ops = p.buffers.ops := by
    rw [SessionBuffers.release_ops, SessionBuffers.release_ops]
  have ended : ((p.buffers.release (writer x)).release (reader x)).ended = p.buffers.ended := by
    rw [release_ended, release_ended]
  refine ⟨ok.stream, memory, safe, fun y => ?_, fun y alive => ?_, fun op member => ok.only op (ops ▸ member)⟩
  · exact follows_congr (ok.follows y) (congrArg _ ops) (congrArg _ ended)
  · have other : x ≠ y := by
      intro same
      rw [← same, lost] at alive
      cases alive
    have reads : reader x ≠ reader y := fun same => other (reader_inj same)
    have writes : writer x ≠ writer y := by
      intro same
      cases x <;> cases y <;> first | exact other rfl | cases same
    have first := kept_release ok.buffers (ok.kept y alive) (Ne.symm (reader_ne_writer y x)) writes
    exact kept_release (SessionBuffers.release_ok ok.buffers _) first reads (reader_ne_writer x y)

theorem ok_next {p q : ProxyMemory} {a : Action} (ok : Ok p) (taken : (machine growth).next p a = some q) :
    Ok q := by
  cases a with
  | step a =>
    obtain ⟨stream, stepped, taken⟩ := Option.bind_eq_some_iff.mp taken
    obtain ⟨t, ran, after⟩ := step_follows growth ok stepped
    rw [ran] at taken
    cases taken
    exact after
  | destroy x =>
    simp only [machine] at taken
    split at taken
    · cases taken
    · rename_i lost
      obtain ⟨t, released, rfl⟩ := Option.map_eq_some_iff.mp taken
      exact destroy_ok ok (by simpa using lost) released

section

-- the buffers are not to be written out
attribute [local irreducible] defaultBufferSize

theorem constructed_runs (growth : Growth) : (SessionBuffers.machine growth).run
    (SessionBuffers.machine growth).initial [.construct 0, .construct 1] = some constructed := rfl

theorem initial_kept (x : Side) : Kept constructed x (.new (zeros x)) := by
  cases x <;> exact ⟨⟨_, rfl, rfl, rfl⟩, _, rfl⟩

end

theorem ok_initial (growth : Growth) : Ok (machine growth).initial := by
  obtain ⟨ok, safe⟩ := safe_run .initial (fun _ member => by cases member) (constructed_runs growth)
    fun _ _ => ⟨trivial, fun _ _ => ⟨trivial, trivial⟩⟩
  refine ⟨ProxyStream.initial_ok zeros, ok, safe, fun x => ?_, fun x _ => initial_kept x,
    fun _ member => by cases member⟩
  exact ⟨.idle, rfl, rfl, List.length_replicate, Nat.zero_le _, fun _ member => by cases member⟩

/-- No operation has memory that is gone, no step is kept back by memory, and what the sockets take
    out of the memory of a reader for the other session is what they have put into it, in order, but
    for less than a buffer; nothing is missing once the loop has ended on a read. -/
structure Relays (growth : Growth) (p : ProxyMemory) : Prop where
  safe : Safe p.buffers
  follows : ∀ a q, (ProxyStream.machine zeros).next p.stream a = some q →
    ∃ t, (machine growth).next p (.step a) = some ⟨q, t⟩
  relayed : ∀ x, ∃ rest, received p.buffers x = sent p.buffers x ++ rest ∧ rest.length ≤ defaultBufferSize
  ended : ∀ x, (p.stream.pair.session x).phase.isOver = true → (p.stream.pair.session x).state = .read →
    sent p.buffers x = received p.buffers x

theorem Ok.relays (growth : Growth) (ok : Ok p) : Relays growth p := by
  refine ⟨ok.safe, fun a q taken => ?_, fun x => ?_, fun x isOver read => ?_⟩
  · obtain ⟨t, ran, -⟩ := step_follows growth ok taken
    exact ⟨t, by simp only [machine, taken, Option.bind_some, ran, Option.map_some]⟩
  · obtain ⟨rest, whole, place⟩ := ok.stream.exact.missing x
    refine ⟨rest, by rw [(ok.follows x).received, (ok.follows x).sent, whole], ?_⟩
    rcases place with rfl | ⟨last, final, inside⟩
    · exact Nat.zero_le _
    · exact inside.length_le.trans ((ok.follows x).chunks last (List.mem_of_getLast? final))
  · rw [(ok.follows x).received, (ok.follows x).sent]
    exact ok.stream.exact.ended x isOver read

/-- However two linked sessions run and whenever they are destroyed once nobody owns them, their
    memory relays the bytes. -/
theorem memory_relays (growth : Growth) (as : List Action) :
    (machine growth).Visits (Relays growth) (machine growth).initial as := by
  refine Machine.visits_iff.mpr fun bs _ p _ ran => ?_
  have ok : Ok p := Machine.Reachable.invariant (I := Ok) (ok_initial growth)
    (fun _ _ _ ok taken => ok_next ok taken) ⟨bs, ran⟩
  exact ok.relays growth

end ProxyMemory

end BoostBase
