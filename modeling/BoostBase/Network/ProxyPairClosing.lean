import BoostBase.Network.ProxyPairInvariant

namespace BoostBase

open Asio Transition LastOut

namespace ProxyDataSession

variable {x : ProxyDataSession} {otherAlive : Bool}

/-- A handler that neither ends a loop nor takes in a notice. -/
structure Quiet (x : ProxyDataSession) (o : Output) : Prop where
  finished : o.own.phase.finished = x.phase.finished
  notices : o.own.notices = x.notices
  otherDone : o.own.otherDone = x.otherDone
  toOther : o.toOther.countP isNotice = 0
  closing : o.closing = false

structure Leaves (x : ProxyDataSession) (o : Output) : Prop where
  inside : x.phase.finished = false
  finished : o.own.phase.finished = true
  notices : o.own.notices = x.notices
  otherDone : o.own.otherDone = x.otherDone
  toOther : o.toOther.countP isNotice = if x.otherDone then 0 else 1
  closing : o.closing = x.otherDone

theorem emit_phase (x : ProxyDataSession) : x.emit.phase = x.phase := by
  unfold emit
  split <;> rfl

theorem emit_strand (x : ProxyDataSession) : x.emit.strand = x.strand := by
  unfold emit
  split <;> rfl

theorem emit_otherDone (x : ProxyDataSession) : x.emit.otherDone = x.otherDone := by
  unfold emit
  split <;> rfl

theorem stopBody_quiet (x : ProxyDataSession) (otherAlive : Bool) :
    Quiet x (x.stopBody otherAlive) := by
  unfold stopBody
  split
  · exact ⟨rfl, rfl, rfl, rfl, rfl⟩
  · refine ⟨congrArg _ (emit_phase _), congrArg (List.countP isNotice) (emit_strand _),
      emit_otherDone _, ?_, rfl⟩
    dsimp only
    split <;> rfl

theorem startBody_quiet (placed : x.Placed) : Quiet x (quietly x.startBody) := by
  unfold startBody
  split
  · exact ⟨rfl, rfl, rfl, rfl, rfl⟩
  · rename_i entered
    have idle := placed.idle (CoroutineTask.enter_ok.mp entered).1
    exact ⟨by simp [quietly, idle, SessionPhase.finished], rfl, rfl, rfl, rfl⟩

theorem endRun_quiet (active : x.phase.active = true) (e : Option Exception) :
    Quiet x (quietly (x.endRun false e)) := by
  refine ⟨?_, endRun_countP isNotice rfl x false e, ?_, rfl, rfl⟩
  · cases phase : x.phase <;> simp_all [SessionPhase.active, SessionPhase.finished, quietly, endRun]
  · simp only [quietly, endRun]
    split <;> rfl

theorem endWork_leaves (active : x.phase.active = true) (state : ProxyState) (e : Option Exception) :
    Leaves x (({ x with state := state } : ProxyDataSession).endWork e) := by
  refine ⟨?_, rfl, endRun_countP isNotice rfl _ true e, ?_, ?_, rfl⟩
  · cases phase : x.phase <;> simp_all [SessionPhase.active, SessionPhase.finished]
  · simp only [endWork, endRun]
    split <;> rfl
  · simp only [endWork]
    split <;> rfl

theorem resume_room (active : x.phase.active = true) (failure : Option Exception) :
    Quiet x (x.resume otherAlive failure) ∨ Leaves x (x.resume otherAlive failure) := by
  have cases := resume_cases active otherAlive failure
  have inside : x.phase.finished = false := by
    cases phase : x.phase <;> simp_all [SessionPhase.active, SessionPhase.finished]
  revert cases
  generalize x.resume otherAlive failure = o
  intro cases
  cases cases with
  | reads | writes => exact .inl ⟨inside.symm, rfl, rfl, rfl, rfl⟩
  | unprepared | preparedLate | alone => exact .inl (endRun_quiet active _)
  | loopOver | readFails | writeFails => exact .inr (endWork_leaves active x.state _)
  | readCancelled => exact .inr (endWork_leaves active .read _)
  | writeCancelled => exact .inr (endWork_leaves active .write _)

end ProxyDataSession

namespace ProxyPair

open ProxyDataSession

variable {p q : ProxyPair} {x : Side}

/-- The pair as two parties that leave a room. -/
def room (p : ProxyPair) : Room where
  out x := (p.session x).phase.finished
  inbox x := (p.session x).notices
  told x := (p.session x).otherDone
  closers := p.closers

theorem room_congr (sessions : ∀ y, (q.session y).phase.finished = (p.session y).phase.finished ∧
      (q.session y).notices = (p.session y).notices ∧
      (q.session y).otherDone = (p.session y).otherDone)
    (closers : q.closers = p.closers) : q.room = p.room := by
  simp only [room, Room.mk.injEq]
  exact ⟨funext fun y => (sessions y).1, funext fun y => (sessions y).2.1,
    funext fun y => (sessions y).2.2, closers⟩

theorem post_room (p : ProxyPair) (x : Side) {h : SessionHandler} (other : isNotice h = false) :
    (p.post x h).room = p.room := by
  refine room_congr (fun y => ?_) rfl
  rw [post_session]
  split
  · exact ⟨rfl, by simp [notices, ProxyDataSession.post, other], rfl⟩
  · exact ⟨rfl, rfl, rfl⟩

theorem apply_quiet {o : Output} (quiet : Quiet (p.session x) o) : (p.apply x o).room = p.room := by
  refine room_congr ?_ (by simp [apply, quiet.closing])
  rw [Side.forall_iff x, apply_session, apply_other]
  refine ⟨⟨quiet.finished, quiet.notices, quiet.otherDone⟩, rfl, ?_, rfl⟩
  simp [notices, List.countP_append, quiet.toOther]

theorem apply_leaves {o : Output} (leaves : Leaves (p.session x) o) :
    LastOut.room.next p.room (.leave x) = some (p.apply x o).room := by
  have out : Function.update p.room.out x true = (p.apply x o).room.out := by
    refine funext ((Side.forall_iff x).mpr ⟨?_, ?_⟩)
    · simp [room, apply_session, leaves.finished]
    · simp [room, apply_other]
  have told : p.room.told = (p.apply x o).room.told := by
    refine funext ((Side.forall_iff x).mpr ⟨?_, ?_⟩)
    · simp [room, apply_session, leaves.otherDone]
    · simp [room, apply_other]
  have here : (p.apply x o).room.inbox x = p.room.inbox x := by
    simp [room, apply_session, leaves.notices]
  have there : (p.apply x o).room.inbox x.other =
      p.room.inbox x.other + o.toOther.countP isNotice := by
    simp [room, apply_other, notices, List.countP_append]
  have inside : p.room.out x = false := leaves.inside
  simp only [LastOut.room, inside, Bool.false_eq_true, if_false]
  cases known : (p.session x).otherDone with
  | true =>
    have closers : (p.apply x o).room.closers = p.room.closers ++ [x] := by
      simp [room, apply, leaves.closing, known]
    have inbox : p.room.inbox = (p.apply x o).room.inbox := by
      refine funext ((Side.forall_iff x).mpr ⟨here.symm, ?_⟩)
      rw [there, leaves.toOther, known]
      rfl
    have knows : p.room.told x = true := known
    rw [if_pos knows, out, told, inbox, ← closers]
  | false =>
    have closers : (p.apply x o).room.closers = p.room.closers := by
      simp [room, apply, leaves.closing, known]
    have inbox : Function.update p.room.inbox x.other (p.room.inbox x.other + 1) =
        (p.apply x o).room.inbox := by
      refine funext ((Side.forall_iff x).mpr ⟨?_, ?_⟩)
      · rw [Function.update_of_ne (Side.ne_other x), here]
      · rw [Function.update_self, there, leaves.toOther, known]
        rfl
    have unknown : ¬ p.room.told x = true := by simp [room, known]
    rw [if_neg unknown, out, told, inbox, ← closers]

theorem popped_room {h : SessionHandler} {rest : List SessionHandler}
    (head : (p.session x).strand = h :: rest) (other : isNotice h = false) :
    (p.popped x rest).room = p.room := by
  refine room_congr (fun y => ?_) rfl
  by_cases same : y = x
  · subst same
    simp [popped, setSession, notices, head, other]
  · simp [popped, setSession, same]

theorem notice_room {lastState : ProxyState} {rest : List SessionHandler}
    (head : (p.session x).strand = .otherDone lastState :: rest) :
    LastOut.room.next p.room (.deliver x) = some ((p.popped x rest).apply x
      (quietly (({ p.session x with strand := rest } : ProxyDataSession).otherDoneBody lastState))).room := by
  have waiting : (p.session x).notices = rest.countP isNotice + 1 := by
    rw [notices, head, List.countP_cons_of_pos rfl]
  have body : (({ p.session x with strand := rest } : ProxyDataSession).otherDoneBody lastState).notices =
      rest.countP isNotice := by
    unfold otherDoneBody
    dsimp only
    split
    · simp [notices, ProxyDataSession.post, isNotice]
    · rfl
  have finished : (({ p.session x with strand := rest } : ProxyDataSession).otherDoneBody
      lastState).phase = (p.session x).phase := by
    unfold otherDoneBody
    dsimp only
    split <;> rfl
  have other : (p.popped x rest).session x.other = p.session x.other := by
    simp [popped, setSession]
  have pending : 0 < p.room.inbox x := by
    simp [room, waiting]
  simp only [LastOut.room, if_pos pending, Option.some.injEq]
  simp only [room, Room.mk.injEq]
  refine ⟨funext ((Side.forall_iff x).mpr ⟨?_, ?_⟩), funext ((Side.forall_iff x).mpr ⟨?_, ?_⟩),
    funext ((Side.forall_iff x).mpr ⟨?_, ?_⟩), rfl⟩
  · rw [apply_session]
    exact congrArg _ finished.symm
  · rw [apply_other, other]
  · rw [Function.update_self, apply_session, waiting]
    exact body.symm
  · rw [Function.update_of_ne (Side.other_ne x), apply_other, other]
    simp [notices, quietly]
  · rw [Function.update_self, apply_session]
    rfl
  · rw [Function.update_of_ne (Side.other_ne x), apply_other, other]

/-- A step of the pair is a step of the room or goes on inside. -/
theorem room_steps (ok : PairOk p) {a : Action} (taken : machine.next p a = some q) :
    LastOut.room.Steps p.room q.room := by
  cases a with
  | start x =>
    simp only [machine] at taken
    split at taken
    · cases taken
      have same : (p.start x).room = p.room := post_room p x (h := .start) rfl
      exact same ▸ .refl _
    · cases taken
  | stop x =>
    simp only [machine] at taken
    split at taken
    · cases taken
      exact post_room p x (h := .stop) rfl ▸ .refl _
    · cases taken
  | emit x =>
    simp only [machine] at taken
    split at taken
    · cases taken
      exact post_room p x (h := .emit) rfl ▸ .refl _
    · cases taken
  | release x =>
    cases taken
    exact .refl _
  | complete x failure =>
    simp only [machine] at taken
    split at taken
    · cases taken
      have same : (p.complete x failure).room = p.room := post_room p x (h := .resume failure) rfl
      exact same ▸ .refl _
    · cases taken
  | run x =>
    obtain ⟨h, rest, head, rfl⟩ := runHead_cases taken
    have here : (p.popped x rest).session x = { p.session x with strand := rest } := by
      simp [popped, setSession]
    have within {o : Output} (other : isNotice h = false) (quiet : Quiet ((p.popped x rest).session x) o) :
        LastOut.room.Steps p.room ((p.popped x rest).apply x o).room := by
      rw [apply_quiet quiet, popped_room head other]
      exact .refl _
    cases h with
    | start =>
      apply within rfl
      rw [here]
      exact startBody_quiet (ok.sessions x).placed
    | stop => exact within rfl (here ▸ stopBody_quiet _ _)
    | emit =>
      refine within rfl (here ▸ ⟨congrArg _ (emit_phase _), congrArg (List.countP isNotice) (emit_strand _),
        emit_otherDone _, rfl, rfl⟩)
    | otherDone lastState => exact .single (notice_room head)
    | resume failure =>
      have active := (resume_ok (ok.sessions x) head false).1
      rcases resume_room (x := { p.session x with strand := rest }) active failure with quiet | leaves
      · exact within rfl (here ▸ quiet)
      · refine .single (a := .leave x) ?_
        rw [← popped_room head rfl]
        apply apply_leaves
        rw [here]
        exact leaves

def toRoom : Simulation machine LastOut.room where
  abs := room
  starts := rfl
  follows _ _ _ reached taken := room_steps (pairOk reached) taken

theorem settled (reached : machine.Reachable p) : Settled p.room :=
  LastOut.settled (toRoom.reachable reached)

theorem outstanding_le (side : Side) (x : ProxyDataSession) : (x.outstanding side).length ≤ 1 := by
  unfold outstanding
  split
  · split <;> simp
  · simp

def issuerOf (kind : SocketOpKind) (socket : Side) : Side :=
  match kind with
  | .read => socket
  | .write => socket.other

theorem PairOk.issuer (ok : PairOk p) {op : SocketOp} (pending : op ∈ p.ops) :
    op.issuer = issuerOf op.kind op.socket := by
  have own : op ∈ p.opsOf op.issuer := List.mem_filter.mpr ⟨pending, by simp⟩
  rw [(ok.sessions op.issuer).ops] at own
  unfold outstanding at own
  split at own
  · split at own
    · have same := List.mem_singleton.mp own
      rw [congrArg SocketOp.kind same, congrArg SocketOp.socket same]
      rfl
    · have same := List.mem_singleton.mp own
      rw [congrArg SocketOp.kind same, congrArg SocketOp.socket same]
      exact (Side.other_other _).symm
    · cases own
  · cases own

theorem PairOk.ops_nil (ok : PairOk p) (none_left : ∀ x, (p.session x).outstanding x = []) :
    p.ops = [] := by
  rw [List.eq_nil_iff_forall_not_mem]
  intro op pending
  have own : op ∈ p.opsOf op.issuer := List.mem_filter.mpr ⟨pending, by simp⟩
  rw [(ok.sessions op.issuer).ops, none_left] at own
  cases own

theorem outstanding_finished (finished : (p.session x).phase.finished = true) :
    (p.session x).outstanding x = [] := by
  unfold outstanding suspended
  cases phase : (p.session x).phase <;> simp_all [SessionPhase.finished, SessionPhase.active]

structure UsedAlone (p : ProxyPair) : Prop where
  ended : p.closers ≠ [] → ∀ x, (p.session x).phase.finished = true
  unused : p.closers ≠ [] → p.ops = []
  single : p.closers.length ≤ 1
  closes : ∀ x, p.closes x = p.closers.length
  ops : ∀ kind socket, (p.ops.countP fun op => op.kind = kind ∧ op.socket = socket) ≤ 1

theorem usedAlone (reached : machine.Reachable p) : UsedAlone p := by
  have ok := pairOk reached
  have settled := settled reached
  refine ⟨settled.closed, fun closed => ?_, settled.single, ok.closes, fun kind socket => ?_⟩
  · exact ok.ops_nil fun x => outstanding_finished (settled.closed closed x)
  · calc (p.ops.countP fun op => op.kind = kind ∧ op.socket = socket)
        ≤ p.ops.countP fun op => op.issuer = issuerOf kind socket := by
          refine List.countP_mono_left fun op pending same => ?_
          simp only [decide_eq_true_eq] at same ⊢
          rw [ok.issuer pending, same.1, same.2]
      _ = (p.opsOf (issuerOf kind socket)).length := List.countP_eq_length_filter
      _ ≤ 1 := by
          rw [(ok.sessions _).ops]
          exact outstanding_le _ _

/-- The sockets are closed by a loop that ends, after the other, with no operation of the
    pair left. -/
def ClosesLast (p : ProxyPair) (a : Action) (q : ProxyPair) : Prop :=
  q.closes ≠ p.closes → ∃ x, a = .run x ∧ (p.session x.other).phase.finished = true ∧
    (q.session x).phase.finished = true ∧ p.ops = [] ∧ q.ops = []

theorem execute_closing {s : ProxyDataSession} {otherAlive : Bool} {h : SessionHandler}
    (closing : (s.execute otherAlive h).closing = true) :
    (∃ failure, h = .resume failure) ∧ (s.execute otherAlive h).own.phase.finished = true := by
  cases h with
  | start | emit | otherDone _ => cases closing
  | stop =>
    simp only [execute, stopBody] at closing
    split at closing <;> cases closing
  | resume failure =>
    refine ⟨⟨failure, rfl⟩, ?_⟩
    simp only [execute] at closing ⊢
    cases active : s.phase.active with
    | false =>
      unfold resume at closing
      cases phase : s.phase <;> simp_all [SessionPhase.active, quietly]
    | true =>
      rcases resume_room active failure with quiet | leaves
      · rw [quiet.closing] at closing
        cases closing
      · exact leaves.finished

theorem closesLast (reached : machine.Reachable p) {a : Action} (taken : machine.next p a = some q) :
    ClosesLast p a q := by
  intro closed
  have after := usedAlone (reached.step taken)
  have ok := pairOk reached
  cases a with
  | start x | stop x | emit x | complete x failure =>
    simp only [machine] at taken
    split at taken
    · cases taken
      exact absurd rfl closed
    · cases taken
  | release x =>
    cases taken
    exact absurd rfl closed
  | run x =>
    obtain ⟨h, rest, head, rfl⟩ := runHead_cases taken
    have closing : (({ p.session x with strand := rest } : ProxyDataSession).execute
        ((p.popped x rest).alive x.other) h).closing = true := by
      by_contra open_
      apply closed
      simp only [apply, if_neg open_]
      rfl
    obtain ⟨⟨failure, rfl⟩, finished⟩ := execute_closing closing
    have ended := after.ended (by simp [apply, closing])
    have other : (p.session x.other).phase.finished = true := by
      have still := ended x.other
      rw [apply_other] at still
      simpa [popped, setSession] using still
    refine ⟨x, rfl, other, ended x, ok.ops_nil ?_, after.unused (by simp [apply, closing])⟩
    rw [Side.forall_iff x]
    refine ⟨outstanding_resumed x ?_, outstanding_finished other⟩
    simp [resumes, head, resumed]

/-- In every run the sockets are closed by at most one session, when both loops have
    ended, and each socket has at most one read and one write outstanding. -/
theorem closes_after_use (as : List Action) :
    machine.Visits UsedAlone machine.initial as ∧ machine.Always ClosesLast machine.initial as := by
  refine ⟨Machine.visits_iff.mpr fun bs _ p _ ran => usedAlone ⟨bs, ran⟩, ?_⟩
  exact Machine.always_of_invariant (I := machine.Reachable) (fun _ _ _ reached taken => reached.step taken)
    (fun _ _ _ reached taken => closesLast reached taken) .initial as

end ProxyPair

end BoostBase
