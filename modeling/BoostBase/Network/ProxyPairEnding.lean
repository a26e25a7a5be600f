import BoostBase.Network.ProxyPairClosing

namespace BoostBase

open Asio Transition LastOut

namespace ProxyDataSession

variable {s : ProxyDataSession}

/-- The loop of `work` does not suspend again after this resumption. -/
def loopEnds (s : ProxyDataSession) (failure : Option Exception) : Bool :=
  match s.phase with
  | .preparing => !s.task.running || s.otherDone
  | .reading => failure.isSome || s.cancelled
  | .writing => failure.isSome || s.cancelled || !s.task.running || s.otherDone
  | .idle | .ended _ _ => false

/-- A handler that lets the pair close its sockets in the end: no stop comes before the
    start, the socket starts and the other session is still there, and a loop ends only
    after the notices it was sent have been handled. -/
def InTurn (s : ProxyDataSession) (otherAlive : Bool) (rest : List SessionHandler) :
    SessionHandler → Prop
  | .stop => s.phase ≠ .idle
  | .resume failure =>
    (s.phase = .preparing → failure = none ∧ s.cancelled = false ∧ otherAlive = true) ∧
      (s.loopEnds failure = true → rest.countP isNotice = 0)
  | .start | .emit | .otherDone _ => True

def OnCourse (s : ProxyDataSession) : Prop :=
  match s.phase with
  | .idle => s.task.state = .initial
  | .ended worked _ => worked = true
  | .preparing | .reading | .writing => True

theorem onCourse_active (active : s.phase.active = true) : s.OnCourse := by
  unfold OnCourse
  cases phase : s.phase <;> simp_all [SessionPhase.active]

theorem onCourse_finished (finished : s.phase.finished = true) : s.OnCourse := by
  unfold SessionPhase.finished at finished
  unfold OnCourse
  split at finished <;> simp_all

theorem resume_ends (active : s.phase.active = true) (otherAlive : Bool)
    (failure : Option Exception) :
    let prepared := s.phase = .preparing → failure = none ∧ s.cancelled = false ∧ otherAlive = true
    (s.resume otherAlive failure).own.phase.active = true ∧
        (s.resume otherAlive failure).closing = false ∧ prepared ∧ s.loopEnds failure = false ∨
      (∃ e, (s.resume otherAlive failure).own.phase = .ended false e) ∧
        (s.resume otherAlive failure).closing = false ∧ ¬ prepared ∨
      Leaves s (s.resume otherAlive failure) ∧ prepared ∧ s.loopEnds failure = true := by
  intro prepared
  have cases := resume_cases active otherAlive failure
  revert cases
  generalize s.resume otherAlive failure = o
  intro cases
  cases cases with
  | reads before running untold live =>
    refine .inl ⟨rfl, rfl, ?_, ?_⟩
    · rcases before with ⟨_, lives⟩ | writing
      · exact fun _ => ⟨rfl, live, lives⟩
      · exact fun preparing => by simp [writing] at preparing
    · rcases before with ⟨preparing, _⟩ | writing
      · simp [loopEnds, preparing, running, untold]
      · simp [loopEnds, writing, running, untold, live]
  | writes before live =>
    exact .inl ⟨rfl, rfl, fun preparing => (by simp [before] at preparing),
      by simp [loopEnds, before, live]⟩
  | unprepared before e =>
    exact .inr (.inl ⟨⟨_, rfl⟩, rfl, fun prepared => (by simpa using prepared before)⟩)
  | preparedLate before cancelled =>
    exact .inr (.inl ⟨⟨_, rfl⟩, rfl, fun prepared => (by simpa [cancelled] using prepared before)⟩)
  | alone before live lost =>
    exact .inr (.inl ⟨⟨_, rfl⟩, rfl, fun prepared => (by simpa [lost] using prepared before)⟩)
  | loopOver before last =>
    refine .inr (.inr ⟨endWork_leaves active s.state _, ?_, ?_⟩)
    · rcases before with ⟨_, live, lives⟩ | writing
      · exact fun _ => ⟨rfl, live, lives⟩
      · exact fun preparing => by simp [writing] at preparing
    · rcases before with ⟨preparing, _, _⟩ | writing
      · rcases last with stopped | told <;> simp [loopEnds, *]
      · rcases last with stopped | told <;> simp [loopEnds, *]
  | readCancelled before running untold cancelled =>
    exact .inr (.inr ⟨endWork_leaves active .read _, fun preparing => (by simp [before] at preparing),
      by simp [loopEnds, before, cancelled]⟩)
  | writeCancelled before cancelled =>
    exact .inr (.inr ⟨endWork_leaves active .write _, fun preparing => (by simp [before] at preparing),
      by simp [loopEnds, before, cancelled]⟩)
  | readFails before e | writeFails before e =>
    exact .inr (.inr ⟨endWork_leaves active s.state _, fun preparing => (by simp [before] at preparing),
      by simp [loopEnds, before]⟩)

theorem startBody_onCourse (placed : s.Placed) : s.startBody.OnCourse ↔ s.OnCourse := by
  unfold startBody
  split
  · exact Iff.rfl
  · rename_i entered
    have fresh := (CoroutineTask.enter_ok.mp entered).1
    simp [OnCourse, placed.idle fresh, fresh]

theorem emit_onCourse : s.emit.OnCourse ↔ s.OnCourse := by
  unfold emit
  split <;> exact Iff.rfl

theorem otherDoneBody_onCourse (lastState : ProxyState) :
    (s.otherDoneBody lastState).OnCourse ↔ s.OnCourse := by
  unfold otherDoneBody
  dsimp only
  split <;> exact Iff.rfl

theorem stopBody_onCourse (otherAlive : Bool) :
    (s.stopBody otherAlive).own.OnCourse ↔ s.OnCourse ∧ s.phase ≠ .idle := by
  unfold stopBody
  split
  · rename_i stopped
    have state := CoroutineTask.stopEntry_none.mp stopped
    unfold OnCourse quietly
    cases phase : s.phase <;> simp [state]
  · rename_i task entry
    obtain ⟨_, rfl⟩ := CoroutineTask.stopEntry_some.mp entry
    dsimp only
    rw [emit_onCourse]
    unfold OnCourse
    cases phase : s.phase <;> simp

end ProxyDataSession

namespace ProxyPair

open ProxyDataSession

variable {p q : ProxyPair} {x : Side}

def Quiescent (p : ProxyPair) : Prop :=
  ∀ x, (p.session x).strand = [] ∧ (p.session x).phase.active = false

/-- Both sessions end through `work`, and the sockets are closed when both have. -/
structure OnCourse (p : ProxyPair) : Prop where
  sessions : ∀ x, (p.session x).OnCourse
  closed : (∀ x, (p.session x).phase.finished = true) → p.closers ≠ []

def RunsInTurn (p : ProxyPair) (a : Action) (_ : ProxyPair) : Prop :=
  ∀ x h rest, a = .run x → (p.session x).strand = h :: rest →
    (p.session x).InTurn (p.alive x.other) rest h

theorem onCourse_congr (sessions : ∀ x, (q.session x).phase = (p.session x).phase ∧
      (q.session x).task = (p.session x).task) (closers : q.closers = p.closers) :
    q.OnCourse ↔ p.OnCourse := by
  have own (x : Side) : (q.session x).OnCourse ↔ (p.session x).OnCourse := by
    unfold ProxyDataSession.OnCourse
    rw [(sessions x).1, (sessions x).2]
  have ended : (∀ x, (q.session x).phase.finished = true) ↔
      ∀ x, (p.session x).phase.finished = true :=
    forall_congr' fun x => by rw [(sessions x).1]
  constructor
  · intro both
    rcases both with ⟨good, closed⟩
    exact ⟨fun x => (own x).mp (good x), fun all => closers ▸ closed (ended.mpr all)⟩
  · intro both
    rcases both with ⟨good, closed⟩
    exact ⟨fun x => (own x).mpr (good x), fun all => closers ▸ closed (ended.mp all)⟩

theorem post_onCourse (x : Side) (h : SessionHandler) : (p.post x h).OnCourse ↔ p.OnCourse := by
  refine onCourse_congr (fun y => ?_) rfl
  rw [post_session]
  split <;> exact ⟨rfl, rfl⟩

theorem apply_onCourse {o : Output} {good : Prop}
    (finished : o.own.phase.finished = (p.session x).phase.finished) (closing : o.closing = false)
    (own : o.own.OnCourse ↔ (p.session x).OnCourse ∧ good) :
    (p.apply x o).OnCourse ↔ p.OnCourse ∧ good := by
  have closers : (p.apply x o).closers = p.closers := by simp [apply, closing]
  have ended : (∀ y, ((p.apply x o).session y).phase.finished = true) ↔
      ∀ y, (p.session y).phase.finished = true := by
    rw [Side.forall_iff x, Side.forall_iff x, apply_session, apply_other, finished]
  have there : ((p.apply x o).session x.other).OnCourse ↔ (p.session x.other).OnCourse := by
    rw [apply_other]
    exact Iff.rfl
  constructor
  · intro both
    rcases both with ⟨sessions, closed⟩
    have here := sessions x
    rw [apply_session, own] at here
    refine ⟨⟨(Side.forall_iff x).mpr ⟨here.1, there.mp (sessions x.other)⟩, fun all => ?_⟩, here.2⟩
    exact closers ▸ closed (ended.mpr all)
  · intro both
    rcases both with ⟨⟨sessions, closed⟩, met⟩
    refine ⟨(Side.forall_iff x).mpr ⟨?_, there.mpr (sessions x.other)⟩, fun all => ?_⟩
    · rw [apply_session, own]
      exact ⟨sessions x, met⟩
    · exact closers ▸ closed (ended.mp all)

theorem leaves_onCourse {o : Output} (settled : Settled p.room) (leaves : Leaves (p.session x) o) :
    (p.apply x o).OnCourse ↔
      (p.session x.other).OnCourse ∧ (p.session x).notices = 0 := by
  have inside : p.room.out x = false := leaves.inside
  have unclosed : p.closers = [] := settled.open inside
  have there : ((p.apply x o).session x.other).OnCourse ↔ (p.session x.other).OnCourse := by
    rw [apply_other]
    exact Iff.rfl
  have here : ((p.apply x o).session x).OnCourse := by
    rw [apply_session]
    exact onCourse_finished leaves.finished
  have ended : (∀ y, ((p.apply x o).session y).phase.finished = true) ↔
      (p.session x.other).phase.finished = true := by
    rw [Side.forall_iff x, apply_session, apply_other, leaves.finished]
    simp
  have closed : (p.apply x o).closers ≠ [] ↔ (p.session x).otherDone = true := by
    simp [apply, unclosed, leaves.closing]
  have whole : (p.apply x o).OnCourse ↔ (p.session x.other).OnCourse ∧
      ((p.session x.other).phase.finished = true → (p.session x).otherDone = true) := by
    constructor
    · exact fun good => ⟨there.mp (good.sessions x.other),
        fun gone => closed.mp (good.closed (ended.mpr gone))⟩
    · exact fun good => ⟨(Side.forall_iff x).mpr ⟨here, there.mpr good.1⟩,
        fun all => closed.mpr (good.2 (ended.mp all))⟩
  rw [whole]
  refine and_congr_right fun _ => ?_
  cases gone : (p.session x.other).phase.finished with
  | true =>
    have told : (p.session x).otherDone = true ↔ (p.session x).notices = 0 :=
      settled.told_iff inside gone
    simpa using told
  | false =>
    have none_sent : (p.session x).notices = 0 := (settled.inbox_empty (x := x) gone).1
    simpa using none_sent

theorem runHead_onCourse (ok : PairOk p) (settled : Settled p.room) {h : SessionHandler}
    {rest : List SessionHandler} (head : (p.session x).strand = h :: rest) :
    ((p.popped x rest).apply x (({ p.session x with strand := rest } : ProxyDataSession).execute
      ((p.popped x rest).alive x.other) h)).OnCourse ↔
      p.OnCourse ∧ (p.session x).InTurn (p.alive x.other) rest h := by
  have popped : (p.popped x rest).OnCourse ↔ p.OnCourse := by
    refine onCourse_congr ((Side.forall_iff x).mpr ⟨?_, ?_⟩) rfl
    · rw [popped_here]
      exact ⟨rfl, rfl⟩
    · rw [popped_there]
      exact ⟨rfl, rfl⟩
  have here := popped_here p x rest
  have stays {o : Output} (finished : o.own.phase.finished = (p.session x).phase.finished)
      (closing : o.closing = false)
      (own : o.own.OnCourse ↔ (p.session x).OnCourse ∧ (p.session x).InTurn (p.alive x.other) rest h) :
      ((p.popped x rest).apply x o).OnCourse ↔
        p.OnCourse ∧ (p.session x).InTurn (p.alive x.other) rest h := by
    rw [← popped]
    refine apply_onCourse ?_ closing ?_
    · rw [here]
      exact finished
    · rw [here]
      exact own
  rw [popped_alive]
  cases h with
  | start =>
    have placed : ({ p.session x with strand := rest } : ProxyDataSession).Placed :=
      (ok.sessions x).placed
    apply stays (startBody_quiet placed).finished rfl
    exact (startBody_onCourse placed).trans (and_iff_left trivial).symm
  | stop =>
    have quiet := stopBody_quiet (x := { p.session x with strand := rest }) (p.alive x.other)
    exact stays quiet.finished quiet.closing (stopBody_onCourse _)
  | emit => exact stays (congrArg _ (emit_phase _)) rfl (emit_onCourse.trans (and_iff_left trivial).symm)
  | otherDone lastState =>
    refine stays ?_ rfl ((otherDoneBody_onCourse lastState).trans (and_iff_left trivial).symm)
    simp only [execute, quietly, otherDoneBody]
    split <;> rfl
  | resume failure =>
    have active : (p.session x).phase.active = true := (resume_ok (ok.sessions x) head false).1
    have inside : (p.session x).phase.finished = false := by
      cases phase : (p.session x).phase <;> simp_all [SessionPhase.active, SessionPhase.finished]
    have before : (p.session x).OnCourse := onCourse_active active
    rcases resume_ends (s := { p.session x with strand := rest }) active (p.alive x.other)
        failure with ⟨goes, closing, prepared, going⟩ | ⟨⟨e, phase⟩, closing, unprepared⟩ |
        ⟨leaves, prepared, ends⟩
    · refine stays ?_ closing ?_
      · rw [inside]
        cases phase : (({ p.session x with strand := rest } : ProxyDataSession).resume
          (p.alive x.other) failure).own.phase <;>
            simp_all [SessionPhase.active, SessionPhase.finished, execute]
      · refine iff_of_true (onCourse_active goes) ⟨before, prepared, fun ends => ?_⟩
        exact absurd (ends.symm.trans going) (by decide)
    · refine stays ?_ closing (iff_of_false ?_ ?_)
      · simp only [execute, phase, inside]
        rfl
      · simp [ProxyDataSession.OnCourse, execute, phase]
      · exact fun both => unprepared both.2.1
    · have room : (p.popped x rest).room = p.room := popped_room head rfl
      have notices : ((p.popped x rest).session x).notices = rest.countP isNotice := by rw [here]; rfl
      have left : Leaves ((p.popped x rest).session x) (({ p.session x with strand := rest } :
          ProxyDataSession).resume (p.alive x.other) failure) := by
        rw [here]
        exact leaves
      have ended := leaves_onCourse (room ▸ settled) left
      rw [popped_there, notices] at ended
      apply ended.trans
      constructor
      · intro good
        refine ⟨⟨(Side.forall_iff x).mpr ⟨before, good.1⟩, fun all => ?_⟩, prepared, fun _ => good.2⟩
        rw [all x] at inside
        cases inside
      · exact fun good => ⟨good.1.sessions x.other, good.2.2 ends⟩

theorem onCourse_next (reached : machine.Reachable p) {a : Action}
    (taken : machine.next p a = some q) : q.OnCourse ↔ p.OnCourse ∧ RunsInTurn p a q := by
  have idly (other : ∀ x, a ≠ .run x) (same : q.OnCourse ↔ p.OnCourse) :
      q.OnCourse ↔ p.OnCourse ∧ RunsInTurn p a q :=
    same.trans (and_iff_left fun x _ _ runs => absurd runs (other x)).symm
  cases a with
  | start x =>
    simp only [machine] at taken
    split at taken
    · cases taken
      have same : (p.start x).OnCourse ↔ (p.post x .start).OnCourse :=
        onCourse_congr (fun _ => ⟨rfl, rfl⟩) rfl
      exact idly (by simp) (same.trans (post_onCourse x _))
    · cases taken
  | stop x | emit x =>
    simp only [machine] at taken
    split at taken
    · cases taken
      exact idly (by simp) (post_onCourse x _)
    · cases taken
  | release x =>
    cases taken
    exact idly (by simp) (onCourse_congr (fun _ => ⟨rfl, rfl⟩) rfl)
  | complete x failure =>
    simp only [machine] at taken
    split at taken
    · cases taken
      have same : (p.complete x failure).OnCourse ↔ (p.post x (.resume failure)).OnCourse :=
        onCourse_congr (fun _ => ⟨rfl, rfl⟩) rfl
      exact idly (by simp) (same.trans (post_onCourse x _))
    · cases taken
  | run x =>
    obtain ⟨h, rest, head, rfl⟩ := runHead_cases taken
    refine (runHead_onCourse (pairOk reached) (settled reached) head).trans (and_congr_right fun _ => ?_)
    constructor
    · rintro inTurn y k others ⟨⟩ front
      obtain ⟨rfl, rfl⟩ := List.cons.inj (head.symm.trans front)
      exact inTurn
    · exact fun inTurn => inTurn x h rest rfl head

theorem onCourse_iff {as : List Action} (ran : machine.run machine.initial as = some p) :
    p.OnCourse ↔ machine.Always RunsInTurn machine.initial as := by
  refine Machine.run_course (m := machine)
    (fun as p => p.OnCourse ↔ machine.Always RunsInTurn machine.initial as) ?_ ?_ ran
  · exact iff_of_true ⟨fun _ => rfl, fun all => (by cases all .a)⟩ trivial
  · intro as p a q before same taken
    rw [onCourse_next ⟨as, before⟩ taken, same, Machine.always_taken before taken]

/-- A session that was started has its start in the strand or has left `idle`, unless it
    was stopped before. -/
def Begun (p : ProxyPair) : Prop :=
  ∀ x, p.started x = true → (p.session x).phase = .idle → (p.session x).task.state = .initial →
    .start ∈ (p.session x).strand

theorem post_begun (begun : Begun p) (x : Side) (h : SessionHandler) : Begun (p.post x h) := by
  intro y started idle fresh
  rw [post_session] at idle fresh ⊢
  split at idle
  · rename_i same
    rw [if_pos same] at fresh ⊢
    exact List.mem_append_left _ (begun y started idle fresh)
  · rename_i same
    rw [if_neg same] at fresh ⊢
    exact begun y started idle fresh

theorem execute_begun {s t : ProxyDataSession} {h : SessionHandler} {rest : List SessionHandler}
    (executed : Executed { s with strand := rest } h t)
    (waiting : s.phase = .idle → s.task.state = .initial → .start ∈ h :: rest)
    (idle : t.phase = .idle) (fresh : t.task.state = .initial) : .start ∈ t.strand := by
  have behind (same : t.phase = s.phase) (state : t.task.state = s.task.state) (other : h ≠ .start) :
      .start ∈ t.strand := by
    rw [executed.start_mem]
    have queued := waiting (same ▸ idle) (state ▸ fresh)
    exact (List.mem_cons.mp queued).resolve_left (Ne.symm other)
  cases executed with
  | refused late => exact absurd fresh late
  | entered => cases idle
  | stops => cases fresh
  | stopped | marks | silent | told | idles => exact behind rfl rfl (by simp)
  | waits _ _ _ phase going =>
    have idle : phase = .idle := idle
    simp [idle, SessionPhase.active] at going
  | ends => cases idle

theorem begun (reached : machine.Reachable p) : Begun p := by
  obtain ⟨as, ran⟩ := reached
  refine Machine.run_history (m := machine) (fun _ p => PairOk p ∧ Begun p) ?_ ?_ ran |>.2
  · exact ⟨pairOk .initial, fun _ started => (by cases started)⟩
  · rintro _ p a q ⟨ok, before⟩ taken
    refine ⟨ok_next ok taken, ?_⟩
    cases a with
    | start x =>
      simp only [machine] at taken
      split at taken
      · cases taken
        intro y started idle fresh
        change SessionHandler.start ∈ ((p.post x .start).session y).strand
        change ((p.post x .start).session y).phase = .idle at idle
        by_cases same : y = x
        · rw [post_session, if_pos same]
          exact List.mem_append_right _ List.mem_cons_self
        · have earlier : p.started y = true := by simpa [ProxyPair.start, same] using started
          exact post_begun before x .start y earlier idle fresh
      · cases taken
    | stop x | emit x =>
      simp only [machine] at taken
      split at taken
      · cases taken
        exact post_begun before x _
      · cases taken
    | release x =>
      cases taken
      exact before
    | complete x failure =>
      simp only [machine] at taken
      split at taken
      · cases taken
        exact post_begun before x _
      · cases taken
    | run x =>
      obtain ⟨h, rest, sent, head, executed, other, _, started, _⟩ := runHead_spec taken
      unfold Begun
      rw [Side.forall_iff x, started, other]
      constructor
      · exact fun begun => execute_begun executed (head ▸ before x begun)
      · exact fun begun idle fresh => List.mem_append_left _ (before x.other begun idle fresh)

/-- A run that started both sessions and came to rest has closed both sockets if and only
    if every handler ran in turn. -/
theorem sockets_closed {as : List Action} (ran : machine.run machine.initial as = some p)
    (rest : p.Quiescent) (started : ∀ x, p.started x = true) :
    (∀ x, 0 < p.closes x) ↔ machine.Always RunsInTurn machine.initial as := by
  have reached : machine.Reachable p := ⟨as, ran⟩
  have used := usedAlone reached
  rw [← onCourse_iff ran]
  have counted : (∀ x, 0 < p.closes x) ↔ p.closers ≠ [] := by
    rw [← List.length_pos_iff]
    exact ⟨fun all => used.closes .a ▸ all .a, fun closed x => (used.closes x).symm ▸ closed⟩
  rw [counted]
  constructor
  · exact fun closed => ⟨fun x => onCourse_finished (used.ended closed x), fun _ => closed⟩
  · intro course
    refine course.closed fun x => ?_
    have begun := begun reached x (started x)
    have place := course.sessions x
    obtain ⟨drained, still⟩ := rest x
    unfold ProxyDataSession.OnCourse at place
    cases phase : (p.session x).phase with
    | idle =>
      rw [phase] at place
      simp [drained, phase, place] at begun
    | preparing | reading | writing => simp [phase, SessionPhase.active] at still
    | ended worked e =>
      rw [phase] at place
      simp only at place
      rw [place]
      rfl

/-- Session `a` reads to the end of its stream and tells `b`, which stops and closes. -/
theorem sockets_closed_in_turn :
    machine.Always RunsInTurn machine.initial
      [.start .a, .start .b, .run .a, .run .b, .complete .a none, .complete .b none, .run .a, .run .b,
        .complete .a (some (.systemError (.other 2))), .run .a, .run .b, .run .b,
        .complete .b (some (.systemError .operationCanceled)), .run .a, .run .b, .run .b, .run .b] := by
  refine (sockets_closed (by rfl) ?_ ?_).mp ?_
  · intro x
    cases x <;> exact ⟨by rfl, by rfl⟩
  · intro x
    cases x <;> rfl
  · intro x
    cases x <;> decide

/-- Both loops end before either notice is handled, and nobody closes. -/
theorem crossing_ends_leave_open : ∃ p : ProxyPair,
    machine.run machine.initial
      [.start .a, .start .b, .run .a, .run .b, .complete .a none, .complete .b none, .run .a, .run .b,
        .complete .a (some (.systemError (.other 2))), .complete .b (some (.systemError (.other 2))),
        .run .a, .run .b, .run .a, .run .b, .run .a, .run .b, .run .a, .run .b] = some p ∧
    p.Quiescent ∧ (∀ x, p.started x = true) ∧ ∀ x, p.closes x = 0 := by
  refine ⟨_, rfl, ?_, ?_, ?_⟩
  · intro x
    cases x <;> exact ⟨by rfl, by rfl⟩
  · intro x
    cases x <;> rfl
  · intro x
    cases x <;> rfl

end ProxyPair

end BoostBase
