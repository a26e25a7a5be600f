import BoostBase.Network.ProxyInvariant

namespace BoostBase

open Asio Transition LastOut

namespace Proxy

open ProxyDataSession ProxyPair

variable {p q : Proxy}

def SecondGone (p : Proxy) : Prop :=
  SecondOver p.pair ∨ p.pair.started .b = false ∧
    (p.phase = .handoff ∧ p.cancelled = true ∨ p.phase.isOver = true)

instance (p : Proxy) : Decidable p.SecondGone := inferInstanceAs (Decidable (_ ∨ _ ∧ (_ ∨ _)))

/-- `p2` fails, not by a cancellation, before its work or on a write. -/
def secondFails (p : Proxy) : Action → Bool
  | .runData .b =>
    match (p.pair.session .b).strand with
    | .resume (some e) :: _ => !e.canceled && (p.pair.session .b).phase ≠ .reading
    | _ => false
  | _ => false

def firstBegins (p : Proxy) : Action → Bool
  | .runData .a =>
    match (p.pair.session .a).strand with
    | .resume none :: _ =>
      (p.pair.session .a).phase = .preparing && !(p.pair.session .a).cancelled &&
        p.pair.alive .b && !(p.pair.session .a).loopEnds none
    | _ => false
  | _ => false

/-- The step property: `p2` does not fail while `p1` works, and `p1` does not begin to
    work once `p2` is gone, unless a stop of `p1` is on its way. -/
def Watched (p : Proxy) (a : Action) (_ : Proxy) : Prop :=
  (secondFails p a = true → (p.pair.session .a).phase.working = true → Asked p.pair) ∧
    (firstBegins p a = true → SecondGone p → Asked p.pair)

instance (p : Proxy) (a : Action) (q : Proxy) : Decidable (Watched p a q) :=
  inferInstanceAs (Decidable ((_ → _ → _) ∧ (_ → _ → _)))

/-- Nobody is left to stop a `p1` that works only if it was asked to stop. -/
structure Watching (p : Proxy) : Prop where
  stopped : StopsFirst p.pair
  gone : SecondGone p → (p.pair.session .a).phase.working = true → Asked p.pair

theorem ProxyOk.made (ok : ProxyOk p) (moved : ¬ Unmade p.pair) : p.pair.started .a = true := by
  have placed := ok.placed
  have past_stages := placed.past_stages moved
  unfold Placed at placed
  rcases past_stages with phase | phase | ⟨e, phase⟩ <;> rw [phase] at placed
  · exact placed.2.2.1
  · exact placed.2.2.1 .a
  · exact (placed.2.2.resolve_left moved).1

theorem watching_runData {x : Side} {pair : ProxyPair} (ok : ProxyOk p) (kept : Watching p)
    (watched : Watched p (.runData x) q) (ran : p.pair.runHead x = some pair) :
    Watching (p.ranData x pair) := by
  obtain ⟨h, rest, sent, head, _, other, _, started, _⟩ := runHead_spec ran
  have first : p.pair.started .a = true := by
    refine ok.made fun unmade => ?_
    have still := (unmade.still x).1
    simp [head] at still
  have stops := stopsFirst_runHead ok.reached first kept.stopped ran
  refine ⟨(ranData_pair p x pair).symm ▸ stops, ?_⟩
  unfold SecondGone
  rw [ranData_pair, (ranData_same p x pair).1, (ranData_same p x pair).2.2, started]
  intro gone working
  cases x with
  | a =>
    rw [secondOver_first ran] at gone
    cases before : (p.pair.session .a).phase.working with
    | true => exact asked_runHead stops (kept.gone gone before) ran
    | false =>
      obtain ⟨rest, front, preparing, live, lives, loops⟩ := begins_working before working ran
      refine asked_runHead stops (watched.2 ?_ gone) ran
      simp [firstBegins, front, preparing, live, lives, loops]
  | b =>
    change pair.session .a =
      { p.pair.session .a with strand := (p.pair.session .a).strand ++ sent } at other
    have before : (p.pair.session .a).phase.working = true := by
      rw [other] at working
      exact working
    by_cases already : SecondGone p
    · exact asked_runHead stops (kept.gone already before) ran
    · unfold SecondGone at already
      have past := gone.resolve_right fun never => already (.inr never)
      refine asked_over ok.reached first kept.stopped stops (fun early => already (.inl early)) past
        before ran fun e rest front other_ writing => ?_
      refine watched.1 ?_ before
      simp [secondFails, front, other_, writing]

theorem watching_endRun (stopped : StopsFirst p.pair)
    (asked : (p.pair.session .a).phase.working = true → Asked p.pair) (e : Option Exception) :
    Watching (p.endRun e) := by
  refine ⟨?_, fun _ => ?_⟩
  · rw [endRun_pair]
    exact stopped
  · rw [endRun_pair]
    exact asked

theorem watching_new (unmade : p.pair = .new) : StopsFirst p.pair ∧
    ((p.pair.session .a).phase.working = true → Asked p.pair) := by
  rw [unmade]
  exact ⟨fun stopped => (by cases stopped), fun working => (by cases working)⟩

theorem watching_await (unmade : p.pair = .new) (phase : ProxyPhase) : Watching (p.await phase) := by
  obtain ⟨stopped, asked⟩ := watching_new unmade
  unfold await
  split
  · exact watching_endRun stopped asked _
  · exact ⟨stopped, fun _ => asked⟩

theorem watching_resume (ok : ProxyOk p) (kept : Watching p) {failure : Option Exception}
    {rest : List ProxyHandler} (head : p.strand = .resume failure :: rest) :
    Watching (({ p with strand := rest } : Proxy).resume failure) := by
  have queued : p.resumes ≠ 0 := by
    rw [resumes, head, List.countP_cons_of_pos rfl]
    omega
  have placed := ok.placed
  cases phase : p.phase with
  | idle | handoff | ended _ =>
    unfold Placed at placed
    rw [phase] at placed
    omega
  | getSession | firstWork =>
    have stage : p.phase.stage = true := by rw [phase]; rfl
    obtain ⟨_, _, unmade⟩ := (placed_stage stage).mp placed
    obtain ⟨stopped, asked⟩ := watching_new unmade
    cases failure with
    | some e => exact watching_endRun (p := { p with strand := rest, phase := _ }) stopped asked _
    | none => exact watching_await (p := { p with strand := rest, phase := _ }) unmade _
  | secondWork =>
    have stage : p.phase.stage = true := by rw [phase]; rfl
    obtain ⟨_, _, unmade⟩ := (placed_stage stage).mp placed
    obtain ⟨stopped, asked⟩ := watching_new unmade
    cases failure with
    | some e => exact watching_endRun (p := { p with strand := rest, phase := _ }) stopped asked _
    | none =>
      simp only [resume, unmade]
      exact ⟨fun stopped => (by cases stopped), fun _ working => (by cases working)⟩
  | awaitSecond =>
    unfold Placed at placed
    rw [phase] at placed
    have past := (placed.2.1.resolve_right fun waits => queued waits.2.1).1
    have asked := kept.gone (.inl past)
    cases failure with
    | some e => exact watching_endRun (p := { p with strand := rest, phase := _ }) kept.stopped asked _
    | none => exact watching_endRun (p := { p with strand := rest, phase := _ }) kept.stopped asked _

theorem watching_emit (kept : Watching p) (free : p.phase ≠ .handoff) : Watching p.emit := by
  unfold emit
  split
  · split
    · refine ⟨kept.stopped.post .b .emit, fun gone working => ?_⟩
      have before : SecondGone p := by
        rcases gone with past | ⟨fresh, ⟨handoff, _⟩ | ended⟩
        · exact .inl ((secondOver_post (h := .emit) .b (by decide)).mp past)
        · exact absurd handoff free
        · exact .inr ⟨fresh, .inr ended⟩
      refine (kept.gone before ?_).post .b .emit
      rw [post_session] at working
      exact working
    · refine ⟨kept.stopped, fun gone => kept.gone ?_⟩
      exact gone.imp_right fun never => ⟨never.1, .inr (never.2.resolve_left fun at_ => free at_.1)⟩
  · exact kept

theorem watching_next {a : Action} (ok : ProxyOk p) (kept : Watching p) (watched : Watched p a q)
    (taken : machine.next p a = some q) : Watching q := by
  cases a with
  | start | stop | cancel =>
    cases taken
    exact ⟨kept.stopped, kept.gone⟩
  | complete failure =>
    simp only [machine] at taken
    split at taken
    · cases taken
      exact ⟨kept.stopped, kept.gone⟩
    · cases taken
  | startSecond =>
    simp only [machine] at taken
    split at taken
    · rename_i phase
      cases taken
      have placed := ok.placed
      unfold Placed at placed
      rw [phase] at placed
      obtain ⟨_, _, _, fresh, _⟩ := placed
      unfold startSecond
      split
      · rename_i cancelled
        exact watching_endRun kept.stopped (kept.gone (.inr ⟨fresh, .inl ⟨phase, cancelled⟩⟩)) _
      · refine ⟨kept.stopped.post .b .start, fun gone => ?_⟩
        rcases gone with past | ⟨_, ⟨handoff, _⟩ | ended⟩
        · exact absurd past (going_started ok.once fresh).1
        · cases handoff
        · cases ended
    · cases taken
  | run =>
    simp only [machine] at taken
    split at taken
    · cases taken
    · rename_i free
      split at taken
      · cases taken
      · rename_i h rest head
        cases taken
        have popped : Watching { p with strand := rest } := ⟨kept.stopped, kept.gone⟩
        cases h with
        | start =>
          simp only [execute, startBody]
          split
          · exact popped
          · refine ⟨kept.stopped, fun gone => kept.gone ?_⟩
            exact gone.imp_right fun never => by simp [ProxyPhase.isOver] at never
        | stop =>
          simp only [execute]
          rw [stopBody_eq]
          split
          · exact popped
          · have marked := watching_emit popped free
            exact ⟨marked.stopped, marked.gone⟩
        | emit => exact watching_emit popped free
        | resume failure => exact watching_resume ok kept head
  | completeData x failure =>
    simp only [machine] at taken
    split at taken
    · cases taken
      refine ⟨kept.stopped.post x (.resume failure), fun gone working => ?_⟩
      have before : SecondGone p := by
        refine gone.imp_left fun past => ?_
        exact (secondOver_post (h := .resume failure) x (by simp)).mp past
      have worked : ((p.pair.post x (.resume failure)).session .a).phase.working = true := working
      rw [post_session] at worked
      refine (kept.gone before ?_).post x (.resume failure)
      split at worked <;> exact worked
    · cases taken
  | runData x =>
    simp only [machine, Option.map_eq_some_iff] at taken
    obtain ⟨pair, ran, rfl⟩ := taken
    exact watching_runData ok kept watched ran

theorem endRun_frame {k : ProxyHandler} (e : Option Exception) :
    (k ∈ p.strand → k ∈ (p.endRun e).strand) ∧
      (p.task.state = .stopped → (p.endRun e).task.state = .stopped) := by
  rw [endRun_strand, endRun_task, CoroutineTask.leave_state]
  exact ⟨List.mem_append_left _, fun stopped => if_pos stopped⟩

theorem await_frame {k : ProxyHandler} (phase : ProxyPhase) :
    (k ∈ p.strand → k ∈ (p.await phase).strand) ∧
      (p.task.state = .stopped → (p.await phase).task.state = .stopped) := by
  unfold await
  split
  · exact endRun_frame _
  · exact ⟨id, id⟩

theorem emit_frame (p : Proxy) : p.emit.strand = p.strand ∧ p.emit.task = p.task := by
  unfold emit
  split <;> exact ⟨rfl, rfl⟩

theorem execute_frame {k : ProxyHandler} (p : Proxy) (h : ProxyHandler) :
    (k ∈ p.strand → k ∈ (p.execute h).strand) ∧
      (p.task.state = .stopped → (p.execute h).task.state = .stopped) := by
  cases h with
  | start =>
    simp only [execute, startBody]
    split
    · exact ⟨id, id⟩
    · rename_i entered
      have fresh := (CoroutineTask.enter_ok.mp entered).1
      exact ⟨id, fun stopped => absurd (fresh.symm.trans stopped) (by decide)⟩
  | stop =>
    simp only [execute]
    rw [stopBody_eq]
    split
    · exact ⟨id, id⟩
    · rw [(emit_frame p).1]
      exact ⟨id, fun _ => rfl⟩
  | emit =>
    simp only [execute]
    rw [(emit_frame p).1, (emit_frame p).2]
    exact ⟨id, id⟩
  | resume failure =>
    cases failure with
    | some e => exact endRun_frame _
    | none =>
      simp only [execute, resume]
      split
      · exact await_frame _
      · exact await_frame _
      · exact ⟨id, id⟩
      · exact endRun_frame _
      · exact ⟨id, id⟩
      · exact ⟨id, id⟩
      · exact ⟨id, id⟩

/-- A stop of the proxy has been executed or stands in its strand. -/
def StopReached (p : Proxy) : Prop := .stop ∈ p.strand ∨ p.task.state = .stopped

theorem stopReached_next {a : Action} (reached : StopReached p) (taken : machine.next p a = some q) :
    StopReached q := by
  cases a with
  | start | stop | cancel =>
    cases taken
    exact reached.imp_left (List.mem_append_left _)
  | complete failure =>
    simp only [machine] at taken
    split at taken
    · cases taken
      exact reached.imp_left (List.mem_append_left _)
    · cases taken
  | startSecond =>
    simp only [machine] at taken
    split at taken
    · cases taken
      unfold startSecond
      split
      · exact reached.imp (endRun_frame _).1 (endRun_frame (k := .stop) _).2
      · exact reached
    · cases taken
  | run =>
    simp only [machine] at taken
    split at taken
    · cases taken
    · split at taken
      · cases taken
      · rename_i h rest head
        cases taken
        have frame := execute_frame (k := .stop) { p with strand := rest } h
        rcases reached with queued | stopped
        · rw [head] at queued
          rcases List.mem_cons.mp queued with rfl | later
          · right
            simp only [execute]
            rw [stopBody_eq]
            split
            · assumption
            · rfl
          · exact .inl (frame.1 later)
        · exact .inr (frame.2 stopped)
  | completeData x failure =>
    simp only [machine] at taken
    split at taken
    · cases taken
      exact reached
    · cases taken
  | runData x =>
    simp only [machine, Option.map_eq_some_iff] at taken
    obtain ⟨pair, ran, rfl⟩ := taken
    refine reached.imp (fun queued => ?_) fun stopped => ?_
    · unfold ranData
      cases x with
      | a => exact queued
      | b =>
        dsimp only
        split
        · exact queued
        · exact List.mem_append_left _ queued
    · rw [(ranData_same p x pair).2.1]
      exact stopped

theorem stopReached {as : List Action} (ran : machine.run machine.initial as = some p)
    (called : .stop ∈ as) : StopReached p := by
  refine Machine.run_history (m := machine) (fun as p => .stop ∈ as → StopReached p)
    (fun called => by cases called) ?_ ran called
  intro as p a q kept taken called
  rcases List.mem_append.mp called with earlier | now
  · exact stopReached_next (kept earlier) taken
  · obtain rfl := List.mem_singleton.mp now
    cases taken
    exact .inl (List.mem_append_right _ List.mem_cons_self)

/-- All queued work has run. A cancelled operation has completed, and so has the start of
    a socket, which the first sessions have started before. -/
structure Drained (p : Proxy) : Prop where
  strand : p.strand = []
  between : p.phase ≠ .handoff
  stages : p.phase.stage = true → p.cancelled = false
  strands : ∀ x, (p.pair.session x).strand = []
  prepared : ∀ x, (p.pair.session x).phase ≠ .preparing
  cancelled : ∀ x, (p.pair.session x).phase.active = true → (p.pair.session x).cancelled = false

theorem idle_session {s : ProxyDataSession} (placed : s.Placed) (prepared : s.phase ≠ .preparing)
    (idle : s.phase.working = false) : s.task.state ≠ .running := by
  unfold ProxyDataSession.Placed at placed
  cases phase : s.phase with
  | idle =>
    rw [phase] at placed
    rcases placed.1 with state | state <;> simp [state]
  | preparing => exact absurd phase prepared
  | reading | writing => simp [phase, SessionPhase.working] at idle
  | ended worked e =>
    rw [phase] at placed
    rcases placed with state | state <;> simp [state]

theorem secondGone_drained (ok : ProxyOk p) (stopped : p.task.state = .stopped) (drained : p.Drained) :
    Unmade p.pair ∨ SecondGone p := by
  have placed := ok.placed
  have idle : p.resumes = 0 := by rw [resumes, drained.strand]; rfl
  have cancelled (entered : p.Entered) : p.cancelled = true := by
    rcases entered.1 with running | halted
    · simp [stopped] at running
    · exact halted.2
  cases phase : p.phase with
  | idle =>
    unfold Placed at placed
    rw [phase] at placed
    exact .inl (placed.2.2.2 ▸ unmade_new)
  | getSession | firstWork | secondWork =>
    have stage : p.phase.stage = true := by rw [phase]; rfl
    have entered := ((placed_stage stage).mp placed).1
    exact absurd ((cancelled entered).symm.trans (drained.stages stage)) (by decide)
  | handoff => exact absurd phase drained.between
  | awaitSecond =>
    unfold Placed at placed
    rw [phase] at placed
    obtain ⟨entered, awaited, started, _⟩ := placed
    refine .inr (.inl ?_)
    by_contra going
    obtain ⟨_, _, forwarded⟩ := awaited.resolve_left fun past => going past.1
    have active : (p.pair.session .b).phase.active = true := by
      refine (begun_second (started .b) going).resolve_left fun queued => ?_
      rw [drained.strands .b] at queued
      cases queued
    rcases forwarded (cancelled entered) with marked | ⟨before, after, split, _⟩
    · exact absurd (marked.symm.trans (drained.cancelled .b active)) (by decide)
    · simp [drained.strands .b] at split
  | ended e =>
    unfold Placed at placed
    rw [phase] at placed
    rcases placed.2.2 with unmade | ⟨_, second⟩
    · exact .inl unmade
    · refine .inr ?_
      cases begun : p.pair.started .b with
      | true => exact .inl (second begun)
      | false => exact .inr ⟨begun, .inr (by rw [phase]; rfl)⟩

/-- In a run whose steps are all watched, a stop of the proxy leaves no data session
    running. -/
theorem stop_reaches_sessions {as : List Action} (ran : machine.run machine.initial as = some p)
    (watched : machine.Always Watched machine.initial as) (called : .stop ∈ as)
    (drained : p.Drained) (x : Side) : (p.pair.session x).task.state ≠ .running := by
  have ok := proxyOk ⟨as, ran⟩
  have watching : Watching p := by
    have both := Machine.Always.invariant (m := machine) (I := fun p => ProxyOk p ∧ Watching p)
      (fun _ _ _ kept met taken => ⟨ok_next kept.1 taken, watching_next kept.1 kept.2 met taken⟩)
      ⟨proxyOk .initial, fun stopped => (by cases stopped), fun _ working => (by cases working)⟩ watched ran
    exact both.2
  have stopped : p.task.state = .stopped := by
    refine (stopReached ran called).resolve_left fun queued => ?_
    rw [drained.strand] at queued
    cases queued
  have placed := ((pairOk ok.reached).sessions x).placed
  rcases secondGone_drained ok stopped drained with unmade | gone
  · rw [(unmade x).1]
    decide
  · cases working : (p.pair.session x).phase.working with
    | false => exact idle_session placed (drained.prepared x) working
    | true =>
      cases x with
      | a =>
        rcases watching.gone gone working with (done | halted | stop | read) | stop
        · simp [done]
        · simp [halted]
        · simp [drained.strands .a] at stop
        · simp [drained.strands .a] at read
        · simp [drained.strands .b] at stop
      | b =>
        have active : (p.pair.session .b).phase.active = true := by
          cases phase : (p.pair.session .b).phase <;>
            simp_all [SessionPhase.working, SessionPhase.active]
        rcases gone with past | ⟨fresh, _⟩
        · exact absurd past (going_active active)
        · have idle := (ok.once.unstarted fresh).1
          simp [idle, SessionPhase.active] at active

def connected : List Action :=
  [.start, .run, .complete none, .run, .complete none, .run, .complete none, .run, .startSecond,
    .runData .a, .runData .b, .completeData .a none, .completeData .b none, .runData .a, .runData .b]

def connectedStop : List Action :=
  connected ++ [.stop, .run, .runData .b, .completeData .b (some (.systemError .operationCanceled)),
    .runData .b, .run, .run, .runData .a, .runData .a, .runData .b,
    .completeData .a (some (.systemError .operationCanceled)), .runData .a, .runData .a, .runData .a,
    .runData .b]

theorem stop_reaches_sessions_connected : ∃ p : Proxy,
    machine.run machine.initial connectedStop = some p ∧
      ∀ x, (p.pair.session x).task.state ≠ .running := by
  obtain ⟨p, ran, drained⟩ : ∃ p : Proxy,
      machine.run machine.initial connectedStop = some p ∧ p.Drained := by
    refine ⟨_, rfl, ⟨rfl, by decide, by decide, ?_, ?_, ?_⟩⟩
    all_goals
      intro x
      cases x <;> decide
  exact ⟨p, ran, stop_reaches_sessions ran (by decide) (by decide) drained⟩

/-- `p1` is left running when the stop comes while the success of the last stage is
    queued, and when `p2` has failed on a write before the stop. -/
theorem first_left_running :
    (∃ p : Proxy, machine.run machine.initial
        [.start, .run, .complete none, .run, .complete none, .run, .stop, .complete none, .run, .run,
          .runData .a, .completeData .a none, .runData .a, .startSecond, .run] = some p ∧
      p.Drained ∧ (p.pair.session .a).task.state = .running) ∧
    ∃ p : Proxy, machine.run machine.initial (connected ++
        [.completeData .b none, .runData .b, .completeData .b (some (.systemError (.other 105))),
          .runData .b, .runData .a, .run, .stop, .run]) = some p ∧
      p.Drained ∧ (p.pair.session .a).task.state = .running := by
  refine ⟨⟨_, rfl, ⟨rfl, by decide, by decide, ?_, ?_, ?_⟩, rfl⟩,
    ⟨_, rfl, ⟨rfl, by decide, by decide, ?_, ?_, ?_⟩, rfl⟩⟩
  all_goals
    intro x
    cases x <;> decide

end Proxy

end BoostBase
