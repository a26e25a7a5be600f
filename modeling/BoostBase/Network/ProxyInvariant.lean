import BoostBase.Network.Proxy
import BoostBase.Network.ProxyPairStops

namespace BoostBase

open Asio Transition LastOut

namespace ProxyPair

open ProxyDataSession

variable {p q : ProxyPair} {x : Side}

theorem joined_over (reached : machine.Reachable p) (past : SecondOver p)
    (ran : p.runHead .b = some q) :
    Proxy.joined (p.session .b) (q.session .b) = none ∧ SecondOver q := by
  obtain ⟨h, rest, sent, head, executed, _, _, started, _⟩ := runHead_spec ran
  have placed := ((pairOk reached).sessions .b).placed
  have kept : (q.session .b).phase = (p.session .b).phase := by
    rcases executed.phase with same | ⟨rfl, fresh, _⟩ | ⟨active, _⟩
    · exact same
    · have unqueued := ((secondOver_idle (placed.idle fresh)).mp past).2
      exact absurd (head ▸ List.mem_cons_self) unqueued
    · exact absurd past (going_active active)
  cases phase : (p.session .b).phase with
  | ended worked e =>
    refine ⟨?_, secondOver_ended (kept.trans phase)⟩
    simp [Proxy.joined, kept, phase, SessionPhase.active]
  | idle =>
    obtain ⟨begun, unqueued⟩ := (secondOver_idle phase).mp past
    rw [head] at unqueued
    have front : (p.session .b).strand.head? ≠ some .start := by
      rw [head]
      intro both
      rcases both with ⟨rfl⟩
      exact unqueued List.mem_cons_self
    refine ⟨?_, (secondOver_idle (kept.trans phase)).mpr ⟨?_, ?_⟩⟩
    · simp [Proxy.joined, kept, phase, front]
    · rw [started, begun]
    · rw [executed.start_mem]
      exact fun later => unqueued (List.mem_cons_of_mem h later)
  | preparing | reading | writing => exact absurd past (going_active (by rw [phase]; rfl))

theorem joined_iff (once : StartedOnce p) (going : ¬ SecondOver p) (ran : p.runHead .b = some q) :
    SecondOver q ↔ (Proxy.joined (p.session .b) (q.session .b)).isSome = true := by
  obtain ⟨h, rest, sent, head, executed, _, _, started, _⟩ := runHead_spec ran
  cases after : (q.session .b).phase with
  | preparing | reading | writing =>
    apply iff_of_false (going_active (by rw [after]; rfl))
    simp [Proxy.joined, after]
  | ended worked e =>
    apply iff_of_true (secondOver_ended after)
    have active : (p.session .b).phase.active = true := by
      rcases executed.phase with same | ⟨_, _, preparing⟩ | ⟨active, _⟩
      · exact absurd (secondOver_ended (same.symm.trans after)) going
      · simp [after] at preparing
      · exact active
    simp [Proxy.joined, after, active]
  | idle =>
    have before : (p.session .b).phase = .idle := by
      rcases executed.phase with same | ⟨_, _, preparing⟩ | ⟨_, goes | ⟨_, _, ended⟩⟩
      · exact same.symm.trans after
      · simp [after] at preparing
      · simp [after, SessionPhase.active] at goes
      · simp [after] at ended
    rw [secondOver_idle before, head] at going
    rw [secondOver_idle after, started, executed.start_mem]
    simp only [Proxy.joined, after, head, List.head?_cons, Option.some.injEq]
    by_cases first : h = .start
    · subst first
      have begun : p.started .b = true := by
        by_contra fresh
        exact (once.unstarted (by simpa using fresh)).2 (head ▸ List.mem_cons_self)
      have single : .start ∉ rest := by
        have bound := once.once
        rw [head, List.count_cons_self] at bound
        exact List.count_eq_zero.mp (by omega)
      simp [begun, single]
    · simp only [first, if_false, Option.isSome_none, Bool.false_eq_true, iff_false]
      intro both
      rcases both with ⟨begun, unqueued⟩
      refine going ⟨begun, ?_⟩
      simpa [Ne.symm first] using unqueued

end ProxyPair

namespace Proxy

open ProxyDataSession ProxyPair

variable {p q : Proxy}

def resumes (p : Proxy) : Nat := p.strand.countP resumed

/-- The task of a proxy whose `run` was entered: a stop has cancelled it. -/
def Entered (p : Proxy) : Prop :=
  (p.task.state = .running ∨ p.task.state = .stopped ∧ p.cancelled = true) ∧
    p.task.cancellation.isSome = true

def Unmade (p : ProxyPair) : Prop := ∀ x, p.session x = .new ∧ p.started x = false

/-- The members and the data sessions agree with the place of `run`. -/
def Placed (p : Proxy) : Prop :=
  match p.phase with
  | .idle => (p.task.state = .initial ∨ p.task.state = .stopped) ∧ p.task.cancellation = none ∧
      p.resumes = 0 ∧ p.pair = .new
  | .getSession | .firstWork | .secondWork => p.Entered ∧ p.resumes ≤ 1 ∧ p.pair = .new
  | .handoff => p.Entered ∧ p.resumes = 0 ∧ p.pair.started .a = true ∧ p.pair.started .b = false ∧
      ∀ x, p.pair.held x = true
  | .awaitSecond => p.Entered ∧ (SecondOver p.pair ∧ p.resumes = 1 ∨
        ¬ SecondOver p.pair ∧ p.resumes = 0 ∧ (p.cancelled = true → (p.pair.session .b).Emitted)) ∧
      (∀ x, p.pair.started x = true) ∧ ∀ x, p.pair.held x = true
  | .ended _ => (p.task.state = .done ∨ p.task.state = .stopped) ∧ p.resumes = 0 ∧
      (Unmade p.pair ∨ p.pair.started .a = true ∧ (p.pair.started .b = true → SecondOver p.pair))

structure ProxyOk (p : Proxy) : Prop where
  placed : p.Placed
  reached : ProxyPair.machine.Reachable p.pair
  once : StartedOnce p.pair

theorem Placed.idle (placed : p.Placed) (fresh : p.task.state = .initial) : p.phase = .idle := by
  unfold Placed Entered at placed
  cases phase : p.phase <;> simp_all

theorem placed_stage (stage : p.phase.stage = true) :
    p.Placed ↔ p.Entered ∧ p.resumes ≤ 1 ∧ p.pair = .new := by
  unfold Placed
  cases phase : p.phase with
  | getSession | firstWork | secondWork => exact Iff.rfl
  | idle | handoff | awaitSecond | ended _ => simp [phase, ProxyPhase.stage] at stage

theorem unmade_new : Unmade ProxyPair.new := fun _ => ⟨rfl, rfl⟩

theorem Placed.past_stages (placed : p.Placed) (made : ¬ Unmade p.pair) :
    p.phase = .handoff ∨ p.phase = .awaitSecond ∨ ∃ e, p.phase = .ended e := by
  unfold Placed at placed
  cases phase : p.phase with
  | idle =>
    rw [phase] at placed
    exact absurd (placed.2.2.2 ▸ unmade_new) made
  | getSession | firstWork | secondWork =>
    rw [phase] at placed
    exact absurd (placed.2.2 ▸ unmade_new) made
  | handoff => exact .inl rfl
  | awaitSecond => exact .inr (.inl rfl)
  | ended e => exact .inr (.inr ⟨e, rfl⟩)

theorem post_ok (ok : ProxyOk p) {h : ProxyHandler} (other : resumed h = false) :
    ProxyOk (p.post h) := by
  have resumes : (p.post h).resumes = p.resumes := by
    simp [resumes, post, other]
  refine ⟨?_, ok.reached, ok.once⟩
  have placed := ok.placed
  unfold Placed at placed ⊢
  rw [resumes]
  exact placed

theorem pop_ok (ok : ProxyOk p) {h : ProxyHandler} {rest : List ProxyHandler}
    (head : p.strand = h :: rest) (other : resumed h = false) : ProxyOk { p with strand := rest } := by
  have same : ({ p with strand := rest } : Proxy).resumes = p.resumes := by
    simp [resumes, head, other]
  refine ⟨?_, ok.reached, ok.once⟩
  have placed := ok.placed
  unfold Placed at placed ⊢
  rw [same]
  exact placed

theorem complete_ok (ok : ProxyOk p) (stage : p.phase.stage = true) (idle : p.resumes = 0)
    (failure : Option Exception) : ProxyOk (p.post (.resume failure)) := by
  have one : (p.post (.resume failure)).resumes = 1 := by
    simp only [resumes] at idle
    simp [resumes, post, resumed, idle]
  refine ⟨?_, ok.reached, ok.once⟩
  obtain ⟨entered, _, unmade⟩ := (placed_stage stage).mp ok.placed
  exact (placed_stage (p := p.post (.resume failure)) stage).mpr
    ⟨entered, Nat.le_of_eq one, unmade⟩

theorem startBody_ok (ok : ProxyOk p) : ProxyOk p.startBody := by
  unfold startBody
  split
  · exact ok
  · rename_i entered
    obtain ⟨fresh, rfl⟩ := CoroutineTask.enter_ok.mp entered
    have placed := ok.placed
    unfold Placed at placed
    rw [ok.placed.idle fresh] at placed
    obtain ⟨_, _, idle, unmade⟩ := placed
    exact ⟨⟨⟨.inl rfl, rfl⟩, Nat.le_trans (Nat.le_of_eq idle) (Nat.zero_le 1), unmade⟩, ok.reached, ok.once⟩

theorem emit_eq (signal : p.task.cancellation.isSome = true) :
    p.emit = { p with
      cancelled := true
      pair := if p.phase = .awaitSecond then p.pair.post .b .emit else p.pair } := by
  unfold emit
  rw [if_pos signal]

theorem Entered.marked (entered : p.Entered) : p.emit.Entered := by
  rw [emit_eq entered.2]
  exact ⟨entered.1.imp_right fun stopped => ⟨stopped.1, rfl⟩, entered.2⟩

theorem emitted_post {s : ProxyDataSession} (begun : .start ∈ s.strand ∨ s.phase.active = true) :
    (s.post .emit).Emitted := .inr ⟨s.strand, [], rfl, begun⟩

theorem begun_second {p : ProxyPair} (started : p.started .b = true) (going : ¬ SecondOver p) :
    .start ∈ (p.session .b).strand ∨ (p.session .b).phase.active = true := by
  cases phase : (p.session .b).phase with
  | idle =>
    left
    by_contra unqueued
    exact going ((secondOver_idle phase).mpr ⟨started, unqueued⟩)
  | ended worked e => exact absurd (secondOver_ended phase) going
  | preparing | reading | writing => exact .inr rfl

theorem emit_ok (ok : ProxyOk p) : ProxyOk p.emit := by
  cases signal : p.task.cancellation.isSome with
  | false =>
    unfold emit
    rw [if_neg (by simp [signal])]
    exact ok
  | true =>
    have placed := ok.placed
    have entered := Entered.marked (p := p)
    rw [emit_eq signal] at entered ⊢
    unfold Placed at placed
    cases phase : p.phase with
    | idle =>
      rw [phase] at placed
      simp [placed.2.1] at signal
    | getSession | firstWork | secondWork | handoff =>
      rw [phase] at placed entered
      refine ⟨?_, ok.reached, ok.once⟩
      simp only [Placed]
      exact ⟨entered placed.1, placed.2⟩
    | ended e =>
      rw [phase] at placed
      refine ⟨?_, ok.reached, ok.once⟩
      simp only [Placed]
      exact placed
    | awaitSecond =>
      rw [phase] at placed entered
      obtain ⟨running, awaited, started, held⟩ := placed
      have alive : p.pair.alive .b = true := by simp [ProxyPair.alive, held .b]
      have past := secondOver_post (p := p.pair) .b (h := .emit) (by decide)
      rw [if_pos rfl] at entered ⊢
      refine ⟨?_, ok.reached.step (a := .emit .b) ?_, ok.once.post .b (by decide)⟩
      · simp only [Placed]
        refine ⟨entered running, ?_, started, held⟩
        rw [past]
        refine awaited.imp_right fun waits => ⟨waits.1, waits.2.1, fun _ => ?_⟩
        rw [post_session, if_pos rfl]
        exact emitted_post (begun_second (started .b) waits.1)
      · simp [ProxyPair.machine, alive]

theorem Placed.stopped (placed : p.Placed)
    (marked : p.task.cancellation.isSome = true → p.cancelled = true) :
    ({ p with task := ⟨.stopped, p.task.cancellation⟩ } : Proxy).Placed := by
  have entered (before : p.Entered) :
      ({ p with task := ⟨.stopped, p.task.cancellation⟩ } : Proxy).Entered :=
    ⟨.inr ⟨rfl, marked before.2⟩, before.2⟩
  unfold Placed at placed ⊢
  cases phase : p.phase with
  | idle =>
    rw [phase] at placed
    exact ⟨.inr rfl, placed.2⟩
  | getSession | firstWork | secondWork | handoff | awaitSecond =>
    rw [phase] at placed
    exact ⟨entered placed.1, placed.2⟩
  | ended e =>
    rw [phase] at placed
    exact ⟨.inr rfl, placed.2⟩

theorem stopBody_eq (p : Proxy) : p.stopBody = if p.task.state = .stopped then p else
    { p.emit with task := ⟨.stopped, p.emit.task.cancellation⟩ } := by
  unfold stopBody CoroutineTask.stopEntry
  by_cases again : p.task.state = .stopped
  · rw [if_pos again, if_pos again]
  · rw [if_neg again, if_neg again]
    unfold emit
    dsimp only
    split <;> rfl

theorem stopBody_ok (ok : ProxyOk p) : ProxyOk p.stopBody := by
  rw [stopBody_eq]
  split
  · exact ok
  · have marked := emit_ok ok
    refine ⟨marked.placed.stopped fun signal => ?_, marked.reached, marked.once⟩
    have before : p.task.cancellation.isSome = true := by
      unfold emit at signal
      split at signal <;> exact signal
    rw [emit_eq before]

theorem endRun_strand (p : Proxy) (e : Option Exception) :
    (p.endRun e).strand = p.strand ++ if e.any Exception.canceled then [.stop] else [] := by
  unfold endRun
  dsimp only
  split
  · rfl
  · simp

theorem endRun_task (p : Proxy) (e : Option Exception) : (p.endRun e).task = p.task.leave := by
  unfold endRun
  dsimp only
  split <;> rfl

theorem endRun_pair (p : Proxy) (e : Option Exception) :
    (p.endRun e).pair = (p.pair.release .a).release .b := by
  unfold endRun
  dsimp only
  split <;> rfl

theorem endRun_ok (reached : ProxyPair.machine.Reachable p.pair) (once : StartedOnce p.pair)
    (idle : p.resumes = 0)
    (pair : Unmade p.pair ∨
      p.pair.started .a = true ∧ (p.pair.started .b = true → SecondOver p.pair))
    (e : Option Exception) : ProxyOk (p.endRun e) := by
  have released : ProxyPair.machine.Reachable ((p.pair.release .a).release .b) :=
    (reached.step (a := .release .a) rfl).step (a := .release .b) rfl
  have resumes : (p.endRun e).resumes = 0 := by
    rw [resumes, endRun_strand, List.countP_append]
    split <;> exact idle
  have state : (p.endRun e).task.state = .done ∨ (p.endRun e).task.state = .stopped := by
    rw [endRun_task, CoroutineTask.leave_state]
    split <;> simp
  refine ⟨⟨state, resumes, ?_⟩, ?_, ?_⟩
  · rw [endRun_pair]
    exact pair
  · rw [endRun_pair]
    exact released
  · rw [endRun_pair]
    exact ⟨once.unstarted, once.once⟩

theorem await_ok (ok : ProxyOk p) (stage : p.phase.stage = true) (idle : p.resumes = 0)
    {phase : ProxyPhase} (next : phase.stage = true) : ProxyOk (p.await phase) := by
  obtain ⟨entered, few, unmade⟩ := (placed_stage stage).mp ok.placed
  unfold await
  split
  · exact endRun_ok ok.reached ok.once idle (.inl (unmade ▸ unmade_new)) _
  · refine ⟨?_, ok.reached, ok.once⟩
    exact (placed_stage (p := { p with phase := phase }) next).mpr ⟨entered, few, unmade⟩

theorem handoff_ok (entered : p.Entered) (idle : p.resumes = 0) (unmade : p.pair = .new) :
    ProxyOk { p with pair := p.pair.start .a, phase := .handoff } := by
  rw [unmade]
  refine ⟨⟨entered, idle, rfl, rfl, fun _ => rfl⟩, ?_, ?_⟩
  · exact Machine.Reachable.initial.step (a := .start .a) rfl
  · exact ⟨fun _ => ⟨rfl, List.not_mem_nil⟩, Nat.zero_le 1⟩

theorem stage_resumed (ok : ProxyOk p) (stage : p.phase.stage = true) {failure : Option Exception}
    {rest : List ProxyHandler} (head : p.strand = .resume failure :: rest) :
    ProxyOk { p with strand := rest } ∧ rest.countP resumed = 0 := by
  obtain ⟨entered, single, unmade⟩ := (placed_stage stage).mp ok.placed
  have idle : rest.countP resumed = 0 := by
    rw [resumes, head, List.countP_cons_of_pos rfl] at single
    omega
  refine ⟨⟨?_, ok.reached, ok.once⟩, idle⟩
  exact (placed_stage (p := { p with strand := rest }) stage).mpr
    ⟨entered, Nat.le_trans (Nat.le_of_eq idle) (Nat.zero_le 1), unmade⟩

theorem resume_ok (ok : ProxyOk p) {failure : Option Exception} {rest : List ProxyHandler}
    (head : p.strand = .resume failure :: rest) :
    ProxyOk (({ p with strand := rest } : Proxy).resume failure) := by
  have queued : p.resumes = rest.countP resumed + 1 := by
    rw [resumes, head, List.countP_cons_of_pos rfl]
  have placed := ok.placed
  have failed (stage : p.phase.stage = true) (e : Exception) :
      ProxyOk (({ p with strand := rest } : Proxy).endRun (some e)) := by
    obtain ⟨popped, idle⟩ := stage_resumed ok stage head
    obtain ⟨_, _, unmade⟩ := (placed_stage stage).mp placed
    exact endRun_ok popped.reached popped.once idle (.inl (unmade ▸ unmade_new)) _
  cases phase : p.phase with
  | idle | handoff | ended _ =>
    unfold Placed at placed
    rw [phase] at placed
    omega
  | getSession | firstWork =>
    have stage : p.phase.stage = true := by rw [phase]; rfl
    obtain ⟨popped, idle⟩ := stage_resumed ok stage head
    cases failure with
    | some e =>
      rw [← phase]
      exact failed stage e
    | none =>
      simp only [resume]
      rw [← phase]
      exact await_ok popped stage idle rfl
  | secondWork =>
    have stage : p.phase.stage = true := by rw [phase]; rfl
    obtain ⟨popped, idle⟩ := stage_resumed ok stage head
    obtain ⟨entered, _, unmade⟩ := (placed_stage stage).mp placed
    cases failure with
    | some e =>
      rw [← phase]
      exact failed stage e
    | none => exact handoff_ok (p := { p with strand := rest }) entered idle unmade
  | awaitSecond =>
    unfold Placed at placed
    rw [phase] at placed
    obtain ⟨entered, awaited, started, held⟩ := placed
    obtain ⟨past, single⟩ := awaited.resolve_right fun waits => by omega
    have idle : rest.countP resumed = 0 := by omega
    have ended (e : Option Exception) : ProxyOk (({ p with strand := rest } : Proxy).endRun e) :=
      endRun_ok (p := { p with strand := rest }) ok.reached ok.once idle
        (.inr ⟨started .a, fun _ => past⟩) e
    cases failure with
    | some e =>
      rw [← phase]
      exact ended (some e)
    | none =>
      simp only [resume]
      rw [← phase]
      exact ended none

theorem going_started {p : ProxyPair} (once : StartedOnce p) (fresh : p.started .b = false) :
    ¬ SecondOver (p.start .b) ∧ ((p.start .b).session .b).strand.count .start ≤ 1 := by
  obtain ⟨idle, unqueued⟩ := once.unstarted fresh
  have strand : ((p.start .b).session .b).strand = (p.session .b).strand ++ [.start] := by
    simp [ProxyPair.start, ProxyPair.post, setSession, ProxyDataSession.post]
  have same : ((p.start .b).session .b).phase = (p.session .b).phase := by
    simp [ProxyPair.start, ProxyPair.post, setSession, ProxyDataSession.post]
  rw [secondOver_idle (same.trans idle), strand]
  refine ⟨fun past => past.2 (List.mem_append_right _ List.mem_cons_self), ?_⟩
  rw [List.count_append, List.count_eq_zero_of_not_mem unqueued]
  simp

theorem startSecond_ok (ok : ProxyOk p) (phase : p.phase = .handoff) : ProxyOk p.startSecond := by
  have placed := ok.placed
  unfold Placed at placed
  rw [phase] at placed
  obtain ⟨entered, idle, first, second, held⟩ := placed
  unfold startSecond
  split
  · exact endRun_ok ok.reached ok.once idle (.inr ⟨first, fun begun => (by simp [second] at begun)⟩) _
  · rename_i live
    have alive : p.pair.alive .b = true := by simp [ProxyPair.alive, held .b]
    obtain ⟨going, unqueued⟩ := going_started ok.once second
    have started (x : Side) : (p.pair.start .b).started x = true := by
      cases x with
      | a => simpa [ProxyPair.start] using first
      | b => simp [ProxyPair.start]
    refine ⟨⟨entered, .inr ⟨going, idle, fun cancelled => absurd cancelled live⟩, started, held⟩,
      ok.reached.step (a := .start .b) ?_, ⟨fun fresh => ?_, ?_⟩⟩
    · simp [ProxyPair.machine, alive]
    · have begun := started .b
      change (p.pair.start .b).started .b = false at fresh
      simp [begun] at fresh
    · change ((p.pair.start .b).session .b).strand.count .start ≤ 1
      exact unqueued

theorem Unmade.still {p : ProxyPair} (unmade : Unmade p) (x : Side) :
    (p.session x).strand = [] ∧ (p.session x).suspended = false := by
  rw [(unmade x).1]
  exact ⟨rfl, rfl⟩

theorem completeData_ok (ok : ProxyOk p) {x : Side} (suspended : (p.pair.session x).suspended = true)
    (failure : Option Exception) : ProxyOk { p with pair := p.pair.complete x failure } := by
  have taken : ProxyPair.machine.next p.pair (.complete x failure) = some (p.pair.complete x failure) := by
    simp [ProxyPair.machine, suspended]
  have past : SecondOver (p.pair.complete x failure) ↔ SecondOver p.pair :=
    secondOver_post (p := p.pair) x (h := .resume failure) (by simp)
  have once : StartedOnce (p.pair.complete x failure) := by
    have posted := ok.once.post x (h := .resume failure) (by simp)
    exact ⟨posted.unstarted, posted.once⟩
  refine ⟨?_, ok.reached.step taken, once⟩
  have placed := ok.placed
  have made : ¬ Unmade p.pair := by
    intro unmade
    have still := (unmade.still x).2
    simp [suspended] at still
  have past_stages := placed.past_stages made
  unfold Placed at placed ⊢
  dsimp only
  rcases past_stages with phase | phase | ⟨e, phase⟩ <;> rw [phase] at placed ⊢
  · exact placed
  · obtain ⟨entered, awaited, started, held⟩ := placed
    refine ⟨entered, ?_, started, held⟩
    rw [past]
    refine awaited.imp_right fun waits => ⟨waits.1, waits.2.1, fun cancelled => ?_⟩
    have emitted := waits.2.2 cancelled
    change ((p.pair.post x (.resume failure)).session .b).Emitted
    rw [post_session]
    split
    · exact emitted.post [.resume failure]
    · exact emitted
  · obtain ⟨state, idle, unmade | ⟨first, second⟩⟩ := placed
    · exact absurd unmade made
    · refine ⟨state, idle, .inr ⟨first, fun begun => ?_⟩⟩
      rw [past]
      exact second begun

theorem going_unstarted {p : ProxyPair} (once : StartedOnce p) (fresh : p.started .b = false) :
    ¬ SecondOver p := by
  rw [secondOver_idle (once.unstarted fresh).1]
  exact fun past => absurd (fresh.symm.trans past.1) (by decide)

theorem joined_unstarted {p q : ProxyPair} (once : StartedOnce p)
    (fresh : p.started .b = false) (ran : p.runHead .b = some q) :
    joined (p.session .b) (q.session .b) = none := by
  obtain ⟨_, _, _, _, _, _, _, started, _⟩ := runHead_spec ran
  have after : q.started .b = false := (congrFun started .b).trans fresh
  have going := going_unstarted (once.runHead ran) after
  rw [joined_iff once (going_unstarted once fresh) ran] at going
  simpa using going

theorem ranData_awaiting {q : ProxyPair} {x : Side} (ok : ProxyOk p) (phase : p.phase = .awaitSecond)
    (ran : p.pair.runHead x = some q) :
    SecondOver (p.ranData x q).pair ∧ (p.ranData x q).resumes = 1 ∨
      ¬ SecondOver (p.ranData x q).pair ∧ (p.ranData x q).resumes = 0 ∧
        (p.cancelled = true → ((p.ranData x q).pair.session .b).Emitted) := by
  have placed := ok.placed
  unfold Placed at placed
  rw [phase] at placed
  obtain ⟨_, awaited, _, _⟩ := placed
  obtain ⟨h, rest, sent, head, executed, other, _, _, _⟩ := runHead_spec ran
  cases x with
  | a =>
    change SecondOver q ∧ p.resumes = 1 ∨
      ¬ SecondOver q ∧ p.resumes = 0 ∧ (p.cancelled = true → (q.session .b).Emitted)
    change q.session .b =
      { p.pair.session .b with strand := (p.pair.session .b).strand ++ sent } at other
    rw [secondOver_first ran]
    refine awaited.imp_right fun waits => ⟨waits.1, waits.2.1, fun cancelled => ?_⟩
    rw [other]
    exact (waits.2.2 cancelled).post sent
  | b =>
    unfold ranData
    dsimp only
    rcases awaited with ⟨past, single⟩ | ⟨going, idle, forwarded⟩
    · obtain ⟨silent, still⟩ := joined_over ok.reached past ran
      rw [silent]
      exact .inl ⟨still, single⟩
    · have ends := joined_iff ok.once going ran
      cases join : joined (p.pair.session .b) (q.session .b) with
      | some e =>
        refine .inl ⟨ends.mpr (by rw [join]; rfl), ?_⟩
        simp only [resumes] at idle
        simp [resumes, post, resumed, idle]
      | none =>
        have going' : ¬ SecondOver q := by
          rw [ends, join]
          decide
        refine .inr ⟨going', idle, fun cancelled => ?_⟩
        have placed := ((pairOk ok.reached).sessions .b).placed
        rcases (forwarded cancelled).executed head placed executed with emitted | ⟨_, _, ended⟩ |
          ⟨rfl, still⟩
        · exact emitted
        · exact absurd (secondOver_ended ended) going'
        · simp [joined, still, head] at join

theorem ranData_pair (p : Proxy) (x : Side) (q : ProxyPair) : (p.ranData x q).pair = q := by
  unfold ranData
  cases x with
  | a => rfl
  | b =>
    dsimp only
    split <;> rfl

theorem ranData_same (p : Proxy) (x : Side) (q : ProxyPair) :
    (p.ranData x q).phase = p.phase ∧ (p.ranData x q).task = p.task ∧
      (p.ranData x q).cancelled = p.cancelled := by
  unfold ranData
  cases x with
  | a => exact ⟨rfl, rfl, rfl⟩
  | b =>
    dsimp only
    split <;> exact ⟨rfl, rfl, rfl⟩

theorem ranData_ok {q : ProxyPair} {x : Side} (ok : ProxyOk p) (ran : p.pair.runHead x = some q) :
    ProxyOk (p.ranData x q) := by
  have placed := ok.placed
  obtain ⟨h, rest, sent, head, _, _, _, started, held⟩ := runHead_spec ran
  have made : ¬ Unmade p.pair := by
    intro unmade
    have still := (unmade.still x).1
    simp [head] at still
  have pair := ranData_pair p x q
  have same := ranData_same p x q
  have silent (none_joined : x = .b → joined (p.pair.session .b) (q.session .b) = none) :
      (p.ranData x q).resumes = p.resumes := by
    unfold ranData
    cases x with
    | a => rfl
    | b =>
      dsimp only
      rw [none_joined rfl]
      rfl
  have entered (before : p.Entered) : (p.ranData x q).Entered := by
    unfold Entered at before ⊢
    rw [same.2.1, same.2.2]
    exact before
  have reached : ProxyPair.machine.Reachable q := ok.reached.step (a := .run x) ran
  have once := ok.once.runHead ran
  rw [← pair] at reached once
  refine ⟨?_, reached, once⟩
  have awaiting (phase : p.phase = .awaitSecond) := ranData_awaiting ok phase ran
  have past_stages := placed.past_stages made
  unfold Placed at placed ⊢
  rw [same.1, same.2.1]
  rw [same.2.2.symm] at awaiting
  rw [pair] at awaiting ⊢
  rcases past_stages with phase | phase | ⟨e, phase⟩
  · rw [phase] at placed ⊢
    obtain ⟨running, idle, first, second, own⟩ := placed
    have none_joined : x = .b → joined (p.pair.session .b) (q.session .b) = none := by
      intro same
      subst same
      exact joined_unstarted ok.once second ran
    refine ⟨entered running, (silent none_joined).trans idle, ?_, ?_, ?_⟩
    · rw [started, first]
    · rw [started, second]
    · rw [held]
      exact own
  · rw [phase] at placed ⊢
    obtain ⟨running, _, begun, own⟩ := placed
    refine ⟨entered running, awaiting phase, ?_, ?_⟩
    · rw [started]
      exact begun
    · rw [held]
      exact own
  · rw [phase] at placed ⊢
    obtain ⟨state, idle, unmade | ⟨first, second⟩⟩ := placed
    · exact absurd unmade made
    · have none_joined : x = .b → joined (p.pair.session .b) (q.session .b) = none := by
        intro same
        subst same
        cases begun : p.pair.started .b with
        | false => exact joined_unstarted ok.once begun ran
        | true => exact (joined_over ok.reached (second begun) ran).1
      refine ⟨state, (silent none_joined).trans idle, .inr ⟨?_, fun begun => ?_⟩⟩
      · rw [started, first]
      · rw [started] at begun
        cases x with
        | a => exact (secondOver_first ran).mpr (second begun)
        | b => exact (joined_over ok.reached (second begun) ran).2

theorem ok_next {a : Action} (ok : ProxyOk p) (taken : machine.next p a = some q) : ProxyOk q := by
  cases a with
  | start | stop | cancel =>
    cases taken
    exact post_ok ok rfl
  | complete failure =>
    simp only [machine] at taken
    split at taken
    · rename_i waiting
      cases taken
      simp only [Bool.and_eq_true, Bool.not_eq_true', List.any_eq_false] at waiting
      exact complete_ok ok waiting.1 (List.countP_eq_zero.mpr waiting.2) failure
    · cases taken
  | startSecond =>
    simp only [machine] at taken
    split at taken
    · rename_i phase
      cases taken
      exact startSecond_ok ok phase
    · cases taken
  | run =>
    simp only [machine] at taken
    split at taken
    · cases taken
    · split at taken
      · cases taken
      · rename_i h rest head
        cases taken
        cases h with
        | start => exact startBody_ok (pop_ok ok head rfl)
        | stop => exact stopBody_ok (pop_ok ok head rfl)
        | emit => exact emit_ok (pop_ok ok head rfl)
        | resume failure => exact resume_ok ok head
  | completeData x failure =>
    simp only [machine] at taken
    split at taken
    · rename_i suspended
      cases taken
      exact completeData_ok ok suspended failure
    · cases taken
  | runData x =>
    simp only [machine, Option.map_eq_some_iff] at taken
    obtain ⟨pair, ran, rfl⟩ := taken
    exact ranData_ok ok ran

theorem proxyOk (reached : machine.Reachable p) : ProxyOk p := by
  refine reached.invariant ⟨?_, .initial, ?_⟩ fun _ _ _ ok taken => ok_next ok taken
  · exact ⟨.inl rfl, rfl, rfl, rfl⟩
  · exact ⟨fun _ => ⟨rfl, List.not_mem_nil⟩, Nat.zero_le 1⟩

end Proxy

end BoostBase
