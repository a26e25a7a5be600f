import BoostBase.Network.ProxyPairAgreement
import BoostBase.Network.ProxyPairStops
import BoostBase.Transition.Progress
import Mathlib.Algebra.Order.Ring.Nat

namespace BoostBase

open Asio Transition LastOut

/-- More than what running the handler can leave to do. -/
def SessionHandler.weight : SessionHandler → Nat
  | .start => 8
  | .otherDone _ => 4
  | .stop | .emit | .resume _ => 1

/-- The handler stops its session, or posts the stop. -/
def SessionHandler.halts : SessionHandler → Bool
  | .stop | .otherDone .read => true
  | .start | .emit | .otherDone .write | .resume _ => false

namespace ProxyDataSession

def weigh (strand : List SessionHandler) : Nat := (strand.map SessionHandler.weight).sum

/-- The loop will go round once more before a stop reaches it. -/
def early (s : ProxyDataSession) : Bool :=
  !s.cancelled && (s.strand.takeWhile fun h => !h.halts).any resumed

/-- More than what the coroutine can leave to do by ending, once it is resumed. -/
def load (s : ProxyDataSession) : Nat :=
  (if s.phase.active then 5 else 0) + if s.suspended then 2 else 0

def unstopped (s : ProxyDataSession) : Nat := if s.task.state = .stopped then 0 else 1

/-- What is left to do for a session that a stop has reached or will reach. -/
def rank (s : ProxyDataSession) : Nat :=
  weigh s.strand + s.load + s.unstopped + if s.early then 2 else 0

def front (h : SessionHandler) (s : ProxyDataSession) : ProxyDataSession :=
  { s with strand := h :: s.strand }

variable {s : ProxyDataSession} {h : SessionHandler} {side : Side} {ops : List SocketOp}

theorem weigh_append (before after : List SessionHandler) :
    weigh (before ++ after) = weigh before + weigh after := by
  simp [weigh]

theorem takeWhile_post (strand : List SessionHandler) {more : List SessionHandler}
    (unresumed : more.countP resumed = 0) :
    ((strand ++ more).takeWhile fun h => !h.halts).any resumed =
      (strand.takeWhile fun h => !h.halts).any resumed := by
  induction strand with
  | nil =>
    rw [List.nil_append, List.takeWhile_nil, List.any_nil, List.any_eq_false]
    intro h member
    exact List.countP_eq_zero.mp unresumed h (List.takeWhile_subset _ member)
  | cons h strand ih =>
    rw [List.cons_append, List.takeWhile_cons, List.takeWhile_cons]
    split
    · rw [List.any_cons, List.any_cons, ih]
    · rfl

theorem early_post (s : ProxyDataSession) {more : List SessionHandler}
    (unresumed : more.countP resumed = 0) :
    ({ s with strand := s.strand ++ more } : ProxyDataSession).early = s.early := by
  simp only [early, takeWhile_post s.strand unresumed]

theorem suspended_post (s : ProxyDataSession) {more : List SessionHandler}
    (unresumed : more.countP resumed = 0) :
    ({ s with strand := s.strand ++ more } : ProxyDataSession).suspended = s.suspended := by
  rw [Bool.eq_iff_iff, suspended_iff, suspended_iff]
  simp [resumes, List.countP_append, unresumed]

theorem load_post (s : ProxyDataSession) {more : List SessionHandler}
    (unresumed : more.countP resumed = 0) :
    ({ s with strand := s.strand ++ more } : ProxyDataSession).load = s.load := by
  simp only [load, suspended_post s unresumed]

theorem rank_post (s : ProxyDataSession) {more : List SessionHandler}
    (unresumed : more.countP resumed = 0) :
    ({ s with strand := s.strand ++ more } : ProxyDataSession).rank = s.rank + weigh more := by
  have same : ({ s with strand := s.strand ++ more } : ProxyDataSession).unstopped = s.unstopped := rfl
  simp only [rank, early_post s unresumed, load_post s unresumed, weigh_append, same]
  omega

theorem early_idle (idle : s.resumes = 0) : s.early = false := by
  simp only [early, Bool.and_eq_false_imp, List.any_eq_false]
  intro _ h member
  exact List.countP_eq_zero.mp idle h (List.takeWhile_subset _ member)

theorem early_cancelled (cancelled : s.cancelled = true) : s.early = false := by
  simp [early, cancelled]

theorem early_stopped (placed : s.Placed) (elsewhere : s.phase.active = false → s.resumes = 0)
    (stopped : s.task.state = .stopped) : s.early = false := by
  cases active : s.phase.active with
  | false => exact early_idle (elsewhere active)
  | true =>
    have entered := (placed.entered active).1
    exact early_cancelled (entered.resolve_left fun running => by simp [running] at stopped).2

theorem front_weigh (h : SessionHandler) (s : ProxyDataSession) :
    weigh (s.front h).strand = h.weight + weigh s.strand := by
  simp [weigh, front]

theorem front_load (unresumed : resumed h = false) : (s.front h).load = s.load := by
  have same : (s.front h).suspended = s.suspended := by simp [suspended, front, unresumed]
  simp only [load, same]
  rfl

theorem front_early (unresumed : resumed h = false) (going : h.halts = false) :
    (s.front h).early = s.early := by
  simp [early, front, unresumed, going]

theorem front_unstopped (h : SessionHandler) (s : ProxyDataSession) :
    (s.front h).unstopped = s.unstopped := rfl

theorem front_rank (unresumed : resumed h = false) (going : h.halts = false) :
    (s.front h).rank = s.rank + h.weight := by
  simp only [rank, front_weigh, front_load unresumed, front_early unresumed going, front_unstopped]
  omega

theorem le_front_rank (unresumed : resumed h = false) :
    h.weight + weigh s.strand + s.load + s.unstopped ≤ (s.front h).rank := by
  simp only [rank, front_weigh, front_load unresumed, front_unstopped]
  exact Nat.le_add_right _ _

theorem rank_late (late : s.early = false) : s.rank = weigh s.strand + s.load + s.unstopped := by
  simp [rank, late]

theorem load_active (active : s.phase.active = true) : s.load = if s.resumes = 0 then 7 else 5 := by
  have suspended : s.suspended = decide (s.resumes = 0) := by
    rw [Bool.eq_iff_iff, suspended_iff]
    simp [active]
  by_cases idle : s.resumes = 0 <;> simp [load, active, suspended, idle]

theorem rank_waiting (active : s.phase.active = true) (idle : s.resumes = 0) :
    s.rank = weigh s.strand + 7 + s.unstopped := by
  rw [rank_late (early_idle idle), load_active active, if_pos idle]

theorem load_congr {t : ProxyDataSession} (strand : t.strand = s.strand) (phase : t.phase = s.phase) :
    t.load = s.load := by
  have same : t.suspended = s.suspended := by simp [suspended, strand, phase]
  simp only [load, same, phase]

theorem startBody_falls (ok : SessionOk side ops s) : s.startBody.rank < (s.front .start).rank := by
  unfold startBody
  split
  · rw [front_rank rfl rfl]
    exact Nat.lt_add_of_pos_right (by decide)
  · rename_i task entered
    obtain ⟨fresh, rfl⟩ := CoroutineTask.enter_ok.mp entered
    have silent : s.resumes = 0 := ok.elsewhere (by rw [ok.placed.idle fresh]; rfl)
    have before := le_front_rank (s := s) (h := .start) rfl
    have first : s.unstopped = 1 := by simp [unstopped, fresh]
    have after : ({ s with task := ⟨.running, some ()⟩, phase := .preparing } : ProxyDataSession).rank =
        weigh s.strand + 7 + 1 := rank_waiting rfl silent
    simp only [first, SessionHandler.weight] at before
    omega

theorem stopBody_kept (s : ProxyDataSession) (otherAlive : Bool) :
    (s.stopBody otherAlive).own.strand = s.strand ∧ (s.stopBody otherAlive).own.phase = s.phase ∧
      (s.stopBody otherAlive).own.task.state = .stopped ∧
      weigh (s.stopBody otherAlive).toOther ≤ s.unstopped := by
  unfold stopBody
  split
  · rename_i again
    exact ⟨rfl, rfl, CoroutineTask.stopEntry_none.mp again, Nat.zero_le _⟩
  · rename_i task entry
    obtain ⟨first, rfl⟩ := CoroutineTask.stopEntry_some.mp entry
    have costs : weigh (if otherAlive = true then [SessionHandler.stop] else []) ≤ s.unstopped := by
      rw [unstopped, if_neg first]
      cases otherAlive <;> decide
    dsimp only
    unfold emit
    split <;> exact ⟨rfl, rfl, rfl, costs⟩

theorem stopBody_falls (ok : SessionOk side ops s) (otherAlive : Bool) :
    (s.stopBody otherAlive).own.rank + weigh (s.stopBody otherAlive).toOther < (s.front .stop).rank := by
  have after := stopBody_ok ok otherAlive
  have before := le_front_rank (s := s) (h := .stop) rfl
  obtain ⟨strand, phase, stopped, costs⟩ := stopBody_kept s otherAlive
  rw [rank_late (early_stopped after.placed after.elsewhere stopped), load_congr strand phase, strand,
    unstopped, if_pos stopped]
  simp only [SessionHandler.weight] at before
  omega

theorem emit_falls (s : ProxyDataSession) : s.emit.rank < (s.front .emit).rank := by
  rw [front_rank rfl rfl]
  unfold emit
  split
  · have late : ({ s with cancelled := true } : ProxyDataSession).rank =
        weigh s.strand + s.load + s.unstopped := rank_late (early_cancelled rfl)
    have before : weigh s.strand + s.load + s.unstopped ≤ s.rank := Nat.le_add_right _ _
    simp only [SessionHandler.weight]
    omega
  · exact Nat.lt_add_one _

theorem otherDoneBody_falls (s : ProxyDataSession) (lastState : ProxyState) :
    (s.otherDoneBody lastState).rank < (s.front (.otherDone lastState)).rank := by
  have before := le_front_rank (s := s) (h := .otherDone lastState) rfl
  have bound : s.rank ≤ weigh s.strand + s.load + s.unstopped + 2 := by
    rw [rank]
    split <;> omega
  have posted : (s.post .stop).rank = s.rank + 1 := rank_post s rfl
  simp only [SessionHandler.weight] at before
  unfold otherDoneBody
  dsimp only
  split
  · change (s.post .stop).rank < _
    omega
  · change s.rank < _
    omega

theorem endRun_rank (idle : s.resumes = 0) (worked : Bool) (e : Option Exception) :
    (s.endRun worked e).rank ≤ weigh s.strand + 1 + s.unstopped := by
  have silent : (s.endRun worked e).resumes = 0 := by
    rw [resumes, endRun_countP _ rfl]
    exact idle
  have load : (s.endRun worked e).load = 0 := by
    have ended : (s.endRun worked e).phase.active = false := rfl
    simp [load, suspended, ended]
  have unstopped : (s.endRun worked e).unstopped = s.unstopped := by
    unfold unstopped
    rw [endRun_state]
    split <;> simp_all
  rw [rank_late (early_idle silent), load, unstopped, endRun_strand, weigh_append]
  split
  · simp [weigh, SessionHandler.weight]
  · simp [weigh]

theorem endWork_rank (idle : s.resumes = 0) (e : Option Exception) :
    (s.endWork e).own.rank + weigh (s.endWork e).toOther ≤ weigh s.strand + 5 + s.unstopped := by
  have own := endRun_rank idle true e
  have told : weigh (s.endWork e).toOther ≤ 4 := by
    unfold endWork
    dsimp only
    split <;> simp [weigh, SessionHandler.weight]
  change (s.endRun true e).rank + _ ≤ _
  omega

theorem resume_falls {failure : Option Exception} (ok : SessionOk side ops (s.front (.resume failure)))
    (otherAlive : Bool) :
    (s.resume otherAlive failure).own.rank + weigh (s.resume otherAlive failure).toOther <
      (s.front (.resume failure)).rank := by
  have queued : (s.front (.resume failure)).resumes = s.resumes + 1 := List.countP_cons_of_pos rfl
  have active : s.phase.active = true := by
    by_contra outside
    have unresumed := ok.elsewhere (by simpa [front] using outside)
    omega
  have idle : s.resumes = 0 := by
    have single := ok.single
    omega
  have load : (s.front (.resume failure)).load = 5 :=
    (load_active (s := s.front (.resume failure)) active).trans (if_neg (by omega))
  have weight : weigh (s.front (.resume failure)).strand = 1 + weigh s.strand := front_weigh _ s
  have before : weigh s.strand + 6 + s.unstopped ≤ (s.front (.resume failure)).rank := by
    rw [rank, load, weight, front_unstopped]
    omega
  have again (live : s.cancelled = false) :
      (s.front (.resume failure)).rank = weigh s.strand + 8 + s.unstopped := by
    have early : (s.front (.resume failure)).early = true := by
      simp [early, front, live, SessionHandler.halts, resumed]
    rw [rank, load, weight, front_unstopped, early]
    simp only [if_true]
    omega
  have ends (e : Option Exception) : (quietly (s.endRun false e)).own.rank +
      weigh (quietly (s.endRun false e)).toOther < (s.front (.resume failure)).rank := by
    have after := endRun_rank idle false e
    simp only [quietly, weigh, List.map_nil, List.sum_nil] at after before ⊢
    omega
  have leaves (z : ProxyDataSession) (silent : z.resumes = 0) (strand : z.strand = s.strand)
      (unstopped : z.unstopped = s.unstopped) (e : Option Exception) :
      (z.endWork e).own.rank + weigh (z.endWork e).toOther < (s.front (.resume failure)).rank := by
    have after := endWork_rank silent e
    rw [strand, unstopped] at after
    omega
  have cases := resume_cases active otherAlive failure
  revert cases
  generalize s.resume otherAlive failure = o
  intro cases
  cases cases with
  | reads _ _ _ live =>
    have after : ({ s with state := .read, phase := .reading } : ProxyDataSession).rank =
        weigh s.strand + 7 + s.unstopped := rank_waiting rfl idle
    simp only [again live, after, weigh, List.map_nil, List.sum_nil]
    omega
  | writes _ live =>
    have after : ({ s with state := .write, phase := .writing } : ProxyDataSession).rank =
        weigh s.strand + 7 + s.unstopped := rank_waiting rfl idle
    simp only [again live, after, weigh, List.map_nil, List.sum_nil]
    omega
  | unprepared | preparedLate | alone => exact ends _
  | loopOver | readFails | writeFails => exact leaves s idle rfl rfl _
  | readCancelled => exact leaves { s with state := .read } idle rfl rfl _
  | writeCancelled => exact leaves { s with state := .write } idle rfl rfl _

theorem execute_falls (ok : SessionOk side ops (s.front h)) (otherAlive : Bool) :
    (s.execute otherAlive h).own.rank + weigh (s.execute otherAlive h).toOther < (s.front h).rank := by
  cases h with
  | start => exact startBody_falls (ok.pop rfl rfl)
  | stop => exact stopBody_falls (ok.pop rfl rfl) otherAlive
  | emit => exact emit_falls s
  | otherDone lastState => exact otherDoneBody_falls s lastState
  | resume failure => exact resume_falls ok otherAlive

theorem takeWhile_halted {strand : List SessionHandler} (halted : ∃ h ∈ strand, h.halts = true)
    (more : List SessionHandler) :
    ((strand ++ more).takeWhile fun h => !h.halts) = strand.takeWhile fun h => !h.halts := by
  induction strand with
  | nil =>
    obtain ⟨_, member, _⟩ := halted
    cases member
  | cons k strand ih =>
    rw [List.cons_append, List.takeWhile_cons, List.takeWhile_cons]
    split
    · rename_i going
      rw [ih]
      obtain ⟨h, member, halts⟩ := halted
      rcases List.mem_cons.mp member with rfl | later
      · simp [halts] at going
      · exact ⟨h, later, halts⟩
    · rfl

theorem halted_late (idle : s.resumes = 0) (halted : ∃ h ∈ s.strand, h.halts = true)
    (more : List SessionHandler) :
    ({ s with strand := s.strand ++ more } : ProxyDataSession).early = false := by
  have before := early_idle idle
  simp only [early, takeWhile_halted halted more] at before ⊢
  exact before

theorem complete_falls (placed : s.Placed) (doomed : s.Doomed) (suspended : s.suspended = true)
    (failure : Option Exception) : (s.post (.resume failure)).rank < s.rank := by
  obtain ⟨active, idle⟩ := suspended_iff.mp suspended
  have before := rank_waiting active idle
  have resumed : (s.post (.resume failure)).resumes = 1 := by
    simp only [resumes, ProxyDataSession.post, List.countP_append]
    change s.resumes + 1 = 1
    omega
  have load : (s.post (.resume failure)).load = 5 :=
    (load_active (s := s.post (.resume failure)) active).trans (if_neg (by omega))
  have late : (s.post (.resume failure)).early = false := by
    have entered := (placed.entered active).1
    rcases doomed with done | stopped | stop | read
    · simp [done] at entered
    · exact early_cancelled (entered.resolve_left fun running => by simp [running] at stopped).2
    · exact halted_late idle ⟨_, stop, rfl⟩ _
    · exact halted_late idle ⟨_, read, rfl⟩ _
  have strand : weigh (s.post (.resume failure)).strand = weigh s.strand + 1 := weigh_append _ _
  have unstopped : (s.post (.resume failure)).unstopped = s.unstopped := rfl
  rw [rank_late late, load, strand, unstopped]
  omega

theorem execute_lost (idle : s.phase.working = false) (h : SessionHandler) :
    (s.execute false h).toOther = [] ∧ (s.execute false h).own.phase.working = false := by
  have execution := executed s false h
  cases h with
  | start | stop | emit | otherDone _ =>
    refine ⟨?_, ?_⟩
    · simp only [execute, quietly, stopBody]
      try split <;> rfl
    · rcases execution.unresumed rfl with same | preparing
      · rw [same, idle]
      · rw [preparing]
        rfl
  | resume failure =>
    cases active : s.phase.active with
    | false =>
      have still : s.resume false failure = quietly s := by
        unfold resume
        cases phase : s.phase <;> simp_all [SessionPhase.active]
      simp only [execute, still, quietly]
      exact ⟨trivial, idle⟩
    | true =>
      have cases := resume_cases active false failure
      simp only [execute]
      revert cases
      generalize s.resume false failure = o
      intro cases
      have preparing : s.phase = .preparing := by
        cases phase : s.phase <;> simp_all [SessionPhase.active, SessionPhase.working]
      cases cases with
      | unprepared | preparedLate | alone => exact ⟨rfl, rfl⟩
      | reads before =>
        rcases before with ⟨_, alive⟩ | writing
        · cases alive
        · simp [preparing] at writing
      | loopOver before =>
        rcases before with ⟨_, _, alive⟩ | writing
        · cases alive
        · simp [preparing] at writing
      | writes before | readCancelled before | writeCancelled before | readFails before
        | writeFails before => simp [preparing] at before

end ProxyDataSession

namespace ProxyPair

open ProxyDataSession

variable {p q : ProxyPair} {x y : Side}

/-- What the threads of the strands and the sockets do by themselves. -/
def Action.internal : Action → Bool
  | .run _ | .complete _ _ => true
  | .start _ | .stop _ | .emit _ | .release _ => false

def rank (p : ProxyPair) : Nat := (p.session .a).rank + (p.session .b).rank

theorem rank_sides (p : ProxyPair) (x : Side) :
    p.rank = (p.session x).rank + (p.session x.other).rank := by
  cases x with
  | a => rfl
  | b => exact Nat.add_comm _ _

theorem alive_false : p.alive x = false ↔ p.held x = false ∧ (p.session x).strand = [] ∧
    (p.session x).phase.active = false ∧ (p.session x.other).phase.working = false := by
  simp [alive, and_assoc]

theorem runHead_falls (ok : PairOk p) (ran : p.runHead x = some q) : q.rank < p.rank := by
  obtain ⟨h, rest, o, head, output, _, own, other, _⟩ := runHead_output ran
  have same : p.session x = ({ p.session x with strand := rest } : ProxyDataSession).front h := by
    simp only [front, ← head]
  have falls := execute_falls (same ▸ ok.sessions x) (p.alive x.other)
  rw [← output, ← same] at falls
  have unresumed : o.toOther.countP resumed = 0 := by
    rw [output]
    exact toOther_countP resumed rfl (fun _ => rfl) _ _ _
  rw [rank_sides q x, rank_sides p x, own, other, rank_post _ unresumed]
  omega

theorem lost_next {a : Action} (lost : p.alive y = false) (taken : machine.next p a = some q) :
    q.alive y = false := by
  obtain ⟨released, drained, inactive, alone⟩ := alive_false.mp lost
  have elsewhere {z : Side} (alive : p.alive z = true) : z ≠ y := by
    intro same
    rw [same, lost] at alive
    cases alive
  have posted {z : Side} (other : z ≠ y) (h : SessionHandler) : (p.post z h).alive y = false := by
    have here : (p.post z h).session y = p.session y := by rw [post_session, if_neg (Ne.symm other)]
    have there : ((p.post z h).session y.other).phase = (p.session y.other).phase := by
      rw [post_session]
      split <;> rfl
    refine alive_false.mpr ⟨released, ?_, ?_, ?_⟩
    · rw [here, drained]
    · rw [here, inactive]
    · rw [there, alone]
  cases a with
  | start z | stop z | emit z =>
    simp only [machine] at taken
    split at taken
    · rename_i alive
      cases taken
      exact posted (elsewhere alive) _
    · cases taken
  | release z =>
    cases taken
    refine alive_false.mpr ⟨?_, drained, inactive, alone⟩
    by_cases own : y = z <;> simp [release, own]
    simpa [own] using released
  | complete z failure =>
    simp only [machine] at taken
    split at taken
    · rename_i suspended
      cases taken
      have other : z ≠ y := by
        intro same
        rw [same, suspended_iff, inactive] at suspended
        cases suspended.1
      exact posted other _
    · cases taken
  | run z =>
    obtain ⟨h, rest, o, head, output, _, own, other, _, held⟩ := runHead_output taken
    rcases Side.eq_or_other z y with rfl | rfl
    · rw [drained] at head
      cases head
    · rw [Side.other_other] at alone
      rw [lost] at output
      obtain ⟨silent, idle⟩ := execute_lost (s := { p.session z with strand := rest }) alone h
      rw [← output] at silent idle
      refine alive_false.mpr ⟨by rw [held, released], ?_, ?_, ?_⟩
      · rw [other, silent, List.append_nil, drained]
      · rw [other, inactive]
      · rw [Side.other_other, own, idle]

/-- A stop of the session is on its way or has come, or the session is gone. -/
def Halts (p : ProxyPair) (x : Side) : Prop := (p.session x).Doomed ∨ p.alive x = false

theorem halts_next {a : Action} (halts : Halts p y) (taken : machine.next p a = some q) : Halts q y := by
  refine halts.imp (fun doomed => ?_) fun lost => lost_next lost taken
  by_cases runs : ∃ x, a = .run x
  · obtain ⟨x, rfl⟩ := runs
    obtain ⟨h, rest, sent, head, executed, other, _⟩ := runHead_spec taken
    rcases Side.eq_or_other x y with rfl | rfl
    · exact doomed.executed head executed
    · rw [other]
      exact doomed.post sent
  · obtain ⟨more, same⟩ := (next_quiet taken fun x same => runs ⟨x, same⟩).1 y
    rw [same]
    exact doomed.post more

/-- A session that is stopped has stopped the other one, if that was still there. -/
def StopsBoth (p : ProxyPair) : Prop :=
  ∀ x, (p.session x).task.state = .stopped → Halts p x.other

theorem stopsBoth_next {a : Action} (kept : StopsBoth p) (taken : machine.next p a = some q) :
    StopsBoth q := by
  intro x stopped
  by_cases before : (p.session x).task.state = .stopped
  · exact halts_next (kept x before) taken
  · cases there : p.alive x.other with
    | false => exact .inr (lost_next there taken)
    | true =>
      obtain ⟨enters, sends⟩ := first_stop taken before stopped
      cases a with
      | run z =>
        simp only [entersOnStop, Bool.and_eq_true, decide_eq_true_eq] at enters
        obtain ⟨⟨rfl, _⟩, _⟩ := enters
        exact .inl (.inr (.inr (.inl (sends fun _ same => (Action.run.inj same) ▸ there))))
      | start | stop | emit | release | complete => simp [entersOnStop] at enters

theorem stopsBoth (reached : machine.Reachable p) : StopsBoth p :=
  reached.invariant (fun _ stopped => (by cases stopped)) fun _ _ _ => stopsBoth_next

theorem internal_falls {a : Action} (ok : PairOk p) (halts : ∀ x, Halts p x)
    (internal : a.internal = true) (taken : machine.next p a = some q) : q.rank < p.rank := by
  cases a with
  | run x => exact runHead_falls ok taken
  | complete x failure =>
    simp only [machine] at taken
    split at taken
    · rename_i suspended
      cases taken
      have doomed := (halts x).resolve_right fun lost => by
        simp [(suspended_iff.mp suspended).1, alive] at lost
      have falls := complete_falls (ok.sessions x).placed doomed suspended failure
      have here : (p.complete x failure).session x = (p.session x).post (.resume failure) :=
        (post_session p x x _).trans (if_pos rfl)
      have there : (p.complete x failure).session x.other = p.session x.other :=
        (post_session p x x.other _).trans (if_neg (Side.other_ne x))
      rw [rank_sides _ x, rank_sides p x, here, there]
      omega
    · cases taken
  | start _ | stop _ | emit _ | release _ => cases internal

theorem ranked : machine.Ranked (fun p => machine.Reachable p ∧ ∀ x, Halts p x)
    (fun a => a.internal = true) rank where
  keeps _ _ _ both _ taken := ⟨both.1.step taken, fun x => halts_next (both.2 x) taken⟩
  falls _ _ _ both internal taken := internal_falls (pairOk both.1) both.2 internal taken

theorem quiescent_iff : machine.Stuck (fun a => a.internal = true) p ↔ Quiescent p := by
  constructor
  · intro stuck x
    have drained : (p.session x).strand = [] := by
      have idle := stuck (.run x) rfl
      simp only [machine, runHead] at idle
      split at idle
      · assumption
      · cases idle
    refine ⟨drained, ?_⟩
    by_contra active
    have suspended : (p.session x).suspended = true :=
      suspended_iff.mpr ⟨by simpa using active, by simp [resumes, drained]⟩
    have idle := stuck (.complete x none) rfl
    simp [machine, suspended] at idle
  · intro quiescent a internal
    cases a with
    | run x => simp only [machine, runHead, (quiescent x).1]
    | complete x failure =>
      have idle : (p.session x).suspended = false := by
        simp [suspended, (quiescent x).2]
      simp [machine, idle]
    | start _ | stop _ | emit _ | release _ => cases internal

theorem Quiescent.ops (ok : PairOk p) (quiescent : Quiescent p) : p.ops = [] := by
  rw [List.eq_nil_iff_forall_not_mem]
  intro op member
  have own : op ∈ p.opsOf op.issuer := List.mem_filter.mpr ⟨member, by simp⟩
  have idle : (p.session op.issuer).suspended = false := by
    simp [suspended, (quiescent op.issuer).2]
  rw [(ok.sessions op.issuer).ops, outstanding, idle] at own
  cases own

/-- Once a session has been stopped, both loops come to an end by themselves, in whatever order
    the strands run their handlers and the sockets complete what they were asked for. -/
theorem stop_ends (reached : machine.Reachable p) (stopped : (p.session x).task.state = .stopped)
    {as : List Action} (internal : ∀ a ∈ as, a.internal = true) (ran : machine.run p as = some q) :
    as.length ≤ p.rank ∧ (machine.Stuck (fun a => a.internal = true) q ↔ Quiescent q) ∧
      ∃ bs r, (∀ b ∈ bs, b.internal = true) ∧ machine.run q bs = some r ∧ Quiescent r ∧ r.ops = [] := by
  have halts : ∀ y, Halts p y :=
    (Side.forall_iff x).mpr ⟨.inl (.inr (.inl stopped)), stopsBoth reached x stopped⟩
  obtain ⟨later, bound⟩ := ranked.run_le ⟨reached, halts⟩ internal ran
  obtain ⟨bs, r, kinds, carried, stuck⟩ := ranked.settles later
  have quiescent := quiescent_iff.mp stuck
  have ended : machine.Reachable r := later.1.trans ⟨bs, carried⟩
  exact ⟨by omega, quiescent_iff, bs, r, kinds, carried, quiescent, quiescent.ops (pairOk ended)⟩

def stoppedInRead : List Action :=
  [.start .a, .start .b, .run .a, .run .b, .complete .a none, .complete .b none, .run .a, .run .b,
    .stop .a, .run .a]

/-- A read of `b` has completed before the stop reaches it. -/
def endsAfterRead : List Action :=
  [.complete .b none, .complete .a (some (.systemError .operationCanceled)), .run .b, .run .b, .run .a,
    .run .a, .run .b, .run .b, .run .a, .run .a]

theorem stop_ends_reading : ∃ p q : ProxyPair, machine.run machine.initial stoppedInRead = some p ∧
    machine.run p endsAfterRead = some q ∧ endsAfterRead.length ≤ p.rank ∧
    ∃ bs r, (∀ b ∈ bs, b.internal = true) ∧ machine.run q bs = some r ∧ Quiescent r ∧ r.ops = [] := by
  have ends (p q : ProxyPair) (ran : machine.run machine.initial stoppedInRead = some p)
      (stopped : (p.session .a).task.state = .stopped) (on : machine.run p endsAfterRead = some q) :=
    stop_ends ⟨stoppedInRead, ran⟩ stopped (by decide) on
  obtain ⟨bound, _, carried⟩ := ends _ _ rfl rfl rfl
  exact ⟨_, _, rfl, rfl, bound, carried⟩

end ProxyPair

end BoostBase
