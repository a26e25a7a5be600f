import BoostBase.Network.ProxyInvariant
import BoostBase.Network.SocketOwners

namespace BoostBase

open Asio Transition LastOut

/-- A proxy with the two sessions it connects: `m_first` is side `a`, the session it gets side
    `b`. `handedOver` tells that `mutate` has taken the socket of a session, `closed` that
    `closeSocket` was called on it. -/
structure ProxySockets where
  proxy : Proxy
  autoClose : Side → Bool
  handedOver : Side → Bool
  closed : Side → Bool

namespace ProxySockets

/-- The stage that has succeeded if the next step of `run` resumes it without a failure. -/
def passed (p : Proxy) : Proxy.Action → Option ProxyPhase
  | .run => if p.strand.head? = some (.resume none) then some p.phase else none
  | _ => none

def switchOff (s : ProxySockets) (x : Side) : ProxySockets :=
  { s with autoClose := Function.update s.autoClose x false }

/-- What `run` does to the sessions after a stage, before its next `co_await`. -/
def goOn (s : ProxySockets) : Option ProxyPhase → ProxySockets
  | some .getSession => s.switchOff .a
  | some .firstWork => s.switchOff .b
  | some .secondWork => { s with handedOver := fun _ => true }
  | _ => s

def closeSocket (s : ProxySockets) (x : Side) : ProxySockets :=
  { s with closed := Function.update s.closed x true }

def closeAuto (s : ProxySockets) (x : Side) : ProxySockets :=
  if s.autoClose x then s.closeSocket x else s

def worked (s : ProxySockets) : Proxy.Action → ProxySockets
  | .complete _ =>
    match s.proxy.phase with
    | .firstWork => s.closeAuto .a
    | .secondWork => s.closeAuto .b
    | _ => s
  | _ => s

/-- `mutate` of the session of `x` throws; that of `m_first` comes first, and `p1` is gone with
    the frame of `run`. -/
def unwind (s : ProxySockets) (rest : List ProxyHandler) (x : Side) (exit : MutateThrow) (e : Exception) :
    ProxySockets :=
  { s with
    proxy := ({ s.proxy with strand := rest } : Proxy).endRun (some e)
    handedOver := fun y => if y = x then exit.handsOver else x = .b }

/-- `closeSocket` is a call by anyone else; `run` itself makes none. -/
inductive Action
  | proxy (a : Proxy.Action)
  | mutateThrows (x : Side) (exit : MutateThrow) (e : Exception)
  | closeSocket (x : Side)
  deriving DecidableEq

def machine : Machine ProxySockets Action where
  initial := ⟨.new, fun _ => true, fun _ => false, fun _ => false⟩
  next s
    | .proxy a =>
      (Proxy.machine.next s.proxy a).map fun q => { (s.worked a).goOn (passed s.proxy a) with proxy := q }
    | .mutateThrows x exit e =>
      match s.proxy.strand with
      | .resume none :: rest =>
        if s.proxy.phase = .secondWork then some (s.unwind rest x exit e) else none
      | _ => none
    | .closeSocket x => some (s.closeSocket x)

def Fails (p q : Proxy) : Prop := p.phase.isOver = false ∧ ∃ e, q.phase = .ended (some e)

/-- When `run` ends with an exception, every session whose auto-close it has switched off and
    whose socket it has not handed over was closed. -/
def ClosesBehind (s : ProxySockets) (_ : Action) (t : ProxySockets) : Prop :=
  Fails s.proxy t.proxy → ∀ x, t.autoClose x = false → t.handedOver x = false → t.closed x = true

/-- `run` leaves in this step, between its first `setSocketAutoClose(false)` and the second
    `mutate`: what it awaits has failed, or its coroutine is cancelled before the next `co_await`. -/
def failsBetween (p : Proxy) : Proxy.Action → Bool
  | .run =>
    match p.strand.head? with
    | some (.resume (some _)) => p.phase = .firstWork || p.phase = .secondWork
    | some (.resume none) => (p.phase = .getSession || p.phase = .firstWork) && p.cancelled
    | _ => false
  | _ => false

/-- `run` does not fail between its first `setSocketAutoClose(false)` and the end of the second
    `mutate`, unless that one throws when its new session has had the socket. -/
def Unfailing (s : ProxySockets) (a : Action) (_ : ProxySockets) : Prop :=
  match a with
  | .proxy b => failsBetween s.proxy b = false
  | .mutateThrows x exit _ => x = .b ∧ exit.handsOver = true
  | .closeSocket _ => True

variable {s t : ProxySockets} {p q : Proxy}

def Switched (s : ProxySockets) : Prop :=
  match s.proxy.phase with
  | .idle | .getSession => (∀ x, s.autoClose x = true) ∧ ∀ x, s.handedOver x = false
  | .firstWork => s.autoClose .a = false ∧ s.autoClose .b = true ∧ ∀ x, s.handedOver x = false
  | .secondWork => (∀ x, s.autoClose x = false) ∧ ∀ x, s.handedOver x = false
  | .handoff | .awaitSecond => ∀ x, s.handedOver x = true
  | .ended _ => True

def following : ProxyPhase → ProxyPhase
  | .getSession => .firstWork
  | .firstWork => .secondWork
  | .secondWork => .handoff
  | phase => phase

theorem endRun_isOver (p : Proxy) (e : Option Exception) : (p.endRun e).phase.isOver = true := rfl

theorem emit_phase (p : Proxy) : p.emit.phase = p.phase := by
  unfold Proxy.emit
  split <;> rfl

theorem stopBody_phase (p : Proxy) : p.stopBody.phase = p.phase := by
  rw [Proxy.stopBody_eq]
  split
  · rfl
  · exact emit_phase p

theorem await_phase (p : Proxy) (phase : ProxyPhase) :
    (p.await phase).phase.isOver = true ∨ (p.await phase).phase = phase := by
  unfold Proxy.await
  split
  · exact .inl (endRun_isOver p _)
  · exact .inr rfl

inductive Moved (before after : ProxyPhase) : Option ProxyPhase → Prop
  | ends (isOver : after.isOver = true) (stage : Option ProxyPhase) : Moved before after stage
  | stays (same : after = before) : Moved before after none
  | begins (idle : before = .idle) (begun : after = .getSession) : Moved before after none
  | joins (handoff : before = .handoff) (joined : after = .awaitSecond) : Moved before after none
  | passes (next : after = following before) : Moved before after (some before)

theorem resume_moved (p : Proxy) : Moved p.phase (p.resume none).phase (some p.phase) := by
  have awaits {phase : ProxyPhase} (next : phase = following p.phase) :
      Moved p.phase (p.await phase).phase (some p.phase) := by
    rcases await_phase p phase with isOver | same
    · exact .ends isOver _
    · exact .passes (same.trans next)
  cases phase : p.phase with
  | getSession =>
    simp only [Proxy.resume, phase]
    rw [← phase]
    exact awaits (by rw [phase]; rfl)
  | firstWork =>
    simp only [Proxy.resume, phase]
    rw [← phase]
    exact awaits (by rw [phase]; rfl)
  | secondWork =>
    simp only [Proxy.resume, phase]
    rw [← phase]
    exact .passes (by rw [phase]; rfl)
  | awaitSecond =>
    simp only [Proxy.resume, phase]
    exact .ends (endRun_isOver _ _) _
  | idle | handoff | ended _ =>
    simp only [Proxy.resume, phase]
    rw [← phase]
    exact .passes (by rw [phase]; rfl)

theorem moved (ok : Proxy.ProxyOk p) {a : Proxy.Action} (taken : Proxy.machine.next p a = some q) :
    Moved p.phase q.phase (passed p a) := by
  cases a with
  | start | stop | cancel =>
    cases taken
    exact .stays rfl
  | complete failure =>
    simp only [Proxy.machine, Option.ite_none_right_eq_some, Option.some.injEq] at taken
    obtain ⟨_, rfl⟩ := taken
    exact .stays rfl
  | completeData x failure =>
    simp only [Proxy.machine, Option.ite_none_right_eq_some, Option.some.injEq] at taken
    obtain ⟨_, rfl⟩ := taken
    exact .stays rfl
  | runData x =>
    simp only [Proxy.machine, Option.map_eq_some_iff] at taken
    obtain ⟨pair, _, rfl⟩ := taken
    exact .stays (Proxy.ranData_same p x pair).1
  | startSecond =>
    simp only [Proxy.machine, Option.ite_none_right_eq_some, Option.some.injEq] at taken
    obtain ⟨handoff, rfl⟩ := taken
    unfold Proxy.startSecond
    split
    · exact .ends (endRun_isOver p _) _
    · exact .joins handoff rfl
  | run =>
    simp only [Proxy.machine, Option.ite_none_left_eq_some] at taken
    obtain ⟨free, taken⟩ := taken
    split at taken
    · cases taken
    · rename_i h rest head
      cases taken
      have other (fails : h ≠ .resume none) : passed p .run = none := by
        simp [passed, head, fails]
      cases h with
      | start =>
        rw [other (by simp)]
        simp only [Proxy.execute, Proxy.startBody]
        split
        · exact .stays rfl
        · rename_i entered
          exact .begins (ok.placed.idle (CoroutineTask.enter_ok.mp entered).1) rfl
      | stop =>
        rw [other (by simp)]
        exact .stays (stopBody_phase _)
      | emit =>
        rw [other (by simp)]
        exact .stays (emit_phase _)
      | resume failure =>
        cases failure with
        | some e => exact .ends (endRun_isOver _ _) _
        | none =>
          have succeeded : passed p .run = some p.phase := by simp [passed, head]
          rw [succeeded]
          exact resume_moved { p with strand := rest }

theorem switched_moved (kept : Switched s) {stage : Option ProxyPhase}
    (moved : Moved s.proxy.phase q.phase stage) : Switched { s.goOn stage with proxy := q } := by
  have over_ (isOver : q.phase.isOver = true) (r : ProxySockets) : Switched { r with proxy := q } := by
    unfold Switched
    cases phase : q.phase with
    | ended e => trivial
    | idle | getSession | firstWork | secondWork | handoff | awaitSecond =>
      simp [phase, ProxyPhase.isOver] at isOver
  unfold Switched at kept
  cases moved with
  | ends isOver => exact over_ isOver _
  | stays same =>
    unfold Switched
    rw [same]
    exact kept
  | begins idle begun =>
    unfold Switched
    rw [idle] at kept
    simp only [begun]
    exact kept
  | joins handoff joined =>
    unfold Switched
    rw [handoff] at kept
    simp only [joined]
    exact kept
  | passes next =>
    unfold Switched
    cases phase : s.proxy.phase with
    | getSession =>
      rw [phase] at kept next
      simp only [next, following, goOn, switchOff]
      exact ⟨rfl, kept.1 .b, kept.2⟩
    | firstWork =>
      rw [phase] at kept next
      simp only [next, following, goOn, switchOff]
      refine ⟨(Side.forall_iff .a).mpr ⟨kept.1, rfl⟩, kept.2.2⟩
    | secondWork =>
      rw [phase] at next
      simp only [next, following, goOn]
      exact fun _ => trivial
    | idle | handoff | awaitSecond =>
      rw [phase] at kept next
      simp only [next, following, goOn]
      exact kept
    | ended e =>
      rw [phase] at next
      simp only [next, following]

theorem worked_eq (kept : Switched s) (a : Proxy.Action) : s.worked a = s := by
  unfold Switched at kept
  unfold worked
  split
  · split
    · rename_i phase
      rw [phase] at kept
      simp [closeAuto, kept.1]
    · rename_i phase
      rw [phase] at kept
      simp [closeAuto, kept.1 .b]
    · rfl
  · rfl

theorem mutateThrows_taken {x : Side} {exit : MutateThrow} {e : Exception}
    (taken : machine.next s (.mutateThrows x exit e) = some t) :
    ∃ rest, s.proxy.strand = .resume none :: rest ∧ s.proxy.phase = .secondWork ∧
      t = s.unwind rest x exit e := by
  simp only [machine] at taken
  split at taken
  · rename_i rest head
    simp only [Option.ite_none_right_eq_some, Option.some.injEq] at taken
    exact ⟨rest, head, taken.1, taken.2.symm⟩
  · cases taken

theorem unwind_handedOver (s : ProxySockets) (rest : List ProxyHandler) (x : Side) (exit : MutateThrow)
    (e : Exception) :
    (∀ y, (s.unwind rest x exit e).handedOver y = true) ↔ x = .b ∧ exit.handsOver = true := by
  rw [Side.forall_iff .a]
  cases x <;> simp [unwind, Side.other]

theorem unwind_ok (ok : s.proxy.ProxyOk) {rest : List ProxyHandler}
    (head : s.proxy.strand = .resume none :: rest) (phase : s.proxy.phase = .secondWork) (x : Side)
    (exit : MutateThrow) (e : Exception) : (s.unwind rest x exit e).proxy.ProxyOk := by
  have stage : s.proxy.phase.stage = true := by
    rw [phase]
    rfl
  obtain ⟨popped, idle⟩ := Proxy.stage_resumed ok stage head
  obtain ⟨_, _, unmade⟩ := (Proxy.placed_stage stage).mp ok.placed
  exact Proxy.endRun_ok popped.reached popped.once idle (.inl (unmade ▸ Proxy.unmade_new)) _

theorem switched_next {a : Action} (ok : s.proxy.ProxyOk) (kept : Switched s)
    (taken : machine.next s a = some t) : t.proxy.ProxyOk ∧ Switched t := by
  cases a with
  | proxy a =>
    simp only [machine, Option.map_eq_some_iff] at taken
    obtain ⟨q, ran, rfl⟩ := taken
    rw [worked_eq kept]
    exact ⟨Proxy.ok_next ok ran, switched_moved kept (moved ok ran)⟩
  | mutateThrows x exit e =>
    obtain ⟨rest, head, phase, rfl⟩ := mutateThrows_taken taken
    exact ⟨unwind_ok ok head phase x exit e, trivial⟩
  | closeSocket x =>
    cases taken
    exact ⟨ok, kept⟩

/-- The sessions that `run` answers for if it ends in the next step. -/
def exposed (p : Proxy) (a : Proxy.Action) : List Side :=
  match p.phase, passed p a with
  | .getSession, some _ => [.a]
  | .firstWork, none => [.a]
  | .firstWork, some _ => [.a, .b]
  | .secondWork, none => [.a, .b]
  | _, _ => []

theorem exposed_iff (kept : Switched s) (inside : s.proxy.phase.isOver = false)
    (a : Proxy.Action) (x : Side) :
    x ∈ exposed s.proxy a ↔ (s.goOn (passed s.proxy a)).autoClose x = false ∧
      (s.goOn (passed s.proxy a)).handedOver x = false := by
  have stage : passed s.proxy a = none ∨ passed s.proxy a = some s.proxy.phase := by
    unfold passed
    split
    · split
      · exact .inr rfl
      · exact .inl rfl
    · exact .inl rfl
  unfold Switched at kept
  unfold exposed
  cases phase : s.proxy.phase with
  | idle | getSession | firstWork | secondWork | handoff | awaitSecond =>
    rw [phase] at kept stage
    rcases stage with none_ | some_
    · rw [none_]
      cases x <;> simp_all [goOn]
    · rw [some_]
      cases x <;> simp_all [goOn, switchOff]
  | ended e => simp [phase, ProxyPhase.isOver] at inside

/-- What `run` awaits has failed, or its coroutine is cancelled before the next `co_await`. -/
def failing (p : Proxy) : Proxy.Action → Bool
  | .run =>
    match p.strand.head? with
    | some (.resume (some _)) => !p.phase.isOver
    | some (.resume none) => (p.phase = .getSession || p.phase = .firstWork) && p.cancelled
    | _ => false
  | .startSecond => p.cancelled
  | _ => false

theorem goes_on (moves : q.phase = p.phase ∨ q.phase.isOver = false) : ¬ Fails p q := by
  rintro ⟨inside, e, ended⟩
  rcases moves with same | inside_
  · rw [← same, ended] at inside
    cases inside
  · rw [ended] at inside_
    cases inside_

theorem await_fails (p : Proxy) {phase : ProxyPhase} (inside : p.phase.isOver = false)
    (next : phase.isOver = false) : Fails p (p.await phase) ↔ p.cancelled = true := by
  unfold Proxy.await
  cases p.cancelled with
  | true => exact iff_of_true ⟨inside, _, rfl⟩ rfl
  | false =>
    rw [if_neg Bool.false_ne_true]
    exact iff_of_false (goes_on (.inr next)) Bool.false_ne_true

theorem resume_fails (p : Proxy) :
    Fails p (p.resume none) ↔ (p.phase = .getSession ∨ p.phase = .firstWork) ∧ p.cancelled = true := by
  unfold Proxy.resume
  cases phase : p.phase with
  | getSession | firstWork =>
    have inside : p.phase.isOver = false := by
      rw [phase]
      rfl
    refine (await_fails p inside (by rfl)).trans ?_
    simp
  | secondWork => exact iff_of_false (goes_on (.inr rfl)) (by simp)
  | awaitSecond => exact iff_of_false (fun ⟨_, _, ended⟩ => by cases ended) (by simp)
  | idle | handoff | ended _ => exact iff_of_false (goes_on (.inl rfl)) (by simp)

theorem fails_iff {a : Proxy.Action} (taken : Proxy.machine.next p a = some q) :
    Fails p q ↔ failing p a = true := by
  cases a with
  | start | stop | cancel =>
    cases taken
    exact iff_of_false (goes_on (.inl rfl)) (by simp [failing])
  | complete failure | completeData x failure =>
    simp only [Proxy.machine, Option.ite_none_right_eq_some, Option.some.injEq] at taken
    obtain ⟨_, rfl⟩ := taken
    exact iff_of_false (goes_on (.inl rfl)) (by simp [failing])
  | runData x =>
    simp only [Proxy.machine, Option.map_eq_some_iff] at taken
    obtain ⟨pair, _, rfl⟩ := taken
    exact iff_of_false (goes_on (.inl (Proxy.ranData_same p x pair).1)) (by simp [failing])
  | startSecond =>
    simp only [Proxy.machine, Option.ite_none_right_eq_some, Option.some.injEq] at taken
    obtain ⟨handoff, rfl⟩ := taken
    have inside : p.phase.isOver = false := by
      rw [handoff]
      rfl
    unfold Proxy.startSecond
    change Fails p _ ↔ p.cancelled = true
    by_cases cancelled : p.cancelled = true
    · rw [if_pos cancelled]
      exact iff_of_true ⟨inside, _, rfl⟩ cancelled
    · rw [if_neg cancelled]
      exact iff_of_false (goes_on (.inr rfl)) cancelled
  | run =>
    simp only [Proxy.machine, Option.ite_none_left_eq_some] at taken
    obtain ⟨_, taken⟩ := taken
    split at taken
    · cases taken
    · rename_i h rest head
      cases taken
      cases h with
      | start =>
        refine iff_of_false (goes_on ?_) (by simp [failing, head])
        simp only [Proxy.execute, Proxy.startBody]
        split
        · exact .inl rfl
        · exact .inr rfl
      | stop => exact iff_of_false (goes_on (.inl (stopBody_phase _))) (by simp [failing, head])
      | emit => exact iff_of_false (goes_on (.inl (emit_phase _))) (by simp [failing, head])
      | resume failure =>
        cases failure with
        | some e =>
          have fails : failing p .run = !p.phase.isOver := by simp [failing, head]
          rw [fails, Bool.not_eq_true']
          exact and_iff_left ⟨e, rfl⟩
        | none =>
          refine (resume_fails { p with strand := rest }).trans ?_
          simp [failing, head]

theorem failsBetween_iff {a : Proxy.Action} (taken : Proxy.machine.next p a = some q) :
    failsBetween p a = true ↔ Fails p q ∧ ∃ x, x ∈ exposed p a := by
  rw [fails_iff taken]
  have aside (stage : passed p a = none) (early : p.phase ≠ .firstWork) (late : p.phase ≠ .secondWork) :
      ¬ ∃ x, x ∈ exposed p a := by
    unfold exposed
    rw [stage]
    cases phase : p.phase <;> simp_all
  cases a with
  | start | stop | cancel | complete failure | completeData x failure | runData x =>
    simp [failsBetween, failing]
  | startSecond =>
    simp only [Proxy.machine, Option.ite_none_right_eq_some] at taken
    refine iff_of_false Bool.false_ne_true fun both => aside rfl ?_ ?_ both.2
    · simp [taken.1]
    · simp [taken.1]
  | run =>
    cases head : p.strand.head? with
    | none => simp [failsBetween, failing, head]
    | some h =>
      cases h with
      | start | stop | emit => simp [failsBetween, failing, head]
      | resume failure =>
        cases failure with
        | some e =>
          have stage : passed p .run = none := by simp [passed, head]
          cases phase : p.phase <;>
            simp [failsBetween, failing, head, exposed, stage, phase, ProxyPhase.isOver]
        | none =>
          have stage : passed p .run = some p.phase := by simp [passed, head]
          cases phase : p.phase <;> simp [failsBetween, failing, head, exposed, stage, phase]

theorem ClosesBehind.of_unfailing {a : Action} (kept : Switched s) (taken : machine.next s a = some t)
    (goes : Unfailing s a t) : ClosesBehind s a t := by
  cases a with
  | proxy a =>
    simp only [machine, Option.map_eq_some_iff] at taken
    obtain ⟨q, ran, rfl⟩ := taken
    rw [worked_eq kept]
    intro fails x off own
    have member := (exposed_iff kept fails.1 a x).mpr ⟨off, own⟩
    have between := (failsBetween_iff ran).mpr ⟨fails, x, member⟩
    exact absurd between (Bool.eq_false_iff.mp goes)
  | mutateThrows x exit e =>
    obtain ⟨rest, _, _, rfl⟩ := mutateThrows_taken taken
    rintro _ y _ own
    rw [(unwind_handedOver s rest x exit e).mpr goes y] at own
    cases own
  | closeSocket x =>
    cases taken
    intro fails
    obtain ⟨inside, e, ended⟩ := fails
    have ended : s.proxy.phase = .ended (some e) := ended
    rw [ended] at inside
    cases inside

theorem goOn_closed (s : ProxySockets) (stage : Option ProxyPhase) : (s.goOn stage).closed = s.closed := by
  unfold goOn
  split <;> rfl

theorem closed_next {a : Action} (kept : Switched s) (alone : ∀ x, a ≠ .closeSocket x)
    (taken : machine.next s a = some t) : t.closed = s.closed := by
  cases a with
  | proxy a =>
    simp only [machine, Option.map_eq_some_iff] at taken
    obtain ⟨q, _, rfl⟩ := taken
    rw [worked_eq kept]
    exact goOn_closed s _
  | mutateThrows x exit e =>
    obtain ⟨rest, _, _, rfl⟩ := mutateThrows_taken taken
    rfl
  | closeSocket x => exact absurd rfl (alone x)

theorem Unfailing.of_closesBehind {a : Action} (kept : Switched s) (open_ : ∀ x, s.closed x = false)
    (alone : ∀ x, a ≠ .closeSocket x) (taken : machine.next s a = some t) (closes : ClosesBehind s a t) :
    Unfailing s a t := by
  have unclosed := closed_next kept alone taken
  cases a with
  | proxy a =>
    simp only [machine, Option.map_eq_some_iff] at taken
    obtain ⟨q, ran, rfl⟩ := taken
    rw [worked_eq kept] at closes unclosed
    change failsBetween s.proxy a = false
    rw [Bool.eq_false_iff]
    intro between
    obtain ⟨fails, x, member⟩ := (failsBetween_iff ran).mp between
    obtain ⟨off, own⟩ := (exposed_iff kept fails.1 a x).mp member
    have closed := closes fails x off own
    rw [unclosed, open_ x] at closed
    cases closed
  | mutateThrows x exit e =>
    obtain ⟨rest, _, phase, rfl⟩ := mutateThrows_taken taken
    unfold Switched at kept
    rw [phase] at kept
    have fails : Fails s.proxy (s.unwind rest x exit e).proxy := by
      refine ⟨?_, e, rfl⟩
      rw [phase]
      rfl
    refine (unwind_handedOver s rest x exit e).mp fun y => ?_
    by_contra own
    have closed := closes fails y (kept.1 y) (Bool.not_eq_true _ ▸ own)
    rw [unclosed, open_ y] at closed
    cases closed
  | closeSocket x => exact trivial

/-- A proxy that does not fail between its first `setSocketAutoClose(false)` and the end of the
    second `mutate` leaves nothing open, in any run; and only such a proxy does, as long as
    nobody else calls `closeSocket` on its sessions. -/
theorem closes_behind_iff (as : List Action) :
    (machine.Always Unfailing machine.initial as → machine.Always ClosesBehind machine.initial as) ∧
      ((∀ x, Action.closeSocket x ∉ as) →
        (machine.Always ClosesBehind machine.initial as ↔ machine.Always Unfailing machine.initial as)) := by
  have start : machine.initial.proxy.ProxyOk ∧ Switched machine.initial :=
    ⟨Proxy.proxyOk .initial, fun _ => rfl, fun _ => rfl⟩
  have enough : machine.Always Unfailing machine.initial as →
      machine.Always ClosesBehind machine.initial as :=
    Machine.Always.imp (I := fun s => s.proxy.ProxyOk ∧ Switched s) (A := fun _ => True)
      (fun _ _ _ kept _ taken => switched_next kept.1 kept.2 taken)
      (fun _ _ _ kept _ taken => ClosesBehind.of_unfailing kept.2 taken) start fun _ _ => trivial
  refine ⟨enough, fun alone => ⟨fun closes => ?_, enough⟩⟩
  refine closes.imp (I := fun s => (s.proxy.ProxyOk ∧ Switched s) ∧ ∀ x, s.closed x = false)
    (A := fun a => ∀ x, a ≠ .closeSocket x) (fun s a t kept others taken => ?_)
    (fun s a t kept others taken => Unfailing.of_closesBehind kept.1.2 kept.2 others taken)
    ⟨start, fun _ => rfl⟩ fun a queued x same => alone x (same ▸ queued)
  refine ⟨switched_next kept.1.1 kept.1.2 taken, fun x => ?_⟩
  rw [closed_next kept.1.2 others taken]
  exact kept.2 x

def firstWorking : List Action := [.proxy .start, .proxy .run, .proxy (.complete none), .proxy .run]

def firstTimedOut : List Action :=
  firstWorking ++ [.proxy (.complete (some (.systemError .timedOut))), .proxy .run]

theorem first_left_open : ∃ s : ProxySockets,
    machine.run machine.initial firstTimedOut = some s ∧
      s.proxy.phase = .ended (some (.systemError .timedOut)) ∧ s.autoClose .a = false ∧
      s.handedOver .a = false ∧ s.closed .a = false ∧
      ¬ machine.Always ClosesBehind machine.initial firstTimedOut := by
  refine ⟨_, rfl, rfl, rfl, rfl, rfl, fun all => ?_⟩
  obtain ⟨s, ran⟩ : ∃ s, machine.run machine.initial
      (firstWorking ++ [.proxy (.complete (some (.systemError .timedOut)))]) = some s := ⟨_, rfl⟩
  have last := ((Machine.always_snoc (a := .proxy .run) ran).mp all).2
  cases ran
  have open_ := last _ rfl ⟨rfl, _, rfl⟩ .a rfl rfl
  cases open_

end ProxySockets

end BoostBase
