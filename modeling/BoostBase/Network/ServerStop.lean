import BoostBase.Network.Server

namespace BoostBase.Server

open Asio Transition

variable {s t : Server}

@[simp] theorem post_sessions (s : Server) (h : ServerHandler) : (s.post h).sessions = s.sessions := rfl
@[simp] theorem post_fired (s : Server) (h : ServerHandler) : (s.post h).fired = s.fired := rfl
@[simp] theorem post_task (s : Server) (h : ServerHandler) : (s.post h).task = s.task := rfl
@[simp] theorem post_phase (s : Server) (h : ServerHandler) : (s.post h).phase = s.phase := rfl

@[simp] theorem endRun_sessions (s : Server) (e : Option Exception) :
    (s.endRun e).sessions = s.sessions := by
  unfold endRun
  split <;> rfl

@[simp] theorem endRun_fired (s : Server) (e : Option Exception) : (s.endRun e).fired = s.fired := by
  unfold endRun
  split <;> rfl

@[simp] theorem endRun_phase (s : Server) (e : Option Exception) : (s.endRun e).phase = .ended e := by
  unfold endRun
  split <;> rfl

@[simp] theorem endRun_task (s : Server) (e : Option Exception) :
    (s.endRun e).task = s.task.leave := by
  unfold endRun
  split <;> rfl

def resumes (s : Server) : Nat := s.strand.countP resumed

@[simp] theorem endRun_resumes (s : Server) (e : Option Exception) :
    (s.endRun e).resumes = s.resumes := by
  unfold endRun
  split <;> simp [resumes, post, resumed]

@[simp] theorem emit_sessions (s : Server) : s.emit.sessions = s.sessions := by
  unfold emit
  split
  · dsimp only
    split <;> rfl
  · rfl

@[simp] theorem emit_fired (s : Server) : s.emit.fired = s.fired := by
  unfold emit
  split
  · dsimp only
    split <;> rfl
  · rfl

@[simp] theorem emit_task (s : Server) : s.emit.task = s.task := by
  unfold emit
  split
  · dsimp only
    split <;> rfl
  · rfl

@[simp] theorem emit_phase (s : Server) : s.emit.phase = s.phase := by
  unfold emit
  split
  · dsimp only
    split <;> rfl
  · rfl

/-- What every step keeps: a resumption finds `run` in `async_accept`, `m_stopped` has
    fired exactly in a stopped task, and every session is registered. -/
structure Ok (s : Server) : Prop where
  single : s.resumes ≤ 1
  elsewhere : s.phase ≠ .accepting → s.resumes = 0
  fired : s.fired = true ↔ s.task.state = .stopped
  entered : s.phase = .accepting → s.task.state = .running ∨ s.task.state = .stopped
  registered : ∀ x ∈ s.sessions, x.registered = true

theorem ok_initial : Ok machine.initial := by
  constructor <;> simp [machine, new, resumes, CoroutineTask.new]

theorem leave_stopped {κ : Type} (task : CoroutineTask κ) :
    task.leave.state = .stopped ↔ task.state = .stopped := by
  rw [CoroutineTask.leave_state]
  split <;> simp_all

theorem endRun_ok (fired : s.fired = true ↔ s.task.state = .stopped) (idle : s.resumes = 0)
    (registered : ∀ x ∈ s.sessions, x.registered = true) (e : Option Exception) :
    Ok (s.endRun e) := by
  refine ⟨by simp [idle], by simp [idle], ?_, by simp, by simpa using registered⟩
  rw [endRun_fired, endRun_task, leave_stopped, fired]

theorem loop_ok (fired : s.fired = true ↔ s.task.state = .stopped) (idle : s.resumes = 0)
    (registered : ∀ x ∈ s.sessions, x.registered = true) : Ok s.loop := by
  unfold loop
  split
  · rename_i running
    split
    · exact endRun_ok fired idle registered _
    · exact ⟨le_of_eq_of_le idle (Nat.zero_le 1), fun _ => idle, fired,
        fun _ => .inl (of_decide_eq_true running), registered⟩
  · exact endRun_ok fired idle registered _

theorem loop_sessions (s : Server) : s.loop.sessions = s.sessions := by
  unfold loop
  split
  · split <;> simp
  · simp

theorem loop_fired (s : Server) : s.loop.fired = s.fired := by
  unfold loop
  split
  · split <;> simp
  · simp

theorem acceptPending_iff : s.acceptPending = true ↔ s.phase = .accepting ∧ s.resumes = 0 := by
  simp only [acceptPending, Bool.and_eq_true, decide_eq_true_eq, Bool.not_eq_true',
    List.any_eq_false, resumes, List.countP_eq_zero]

theorem resume_resumes (ec : ErrorCode) : (s.post (.resume ec)).resumes = s.resumes + 1 := by
  simp [resumes, post, resumed]

theorem emit_resumes (single : s.resumes ≤ 1) (elsewhere : s.phase ≠ .accepting → s.resumes = 0) :
    s.emit.resumes ≤ 1 ∧ (s.phase ≠ .accepting → s.emit.resumes = 0) := by
  unfold emit
  split
  · dsimp only
    split
    · rename_i pending
      obtain ⟨accepting, idle⟩ := acceptPending_iff.mp pending
      rw [resume_resumes]
      exact ⟨Nat.le_of_eq (congrArg (· + 1) idle), fun outside => absurd accepting outside⟩
    · exact ⟨single, elsewhere⟩
  · exact ⟨single, elsewhere⟩

theorem emit_ok (ok : Ok s) : Ok s.emit := by
  have bounds := emit_resumes ok.single ok.elsewhere
  exact ⟨bounds.1, by simpa using bounds.2, by simpa using ok.fired, by simpa using ok.entered,
    by simpa using ok.registered⟩

theorem stopBody_ok (ok : Ok s) : Ok s.stopBody := by
  unfold stopBody
  split
  · exact ok
  · rename_i task entry
    obtain ⟨_, rfl⟩ := CoroutineTask.stopEntry_some.mp entry
    have bounds := emit_resumes (s := { s with task := ⟨.stopped, s.task.cancellation⟩ })
      ok.single ok.elsewhere
    refine ⟨bounds.1, fun outside => bounds.2 (by simpa using outside), by simp, by simp,
      fun x member => ?_⟩
    simp only [emit_sessions, List.mem_map] at member
    obtain ⟨y, before, rfl⟩ := member
    have registered := ok.registered y before
    unfold AcceptedSession.stop
    split <;> exact registered

theorem startBody_ok (ok : Ok s) (env : ServerEnv) : Ok (s.startBody env) := by
  unfold startBody
  split
  · exact ok
  · rename_i task entry
    obtain ⟨fresh, rfl⟩ := CoroutineTask.enter_ok.mp entry
    have idle : s.resumes = 0 := by
      refine ok.elsewhere fun accepting => ?_
      rcases ok.entered accepting with running | stopped <;> simp_all
    let begun : Server := { s with task := ⟨.running, some ()⟩ }
    have unfired : begun.fired = true ↔ begun.task.state = .stopped := by
      simp [begun, ok.fired, fresh]
    dsimp only
    split
    · exact endRun_ok unfired idle ok.registered _
    · exact loop_ok unfired idle ok.registered

theorem accepted_ok (fired : s.fired = true ↔ s.task.state = .stopped) (idle : s.resumes = 0)
    (registered : ∀ x ∈ s.sessions, x.registered = true) (env : ServerEnv) (ec : ErrorCode) :
    Ok (s.accepted env ec) := by
  let grown (started : Bool) : Server :=
    { s with sessions := s.sessions ++ [⟨true, started, 0, true⟩] }
  have all (started : Bool) : ∀ x ∈ (grown started).sessions, x.registered = true := by
    intro x member
    rcases List.mem_append.mp member with old | new
    · exact registered x old
    · rw [List.mem_singleton.mp new]
  unfold accepted
  split
  · exact endRun_ok fired idle registered _
  · split
    · exact endRun_ok fired idle registered _
    · dsimp only
      split
      · exact loop_ok (s := grown true) fired idle (all true)
      · exact loop_ok (s := grown _) fired idle (all _)
      · exact endRun_ok (s := grown false) fired idle (all false) _

theorem post_ok (ok : Ok s) {h : ServerHandler} (other : resumed h = false) : Ok (s.post h) := by
  have same : (s.post h).resumes = s.resumes := by simp [resumes, post, other]
  exact ⟨same ▸ ok.single, fun outside => same ▸ ok.elsewhere outside, ok.fired, ok.entered,
    ok.registered⟩

theorem pop_ok (ok : Ok s) {h : ServerHandler} {rest : List ServerHandler}
    (head : s.strand = h :: rest) (other : resumed h = false) : Ok { s with strand := rest } := by
  have same : resumes { s with strand := rest } = s.resumes := by simp [resumes, head, other]
  exact ⟨same ▸ ok.single, fun outside => same ▸ ok.elsewhere outside, ok.fired, ok.entered,
    ok.registered⟩

theorem pop_resume (ok : Ok s) {ec : ErrorCode} {rest : List ServerHandler}
    (head : s.strand = .resume ec :: rest) :
    s.phase = .accepting ∧ resumes { s with strand := rest } = 0 := by
  have count : s.resumes = resumes { s with strand := rest } + 1 := by
    simp [resumes, head, List.countP_cons, resumed]
  have single := ok.single
  refine ⟨?_, by omega⟩
  by_contra outside
  have none_queued := ok.elsewhere outside
  omega

theorem execute_resume (ok : Ok s) {ec : ErrorCode} {rest : List ServerHandler}
    (head : s.strand = .resume ec :: rest) (env : ServerEnv) :
    execute { s with strand := rest } env (.resume ec) = accepted { s with strand := rest } env ec := by
  simp only [execute, (pop_resume ok head).1]

theorem ok_next {a : Action} (ok : Ok s) (taken : machine.next s a = some t) : Ok t := by
  cases a with
  | start =>
    cases taken
    exact post_ok ok rfl
  | stop =>
    cases taken
    exact post_ok ok rfl
  | cancel =>
    cases taken
    exact post_ok ok rfl
  | complete ec =>
    simp only [machine] at taken
    split at taken
    · rename_i pending
      obtain ⟨accepting, idle⟩ := acceptPending_iff.mp pending
      cases taken
      have one := resume_resumes (s := s) ec
      exact ⟨by omega,
        fun outside => absurd accepting outside, ok.fired, ok.entered, ok.registered⟩
    · cases taken
  | destroy i =>
    cases taken
    refine ⟨ok.single, ok.elsewhere, ok.fired, ok.entered, fun x member => ?_⟩
    obtain ⟨j, inside, rfl⟩ := List.getElem_of_mem member
    rw [List.length_modify] at inside
    have registered := ok.registered _ (List.getElem_mem inside)
    rw [List.getElem_modify]
    split <;> exact registered
  | run env =>
    simp only [machine] at taken
    split at taken
    · cases taken
    · rename_i h rest head
      cases taken
      cases h with
      | start => exact startBody_ok (pop_ok ok head rfl) env
      | stop => exact stopBody_ok (pop_ok ok head rfl)
      | emit => exact emit_ok (pop_ok ok head rfl)
      | resume ec =>
        obtain ⟨accepting, idle⟩ := pop_resume ok head
        simp only [execute, accepting]
        exact accepted_ok (s := { s with strand := rest, phase := .accepting }) ok.fired idle ok.registered env ec

/-- No session is registered or started once `m_stopped` has fired. -/
def NothingLate (s : Server) (_ : Action) (t : Server) : Prop :=
  s.fired = true →
    t.sessions.map AcceptedSession.registered = s.sessions.map AcceptedSession.registered ∧
    t.sessions.map AcceptedSession.started = s.sessions.map AcceptedSession.started

/-- Once `m_stopped` has fired and the strand has drained, every started session that
    still exists was told to stop. -/
def AllStopped (s : Server) : Prop :=
  s.fired = true → s.strand = [] → ∀ x ∈ s.sessions, x.started = true → x.alive = true → 0 < x.stops

/-- An accepted connection that gets a session finds the task running. -/
def AcceptsRunning (s : Server) (a : Action) (_ : Server) : Prop :=
  ∀ env rest, a = .run env → s.strand = .resume .success :: rest → env.create = none →
    s.task.running = true

theorem stopBody_flags (s : Server) :
    s.stopBody.sessions.map AcceptedSession.registered = s.sessions.map AcceptedSession.registered ∧
    s.stopBody.sessions.map AcceptedSession.started = s.sessions.map AcceptedSession.started := by
  unfold stopBody
  split
  · exact ⟨rfl, rfl⟩
  · simp only [emit_sessions, List.map_map]
    constructor <;>
    · refine List.map_congr_left fun x _ => ?_
      simp only [Function.comp, AcceptedSession.stop]
      split <;> rfl

theorem startBody_sessions (s : Server) (env : ServerEnv) :
    (s.startBody env).sessions = s.sessions := by
  unfold startBody
  split
  · rfl
  · dsimp only
    split
    · simp
    · exact loop_sessions _

theorem accepted_sessions (s : Server) (env : ServerEnv) (ec : ErrorCode) :
    (s.accepted env ec).sessions = s.sessions ∧ (ec ≠ .success ∨ env.create ≠ none) ∨
    ec = .success ∧ env.create = none ∧
      ∃ started, (s.accepted env ec).sessions = s.sessions ++ [⟨true, started, 0, true⟩] := by
  unfold accepted
  split
  · rename_i failed
    exact .inl ⟨by simp, .inl failed⟩
  · rename_i success
    simp only [ne_eq, not_not] at success
    split
    · rename_i e thrown
      exact .inl ⟨by simp, .inr (by simp [thrown])⟩
    · rename_i created
      refine .inr ⟨success, created, ?_⟩
      dsimp only
      split
      · exact ⟨true, loop_sessions _⟩
      · exact ⟨_, loop_sessions _⟩
      · exact ⟨false, by simp⟩

theorem destroy_flags {β : Type} (field : AcceptedSession → β) (l : List AcceptedSession) (i : Nat)
    (same : ∀ x, field { x with alive := false } = field x) :
    (l.modify i fun x => { x with alive := false }).map field = l.map field := by
  refine List.ext_getElem? fun j => ?_
  rw [List.getElem?_map, List.getElem?_map, List.getElem?_modify]
  cases l[j]? with
  | none => rfl
  | some x =>
    by_cases here : i = j
    · simp [here, same]
    · simp [here]

theorem nothingLate_iff (ok : Ok s) {a : Action} (taken : machine.next s a = some t) :
    NothingLate s a t ↔ AcceptsRunning s a t := by
  have quiet (flags : t.sessions.map AcceptedSession.registered =
        s.sessions.map AcceptedSession.registered ∧
        t.sessions.map AcceptedSession.started = s.sessions.map AcceptedSession.started)
      (other : AcceptsRunning s a t) : NothingLate s a t ↔ AcceptsRunning s a t :=
    iff_of_true (fun _ => flags) other
  cases a with
  | start | stop | cancel =>
    cases taken
    exact quiet ⟨rfl, rfl⟩ (fun _ _ runs => by cases runs)
  | complete ec =>
    simp only [machine] at taken
    split at taken
    · cases taken
      exact quiet ⟨rfl, rfl⟩ (fun _ _ runs => by cases runs)
    · cases taken
  | destroy i =>
    cases taken
    exact quiet ⟨destroy_flags _ _ _ fun _ => rfl, destroy_flags _ _ _ fun _ => rfl⟩
      (fun _ _ runs => by cases runs)
  | run env =>
    simp only [machine] at taken
    split at taken
    · cases taken
    · rename_i h rest head
      cases taken
      have other (notResume : resumed h = false) : AcceptsRunning s (.run env)
          ({ s with strand := rest }.execute env h) := by
        intro _ _ _ same
        rw [head] at same
        cases same
        cases notResume
      cases h with
      | start =>
        have same := startBody_sessions { s with strand := rest } env
        exact quiet ⟨congrArg _ same, congrArg _ same⟩ (other rfl)
      | stop => exact quiet (stopBody_flags _) (other rfl)
      | emit => exact quiet ⟨congrArg _ (emit_sessions _), congrArg _ (emit_sessions _)⟩ (other rfl)
      | resume ec =>
        rw [execute_resume ok head]
        rcases accepted_sessions { s with strand := rest } env ec with
          ⟨same, failed⟩ | ⟨rfl, created, started, grown⟩
        · refine iff_of_true (fun _ => ⟨congrArg _ same, congrArg _ same⟩) ?_
          rintro env' _ runs queued created
          cases runs
          rw [head] at queued
          cases queued
          rcases failed with failed | thrown
          · exact absurd rfl failed
          · exact absurd created thrown
        · constructor
          · intro nothing env' _ runs _ _
            refine decide_eq_true ((ok.entered (pop_resume ok head).1).resolve_right fun stopped => ?_)
            have lengths := congrArg List.length (nothing (ok.fired.mpr stopped)).1
            simp [grown] at lengths
          · intro running fired
            have now := of_decide_eq_true (running env rest rfl head created)
            rw [ok.fired, now] at fired
            cases fired

theorem startBody_fired (s : Server) (env : ServerEnv) : (s.startBody env).fired = s.fired := by
  unfold startBody
  split
  · rfl
  · dsimp only
    split
    · simp
    · exact loop_fired _

theorem accepted_fired (s : Server) (env : ServerEnv) (ec : ErrorCode) :
    (s.accepted env ec).fired = s.fired := by
  unfold accepted
  split
  · simp
  · split
    · simp
    · dsimp only
      split
      · exact loop_fired _
      · exact loop_fired _
      · simp

/-- Every session that still exists was told to stop if `m_stopped` has fired. -/
def Told (s : Server) : Prop :=
  s.fired = true → ∀ x ∈ s.sessions, x.alive = true → 0 < x.stops

theorem Told.same (told : Told s) (sessions : t.sessions = s.sessions) (fired : t.fired = s.fired) :
    Told t := by
  rw [Told, sessions, fired]
  exact told

theorem stopBody_told (ok : Ok s) (told : Told s) : Told s.stopBody := by
  unfold stopBody
  split
  · exact told
  · intro _ x member alive
    simp only [emit_sessions, List.mem_map] at member
    obtain ⟨y, before, rfl⟩ := member
    have registered := ok.registered y before
    unfold AcceptedSession.stop at alive ⊢
    split
    · exact Nat.succ_pos _
    · rename_i ignored
      simp_all

theorem told_next (ok : Ok s) (told : Told s) {a : Action} (running : AcceptsRunning s a t)
    (taken : machine.next s a = some t) : Told t := by
  cases a with
  | start | stop | cancel =>
    cases taken
    exact told
  | complete ec =>
    simp only [machine] at taken
    split at taken
    · cases taken
      exact told
    · cases taken
  | destroy i =>
    cases taken
    intro fired x member alive
    obtain ⟨j, inside, rfl⟩ := List.getElem_of_mem member
    rw [List.length_modify] at inside
    rw [List.getElem_modify] at alive ⊢
    split
    · rename_i here
      simp [here] at alive
    · rename_i elsewhere
      rw [if_neg elsewhere] at alive
      exact told fired _ (List.getElem_mem inside) alive
  | run env =>
    simp only [machine] at taken
    split at taken
    · cases taken
    · rename_i h rest head
      cases taken
      cases h with
      | start =>
        exact told.same (startBody_sessions { s with strand := rest } env)
          (startBody_fired { s with strand := rest } env)
      | stop => exact stopBody_told (pop_ok ok head rfl) told
      | emit => exact told.same (emit_sessions _) (emit_fired _)
      | resume ec =>
        have fired := accepted_fired { s with strand := rest } env ec
        rw [execute_resume ok head]
        rcases accepted_sessions { s with strand := rest } env ec with
          ⟨same, _⟩ | ⟨rfl, created, started, grown⟩
        · exact told.same same fired
        · intro late
          have now := of_decide_eq_true (running env rest rfl head created)
          rw [fired, ok.fired, now] at late
          cases late

/-- In every run no session is registered or started after `m_stopped` has fired, and
    every session left was told to stop, if and only if every accepted connection finds
    the task running. -/
theorem sessions_stopped (as : List Action) :
    (machine.Always NothingLate machine.initial as ∧ machine.Visits AllStopped machine.initial as) ↔
      machine.Always AcceptsRunning machine.initial as := by
  have agree : machine.Always NothingLate machine.initial as ↔
      machine.Always AcceptsRunning machine.initial as :=
    Machine.always_congr (I := Ok) (fun _ _ _ => ok_next)
      (fun _ _ _ ok taken => nothingLate_iff ok taken) ok_initial as
  rw [agree]
  refine and_iff_left_of_imp fun running => Machine.visits_iff.mpr ?_
  rintro bs cs t rfl ran
  have kept : Ok t ∧ Told t := Machine.Always.invariant (I := fun s => Ok s ∧ Told s)
    (fun _ _ _ holds met taken => ⟨ok_next holds.1 taken, told_next holds.1 holds.2 met taken⟩)
    ⟨ok_initial, by simp [Told, machine, new]⟩ (running.append ran).1 ran
  exact fun fired _ x member _ alive => kept.2 fired x member alive

/-- The accept has completed when `stop` runs; its session is started afterwards and
    nothing stops it. -/
theorem late_session_unstopped : ∃ s : Server,
    machine.run machine.initial
      [.start, .run ⟨none, none, none⟩, .stop, .complete .success, .run ⟨none, none, none⟩,
        .run ⟨none, none, none⟩] = some s ∧
    s.fired = true ∧ s.strand = [] ∧ s.sessions = [⟨true, true, 0, true⟩] ∧ ¬ AllStopped s := by
  refine ⟨_, rfl, rfl, rfl, rfl, fun stopped => ?_⟩
  exact Nat.lt_irrefl 0 (stopped rfl rfl _ (.head _) rfl rfl)

end BoostBase.Server
