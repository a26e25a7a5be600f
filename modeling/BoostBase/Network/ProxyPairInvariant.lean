import BoostBase.Network.ProxyDataSession

namespace BoostBase

open Asio Transition LastOut

namespace ProxyDataSession

/-- How a coroutine that waits for an operation goes on, with what it has found. -/
inductive Resumed (x : ProxyDataSession) (otherAlive : Bool) : Option Exception → Output → Prop
  | reads (before : x.phase = .preparing ∧ otherAlive = true ∨ x.phase = .writing)
      (running : x.task.running = true) (untold : x.otherDone = false) (live : x.cancelled = false) :
      Resumed x otherAlive none ⟨{ x with state := .read, phase := .reading }, [], some .read, false⟩
  | writes (before : x.phase = .reading) (live : x.cancelled = false) :
      Resumed x otherAlive none ⟨{ x with state := .write, phase := .writing }, [], some .write, false⟩
  | unprepared (before : x.phase = .preparing) (e : Exception) :
      Resumed x otherAlive (some e) (quietly (x.endRun false (some e)))
  | preparedLate (before : x.phase = .preparing) (cancelled : x.cancelled = true) :
      Resumed x otherAlive none
        (quietly (x.endRun false (some (.systemError .operationCanceled))))
  | alone (before : x.phase = .preparing) (live : x.cancelled = false) (lost : otherAlive = false) :
      Resumed x otherAlive none
        (quietly (x.endRun false (some (.systemError .stateNotRecoverable))))
  | loopOver (before : x.phase = .preparing ∧ x.cancelled = false ∧ otherAlive = true ∨
        x.phase = .writing) (last : x.task.running = false ∨ x.otherDone = true) :
      Resumed x otherAlive none (x.endWork none)
  | readCancelled (before : x.phase = .writing) (running : x.task.running = true)
      (untold : x.otherDone = false) (cancelled : x.cancelled = true) :
      Resumed x otherAlive none
        (({ x with state := .read } : ProxyDataSession).endWork
          (some (.systemError .operationCanceled)))
  | writeCancelled (before : x.phase = .reading) (cancelled : x.cancelled = true) :
      Resumed x otherAlive none
        (({ x with state := .write } : ProxyDataSession).endWork
          (some (.systemError .operationCanceled)))
  | readFails (before : x.phase = .reading) (e : Exception) :
      Resumed x otherAlive (some e) (x.endWork (some e))
  | writeFails (before : x.phase = .writing) (e : Exception) :
      Resumed x otherAlive (some e) (x.endWork (some e))

variable {x : ProxyDataSession} {otherAlive : Bool}

theorem resume_cases (active : x.phase.active = true) (otherAlive : Bool) (failure : Option Exception) :
    Resumed x otherAlive failure (x.resume otherAlive failure) := by
  cases phase : x.phase with
  | idle | ended _ _ => simp [phase, SessionPhase.active] at active
  | preparing =>
    simp only [resume, phase]
    cases failure with
    | some e => exact .unprepared phase e
    | none =>
      simp only [afterPrepare]
      split
      · rename_i cancelled
        exact .preparedLate phase cancelled
      · rename_i live
        simp only [Bool.not_eq_true] at live
        split
        · rename_i lives
          unfold loop
          split
          · rename_i loops
            simp only [Bool.and_eq_true, Bool.not_eq_true'] at loops
            dsimp only
            rw [if_neg (by simp [live])]
            exact .reads (.inl ⟨phase, lives⟩) loops.1 loops.2 live
          · rename_i last
            refine .loopOver (.inl ⟨phase, live, lives⟩) ?_
            by_contra other
            simp_all
        · rename_i lost
          exact .alone phase live (by simpa using lost)
  | reading =>
    simp only [resume, phase]
    cases failure with
    | some e => exact .readFails phase e
    | none =>
      simp only [afterRead]
      split
      · rename_i cancelled
        exact .writeCancelled phase cancelled
      · rename_i live
        exact .writes phase (by simpa using live)
  | writing =>
    simp only [resume, phase]
    cases failure with
    | some e => exact .writeFails phase e
    | none =>
      simp only [afterWrite]
      unfold loop
      split
      · rename_i loops
        simp only [Bool.and_eq_true, Bool.not_eq_true'] at loops
        dsimp only
        split
        · rename_i cancelled
          exact .readCancelled phase loops.1 loops.2 cancelled
        · rename_i live
          exact .reads (.inr phase) loops.1 loops.2 (by simpa using live)
      · rename_i last
        refine .loopOver (.inr phase) ?_
        by_contra other
        simp_all

def isNotice : SessionHandler → Bool
  | .otherDone _ => true
  | _ => false

def resumes (x : ProxyDataSession) : Nat := x.strand.countP resumed

def notices (x : ProxyDataSession) : Nat := x.strand.countP isNotice

/-- The task of a session whose `run` was entered: a stop has cancelled it. -/
def Entered (x : ProxyDataSession) : Prop :=
  (x.task.state = .running ∨ x.task.state = .stopped ∧ x.cancelled = true) ∧
    x.task.cancellation.isSome = true

def Placed (x : ProxyDataSession) : Prop :=
  match x.phase with
  | .idle => (x.task.state = .initial ∨ x.task.state = .stopped) ∧
      x.task.cancellation = none ∧ x.cancelled = false
  | .preparing => x.Entered
  | .reading => x.Entered ∧ x.state = .read
  | .writing => x.Entered ∧ x.state = .write
  | .ended _ _ => x.task.state = .done ∨ x.task.state = .stopped

def outstanding (side : Side) (x : ProxyDataSession) : List SocketOp :=
  if x.suspended then
    match x.phase with
    | .reading => [⟨.read, side, side⟩]
    | .writing => [⟨.write, side.other, side⟩]
    | _ => []
  else []

/-- What every step keeps of one session and the operations it has issued. -/
structure SessionOk (side : Side) (ops : List SocketOp) (x : ProxyDataSession) : Prop where
  single : x.resumes ≤ 1
  elsewhere : x.phase.active = false → x.resumes = 0
  placed : x.Placed
  ops : ops = x.outstanding side

theorem Placed.entered (placed : x.Placed) (active : x.phase.active = true) : x.Entered := by
  unfold Placed at placed
  cases phase : x.phase <;> simp_all [SessionPhase.active]

theorem suspended_iff : x.suspended = true ↔ x.phase.active = true ∧ x.resumes = 0 := by
  simp only [suspended, Bool.and_eq_true, Bool.not_eq_true', List.any_eq_false, resumes,
    List.countP_eq_zero]

theorem outstanding_resumed (side : Side) (queued : x.resumes ≠ 0) : x.outstanding side = [] := by
  unfold outstanding
  rw [if_neg]
  rw [suspended_iff]
  exact fun both => queued both.2

theorem outstanding_congr (side : Side) {y : ProxyDataSession} (phase : y.phase = x.phase)
    (resumes : y.resumes = x.resumes) : y.outstanding side = x.outstanding side := by
  have same : y.suspended = x.suspended := by
    rw [Bool.eq_iff_iff, suspended_iff, suspended_iff, phase, resumes]
  unfold outstanding
  rw [same, phase]

theorem endRun_strand (s : ProxyDataSession) (worked : Bool) (e : Option Exception) :
    (s.endRun worked e).strand = s.strand ++ if e.any Exception.canceled then [.stop] else [] := by
  unfold endRun
  dsimp only
  split
  · rfl
  · simp

theorem endRun_state (s : ProxyDataSession) (worked : Bool) (e : Option Exception) :
    (s.endRun worked e).task.state = if s.task.state = .stopped then .stopped else .done := by
  unfold endRun
  dsimp only
  split <;> exact CoroutineTask.leave_state _

theorem endRun_countP (q : SessionHandler → Bool) (silent : q .stop = false) (x : ProxyDataSession)
    (worked : Bool) (e : Option Exception) :
    (x.endRun worked e).strand.countP q = x.strand.countP q := by
  rw [endRun_strand, List.countP_append]
  split <;> simp [silent]

theorem endRun_placed (x : ProxyDataSession) (worked : Bool) (e : Option Exception) :
    (x.endRun worked e).Placed := by
  change (x.endRun worked e).task.state = .done ∨ (x.endRun worked e).task.state = .stopped
  rw [endRun_state]
  split <;> simp

section Steps

variable {side : Side} {ops : List SocketOp} {y : ProxyDataSession}

theorem SessionOk.stay (ok : SessionOk side ops x) (phase : y.phase = x.phase)
    (resumes : y.resumes = x.resumes) (placed : y.Placed) : SessionOk side ops y where
  single := resumes ▸ ok.single
  elsewhere outside := resumes ▸ ok.elsewhere (phase ▸ outside)
  placed := placed
  ops := ok.ops.trans (outstanding_congr side phase resumes).symm

theorem SessionOk.strand (ok : SessionOk side ops x) {strand : List SessionHandler}
    (resumes : strand.countP resumed = x.resumes) : SessionOk side ops { x with strand := strand } :=
  ok.stay rfl resumes ok.placed

theorem SessionOk.post (ok : SessionOk side ops x) (handlers : List SessionHandler)
    (unresumed : handlers.countP resumed = 0) :
    SessionOk side ops { x with strand := x.strand ++ handlers } :=
  ok.strand (by simp [resumes, List.countP_append, unresumed])

theorem SessionOk.pop (ok : SessionOk side ops x) {h : SessionHandler}
    {rest : List SessionHandler} (head : x.strand = h :: rest) (other : resumed h = false) :
    SessionOk side ops { x with strand := rest } :=
  ok.strand (by simp [resumes, head, other])

theorem emit_placed (placed : x.Placed) : x.emit.Placed := by
  unfold emit
  split
  · rename_i signal
    unfold Placed Entered at placed ⊢
    cases phase : x.phase <;> simp_all
    · rcases placed with running | ⟨stopped, _⟩ <;> simp [*]
    · rcases placed.1 with running | ⟨stopped, _⟩ <;> simp [*]
    · rcases placed.1 with running | ⟨stopped, _⟩ <;> simp [*]
  · exact placed

theorem emit_ok (ok : SessionOk side ops x) : SessionOk side ops x.emit := by
  have placed := emit_placed ok.placed
  unfold emit at placed ⊢
  split at placed
  · rename_i signal
    rw [if_pos signal]
    exact ok.stay rfl rfl placed
  · rename_i signal
    rw [if_neg signal]
    exact ok

theorem stopBody_ok (ok : SessionOk side ops x) (otherAlive : Bool) :
    SessionOk side ops (x.stopBody otherAlive).own := by
  unfold stopBody
  split
  · exact ok
  · rename_i task entry
    obtain ⟨_, rfl⟩ := CoroutineTask.stopEntry_some.mp entry
    have placed := ok.placed
    dsimp only
    unfold emit
    split
    · rename_i signal
      refine ok.stay rfl rfl ?_
      unfold Placed Entered at placed ⊢
      cases phase : x.phase <;> simp_all
    · rename_i silent
      refine ok.stay rfl rfl ?_
      unfold Placed Entered at placed ⊢
      cases phase : x.phase <;> simp_all

theorem otherDoneBody_ok (ok : SessionOk side ops x) (lastState : ProxyState) :
    SessionOk side ops (x.otherDoneBody lastState) := by
  have posted : SessionOk side ops (x.post .stop) := ok.post [.stop] rfl
  unfold otherDoneBody
  dsimp only
  split
  · exact posted.stay rfl rfl posted.placed
  · exact ok.stay rfl rfl ok.placed

theorem Placed.idle (placed : x.Placed) (fresh : x.task.state = .initial) : x.phase = .idle := by
  unfold Placed Entered at placed
  cases phase : x.phase <;> simp_all

theorem startBody_ok (ok : SessionOk side ops x) : SessionOk side ops x.startBody := by
  unfold startBody
  split
  · exact ok
  · rename_i task entered
    obtain ⟨fresh, rfl⟩ := CoroutineTask.enter_ok.mp entered
    have idle := ok.placed.idle fresh
    refine ⟨ok.single, fun outside => (by cases outside), ⟨.inl rfl, rfl⟩, ?_⟩
    have before : ops = [] := by
      rw [ok.ops, outstanding, idle]
      split <;> rfl
    rw [before, outstanding]
    split <;> rfl

theorem resume_ok (ok : SessionOk side ops x) {failure : Option Exception}
    {rest : List SessionHandler} (head : x.strand = .resume failure :: rest) (otherAlive : Bool) :
    x.phase.active = true ∧
      SessionOk side (ops ++ ProxyPair.issue side
        (({ x with strand := rest } : ProxyDataSession).resume otherAlive failure).op)
        (({ x with strand := rest } : ProxyDataSession).resume otherAlive failure).own := by
  have queued : x.resumes = rest.countP resumed + 1 := by
    simp [resumes, head, List.countP_cons, resumed]
  have active : x.phase.active = true := by
    by_contra outside
    have unresumed := ok.elsewhere (by simpa using outside)
    omega
  have idle : rest.countP resumed = 0 := by
    have single := ok.single
    omega
  have before : ops = [] := ok.ops.trans (outstanding_resumed side (by omega))
  have entered := ok.placed.entered active
  refine ⟨active, ?_⟩
  rw [before, List.nil_append]
  have ended (z : ProxyDataSession) (same : z.strand = rest) (worked : Bool) (e : Option Exception) :
      SessionOk side [] (z.endRun worked e) := by
    have resumes : (z.endRun worked e).resumes = 0 := by
      rw [resumes, endRun_countP _ rfl, same, idle]
    have phase : (z.endRun worked e).phase = .ended worked e := by
      unfold endRun
      rfl
    refine ⟨by omega, fun _ => resumes, endRun_placed z worked e, ?_⟩
    rw [outstanding, phase]
    split <;> rfl
  have going (z : ProxyDataSession) (strand : z.strand = rest) (placed : z.Placed)
      (op : Option SocketOpKind)
      (issued : ProxyPair.issue side op = match z.phase with
        | .reading => [⟨.read, side, side⟩]
        | .writing => [⟨.write, side.other, side⟩]
        | _ => []) (inside : z.phase.active = true) :
      SessionOk side (ProxyPair.issue side op) z := by
    have resumes : z.resumes = 0 := by rw [resumes, strand, idle]
    refine ⟨by omega, fun _ => resumes, placed, ?_⟩
    rw [outstanding, if_pos (suspended_iff.mpr ⟨inside, resumes⟩), issued]
  have cases := resume_cases (x := { x with strand := rest }) active otherAlive failure
  revert cases
  generalize ({ x with strand := rest } : ProxyDataSession).resume otherAlive failure = o
  intro cases
  cases cases with
  | reads =>
    exact going { x with strand := rest, state := .read, phase := .reading } rfl ⟨entered, rfl⟩ _ rfl rfl
  | writes =>
    exact going { x with strand := rest, state := .write, phase := .writing } rfl ⟨entered, rfl⟩ _ rfl rfl
  | unprepared | preparedLate | alone | loopOver | readCancelled | writeCancelled | readFails | writeFails =>
    exact ended _ rfl _ _

theorem execute_ok (ok : SessionOk side ops x) {h : SessionHandler}
    {rest : List SessionHandler} (head : x.strand = h :: rest) (otherAlive : Bool) :
    SessionOk side (ops ++ ProxyPair.issue side
      (({ x with strand := rest } : ProxyDataSession).execute otherAlive h).op)
      (({ x with strand := rest } : ProxyDataSession).execute otherAlive h).own := by
  have quiet (o : Output) (unissued : o.op = none) (good : SessionOk side ops o.own) :
      SessionOk side (ops ++ ProxyPair.issue side o.op) o.own := by
    rw [unissued]
    simpa [ProxyPair.issue] using good
  cases h with
  | start => exact quiet _ rfl (startBody_ok (ok.pop head rfl))
  | stop =>
    refine quiet _ ?_ (stopBody_ok (ok.pop head rfl) otherAlive)
    simp only [execute, stopBody]
    split <;> rfl
  | emit => exact quiet _ rfl (emit_ok (ok.pop head rfl))
  | otherDone lastState => exact quiet _ rfl (otherDoneBody_ok (ok.pop head rfl) lastState)
  | resume failure => exact (resume_ok ok head otherAlive).2

end Steps

theorem toOther_countP (q : SessionHandler → Bool) (stop : q .stop = false)
    (otherDone : ∀ lastState, q (.otherDone lastState) = false) (x : ProxyDataSession)
    (otherAlive : Bool) (h : SessionHandler) : (x.execute otherAlive h).toOther.countP q = 0 := by
  cases h with
  | start | emit | otherDone _ => rfl
  | stop =>
    simp only [execute, stopBody]
    split
    · rfl
    · split <;> simp [stop]
  | resume failure =>
    simp only [execute]
    cases active : x.phase.active with
    | false =>
      unfold resume
      cases phase : x.phase <;> simp_all [SessionPhase.active, quietly]
    | true =>
      have cases := resume_cases active otherAlive failure
      revert cases
      generalize x.resume otherAlive failure = o
      intro cases
      cases cases <;> simp only [quietly, endWork, List.countP_nil] <;> split <;> simp [otherDone]

section Executed

variable {s t : ProxyDataSession} {h k : SessionHandler}

inductive Executed (s : ProxyDataSession) : SessionHandler → ProxyDataSession → Prop
  | refused (late : s.task.state ≠ .initial) : Executed s .start s
  | entered (fresh : s.task.state = .initial) :
      Executed s .start { s with task := ⟨.running, some ()⟩, phase := .preparing }
  | stopped (again : s.task.state = .stopped) : Executed s .stop s
  | stops (first : s.task.state ≠ .stopped) (cancelled : Bool)
      (kept : s.cancelled = true → cancelled = true) :
      Executed s .stop { s with task := ⟨.stopped, s.task.cancellation⟩, cancelled := cancelled }
  | marks (signal : s.task.cancellation.isSome = true) : Executed s .emit { s with cancelled := true }
  | silent (unset : s.task.cancellation.isSome = false) : Executed s .emit s
  | told (lastState : ProxyState) :
      Executed s (.otherDone lastState)
        { s with
          strand := s.strand ++ if lastState = .read then [.stop] else []
          otherDone := true }
  | idles (inactive : s.phase.active = false) (failure : Option Exception) :
      Executed s (.resume failure) s
  | waits (active : s.phase.active = true) (failure : Option Exception) (state : ProxyState)
      (phase : SessionPhase) (going : phase.active = true) :
      Executed s (.resume failure) { s with state := state, phase := phase }
  | ends (active : s.phase.active = true) (failure : Option Exception) (state : ProxyState)
      (worked : Bool) (e : Option Exception) :
      Executed s (.resume failure) (({ s with state := state } : ProxyDataSession).endRun worked e)

theorem executed (s : ProxyDataSession) (otherAlive : Bool) (h : SessionHandler) :
    Executed s h (s.execute otherAlive h).own := by
  cases h with
  | start =>
    simp only [execute, quietly, startBody]
    cases entered : s.task.enter () with
    | error e =>
      refine .refused fun fresh => ?_
      rw [CoroutineTask.enter_initial fresh] at entered
      cases entered
    | ok task =>
      obtain ⟨fresh, rfl⟩ := CoroutineTask.enter_ok.mp entered
      exact .entered fresh
  | stop =>
    simp only [execute, stopBody]
    split
    · rename_i again
      exact .stopped (CoroutineTask.stopEntry_none.mp again)
    · rename_i entry
      obtain ⟨first, rfl⟩ := CoroutineTask.stopEntry_some.mp entry
      dsimp only
      unfold emit
      split
      · exact .stops first true fun _ => rfl
      · exact .stops first s.cancelled id
  | emit =>
    simp only [execute, quietly, emit]
    split
    · rename_i signal
      exact .marks signal
    · rename_i unset
      exact .silent (by simpa using unset)
  | otherDone lastState =>
    have told := Executed.told (s := s) lastState
    cases lastState with
    | read => exact told
    | write => simpa [execute, quietly, otherDoneBody] using told
  | resume failure =>
    simp only [execute]
    cases active : s.phase.active with
    | false =>
      have same : s.resume otherAlive failure = quietly s := by
        unfold resume
        cases phase : s.phase <;> simp_all [SessionPhase.active]
      rw [same]
      exact .idles active failure
    | true =>
      have cases := resume_cases active otherAlive failure
      revert cases
      generalize s.resume otherAlive failure = o
      intro cases
      cases cases with
      | reads => exact .waits active _ .read .reading rfl
      | writes => exact .waits active _ .write .writing rfl
      | unprepared | preparedLate | alone => exact .ends active _ s.state false _
      | loopOver | readFails | writeFails => exact .ends active _ s.state true _
      | readCancelled => exact .ends active _ .read true _
      | writeCancelled => exact .ends active _ .write true _

theorem Executed.strand (executed : Executed s h t) :
    t.strand = s.strand ∨ t.strand = s.strand ++ [.stop] := by
  cases executed with
  | told lastState => cases lastState <;> simp
  | ends _ _ state worked e =>
    rw [endRun_strand]
    split <;> simp
  | refused | entered | stopped | stops | marks | silent | idles | waits => exact .inl rfl

theorem Executed.keeps (executed : Executed s h t) (queued : k ∈ s.strand) : k ∈ t.strand := by
  rcases executed.strand with same | more
  · rwa [same]
  · rw [more]
    exact List.mem_append_left _ queued

theorem Executed.start_mem (executed : Executed s h t) :
    .start ∈ t.strand ↔ .start ∈ s.strand := by
  rcases executed.strand with same | more
  · rw [same]
  · simp [more]

theorem Executed.phase (executed : Executed s h t) :
    t.phase = s.phase ∨ (h = .start ∧ s.task.state = .initial ∧ t.phase = .preparing) ∨
      (s.phase.active = true ∧ (t.phase.active = true ∨ ∃ worked e, t.phase = .ended worked e)) := by
  cases executed with
  | entered fresh => exact .inr (.inl ⟨rfl, fresh, rfl⟩)
  | waits active _ _ _ going => exact .inr (.inr ⟨active, .inl going⟩)
  | ends active _ _ worked e => exact .inr (.inr ⟨active, .inr ⟨worked, e, rfl⟩⟩)
  | refused | stopped | stops | marks | silent | told | idles => exact .inl rfl

theorem Executed.entering (executed : Executed s .start t) (fresh : s.task.state = .initial) :
    t.phase = .preparing := by
  cases executed with
  | refused late => exact absurd fresh late
  | entered => rfl

theorem Executed.halted (executed : Executed s .stop t) : t.task.state = .stopped := by
  cases executed with
  | stopped again => exact again
  | stops => rfl

theorem Executed.unresumed (executed : Executed s h t) (other : resumed h = false) :
    t.phase = s.phase ∨ t.phase = .preparing := by
  cases executed with
  | entered => exact .inr rfl
  | idles | waits | ends => cases other
  | refused | stopped | stops | marks | silent | told => exact .inl rfl

theorem Executed.unstopped (executed : Executed s h t) (other : h ≠ .stop)
    (running : s.task.state ≠ .stopped) : t.task.state ≠ .stopped := by
  cases executed with
  | entered => simp
  | stopped | stops => exact absurd rfl other
  | ends _ _ state worked e =>
    rw [endRun_state, if_neg running]
    decide
  | refused | marks | silent | told | idles | waits => exact running

theorem Executed.remains (executed : Executed s h t)
    (past : s.task.state = .done ∨ s.task.state = .stopped) :
    t.task.state = .done ∨ t.task.state = .stopped := by
  cases executed with
  | entered fresh => simp [fresh] at past
  | stops => exact .inr rfl
  | ends _ _ state worked e =>
    rw [endRun_state]
    split
    · exact .inr rfl
    · exact .inl rfl
  | refused | stopped | marks | silent | told | idles | waits => exact past

theorem Executed.cancelled (executed : Executed s h t) (cancelled : s.cancelled = true) :
    t.cancelled = true := by
  cases executed with
  | stops _ _ kept => exact kept cancelled
  | marks => rfl
  | ends =>
    unfold endRun
    dsimp only
    split <;> exact cancelled
  | refused | entered | stopped | silent | told | idles | waits => exact cancelled

end Executed

end ProxyDataSession

namespace ProxyPair

open ProxyDataSession

variable {p q : ProxyPair} {x : Side}

def opsOf (p : ProxyPair) (x : Side) : List SocketOp := p.ops.filter fun op => op.issuer = x

structure PairOk (p : ProxyPair) : Prop where
  sessions : ∀ x, SessionOk x (p.opsOf x) (p.session x)
  closes : ∀ x, p.closes x = p.closers.length

theorem issue_issuer (x y : Side) (op : Option SocketOpKind) :
    (issue x op).filter (fun op => op.issuer = y) = if x = y then issue x op else [] := by
  cases op with
  | none => cases x <;> cases y <;> rfl
  | some kind => cases kind <;> cases x <;> cases y <;> rfl

theorem apply_session (p : ProxyPair) (x : Side) (o : Output) : (p.apply x o).session x = o.own := by
  simp [apply]

theorem apply_other (p : ProxyPair) (x : Side) (o : Output) :
    (p.apply x o).session x.other =
      { p.session x.other with strand := (p.session x.other).strand ++ o.toOther } := by
  simp [apply]

theorem apply_ops (p : ProxyPair) (x y : Side) (o : Output) :
    (p.apply x o).opsOf y = p.opsOf y ++ if x = y then issue x o.op else [] := by
  simp only [opsOf, apply, List.filter_append, issue_issuer]

theorem runHead_cases (ran : p.runHead x = some q) :
    ∃ h rest, (p.session x).strand = h :: rest ∧
      q = (p.popped x rest).apply x
        (({ p.session x with strand := rest } : ProxyDataSession).execute
          ((p.popped x rest).alive x.other) h) := by
  unfold runHead at ran
  split at ran
  · cases ran
  · rename_i h rest head
    refine ⟨h, rest, head, ?_⟩
    simpa [popped, setSession] using (Option.some.inj ran).symm

theorem popped_alive (p : ProxyPair) (x : Side) (rest : List SessionHandler) :
    (p.popped x rest).alive x.other = p.alive x.other := by
  simp [alive, popped, setSession]

theorem popped_here (p : ProxyPair) (x : Side) (rest : List SessionHandler) :
    (p.popped x rest).session x = { p.session x with strand := rest } := by
  simp [popped, setSession]

theorem popped_there (p : ProxyPair) (x : Side) (rest : List SessionHandler) :
    (p.popped x rest).session x.other = p.session x.other := by
  simp [popped, setSession]

theorem runHead_output (ran : p.runHead x = some q) :
    ∃ h rest o, (p.session x).strand = h :: rest ∧
      o = ({ p.session x with strand := rest } : ProxyDataSession).execute (p.alive x.other) h ∧
      Executed { p.session x with strand := rest } h (q.session x) ∧ q.session x = o.own ∧
      q.session x.other =
        { p.session x.other with strand := (p.session x.other).strand ++ o.toOther } ∧
      q.started = p.started ∧ q.held = p.held := by
  obtain ⟨h, rest, head, rfl⟩ := runHead_cases ran
  refine ⟨h, rest, _, head, rfl, ?_, ?_, ?_, rfl, rfl⟩
  · rw [apply_session]
    exact executed _ _ h
  · rw [apply_session, popped_alive]
  · rw [apply_other, popped_there, popped_alive]

theorem runHead_spec (ran : p.runHead x = some q) :
    ∃ h rest sent, (p.session x).strand = h :: rest ∧
      Executed { p.session x with strand := rest } h (q.session x) ∧
      q.session x.other =
        { p.session x.other with strand := (p.session x.other).strand ++ sent } ∧
      .start ∉ sent ∧ q.started = p.started ∧ q.held = p.held := by
  obtain ⟨h, rest, o, head, output, executed, _, other, started, held⟩ := runHead_output ran
  refine ⟨h, rest, o.toOther, head, executed, other, ?_, started, held⟩
  have silent := toOther_countP (fun k => k = .start) rfl (fun _ => rfl)
    { p.session x with strand := rest } (p.alive x.other) h
  rw [← output, List.countP_eq_zero] at silent
  exact fun queued => by simpa using silent _ queued

theorem post_session (p : ProxyPair) (x y : Side) (h : SessionHandler) :
    (p.post x h).session y = if y = x then (p.session y).post h else p.session y := by
  by_cases same : y = x
  · subst same
    simp [ProxyPair.post, setSession]
  · simp [ProxyPair.post, setSession, same]

theorem post_ok (ok : PairOk p) (x : Side) {h : SessionHandler} (unresumed : resumed h = false) :
    PairOk (p.post x h) := by
  refine ⟨fun y => ?_, ok.closes⟩
  change SessionOk y (p.opsOf y) _
  rw [post_session]
  split
  · exact (ok.sessions y).post [h] (by simp [unresumed])
  · exact ok.sessions y

theorem complete_ok (ok : PairOk p) {x : Side} (suspended : (p.session x).suspended = true)
    (failure : Option Exception) : PairOk (p.complete x failure) := by
  obtain ⟨active, idle⟩ := suspended_iff.mp suspended
  refine ⟨fun y => ?_, ok.closes⟩
  change SessionOk y ((p.complete x failure).opsOf y) ((p.post x (.resume failure)).session y)
  have before := ok.sessions y
  rw [post_session]
  by_cases same : y = x
  · subst same
    have consumed : (p.complete y failure).opsOf y = [] := by
      simp [opsOf, complete, List.filter_filter]
    have one : ((p.session y).post (.resume failure)).resumes = 1 := by
      simp [resumes, ProxyDataSession.post, resumed] at idle ⊢
      exact idle
    rw [if_pos rfl, consumed]
    refine ⟨Nat.le_of_eq one, fun outside => ?_, before.placed, ?_⟩
    · have waiting : (p.session y).phase.active = false := outside
      simp [active] at waiting
    · exact (outstanding_resumed y (by omega)).symm
  · have others : (p.complete x failure).opsOf y = p.opsOf y := by
      simp only [opsOf, complete, List.filter_filter]
      refine List.filter_congr fun op _ => ?_
      by_cases own : op.issuer = y
      · simp [own, same]
      · simp [own]
    rw [if_neg same, others]
    exact before

theorem runHead_ok (ok : PairOk p) (ran : p.runHead x = some q) : PairOk q := by
  obtain ⟨h, rest, head, rfl⟩ := runHead_cases ran
  constructor
  · rw [Side.forall_iff x]
    constructor
    · rw [apply_session, apply_ops, if_pos rfl]
      exact execute_ok (ok.sessions x) head _
    · rw [apply_other, apply_ops, if_neg (Side.ne_other x), List.append_nil]
      have other : (p.popped x rest).session x.other = p.session x.other := by
        simp [popped, setSession]
      rw [other]
      exact (ok.sessions x.other).post _ (toOther_countP resumed rfl (fun _ => rfl) _ _ _)
  · intro y
    have before := ok.closes y
    simp only [apply]
    split
    · simpa [popped, setSession] using before
    · exact before

theorem ok_next {a : Action} (ok : PairOk p) (taken : machine.next p a = some q) : PairOk q := by
  cases a with
  | start x =>
    simp only [machine] at taken
    split at taken
    · cases taken
      have posted : PairOk (p.post x .start) := post_ok ok x rfl
      exact ⟨posted.sessions, posted.closes⟩
    · cases taken
  | stop x =>
    simp only [machine] at taken
    split at taken
    · cases taken
      exact post_ok ok x rfl
    · cases taken
  | emit x =>
    simp only [machine] at taken
    split at taken
    · cases taken
      exact post_ok ok x rfl
    · cases taken
  | release x =>
    cases taken
    exact ⟨ok.sessions, ok.closes⟩
  | complete x failure =>
    simp only [machine] at taken
    split at taken
    · rename_i suspended
      cases taken
      exact complete_ok ok suspended failure
    · cases taken
  | run x => exact runHead_ok ok taken

theorem pairOk (reached : machine.Reachable p) : PairOk p := by
  refine reached.invariant ⟨fun x => ?_, fun _ => rfl⟩ fun _ _ _ ok taken => ok_next ok taken
  exact ⟨Nat.zero_le _, fun _ => rfl, ⟨.inl rfl, rfl, rfl⟩, rfl⟩

end ProxyPair

end BoostBase
