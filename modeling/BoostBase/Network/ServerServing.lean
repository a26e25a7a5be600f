import BoostBase.Network.ServerStop

namespace BoostBase.Server

open Asio Transition

variable {s t : Server}

def Asked (s : Server) : Prop := s.task.state = .stopped ∨ s.cancelled = true

instance (s : Server) : Decidable (Asked s) := inferInstanceAs (Decidable (_ ∨ _))

def throws (env : ServerEnv) (ec : ErrorCode) : Bool :=
  ec ≠ .success || env.create.isSome ||
    match env.handler with
    | some (.error _) => true
    | some (.ok _) | none => false

def Fails (s : Server) : Action → Bool
  | .run env =>
    match s.strand with
    | .start :: _ => s.task.state = .initial && env.acceptor.isSome
    | .resume ec :: _ =>
      !decide (Asked s) && throws env ec
    | _ => false
  | _ => false

def Unfailing (s : Server) (a : Action) (_ : Server) : Prop := Fails s a = false

def ServesUnasked (s : Server) : Prop := ∀ e, s.phase = .ended e → Asked s

/-- A task that has not begun cannot be cancelled. -/
def Fresh (s : Server) : Prop :=
  s.task.state = .initial → s.task.cancellation = none ∧ s.cancelled = false

@[simp] theorem endRun_cancelled (s : Server) (e : Option Exception) :
    (s.endRun e).cancelled = s.cancelled := by
  unfold endRun
  split <;> rfl

theorem endRun_asked (s : Server) (e : Option Exception) : Asked (s.endRun e) ↔ Asked s := by
  rw [Asked, endRun_task, endRun_cancelled, leave_stopped, Asked]

theorem endRun_serves (s : Server) (e : Option Exception) : ServesUnasked (s.endRun e) ↔ Asked s :=
  ⟨fun serves => (endRun_asked s e).mp (serves e (endRun_phase s e)),
    fun asked _ _ => (endRun_asked s e).mpr asked⟩

theorem endRun_fresh (s : Server) (e : Option Exception) : Fresh (s.endRun e) := by
  intro fresh
  rw [endRun_task, CoroutineTask.leave_state] at fresh
  split at fresh <;> cases fresh

theorem loop_serves (entered : s.task.state = .running ∨ s.task.state = .stopped) :
    ServesUnasked s.loop := by
  unfold loop
  split
  · split
    · rename_i cancelled
      exact (endRun_serves _ _).mpr (.inr cancelled)
    · exact fun _ ended => by cases ended
  · rename_i ended
    refine (endRun_serves _ _).mpr (.inl (entered.resolve_left fun running => ?_))
    simp [CoroutineTask.running, running] at ended

theorem loop_fresh (late : s.task.state ≠ .initial) : Fresh s.loop := by
  unfold loop
  split
  · split
    · exact endRun_fresh _ _
    · exact fun fresh => absurd fresh late
  · exact endRun_fresh _ _

theorem emit_asked (asked : Asked s) : Asked s.emit := by
  unfold emit
  split
  · dsimp only
    split <;> exact .inr rfl
  · exact asked

theorem emit_fresh (fresh : Fresh s) : Fresh s.emit := by
  unfold emit
  split
  · rename_i signal
    intro initial
    have none : s.task.cancellation = none := by
      dsimp only at initial
      split at initial <;> exact (fresh initial).1
    rw [none] at signal
    cases signal
  · exact fresh

theorem stopBody_asked (s : Server) : Asked s.stopBody := by
  unfold stopBody
  split
  · rename_i already
    exact .inl (CoroutineTask.stopEntry_none.mp already)
  · rename_i task entry
    obtain ⟨-, rfl⟩ := CoroutineTask.stopEntry_some.mp entry
    exact .inl (by simp)

theorem stopBody_fresh (s : Server) : Fresh s.stopBody := by
  intro fresh
  unfold stopBody at fresh
  split at fresh
  · rename_i already
    rw [CoroutineTask.stopEntry_none.mp already] at fresh
    cases fresh
  · rename_i task entry
    obtain ⟨-, rfl⟩ := CoroutineTask.stopEntry_some.mp entry
    simp only [emit_task] at fresh
    cases fresh

theorem startBody_serves (fresh : Fresh s) (serves : ServesUnasked s) (env : ServerEnv) :
    ServesUnasked (s.startBody env) ↔ ¬ (s.task.state = .initial ∧ env.acceptor.isSome = true) := by
  unfold startBody
  split
  · rename_i e refused
    refine iff_of_true serves fun starts => ?_
    rw [CoroutineTask.enter_initial starts.1] at refused
    cases refused
  · rename_i task entered
    obtain ⟨initial, rfl⟩ := CoroutineTask.enter_ok.mp entered
    dsimp only
    split
    · rename_i e fails
      rw [endRun_serves, fails]
      refine iff_of_false (fun asked => ?_) (fun serves => serves ⟨initial, rfl⟩)
      rcases asked with stopped | cancelled
      · cases stopped
      · rw [(fresh initial).2] at cancelled
        cases cancelled
    · rename_i opens
      refine iff_of_true (loop_serves (.inl rfl)) fun fails => ?_
      rw [opens] at fails
      cases fails.2

theorem startBody_fresh (fresh : Fresh s) (env : ServerEnv) : Fresh (s.startBody env) := by
  unfold startBody
  split
  · exact fresh
  · rename_i task entered
    obtain ⟨-, rfl⟩ := CoroutineTask.enter_ok.mp entered
    dsimp only
    split
    · exact endRun_fresh _ _
    · exact loop_fresh (fun same => by cases same)

theorem accepted_serves (entered : s.task.state = .running ∨ s.task.state = .stopped)
    (env : ServerEnv) (ec : ErrorCode) :
    (ServesUnasked (s.accepted env ec) ↔ (throws env ec = true → Asked s)) ∧
      Fresh (s.accepted env ec) := by
  have late : s.task.state ≠ .initial := by rcases entered with running | stopped <;> simp [*]
  unfold accepted throws
  by_cases failed : ec ≠ .success
  · rw [if_pos failed]
    exact ⟨by simp [endRun_serves, failed], endRun_fresh _ _⟩
  · rw [if_neg failed]
    split
    · rename_i e created
      exact ⟨by simp [endRun_serves, created], endRun_fresh _ _⟩
    · rename_i created
      dsimp only
      split
      · rename_i empty
        exact ⟨iff_of_true (loop_serves entered) (by simp [empty, created, failed]), loop_fresh late⟩
      · rename_i started decided
        exact ⟨iff_of_true (loop_serves entered) (by simp [decided, created, failed]), loop_fresh late⟩
      · rename_i e thrown
        refine ⟨(endRun_serves _ _).trans ?_, endRun_fresh _ _⟩
        simp [thrown, Asked]

theorem serves_next (ok : Ok s) (fresh : Fresh s) {a : Action} (taken : machine.next s a = some t) :
    (ServesUnasked s → (ServesUnasked t ↔ Unfailing s a t)) ∧ Fresh t := by
  cases a with
  | start | stop | cancel =>
    cases taken
    exact ⟨fun serves => iff_of_true serves rfl, fresh⟩
  | complete ec =>
    simp only [machine] at taken
    split at taken
    · cases taken
      exact ⟨fun serves => iff_of_true serves rfl, fresh⟩
    · cases taken
  | destroy i =>
    cases taken
    exact ⟨fun serves => iff_of_true serves rfl, fresh⟩
  | run env =>
    simp only [machine] at taken
    split at taken
    · cases taken
    · rename_i h rest head
      cases taken
      cases h with
      | start =>
        refine ⟨fun serves => ?_, startBody_fresh (s := { s with strand := rest }) fresh env⟩
        refine (startBody_serves (s := { s with strand := rest }) fresh serves env).trans ?_
        simp [Unfailing, Fails, head]
      | stop =>
        refine ⟨fun _ => iff_of_true (fun _ _ => stopBody_asked _) ?_, stopBody_fresh _⟩
        simp [Unfailing, Fails, head]
      | emit =>
        refine ⟨fun serves => iff_of_true (fun e ended => ?_) (by simp [Unfailing, Fails, head]),
          emit_fresh (s := { s with strand := rest }) fresh⟩
        have before : s.phase = .ended e := (emit_phase { s with strand := rest }).symm.trans ended
        exact emit_asked (s := { s with strand := rest }) (serves e before)
      | resume ec =>
        obtain ⟨accepting, -⟩ := pop_resume ok head
        rw [execute_resume ok head]
        obtain ⟨agree, later⟩ :=
          accepted_serves (s := { s with strand := rest }) (ok.entered accepting) env ec
        refine ⟨fun _ => agree.trans ?_, later⟩
        have asked : Asked { s with strand := rest } ↔ Asked s := Iff.rfl
        rw [asked, Unfailing, Fails, head]
        by_cases told : Asked s <;> simp [told]

/-- In a run a server leaves its loop unasked nowhere, if and only if the acceptor opens, no accept
    fails and neither the factory nor the handler throws before it is asked. -/
theorem serves_until_asked (as : List Action) :
    machine.Visits ServesUnasked machine.initial as ↔ machine.Always Unfailing machine.initial as :=
  Machine.visits_iff_always (I := fun s => Ok s ∧ Fresh s)
    (fun _ _ _ kept taken => ⟨ok_next kept.1 taken, (serves_next kept.1 kept.2 taken).2⟩)
    (fun _ _ _ kept serves taken => (serves_next kept.1 kept.2 taken).1 serves)
    ⟨ok_initial, fun _ => ⟨rfl, rfl⟩⟩ (fun _ ended => by cases ended) as

/-- A connection is accepted and there is a session for it. -/
def Accepts (s : Server) : Action → Bool
  | .run env =>
    match s.strand with
    | .resume .success :: _ => env.create.isNone
    | _ => false
  | _ => false

/-- There is no handler, or it has said yes. -/
def approves (env : ServerEnv) : Bool :=
  match env.handler with
  | none => true
  | some (.ok started) => started
  | some (.error _) => false

def Starts (s : Server) : Action → Bool
  | .run env => Accepts s (.run env) && approves env
  | _ => false

theorem accepted_flags (s : Server) (env : ServerEnv) (ec : ErrorCode) :
    (s.accepted env ec).sessions.map AcceptedSession.started =
      s.sessions.map AcceptedSession.started ++
        if ec = .success ∧ env.create = none then [approves env] else [] := by
  unfold accepted approves
  by_cases success : ec = .success
  · cases created : env.create with
    | some e => simp [success]
    | none =>
      cases answer : env.handler with
      | none => simp [success, loop_sessions]
      | some decided =>
        cases decided with
        | ok started => simp [success, loop_sessions]
        | error e => simp [success]
  · simp [success]

theorem flags_next (ok : Ok s) {a : Action} (taken : machine.next s a = some t) :
    t.sessions.map AcceptedSession.started = s.sessions.map AcceptedSession.started ++
      if Accepts s a then [Starts s a] else [] := by
  cases a with
  | start | stop | cancel =>
    cases taken
    exact (List.append_nil _).symm
  | complete ec =>
    simp only [machine] at taken
    split at taken
    · cases taken
      exact (List.append_nil _).symm
    · cases taken
  | destroy i =>
    cases taken
    exact (destroy_flags _ _ _ fun _ => rfl).trans (List.append_nil _).symm
  | run env =>
    simp only [machine] at taken
    split at taken
    · cases taken
    · rename_i h rest head
      cases taken
      cases h with
      | start => simp [Accepts, head, execute, startBody_sessions]
      | stop => simpa [Accepts, head, execute] using (stopBody_flags { s with strand := rest }).2
      | emit => simp [Accepts, head, execute]
      | resume ec =>
        rw [execute_resume ok head, accepted_flags]
        cases ec <;> cases created : env.create <;> simp [Accepts, Starts, head, created]

theorem Starts.accepts {a : Action} (starts : Starts s a = true) : Accepts s a = true := by
  cases a with
  | run env => exact (Bool.and_eq_true_iff.mp starts).1
  | start | stop | cancel | complete ec | destroy i => cases starts

theorem ok (reached : machine.Reachable s) : Ok s :=
  reached.invariant ok_initial fun _ _ _ kept taken => ok_next kept taken

def Connects (_ : Server) : Action → Bool
  | .complete ec => ec = .success
  | _ => false

/-- The factory throws at a connection. A `TCPSocket` already made for it is a raw pointer nobody
    deletes, and the connection stays open. -/
def Refuses (s : Server) : Action → Bool
  | .run env =>
    match s.strand with
    | .resume .success :: _ => env.create.isSome
    | _ => false
  | _ => false

def queued (s : Server) : Nat := s.strand.count (.resume .success)

@[simp] theorem post_queued (s : Server) (h : ServerHandler) :
    (s.post h).queued = s.queued + if h = .resume .success then 1 else 0 := by
  rw [queued, post, List.count_append, List.count_singleton]
  simp [queued]

@[simp] theorem endRun_queued (s : Server) (e : Option Exception) : (s.endRun e).queued = s.queued := by
  unfold endRun
  split
  · exact (post_queued s .stop).trans (Nat.add_zero _)
  · rfl

@[simp] theorem loop_queued (s : Server) : s.loop.queued = s.queued := by
  unfold loop
  split
  · split
    · exact endRun_queued _ _
    · rfl
  · exact endRun_queued _ _

@[simp] theorem emit_queued (s : Server) : s.emit.queued = s.queued := by
  unfold emit
  split
  · dsimp only
    split
    · exact (post_queued _ (.resume .operationCanceled)).trans (Nat.add_zero _)
    · rfl
  · rfl

theorem stopBody_queued (s : Server) : s.stopBody.queued = s.queued := by
  unfold stopBody
  split
  · rfl
  · rename_i task entry
    exact emit_queued { s with task := task }

theorem startBody_queued (s : Server) (env : ServerEnv) : (s.startBody env).queued = s.queued := by
  unfold startBody
  split
  · rfl
  · rename_i task entry
    dsimp only
    split
    · exact endRun_queued { s with task := task } _
    · exact loop_queued { s with task := task }

theorem accepted_queued (s : Server) (env : ServerEnv) (ec : ErrorCode) :
    (s.accepted env ec).queued = s.queued := by
  let grown (started : Bool) : Server :=
    { s with sessions := s.sessions ++ [⟨true, started, 0, true⟩] }
  unfold accepted
  split
  · exact endRun_queued _ _
  · split
    · exact endRun_queued _ _
    · dsimp only
      split
      · exact loop_queued (grown true)
      · exact loop_queued (grown _)
      · exact endRun_queued (grown false) _

theorem queued_le_one (ok : Ok s) : s.queued ≤ 1 := by
  have fewer : s.queued ≤ s.resumes := by
    refine List.countP_mono_left fun h _ same => ?_
    rw [beq_iff_eq.mp same]
    rfl
  exact Nat.le_trans fewer ok.single

theorem connections_next (ok : Ok s) {a : Action} (taken : machine.next s a = some t) :
    t.sessions.length + t.queued + (if Refuses s a then 1 else 0) =
      s.sessions.length + s.queued + if Connects s a then 1 else 0 := by
  have flags := congrArg List.length (flags_next ok taken)
  rw [List.length_map, List.length_append, List.length_map] at flags
  cases a with
  | start | stop | cancel =>
    cases taken
    simp [Refuses, Connects]
  | complete ec =>
    simp only [machine] at taken
    split at taken
    · cases taken
      simp [Refuses, Connects, Nat.add_assoc]
    · cases taken
  | destroy i =>
    cases taken
    simp [Refuses, Connects, queued]
  | run env =>
    simp only [machine] at taken
    split at taken
    · cases taken
    · rename_i h rest head
      cases taken
      have popped : s.queued = queued { s with strand := rest } + if h = .resume .success then 1 else 0 := by
        simp [queued, head, List.count_cons]
      rw [popped, flags]
      cases h with
      | start => simp [Refuses, Connects, Accepts, head, execute, startBody_queued]
      | stop => simp [Refuses, Connects, Accepts, head, execute, stopBody_queued]
      | emit => simp [Refuses, Connects, Accepts, head, execute]
      | resume ec =>
        rw [execute_resume ok head, accepted_queued]
        cases ec <;> cases created : env.create <;> simp [Refuses, Connects, Accepts, head, created]
        all_goals omega

def Begun (s : Server) : Prop := s.phase ≠ .idle → s.task.state ≠ .initial

theorem endRun_late (s : Server) (e : Option Exception) : (s.endRun e).task.state ≠ .initial := by
  rw [endRun_task, CoroutineTask.leave_state]
  split <;> simp

theorem loop_late (late : s.task.state ≠ .initial) : s.loop.task.state ≠ .initial := by
  unfold loop
  split
  · split
    · exact endRun_late _ _
    · exact late
  · exact endRun_late _ _

theorem accepted_late (late : s.task.state ≠ .initial) (env : ServerEnv) (ec : ErrorCode) :
    (s.accepted env ec).task.state ≠ .initial := by
  unfold accepted
  split
  · exact endRun_late _ _
  · split
    · exact endRun_late _ _
    · dsimp only
      split
      · exact loop_late late
      · exact loop_late late
      · exact endRun_late _ _

theorem startBody_begun (begun : Begun s) (env : ServerEnv) : Begun (s.startBody env) := by
  unfold startBody
  split
  · exact begun
  · rename_i task entry
    obtain ⟨-, rfl⟩ := CoroutineTask.enter_ok.mp entry
    dsimp only
    split
    · exact fun _ => endRun_late _ _
    · exact fun _ => loop_late (fun same => by cases same)

theorem stopBody_begun (begun : Begun s) : Begun s.stopBody := by
  unfold stopBody
  split
  · exact begun
  · rename_i task entry
    obtain ⟨-, rfl⟩ := CoroutineTask.stopEntry_some.mp entry
    exact fun _ same => by
      rw [emit_task] at same
      cases same

@[simp] theorem stopBody_phase (s : Server) : s.stopBody.phase = s.phase := by
  unfold stopBody
  split
  · rfl
  · rename_i task entry
    exact emit_phase { s with task := task }

theorem begun_next (ok : Ok s) (begun : Begun s) {a : Action} (taken : machine.next s a = some t) :
    Begun t := by
  cases a with
  | start | stop | cancel | destroy i =>
    cases taken
    exact begun
  | complete ec =>
    simp only [machine] at taken
    split at taken
    · cases taken
      exact begun
    · cases taken
  | run env =>
    simp only [machine] at taken
    split at taken
    · cases taken
    · rename_i h rest head
      cases taken
      cases h with
      | start => exact startBody_begun (s := { s with strand := rest }) begun env
      | stop => exact stopBody_begun (s := { s with strand := rest }) begun
      | emit =>
        intro later
        rw [execute, emit_phase] at later
        rw [execute, emit_task]
        exact begun later
      | resume ec =>
        obtain ⟨accepting, -⟩ := pop_resume ok head
        have late : s.task.state ≠ .initial := begun (by rw [accepting]; simp)
        simp only [execute, accepting]
        exact fun _ => accepted_late (s := { s with strand := rest, phase := .accepting }) late env ec

def Thrown (s : Server) : Prop := ∃ e, s.phase = .ended (some e)

theorem thrown_next (ok : Ok s) (begun : Begun s) (thrown : Thrown s) {a : Action}
    (taken : machine.next s a = some t) : Thrown t := by
  obtain ⟨e, was⟩ := thrown
  refine ⟨e, ?_⟩
  cases a with
  | start | stop | cancel | destroy i =>
    cases taken
    exact was
  | complete ec =>
    simp only [machine] at taken
    split at taken
    · cases taken
      exact was
    · cases taken
  | run env =>
    simp only [machine] at taken
    split at taken
    · cases taken
    · rename_i h rest head
      cases taken
      cases h with
      | start =>
        have late : s.task.state ≠ .initial := begun (by rw [was]; simp)
        have refused : s.task.enter () = .error (.systemError .stateNotRecoverable) :=
          CoroutineTask.enter_late late
        simp only [execute, startBody, refused]
        exact was
      | stop => exact (stopBody_phase _).trans was
      | emit => exact (emit_phase _).trans was
      | resume ec =>
        obtain ⟨accepting, -⟩ := pop_resume ok head
        rw [was] at accepting
        cases accepting

theorem refuses_next (ok : Ok s) {a : Action} (taken : machine.next s a = some t)
    (refuses : Refuses s a = true) : ¬ Thrown s ∧ Thrown t := by
  cases a with
  | start | stop | cancel | complete ec | destroy i => cases refuses
  | run env =>
    rw [Refuses] at refuses
    split at refuses
    · rename_i rest head
      obtain ⟨accepting, -⟩ := pop_resume ok head
      obtain ⟨e, thrown⟩ := Option.isSome_iff_exists.mp refuses
      refine ⟨fun ⟨e, ended⟩ => ?_, e, ?_⟩
      · rw [accepting] at ended
        cases ended
      · simp only [machine, head, execute, accepting, accepted, ne_eq, not_true_eq_false, if_false,
          thrown, Option.some.injEq] at taken
        rw [← taken]
        exact endRun_phase _ _
    · cases refuses

/-- No connection is lost: each one the acceptor has handed out has a session of its own, started
    if the handler has let it, or waits alone for `run` to go on, or was the one at which the
    factory threw, and that was the end of `run`. -/
theorem connections_accounted {as : List Action} (ran : machine.run machine.initial as = some s) :
    machine.tally Connects machine.initial as =
        s.sessions.length + s.queued + machine.tally Refuses machine.initial as ∧
      s.sessions.countP AcceptedSession.started = machine.tally Starts machine.initial as ∧
      s.queued ≤ 1 ∧ machine.tally Refuses machine.initial as ≤ 1 ∧
      (machine.tally Refuses machine.initial as = 1 → ∃ e, s.phase = .ended (some e)) := by
  have sum : machine.tally Connects machine.initial as =
      s.sessions.length + s.queued + machine.tally Refuses machine.initial as := by
    refine Machine.run_course (m := machine) (fun as s =>
      machine.tally Connects machine.initial as =
        s.sessions.length + s.queued + machine.tally Refuses machine.initial as) rfl ?_ ran
    intro as s a t ran count taken
    have step := connections_next (ok ⟨as, ran⟩) taken
    rw [Machine.tally_snoc ran taken, Machine.tally_snoc ran taken, count]
    omega
  have started : (s.sessions.map AcceptedSession.started).countP id =
      machine.tally Starts machine.initial as := by
    refine Machine.run_course (m := machine) (fun as s =>
      (s.sessions.map AcceptedSession.started).countP id = machine.tally Starts machine.initial as)
      rfl ?_ ran
    intro as s a t ran count taken
    rw [Machine.tally_snoc ran taken, flags_next (ok ⟨as, ran⟩) taken, List.countP_append, count]
    by_cases accepts : Accepts s a = true
    · rw [if_pos accepts]
      exact congrArg _ List.countP_singleton
    · rw [if_neg accepts, if_neg fun starts => accepts (Starts.accepts starts)]
      rfl
  have refused : Begun s ∧ machine.tally Refuses machine.initial as ≤ 1 ∧
      (machine.tally Refuses machine.initial as = 1 → Thrown s) := by
    refine Machine.run_course (m := machine) (fun as s =>
      Begun s ∧ machine.tally Refuses machine.initial as ≤ 1 ∧
        (machine.tally Refuses machine.initial as = 1 → Thrown s))
      ⟨fun started => absurd rfl started, Nat.zero_le _, fun one => by cases one⟩ ?_ ran
    rintro as s a t ran ⟨begun, bound, thrown⟩ taken
    have reached : Ok s := ok ⟨as, ran⟩
    refine ⟨begun_next reached begun taken, ?_⟩
    rw [Machine.tally_snoc ran taken]
    by_cases refuses : Refuses s a = true
    · obtain ⟨still, after⟩ := refuses_next reached taken refuses
      have none_before : machine.tally Refuses machine.initial as = 0 := by
        by_contra some
        exact still (thrown (by omega))
      rw [if_pos refuses, none_before]
      exact ⟨Nat.le_refl 1, fun _ => after⟩
    · rw [if_neg refuses]
      exact ⟨bound, fun one => thrown_next reached begun (thrown one) taken⟩
  rw [List.countP_map] at started
  exact ⟨sum, started, queued_le_one (ok ⟨as, ran⟩), refused.2⟩

/-- The handler takes the first connection and turns the second away, the server is stopped, and
    the factory throws at the third. -/
def threeClients : List Action :=
  let handler (started : Bool) : ServerEnv := ⟨none, none, some (.ok started)⟩
  [.start, .run ⟨none, none, none⟩, .complete .success, .run (handler true), .complete .success,
    .run (handler false), .destroy 1, .stop, .complete .success, .run (handler true),
    .run ⟨none, some (.systemError .hostUnreachable), none⟩]

theorem connections_accounted_three : ∃ s, machine.run machine.initial threeClients = some s ∧
    s.sessions.length = 2 ∧ 3 = 2 + s.queued + 1 ∧ s.sessions.countP AcceptedSession.started = 1 ∧
    s.phase = .ended (some (.systemError .hostUnreachable)) := by
  have ran : machine.run machine.initial threeClients = some _ := rfl
  obtain ⟨sum, started, -⟩ := connections_accounted ran
  exact ⟨_, ran, rfl, sum, started, rfl⟩

end BoostBase.Server
