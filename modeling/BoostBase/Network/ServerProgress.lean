import BoostBase.Network.ServerStop
import BoostBase.Transition.Progress
import Mathlib.Algebra.Order.Ring.Nat

namespace BoostBase

open Asio Transition

/-- More than what running the handler of a stopped server can leave to do. -/
def ServerHandler.weight : ServerHandler → Nat
  | .resume _ => 2
  | .start | .stop | .emit => 1

namespace Server

variable {s t : Server}

def Action.internal : Action → Bool
  | .run _ | .complete _ => true
  | .start | .stop | .cancel | .destroy _ => false

def rank (s : Server) : Nat := (s.strand.map ServerHandler.weight).sum

/-- A stopped server accepts nothing more, but for what the acceptor had accepted by then. -/
structure Halted (s : Server) : Prop where
  signal : s.phase = .accepting → s.task.cancellation.isSome = true
  answered : s.phase = .accepting → s.task.state = .stopped → s.resumes = 1

/-- The stopped server goes on to `t`, with less to do and no more connections to take. -/
structure Winds (s t : Server) : Prop where
  stopped : t.task.state = .stopped
  falls : t.rank < s.rank
  taken : t.sessions.length + t.resumes ≤ s.sessions.length + s.resumes

theorem halted_idle (idle : s.phase ≠ .accepting) : Halted s :=
  ⟨fun accepting => absurd accepting idle, fun accepting => absurd accepting idle⟩

theorem endRun_halted (s : Server) (e : Option Exception) : Halted (s.endRun e) :=
  halted_idle (by simp)

theorem loop_halted (signal : s.task.cancellation.isSome = true) : Halted s.loop := by
  unfold loop
  split
  · rename_i running
    split
    · exact endRun_halted _ _
    · refine ⟨fun _ => signal, fun _ stopped => ?_⟩
      have stopped : s.task.state = .stopped := stopped
      simp [CoroutineTask.running, stopped] at running
  · exact endRun_halted _ _

theorem Halted.post (halted : Halted s) {h : ServerHandler} (other : resumed h = false) :
    Halted (s.post h) := by
  have same : (s.post h).resumes = s.resumes := by simp [resumes, Server.post, other]
  exact ⟨halted.signal, fun accepting stopped => same.trans (halted.answered accepting stopped)⟩

theorem Halted.pop (halted : Halted s) {h : ServerHandler} {rest : List ServerHandler}
    (head : s.strand = h :: rest) (other : resumed h = false) : Halted { s with strand := rest } := by
  have same : resumes { s with strand := rest } = s.resumes := by simp [resumes, head, other]
  exact ⟨halted.signal, fun accepting stopped => same.trans (halted.answered accepting stopped)⟩

theorem emit_answered (single : s.resumes ≤ 1) (accepting : s.phase = .accepting)
    (signal : s.task.cancellation.isSome = true) : s.emit.resumes = 1 := by
  unfold emit
  rw [if_pos signal]
  dsimp only
  split
  · rename_i pending
    have idle : s.resumes = 0 := (acceptPending_iff.mp pending).2
    rw [resume_resumes]
    exact congrArg (· + 1) idle
  · rename_i answered
    have queued : s.resumes ≠ 0 := fun idle => answered (acceptPending_iff.mpr ⟨accepting, idle⟩)
    change s.resumes = 1
    omega

theorem emit_halted (single : s.resumes ≤ 1)
    (signal : s.phase = .accepting → s.task.cancellation.isSome = true) : Halted s.emit := by
  refine ⟨fun accepting => ?_, fun accepting _ => ?_⟩
  all_goals rw [emit_phase] at accepting
  · rw [emit_task]
    exact signal accepting
  · exact emit_answered single accepting (signal accepting)

theorem startBody_halted (halted : Halted s) (env : ServerEnv) : Halted (s.startBody env) := by
  unfold startBody
  split
  · exact halted
  · rename_i task entry
    obtain ⟨_, rfl⟩ := CoroutineTask.enter_ok.mp entry
    dsimp only
    split
    · exact endRun_halted _ _
    · exact loop_halted rfl

theorem stopBody_halted (ok : Ok s) (halted : Halted s) : Halted s.stopBody := by
  unfold stopBody
  split
  · exact halted
  · rename_i task entry
    obtain ⟨_, rfl⟩ := CoroutineTask.stopEntry_some.mp entry
    have marked := emit_halted (s := { s with task := ⟨.stopped, s.task.cancellation⟩ }) ok.single halted.signal
    exact ⟨marked.signal, marked.answered⟩

theorem accepted_halted (signal : s.task.cancellation.isSome = true) (env : ServerEnv) (ec : ErrorCode) :
    Halted (s.accepted env ec) := by
  unfold accepted
  split
  · exact endRun_halted _ _
  · split
    · exact endRun_halted _ _
    · dsimp only
      split
      · exact loop_halted signal
      · exact loop_halted signal
      · exact endRun_halted _ _

theorem halted_next {a : Action} (ok : Ok s) (halted : Halted s) (taken : machine.next s a = some t) :
    Halted t := by
  cases a with
  | start | stop | cancel =>
    cases taken
    exact halted.post rfl
  | complete ec =>
    simp only [machine] at taken
    split at taken
    · rename_i pending
      have idle := (acceptPending_iff.mp pending).2
      cases taken
      refine ⟨halted.signal, fun _ _ => ?_⟩
      rw [resume_resumes, idle]
    · cases taken
  | destroy i =>
    cases taken
    exact ⟨halted.signal, halted.answered⟩
  | run env =>
    simp only [machine] at taken
    split at taken
    · cases taken
    · rename_i h rest head
      cases taken
      cases h with
      | start => exact startBody_halted (halted.pop head rfl) env
      | stop => exact stopBody_halted (pop_ok ok head rfl) (halted.pop head rfl)
      | emit => exact emit_halted (pop_ok ok head rfl).single halted.signal
      | resume ec =>
        have accepting := (pop_resume ok head).1
        simp only [execute, accepting]
        exact accepted_halted (s := { s with strand := rest, phase := .accepting }) (halted.signal accepting) env ec

theorem halted (reached : machine.Reachable s) : Ok s ∧ Halted s :=
  reached.invariant (I := fun s => Ok s ∧ Halted s) ⟨ok_initial, halted_idle (by simp [machine, new])⟩
    fun _ _ _ both taken => ⟨ok_next both.1 taken, halted_next both.1 both.2 taken⟩

theorem emit_strand (answered : s.acceptPending = false) : s.emit.strand = s.strand := by
  unfold emit
  split
  · dsimp only
    split
    · rename_i pending
      have pending : s.acceptPending = true := pending
      rw [answered] at pending
      cases pending
    · rfl
  · rfl

theorem pop_rank {h : ServerHandler} {rest : List ServerHandler} (head : s.strand = h :: rest) :
    s.rank = h.weight + rank { s with strand := rest } := by
  simp [rank, head]

/-- The end of `run` in a stopped server, which may have taken one connection more. -/
structure Ends (s t : Server) : Prop where
  stopped : t.task.state = .stopped
  rank : t.rank ≤ s.rank + 1
  resumes : t.resumes = s.resumes
  sessions : t.sessions.length ≤ s.sessions.length + 1

theorem endRun_ends (stopped : s.task.state = .stopped) (e : Option Exception) : Ends s (s.endRun e) := by
  refine ⟨?_, ?_, endRun_resumes s e, by simp⟩
  · rw [endRun_task, leave_stopped, stopped]
  · unfold endRun rank
    split <;> simp [post, ServerHandler.weight]

theorem loop_ends (stopped : s.task.state = .stopped) : s.loop = s.endRun none := by
  simp [loop, CoroutineTask.running, stopped]

theorem accepted_ends (stopped : s.task.state = .stopped) (env : ServerEnv) (ec : ErrorCode) :
    Ends s (s.accepted env ec) := by
  have more (x : AcceptedSession) (e : Option Exception) :
      Ends s (endRun { s with sessions := s.sessions ++ [x] } e) := by
    have ends := endRun_ends (s := { s with sessions := s.sessions ++ [x] }) stopped e
    exact ⟨ends.stopped, ends.rank, ends.resumes, by simp⟩
  unfold accepted
  split
  · exact endRun_ends stopped _
  · split
    · exact endRun_ends stopped _
    · dsimp only
      split
      · rw [loop_ends (by exact stopped)]
        exact more _ _
      · rw [loop_ends (by exact stopped)]
        exact more _ _
      · exact more _ _

theorem internal_winds {a : Action} (ok : Ok s) (halted : Halted s) (stopped : s.task.state = .stopped)
    (internal : a.internal = true) (taken : machine.next s a = some t) : Winds s t := by
  cases a with
  | complete ec =>
    simp only [machine] at taken
    split at taken
    · rename_i pending
      obtain ⟨accepting, idle⟩ := acceptPending_iff.mp pending
      have answered := halted.answered accepting stopped
      omega
    · cases taken
  | run env =>
    simp only [machine] at taken
    split at taken
    · cases taken
    · rename_i h rest head
      cases taken
      have cost := pop_rank head
      have idles (other : resumed h = false) : Winds s { s with strand := rest } := by
        have same : resumes { s with strand := rest } = s.resumes := by simp [resumes, head, other]
        refine ⟨stopped, ?_, Nat.le_of_eq (congrArg (s.sessions.length + ·) same)⟩
        cases h <;> simp only [ServerHandler.weight] at cost <;> omega
      cases h with
      | start =>
        have refused : startBody { s with strand := rest } env = { s with strand := rest } := by
          have late : s.task.enter () = .error (.systemError .stateNotRecoverable) :=
            CoroutineTask.enter_late (by simp [stopped])
          simp only [startBody, late]
        rw [execute, refused]
        exact idles rfl
      | stop =>
        have again : stopBody { s with strand := rest } = { s with strand := rest } := by
          simp [stopBody, CoroutineTask.stopEntry_none.mpr stopped]
        rw [execute, again]
        exact idles rfl
      | emit =>
        have popped := halted.pop head rfl
        have waits : acceptPending { s with strand := rest } = false := by
          by_contra pending
          obtain ⟨accepting, idle⟩ := acceptPending_iff.mp (by simpa using pending)
          have answered := popped.answered accepting stopped
          omega
        obtain ⟨_, falls, taken⟩ := idles rfl
        have same : (emit { s with strand := rest }).strand = rest := emit_strand waits
        refine ⟨by simpa [execute] using stopped, ?_, ?_⟩
        · simpa [execute, rank, same] using falls
        · simpa [execute, resumes, same] using taken
      | resume ec =>
        obtain ⟨accepting, idle⟩ := pop_resume ok head
        have queued : s.resumes = 1 := by
          have count : s.resumes = resumes { s with strand := rest } + 1 := by
            simp [resumes, head, List.countP_cons, resumed]
          omega
        have ends := accepted_ends (s := { s with strand := rest, phase := .accepting }) stopped env ec
        simp only [execute, accepting]
        obtain ⟨still, less, unresumed, more⟩ := ends
        refine ⟨still, ?_, ?_⟩
        · simp only [rank, ServerHandler.weight] at less cost ⊢
          omega
        · have none_left : resumes { s with strand := rest, phase := .accepting } = 0 := idle
          simp only at more
          omega
  | start | stop | cancel | destroy _ => cases internal

theorem ranked : machine.Ranked (fun s => machine.Reachable s ∧ s.task.state = .stopped)
    (fun a => a.internal = true) rank where
  keeps _ _ _ both internal taken :=
    have held := halted both.1
    ⟨both.1.step taken, (internal_winds held.1 held.2 both.2 internal taken).stopped⟩
  falls _ _ _ both internal taken :=
    have held := halted both.1
    (internal_winds held.1 held.2 both.2 internal taken).falls

theorem drained_iff (reached : machine.Reachable s) (stopped : s.task.state = .stopped) :
    machine.Stuck (fun a => a.internal = true) s ↔ s.strand = [] := by
  constructor
  · intro stuck
    have idle := stuck (.run ⟨none, none, none⟩) rfl
    simp only [machine] at idle
    split at idle
    · assumption
    · cases idle
  · intro drained a internal
    cases a with
    | run env => simp only [machine, drained]
    | complete ec =>
      have waits : s.acceptPending = false := by
        by_contra pending
        obtain ⟨accepting, idle⟩ := acceptPending_iff.mp (by simpa using pending)
        have answered := (halted reached).2.answered accepting stopped
        omega
      simp [machine, waits]
    | start | stop | cancel | destroy _ => cases internal

theorem taken_bound {as : List Action} (reached : machine.Reachable s) (stopped : s.task.state = .stopped)
    (internal : ∀ a ∈ as, a.internal = true) (ran : machine.run s as = some t) :
    t.sessions.length + t.resumes ≤ s.sessions.length + s.resumes := by
  induction as generalizing s with
  | nil =>
    cases ran
    exact Nat.le_refl _
  | cons a as ih =>
    obtain ⟨u, taken, rest⟩ := Machine.run_cons.mp ran
    obtain ⟨own, later⟩ := List.forall_mem_cons.mp internal
    have held := halted reached
    have winds := internal_winds held.1 held.2 stopped own taken
    exact Nat.le_trans (ih (reached.step taken) winds.stopped later rest) winds.taken

/-- A stopped server comes to rest by itself, whatever its acceptor, its factory and its handler do.
    It makes at most one more session, of a connection the acceptor had taken before. -/
theorem stopped_drains (reached : machine.Reachable s) (stopped : s.task.state = .stopped)
    {as : List Action} (internal : ∀ a ∈ as, a.internal = true) (ran : machine.run s as = some t) :
    as.length ≤ s.rank ∧ t.sessions.length ≤ s.sessions.length + s.resumes ∧ s.resumes ≤ 1 ∧
      (machine.Stuck (fun a => a.internal = true) t ↔ t.strand = []) ∧
      ∃ bs u, (∀ b ∈ bs, b.internal = true) ∧ machine.run t bs = some u ∧ u.strand = [] ∧
        u.phase ≠ .accepting := by
  obtain ⟨⟨later, still⟩, bound⟩ := ranked.run_le ⟨reached, stopped⟩ internal ran
  obtain ⟨bs, u, kinds, carried, stuck⟩ := ranked.settles ⟨later, still⟩
  have ended : machine.Reachable u := later.trans ⟨bs, carried⟩
  obtain ⟨⟨_, held⟩, _⟩ := ranked.run_le ⟨later, still⟩ kinds carried
  have drained := (drained_iff ended held).mp stuck
  have most := taken_bound reached stopped internal ran
  refine ⟨by omega, by omega, (halted reached).1.single, drained_iff later still, bs, u, kinds, carried, drained, ?_⟩
  intro accepting
  have answered := (halted ended).2.answered accepting held
  simp [resumes, drained] at answered

/-- A connection is accepted before the stop runs, and resumed after it. -/
def stoppedLate : List Action :=
  [.start, .run ⟨none, none, none⟩, .stop, .complete .success, .run ⟨none, none, none⟩]

theorem stopped_drains_late : ∃ s t : Server, machine.run machine.initial stoppedLate = some s ∧
    machine.run s [.run ⟨none, none, none⟩] = some t ∧ 1 ≤ s.rank ∧ s.sessions.length = 0 ∧
    t.sessions.length = 1 ∧ t.strand = [] := by
  have drains (s t : Server) (ran : machine.run machine.initial stoppedLate = some s)
      (stopped : s.task.state = .stopped) (on : machine.run s [.run ⟨none, none, none⟩] = some t) :=
    stopped_drains ⟨stoppedLate, ran⟩ stopped (by decide) on
  obtain ⟨bound, _⟩ := drains _ _ rfl rfl rfl
  exact ⟨_, _, rfl, rfl, bound, rfl, rfl, rfl⟩

end Server

end BoostBase
