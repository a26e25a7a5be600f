import BoostBase.Logger.LoggerTask
import Mathlib.Algebra.Order.Ring.Nat

namespace BoostBase.LoggerTask

open Asio Text Transition

variable {l : LoggerTask} {term : Terminal}

/-- A suspended `run` has a signal to cancel it by, and in a stopped task its wake-up is
    queued already. -/
structure Ok (l : LoggerTask) : Prop where
  signal : l.phase = .waiting → l.task.cancellation.isSome
  cancelled : l.cancelled = true → l.task.state = .stopped
  woken : l.phase = .waiting → l.task.state = .stopped → l.strand.any LoggerHandler.isWake = true

theorem new_ok : Ok new := by
  constructor <;> simp [new]

/-- How many handlers it takes at most before the strand is empty, when no timer expires. -/
def weight : LoggerHandler → Nat
  | .start | .stop => 1
  | .wake _ => 3

def rank (l : LoggerTask) : Nat :=
  (l.strand.map weight).sum + if l.task.state = .stopped then 0 else 3

theorem post_rank (l : LoggerTask) (h : LoggerHandler) : (l.post h).rank = l.rank + weight h := by
  simp only [rank, post, List.map_append, List.map_singleton, List.sum_append, List.sum_singleton]
  exact Nat.add_right_comm _ _ _

theorem leave_stopped (task : CoroutineTask Unit) : task.leave.state = .stopped ↔ task.state = .stopped := by
  rw [CoroutineTask.leave_state]
  split <;> simp_all

theorem endRun_ok (cancelled : l.cancelled = true → l.task.state = .stopped) (e : Option Exception) :
    Ok (l.endRun e) := by
  have task : (l.endRun e).task = l.task.leave := by
    unfold endRun
    split <;> rfl
  have phase : (l.endRun e).phase = .ended e := by
    unfold endRun
    split <;> rfl
  have same : (l.endRun e).cancelled = l.cancelled := by
    unfold endRun
    split <;> rfl
  refine ⟨by simp [phase], fun set => ?_, by simp [phase]⟩
  rw [task, leave_stopped]
  exact cancelled (same ▸ set)

theorem endRun_rank (l : LoggerTask) (e : Option Exception) : (l.endRun e).rank ≤ l.rank + 1 := by
  have left (k : LoggerTask) : ({ k with task := k.task.leave, phase := .ended e } : LoggerTask).rank =
      k.rank := by
    simp only [rank, leave_stopped]
  unfold endRun
  split
  · show ({ l.post .stop with task := l.task.leave, phase := .ended e } : LoggerTask).rank ≤ _
    rw [show l.task = (l.post .stop).task from rfl, left, post_rank]
    simp [weight]
  · rw [left]
    omega

theorem endRun_none_rank (l : LoggerTask) : (l.endRun none).rank = l.rank := by
  simp only [endRun, Option.any_none, Bool.false_eq_true, if_false, rank, leave_stopped]

@[simp] theorem flush_task (l : LoggerTask) (term : Terminal) : (l.flush term).1.task = l.task := rfl

@[simp] theorem flush_cancelled (l : LoggerTask) (term : Terminal) :
    (l.flush term).1.cancelled = l.cancelled := rfl

@[simp] theorem flush_phase (l : LoggerTask) (term : Terminal) : (l.flush term).1.phase = l.phase := rfl

@[simp] theorem flush_strand (l : LoggerTask) (term : Terminal) :
    (l.flush term).1.strand = l.strand := rfl

theorem loop_ok (signal : l.task.state = .running → l.task.cancellation.isSome)
    (cancelled : l.cancelled = true → l.task.state = .stopped) : Ok (l.loop term).1 := by
  unfold loop
  split
  · rename_i running
    have state : l.task.state = .running := of_decide_eq_true running
    have live : l.cancelled = false := by
      by_contra set
      have stopped := cancelled (by simpa using set)
      rw [state] at stopped
      cases stopped
    simp only [flush_cancelled, live, Bool.false_eq_true, if_false]
    refine ⟨fun _ => signal state, fun set => ?_, fun _ stopped => ?_⟩
    · simp at set
    · simp [state] at stopped
  · exact endRun_ok cancelled _

theorem loop_rank (cancelled : l.cancelled = true → l.task.state = .stopped) :
    (l.loop term).1.rank = l.rank := by
  unfold loop
  split
  · rename_i running
    have state : l.task.state = .running := of_decide_eq_true running
    have live : l.cancelled = false := by
      by_contra set
      have stopped := cancelled (by simpa using set)
      rw [state] at stopped
      cases stopped
    simp only [flush_cancelled, live, Bool.false_eq_true, if_false]
    rfl
  · exact endRun_none_rank l

theorem popped_rank {h : LoggerHandler} {rest : List LoggerHandler} (head : l.strand = h :: rest) :
    l.rank = (l.popped rest).rank + weight h := by
  have sum : (l.strand.map weight).sum = (rest.map weight).sum + weight h := by
    rw [head, List.map_cons, List.sum_cons, Nat.add_comm]
  rw [rank, sum]
  exact Nat.add_right_comm _ _ _

theorem emit_ok (signal : l.phase = .waiting → l.task.cancellation.isSome)
    (stopped : l.task.state = .stopped) : Ok l.emit := by
  unfold emit
  split
  · dsimp only
    split
    · refine ⟨signal, fun _ => stopped, fun _ _ => ?_⟩
      simp [post, LoggerHandler.isWake]
    · rename_i silent
      refine ⟨signal, fun _ => stopped, fun waiting _ => ?_⟩
      simpa [waits, show l.phase = .waiting from waiting] using silent
  · rename_i none_
    have awake : l.phase ≠ .waiting := fun waiting => none_ (signal waiting)
    exact ⟨fun waiting => absurd waiting awake, fun _ => stopped, fun waiting => absurd waiting awake⟩

theorem emit_rank (l : LoggerTask) : l.emit.rank ≤ l.rank + 3 := by
  unfold emit
  split
  · dsimp only
    split
    · exact Nat.le_of_eq (post_rank _ _)
    · exact Nat.le_add_right _ _
  · exact Nat.le_add_right _ _

theorem execute_ok (ok : Ok l) {h : LoggerHandler} {rest : List LoggerHandler}
    (head : l.strand = h :: rest) (term : Terminal) : Ok ((l.popped rest).execute term h).1 := by
  have kept : LoggerHandler.isWake h = false → Ok (l.popped rest) := by
    intro other
    refine ⟨ok.signal, ok.cancelled, fun waiting stopped => ?_⟩
    simpa [popped, head, other] using ok.woken waiting stopped
  cases h with
  | start =>
    simp only [execute, startBody]
    split
    · exact kept rfl
    · rename_i task entered
      obtain ⟨fresh, rfl⟩ := CoroutineTask.enter_ok.mp entered
      refine loop_ok (fun _ => rfl) fun set => ?_
      have stopped := ok.cancelled set
      rw [show l.task.state = .initial from fresh] at stopped
      cases stopped
  | stop =>
    simp only [execute, stopBody]
    split
    · exact kept rfl
    · rename_i task entry
      obtain ⟨_, rfl⟩ := CoroutineTask.stopEntry_some.mp entry
      exact emit_ok ok.signal rfl
  | wake aborted =>
    simp only [execute, resume]
    split
    · rename_i waiting
      split
      · exact endRun_ok (l := l.popped rest) ok.cancelled _
      · exact loop_ok (l := l.popped rest) (fun _ => ok.signal waiting) ok.cancelled
    · rename_i awake
      exact ⟨fun waiting => absurd waiting awake, ok.cancelled, fun waiting => absurd waiting awake⟩

theorem execute_rank (ok : Ok l) {h : LoggerHandler} {rest : List LoggerHandler}
    (head : l.strand = h :: rest) (term : Terminal) :
    ((l.popped rest).execute term h).1.rank < l.rank := by
  rw [popped_rank head]
  cases h with
  | start =>
    simp only [execute, startBody]
    split
    · exact Nat.lt_succ_self _
    · rename_i task entered
      obtain ⟨fresh, rfl⟩ := CoroutineTask.enter_ok.mp entered
      rw [loop_rank]
      · simp [rank, popped, weight, show l.task.state = .initial from fresh]
      · intro set
        have stopped := ok.cancelled set
        rw [show l.task.state = .initial from fresh] at stopped
        cases stopped
  | stop =>
    simp only [execute, stopBody]
    split
    · exact Nat.lt_succ_self _
    · rename_i task entry
      obtain ⟨unstopped, rfl⟩ := CoroutineTask.stopEntry_some.mp entry
      refine Nat.lt_of_le_of_lt (emit_rank _) ?_
      simp [rank, popped, weight, show l.task.state ≠ .stopped from unstopped]
  | wake aborted =>
    simp only [execute, resume]
    split
    · split
      · refine Nat.lt_of_le_of_lt (endRun_rank _ _) ?_
        simp [weight]
      · rw [loop_rank (l := l.popped rest) ok.cancelled]
        simp [weight]
    · simp [weight]

def Started (l : LoggerTask) : Prop := .start ∈ l.strand ∨ l.task.state ≠ .initial

def Told (l : LoggerTask) : Prop := .stop ∈ l.strand ∨ l.task.state = .stopped

theorem Ok.post (ok : l.Ok) (h : LoggerHandler) : (l.post h).Ok := by
  refine ⟨ok.signal, ok.cancelled, fun waiting stopped => ?_⟩
  have woken := ok.woken waiting stopped
  show (l.strand ++ [h]).any LoggerHandler.isWake = true
  rw [List.any_append, woken, Bool.true_or]

theorem Started.post (started : l.Started) (h : LoggerHandler) : (l.post h).Started :=
  started.imp_left (List.mem_append_left _)

theorem Told.post (told : l.Told) (h : LoggerHandler) : (l.post h).Told :=
  told.imp_left (List.mem_append_left _)

theorem endRun_strand {h : LoggerHandler} (e : Option Exception) (member : h ∈ l.strand) :
    h ∈ (l.endRun e).strand := by
  unfold endRun
  split
  · exact List.mem_append_left _ member
  · exact member

theorem endRun_task (l : LoggerTask) (e : Option Exception) : (l.endRun e).task = l.task.leave := by
  unfold endRun
  split <;> rfl

theorem emit_strand {h : LoggerHandler} (member : h ∈ l.strand) : h ∈ l.emit.strand := by
  unfold emit
  split
  · dsimp only
    split
    · exact List.mem_append_left _ member
    · exact member
  · exact member

theorem emit_task (l : LoggerTask) : l.emit.task = l.task := by
  unfold emit
  split
  · dsimp only
    split <;> rfl
  · rfl

theorem leave_late (task : CoroutineTask Unit) : task.leave.state ≠ .initial := by
  rw [CoroutineTask.leave_state]
  split <;> simp

theorem loop_strand {h : LoggerHandler} (member : h ∈ l.strand) : h ∈ (l.loop term).1.strand := by
  unfold loop
  split
  · dsimp only
    split
    · exact endRun_strand _ member
    · exact member
  · exact endRun_strand _ member

theorem loop_task (l : LoggerTask) (term : Terminal) :
    (l.loop term).1.task = l.task ∨ (l.loop term).1.task = l.task.leave := by
  unfold loop
  split
  · dsimp only
    split
    · exact .inr (endRun_task _ _)
    · exact .inl rfl
  · exact .inr (endRun_task _ _)

/-- What a handler does not take back: what is queued, that the task has begun, that it was
    stopped. -/
structure Advances (l : LoggerTask) (done : LoggerTask) : Prop where
  strand : ∀ h ∈ l.strand, h ∈ done.strand
  begun : l.task.state ≠ .initial → done.task.state ≠ .initial
  stopped : l.task.state = .stopped → done.task.state = .stopped

theorem Advances.refl (l : LoggerTask) : Advances l l :=
  ⟨fun _ member => member, fun begun => begun, fun stopped => stopped⟩

theorem endRun_advances (l : LoggerTask) (e : Option Exception) : Advances l (l.endRun e) := by
  refine ⟨fun h => endRun_strand e, fun _ => ?_, fun stopped => ?_⟩
  · rw [endRun_task]
    exact leave_late _
  · rw [endRun_task]
    exact (leave_stopped _).mpr stopped

theorem loop_advances (l : LoggerTask) (term : Terminal) : Advances l (l.loop term).1 := by
  refine ⟨fun h => loop_strand, fun begun => ?_, fun stopped => ?_⟩
  · rcases loop_task l term with same | left
    · rw [same]
      exact begun
    · rw [left]
      exact leave_late _
  · rcases loop_task l term with same | left
    · rw [same]
      exact stopped
    · rw [left]
      exact (leave_stopped _).mpr stopped

theorem loop_running (running : l.task.state = .running) : (l.loop term).1.task.state ≠ .initial := by
  rcases loop_task l term with same | left
  · rw [same, running]
    simp
  · rw [left]
    exact leave_late _

theorem execute_advances (l : LoggerTask) (term : Terminal) (h : LoggerHandler) :
    Advances l (l.execute term h).1 ∧ (h = .start → (l.execute term h).1.task.state ≠ .initial) ∧
      (h = .stop → (l.execute term h).1.task.state = .stopped) := by
  cases h with
  | start =>
    simp only [execute, startBody]
    split
    · rename_i e refused
      refine ⟨.refl l, fun _ fresh => ?_, fun other => (by cases other)⟩
      rw [CoroutineTask.enter_initial fresh] at refused
      cases refused
    · rename_i task entered
      obtain ⟨fresh, rfl⟩ := CoroutineTask.enter_ok.mp entered
      have after := loop_advances { l with task := ⟨.running, some ()⟩ } term
      refine ⟨⟨after.strand, fun _ => loop_running rfl, fun stopped => ?_⟩, fun _ => loop_running rfl,
        fun other => (by cases other)⟩
      rw [fresh] at stopped
      cases stopped
  | stop =>
    simp only [execute, stopBody]
    split
    · rename_i already
      exact ⟨.refl l, fun other => (by cases other), fun _ => CoroutineTask.stopEntry_none.mp already⟩
    · rename_i task entry
      obtain ⟨_, rfl⟩ := CoroutineTask.stopEntry_some.mp entry
      have state : ((flush { l with task := ⟨.stopped, l.task.cancellation⟩ } term).1.emit).task.state =
          .stopped := by rw [emit_task, flush_task]
      refine ⟨⟨fun h member => emit_strand member, fun _ => ?_, fun _ => state⟩,
        fun other => (by cases other), fun _ => state⟩
      rw [state]
      simp
  | wake aborted =>
    refine ⟨?_, fun other => (by cases other), fun other => (by cases other)⟩
    simp only [execute, resume]
    split
    · split
      · exact endRun_advances _ _
      · exact loop_advances _ _
    · exact .refl l

variable {h : LoggerHandler} {rest : List LoggerHandler}

theorem Started.execute (started : l.Started) (head : l.strand = h :: rest) (term : Terminal) :
    ((l.popped rest).execute term h).1.Started := by
  obtain ⟨advances, begins, _⟩ := execute_advances (l.popped rest) term h
  rcases started with queued | begun
  · rw [head] at queued
    rcases List.mem_cons.mp queued with now | later
    · exact .inr (begins now.symm)
    · exact .inl (advances.strand _ later)
  · exact .inr (advances.begun begun)

theorem Told.execute (told : l.Told) (head : l.strand = h :: rest) (term : Terminal) :
    ((l.popped rest).execute term h).1.Told := by
  obtain ⟨advances, _, stops⟩ := execute_advances (l.popped rest) term h
  rcases told with queued | stopped
  · rw [head] at queued
    rcases List.mem_cons.mp queued with now | later
    · exact .inr (stops now.symm)
    · exact .inl (advances.strand _ later)
  · exact .inr (advances.stopped stopped)

end BoostBase.LoggerTask
