import BoostBase.Timed.Timed
import BoostBase.Transition.Progress

namespace BoostBase

open Asio Transition

def Pending.left {α : Type} : Pending α → Nat
  | .running => 2
  | .queued _ => 1
  | .completed _ => 0

namespace TimedInitiation

variable {α : Type} {s t : TimedInitiation α} {a : Action α}

def rank (s : TimedInitiation α) : Nat := s.timer.left + s.op.left

def Action.isOwn : Action α → Bool
  | .cancel => false
  | .expire | .finish _ | .runTimer | .runOp => true

/-- Where both have completed the group has called its completion. -/
def Joined (s : TimedInitiation α) : Prop :=
  ∀ ec args, s.timer = .completed ec → s.op = .completed args → s.received.isSome = true

theorem join_received (s : TimedInitiation α) : Joined s.join := by
  intro ec args timer op
  rw [join_timer] at timer
  rw [join_op] at op
  simp [join, timer, op]

@[simp] theorem cancelTimer_op (s : TimedInitiation α) : s.cancelTimer.op = s.op := by
  unfold cancelTimer
  split <;> rfl

@[simp] theorem cancelTimer_received (s : TimedInitiation α) :
    s.cancelTimer.received = s.received := by
  unfold cancelTimer
  split <;> rfl

theorem cancelTimer_left (s : TimedInitiation α) : s.cancelTimer.timer.left ≤ s.timer.left := by
  unfold cancelTimer
  split <;> simp_all [Pending.left]

theorem cancelTimer_completed (ec : ErrorCode) :
    s.cancelTimer.timer = .completed ec ↔ s.timer = .completed ec := by
  unfold cancelTimer
  split <;> simp_all

theorem joined_next {as : List (Action α)} (course : Course as s) (joined : Joined s)
    (taken : machine.next s a = some t) : Joined t := by
  cases a with
  | expire =>
    simp only [machine] at taken
    split at taken
    · cases taken
      exact fun ec args timer => by cases timer
    · cases taken
    · cases taken
  | finish args =>
    simp only [machine] at taken
    split at taken
    · cases taken
      exact fun ec args timer op => by cases op
    · cases taken
    · cases taken
  | cancel =>
    cases taken
    intro ec args timer op
    rw [cancelTimer_received]
    exact joined ec args ((cancelTimer_completed ec).mp timer) ((cancelTimer_op s).symm.trans op)
  | runTimer =>
    simp only [machine] at taken
    split at taken
    · cases taken
      unfold timerDone
      dsimp only
      split
      · rename_i first
        exact fun ec args _ op => absurd op ((course.unordered (by simpa using first)).2 args)
      · exact join_received _
    · cases taken
    · cases taken
  | runOp =>
    simp only [machine] at taken
    split at taken
    · cases taken
      unfold opDone
      dsimp only
      split
      · rename_i first
        intro ec args timer op
        have before := (cancelTimer_completed ec).mp timer
        exact absurd before ((course.unordered (by simpa using first)).1 ec)
      · exact join_received _
    · cases taken
    · cases taken

theorem joined {as : List (Action α)} (ran : machine.run machine.initial as = some s) : Joined s :=
  Machine.run_course (m := machine) (fun _ s => Joined s) (fun _ _ timer => by cases timer)
    (fun _ _ _ _ ran kept taken => joined_next (course ran) kept taken) ran

theorem own_falls (own : a.isOwn = true) (taken : machine.next s a = some t) : t.rank < s.rank := by
  cases a with
  | cancel => cases own
  | expire =>
    simp only [machine] at taken
    split at taken
    · rename_i waits
      cases taken
      simp [rank, waits, Pending.left]
    · cases taken
    · cases taken
  | finish args =>
    simp only [machine] at taken
    split at taken
    · rename_i runs
      cases taken
      simp [rank, runs, Pending.left]
    · cases taken
    · cases taken
  | runTimer =>
    simp only [machine] at taken
    split at taken
    · rename_i queued
      cases taken
      unfold timerDone
      dsimp only
      split <;> simp [rank, queued, Pending.left]
    · cases taken
    · cases taken
  | runOp =>
    simp only [machine] at taken
    split at taken
    · rename_i args queued
      cases taken
      unfold opDone
      dsimp only
      split
      · have timer := cancelTimer_left
          { s with op := .completed args, order := s.order ++ [GroupMember.operation] }
        simp only [rank, cancelTimer_op, queued, Pending.left] at timer ⊢
        omega
      · simp [rank, queued, Pending.left]
    · cases taken
    · cases taken

theorem ranked : (machine (α := α)).Ranked (fun _ => True) (fun a => a.isOwn = true) rank where
  keeps _ _ _ _ _ _ := trivial
  falls _ _ _ _ own taken := own_falls own taken

/-- The deadline, the end of the operation and the two completions come once each at most, and when
    none of them can come any more the handler has been called. -/
theorem completes [Inhabited α] {as bs : List (Action α)} (ran : machine.run machine.initial as = some s)
    (own : ∀ b ∈ bs, b.isOwn = true) (ran' : machine.run s bs = some t) :
    bs.length ≤ s.rank ∧
      ((∀ a, a.isOwn = true → machine.next t a = none) ↔ t.received.isSome = true) := by
  obtain ⟨-, bound⟩ := ranked.run_le trivial own ran'
  have whole : machine.run machine.initial (as ++ bs) = some t := Machine.run_append.mpr ⟨s, ran, ran'⟩
  refine ⟨by omega, ?_, ?_⟩
  · intro stuck
    have expires := stuck .expire rfl
    have finishes (args : CompletionArgs α) := stuck (.finish args) rfl
    have timerRuns := stuck .runTimer rfl
    have opRuns := stuck .runOp rfl
    simp only [machine] at expires finishes timerRuns opRuns
    cases timer : t.timer with
    | running => simp [timer] at expires
    | queued ec => simp [timer] at timerRuns
    | completed ec =>
      cases op : t.op with
      | running => simpa [op] using finishes (.plain default)
      | queued args => simp [op] at opRuns
      | completed args => exact joined whole ec args timer op
  · intro received
    obtain ⟨r, got⟩ := Option.isSome_iff_exists.mp received
    obtain ⟨ec, args, timer, op, -⟩ := (course whole).joined r got
    intro a own
    cases a with
    | cancel => cases own
    | expire | finish _ | runTimer | runOp => simp [machine, timer, op]

/-- A cancellation comes when the deadline has passed. -/
def raced : List (Action Nat) := [.expire, .cancel]

def settled : List (Action Nat) := [.finish (.plain 7), .runOp, .runTimer]

theorem completes_raced : ∃ s t : TimedInitiation Nat, machine.run machine.initial raced = some s ∧
    machine.run s settled = some t ∧ settled.length ≤ s.rank ∧ t.received = some (.plain 7) ∧
      ∀ a, a.isOwn = true → machine.next t a = none := by
  have ran : machine.run machine.initial raced = some _ := rfl
  obtain ⟨bound, called⟩ := completes ran (by decide : ∀ b ∈ settled, b.isOwn = true) rfl
  exact ⟨_, _, ran, rfl, bound, rfl, called.mpr rfl⟩

end TimedInitiation

end BoostBase
