import BoostBase.Asio.Error
import BoostBase.Transition.Machine

namespace BoostBase

open Asio Transition

/-- What an operation hands its completion handler: an error first, as an `error_code` or an
    `exception_ptr`, or no error at all. -/
inductive CompletionArgs (α : Type)
  | errorCode (ec : ErrorCode) (rest : α)
  | exceptionPtr (e : Option Exception) (rest : α)
  | plain (rest : α)
  deriving DecidableEq

/-- The overloads of `gen_timeout_error::gen`. -/
def genTimeoutError {α : Type} : CompletionArgs α → CompletionArgs α
  | .errorCode _ rest => .errorCode .timedOut rest
  | .exceptionPtr _ rest => .exceptionPtr (some (.systemError .timedOut)) rest
  | .plain rest => .plain rest

/-- An operation, its completion handler in the queue, or that handler run. -/
inductive Pending (α : Type)
  | running
  | queued (result : α)
  | completed (result : α)
  deriving DecidableEq

inductive GroupMember
  | timer
  | operation
  deriving DecidableEq, Repr

/-- The parallel group `timed_initiation` launches. `order` is the order of the completions,
    `opCancelled` tells that the group has cancelled the operation. -/
structure TimedInitiation (α : Type) where
  timer : Pending ErrorCode
  op : Pending (CompletionArgs α)
  opCancelled : Bool
  order : List GroupMember
  received : Option (CompletionArgs α)
  deriving DecidableEq

namespace TimedInitiation

variable {α : Type}

def new : TimedInitiation α := ⟨.running, .running, false, [], none⟩

/-- `steady_timer::cancel`; a wait whose completion is queued is past it. -/
def cancelTimer (s : TimedInitiation α) : TimedInitiation α :=
  match s.timer with
  | .running => { s with timer := .queued .operationCanceled }
  | .queued _ | .completed _ => s

/-- `groupCompletion`; it does not look at the order. -/
def groupCompletion (timerEc : ErrorCode) (opArgs : CompletionArgs α) : CompletionArgs α :=
  if timerEc = .success then genTimeoutError opArgs else opArgs

/-- The group calls its completion after both. -/
def join (s : TimedInitiation α) : TimedInitiation α :=
  match s.timer, s.op with
  | .completed timerEc, .completed opArgs =>
    { s with received := some (groupCompletion timerEc opArgs) }
  | _, _ => s

/-- The completion of the timer. With `wait_for_one` the first completion cancels the other. -/
def timerDone (s : TimedInitiation α) (ec : ErrorCode) : TimedInitiation α :=
  let t := { s with timer := .completed ec, order := s.order ++ [GroupMember.timer] }
  if s.order.isEmpty then { t with opCancelled := true } else t.join

def opDone (s : TimedInitiation α) (args : CompletionArgs α) : TimedInitiation α :=
  let t := { s with op := .completed args, order := s.order ++ [GroupMember.operation] }
  if s.order.isEmpty then t.cancelTimer else t.join

/-- `expire` is the deadline, `finish` the end of the operation, by itself or because it was
    cancelled, `cancel` a cancellation from outside, which only the timer sees. `runTimer` and
    `runOp` run a queued completion. -/
inductive Action (α : Type)
  | expire
  | finish (args : CompletionArgs α)
  | cancel
  | runTimer
  | runOp
  deriving DecidableEq

def machine : Machine (TimedInitiation α) (Action α) where
  initial := new
  next s
    | .expire =>
      match s.timer with
      | .running => some { s with timer := .queued .success }
      | .queued _ | .completed _ => none
    | .finish args =>
      match s.op with
      | .running => some { s with op := .queued args }
      | .queued _ | .completed _ => none
    | .cancel => some s.cancelTimer
    | .runTimer =>
      match s.timer with
      | .queued ec => some (s.timerDone ec)
      | .running | .completed _ => none
    | .runOp =>
      match s.op with
      | .queued args => some (s.opDone args)
      | .running | .completed _ => none

def Action.endsWait : Action α → Bool
  | .expire | .cancel | .runOp => true
  | .finish _ | .runTimer => false

/-- The deadline has passed before the completion of the operation was handled and before a
    cancellation from outside. -/
def Expired (as : List (Action α)) : Prop :=
  ∃ before after, as = before ++ .expire :: after ∧ .cancel ∉ before ∧ .runOp ∉ before

theorem cancelTimer_waiting {s : TimedInitiation α} (waits : s.timer = .running) :
    s.cancelTimer = { s with timer := .queued .operationCanceled } := by
  unfold cancelTimer
  rw [waits]

theorem cancelTimer_over {s : TimedInitiation α} (past : s.timer ≠ .running) :
    s.cancelTimer = s := by
  unfold cancelTimer
  split
  · exact absurd ‹_› past
  · rfl
  · rfl

def firstEnd (as : List (Action α)) : Option (Action α) := as.find? Action.endsWait

theorem firstEnd_past {as : List (Action α)} {a : Action α} (ended : firstEnd as = some a)
    (b : Action α) : firstEnd (as ++ [b]) = some a := by
  simp [firstEnd, List.find?_append, show as.find? Action.endsWait = some a from ended]

theorem firstEnd_idle {b : Action α} (idle : b.endsWait = false) (as : List (Action α)) :
    firstEnd (as ++ [b]) = firstEnd as := by
  simp [firstEnd, List.find?_append, idle]

theorem firstEnd_now {as : List (Action α)} {b : Action α} (waits : firstEnd as = none)
    (ends : b.endsWait = true) : firstEnd (as ++ [b]) = some b := by
  simp [firstEnd, List.find?_append, show as.find? Action.endsWait = none from waits, ends]

theorem expired_iff {as : List (Action α)} : Expired as ↔ firstEnd as = some .expire := by
  constructor
  · rintro ⟨before, after, rfl, uncancelled, unhandled⟩
    unfold firstEnd
    rw [List.find?_append]
    cases first : before.find? Action.endsWait with
    | none => rfl
    | some a =>
      have ends := List.find?_some first
      have member := List.mem_of_find?_eq_some first
      cases a with
      | expire => rfl
      | cancel => exact absurd member uncancelled
      | runOp => exact absurd member unhandled
      | finish args => simp [Action.endsWait] at ends
      | runTimer => simp [Action.endsWait] at ends
  · intro first
    obtain ⟨_, before, after, split, waits⟩ := List.find?_eq_some_iff_append.mp first
    refine ⟨before, after, split, fun member => ?_, fun member => ?_⟩
    · simpa [Action.endsWait] using waits _ member
    · simpa [Action.endsWait] using waits _ member

structure Course (as : List (Action α)) (s : TimedInitiation α) : Prop where
  waiting : s.timer = .running → firstEnd as = none
  ended : ∀ ec, s.timer = .queued ec ∨ s.timer = .completed ec →
    ∃ a, firstEnd as = some a ∧ (ec = .success ↔ a = .expire)
  unordered : s.order = [] → (∀ ec, s.timer ≠ .completed ec) ∧ ∀ args, s.op ≠ .completed args
  ordered : s.order ≠ [] → (∃ ec, s.timer = .completed ec) ∨ ∃ args, s.op = .completed args
  joined : ∀ r, s.received = some r → ∃ ec own,
    s.timer = .completed ec ∧ s.op = .completed own ∧ r = groupCompletion ec own

theorem course_initial : Course [] (new : TimedInitiation α) where
  waiting := fun _ => rfl
  ended := by simp [new]
  unordered := by simp [new]
  ordered := by simp [new]
  joined := by simp [new]

theorem Course.unreceived {as : List (Action α)} {s : TimedInitiation α} (course : Course as s)
    (pending : (∀ ec, s.timer ≠ .completed ec) ∨ ∀ args, s.op ≠ .completed args) :
    s.received = none := by
  cases got : s.received with
  | none => rfl
  | some r =>
    obtain ⟨ec, own, timer, op, _⟩ := course.joined r got
    exact (pending.elim (fun waits => waits ec timer) fun runs => runs own op).elim

@[simp] theorem join_timer (s : TimedInitiation α) : s.join.timer = s.timer := by
  unfold join
  split <;> rfl

@[simp] theorem join_op (s : TimedInitiation α) : s.join.op = s.op := by
  unfold join
  split <;> rfl

@[simp] theorem join_order (s : TimedInitiation α) : s.join.order = s.order := by
  unfold join
  split <;> rfl

theorem join_joined {s : TimedInitiation α} (unreceived : s.received = none) (r : CompletionArgs α)
    (got : s.join.received = some r) :
    ∃ ec own, s.timer = .completed ec ∧ s.op = .completed own ∧ r = groupCompletion ec own := by
  unfold join at got
  split at got
  · rename_i ec own timer op
    exact ⟨ec, own, timer, op, (Option.some.inj got).symm⟩
  · simp [unreceived] at got

theorem cancel_course {as : List (Action α)} {s : TimedInitiation α} (course : Course as s)
    {a : Action α} (cancels : a.endsWait = true) (other : a ≠ .expire) :
    Course (as ++ [a]) s.cancelTimer := by
  cases timer : s.timer with
  | running =>
    have unreceived := course.unreceived (.inl (by simp [timer]))
    rw [cancelTimer_waiting timer]
    refine ⟨by simp, ?_, ?_, ?_, by simp [unreceived]⟩
    · rintro ec (⟨⟨⟩⟩ | ⟨⟨⟩⟩)
      exact ⟨a, firstEnd_now (course.waiting timer) cancels, by simp [other]⟩
    · exact fun empty => ⟨by simp, (course.unordered empty).2⟩
    · exact fun some => .inr ((course.ordered some).resolve_left (by simp [timer]))
  | queued ec | completed ec =>
    rw [cancelTimer_over (by simp [timer])]
    refine ⟨by simp [timer], ?_, course.unordered, course.ordered, course.joined⟩
    intro ec ended
    obtain ⟨b, first, kind⟩ := course.ended ec ended
    exact ⟨b, firstEnd_past first _, kind⟩

theorem timerDone_course {as : List (Action α)} {s : TimedInitiation α} (course : Course as s)
    {ec : ErrorCode} (queued : s.timer = .queued ec) :
    Course (as ++ [.runTimer]) (s.timerDone ec) := by
  have unreceived := course.unreceived (.inl (by simp [queued]))
  obtain ⟨a, first, kind⟩ := course.ended ec (.inl queued)
  have ended (ec' : ErrorCode) (later : (Pending.completed ec : Pending ErrorCode) = .queued ec' ∨
      (Pending.completed ec : Pending ErrorCode) = .completed ec') :
      ∃ b, firstEnd (as ++ [.runTimer]) = some b ∧ (ec' = .success ↔ b = .expire) := by
    obtain rfl : ec = ec' := by simpa using later
    exact ⟨a, firstEnd_past first _, kind⟩
  unfold timerDone
  dsimp only
  split
  · exact ⟨by simp, ended, by simp, fun _ => .inl ⟨ec, rfl⟩, by simp [unreceived]⟩
  · refine ⟨by simp, ?_, by simp, fun _ => .inl ⟨ec, by simp⟩, ?_⟩
    · simpa using ended
    · intro r got
      have both := join_joined (by exact unreceived) r got
      simpa using both

theorem opDone_course {as : List (Action α)} {s : TimedInitiation α} (course : Course as s)
    {args : CompletionArgs α} (queued : s.op = .queued args) :
    Course (as ++ [.runOp]) (s.opDone args) := by
  have unreceived := course.unreceived (.inr (by simp [queued]))
  unfold opDone
  dsimp only
  split
  · -- The operation is the first to complete, and the group cancels the timer.
    have completed : Course as { s with
        op := .completed args
        order := s.order ++ [GroupMember.operation] } :=
      ⟨course.waiting, course.ended, by simp, fun _ => .inr ⟨args, rfl⟩, by simp [unreceived]⟩
    exact cancel_course completed rfl (by simp)
  · rename_i some
    obtain ⟨ec, timer⟩ := (course.ordered (by simpa using some)).resolve_right (by simp [queued])
    obtain ⟨a, first, kind⟩ := course.ended ec (.inr timer)
    refine ⟨by simp [timer], ?_, by simp, fun _ => .inl ⟨ec, by simpa using timer⟩, ?_⟩
    · intro ec' later
      obtain rfl : ec = ec' := by simpa [timer] using later
      exact ⟨a, firstEnd_past first _, kind⟩
    · intro r got
      have both := join_joined (by exact unreceived) r got
      simpa using both

theorem course_next {as : List (Action α)} {s t : TimedInitiation α} {a : Action α}
    (course : Course as s) (taken : machine.next s a = some t) : Course (as ++ [a]) t := by
  cases a with
  | expire =>
    simp only [machine] at taken
    split at taken
    · rename_i waits
      have unreceived := course.unreceived (.inl (by simp [waits]))
      cases taken
      refine ⟨by simp, ?_, ?_, ?_, by simp [unreceived]⟩
      · rintro ec (⟨⟨⟩⟩ | ⟨⟨⟩⟩)
        exact ⟨.expire, firstEnd_now (course.waiting waits) rfl, by simp⟩
      · exact fun empty => ⟨by simp, (course.unordered empty).2⟩
      · exact fun some => .inr ((course.ordered some).resolve_left (by simp [waits]))
    · cases taken
    · cases taken
  | finish args =>
    simp only [machine] at taken
    split at taken
    · rename_i running
      have unreceived := course.unreceived (.inr (by simp [running]))
      cases taken
      refine ⟨?_, ?_, ?_, ?_, by simp [unreceived]⟩
      · exact fun waits => (firstEnd_idle rfl as).trans (course.waiting waits)
      · intro ec ended
        obtain ⟨a, first, kind⟩ := course.ended ec ended
        exact ⟨a, (firstEnd_idle rfl as).trans first, kind⟩
      · exact fun empty => ⟨(course.unordered empty).1, by simp⟩
      · exact fun some => .inl ((course.ordered some).resolve_right (by simp [running]))
    · cases taken
    · cases taken
  | cancel =>
    cases taken
    exact cancel_course course rfl (by simp)
  | runTimer =>
    simp only [machine] at taken
    split at taken
    · cases taken
      exact timerDone_course course ‹_›
    · cases taken
    · cases taken
  | runOp =>
    simp only [machine] at taken
    split at taken
    · cases taken
      exact opDone_course course ‹_›
    · cases taken
    · cases taken

theorem course {as : List (Action α)} {s : TimedInitiation α}
    (ran : machine.run machine.initial as = some s) : Course as s :=
  Machine.run_history Course course_initial (fun _ _ _ _ => course_next) ran

/-- The handler receives a timeout in place of the operation's error if the deadline passed
    before the completion of the operation was handled and before a cancellation from
    outside, and the operation's own results otherwise. -/
theorem timed_out_iff {as : List (Action α)} {s : TimedInitiation α}
    (ran : machine.run machine.initial as = some s) {r : CompletionArgs α}
    (got : s.received = some r) :
    ∃ ec own, s.timer = .completed ec ∧ s.op = .completed own ∧
      (ec = .success ↔ Expired as) ∧
      (Expired as → r = genTimeoutError own) ∧ (¬ Expired as → r = own) := by
  obtain ⟨ec, own, timer, op, rfl⟩ := (course ran).joined r got
  obtain ⟨a, first, kind⟩ := (course ran).ended ec (.inr timer)
  have expired : ec = .success ↔ Expired as := by
    rw [expired_iff, first, kind, Option.some.injEq]
  refine ⟨ec, own, timer, op, expired, fun passed => ?_, fun waits => ?_⟩
  · exact if_pos (expired.mpr passed)
  · exact if_neg (mt expired.mp waits)

def finished : List (Action Nat) := [.finish (.exceptionPtr none 7), .runOp, .runTimer]

theorem timed_out_iff_finished : ∃ s : TimedInitiation Nat,
    machine.run machine.initial finished = some s ∧ ∃ ec own, s.timer = .completed ec ∧
      s.op = .completed own ∧ (ec = .success ↔ Expired finished) ∧
      (Expired finished → .exceptionPtr none 7 = genTimeoutError own) ∧
      (¬ Expired finished → .exceptionPtr none 7 = own) := by
  have ran : machine.run machine.initial finished = some _ := rfl
  exact ⟨_, ran, timed_out_iff ran rfl⟩

/-- The operation completes first and with success; the timer has expired meanwhile, and its
    queued completion turns the success into a timeout. -/
theorem success_lost : ∃ s : TimedInitiation Nat,
    machine.run machine.initial [.finish (.exceptionPtr none 7), .expire, .runOp, .runTimer] = some s ∧
      s.order = [.operation, .timer] ∧ s.op = .completed (.exceptionPtr none 7) ∧
      s.received = some (.exceptionPtr (some (.systemError .timedOut)) 7) :=
  ⟨_, rfl, rfl, rfl, rfl⟩

end TimedInitiation

end BoostBase
