import BoostBase.Text.CString
import BoostBase.Transition.Machine

namespace BoostBase

open Text Transition

/-- What has left for the terminal and what `stdio` still holds. -/
structure Stdout where
  sent : List Byte
  buffered : List Byte
  deriving DecidableEq

namespace Stdout

def empty : Stdout := ⟨[], []⟩

def printf (out : Stdout) (bytes : List Byte) : Stdout :=
  { out with buffered := out.buffered ++ bytes }

def fflush (out : Stdout) : Stdout := ⟨out.sent ++ out.buffered, []⟩

theorem mk_settled {out : Stdout} (settled : out.buffered = []) : ⟨out.sent, []⟩ = out := by
  rw [← settled]

end Stdout

structure SimpleLogger where
  autoFlush : Bool
  deriving DecidableEq

namespace SimpleLogger

def new : SimpleLogger := ⟨true⟩

def logImpl (l : SimpleLogger) (msg : List Byte) (out : Stdout) : Stdout :=
  let out := out.printf (line msg)
  if l.autoFlush then out.fflush else out

end SimpleLogger

structure AsyncLogger where
  base : SimpleLogger
  logs : List (List Byte)
  deriving DecidableEq

namespace AsyncLogger

def new : AsyncLogger := ⟨⟨false⟩, []⟩

def logImpl (l : AsyncLogger) (msg : List Byte) : AsyncLogger := { l with logs := l.logs ++ [msg] }

/-- The loop of `flush` that empties `logs` into `oneMsg`. -/
def drain (oneMsg : List Byte) : List (List Byte) → List Byte
  | [] => oneMsg
  | front :: logs =>
    let oneMsg := oneMsg ++ front
    drain (if logs.isEmpty then oneMsg else oneMsg ++ [newline]) logs

def flush (l : AsyncLogger) (out : Stdout) : AsyncLogger × Stdout :=
  let logs := l.logs
  let l := { l with logs := [] }
  if logs.isEmpty then (l, out)
  else (l, (l.base.logImpl (drain [] logs) out).fflush)

theorem drain_eq (oneMsg : List Byte) {logs : List (List Byte)} (some : logs ≠ []) :
    drain oneMsg logs = oneMsg ++ joined logs := by
  induction logs generalizing oneMsg with
  | nil => exact absurd rfl some
  | cons front logs ih =>
    cases logs with
    | nil => simp [drain]
    | cons next rest =>
      rw [drain, ih _ (by simp), joined_cons_cons]
      simp

def batch (logs : List (List Byte)) : List Byte := if logs = [] then [] else line (joined logs)

theorem flush_eq {l : AsyncLogger} {out : Stdout} (quiet : l.base.autoFlush = false)
    (settled : out.buffered = []) :
    l.flush out = ({ l with logs := [] }, ⟨out.sent ++ batch l.logs, []⟩) := by
  unfold flush batch
  by_cases empty : l.logs = []
  · simp [empty, Stdout.mk_settled settled]
  · simp [empty, SimpleLogger.logImpl, quiet, drain_eq [] empty, Stdout.printf, Stdout.fflush, settled]

theorem batch_length (logs : List (List Byte)) :
    (batch logs).length ≤ (logs.flatMap line).length := by
  unfold batch
  split
  · exact Nat.zero_le _
  · exact line_joined_length ‹_›

theorem batch_eq (logs : List (List Byte)) :
    batch logs = logs.flatMap line ↔ ∀ msg ∈ logs.dropLast, nul ∉ msg := by
  unfold batch
  split
  · rename_i empty
    simp [empty]
  · exact line_joined ‹_›

end AsyncLogger

structure Console where
  logger : AsyncLogger
  out : Stdout
  deriving DecidableEq

namespace Console

inductive Action
  | logImpl (msg : List Byte)
  | flush
  deriving DecidableEq

def Action.message : Action → Option (List Byte)
  | .logImpl msg => some msg
  | .flush => none

def machine : Machine Console Action where
  initial := ⟨.new, .empty⟩
  next c
    | .logImpl msg => some { c with logger := c.logger.logImpl msg }
    | .flush => some ⟨(c.logger.flush c.out).1, (c.logger.flush c.out).2⟩

def messages (as : List Action) : List (List Byte) := as.filterMap Action.message

def plain (messages : List (List Byte)) : Stdout :=
  messages.foldl (fun out msg => SimpleLogger.new.logImpl msg out) .empty

theorem plain_eq (messages : List (List Byte)) : plain messages = ⟨messages.flatMap line, []⟩ := by
  have printed (out : Stdout) (fresh : out.buffered = []) :
      messages.foldl (fun out msg => SimpleLogger.new.logImpl msg out) out =
        ⟨out.sent ++ messages.flatMap line, []⟩ := by
    induction messages generalizing out with
    | nil => simp [Stdout.mk_settled fresh]
    | cons msg messages ih =>
      rw [List.foldl_cons, ih _ rfl]
      simp [SimpleLogger.logImpl, SimpleLogger.new, Stdout.printf, Stdout.fflush, fresh]
  exact printed .empty rfl

/-- No message but the last of a batch has a NUL in it when the batch is printed. -/
def FlushesWhole (c : Console) (a : Action) (_ : Console) : Prop :=
  a = .flush → ∀ msg ∈ c.logger.logs.dropLast, nul ∉ msg

instance (c : Console) (a : Action) (d : Console) : Decidable (FlushesWhole c a d) :=
  inferInstanceAs (Decidable (_ → _))

/-- What the calls so far have made of the stream. `flushed` are the messages that have left
    the queue. -/
structure Printed (as : List Action) (c : Console) (flushed : List (List Byte)) : Prop where
  quiet : c.logger.base.autoFlush = false
  settled : c.out.buffered = []
  pushed : messages as = flushed ++ c.logger.logs
  length : c.out.sent.length ≤ (flushed.flatMap line).length
  whole : c.out.sent = flushed.flatMap line ↔ machine.Always FlushesWhole machine.initial as

theorem Printed.initial : Printed [] machine.initial [] where
  quiet := rfl
  settled := rfl
  pushed := rfl
  length := Nat.le_refl _
  whole := iff_of_true rfl trivial

theorem Printed.logImpl {as : List Action} {c : Console} {flushed : List (List Byte)}
    (printed : Printed as c flushed) (ran : machine.run machine.initial as = some c)
    (msg : List Byte) :
    Printed (as ++ [.logImpl msg]) { c with logger := c.logger.logImpl msg } flushed where
  quiet := printed.quiet
  settled := printed.settled
  pushed := by
    have before := printed.pushed
    simp only [messages, List.filterMap_append] at before ⊢
    simp [before, Action.message, AsyncLogger.logImpl]
  length := printed.length
  whole := by
    rw [Machine.always_taken ran rfl, printed.whole]
    exact (and_iff_left fun flushes => by cases flushes).symm

theorem Printed.flush {as : List Action} {c : Console} {flushed : List (List Byte)}
    (printed : Printed as c flushed) (ran : machine.run machine.initial as = some c) :
    Printed (as ++ [.flush]) ⟨{ c.logger with logs := [] }, c.out.sent ++ AsyncLogger.batch c.logger.logs, []⟩
      (flushed ++ c.logger.logs) where
  quiet := printed.quiet
  settled := rfl
  pushed := by
    rw [List.append_nil, ← printed.pushed]
    simp [messages, Action.message]
  length := by
    have batch := AsyncLogger.batch_length c.logger.logs
    have before := printed.length
    simp only [List.flatMap_append, List.length_append]
    omega
  whole := by
    have last (d : Console) : FlushesWhole c .flush d ↔
        AsyncLogger.batch c.logger.logs = c.logger.logs.flatMap line := by
      rw [AsyncLogger.batch_eq]
      exact forall_prop_of_true rfl
    rw [Machine.always_taken ran rfl, last, ← printed.whole, List.flatMap_append]
    constructor
    · intro same
      apply List.append_inj same
      have sizes := congrArg List.length same
      have batch := AsyncLogger.batch_length c.logger.logs
      have before := printed.length
      simp only [List.length_append] at sizes
      omega
    · rintro ⟨before, now⟩
      rw [before, now]

theorem printed {as : List Action} {c : Console} (ran : machine.run machine.initial as = some c) :
    ∃ flushed, Printed as c flushed := by
  refine Machine.run_course (m := machine) (fun as c => ∃ flushed, Printed as c flushed)
    ⟨[], .initial⟩ ?_ ran
  rintro as c a d ran ⟨flushed, before⟩ taken
  cases a with
  | logImpl msg =>
    cases taken
    exact ⟨flushed, before.logImpl ran msg⟩
  | flush =>
    simp only [machine, AsyncLogger.flush_eq before.quiet before.settled, Option.some.injEq] at taken
    subst taken
    exact ⟨flushed ++ c.logger.logs, before.flush ran⟩

theorem runs (c : Console) (as : List Action) : ∃ d, machine.run c as = some d := by
  induction as generalizing c with
  | nil => exact ⟨c, rfl⟩
  | cons a as ih =>
    obtain ⟨d, taken⟩ : ∃ d, machine.next c a = some d := by
      cases a <;> exact ⟨_, rfl⟩
    obtain ⟨e, rest⟩ := ih d
    exact ⟨e, Machine.run_cons.mpr ⟨d, taken, rest⟩⟩

/-- However the messages are cut into batches, the batching logger sends what the plain one
    sends, if and only if no NUL stands in a message that is not the last of its batch. -/
theorem prints_plain (as : List Action) :
    ∃ c, machine.run machine.initial (as ++ [.flush]) = some c ∧
      (c.out.sent = (plain (messages as)).sent ↔
        machine.Always FlushesWhole machine.initial (as ++ [.flush])) := by
  obtain ⟨c, ran⟩ := runs machine.initial as
  obtain ⟨flushed, before⟩ := printed ran
  refine ⟨_, Machine.run_snoc.mpr ⟨c, ran, rfl⟩, ?_⟩
  rw [AsyncLogger.flush_eq before.quiet before.settled, plain_eq, before.pushed]
  exact (before.flush ran).whole

/-- Two messages in one batch, the first of which has a NUL in it: the second is lost. -/
theorem message_lost : ∃ c,
    machine.run machine.initial [.logImpl [97, 0, 98], .logImpl [99], .flush] = some c ∧
      c.out.sent = [97, 10] ∧ (plain (messages [.logImpl [97, 0, 98], .logImpl [99]])).sent = [97, 10, 99, 10] :=
  ⟨_, rfl, by decide, by decide⟩

end Console

end BoostBase
