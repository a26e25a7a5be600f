import BoostBase.Coroutine.CoroutineTask
import BoostBase.Transition.History
import BoostBase.Transition.Machine
import Mathlib.Logic.Function.Basic

namespace BoostBase.CoroutineTask

open Asio Transition

variable {ι : Type}

inductive Body
  | startSpawned
  | inRun
  | caught (e : Option Exception)
  | startEnded (e : Option Exception)
  | stopSpawned
  | inOnStop
  | stopEnded
  deriving DecidableEq

inductive Event (ι : Type)
  | rejected (start : ι)
  | runEntered (start : ι)
  | stopBegan (stop : ι) (found : TaskState)
  | onStopEntered (stop : ι)
  | onStopFinished (stop : ι)
  | emitted (cancellation : ι)
  | stopped (stop : ι)
  deriving DecidableEq

def Event.run? : Event ι → Option ι
  | .runEntered i => some i
  | _ => none

def Event.onStop? : Event ι → Option ι
  | .onStopEntered i => some i
  | _ => none

def Event.finish? : Event ι → Option ι
  | .onStopFinished i => some i
  | _ => none

def Event.fire? : Event ι → Option ι
  | .stopped i => some i
  | _ => none

def runs (log : List (Event ι)) : List ι := log.filterMap Event.run?

def onStops (log : List (Event ι)) : List ι := log.filterMap Event.onStop?

def finishes (log : List (Event ι)) : List ι := log.filterMap Event.finish?

def fires (log : List (Event ι)) : List ι := log.filterMap Event.fire?

theorem runs_append (log events : List (Event ι)) :
    runs (log ++ events) = runs log ++ runs events := List.filterMap_append

theorem onStops_append (log events : List (Event ι)) :
    onStops (log ++ events) = onStops log ++ onStops events := List.filterMap_append

theorem finishes_append (log events : List (Event ι)) :
    finishes (log ++ events) = finishes log ++ finishes events := List.filterMap_append

theorem fires_append (log events : List (Event ι)) :
    fires (log ++ events) = fires log ++ fires events := List.filterMap_append

/-- The end of `co_stop`: `onStop` is over, the cancellation goes out if there is one,
    then `m_stopped` fires. -/
def ending (i : ι) (cancellation : Option ι) : List (Event ι) :=
  .onStopFinished i :: cancellation.toList.map .emitted ++ [.stopped i]

theorem ending_counts (i : ι) (cancellation : Option ι) :
    runs (ending i cancellation) = [] ∧ onStops (ending i cancellation) = [] ∧
      finishes (ending i cancellation) = [i] ∧ fires (ending i cancellation) = [i] := by
  cases cancellation <;> exact ⟨rfl, rfl, rfl, rfl⟩

/-- One task on its strand. A `co_start` body and the signal `cancellable_spawn` made
    for it go by one name. `log` is what happened so far, oldest first. -/
structure Lifecycle (ι : Type) where
  task : CoroutineTask ι
  body : ι → Option Body
  log : List (Event ι)

/-- A label is one segment between suspensions. The `catch` block and the scope guard
    are two, so that a `co_stop` body `stop()` spawns may run between them. -/
inductive Segment (ι : Type)
  | coStart (i : ι)
  | coStop (i : ι)
  | begin (i : ι)
  | runEnds (i : ι) (e : Option Exception) (handler : ι)
  | unwind (i : ι)
  | onStopEnds (i : ι)
  deriving DecidableEq

variable [DecidableEq ι]

namespace Lifecycle

def setBody (s : Lifecycle ι) (i : ι) (b : Body) : Lifecycle ι :=
  { s with body := Function.update s.body i (some b) }

omit [DecidableEq ι] in
def record (s : Lifecycle ι) (events : List (Event ι)) : Lifecycle ι :=
  { s with log := s.log ++ events }

@[simp] theorem setBody_task (s : Lifecycle ι) (i : ι) (b : Body) : (s.setBody i b).task = s.task :=
  rfl

@[simp] theorem setBody_log (s : Lifecycle ι) (i : ι) (b : Body) : (s.setBody i b).log = s.log := rfl

@[simp] theorem setBody_self (s : Lifecycle ι) (i : ι) (b : Body) :
    (s.setBody i b).body i = some b := Function.update_self ..

theorem setBody_other (s : Lifecycle ι) {i j : ι} (b : Body) (other : j ≠ i) :
    (s.setBody i b).body j = s.body j := Function.update_of_ne other ..

omit [DecidableEq ι] in
@[simp] theorem record_task (s : Lifecycle ι) (events : List (Event ι)) :
    (s.record events).task = s.task := rfl

omit [DecidableEq ι] in
@[simp] theorem record_body (s : Lifecycle ι) (events : List (Event ι)) :
    (s.record events).body = s.body := rfl

omit [DecidableEq ι] in
@[simp] theorem record_log (s : Lifecycle ι) (events : List (Event ι)) :
    (s.record events).log = s.log ++ events := rfl

def spawn (s : Lifecycle ι) (i : ι) (b : Body) : Option (Lifecycle ι) :=
  if s.body i = none then some (s.setBody i b) else none

def begin (s : Lifecycle ι) (i : ι) : Option (Lifecycle ι) :=
  match s.body i with
  | some .startSpawned =>
    match s.task.enter i with
    | .error e => some ((s.setBody i (.startEnded (some e))).record [.rejected i])
    | .ok t => some (({ s with task := t }.setBody i .inRun).record [.runEntered i])
  | some .stopSpawned =>
    match s.task.stopEntry with
    | none => some ((s.setBody i .stopEnded).record [.stopBegan i s.task.state])
    | some t => some (({ s with task := t }.setBody i .inOnStop).record
        [.stopBegan i s.task.state, .onStopEntered i])
  | _ => none

/-- `run` returns or throws. The handler for `operation_canceled` calls `stop()`,
    which spawns the `co_stop` body `handler`. -/
def runEnds (s : Lifecycle ι) (i : ι) (e : Option Exception) (handler : ι) : Option (Lifecycle ι) :=
  if s.body i = some .inRun then
    let t := s.setBody i (.caught e)
    if e.any Exception.canceled then t.spawn handler .stopSpawned else some t
  else none

def unwind (s : Lifecycle ι) (i : ι) : Option (Lifecycle ι) :=
  match s.body i with
  | some (.caught e) => some ({ s with task := s.task.leave }.setBody i (.startEnded e))
  | _ => none

def onStopEnds (s : Lifecycle ι) (i : ι) : Option (Lifecycle ι) :=
  if s.body i = some .inOnStop then
    some ((s.setBody i .stopEnded).record (ending i s.task.cancellation))
  else none

end Lifecycle

def lifecycle : Machine (Lifecycle ι) (Segment ι) where
  initial := ⟨new, fun _ => none, []⟩
  next s
    | .coStart i => s.spawn i .startSpawned
    | .coStop i => s.spawn i .stopSpawned
    | .begin i => s.begin i
    | .runEnds i e handler => s.runEnds i e handler
    | .unwind i => s.unwind i
    | .onStopEnds i => s.onStopEnds i

inductive Effect (s : Lifecycle ι) : Segment ι → Lifecycle ι → Prop
  | spawned (a : Segment ι) (i : ι) (b : Body) (spawns : b = .startSpawned ∨ b = .stopSpawned)
      (fresh : s.body i = none) : Effect s a (s.setBody i b)
  | rejected (i : ι) (spawned : s.body i = some .startSpawned) (late : s.task.state ≠ .initial) :
      Effect s (.begin i)
        ((s.setBody i (.startEnded (some (.systemError .stateNotRecoverable)))).record
          [.rejected i])
  | entered (i : ι) (spawned : s.body i = some .startSpawned) (fresh : s.task.state = .initial) :
      Effect s (.begin i)
        (({ s with task := ⟨.running, some i⟩ }.setBody i .inRun).record [.runEntered i])
  | stopLate (i : ι) (spawned : s.body i = some .stopSpawned) (late : s.task.state = .stopped) :
      Effect s (.begin i) ((s.setBody i .stopEnded).record [.stopBegan i .stopped])
  | stopFirst (i : ι) (spawned : s.body i = some .stopSpawned) (first : s.task.state ≠ .stopped) :
      Effect s (.begin i)
        (({ s with task := ⟨.stopped, s.task.cancellation⟩ }.setBody i .inOnStop).record
          [.stopBegan i s.task.state, .onStopEntered i])
  | runEnded (i j : ι) (e : Option Exception) (running : s.body i = some .inRun) :
      Effect s (.runEnds i e j) (s.setBody i (.caught e))
  | runCanceled (i j : ι) (e : Option Exception) (running : s.body i = some .inRun)
      (fresh : (s.setBody i (.caught e)).body j = none) :
      Effect s (.runEnds i e j) ((s.setBody i (.caught e)).setBody j .stopSpawned)
  | unwound (i : ι) (e : Option Exception) (caught : s.body i = some (.caught e)) :
      Effect s (.unwind i) ({ s with task := s.task.leave }.setBody i (.startEnded e))
  | onStopEnded (i : ι) (stopping : s.body i = some .inOnStop) :
      Effect s (.onStopEnds i) ((s.setBody i .stopEnded).record (ending i s.task.cancellation))

theorem next_effect {s t : Lifecycle ι} {a : Segment ι} (taken : lifecycle.next s a = some t) :
    Effect s a t := by
  cases a with
  | coStart i =>
    simp only [lifecycle, Lifecycle.spawn, Option.ite_none_right_eq_some, Option.some.injEq] at taken
    obtain ⟨fresh, rfl⟩ := taken
    exact .spawned _ i _ (.inl rfl) fresh
  | coStop i =>
    simp only [lifecycle, Lifecycle.spawn, Option.ite_none_right_eq_some, Option.some.injEq] at taken
    obtain ⟨fresh, rfl⟩ := taken
    exact .spawned _ i _ (.inr rfl) fresh
  | begin i =>
    simp only [lifecycle, Lifecycle.begin] at taken
    split at taken
    · rename_i spawned
      by_cases fresh : s.task.state = .initial
      · simp only [enter_initial fresh, Option.some.injEq] at taken
        exact taken ▸ .entered i spawned fresh
      · simp only [enter_late fresh, Option.some.injEq] at taken
        exact taken ▸ .rejected i spawned fresh
    · rename_i spawned
      by_cases late : s.task.state = .stopped
      · simp only [stopEntry_none.mpr late, late, Option.some.injEq] at taken
        exact taken ▸ .stopLate i spawned late
      · simp only [stopEntry_some.mpr ⟨late, rfl⟩, Option.some.injEq] at taken
        exact taken ▸ .stopFirst i spawned late
    · cases taken
  | runEnds i e j =>
    simp only [lifecycle, Lifecycle.runEnds, Option.ite_none_right_eq_some] at taken
    obtain ⟨running, taken⟩ := taken
    split at taken
    · simp only [Lifecycle.spawn, Option.ite_none_right_eq_some, Option.some.injEq] at taken
      obtain ⟨fresh, rfl⟩ := taken
      exact .runCanceled i j e running fresh
    · cases taken
      exact .runEnded i j e running
  | unwind i =>
    simp only [lifecycle, Lifecycle.unwind] at taken
    split at taken
    · rename_i e caught
      cases taken
      exact .unwound i e caught
    · cases taken
  | onStopEnds i =>
    simp only [lifecycle, Lifecycle.onStopEnds, Option.ite_none_right_eq_some, Option.some.injEq]
      at taken
    obtain ⟨stopping, rfl⟩ := taken
    exact .onStopEnded i stopping

/-- `m_state` never moves back. -/
theorem next_rank {s t : Lifecycle ι} {a : Segment ι} (taken : lifecycle.next s a = some t) :
    s.task.state.rank ≤ t.task.state.rank := by
  cases next_effect taken with
  | entered i spawned fresh =>
    simp [Lifecycle.record, Lifecycle.setBody, fresh, TaskState.rank]
  | stopFirst i spawned first =>
    cases s.task.state <;> simp [Lifecycle.record, Lifecycle.setBody, TaskState.rank]
  | unwound i e caught =>
    simp only [Lifecycle.setBody, leave_state]
    cases s.task.state <;> simp [TaskState.rank]
  | _ => exact Nat.le_refl _

theorem late_start_rejected {s t : Lifecycle ι} {i : ι} (spawned : s.body i = some .startSpawned)
    (late : s.task.state ≠ .initial) (taken : lifecycle.next s (.begin i) = some t) :
    t.body i = some (.startEnded (some (.systemError .stateNotRecoverable))) ∧ t.task = s.task := by
  simp only [lifecycle, Lifecycle.begin, spawned, enter_late late, Option.some.injEq] at taken
  subst taken
  exact ⟨Function.update_self .., rfl⟩

/-- How far the one `co_stop` body that found the task unstopped has come. -/
inductive StopProgress (s : Lifecycle ι) : Prop
  | none (unstopped : s.task.state ≠ .stopped) (entered : onStops s.log = [])
      (finished : finishes s.log = []) (fired : fires s.log = [])
  | inOnStop (i : ι) (stopped : s.task.state = .stopped) (body : s.body i = some .inOnStop)
      (entered : onStops s.log = [i]) (finished : finishes s.log = []) (fired : fires s.log = [])
  | ended (i : ι) (stopped : s.task.state = .stopped) (entered : onStops s.log = [i])
      (body : s.body i = some .stopEnded)
      (finished : finishes s.log = [i]) (fired : fires s.log = [i])

structure Ledger (s : Lifecycle ι) : Prop where
  fresh : s.task.state = .initial → s.log = [] ∧ s.task.cancellation = none
  entered : runs s.log = s.task.cancellation.toList
  running : s.task.state = .running → s.task.cancellation ≠ none
  began : ∀ i found, .stopBegan i found ∈ s.log → s.task.state = .stopped
  stops : StopProgress s
  sole : ∀ i, s.body i = some .inOnStop → i ∈ onStops s.log

def Keeps (s t : Lifecycle ι) : Prop :=
  ∀ i, s.body i = some .inOnStop ∨ s.body i = some .stopEnded → t.body i = s.body i

theorem keeps_setBody {s : Lifecycle ι} {i : ι} (b : Body)
    (elsewhere : s.body i ≠ some .inOnStop ∧ s.body i ≠ some .stopEnded) :
    Keeps s (s.setBody i b) := by
  rintro j placed
  apply Lifecycle.setBody_other s b
  intro same
  subst same
  exact placed.elim elsewhere.1 elsewhere.2

omit [DecidableEq ι] in
theorem StopProgress.frame {s t : Lifecycle ι} (progress : StopProgress s)
    (stopped : t.task.state = .stopped ↔ s.task.state = .stopped)
    (entered : onStops t.log = onStops s.log) (finished : finishes t.log = finishes s.log)
    (fired : fires t.log = fires s.log) (keeps : Keeps s t) : StopProgress t := by
  cases progress with
  | none unstopped none_entered none_finished none_fired =>
    exact .none (mt stopped.mp unstopped) (entered.trans none_entered)
      (finished.trans none_finished) (fired.trans none_fired)
  | inOnStop i was body one none_finished none_fired =>
    exact .inOnStop i (stopped.mpr was) ((keeps i (.inl body)).trans body) (entered.trans one)
      (finished.trans none_finished) (fired.trans none_fired)
  | ended i was one body one_finished one_fired =>
    exact .ended i (stopped.mpr was) (entered.trans one) ((keeps i (.inr body)).trans body)
      (finished.trans one_finished) (fired.trans one_fired)

theorem ledger_initial : Ledger (lifecycle (ι := ι)).initial where
  fresh := fun _ => ⟨rfl, rfl⟩
  entered := rfl
  running := by simp [lifecycle, new]
  began := by simp [lifecycle]
  stops := .none (by simp [lifecycle, new]) rfl rfl rfl
  sole := by simp [lifecycle]

theorem Ledger.sole_setBody {s : Lifecycle ι} (ledger : Ledger s) {i j : ι} {b : Body}
    (other : b ≠ .inOnStop) (stopping : (s.setBody i b).body j = some .inOnStop) :
    j ∈ onStops s.log := by
  by_cases same : j = i
  · subst same
    simp [other] at stopping
  · exact ledger.sole j ((Lifecycle.setBody_other s b same).symm.trans stopping)

theorem Ledger.frame {s : Lifecycle ι} (ledger : Ledger s) {i : ι} {b : Body}
    {events : List (Event ι)}
    (elsewhere : s.body i ≠ some .inOnStop ∧ s.body i ≠ some .stopEnded) (other : b ≠ .inOnStop)
    (late : s.task.state = .initial → events = [])
    (quiet : ∀ e ∈ events, e.run? = none ∧ e.onStop? = none ∧ e.finish? = none ∧ e.fire? = none)
    (began : ∀ j found, .stopBegan j found ∈ events → s.task.state = .stopped) :
    Ledger ((s.setBody i b).record events) := by
  have silent {kind : Event ι → Option ι} (none : ∀ e ∈ events, kind e = none) :
      (s.log ++ events).filterMap kind = s.log.filterMap kind := by
    rw [List.filterMap_append, List.filterMap_eq_nil_iff.mpr none, List.append_nil]
  have same_onStops : onStops (s.log ++ events) = onStops s.log := silent fun e m => (quiet e m).2.1
  refine ⟨?_, ?_, ledger.running, ?_, ?_, ?_⟩
  · intro fresh
    obtain ⟨empty, unset⟩ := ledger.fresh fresh
    exact ⟨by simp [empty, late fresh], unset⟩
  · exact (silent fun e member => (quiet e member).1).trans ledger.entered
  · intro j found member
    rcases List.mem_append.mp member with earlier | now
    · exact ledger.began j found earlier
    · exact began j found now
  · exact ledger.stops.frame Iff.rfl same_onStops (silent fun e member => (quiet e member).2.2.1)
      (silent fun e member => (quiet e member).2.2.2) (keeps_setBody b elsewhere)
  · intro j stopping
    have earlier := ledger.sole_setBody other stopping
    rwa [← same_onStops] at earlier

theorem ledger_next {s t : Lifecycle ι} {a : Segment ι} (ledger : Ledger s)
    (taken : lifecycle.next s a = some t) : Ledger t := by
  have silent {u : Lifecycle ι} (noted : Ledger (u.record [])) : Ledger u := by
    simpa [Lifecycle.record] using noted
  cases next_effect taken with
  | spawned a i b spawns fresh =>
    refine silent (ledger.frame (by simp [fresh]) ?_ (fun _ => rfl) (by simp) (by simp))
    rcases spawns with rfl | rfl <;> simp
  | rejected i spawned late =>
    refine ledger.frame (by simp [spawned]) (by simp) (fun fresh => absurd fresh late) ?_ (by simp)
    simp [Event.run?, Event.onStop?, Event.finish?, Event.fire?]
  | stopLate i spawned late =>
    refine ledger.frame (by simp [spawned]) (by simp) ?_ ?_ (fun _ _ _ => late)
    · exact fun fresh => absurd (late.symm.trans fresh) (by simp)
    · simp [Event.run?, Event.onStop?, Event.finish?, Event.fire?]
  | runEnded i j e running =>
    exact silent (ledger.frame (by simp [running]) (by simp) (fun _ => rfl) (by simp) (by simp))
  | runCanceled i j e running fresh =>
    have caught : Ledger (s.setBody i (.caught e)) :=
      silent (ledger.frame (by simp [running]) (by simp) (fun _ => rfl) (by simp) (by simp))
    exact silent (caught.frame (by simp [fresh]) (by simp) (fun _ => rfl) (by simp) (by simp))
  | entered i spawned fresh =>
    obtain ⟨empty, unset⟩ := ledger.fresh fresh
    have keeps := keeps_setBody .inRun (s := s) (i := i) (by simp [spawned])
    refine ⟨by simp, by simp [empty, runs, Event.run?], by simp, by simp [empty], ?_, ?_⟩
    · exact ledger.stops.frame (by simp [fresh]) (by simp [onStops, Event.onStop?])
        (by simp [finishes, Event.finish?]) (by simp [fires, Event.fire?]) keeps
    · intro j stopping
      have earlier := ledger.sole_setBody (by simp) stopping
      simp [empty, onStops] at earlier
  | stopFirst i spawned first =>
    cases ledger.stops with
    | none unstopped entered finished fired =>
      refine ⟨by simp, ?_, by simp, fun _ _ _ => rfl, .inOnStop i rfl (by simp) ?_ ?_ ?_, ?_⟩
      · exact (runs_append ..).trans ((List.append_nil _).trans ledger.entered)
      · rw [Lifecycle.record_log, onStops_append, Lifecycle.setBody_log, entered]
        rfl
      · rw [Lifecycle.record_log, finishes_append, Lifecycle.setBody_log, finished]
        rfl
      · rw [Lifecycle.record_log, fires_append, Lifecycle.setBody_log, fired]
        rfl
      · intro j stopping
        by_cases same : j = i
        · simp [same, onStops, Event.onStop?]
        · have earlier := ledger.sole j ((Lifecycle.setBody_other s _ same).symm.trans stopping)
          simp [entered] at earlier
    | inOnStop j stopped => exact absurd stopped first
    | ended j stopped => exact absurd stopped first
  | unwound i e caught =>
    have keeps := keeps_setBody (.startEnded e) (s := s) (i := i) (by simp [caught])
    refine ⟨?_, ?_, ?_, ?_, ?_, fun _ => ledger.sole_setBody (by simp)⟩
    · simp only [Lifecycle.setBody_task, leave_state]
      split <;> simp
    · simpa using ledger.entered
    · simp only [Lifecycle.setBody_task, leave_state]
      split <;> simp
    · intro k found member
      simp [leave_state, ledger.began k found member]
    · refine ledger.stops.frame ?_ rfl rfl rfl keeps
      simp only [Lifecycle.setBody_task, leave_state]
      split <;> simp_all
  | onStopEnded i stopping =>
    cases ledger.stops with
    | none unstopped entered => simpa [entered] using ledger.sole i stopping
    | ended j stopped entered body =>
      have same : i = j := by simpa [entered] using ledger.sole i stopping
      subst same
      simp [stopping] at body
    | inOnStop j stopped body entered finished fired =>
      have same : i = j := by simpa [entered] using ledger.sole i stopping
      subst same
      obtain ⟨no_run, no_onStop, one_finish, one_fire⟩ := ending_counts i s.task.cancellation
      refine ⟨?_, ?_, ledger.running, fun _ _ _ => stopped, .ended i stopped ?_ (by simp) ?_ ?_, ?_⟩
      · exact fun fresh => absurd (stopped.symm.trans fresh) (by simp)
      · rw [Lifecycle.record_log, runs_append, no_run, List.append_nil]
        exact ledger.entered
      · rw [Lifecycle.record_log, onStops_append, no_onStop, List.append_nil]
        exact entered
      · rw [Lifecycle.record_log, finishes_append, one_finish, Lifecycle.setBody_log, finished]
        rfl
      · rw [Lifecycle.record_log, fires_append, one_fire, Lifecycle.setBody_log, fired]
        rfl
      · intro k later
        have earlier := ledger.sole_setBody (by simp) later
        rw [Lifecycle.record_log, onStops_append]
        exact List.mem_append_left _ earlier

theorem ledger {s : Lifecycle ι} (reached : lifecycle.Reachable s) : Ledger s :=
  reached.invariant ledger_initial fun _ _ _ => ledger_next

omit [DecidableEq ι] in
theorem mem_runs {i : ι} {log : List (Event ι)} : i ∈ runs log ↔ .runEntered i ∈ log := by
  simp only [runs, List.mem_filterMap]
  constructor
  · intro both
    rcases both with ⟨e, member, same⟩
    cases e <;> simp [Event.run?] at same
    exact same ▸ member
  · exact fun member => ⟨_, member, rfl⟩

omit [DecidableEq ι] in
theorem mem_onStops {i : ι} {log : List (Event ι)} : i ∈ onStops log ↔ .onStopEntered i ∈ log := by
  simp only [onStops, List.mem_filterMap]
  constructor
  · intro both
    rcases both with ⟨e, member, same⟩
    cases e <;> simp [Event.onStop?] at same
    exact same ▸ member
  · exact fun member => ⟨_, member, rfl⟩

omit [DecidableEq ι] in
theorem Ledger.runEntered_iff {s : Lifecycle ι} (ledger : Ledger s) {i : ι} :
    .runEntered i ∈ s.log ↔ s.task.cancellation = some i := by
  rw [← mem_runs, ledger.entered]
  simp

/-- What has to come before an event: no `co_stop` body before `run`, `run` before a
    stop that finds the task running, `onStop` before `m_stopped`, and before
    `m_stopped` also the emission to the coroutine that executes `run`. -/
def Ordered (before : List (Event ι)) : Event ι → Prop
  | .runEntered _ => ∀ j found, .stopBegan j found ∉ before
  | .stopBegan _ found => found = .running → ∃ i, .runEntered i ∈ before
  | .onStopFinished i => .onStopEntered i ∈ before
  | .stopped i => .onStopFinished i ∈ before ∧ ∀ j, .runEntered j ∈ before → .emitted j ∈ before
  | _ => True

theorem ordered_next {s t : Lifecycle ι} {a : Segment ι} (ledger : Ledger s)
    (ordered : Each Ordered s.log) (taken : lifecycle.next s a = some t) : Each Ordered t.log := by
  cases next_effect taken with
  | spawned a i b spawns fresh => exact ordered
  | rejected i spawned late => exact each_snoc.mpr ⟨ordered, trivial⟩
  | entered i spawned fresh =>
    refine each_snoc.mpr ⟨ordered, ?_⟩
    simp [Ordered, (ledger.fresh fresh).1]
  | stopLate i spawned late => exact each_snoc.mpr ⟨ordered, by simp [Ordered]⟩
  | stopFirst i spawned first =>
    have began : Each Ordered (s.log ++ [.stopBegan i s.task.state]) := by
      refine each_snoc.mpr ⟨ordered, fun running => ?_⟩
      obtain ⟨j, set⟩ := Option.ne_none_iff_exists'.mp (ledger.running running)
      exact ⟨j, ledger.runEntered_iff.mpr set⟩
    have entered := each_snoc.mpr ⟨began, show Ordered _ (.onStopEntered i) from trivial⟩
    simpa using entered
  | runEnded i j e running => exact ordered
  | runCanceled i j e running fresh => exact ordered
  | unwound i e caught => exact ordered
  | onStopEnded i stopping =>
    have finished : Each Ordered (s.log ++ [.onStopFinished i]) :=
      each_snoc.mpr ⟨ordered, mem_onStops.mp (ledger.sole i stopping)⟩
    cases set : s.task.cancellation with
    | none =>
      have fired : Each Ordered (s.log ++ [.onStopFinished i] ++ [.stopped i]) := by
        refine each_snoc.mpr ⟨finished, by simp, fun j member => ?_⟩
        have entered : .runEntered j ∈ s.log := by simpa using member
        simp [ledger.runEntered_iff, set] at entered
      simpa [ending] using fired
    | some c =>
      have emitted := each_snoc.mpr ⟨finished, show Ordered _ (.emitted c) from trivial⟩
      have fired : Each Ordered (s.log ++ [.onStopFinished i] ++ [.emitted c] ++ [.stopped i]) := by
        refine each_snoc.mpr ⟨emitted, by simp, fun j member => ?_⟩
        have entered : .runEntered j ∈ s.log := by simpa using member
        have same : c = j := by simpa [ledger.runEntered_iff, set] using entered
        simp [same]
      simpa [ending] using fired

theorem ordered {s : Lifecycle ι} (reached : lifecycle.Reachable s) : Each Ordered s.log := by
  refine (reached.invariant (I := fun s => Ledger s ∧ Each Ordered s.log)
    ⟨ledger_initial, each_nil _⟩ ?_).2
  exact fun s a t holds taken => ⟨ledger_next holds.1 taken, ordered_next holds.1 holds.2 taken⟩

omit [DecidableEq ι] in
theorem Ledger.at_most_once {s : Lifecycle ι} (ledger : Ledger s) :
    (runs s.log).length ≤ 1 ∧ (onStops s.log).length ≤ 1 ∧ (fires s.log).length ≤ 1 := by
  refine ⟨?_, ?_⟩
  · rw [ledger.entered]
    cases s.task.cancellation <;> simp
  · cases ledger.stops with
    | none unstopped entered finished fired => simp [entered, fired]
    | inOnStop i stopped body entered finished fired => simp [entered, fired]
    | ended i stopped entered body finished fired => simp [entered, fired]

/-- A task is one-shot: over any interleaving of `co_start` and `co_stop` bodies its
    state only moves forward, late starts are rejected without a trace, `run`,
    `onStop` and `m_stopped` come at most once and in order, and a signal is there
    to be emitted as soon as `run` has been entered. -/
theorem one_shot (as : List (Segment ι)) :
    lifecycle.Always (fun s _ t => s.task.state.rank ≤ t.task.state.rank) lifecycle.initial as ∧
    lifecycle.Always (fun s a t => ∀ i, a = .begin i → s.body i = some .startSpawned →
      s.task.state ≠ .initial →
        t.body i = some (.startEnded (some (.systemError .stateNotRecoverable))) ∧ t.task = s.task)
      lifecycle.initial as ∧
    ∀ s, lifecycle.run lifecycle.initial as = some s →
      (runs s.log).length ≤ 1 ∧ (onStops s.log).length ≤ 1 ∧ (fires s.log).length ≤ 1 ∧
      Each Ordered s.log ∧ ∀ i, .runEntered i ∈ s.log → s.task.cancellation = some i := by
  refine ⟨?_, ?_, ?_⟩
  · exact Machine.always_of_invariant (I := fun _ => True) (fun _ _ _ _ _ => trivial)
      (fun _ _ _ _ => next_rank) trivial as
  · refine Machine.always_of_invariant (I := fun _ => True) (fun _ _ _ _ _ => trivial) ?_ trivial as
    rintro s a t - taken i rfl spawned late
    exact late_start_rejected spawned late taken
  · intro s ran
    have reached : lifecycle.Reachable s := ⟨as, ran⟩
    have counts := (ledger reached).at_most_once
    exact ⟨counts.1, counts.2.1, counts.2.2, ordered reached, fun _ => (ledger reached).runEntered_iff.mp⟩

/-- A stop from outside reaches the task inside `run`; `run` then ends with
    `operation_canceled` and its handler stops the task once more. -/
theorem one_shot_stopped : ∃ s : Lifecycle Nat,
    lifecycle.run lifecycle.initial [.coStart 0, .begin 0, .coStop 1, .begin 1, .onStopEnds 1,
      .runEnds 0 (some (.systemError .operationCanceled)) 2, .unwind 0, .begin 2] = some s ∧
    s.task.state = .stopped ∧ runs s.log = [0] ∧ fires s.log = [1] ∧
    (onStops s.log).length ≤ 1 := by
  refine ⟨_, rfl, rfl, rfl, rfl, ?_⟩
  exact ((one_shot [.coStart 0, .begin 0, .coStop 1, .begin 1, .onStopEnds 1,
    .runEnds 0 (some (.systemError .operationCanceled)) 2, .unwind 0, .begin 2]).2.2 _ rfl).2.1

end BoostBase.CoroutineTask
