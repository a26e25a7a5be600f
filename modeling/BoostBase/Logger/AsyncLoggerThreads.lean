import BoostBase.Logger.AsyncLogger
import BoostBase.Transition.Progress
import Mathlib.Algebra.Order.Ring.Nat

namespace BoostBase

open Text Transition

inductive LogCall
  | idle
  | locking (msg : List Byte)
  | pushing (msg : List Byte)
  | pushed
  | flushing
  | moving
  | moved (logs : List (List Byte))
  | draining (logs : List (List Byte)) (oneMsg : List Byte)
  | printing (oneMsg : List Byte)
  | syncing
  deriving DecidableEq

namespace LogCall

def holdsMutex : LogCall → Bool
  | .pushing _ | .pushed | .moving | .moved _ => true
  | .idle | .locking _ | .flushing | .draining _ _ | .printing _ | .syncing => false

def inFlush : LogCall → Bool
  | .idle | .locking _ | .pushing _ | .pushed => false
  | .flushing | .moving | .moved _ | .draining _ _ | .printing _ | .syncing => true

/-- What the thread has been called with and not pushed yet. -/
def pending : LogCall → List (List Byte)
  | .locking msg | .pushing msg => [msg]
  | _ => []

def finish (base : SimpleLogger) (out : Stdout) : LogCall → Stdout
  | .moved logs =>
    if logs.isEmpty then out else (base.logImpl (AsyncLogger.drain [] logs) out).fflush
  | .draining logs oneMsg => (base.logImpl (AsyncLogger.drain oneMsg logs) out).fflush
  | .printing oneMsg => (base.logImpl oneMsg out).fflush
  | .syncing => out.fflush
  | _ => out

end LogCall

/-- Threads that share a logger. `flush` is called on the logger's strand, and by the destructor
    when the strand is done: `flusher` is the thread that is in it. `entered` is history, the
    messages in the order `m_mutex` let them in. -/
structure LogThreads where
  logger : AsyncLogger
  mutex : Option Nat
  flusher : Option Nat
  calls : List LogCall
  out : Stdout
  entered : List (Nat × List Byte)

namespace LogThreads

inductive Action
  | logImpl (thread : Nat) (msg : List Byte)
  | flush (thread : Nat)
  | step (thread : Nat)
  deriving DecidableEq

def put (s : LogThreads) (thread : Nat) (c : LogCall) : LogThreads :=
  { s with calls := s.calls.set thread c }

def lock (s : LogThreads) (thread : Nat) (c : LogCall) : Option LogThreads :=
  if s.mutex = none then some { s.put thread c with mutex := some thread } else none

def unlock (s : LogThreads) (thread : Nat) (c : LogCall) : LogThreads :=
  { s.put thread c with mutex := none }

def advance (s : LogThreads) (thread : Nat) : LogCall → Option LogThreads
  | .idle => none
  | .locking msg => s.lock thread (.pushing msg)
  | .pushing msg =>
    some { s.put thread .pushed with
      logger := s.logger.logImpl msg, entered := s.entered ++ [(thread, msg)] }
  | .pushed => some (s.unlock thread .idle)
  | .flushing => s.lock thread .moving
  | .moving =>
    some { s.put thread (.moved s.logger.logs) with logger := { s.logger with logs := [] } }
  | .moved logs =>
    if logs.isEmpty then some { s.unlock thread .idle with flusher := none }
    else some (s.unlock thread (.draining logs []))
  | .draining [] oneMsg => some (s.put thread (.printing oneMsg))
  | .draining (front :: logs) oneMsg =>
    let oneMsg := oneMsg ++ front
    some (s.put thread (.draining logs (if logs.isEmpty then oneMsg else oneMsg ++ [newline])))
  | .printing oneMsg =>
    some { s.put thread .syncing with out := s.logger.base.logImpl oneMsg s.out }
  | .syncing => some { s.put thread .idle with out := s.out.fflush, flusher := none }

def machine (threadNum : Nat) : Machine LogThreads Action where
  initial := ⟨.new, none, none, List.replicate threadNum .idle, .empty, []⟩
  next s
    | .logImpl thread msg =>
      if s.calls[thread]? = some .idle then some (s.put thread (.locking msg)) else none
    | .flush thread =>
      if s.calls[thread]? = some .idle ∧ s.flusher = none then
        some { s.put thread .flushing with flusher := some thread }
      else none
    | .step thread => s.calls[thread]?.bind (s.advance thread)

variable {threadNum thread : Nat} {s t : LogThreads} {a : Action} {c d : LogCall}

theorem get_put (there : s.calls[thread]? = some c) : (s.put thread d).calls[thread]? = some d :=
  List.getElem?_set_self (List.getElem?_eq_some_iff.mp there).1

theorem get_put_other {other : Nat} (away : other ≠ thread) :
    (s.put thread d).calls[other]? = s.calls[other]? :=
  List.getElem?_set_ne away.symm

/-- Only `thread` has taken or given up what one thread at a time can have, and it has it `now` or
    not. -/
structure Turn (thread : Nat) (before after : Option Nat) (now : Bool) : Prop where
  self : now = true ↔ after = some thread
  others : ∀ other ≠ thread, after = some other ↔ before = some other

namespace Turn

theorem same {before : Option Nat} {now : Bool} (was : now = true ↔ before = some thread) :
    Turn thread before before now :=
  ⟨was, fun _ _ => Iff.rfl⟩

theorem take : Turn thread none (some thread) true where
  self := iff_of_true rfl rfl
  others other away := by simp [away.symm]

theorem give : Turn thread (some thread) none false where
  self := by simp
  others other away := by simp [away.symm]

end Turn

/-- The mutex is with the thread that is in one of its scopes, and `flush` with the one thread that
    is in it. -/
structure Ok (s : LogThreads) : Prop where
  holder : ∀ {thread c}, s.calls[thread]? = some c → (c.holdsMutex = true ↔ s.mutex = some thread)
  held : ∀ {thread}, s.mutex = some thread → ∃ c, s.calls[thread]? = some c
  flushing : ∀ {thread c}, s.calls[thread]? = some c → (c.inFlush = true ↔ s.flusher = some thread)
  flushed : ∀ {thread}, s.flusher = some thread → ∃ c, s.calls[thread]? = some c

namespace Ok

theorem initial : Ok (machine threadNum).initial where
  holder there := by
    obtain rfl := List.eq_of_mem_replicate (List.mem_of_getElem? there)
    simp [machine, LogCall.holdsMutex]
  held held := by cases held
  flushing there := by
    obtain rfl := List.eq_of_mem_replicate (List.mem_of_getElem? there)
    simp [machine, LogCall.inFlush]
  flushed flushed := by cases flushed

theorem turn (ok : Ok s) (there : s.calls[thread]? = some c) (moved : t.calls = s.calls.set thread d)
    (mutex : Turn thread s.mutex t.mutex d.holdsMutex)
    (flusher : Turn thread s.flusher t.flusher d.inFlush) : Ok t := by
  have here : t.calls[thread]? = some d := moved ▸ get_put (d := d) there
  have away {other : Nat} (ne : other ≠ thread) : t.calls[other]? = s.calls[other]? :=
    moved ▸ get_put_other ne
  constructor
  · intro other e at_
    by_cases same : other = thread
    · subst same
      obtain rfl : d = e := Option.some.inj (here.symm.trans at_)
      exact mutex.self
    · rw [mutex.others other same]
      exact ok.holder ((away same).symm.trans at_)
  · intro other held
    by_cases same : other = thread
    · exact ⟨d, same ▸ here⟩
    · rw [away same]
      exact ok.held ((mutex.others other same).mp held)
  · intro other e at_
    by_cases same : other = thread
    · subst same
      obtain rfl : d = e := Option.some.inj (here.symm.trans at_)
      exact flusher.self
    · rw [flusher.others other same]
      exact ok.flushing ((away same).symm.trans at_)
  · intro other flushed
    by_cases same : other = thread
    · exact ⟨d, same ▸ here⟩
    · rw [away same]
      exact ok.flushed ((flusher.others other same).mp flushed)

theorem advance (ok : Ok s) (there : s.calls[thread]? = some c)
    (taken : s.advance thread c = some t) : Ok t := by
  have mutex := Turn.same (ok.holder there)
  have flusher := Turn.same (ok.flushing there)
  cases c with
  | idle => cases taken
  | locking msg =>
    simp only [LogThreads.advance, lock] at taken
    split at taken
    · rename_i free
      cases taken
      exact ok.turn there rfl (free ▸ .take) flusher
    · cases taken
  | pushing msg =>
    cases taken
    exact ok.turn there rfl mutex flusher
  | pushed =>
    cases taken
    have mine : s.mutex = some thread := (ok.holder there).mp rfl
    exact ok.turn there rfl (mine ▸ .give) flusher
  | flushing =>
    simp only [LogThreads.advance, lock] at taken
    split at taken
    · rename_i free
      cases taken
      exact ok.turn there rfl (free ▸ .take) flusher
    · cases taken
  | moving =>
    cases taken
    exact ok.turn there rfl mutex flusher
  | moved logs =>
    have mine : s.mutex = some thread := (ok.holder there).mp rfl
    have flushes : s.flusher = some thread := (ok.flushing there).mp rfl
    simp only [LogThreads.advance] at taken
    split at taken
    · cases taken
      exact ok.turn there rfl (mine ▸ .give) (flushes ▸ .give)
    · cases taken
      exact ok.turn there rfl (mine ▸ .give) flusher
  | draining logs oneMsg =>
    cases logs with
    | nil =>
      cases taken
      exact ok.turn there rfl mutex flusher
    | cons front logs =>
      cases taken
      exact ok.turn there rfl mutex flusher
  | printing oneMsg =>
    cases taken
    exact ok.turn there rfl mutex flusher
  | syncing =>
    cases taken
    have flushes : s.flusher = some thread := (ok.flushing there).mp rfl
    exact ok.turn there rfl mutex (flushes ▸ .give)

theorem next (ok : Ok s) (taken : (machine threadNum).next s a = some t) : Ok t := by
  cases a with
  | logImpl thread msg =>
    simp only [machine] at taken
    split at taken
    · rename_i idle
      cases taken
      have mutex := Turn.same (ok.holder idle)
      have flusher := Turn.same (ok.flushing idle)
      exact ok.turn idle rfl mutex flusher
    · cases taken
  | flush thread =>
    simp only [machine] at taken
    split at taken
    · rename_i free
      cases taken
      have mutex := Turn.same (ok.holder free.1)
      exact ok.turn free.1 rfl mutex (free.2 ▸ .take)
    · cases taken
  | step thread =>
    obtain ⟨c, there, advanced⟩ := Option.bind_eq_some_iff.mp taken
    exact ok.advance there advanced

end Ok

theorem ok (reached : (machine threadNum).Reachable s) : Ok s :=
  reached.invariant .initial fun _ _ _ before taken => before.next taken

/-- The stream as the `flush` that is under way leaves it. -/
def ahead (s : LogThreads) : Stdout :=
  match s.flusher.bind (s.calls[·]?) with
  | none => s.out
  | some c => c.finish s.logger.base s.out

/-- The logger of which `flush` is one step, where every message has gone in by a step too. -/
def whole (s : LogThreads) : Console := ⟨s.logger, s.ahead⟩

theorem ahead_flusher (there : s.calls[thread]? = some c) (flushes : s.flusher = some thread) :
    s.ahead = c.finish s.logger.base s.out := by
  simp [ahead, flushes, there]

theorem ahead_none (none : s.flusher = none) : s.ahead = s.out := by simp [ahead, none]

theorem ahead_other (away : s.flusher ≠ some thread) (calls : t.calls = s.calls.set thread d)
    (flusher : t.flusher = s.flusher) (base : t.logger.base = s.logger.base) (out : t.out = s.out) :
    t.ahead = s.ahead := by
  have same : t.flusher.bind (t.calls[·]?) = s.flusher.bind (s.calls[·]?) := by
    rw [flusher]
    cases holder : s.flusher with
    | none => rfl
    | some other =>
      have ne : other ≠ thread := fun same => away (same ▸ holder)
      simp only [Option.bind_some, calls]
      exact List.getElem?_set_ne ne.symm
  simp only [ahead, same, base, out]

theorem ahead_set (there : s.calls[thread]? = some c) (calls : t.calls = s.calls.set thread d)
    (flushes : t.flusher = some thread) : t.ahead = d.finish t.logger.base t.out :=
  ahead_flusher (calls ▸ get_put there) flushes

theorem ahead_flush (there : s.calls[thread]? = some c) (before : s.flusher = some thread)
    (calls : t.calls = s.calls.set thread d) (flushes : t.flusher = some thread)
    (same : d.finish t.logger.base t.out = c.finish s.logger.base s.out) : t.ahead = s.ahead := by
  rw [ahead_set there calls flushes, ahead_flusher there before, same]

/-- A step of a thread is a step of the logger or none. -/
structure Shows (s t : LogThreads) (bs : List Console.Action) : Prop where
  ran : Console.machine.run s.whole bs = some t.whole
  entered : t.entered.map Prod.snd = s.entered.map Prod.snd ++ Console.messages bs

theorem Shows.none (logger : t.logger = s.logger) (ahead : t.ahead = s.ahead)
    (entered : t.entered = s.entered) : Shows s t [] :=
  ⟨by rw [whole, whole, logger, ahead, Machine.run_nil], by simp [entered, Console.messages]⟩

theorem Shows.logImpl {msg : List Byte} (logger : t.logger = s.logger.logImpl msg)
    (ahead : t.ahead = s.ahead) (entered : t.entered = s.entered ++ [(thread, msg)]) :
    Shows s t [.logImpl msg] := by
  refine ⟨Machine.run_cons.mpr ⟨_, rfl, ?_⟩, by rw [entered, List.map_append]; rfl⟩
  rw [Machine.run_nil, whole, whole, logger, ahead]

theorem Shows.flush (logger : t.logger = (s.logger.flush s.ahead).1)
    (ahead : t.ahead = (s.logger.flush s.ahead).2) (entered : t.entered = s.entered) :
    Shows s t [.flush] := by
  refine ⟨Machine.run_cons.mpr ⟨_, rfl, ?_⟩, by rw [entered]; exact (List.append_nil _).symm⟩
  rw [Machine.run_nil, whole, whole, logger, ahead]

/-- `flush` shows when it takes the queue, `logImpl` when it adds to it. -/
theorem advance_shows (ok : Ok s) (there : s.calls[thread]? = some c)
    (taken : s.advance thread c = some t) : ∃ bs, Shows s t bs := by
  have outside (out : c.inFlush = false) : s.flusher ≠ some thread := by
    intro flushes
    rw [(ok.flushing there).mpr flushes] at out
    cases out
  have inside (in_ : c.inFlush = true) : s.flusher = some thread := (ok.flushing there).mp in_
  cases c with
  | idle => cases taken
  | locking msg =>
    simp only [advance, lock] at taken
    split at taken
    · cases taken
      exact ⟨[], .none rfl (ahead_other (outside rfl) rfl rfl rfl rfl) rfl⟩
    · cases taken
  | pushing msg =>
    cases taken
    exact ⟨_, .logImpl rfl (ahead_other (outside rfl) rfl rfl rfl rfl) rfl⟩
  | pushed =>
    cases taken
    exact ⟨[], .none rfl (ahead_other (d := .idle) (outside rfl) rfl rfl rfl rfl) rfl⟩
  | flushing =>
    simp only [advance, lock] at taken
    split at taken
    · cases taken
      exact ⟨[], .none rfl (ahead_flush there (inside rfl) rfl (inside rfl) rfl) rfl⟩
    · cases taken
  | moving =>
    cases taken
    refine ⟨[.flush], .flush ?_ ?_ rfl⟩
    · simp only [AsyncLogger.flush]
      split <;> rfl
    · refine (ahead_flusher (get_put there) (inside rfl)).trans ?_
      rw [ahead_flusher there (inside rfl)]
      simp only [LogCall.finish, AsyncLogger.flush, put]
      split <;> rfl
  | moved logs =>
    simp only [advance] at taken
    split at taken
    · rename_i empty
      cases taken
      refine ⟨[], .none rfl ?_ rfl⟩
      rw [ahead_flusher there (inside rfl), ahead_none rfl, LogCall.finish, if_pos empty]
      rfl
    · rename_i more
      cases taken
      exact ⟨[], .none rfl
        (ahead_flush there (inside rfl) rfl (inside rfl) (if_neg more).symm) rfl⟩
  | draining logs oneMsg =>
    cases logs with
    | nil =>
      cases taken
      exact ⟨[], .none rfl (ahead_flush there (inside rfl) rfl (inside rfl) rfl) rfl⟩
    | cons front logs =>
      cases taken
      exact ⟨[], .none rfl (ahead_flush there (inside rfl) rfl (inside rfl) rfl) rfl⟩
  | printing oneMsg =>
    cases taken
    exact ⟨[], .none rfl (ahead_flush there (inside rfl) rfl (inside rfl) rfl) rfl⟩
  | syncing =>
    cases taken
    refine ⟨[], .none rfl ?_ rfl⟩
    rw [ahead_flusher there (inside rfl), ahead_none rfl]
    rfl

theorem next_shows (ok : Ok s) (taken : (machine threadNum).next s a = some t) :
    ∃ bs, Shows s t bs := by
  cases a with
  | logImpl thread msg =>
    simp only [machine] at taken
    split at taken
    · rename_i idle
      cases taken
      have away : s.flusher ≠ some thread := fun flushes => by
        simpa [LogCall.inFlush] using (ok.flushing idle).mpr flushes
      exact ⟨[], .none rfl (ahead_other away rfl rfl rfl rfl) rfl⟩
    · cases taken
  | flush thread =>
    simp only [machine] at taken
    split at taken
    · rename_i free
      cases taken
      refine ⟨[], .none rfl ?_ rfl⟩
      rw [ahead_none free.2, ahead_set free.1 rfl rfl]
      rfl
    · cases taken
  | step thread =>
    obtain ⟨c, there, advanced⟩ := Option.bind_eq_some_iff.mp taken
    exact advance_shows ok there advanced

def called (thread : Nat) (as : List Action) : List (List Byte) :=
  as.filterMap fun a =>
    match a with
    | .logImpl other msg => if other = thread then some msg else none
    | .flush _ | .step _ => none

/-- The messages of a thread the mutex has let in. -/
def enteredBy (s : LogThreads) (thread : Nat) : List (List Byte) :=
  (s.entered.filter fun p => p.1 = thread).map Prod.snd

/-- Each thread's messages have gone in in the order of its calls, but for the one it may still be
    about to push. -/
def Told (as : List Action) (s : LogThreads) : Prop :=
  ∀ thread c, s.calls[thread]? = some c → s.enteredBy thread ++ c.pending = called thread as

namespace Told

variable {as : List Action}

theorem initial : Told [] (machine threadNum).initial := by
  intro thread c there
  obtain rfl := List.eq_of_mem_replicate (List.mem_of_getElem? there)
  rfl

theorem turn (told : Told as s) (there : s.calls[thread]? = some c)
    (calls : t.calls = s.calls.set thread d)
    (mine : t.enteredBy thread ++ d.pending = s.enteredBy thread ++ c.pending ++ called thread [a])
    (others : ∀ other ≠ thread, t.enteredBy other = s.enteredBy other ∧ called other [a] = []) :
    Told (as ++ [a]) t := by
  intro other e at_
  rw [called, List.filterMap_append]
  change _ = called other as ++ called other [a]
  by_cases same : other = thread
  · subst same
    have here : t.calls[other]? = some d := by rw [calls]; exact get_put there
    obtain rfl : d = e := Option.some.inj (here.symm.trans at_)
    rw [mine, told other c there]
  · have away : t.calls[other]? = s.calls[other]? := by rw [calls]; exact get_put_other same
    obtain ⟨entered, none⟩ := others other same
    rw [entered, none, told other e (away.symm.trans at_), List.append_nil]

theorem quiet (told : Told as s) (there : s.calls[thread]? = some c)
    (calls : t.calls = s.calls.set thread d) (entered : t.entered = s.entered)
    (pending : d.pending = c.pending) (uncalled : ∀ other, called other [a] = []) :
    Told (as ++ [a]) t := by
  have same (other : Nat) : t.enteredBy other = s.enteredBy other := by
    rw [enteredBy, enteredBy, entered]
  refine told.turn there calls ?_ fun other _ => ⟨same other, uncalled other⟩
  rw [same, pending, uncalled, List.append_nil]

theorem advance (told : Told as s) (there : s.calls[thread]? = some c)
    (taken : s.advance thread c = some t) : Told (as ++ [.step thread]) t := by
  have uncalled (other : Nat) : called other [.step thread] = [] := rfl
  cases c with
  | idle => cases taken
  | locking msg =>
    simp only [LogThreads.advance, lock] at taken
    split at taken
    · cases taken
      exact told.quiet there rfl rfl rfl uncalled
    · cases taken
  | pushing msg =>
    cases taken
    refine told.turn there rfl ?_ fun other away => ⟨?_, rfl⟩
    · simp [enteredBy, LogCall.pending, called]
    · simp [enteredBy, away.symm]
  | flushing =>
    simp only [LogThreads.advance, lock] at taken
    split at taken
    · cases taken
      exact told.quiet there rfl rfl rfl uncalled
    · cases taken
  | moved logs =>
    simp only [LogThreads.advance] at taken
    split at taken
    · cases taken
      exact told.quiet there rfl rfl rfl uncalled
    · cases taken
      exact told.quiet there rfl rfl rfl uncalled
  | draining logs oneMsg =>
    cases logs with
    | nil =>
      cases taken
      exact told.quiet there rfl rfl rfl uncalled
    | cons front logs =>
      cases taken
      exact told.quiet there rfl rfl rfl uncalled
  | pushed | moving | printing | syncing =>
    cases taken
    exact told.quiet there rfl rfl rfl uncalled

theorem next (told : Told as s) (taken : (machine threadNum).next s a = some t) :
    Told (as ++ [a]) t := by
  cases a with
  | logImpl thread msg =>
    simp only [machine] at taken
    split at taken
    · rename_i idle
      cases taken
      refine told.turn idle rfl ?_ fun other away => ⟨rfl, ?_⟩
      · simp [enteredBy, put, LogCall.pending, called]
      · simp [called, away.symm]
    · cases taken
  | flush thread =>
    simp only [machine] at taken
    split at taken
    · rename_i free
      cases taken
      exact told.quiet free.1 rfl rfl rfl fun _ => rfl
    · cases taken
  | step thread =>
    obtain ⟨c, there, advanced⟩ := Option.bind_eq_some_iff.mp taken
    exact told.advance there advanced

end Told

/-- However the threads take turns: the messages are let in in an order in which each thread's are
    in the order of its calls, and while no `flush` is under way the queue and the stream are what
    `logImpl` and `flush` make of them when each is one step. -/
theorem linearized {as : List Action}
    (ran : (machine threadNum).run (machine threadNum).initial as = some s) :
    (∀ thread c, s.calls[thread]? = some c → s.enteredBy thread ++ c.pending = called thread as) ∧
      (s.flusher = none → ∃ bs,
        Console.machine.run Console.machine.initial bs = some ⟨s.logger, s.out⟩ ∧
          Console.messages bs = s.entered.map Prod.snd) := by
  refine ⟨Machine.run_history Told .initial (fun _ _ _ _ told taken => told.next taken) ran, ?_⟩
  have shown : ∃ bs, Console.machine.run Console.machine.initial bs = some s.whole ∧
      Console.messages bs = s.entered.map Prod.snd := by
    refine Machine.run_course (m := machine threadNum) (fun _ s => ∃ bs,
      Console.machine.run Console.machine.initial bs = some s.whole ∧
        Console.messages bs = s.entered.map Prod.snd) ⟨[], rfl, rfl⟩ ?_ ran
    rintro as s a t ran ⟨bs, before, messages⟩ taken
    obtain ⟨cs, shows⟩ := next_shows (ok ⟨as, ran⟩) taken
    refine ⟨bs ++ cs, Machine.run_append.mpr ⟨_, before, shows.ran⟩, ?_⟩
    rw [Console.messages, List.filterMap_append, shows.entered, ← messages]
    rfl
  intro quiet
  obtain ⟨bs, before, messages⟩ := shown
  rw [whole, ahead_none quiet] at before
  exact ⟨bs, before, messages⟩

def interleaved : List Action :=
  [.logImpl 0 [97], .logImpl 1 [98], .step 1, .step 1, .flush 2, .step 1, .step 2, .step 2, .step 2,
    .step 0, .step 2, .step 0, .step 0, .step 2, .step 2, .step 2]

theorem linearized_interleaved : ∃ s, (machine 3).run (machine 3).initial interleaved = some s ∧
    s.flusher = none ∧ s.out.sent = [98, 10] ∧ s.enteredBy 0 = [[97]] ∧ ∃ bs,
      Console.machine.run Console.machine.initial bs = some ⟨s.logger, s.out⟩ ∧
        Console.messages bs = [[98], [97]] := by
  have ran : (machine 3).run (machine 3).initial interleaved = some _ := rfl
  exact ⟨_, ran, rfl, rfl, (List.append_nil _).symm.trans ((linearized ran).1 0 _ rfl),
    (linearized ran).2 rfl⟩

def Action.isStep : Action → Bool
  | .step _ => true
  | .logImpl _ _ | .flush _ => false

end LogThreads

/-- A bound for the statements a call has left, of which each message in a batch takes one. -/
def LogCall.weight : LogCall → Nat
  | .idle => 0
  | .locking _ => 4
  | .pushing _ => 3
  | .pushed => 1
  | .flushing => 6
  | .moving => 5
  | .moved logs => logs.length + 4
  | .draining logs _ => logs.length + 3
  | .printing _ => 2
  | .syncing => 1

namespace LogThreads

variable {threadNum thread : Nat} {s t : LogThreads} {a : Action} {c d : LogCall}

def rank (s : LogThreads) : Nat := (s.calls.map LogCall.weight).sum + s.logger.logs.length

theorem weights_set {calls : List LogCall} (there : calls[thread]? = some c) :
    ((calls.set thread d).map LogCall.weight).sum + c.weight =
      (calls.map LogCall.weight).sum + d.weight := by
  induction calls generalizing thread with
  | nil => cases there
  | cons e calls ih =>
    cases thread with
    | zero =>
      cases there
      simp only [List.set_cons_zero, List.map_cons, List.sum_cons]
      omega
    | succ thread =>
      have later := ih there
      simp only [List.set_cons_succ, List.map_cons, List.sum_cons]
      omega

theorem rank_falls (there : s.calls[thread]? = some c) (calls : t.calls = s.calls.set thread d)
    (paid : d.weight + t.logger.logs.length < c.weight + s.logger.logs.length) : t.rank < s.rank := by
  have weights := weights_set (d := d) there
  rw [rank, rank, calls]
  omega

theorem advance_falls (there : s.calls[thread]? = some c) (taken : s.advance thread c = some t) :
    t.rank < s.rank := by
  cases c with
  | idle => cases taken
  | locking msg =>
    simp only [advance, lock] at taken
    split at taken
    · cases taken
      exact rank_falls there rfl (by simp [LogCall.weight, put])
    · cases taken
  | pushing msg =>
    cases taken
    exact rank_falls there rfl (by simp [LogCall.weight, AsyncLogger.logImpl]; omega)
  | flushing =>
    simp only [advance, lock] at taken
    split at taken
    · cases taken
      exact rank_falls there rfl (by simp [LogCall.weight, put])
    · cases taken
  | moving =>
    cases taken
    exact rank_falls there rfl (by simp [LogCall.weight]; omega)
  | moved logs =>
    simp only [advance] at taken
    split at taken
    · cases taken
      exact rank_falls there rfl (by simp [LogCall.weight, unlock, put])
    · cases taken
      exact rank_falls there rfl (by simp [LogCall.weight, unlock, put])
  | draining logs oneMsg =>
    cases logs with
    | nil =>
      cases taken
      exact rank_falls there rfl (by simp [LogCall.weight, put])
    | cons front logs =>
      cases taken
      exact rank_falls there rfl (by simp [LogCall.weight, put])
  | pushed =>
    cases taken
    exact rank_falls there rfl (by simp [LogCall.weight, unlock, put])
  | printing oneMsg =>
    cases taken
    exact rank_falls there rfl (by simp [LogCall.weight, put])
  | syncing =>
    cases taken
    exact rank_falls there rfl (by simp [LogCall.weight, put])

theorem ranked : (machine threadNum).Ranked Ok (fun a => a.isStep = true) rank where
  keeps _ _ _ ok _ taken := ok.next taken
  falls s a t _ step taken := by
    cases a with
    | logImpl thread msg => cases step
    | flush thread => cases step
    | step thread =>
      obtain ⟨c, there, advanced⟩ := Option.bind_eq_some_iff.mp taken
      exact advance_falls there advanced

theorem advance_waits (busy : c ≠ .idle) (stuck : s.advance thread c = none) :
    c.holdsMutex = false ∧ ∃ other, s.mutex = some other := by
  have locked {d : LogCall} (stuck : s.lock thread d = none) : ∃ other, s.mutex = some other := by
    unfold lock at stuck
    split at stuck
    · cases stuck
    · exact Option.ne_none_iff_exists'.mp ‹_›
  cases c with
  | idle => exact absurd rfl busy
  | locking msg => exact ⟨rfl, locked stuck⟩
  | flushing => exact ⟨rfl, locked stuck⟩
  | moved logs =>
    simp only [advance] at stuck
    split at stuck <;> cases stuck
  | draining logs oneMsg => cases logs <;> cases stuck
  | pushing | pushed | moving | printing | syncing => cases stuck

theorem stuck_iff (ok : Ok s) :
    (machine threadNum).Stuck (fun a => a.isStep = true) s ↔ ∀ c ∈ s.calls, c = .idle := by
  constructor
  · intro stuck c member
    by_contra busy
    have halts {thread : Nat} {c : LogCall} (there : s.calls[thread]? = some c) :
        s.advance thread c = none := by
      have none := stuck (.step thread) rfl
      simpa [machine, there] using none
    obtain ⟨thread, there⟩ := List.mem_iff_getElem?.mp member
    obtain ⟨-, other, held⟩ := advance_waits busy (halts there)
    obtain ⟨d, at_⟩ := ok.held held
    have holds : d.holdsMutex = true := (ok.holder at_).mpr held
    have working : d ≠ .idle := fun idle => by
      rw [idle] at holds
      cases holds
    rw [(advance_waits working (halts at_)).1] at holds
    cases holds
  · intro idle a step
    cases a with
    | logImpl thread msg => cases step
    | flush thread => cases step
    | step thread =>
      simp only [machine]
      cases there : s.calls[thread]? with
      | none => rfl
      | some c =>
        obtain rfl := idle c (List.mem_of_getElem? there)
        rfl

/-- No thread waits for ever: from any state on, the calls under way make so many steps at most,
    in whatever order, and when none can be made all of them have returned. -/
theorem calls_return {as bs : List Action}
    (ran : (machine threadNum).run (machine threadNum).initial as = some s)
    (steps : ∀ b ∈ bs, b.isStep = true) (ran' : (machine threadNum).run s bs = some t) :
    bs.length ≤ s.rank ∧
      ((∀ thread, (machine threadNum).next t (.step thread) = none) ↔ ∀ c ∈ t.calls, c = .idle) := by
  have started := ok ⟨as, ran⟩
  obtain ⟨later, bound⟩ := ranked.run_le started steps ran'
  refine ⟨by omega, ?_⟩
  have halted : (machine threadNum).Stuck (fun a => a.isStep = true) t ↔ ∀ c ∈ t.calls, c = .idle :=
    stuck_iff later
  rw [← halted]
  constructor
  · intro halts a step
    cases a with
    | logImpl thread msg => cases step
    | flush thread => cases step
    | step thread => exact halts thread
  · exact fun stuck thread => stuck _ rfl

def contended : List Action := [.logImpl 0 [97], .logImpl 1 [98], .flush 2]

def uncontended : List Action :=
  [.step 1, .step 1, .step 1, .step 2, .step 2, .step 2, .step 0, .step 2, .step 0, .step 2, .step 0,
    .step 2, .step 2]

theorem calls_return_contended : ∃ s t, (machine 3).run (machine 3).initial contended = some s ∧
    (machine 3).run s uncontended = some t ∧ uncontended.length ≤ s.rank ∧
      ∀ thread, (machine 3).next t (.step thread) = none := by
  have ran : (machine 3).run (machine 3).initial contended = some _ := rfl
  refine ⟨_, _, ran, rfl, ?_⟩
  obtain ⟨bound, returned⟩ := calls_return ran (by decide : ∀ b ∈ uncontended, b.isStep = true) rfl
  exact ⟨bound, returned.mpr (by decide)⟩

end LogThreads

end BoostBase
