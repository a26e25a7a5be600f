import BoostBase.Coroutine.CoroutineTaskRuns
import BoostBase.Transition.Cascade

namespace BoostBase.CoroutineTask

open Asio Transition

def canceled : Option Exception := some (.systemError .operationCanceled)

/-- A task of a chain on its own strand; its `co_start` goes by the name 0. `emissions` are the
    emissions of its signal in the strand, `cancelled` tells that one has reached `run`. -/
structure Link where
  life : Lifecycle Nat
  emissions : Nat
  cancelled : Bool

abbrev Chain : Type := Nat → Link

namespace Chain

def inRun : Link where
  life := ⟨⟨.running, some 0⟩, Function.update (fun _ => none) 0 (some .inRun), [.runEntered 0]⟩
  emissions := 0
  cancelled := false

def setLife (c : Chain) (i : Nat) (life : Lifecycle Nat) : Chain :=
  Function.update c i { c i with life := life }

/-- `TSCancellationSignal::emit`: the emission goes into the strand of the signal. -/
def emit (c : Chain) (i : Nat) : Chain :=
  Function.update c i { c i with emissions := (c i).emissions + 1 }

/-- An emission runs in the strand of its task. It cancels the coroutine that executes `run`;
    where that waits for the next task, its cancellation slot emits the signal of the next. -/
def runEmission (n : Nat) (c : Chain) (i : Nat) : Chain :=
  let l := { c i with emissions := (c i).emissions - 1 }
  if (c i).life.body 0 = some .inRun then
    let c := Function.update c i { l with cancelled := true }
    if i < n then emit c (i + 1) else c
  else Function.update c i l

/-- How what `run` of a task awaits has ended: the `co_start` of the next task, or the operation
    of the last one, which ends when it is cancelled. -/
def awaited (n : Nat) (c : Chain) (i : Nat) : Option (Option Exception) :=
  if i < n then
    match (c (i + 1)).life.body 0 with
    | some (.startEnded e) => some e
    | _ => none
  else if (c i).cancelled then some canceled else none

/-- What the strands run, in any order, and `stop` from outside: `j` is the name of a `co_stop`
    body. -/
inductive Action
  | stop (i j : Nat)
  | begin (i j : Nat)
  | onStopEnds (i j : Nat)
  | emission (i : Nat)
  | resume (i handler : Nat)
  | unwind (i : Nat)
  deriving DecidableEq

def Action.strand : Action → Option Nat
  | .stop _ _ => none
  | .begin i _ | .onStopEnds i _ | .emission i | .resume i _ | .unwind i => some i

def next (n : Nat) (c : Chain) : Action → Option Chain
  | .stop i j => (lifecycle.next (c i).life (.coStop j)).map (c.setLife i)
  | .begin i j => (lifecycle.next (c i).life (.begin j)).map (c.setLife i)
  | .onStopEnds i j =>
    (lifecycle.next (c i).life (.onStopEnds j)).map fun life =>
      if (c i).life.task.cancellation.isSome then (c.setLife i life).emit i else c.setLife i life
  | .emission i => if 0 < (c i).emissions then some (c.runEmission n i) else none
  | .resume i handler =>
    match c.awaited n i with
    | none => none
    | some e => (lifecycle.next (c i).life (.runEnds 0 e handler)).map (c.setLife i)
  | .unwind i => (lifecycle.next (c i).life (.unwind 0)).map (c.setLife i)

/-- A chain of tasks 0 to `n` in which the last one waits for its operation. -/
def machine (n : Nat) : Machine Chain Action where
  initial := fun _ => inRun
  next c a := next n c a

end Chain

def Body.ofStop : Body → Bool
  | .stopSpawned | .inOnStop | .stopEnded => true
  | _ => false

def Body.isOver : Body → Bool
  | .startEnded _ | .stopEnded => true
  | _ => false

section Stopping

variable {ι : Type} [DecidableEq ι] {s t : Lifecycle ι}

def Halted (s : Lifecycle ι) : Prop :=
  ∀ i, s.body i = some .inOnStop ∨ s.body i = some .stopEnded → s.task.state = .stopped

theorem halted_setBody {i : ι} {b : Body} (halted : Halted s)
    (other : b ≠ .inOnStop ∧ b ≠ .stopEnded) : Halted (s.setBody i b) := by
  intro j begun
  by_cases same : j = i
  · subst same
    simp [other] at begun
  · rw [Lifecycle.setBody_other s b same] at begun
    exact halted j begun

theorem halted_next {a : Segment ι} (halted : Halted s) (taken : lifecycle.next s a = some t) :
    Halted t := by
  cases next_effect taken with
  | spawned a i b spawns fresh =>
    refine halted_setBody halted ?_
    rcases spawns with rfl | rfl <;> simp
  | rejected i spawned late => exact halted_setBody halted (by simp)
  | entered i spawned fresh =>
    intro j begun
    have before : s.body j = some .inOnStop ∨ s.body j = some .stopEnded := by
      by_cases same : j = i
      · subst same
        simp at begun
      · simpa [Lifecycle.setBody, same] using begun
    have stopped := halted j before
    rw [fresh] at stopped
    cases stopped
  | stopLate i spawned late => exact fun _ _ => late
  | stopFirst i spawned first => exact fun _ _ => rfl
  | runEnded i j e running => exact halted_setBody halted (by simp)
  | runCanceled i j e running fresh => exact halted_setBody (halted_setBody halted (by simp)) (by simp)
  | unwound i e caught =>
    have stays : Halted ({ s with task := s.task.leave } : Lifecycle ι) := by
      intro j begun
      change s.task.leave.state = .stopped
      rw [leave_state, if_pos (halted j begun)]
    exact halted_setBody stays (by simp)
  | onStopEnded i stopping => exact fun _ _ => halted i (.inl stopping)

theorem halted (reached : lifecycle.Reachable s) : Halted s :=
  reached.invariant (fun _ begun => by simp [lifecycle] at begun) fun _ _ _ => halted_next

theorem next_ofStop {a : Segment ι} (taken : lifecycle.next s a = some t) {j : ι} {b : Body}
    (body : s.body j = some b) (stop : b.ofStop = true) :
    ∃ b', t.body j = some b' ∧ b'.ofStop = true := by
  have elsewhere {i : ι} {u : Lifecycle ι} {b' : Body} (same : u.body j = s.body j) (other : j ≠ i) :
      ∃ b'', (u.setBody i b').body j = some b'' ∧ b''.ofStop = true :=
    ⟨b, (Lifecycle.setBody_other u b' other).trans (same.trans body), stop⟩
  have moved {i : ι} {u : Lifecycle ι} {b' : Body} (same : u.body j = s.body j) (still : b'.ofStop = true) :
      ∃ b'', (u.setBody i b').body j = some b'' ∧ b''.ofStop = true := by
    by_cases here : j = i
    · subst here
      exact ⟨b', Lifecycle.setBody_self .., still⟩
    · exact elsewhere same here
  have apart {i : ι} {b' : Body} (other : s.body i = some b') (start : b'.ofStop = false) : j ≠ i := by
    rintro rfl
    rw [body] at other
    cases other
    rw [stop] at start
    cases start
  cases next_effect taken with
  | spawned a i b' spawns fresh =>
    refine elsewhere rfl ?_
    rintro rfl
    rw [body] at fresh
    cases fresh
  | rejected i spawned | entered i spawned => exact elsewhere rfl (apart spawned rfl)
  | stopLate i | stopFirst i | onStopEnded i => exact moved rfl rfl
  | runEnded i k e running => exact elsewhere rfl (apart running rfl)
  | runCanceled i k e running =>
    have first := apart running rfl
    exact moved (Lifecycle.setBody_other s _ first) rfl
  | unwound i e caught => exact elsewhere rfl (apart caught rfl)

theorem setBody_named {s : Lifecycle Nat} {m : Nat} (free : ∀ j, m ≤ j → s.body j = none) (i : Nat)
    (b : Body) : ∀ j, max m (i + 1) ≤ j → (s.setBody i b).body j = none := by
  intro j late
  have other : j ≠ i := by omega
  rw [Lifecycle.setBody_other s b other]
  exact free j (by omega)

theorem next_named {s t : Lifecycle Nat} {a : Segment Nat} {m : Nat}
    (taken : lifecycle.next s a = some t) (free : ∀ j, m ≤ j → s.body j = none) :
    ∃ m, ∀ j, m ≤ j → t.body j = none := by
  cases next_effect taken with
  | spawned | rejected | stopLate | runEnded | onStopEnded => exact ⟨_, setBody_named free _ _⟩
  | entered i => exact ⟨_, setBody_named (s := { s with task := _ }) free i .inRun⟩
  | stopFirst i => exact ⟨_, setBody_named (s := { s with task := _ }) free i .inOnStop⟩
  | runCanceled i j e => exact ⟨_, setBody_named (setBody_named free i (.caught e)) j .stopSpawned⟩
  | unwound i e => exact ⟨_, setBody_named (s := { s with task := _ }) free i (.startEnded e)⟩

theorem stopped_once (reached : lifecycle.Reachable s) {j : ι} (ended : s.body j = some .stopEnded)
    (rest : ∀ i, s.body i ≠ some .inOnStop) :
    s.task.state = .stopped ∧ (onStops s.log).length = 1 ∧ (fires s.log).length = 1 := by
  have stopped := halted reached j (.inr ended)
  refine ⟨stopped, ?_⟩
  cases (ledger reached).stops with
  | none unstopped => exact absurd stopped unstopped
  | inOnStop i _ body => exact absurd body (rest i)
  | ended i _ entered _ _ fired => simp [entered, fired]

end Stopping

namespace Chain

/-- What a link of a chain keeps: its `run` ends with `operation_canceled` only and stops the
    task then, and a stop that has emitted its signal has reached `run` or is about to. -/
structure LinkOk (l : Link) : Prop where
  reached : lifecycle.Reachable l.life
  signal : l.life.task.cancellation = some 0
  unspawned : ∀ j, l.life.body j ≠ some .startSpawned
  place : l.life.body 0 = some .inRun ∨ l.life.body 0 = some (.caught canceled) ∨
    l.life.body 0 = some (.startEnded canceled)
  handled : l.life.body 0 ≠ some .inRun → ∃ j b, l.life.body j = some b ∧ b.ofStop = true
  told : l.life.body 0 = some .inRun → fires l.life.log ≠ [] → 0 < l.emissions ∨ l.cancelled = true

variable {n i j : Nat} {c d : Chain} {l : Link} {t : Lifecycle Nat}

theorem inRun_ok : LinkOk inRun := by
  refine ⟨⟨[.coStart 0, .begin 0], ?_⟩, rfl, fun j => ?_, .inl rfl, fun other => absurd rfl other,
    fun _ fired => absurd rfl fired⟩
  · simp [Machine.run_cons_eq, lifecycle, Lifecycle.spawn, Lifecycle.begin, Lifecycle.setBody,
      Lifecycle.record, enter, new, inRun]
  · by_cases own : j = 0
    · simp [inRun, own]
    · simp [inRun, own]

structure Aside (s t : Lifecycle Nat) : Prop where
  signal : t.task.cancellation = s.task.cancellation
  own : t.body 0 = s.body 0
  unspawned : ∀ j, t.body j = some .startSpawned → s.body j = some .startSpawned

theorem aside_setBody {s : Lifecycle Nat} {b : Body} (other : j ≠ 0) (stop : b.ofStop = true)
    (signal : t.task.cancellation = s.task.cancellation) (body : t.body = (s.setBody j b).body) :
    Aside s t := by
  refine ⟨signal, ?_, fun k spawned => ?_⟩
  · rw [body]
    exact Lifecycle.setBody_other s b (Ne.symm other)
  · rw [body] at spawned
    by_cases same : k = j
    · subst same
      rw [Lifecycle.setBody_self] at spawned
      cases spawned
      cases stop
    · rwa [Lifecycle.setBody_other s b same] at spawned

theorem LinkOk.aside (ok : LinkOk l) {a : Segment Nat} (taken : lifecycle.next l.life a = some t)
    (aside : Aside l.life t) {m : Nat} (more : l.emissions ≤ m)
    (fired : fires t.log = fires l.life.log ∨ 0 < m) : LinkOk ⟨t, m, l.cancelled⟩ := by
  refine ⟨ok.reached.step taken, aside.signal.trans ok.signal,
    fun j spawned => ok.unspawned j (aside.unspawned j spawned), ?_, fun gone => ?_, fun live fires_ => ?_⟩
  · rw [aside.own]
    exact ok.place
  · rw [aside.own] at gone
    obtain ⟨j, b, before, kind⟩ := ok.handled gone
    obtain ⟨b', after, still⟩ := next_ofStop taken before kind
    exact ⟨j, b', after, still⟩
  · rcases fired with same | waits
    · rw [aside.own] at live
      rw [same] at fires_
      exact (ok.told live fires_).imp_left fun waits => Nat.lt_of_lt_of_le waits more
    · exact .inl waits

theorem LinkOk.own_some (ok : LinkOk l) : l.life.body 0 ≠ none := by
  rcases ok.place with place | place | place <;> simp [place]

theorem LinkOk.other (ok : LinkOk l) {b : Body} (body : l.life.body j = some b) (stop : b.ofStop = true) :
    j ≠ 0 := by
  rintro rfl
  rcases ok.place with place | place | place
  all_goals
    rw [place] at body
    cases body
    cases stop

theorem stop_aside (ok : LinkOk l) (taken : lifecycle.next l.life (.coStop j) = some t) :
    Aside l.life t ∧ fires t.log = fires l.life.log := by
  simp only [lifecycle, Lifecycle.spawn, Option.ite_none_right_eq_some, Option.some.injEq] at taken
  obtain ⟨fresh, rfl⟩ := taken
  refine ⟨aside_setBody (j := j) (b := .stopSpawned) ?_ rfl rfl rfl, rfl⟩
  rintro rfl
  exact ok.own_some fresh

theorem begin_aside (ok : LinkOk l) (taken : lifecycle.next l.life (.begin j) = some t) :
    Aside l.life t ∧ fires t.log = fires l.life.log := by
  simp only [lifecycle, Lifecycle.begin] at taken
  split at taken
  · rename_i spawned
    exact absurd spawned (ok.unspawned j)
  · rename_i spawned
    have other := ok.other spawned rfl
    split at taken
    · cases taken
      refine ⟨aside_setBody (j := j) (b := .stopEnded) other rfl rfl rfl, ?_⟩
      rw [Lifecycle.record_log, fires_append]
      exact List.append_nil _
    · rename_i task entry
      obtain ⟨_, rfl⟩ := stopEntry_some.mp entry
      cases taken
      refine ⟨aside_setBody (j := j) (b := .inOnStop) other rfl rfl rfl, ?_⟩
      rw [Lifecycle.record_log, fires_append]
      exact List.append_nil _
  · cases taken

theorem onStopEnds_aside (ok : LinkOk l) (taken : lifecycle.next l.life (.onStopEnds j) = some t) :
    Aside l.life t := by
  simp only [lifecycle, Lifecycle.onStopEnds, Option.ite_none_right_eq_some, Option.some.injEq] at taken
  obtain ⟨stopping, rfl⟩ := taken
  exact aside_setBody (j := j) (b := .stopEnded) (ok.other stopping rfl) rfl rfl rfl

theorem resume_link (ok : LinkOk l) {handler : Nat}
    (taken : lifecycle.next l.life (.runEnds 0 canceled handler) = some t) :
    l.life.body 0 = some .inRun ∧ t.body 0 = some (.caught canceled) ∧
      LinkOk ⟨t, l.emissions, l.cancelled⟩ := by
  have step := taken
  simp only [lifecycle, Lifecycle.runEnds, Option.ite_none_right_eq_some] at taken
  obtain ⟨running, spawned⟩ := taken
  have stops : canceled.any Exception.canceled = true := rfl
  rw [if_pos stops] at spawned
  simp only [Lifecycle.spawn, Option.ite_none_right_eq_some, Option.some.injEq] at spawned
  obtain ⟨fresh, rfl⟩ := spawned
  have other : handler ≠ 0 := by
    rintro rfl
    rw [Lifecycle.setBody_self] at fresh
    cases fresh
  have own : ((l.life.setBody 0 (.caught canceled)).setBody handler .stopSpawned).body 0 =
      some (.caught canceled) := by
    rw [Lifecycle.setBody_other _ _ (Ne.symm other), Lifecycle.setBody_self]
  refine ⟨running, own, ok.reached.step step, ok.signal, fun k spawned => ?_, .inr (.inl own),
    fun _ => ⟨handler, .stopSpawned, Lifecycle.setBody_self .., rfl⟩, fun live => ?_⟩
  · by_cases same : k = handler
    · subst same
      rw [Lifecycle.setBody_self] at spawned
      cases spawned
    · rw [Lifecycle.setBody_other _ _ same] at spawned
      by_cases zero : k = 0
      · subst zero
        rw [Lifecycle.setBody_self] at spawned
        cases spawned
      · rw [Lifecycle.setBody_other _ _ zero] at spawned
        exact ok.unspawned k spawned
  · rw [own] at live
    cases live

theorem unwind_link (ok : LinkOk l) (taken : lifecycle.next l.life (.unwind 0) = some t) :
    l.life.body 0 = some (.caught canceled) ∧ t.body 0 = some (.startEnded canceled) ∧
      LinkOk ⟨t, l.emissions, l.cancelled⟩ := by
  have step := taken
  simp only [lifecycle, Lifecycle.unwind] at taken
  split at taken
  · rename_i e caught
    cases taken
    obtain rfl : e = canceled := by
      rcases ok.place with place | place | place <;> simp_all
    have own : ((⟨l.life.task.leave, l.life.body, l.life.log⟩ : Lifecycle Nat).setBody 0
        (.startEnded canceled)).body 0 = some (.startEnded canceled) := Lifecycle.setBody_self ..
    refine ⟨caught, own, ok.reached.step step, (leave_cancellation _).trans ok.signal, fun k spawned => ?_,
      .inr (.inr own), fun _ => ?_, fun live => ?_⟩
    · by_cases zero : k = 0
      · subst zero
        rw [own] at spawned
        cases spawned
      · rw [Lifecycle.setBody_other _ _ zero] at spawned
        exact ok.unspawned k spawned
    · obtain ⟨j, b, before, kind⟩ := ok.handled (by simp [caught])
      obtain ⟨b', after, still⟩ := next_ofStop step before kind
      exact ⟨j, b', after, still⟩
    · rw [own] at live
      cases live
  · cases taken

def Live (c : Chain) (i : Nat) : Prop := (c i).life.body 0 = some .inRun

def Ended (c : Chain) (i : Nat) : Prop := (c i).life.body 0 = some (.startEnded canceled)

def Waits (c : Chain) (i : Nat) : Prop := 0 < (c i).emissions

def Marked (c : Chain) (i : Nat) : Prop := (c i).cancelled = true

structure ChainOk (n : Nat) (c : Chain) : Prop where
  links : ∀ i, LinkOk (c i)
  cascade : Cascade n (Live c) (Ended c) (Waits c) (Marked c)
  bottom : ¬ Live c n → Marked c n

theorem update_links (ok : ∀ k, LinkOk (c k)) (link : LinkOk l) (k : Nat) :
    LinkOk (Function.update c i l k) := by
  by_cases here : k = i
  · subst here
    rwa [Function.update_self]
  · rw [Function.update_of_ne here]
    exact ok k

theorem beside_ok (ok : ChainOk n c) (link : LinkOk l) (own : l.life.body 0 = (c i).life.body 0)
    (more : (c i).emissions ≤ l.emissions) (mark : l.cancelled = (c i).cancelled) :
    ChainOk n (Function.update c i l) := by
  have pointwise {P : Link → Prop} (same : P l ↔ P (c i)) (k : Nat) :
      P (Function.update c i l k) ↔ P (c k) := by
    by_cases here : k = i
    · subst here
      rwa [Function.update_self]
    · rw [Function.update_of_ne here]
  have lives := pointwise (P := fun l => l.life.body 0 = some .inRun) (by rw [own])
  have marks := pointwise (P := fun l => l.cancelled = true) (by rw [mark])
  refine ⟨update_links ok.links link, ok.cascade.mono lives
    (pointwise (P := fun l => l.life.body 0 = some (.startEnded canceled)) (by rw [own])) ?_ marks, ?_⟩
  · intro k waits
    unfold Waits at waits ⊢
    by_cases here : k = i
    · subst here
      rw [Function.update_self]
      omega
    · rwa [Function.update_of_ne here]
  · exact fun gone => (marks n).mpr (ok.bottom (mt (lives n).mpr gone))

theorem aside_ok (ok : ChainOk n c) {a : Segment Nat} (step : lifecycle.next (c i).life a = some t)
    (aside : Aside (c i).life t) (same : fires t.log = fires (c i).life.log) :
    ChainOk n (c.setLife i t) := by
  have link := (ok.links i).aside step aside (Nat.le_refl _) (.inl same)
  exact beside_ok ok link aside.own (Nat.le_refl _) rfl

theorem runEmission_spec (n : Nat) (c : Chain) (i k : Nat) :
    (c.runEmission n i k).life = (c k).life ∧
      ((c.runEmission n i k).cancelled = true ↔ Marked c k ∨ k = i ∧ Live c i) ∧
      (k ≠ i → (c k).emissions ≤ (c.runEmission n i k).emissions) ∧
      (k = i + 1 → i < n → Live c i → 0 < (c.runEmission n i k).emissions) := by
  unfold runEmission Marked Live
  by_cases live : (c i).life.body 0 = some .inRun
  · rw [if_pos live]
    by_cases inside : i < n
    · simp only [if_pos inside, emit]
      by_cases here : k = i
      · subst here
        simp [live]
      · by_cases next : k = i + 1
        · subst next
          simp
        · simp [here, next]
    · simp only [if_neg inside]
      by_cases here : k = i
      · subst here
        simp [live]
      · simp [here, inside]
  · rw [if_neg live]
    by_cases here : k = i
    · subst here
      simp [live]
    · simp [here, live]

theorem emission_ok (ok : ChainOk n c) : ChainOk n (c.runEmission n i) := by
  have spec := runEmission_spec n c i
  have lives (k : Nat) : Live (c.runEmission n i) k ↔ Live c k := by
    unfold Live
    rw [(spec k).1]
  have ends (k : Nat) : Ended (c.runEmission n i) k ↔ Ended c k := by
    unfold Ended
    rw [(spec k).1]
  refine ⟨fun k => ?_, ?_, fun gone => (spec n).2.1.mpr (.inl (ok.bottom (mt (lives n).mpr gone)))⟩
  · have link := ok.links k
    obtain ⟨same, marks, waits, _⟩ := spec k
    refine ⟨same ▸ link.reached, same ▸ link.signal, same ▸ link.unspawned, same ▸ link.place,
      same ▸ link.handled, fun live fired => ?_⟩
    rw [same] at live fired
    by_cases here : k = i
    · exact .inr (marks.mpr (.inr ⟨here, here ▸ live⟩))
    · refine (link.told live fired).imp (fun pending => ?_) fun mark => marks.mpr (.inl mark)
      exact Nat.lt_of_lt_of_le pending (waits here)
  · refine ok.cascade.arrives (i := i) lives ends (fun k other pending => ?_) (fun k => (spec k).2.1) ?_
    · exact Nat.lt_of_lt_of_le pending ((spec k).2.2.1 other)
    · exact (spec (i + 1)).2.2.2 rfl

theorem setLife_spec (c : Chain) (i : Nat) (t : Lifecycle Nat) (k : Nat) :
    (c.setLife i t k).life = (if k = i then t else (c k).life) ∧
      (c.setLife i t k).emissions = (c k).emissions ∧ (c.setLife i t k).cancelled = (c k).cancelled := by
  unfold setLife
  by_cases here : k = i
  · subst here
    simp
  · simp [here]

theorem own_ok (ok : ChainOk n c) {body : Body} (own : t.body 0 = some body)
    (link : LinkOk ⟨t, (c i).emissions, (c i).cancelled⟩)
    (moves : body = .caught canceled ∧ Live c i ∧ (i < n → Ended c (i + 1)) ∧ (¬ i < n → Marked c i) ∨
      body = .startEnded canceled ∧ ¬ Live c i) : ChainOk n (c.setLife i t) := by
  have spec := setLife_spec c i t
  have at_ (b : Body) (k : Nat) : (c.setLife i t k).life.body 0 = some b ↔
      k ≠ i ∧ (c k).life.body 0 = some b ∨ k = i ∧ body = b := by
    rw [(spec k).1]
    by_cases here : k = i
    · simp [here, own]
    · simp [here]
  have waits (k : Nat) (pending : Waits c k) : Waits (c.setLife i t) k :=
    Nat.lt_of_lt_of_le pending (Nat.le_of_eq (spec k).2.1.symm)
  have marks (k : Nat) : Marked (c.setLife i t) k ↔ Marked c k := by
    unfold Marked
    rw [(spec k).2.2]
  have links : ∀ k, LinkOk (c.setLife i t k) := update_links ok.links link
  rcases moves with ⟨rfl, live, returned, mark⟩ | ⟨rfl, gone⟩
  · have lives (k : Nat) : Live (c.setLife i t) k ↔ Live c k ∧ k ≠ i :=
      (at_ .inRun k).trans (by simp [Live, and_comm])
    have ends (k : Nat) : Ended (c.setLife i t) k ↔ Ended c k := by
      refine (at_ (.startEnded canceled) k).trans ?_
      simp only [reduceCtorEq, and_false, or_false]
      refine and_iff_right_of_imp fun ended here => ?_
      exact ok.cascade.apart i (here ▸ ended) live
    refine ⟨links, ok.cascade.leaves lives ends waits marks returned, fun over_ => (marks n).mpr ?_⟩
    by_cases here : n = i
    · exact here ▸ mark (by omega)
    · exact ok.bottom fun before => over_ ((lives n).mpr ⟨before, here⟩)
  · have lives (k : Nat) : Live (c.setLife i t) k ↔ Live c k := by
      refine (at_ .inRun k).trans ?_
      simp only [reduceCtorEq, and_false, or_false]
      refine and_iff_right_of_imp fun before here => ?_
      exact gone (here ▸ before)
    have ends (k : Nat) : Ended (c.setLife i t) k ↔ Ended c k ∨ k = i := by
      refine (at_ (.startEnded canceled) k).trans ?_
      simp only [and_true]
      by_cases here : k = i <;> simp [here, Ended]
    exact ⟨links, ok.cascade.ends gone lives ends waits marks,
      fun over_ => (marks n).mpr (ok.bottom (mt (lives n).mpr over_))⟩

theorem resume_ok (ok : ChainOk n c) {e : Option Exception} {handler : Nat}
    (ended : c.awaited n i = some e) (taken : lifecycle.next (c i).life (.runEnds 0 e handler) = some t) :
    ChainOk n (c.setLife i t) := by
  have known : e = canceled ∧ (i < n → Ended c (i + 1)) ∧ (¬ i < n → Marked c i) := by
    unfold awaited at ended
    by_cases inside : i < n
    · rw [if_pos inside] at ended
      split at ended
      · rename_i f over_
        cases ended
        obtain rfl : e = canceled := by
          rcases (ok.links (i + 1)).place with place | place | place <;> simp_all
        exact ⟨rfl, fun _ => over_, fun outside => absurd inside outside⟩
      · cases ended
    · rw [if_neg inside] at ended
      simp only [Option.ite_none_right_eq_some, Option.some.injEq] at ended
      exact ⟨ended.2.symm, fun inside_ => absurd inside_ inside, fun _ => ended.1⟩
  obtain ⟨rfl, returned, mark⟩ := known
  obtain ⟨live, own, link⟩ := resume_link (ok.links i) taken
  exact own_ok ok own link (.inl ⟨rfl, live, returned, mark⟩)

theorem unwind_ok (ok : ChainOk n c) (taken : lifecycle.next (c i).life (.unwind 0) = some t) :
    ChainOk n (c.setLife i t) := by
  obtain ⟨caught, own, link⟩ := unwind_link (ok.links i) taken
  refine own_ok ok own link (.inr ⟨rfl, fun live => ?_⟩)
  rw [live] at caught
  cases caught

theorem ok_next {a : Action} (ok : ChainOk n c) (taken : (machine n).next c a = some d) :
    ChainOk n d := by
  cases a with
  | stop i j =>
    simp only [machine, next, Option.map_eq_some_iff] at taken
    obtain ⟨t, step, rfl⟩ := taken
    obtain ⟨aside, same⟩ := stop_aside (ok.links i) step
    exact aside_ok ok step aside same
  | begin i j =>
    simp only [machine, next, Option.map_eq_some_iff] at taken
    obtain ⟨t, step, rfl⟩ := taken
    obtain ⟨aside, same⟩ := begin_aside (ok.links i) step
    exact aside_ok ok step aside same
  | onStopEnds i j =>
    simp only [machine, next, Option.map_eq_some_iff] at taken
    obtain ⟨t, step, rfl⟩ := taken
    have aside := onStopEnds_aside (ok.links i) step
    rw [if_pos (by rw [(ok.links i).signal]; rfl)]
    have link := (ok.links i).aside step aside (m := (c i).emissions + 1) (Nat.le_succ _)
      (.inr (Nat.succ_pos _))
    simpa [emit, setLife] using beside_ok ok link aside.own (Nat.le_succ _) rfl
  | emission i =>
    simp only [machine, next, Option.ite_none_right_eq_some, Option.some.injEq] at taken
    obtain ⟨_, rfl⟩ := taken
    exact emission_ok ok
  | resume i handler =>
    simp only [machine, next] at taken
    split at taken
    · cases taken
    · rename_i e ended
      simp only [Option.map_eq_some_iff] at taken
      obtain ⟨t, step, rfl⟩ := taken
      exact resume_ok ok ended step
  | unwind i =>
    simp only [machine, next, Option.map_eq_some_iff] at taken
    obtain ⟨t, step, rfl⟩ := taken
    exact unwind_ok ok step

theorem chainOk {as : List Action} (ran : (machine n).run (machine n).initial as = some c) : ChainOk n c := by
  refine Machine.Reachable.invariant (I := ChainOk n) ?_ (fun _ _ _ ok taken => ok_next ok taken) ⟨as, ran⟩
  have live (i : Nat) : Live (machine n).initial i := rfl
  refine ⟨fun _ => inRun_ok, .start live (fun _ marked => by cases marked) (fun i ended => ?_),
    fun gone => absurd (live n) gone⟩
  have both := (live i).symm.trans ended
  cases both

/-- Nothing is left in the strands of tasks 0 to `n`, and no `run` of theirs has anything to go
    on with. -/
structure Quiescent (n : Nat) (c : Chain) : Prop where
  emissions : ∀ i, i ≤ n → (c i).emissions = 0
  begun : ∀ i, i ≤ n → ∀ j, (c i).life.body j ≠ some .startSpawned ∧ (c i).life.body j ≠ some .stopSpawned
  stopping : ∀ i, i ≤ n → ∀ j, (c i).life.body j ≠ some .inOnStop
  unwound : ∀ i, i ≤ n → ∀ e, (c i).life.body 0 ≠ some (.caught e)
  waiting : ∀ i, i ≤ n → Live c i → c.awaited n i = none

theorem Quiescent.settles (rest : Quiescent n c) (ok : ChainOk n c) :
    Settles n (Live c) (Ended c) (Waits c) (Marked c) := by
  refine ⟨fun i inside waits => ?_, fun i inside gone => ?_, fun i inside live ended => ?_,
    fun live marked => ?_⟩
  · unfold Waits at waits
    rw [rest.emissions i inside] at waits
    exact Nat.lt_irrefl 0 waits
  · rcases (ok.links i).place with live | caught | ended
    · exact absurd live gone
    · exact absurd caught (rest.unwound i inside canceled)
    · exact ended
  · have waits := rest.waiting i (Nat.le_of_lt inside) live
    unfold Ended at ended
    unfold awaited at waits
    rw [if_pos inside, ended] at waits
    cases waits
  · have waits := rest.waiting n (Nat.le_refl n) live
    unfold Marked at marked
    unfold awaited at waits
    rw [if_neg (Nat.lt_irrefl n), if_pos marked] at waits
    cases waits

theorem Quiescent.stopped (rest : Quiescent n c) (ok : ChainOk n c) (inside : i ≤ n) {b : Body}
    (body : (c i).life.body j = some b) (stop : b.ofStop = true) :
    (c i).life.task.state = .stopped ∧ (onStops (c i).life.log).length = 1 ∧
      (fires (c i).life.log).length = 1 := by
  have ended : (c i).life.body j = some .stopEnded := by
    cases b with
    | stopEnded => exact body
    | stopSpawned => exact absurd body (rest.begun i inside j).2
    | inOnStop => exact absurd body (rest.stopping i inside j)
    | startSpawned | inRun | caught | startEnded => cases stop
  exact stopped_once (ok.links i).reached ended (rest.stopping i inside)

theorem next_life {a : Action} (taken : (machine n).next c a = some d) (k : Nat) :
    (d k).life = (c k).life ∨ ∃ segment, lifecycle.next (c k).life segment = some (d k).life := by
  have moved {i : Nat} {t : Lifecycle Nat} {segment : Segment Nat}
      (step : lifecycle.next (c i).life segment = some t) :
      (c.setLife i t k).life = (c k).life ∨
        ∃ segment, lifecycle.next (c k).life segment = some (c.setLife i t k).life := by
    rw [(setLife_spec c i t k).1]
    by_cases here : k = i
    · subst here
      rw [if_pos rfl]
      exact .inr ⟨segment, step⟩
    · rw [if_neg here]
      exact .inl rfl
  cases a with
  | stop i j | begin i j | unwind i =>
    simp only [machine, next, Option.map_eq_some_iff] at taken
    obtain ⟨t, step, rfl⟩ := taken
    exact moved step
  | onStopEnds i j =>
    simp only [machine, next, Option.map_eq_some_iff] at taken
    obtain ⟨t, step, rfl⟩ := taken
    split
    · have same : ((c.setLife i t).emit i k).life = (c.setLife i t k).life := by
        unfold emit
        by_cases here : k = i
        · subst here
          rw [Function.update_self]
        · rw [Function.update_of_ne here]
      rw [same]
      exact moved step
    · exact moved step
  | emission i =>
    simp only [machine, next, Option.ite_none_right_eq_some, Option.some.injEq] at taken
    obtain ⟨_, rfl⟩ := taken
    exact .inl (runEmission_spec n c i k).1
  | resume i handler =>
    simp only [machine, next] at taken
    split at taken
    · cases taken
    · simp only [Option.map_eq_some_iff] at taken
      obtain ⟨t, step, rfl⟩ := taken
      exact moved step

theorem named {as : List Action} (ran : (machine n).run (machine n).initial as = some c) (i : Nat) :
    ∃ m, ∀ j, m ≤ j → (c i).life.body j = none := by
  refine Machine.Reachable.invariant (I := fun c => ∀ i, ∃ m, ∀ j, m ≤ j → (c i).life.body j = none)
    (fun i => ⟨1, fun j late => ?_⟩) (fun c a d free taken i => ?_) ⟨as, ran⟩ i
  · have other : j ≠ 0 := by omega
    simp [machine, inRun, other]
  · obtain ⟨m, free⟩ := free i
    rcases next_life taken i with same | ⟨segment, step⟩
    · exact ⟨m, same ▸ free⟩
    · exact next_named step free

/-- A chain is at rest if and only if no strand of its tasks can run anything. -/
theorem quiescent_iff {as : List Action} (ran : (machine n).run (machine n).initial as = some c) :
    Quiescent n c ↔ ∀ a i, a.strand = some i → i ≤ n → next n c a = none := by
  constructor
  · intro rest a i own inside
    cases a with
    | stop => cases own
    | begin k j =>
      cases own
      obtain ⟨unstarted, unstopped⟩ := rest.begun i inside j
      simp only [next, Option.map_eq_none_iff, lifecycle, Lifecycle.begin]
    | onStopEnds k j =>
      cases own
      simp only [next, Option.map_eq_none_iff, lifecycle, Lifecycle.onStopEnds]
      exact if_neg (rest.stopping i inside j)
    | emission k =>
      cases own
      simp only [next]
      exact if_neg (by rw [rest.emissions i inside]; exact Nat.lt_irrefl 0)
    | resume k handler =>
      cases own
      simp only [next]
      split
      · rfl
      · rename_i e ended
        have gone : ¬ Live c i := by
          intro live
          rw [rest.waiting i inside live] at ended
          cases ended
        simp only [Option.map_eq_none_iff, lifecycle, Lifecycle.runEnds]
        exact if_neg gone
    | unwind k =>
      cases own
      simp only [next, Option.map_eq_none_iff, lifecycle, Lifecycle.unwind]
      split
      · exact absurd ‹_› (rest.unwound i inside _)
      · rfl
  · intro stuck
    refine ⟨fun i inside => ?_, fun i inside j => ⟨fun spawned => ?_, fun spawned => ?_⟩,
      fun i inside j stopping => ?_, fun i inside e caught => ?_, fun i inside live => ?_⟩
    · have none_left := stuck (.emission i) i rfl inside
      simp only [next] at none_left
      by_contra some_left
      rw [if_pos (Nat.pos_of_ne_zero some_left)] at none_left
      cases none_left
    · have still := stuck (.begin i j) i rfl inside
      simp only [next, Option.map_eq_none_iff, lifecycle, Lifecycle.begin, spawned] at still
      split at still <;> cases still
    · have still := stuck (.begin i j) i rfl inside
      simp only [next, Option.map_eq_none_iff, lifecycle, Lifecycle.begin, spawned] at still
      split at still <;> cases still
    · have still := stuck (.onStopEnds i j) i rfl inside
      simp only [next, Option.map_eq_none_iff, lifecycle, Lifecycle.onStopEnds, if_pos stopping] at still
      cases still
    · have still := stuck (.unwind i) i rfl inside
      simp only [next, Option.map_eq_none_iff, lifecycle, Lifecycle.unwind, caught] at still
      cases still
    · obtain ⟨m, free⟩ := named ran i
      cases ended : c.awaited n i with
      | none => rfl
      | some e =>
        have still := stuck (.resume i (m + 1)) i rfl inside
        have running : (c i).life.body 0 = some .inRun := live
        have fresh : ((c i).life.setBody 0 (.caught e)).body (m + 1) = none := by
          rw [Lifecycle.setBody_other _ _ (Nat.succ_ne_zero m)]
          exact free (m + 1) (Nat.le_succ m)
        simp only [next, ended, Option.map_eq_none_iff, lifecycle, Lifecycle.runEnds, if_pos running,
          Lifecycle.spawn, if_pos fresh] at still
        split at still <;> cases still

theorem asked_stop {as : List Action} (ran : (machine n).run (machine n).initial as = some c) :
    ∀ i j, .stop i j ∈ as → ∃ b, (c i).life.body j = some b ∧ b.ofStop = true := by
  refine Machine.run_history (m := machine n)
    (fun as c => ∀ i j, .stop i j ∈ as → ∃ b, (c i).life.body j = some b ∧ b.ofStop = true) ?_ ?_ ran
  · exact fun _ _ member => by cases member
  · intro as c a d before taken i j member
    rcases List.mem_append.mp member with earlier | now
    · obtain ⟨b, body, stop⟩ := before i j earlier
      rcases next_life taken i with same | ⟨segment, step⟩
      · exact ⟨b, same ▸ body, stop⟩
      · exact next_ofStop step body stop
    · obtain rfl : Action.stop i j = a := List.mem_singleton.mp now
      simp only [machine, next, Option.map_eq_some_iff] at taken
      obtain ⟨t, step, rfl⟩ := taken
      simp only [lifecycle, Lifecycle.spawn, Option.ite_none_right_eq_some, Option.some.injEq] at step
      obtain ⟨_, rfl⟩ := step
      refine ⟨.stopSpawned, ?_, rfl⟩
      rw [(setLife_spec c i _ i).1, if_pos rfl, Lifecycle.setBody_self]

/-- A chain of tasks of any length whose first task is stopped: at rest the operation of the last
    one was cancelled, every `run` has ended with `operation_canceled`, and every task is stopped,
    having entered `onStop` and fired `m_stopped` once. -/
theorem stopped_all (n : Nat) (as : List Action) (c : Chain)
    (ran : (machine n).run (machine n).initial as = some c) (asked : ∃ j, .stop 0 j ∈ as)
    (rest : Quiescent n c) :
    (c n).cancelled = true ∧ ∀ i, i ≤ n → (c i).life.body 0 = some (.startEnded canceled) ∧
      (c i).life.task.state = .stopped ∧ (onStops (c i).life.log).length = 1 ∧
      (fires (c i).life.log).length = 1 := by
  have ok := chainOk ran
  have root : Live c 0 → Marked c 0 := by
    intro live
    obtain ⟨j, member⟩ := asked
    obtain ⟨b, body, stop⟩ := asked_stop ran 0 j member
    have fired := (rest.stopped ok (Nat.zero_le n) body stop).2.2
    refine ((ok.links 0).told live ?_).resolve_left ?_
    · intro none_fired
      rw [none_fired] at fired
      cases fired
    · rw [rest.emissions 0 (Nat.zero_le n)]
      exact Nat.lt_irrefl 0
  have ended := ok.cascade.ended_all (rest.settles ok) root
  refine ⟨ok.bottom (ok.cascade.apart n (ended n (Nat.le_refl n))), fun i inside => ⟨ended i inside, ?_⟩⟩
  obtain ⟨j, b, body, stop⟩ := (ok.links i).handled (ok.cascade.apart i (ended i inside))
  exact rest.stopped ok inside body stop

theorem quiescent_of_over (drained : ∀ i, i ≤ n → (c i).emissions = 0)
    (over_ : ∀ i, i ≤ n → ∀ j, ((c i).life.body j).all Body.isOver = true) : Quiescent n c := by
  have none_left (i : Nat) (inside : i ≤ n) (j : Nat) (b : Body) (under_way : b.isOver = false) :
      (c i).life.body j ≠ some b := by
    intro body
    have both := over_ i inside j
    rw [body, Option.all_some, under_way] at both
    cases both
  exact ⟨drained, fun i inside j => ⟨none_left i inside j _ rfl, none_left i inside j _ rfl⟩,
    fun i inside j => none_left i inside j _ rfl, fun i inside e => none_left i inside 0 _ rfl,
    fun i inside live => absurd live (none_left i inside 0 _ rfl)⟩

def courseOfTwo : List Action :=
  [.stop 0 1, .begin 0 1, .onStopEnds 0 1, .emission 0, .emission 1, .resume 1 1, .unwind 1,
    .begin 1 1, .onStopEnds 1 1, .emission 1, .resume 0 2, .unwind 0, .begin 0 2]

theorem courseOfTwo_rests :
    ∃ c, (machine 1).run (machine 1).initial courseOfTwo = some c ∧ Quiescent 1 c := by
  have pair {P : Nat → Prop} (first : P 0) (second : P 1) (i : Nat) (inside : i ≤ 1) : P i := by
    obtain rfl | rfl : i = 0 ∨ i = 1 := by omega
    · exact first
    · exact second
  refine ⟨?_, ?ran, quiescent_of_over (pair ?_ ?_) (pair (fun j => ?_) (fun j => ?_))⟩
  case ran =>
    simp [courseOfTwo, Machine.run_cons_eq, machine, next, lifecycle, Lifecycle.spawn,
      Lifecycle.begin, Lifecycle.onStopEnds, Lifecycle.runEnds, Lifecycle.unwind,
      Lifecycle.setBody, Lifecycle.record, setLife, emit, runEmission, stopEntry, awaited, inRun,
      leave, canceled, Exception.canceled]
    rfl
  · rfl
  · rfl
  · rcases j with _ | _ | _ | j
    all_goals rfl
  · rcases j with _ | _ | j
    all_goals rfl

theorem stopped_all_two :
    ∃ c, (machine 1).run (machine 1).initial courseOfTwo = some c ∧ (c 1).cancelled = true ∧
      ∀ i, i ≤ 1 → (c i).life.body 0 = some (.startEnded canceled) ∧
        (c i).life.task.state = .stopped ∧ (onStops (c i).life.log).length = 1 ∧
        (fires (c i).life.log).length = 1 := by
  obtain ⟨c, ran, rest⟩ := courseOfTwo_rests
  exact ⟨c, ran, stopped_all 1 courseOfTwo c ran ⟨1, by decide⟩ rest⟩

end Chain

end BoostBase.CoroutineTask
