import BoostBase.Network.AsyncProxyProviderCancellation
import BoostBase.Network.AsyncProxyProviderMatching
import BoostBase.Transition.Progress
import Mathlib.Algebra.Order.Ring.Nat

namespace BoostBase

open Asio Intrusive Transition

variable {γ ρ κ σ : Type}

/-- More than what running the handler can leave to do. -/
def ProviderHandler.weight : ProviderHandler γ ρ σ → Nat
  | .get _ => 5
  | .started _ _ | .emit _ | .response _ _ => 2
  | .resume _ _ => 1

/-- The `get` whose body the handler goes on with. -/
def ProviderHandler.begins : ProviderHandler γ ρ σ → Option γ
  | .get g | .started g _ => some g
  | .resume _ _ | .emit _ | .response _ _ => none

/-- A cancellation that finds the `get` in `co_wait` ends the wait. -/
def GetFrame.Heard (f : GetFrame σ) : Prop :=
  ∀ request, f.phase = .waiting request → f.cancelled = true →
    request.event.operation () = some ⟨true⟩

namespace AsyncProxyProvider

def weigh (strand : List (ProviderHandler γ ρ σ)) : Nat := (strand.map ProviderHandler.weight).sum

def Action.internal : Action γ ρ σ → Bool
  | .run | .startDone _ _ => true
  | .get _ _ _ | .asyncResponse _ _ | .cancel _ => false

def Spawned (p : AsyncProxyProvider γ ρ κ σ) (g : γ) : Prop :=
  ∃ f, p.frames g = some f ∧ f.phase = .spawned

def Starting (p : AsyncProxyProvider γ ρ κ σ) (g : γ) : Prop :=
  ∃ f request, p.frames g = some f ∧ f.phase = .starting request

variable [DecidableEq γ] {p q : AsyncProxyProvider γ ρ κ σ} {g : γ} {f f' : GetFrame σ}

def rank (p : AsyncProxyProvider γ ρ κ σ) : Nat :=
  weigh p.strand + 3 * p.entered.countP fun e => p.startPending e.1

/-- Every handler has run, and every call of `get` has ended or waits uncancelled for a
    response of its class, given none so far. -/
structure Settled (classify : Option σ → κ) (p : AsyncProxyProvider γ ρ κ σ) : Prop where
  strand : p.strand = []
  calls : ∀ g f, p.frames g = some f →
    f.phase.ended = true ∨ Live p g ∧ Waits classify p (classify f.first) g
  responses : ∀ m ∈ p.served, ∃ f, p.frames m.get = some f ∧ f.phase.ended = true

/-- What a handler leaves to do, for `p` the state it was popped from. -/
structure Executed (p q : AsyncProxyProvider γ ρ κ σ) (handler : ProviderHandler γ ρ σ)
    (posted : List (ProviderHandler γ ρ σ)) (more : List (γ × κ)) : Prop where
  strand : q.strand = p.strand ++ posted
  entered : q.entered = p.entered ++ more
  fresh : ∀ e ∈ more, e.1 ∉ p.entered.map Prod.fst
  cost : weigh posted + 3 * more.length < handler.weight
  quiet : ∀ g result, .started g result ∉ posted
  spawned : ∀ g, Spawned q g → Spawned p g ∧ handler ≠ .get g
  starting : ∀ g, Starting q g →
    Starting p g ∧ (∀ result, handler ≠ .started g result) ∨ g ∈ more.map Prod.fst
  heard : (∀ g f, p.frames g = some f → f.Heard) → ∀ g f, q.frames g = some f → f.Heard

omit [DecidableEq γ] in
theorem weigh_append (before after : List (ProviderHandler γ ρ σ)) :
    weigh (before ++ after) = weigh before + weigh after := by
  simp [weigh]

omit [DecidableEq γ] in
theorem weigh_resumptions (g : γ) (posted : List (AwaitableEvent.Completion Unit)) :
    weigh (resumptions (ρ := ρ) (σ := σ) g posted) = posted.length := by
  simp [weigh, resumptions, Function.comp_def, ProviderHandler.weight]

theorem startPending_iff : p.startPending g = true ↔
    Starting p g ∧ ∀ result, .started g result ∉ p.strand := by
  unfold startPending Starting
  rw [Bool.and_eq_true, List.all_eq_true]
  refine and_congr ?_ ?_
  · cases here : p.frames g with
    | none => simp
    | some f => cases phase : f.phase <;> simp [phase]
  · constructor
    · intro all result queued
      simpa using all _ queued
    · intro none_queued handler member
      cases handler with
      | started h result =>
        have other : h ≠ g := by
          intro same
          subst same
          exact none_queued result member
        simpa using other
      | get _ | resume _ _ | emit _ | response _ _ => rfl

omit [DecidableEq γ] in
theorem executed_nothing (handler : ProviderHandler γ ρ σ) (spawned : ∀ g, handler = .get g → ¬ Spawned p g)
    (starting : ∀ g result, handler = .started g result → ¬ Starting p g) :
    Executed p p handler [] [] where
  strand := (List.append_nil _).symm
  entered := (List.append_nil _).symm
  fresh := by simp
  cost := by cases handler <;> simp [weigh, ProviderHandler.weight]
  quiet := by simp
  spawned g now := ⟨now, fun same => spawned g same now⟩
  starting g now := .inl ⟨now, fun result same => starting g result same now⟩
  heard := id

theorem executed_frame {handler : ProviderHandler γ ρ σ} {more : List (γ × κ)}
    {posted : List (AwaitableEvent.Completion Unit)} (here : p.frames g = some f)
    (frames : q.frames = Function.update p.frames g (some f'))
    (strand : q.strand = p.strand ++ resumptions g posted) (entered : q.entered = p.entered ++ more)
    (fresh : ∀ e ∈ more, e.1 ∉ p.entered.map Prod.fst)
    (cost : posted.length + 3 * more.length < handler.weight)
    (own : ∀ h, handler.begins = some h → h = g)
    (spawned : f'.phase = .spawned → f.phase = .spawned ∧ handler ≠ .get g)
    (starting : ∀ request, f'.phase = .starting request →
      (∃ before, f.phase = .starting before) ∧ (∀ result, handler ≠ .started g result) ∨
        g ∈ more.map Prod.fst)
    (heard : f.Heard → f'.Heard) : Executed p q handler (resumptions g posted) more where
  strand := strand
  entered := entered
  fresh := fresh
  cost := by rwa [weigh_resumptions]
  quiet h result queued := by
    obtain ⟨_, _, same⟩ := List.mem_map.mp queued
    cases same
  spawned h now := by
    obtain ⟨k, there, phase⟩ := now
    rw [frames] at there
    by_cases same : h = g
    · subst same
      simp only [Function.update_self, Option.some.injEq] at there
      subst there
      obtain ⟨before, other⟩ := spawned phase
      exact ⟨⟨f, here, before⟩, other⟩
    · rw [Function.update_of_ne same] at there
      exact ⟨⟨k, there, phase⟩, fun about => same (own h (by rw [about]; rfl))⟩
  starting h now := by
    obtain ⟨k, request, there, phase⟩ := now
    rw [frames] at there
    by_cases same : h = g
    · subst same
      simp only [Function.update_self, Option.some.injEq] at there
      subst there
      refine (starting request phase).imp_left fun both => ?_
      obtain ⟨⟨before, was⟩, other⟩ := both
      exact ⟨⟨f, before, here, was⟩, other⟩
    · rw [Function.update_of_ne same] at there
      exact .inl ⟨⟨k, request, there, phase⟩, fun result about => same (own h (by rw [about]; rfl))⟩
  heard all h k there := by
    rw [frames] at there
    by_cases same : h = g
    · subst same
      simp only [Function.update_self, Option.some.injEq] at there
      subst there
      exact heard (all h f here)
    · rw [Function.update_of_ne same] at there
      exact all h k there

omit [DecidableEq γ] in
theorem coWait_posted (event : AwaitableEvent Unit) : (event.coWait ()).2.length ≤ 1 := by
  cases isSet : event.isSet with
  | true => rw [AwaitableEvent.coWait_of_set () isSet]; exact Nat.le_refl 1
  | false => rw [AwaitableEvent.coWait_of_unset () isSet]; exact Nat.zero_le 1

omit [DecidableEq γ] in
theorem set_posted {event : AwaitableEvent Unit} (wf : event.WellFormed) : event.set.2.length ≤ 1 := by
  rw [AwaitableEvent.set_posted wf, List.length_map]
  cases nodes : event.operations.nodes with
  | nil => exact Nat.zero_le 1
  | cons i rest =>
    have single := unit_nodes event.operations.nodup (by simp [nodes])
    simp [← nodes, single]

omit [DecidableEq γ] in
theorem cancel_waits {event : AwaitableEvent Unit} {cancelled : Bool} {codes : List ErrorCode}
    (wf : event.WellFormed) (waits : WaitOk event cancelled codes) :
    (event.cancel ()).2.length ≤ 1 ∧ (event.cancel ()).1.operation () = some ⟨true⟩ := by
  rcases waits with ⟨pending, _⟩ | ⟨finished, _⟩
  · rw [AwaitableEvent.cancel_waiting wf pending]
    simp
  · rw [AwaitableEvent.cancel_idle (by simp [finished])]
    exact ⟨Nat.zero_le 1, finished⟩

theorem finish_executed {handler : ProviderHandler γ ρ σ} (here : p.frames g = some f)
    {outcome : GetPhase σ} (ended : outcome.ended = true)
    (own : ∀ h, handler.begins = some h → h = g) :
    Executed p (p.finish g f' outcome) handler [] [] := by
  change Executed p _ handler (resumptions g []) []
  refine executed_frame here rfl
    (List.append_nil _).symm (List.append_nil _).symm (by simp) ?_ own ?_ ?_ ?_
  · cases handler <;> simp [ProviderHandler.weight]
  · intro spawned
    simp only at spawned
    simp [spawned, GetPhase.ended] at ended
  · intro request starting
    simp only at starting
    simp [starting, GetPhase.ended] at ended
  · intro _ request waiting
    simp only at waiting
    simp [waiting, GetPhase.ended] at ended

theorem afterStart_frame (p : AsyncProxyProvider γ ρ κ σ) (f : GetFrame σ) (request : TRequest σ)
    (result : StartResult) :
    ∃ f' posted, (p.afterStart g f request result).frames = Function.update p.frames g (some f') ∧
      (p.afterStart g f request result).strand = p.strand ++ resumptions g posted ∧
      (p.afterStart g f request result).entered = p.entered ∧ posted.length ≤ 1 ∧
      f'.phase ≠ .spawned ∧ (∀ r, f'.phase ≠ .starting r) ∧ f'.Heard := by
  have fails (e : Exception) :
      ∃ f' posted, (p.finish g { f with started := some result } (.threw e)).frames =
          Function.update p.frames g (some f') ∧
        (p.finish g { f with started := some result } (.threw e)).strand =
          p.strand ++ resumptions g posted ∧
        (p.finish g { f with started := some result } (.threw e)).entered = p.entered ∧
        posted.length ≤ 1 ∧ f'.phase ≠ .spawned ∧ (∀ r, f'.phase ≠ .starting r) ∧ f'.Heard :=
    ⟨_, [], rfl, (List.append_nil _).symm, rfl, Nat.zero_le 1, by simp, by simp,
      fun _ waiting => by cases waiting⟩
  unfold afterStart
  split
  · exact fails _
  · exact fails _
  · dsimp only
    split
    · exact fails _
    · rename_i live
      exact ⟨_, _, rfl, rfl, rfl, coWait_posted _, by simp, by simp,
        fun _ _ cancelled => absurd cancelled live⟩

variable {classify : Option σ → κ} [DecidableEq κ]

theorem getBody_executed (ok : Consistent classify p) (here : p.frames g = some f)
    (spawned : f.phase = .spawned) :
    ∃ posted more, Executed p (p.getBody classify g f) (.get g) posted more := by
  obtain ⟨_, _, unentered⟩ := ok.spawned here spawned
  have own (h : γ) (same : (ProviderHandler.get g : ProviderHandler γ ρ σ).begins = some h) : h = g :=
    (Option.some.inj same).symm
  unfold getBody
  split
  · exact ⟨[], [], finish_executed here rfl own⟩
  · have fresh : ∀ e ∈ [(g, classify f.first)], e.1 ∉ p.entered.map Prod.fst := by
      simpa using unentered
    dsimp only
    split
    · refine ⟨resumptions g [], _, executed_frame here rfl (List.append_nil _).symm rfl
        fresh (by simp [ProviderHandler.weight]) own (by simp) (by simp) ?_⟩
      exact fun _ _ waiting => by cases waiting
    · rename_i result _
      obtain ⟨f', posted, frames, strand, entered, few, left, begun, heard⟩ :=
        afterStart_frame (g := g) (p.enqueue g f ⟨f.first, none, .new⟩ (classify f.first))
          { f with phase := .starting ⟨f.first, none, .new⟩ } ⟨f.first, none, .new⟩ result
      have updated : Function.update
          (p.enqueue g f ⟨f.first, none, .new⟩ (classify f.first)).frames g (some f') =
            Function.update p.frames g (some f') := by
        simp [enqueue, setFrame]
      exact ⟨_, _, executed_frame here (frames.trans updated) strand entered fresh
        (by simp [ProviderHandler.weight]; omega) own (fun now => absurd now left)
        (fun r now => absurd now (begun r)) fun _ => heard⟩

omit [DecidableEq κ] in
theorem emit_executed (ok : Consistent classify p) (here : p.frames g = some f) :
    ∃ posted, Executed (κ := κ) p (p.emit g f) (.emit g) posted [] := by
  have before := ok.frame g
  rw [here] at before
  have own (h : γ) (same : (ProviderHandler.emit g : ProviderHandler γ ρ σ).begins = some h) : h = g :=
    nomatch same
  unfold emit
  split
  · rename_i request waiting
    simp only [FrameOk, waiting] at before
    obtain ⟨_, wf, waits⟩ := before
    obtain ⟨few, ended⟩ := cancel_waits wf waits
    refine ⟨_, executed_frame here rfl rfl (List.append_nil _).symm (by simp) ?_ own (by simp) (by simp) ?_⟩
    · simp only [List.length_nil, ProviderHandler.weight]
      omega
    · intro _ other waiting _
      cases waiting
      exact ended
  · rename_i elsewhere
    refine ⟨resumptions g [], executed_frame here rfl (List.append_nil _).symm
      (List.append_nil _).symm (by simp) (by simp [ProviderHandler.weight]) own ?_ ?_ ?_⟩
    · exact fun now => ⟨now, by simp⟩
    · exact fun request now => .inl ⟨⟨request, now⟩, by simp⟩
    · exact fun _ request now => absurd now (elsewhere request)

theorem response_executed (ok : Consistent classify p) (r : ρ) (second : Option σ) :
    ∃ posted, Executed p (p.responseBody classify r second) (.response r second) posted [] := by
  cases front : p.queue (classify second) with
  | nil =>
    rw [response_empty front]
    exact ⟨[], executed_nothing _ (by simp) (by simp)⟩
  | cons g rest =>
    obtain ⟨f, request, here, _, there, _, popped⟩ := response_popped (r := r) ok front
    have wf := ok.wellFormed here there
    refine ⟨_, executed_frame here popped.frames popped.strand
      (by rw [popped.entered, List.append_nil]) (by simp) ?_ (fun h same => nomatch same) ?_ ?_ ?_⟩
    · have few := set_posted wf
      simp only [List.length_nil, ProviderHandler.weight]
      omega
    · intro now
      cases phase : f.phase <;> simp_all [GetPhase.withRequest, GetPhase.request]
    · intro own now
      cases phase : f.phase <;> simp_all [GetPhase.withRequest, GetPhase.request]
    · intro heard own waiting cancelled
      cases phase : f.phase with
      | waiting before =>
        obtain rfl : before = request := by simpa [phase, GetPhase.request] using there
        have ended := heard before phase cancelled
        simp only [phase, GetPhase.withRequest, GetPhase.waiting.injEq] at waiting
        subst waiting
        rw [AwaitableEvent.set_operation wf]
        split
        · rfl
        · exact ended
      | spawned | starting _ | returned _ | threw _ => simp [phase, GetPhase.withRequest] at waiting

theorem execute_executed (ok : Consistent classify p) {handler : ProviderHandler γ ρ σ}
    {rest : List (ProviderHandler γ ρ σ)} (head : p.strand = handler :: rest) :
    ∃ posted more, Executed { p with strand := rest }
      ({ p with strand := rest }.execute classify handler) handler posted more := by
  cases handler with
  | get g =>
    have popped := ok.pop head fun _ => rfl
    simp only [execute]
    split
    · rename_i f here
      split
      · rename_i spawned
        exact getBody_executed popped here spawned
      · rename_i elsewhere
        refine ⟨[], [], executed_nothing _ ?_ (by simp)⟩
        intro h same spawned
        cases same
        obtain ⟨k, there, phase⟩ := spawned
        simp only [here, Option.some.injEq] at there
        subst there
        exact elsewhere phase
    · rename_i absent
      refine ⟨[], [], executed_nothing _ ?_ (by simp)⟩
      intro h same spawned
      cases same
      obtain ⟨k, there, _⟩ := spawned
      simp [absent] at there
  | started g result =>
    simp only [execute]
    split
    · rename_i f here
      split
      · rename_i request starting
        obtain ⟨f', posted, frames, strand, entered, few, left, begun, heard⟩ :=
          afterStart_frame (g := g) { p with strand := rest } f request result
        refine ⟨_, [], executed_frame (p := { p with strand := rest }) here frames strand
          (entered.trans (List.append_nil _).symm) (by simp) ?_ ?_ (fun now => absurd now left)
          (fun r now => absurd now (begun r)) fun _ => heard⟩
        · simp only [List.length_nil, ProviderHandler.weight]
          omega
        · exact fun h same => (Option.some.inj same).symm
      · rename_i elsewhere
        refine ⟨[], [], executed_nothing _ (by simp) ?_⟩
        intro h _ same starting
        cases same
        obtain ⟨k, request, there, phase⟩ := starting
        simp only [here, Option.some.injEq] at there
        subst there
        exact elsewhere request phase
    · rename_i absent
      refine ⟨[], [], executed_nothing _ (by simp) ?_⟩
      intro h _ same starting
      cases same
      obtain ⟨k, _, there, _⟩ := starting
      simp [absent] at there
  | resume g ec =>
    simp only [execute]
    have own (h : γ) (same : (ProviderHandler.resume g ec : ProviderHandler γ ρ σ).begins = some h) :
        h = g := by
      cases same
    split
    · rename_i f here
      split
      · rename_i request waiting
        unfold afterWait
        split
        · exact ⟨[], [], finish_executed (p := { p with strand := rest }) here rfl own⟩
        · split <;> exact ⟨[], [], finish_executed (p := { p with strand := rest }) here rfl own⟩
      · exact ⟨[], [], executed_nothing _ (by simp) (by simp)⟩
    · exact ⟨[], [], executed_nothing _ (by simp) (by simp)⟩
  | emit g =>
    simp only [execute]
    split
    · rename_i f here
      obtain ⟨posted, executed⟩ := emit_executed (ok.pop head fun _ => rfl) here
      exact ⟨posted, [], executed⟩
    · exact ⟨[], [], executed_nothing _ (by simp) (by simp)⟩
  | response r second =>
    obtain ⟨posted, executed⟩ := response_executed (ok.pop head fun _ => rfl) r second
    exact ⟨posted, [], executed⟩

omit [DecidableEq κ] in
theorem Executed.startPending {handler : ProviderHandler γ ρ σ}
    {rest posted : List (ProviderHandler γ ρ σ)} {more : List (γ × κ)}
    (executed : Executed { p with strand := rest } q handler posted more)
    (head : p.strand = handler :: rest) (pending : q.startPending g = true) :
    p.startPending g = true ∨ g ∈ more.map Prod.fst := by
  rw [startPending_iff] at pending
  obtain ⟨starting, unqueued⟩ := pending
  refine (executed.starting g starting).imp_left fun both => ?_
  refine startPending_iff.mpr ⟨both.1, fun result queued => ?_⟩
  rw [head] at queued
  rcases List.mem_cons.mp queued with same | later
  · exact both.2 result same.symm
  · exact unqueued result (by rw [executed.strand]; exact List.mem_append_left _ later)

omit [DecidableEq κ] in
theorem Executed.falls {handler : ProviderHandler γ ρ σ} {rest posted : List (ProviderHandler γ ρ σ)}
    {more : List (γ × κ)} (executed : Executed { p with strand := rest } q handler posted more)
    (head : p.strand = handler :: rest) : q.rank < p.rank := by
  have before : p.entered.countP (fun e => q.startPending e.1) ≤
      p.entered.countP fun e => p.startPending e.1 := by
    refine List.countP_mono_left fun e entry pending => ?_
    refine (executed.startPending head pending).resolve_right fun new => ?_
    obtain ⟨e', member, same⟩ := List.mem_map.mp new
    exact executed.fresh e' member (same ▸ List.mem_map_of_mem entry)
  have new : more.countP (fun e => q.startPending e.1) ≤ more.length := List.countP_le_length
  have queued : weigh p.strand = handler.weight + weigh rest := by simp [head, weigh]
  have cost := executed.cost
  simp only [rank, executed.entered, executed.strand, List.countP_append, weigh_append, queued]
  omega

/-- What `Settled` rests on while handlers are left. -/
structure Attended (p : AsyncProxyProvider γ ρ κ σ) : Prop where
  spawned : ∀ g, Spawned p g → .get g ∈ p.strand
  starting : ∀ g, Starting p g → g ∈ p.entered.map Prod.fst
  heard : ∀ g f, p.frames g = some f → f.Heard

omit [DecidableEq γ] [DecidableEq κ] in
theorem Executed.attended {handler : ProviderHandler γ ρ σ} {rest posted : List (ProviderHandler γ ρ σ)}
    {more : List (γ × κ)} (executed : Executed { p with strand := rest } q handler posted more)
    (head : p.strand = handler :: rest) (attended : Attended p) : Attended q := by
  refine ⟨fun g now => ?_, fun g now => ?_, executed.heard attended.heard⟩
  · obtain ⟨before, other⟩ := executed.spawned g now
    have queued := attended.spawned g before
    rw [head] at queued
    rw [executed.strand]
    exact List.mem_append_left _ ((List.mem_cons.mp queued).resolve_left fun same => other same.symm)
  · rw [executed.entered, List.map_append, List.mem_append]
    exact (executed.starting g now).imp_left fun both => attended.starting g both.1

omit [DecidableEq γ] [DecidableEq κ] in
theorem Attended.post (attended : Attended p) (posted : List (ProviderHandler γ ρ σ)) :
    Attended (p.post posted) :=
  ⟨fun g now => List.mem_append_left _ (attended.spawned g now), attended.starting, attended.heard⟩

omit [DecidableEq κ] in
theorem startDone_falls (attended : Attended p) (pending : p.startPending g = true) (result : StartResult) :
    (p.post [.started g result]).rank < p.rank := by
  obtain ⟨e, entry, own⟩ := List.mem_map.mp (attended.starting g (startPending_iff.mp pending).1)
  obtain ⟨earlier, later, entered⟩ := List.append_of_mem entry
  have stays (h : γ) (still : (p.post [.started g result]).startPending h = true) :
      p.startPending h = true := by
    obtain ⟨starting, unqueued⟩ := startPending_iff.mp still
    exact startPending_iff.mpr ⟨starting, fun r queued => unqueued r (List.mem_append_left _ queued)⟩
  have answered : (p.post [.started g result]).startPending e.1 = false := by
    rw [own, Bool.eq_false_iff]
    exact fun still => (startPending_iff.mp still).2 result (List.mem_append_right _ (by simp))
  have before := List.countP_mono_left (l := earlier) fun e _ => stays e.1
  have after := List.countP_mono_left (l := later) fun e _ => stays e.1
  have grown : weigh (p.post [.started g result]).strand = weigh p.strand + 2 := by
    simp [post, weigh, ProviderHandler.weight]
  have same : (p.post [.started g result]).entered = p.entered := rfl
  simp only [rank, grown, same, entered, List.countP_append, List.countP_cons, answered, own ▸ pending]
  simp only [if_true, Bool.false_eq_true, if_false]
  omega

variable [DecidableEq ρ]

theorem attended_next {a : Action γ ρ σ} (ok : Consistent classify p) (attended : Attended p)
    (taken : (provider classify).next p a = some q) : Attended q := by
  cases a with
  | get g first immediate =>
    simp only [provider] at taken
    split at taken
    · cases taken
    · cases taken
      refine ⟨fun h now => ?_, fun h now => ?_, fun h f there => ?_⟩
      · by_cases same : h = g
        · subst same
          exact List.mem_append_right _ (List.mem_singleton.mpr rfl)
        · obtain ⟨f, there, phase⟩ := now
          exact List.mem_append_left _ (attended.spawned h ⟨f, by simpa [setFrame, post, same] using there, phase⟩)
      · obtain ⟨f, request, there, phase⟩ := now
        by_cases same : h = g
        · subst same
          simp only [setFrame, post, Function.update_self, Option.some.injEq] at there
          subst there
          cases phase
        · exact attended.starting h ⟨f, request, by simpa [setFrame, post, same] using there, phase⟩
      · by_cases same : h = g
        · subst same
          simp only [setFrame, post, Function.update_self, Option.some.injEq] at there
          subst there
          intro _ waiting
          cases waiting
        · exact attended.heard h f (by simpa [setFrame, post, same] using there)
  | asyncResponse r second =>
    simp only [provider] at taken
    split at taken
    · cases taken
    · cases taken
      have posted := attended.post [.response r second]
      exact ⟨posted.spawned, posted.starting, posted.heard⟩
  | startDone g result =>
    simp only [provider] at taken
    split at taken
    · cases taken
      exact attended.post _
    · cases taken
  | cancel g =>
    cases taken
    exact attended.post _
  | run =>
    simp only [provider] at taken
    split at taken
    · cases taken
    · rename_i handler rest head
      cases taken
      obtain ⟨posted, more, executed⟩ := execute_executed ok head
      exact executed.attended head attended

theorem attended (reached : (provider classify).Reachable p) : Attended p := by
  refine (reached.invariant (I := fun p => Consistent classify p ∧ Attended p) ⟨consistent .initial, ?_⟩ ?_).2
  · exact ⟨by simp [Spawned, provider, new], by simp [Starting, provider, new], by simp [provider, new]⟩
  · exact fun _ _ _ both taken => ⟨consistent_next both.1 taken, attended_next both.1 both.2 taken⟩

theorem internal_falls {a : Action γ ρ σ} (ok : Consistent classify p) (attended : Attended p)
    (internal : a.internal = true) (taken : (provider classify).next p a = some q) : q.rank < p.rank := by
  cases a with
  | run =>
    simp only [provider] at taken
    split at taken
    · cases taken
    · rename_i handler rest head
      cases taken
      obtain ⟨posted, more, executed⟩ := execute_executed ok head
      exact executed.falls head
  | startDone g result =>
    simp only [provider] at taken
    split at taken
    · rename_i pending
      cases taken
      exact startDone_falls attended pending result
    · cases taken
  | get _ _ _ | asyncResponse _ _ | cancel _ => cases internal

theorem ranked (classify : Option σ → κ) : (provider (γ := γ) (ρ := ρ) classify).Ranked
    (provider classify).Reachable (fun a => a.internal = true) rank where
  keeps _ _ _ reached _ taken := reached.step taken
  falls _ _ _ reached internal taken :=
    internal_falls (consistent reached) (attended reached) internal taken

omit [DecidableEq κ] [DecidableEq ρ] in
/-- With an empty strand, a call that has not ended waits for its response. -/
theorem waits_of_drained (ok : Consistent classify p) (attended : Attended p) (drained : p.strand = [])
    (answered : ∀ g, p.startPending g = false) (here : p.frames g = some f) :
    f.phase.ended = true ∨ Live p g ∧ Waits classify p (classify f.first) g := by
  have frame := ok.frame g
  rw [here, drained] at frame
  cases phase : f.phase with
  | spawned =>
    have queued := attended.spawned g ⟨f, here, phase⟩
    rw [drained] at queued
    cases queued
  | starting request =>
    have pending := startPending_iff.mpr ⟨⟨f, request, here, phase⟩, by simp [drained]⟩
    rw [answered g] at pending
    cases pending
  | waiting request =>
    simp only [FrameOk, phase] at frame
    obtain ⟨_, wf, ⟨linked, _⟩ | ⟨_, ⟨code, _⟩ | ⟨code, _⟩⟩⟩ := frame
    · refine .inr ⟨⟨f, here, ?_⟩, f, request, here, rfl, phase, ?_⟩
      · cases cancelled : f.cancelled with
        | false => rfl
        | true =>
          have ended := attended.heard g f here request phase cancelled
          rw [linked] at ended
          cases ended
      · cases isSet : request.event.isSet with
        | false => rfl
        | true =>
          have unlinked := (wf.linked ()).mpr linked
          rw [wf.drained isSet] at unlinked
          cases unlinked
    · cases code
    · cases code
  | returned result => exact .inl rfl
  | threw e => exact .inl rfl

theorem settled_iff (reached : (provider classify).Reachable p) :
    (provider classify).Stuck (fun a => a.internal = true) p ↔ Settled classify p := by
  have ok := consistent reached
  constructor
  · intro stuck
    have drained : p.strand = [] := by
      have idle := stuck .run rfl
      simp only [provider] at idle
      split at idle
      · assumption
      · cases idle
    have answered (g : γ) : p.startPending g = false := by
      have idle := stuck (.startDone g (.ok true)) rfl
      simp only [provider] at idle
      split at idle
      · cases idle
      · rename_i unanswered
        exact Bool.eq_false_iff.mpr unanswered
    have calls (g : γ) (f : GetFrame σ) (here : p.frames g = some f) :=
      waits_of_drained ok (attended reached) drained answered here
    refine ⟨drained, calls, fun m member => ?_⟩
    obtain ⟨_, f, here, _⟩ := ok.registered.classes m member
    refine ⟨f, here, (calls m.get f here).resolve_right fun waits => ?_⟩
    obtain ⟨_, k, request, there, _, waiting, unset⟩ := waits
    have frame := ok.frame m.get
    have stored := mem_given member
    rw [there] at frame
    simp only [FrameOk, waiting] at frame
    rw [frame.1, TRequest.given, unset] at stored
    simp at stored
  · intro settled a internal
    cases a with
    | run => simp only [provider, settled.strand]
    | startDone g result =>
      have idle : p.startPending g = false := by
        rw [Bool.eq_false_iff]
        intro pending
        obtain ⟨⟨f, request, here, starting⟩, _⟩ := startPending_iff.mp pending
        rcases settled.calls g f here with ended | ⟨_, k, _, there, _, waiting, _⟩
        · simp [starting, GetPhase.ended] at ended
        · rw [here] at there
          cases there
          rw [starting] at waiting
          cases waiting
      simp [provider, idle]
    | get _ _ _ | asyncResponse _ _ | cancel _ => cases internal

/-- The strand and the delegate come to an end by themselves, in whatever order they go on, and
    leave no call behind that was cancelled, answered, or refused by the delegate. -/
theorem calls_settle (reached : (provider classify).Reachable p) {as : List (Action γ ρ σ)}
    (internal : ∀ a ∈ as, a.internal = true) (ran : (provider classify).run p as = some q) :
    as.length ≤ p.rank ∧
      ((provider classify).Stuck (fun a => a.internal = true) q ↔ Settled classify q) ∧
      ∃ bs r, (∀ b ∈ bs, b.internal = true) ∧ (provider classify).run q bs = some r ∧
        Settled classify r := by
  obtain ⟨later, bound⟩ := (ranked classify).run_le reached internal ran
  obtain ⟨bs, r, kinds, carried, stuck⟩ := (ranked classify).settles later
  refine ⟨by omega, settled_iff later, bs, r, kinds, carried, ?_⟩
  exact (settled_iff (later.trans ⟨bs, carried⟩)).mp stuck

/-- Two calls are entered, the second is cancelled, and a response comes for the first. -/
def twoCalls : List (Action Nat Nat Unit) :=
  [.get 0 none (some (.ok true)), .get 1 none none, .run, .run, .cancel 1, .asyncResponse 0 (some ())]

def twoCallsSettled : List (Action Nat Nat Unit) := [.run, .run, .run, .startDone 1 (.ok true), .run]

theorem calls_settle_two : ∃ p q : AsyncProxyProvider Nat Nat Unit Unit,
    (provider fun _ => ()).run (provider fun _ => ()).initial twoCalls = some p ∧
    (provider fun _ => ()).run p twoCallsSettled = some q ∧ twoCallsSettled.length ≤ p.rank ∧
    (q.frames 0).map GetFrame.phase = some (.returned ()) ∧
    (q.frames 1).map GetFrame.phase = some (.threw (.systemError .operationCanceled)) ∧
    ∃ bs r, (∀ b ∈ bs, b.internal = true) ∧ (provider fun _ => ()).run q bs = some r ∧
      Settled (fun _ => ()) r := by
  have settles (p q : AsyncProxyProvider Nat Nat Unit Unit)
      (ran : (provider fun _ => ()).run (provider fun _ => ()).initial twoCalls = some p)
      (on : (provider fun _ => ()).run p twoCallsSettled = some q) :=
    calls_settle ⟨twoCalls, ran⟩ (by decide) on
  obtain ⟨bound, _, carried⟩ := settles _ _ rfl rfl
  exact ⟨_, _, rfl, rfl, bound, rfl, rfl, carried⟩

end AsyncProxyProvider

end BoostBase
