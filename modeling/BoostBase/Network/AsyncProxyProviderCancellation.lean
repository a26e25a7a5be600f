import BoostBase.Network.AsyncProxyProviderLine

namespace BoostBase.AsyncProxyProvider

open Asio Intrusive Transition FifoMatching

variable {γ ρ κ σ : Type} (classify : Option σ → κ) (p q : AsyncProxyProvider γ ρ κ σ)

def Live (g : γ) : Prop := ∃ f, p.frames g = some f ∧ f.cancelled = false

/-- `g` is enqueued in class `c` and was given no response. -/
def Pending (c : κ) (g : γ) : Prop :=
  ∃ f, p.frames g = some f ∧ classify f.first = c ∧ f.pending = true

/-- `g` waits in `co_wait` for a response of class `c`. -/
def Waits (c : κ) (g : γ) : Prop :=
  ∃ f request, p.frames g = some f ∧ classify f.first = c ∧ f.phase = .waiting request ∧
    request.event.isSet = false

def Stores (second : Option σ) (g : γ) : Prop :=
  ∃ f f' before after, p.frames g = some f ∧ q.frames g = some f' ∧
    f.phase.request = some before ∧ f'.phase.request = some after ∧
    before.event.isSet = false ∧ after.event.isSet = true ∧ after.second = second

/-- A response whose handler runs while a live `get` of its class waits is stored in
    the request of a live `get`, and in no other. -/
def ServesLive (p : AsyncProxyProvider γ ρ κ σ) (a : Action γ ρ σ) (q : AsyncProxyProvider γ ρ κ σ) :
    Prop :=
  ∀ r second rest, a = .run → p.strand = .response r second :: rest →
    (∃ h, Waits classify p (classify second) h ∧ Live p h) →
    (∃ g, Stores p q second g ∧ Live p g) ∧ ∀ g, Stores p q second g → Live p g

/-- When such a handler runs, every cancelled `get` of the class whose request is still
    enqueued was enqueued after a live one. -/
def LiveAhead (p : AsyncProxyProvider γ ρ κ σ) (a : Action γ ρ σ) (_ : AsyncProxyProvider γ ρ κ σ) :
    Prop :=
  ∀ r second rest, a = .run → p.strand = .response r second :: rest →
    (∃ h, Waits classify p (classify second) h ∧ Live p h) →
    ∀ g, Pending classify p (classify second) g → ¬ Live p g →
      ∃ h, Pending classify p (classify second) h ∧ Live p h ∧
        Precedes p.entered (h, classify second) (g, classify second)

variable {classify p q} [DecidableEq γ] [DecidableEq κ] {g : γ} {f : GetFrame σ}

theorem Popped.stores {request : TRequest σ} {r : ρ} {second : Option σ} {c : κ} {rest : List γ}
    (popped : Popped p q g f request r second c rest) (wf : request.event.WellFormed)
    (here : p.frames g = some f) (there : f.phase.request = some request)
    (unset : request.event.isSet = false) (k : γ) : Stores p q second k ↔ k = g := by
  let stored : TRequest σ := { request with second, event := request.event.set.1 }
  constructor
  · intro both
    rcases both with ⟨f₁, f₂, before, after, old, new, first, last, was, is, _⟩
    by_contra other
    rw [popped.frames, Function.update_of_ne other, old] at new
    cases new
    rw [first] at last
    cases last
    simp [was] at is
  · intro same
    subst same
    have now : q.frames k = some { f with phase := f.phase.withRequest stored } := by
      rw [popped.frames, Function.update_self]
    have owns : (f.phase.withRequest stored).request = some stored := by
      cases phase : f.phase <;> simp_all [GetPhase.request, GetPhase.withRequest]
    exact ⟨f, _, request, stored, here, now, there, owns, unset,
      (AwaitableEvent.walking_set wf).isSet, rfl⟩

omit [DecidableEq γ] in
theorem front_arrived {c : κ} (line : InLine (p.line classify c)) {rest : List γ}
    (front : p.queue c = g :: rest) {h : γ} (behind : h ∈ rest) :
    Precedes (p.line classify c).arrived g h := by
  have order : Precedes (p.line classify c).waiting g h := by
    change Precedes (p.queue c) g h
    rw [front]
    exact (List.singleton_sublist.mpr behind).cons_cons g
  exact (order.trans (List.sublist_append_right _ _)).trans line.order

omit [DecidableEq γ] in
theorem front_live {c : κ} (line : InLine (p.line classify c)) (reg : Registered classify p)
    {rest : List γ} (front : p.queue c = g :: rest) :
    Live p g ↔ ∀ i, Pending classify p c i → ¬ Live p i →
      ∃ j, Pending classify p c j ∧ Live p j ∧ Precedes p.entered (j, c) (i, c) := by
  have pending (i : γ) : Pending classify p c i ↔ i ∈ g :: rest := by
    rw [← front, reg.linked]
    rfl
  constructor
  · intro live i member dead
    have behind : i ∈ rest := by
      apply (List.mem_cons.mp ((pending i).mp member)).resolve_left
      intro same
      subst same
      exact dead live
    exact ⟨g, (pending g).mpr List.mem_cons_self, live, line_precedes.mp (front_arrived line front behind)⟩
  · intro ahead
    by_contra dead
    obtain ⟨j, member, live, order⟩ := ahead g ((pending g).mpr List.mem_cons_self) dead
    have behind : j ∈ rest := by
      apply (List.mem_cons.mp ((pending j).mp member)).resolve_left
      intro same
      subst same
      exact dead live
    have arrived : Precedes (p.line classify c).arrived j g := line_precedes.mpr order
    exact arrived.asymm line.distinct (front_arrived line front behind)

variable [DecidableEq ρ]

theorem servesLive_iff (reached : (provider classify).Reachable p) {a : Action γ ρ σ}
    (taken : (provider classify).next p a = some q) :
    ServesLive classify p a q ↔ LiveAhead classify p a q := by
  have ok := consistent reached
  refine forall_congr' fun r => forall_congr' fun second => forall_congr' fun rest =>
    forall_congr' fun runs => forall_congr' fun head => forall_congr' fun waiter => ?_
  subst runs
  simp only [provider, head, Option.some.injEq] at taken
  subst taken
  obtain ⟨h, ⟨k, asked, there, ofClass, waiting, unset⟩, _⟩ := waiter
  have linked : h ∈ p.queue (classify second) :=
    (ok.registered.linked _ h).mpr ⟨k, there, ofClass,
      by simp [GetFrame.pending, waiting, GetPhase.request, unset]⟩
  obtain ⟨g, line, front⟩ : ∃ g line, p.queue (classify second) = g :: line :=
    List.exists_cons_of_ne_nil (List.ne_nil_of_mem linked)
  have popped := ok.pop head fun _ => rfl
  obtain ⟨f, request, here, _, owns, fresh, step⟩ := response_popped (r := r) popped front
  have stores := step.stores (popped.wellFormed here owns) here owns fresh
  refine Iff.trans ?_ (front_live (lined reached _) ok.registered front)
  constructor
  · exact fun serves => serves.2 g ((stores g).mpr rfl)
  · intro live
    refine ⟨⟨g, (stores g).mpr rfl, live⟩, fun i stored => ?_⟩
    rw [(stores i).mp stored]
    exact live

/-- In every run responses are spent on live requests only, while there are any, if and
    only if no handler runs when a cancelled request heads its line. -/
theorem responses_serve_live (as : List (Action γ ρ σ)) :
    (provider classify).Always (ServesLive classify) (provider classify).initial as ↔
      (provider classify).Always (LiveAhead classify) (provider classify).initial as :=
  Machine.always_congr (I := (provider classify).Reachable) (fun _ _ _ => Machine.Reachable.step)
    (fun _ _ _ reached taken => servesLive_iff reached taken) .initial as

/-- Request 0 is cancelled and not yet unwound when the response arrives; request 1
    keeps waiting. -/
theorem response_lost : ∃ p q : AsyncProxyProvider Nat Nat Unit Unit,
    (provider fun _ => ()).run (provider fun _ => ()).initial
      [.get 0 none (some (.ok true)), .get 1 none (some (.ok true)), .run, .run, .cancel 0,
        .asyncResponse 0 (some ()), .run] = some p ∧
    (provider fun _ => ()).next p .run = some q ∧ ¬ ServesLive (fun _ => ()) p .run q := by
  refine ⟨_, _, rfl, rfl, fun serves => ?_⟩
  obtain ⟨_, spared⟩ := serves 0 (some ()) _ rfl rfl ⟨1, ⟨_, _, rfl, rfl, rfl, rfl⟩, _, rfl, rfl⟩
  obtain ⟨_, here, live⟩ := spared 0 ⟨_, _, _, _, rfl, rfl, rfl, rfl, rfl, rfl, rfl⟩
  cases here
  cases live

end BoostBase.AsyncProxyProvider
