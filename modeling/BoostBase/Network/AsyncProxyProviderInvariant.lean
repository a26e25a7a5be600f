import BoostBase.Network.AsyncProxyProvider

namespace BoostBase

open Asio Intrusive Transition

variable {γ ρ κ σ : Type}

def TRequest.given (request : TRequest σ) : List (Option σ) :=
  if request.event.isSet then [request.second] else []

def GetFrame.pending (f : GetFrame σ) : Bool :=
  match f.phase.request with
  | some request => !request.event.isSet
  | none => false

def GetFrame.begun (f : GetFrame σ) : Bool :=
  match f.phase with
  | .spawned => false
  | _ => true

namespace AsyncProxyProvider

def WaitOk (event : AwaitableEvent Unit) (cancelled : Bool) (codes : List ErrorCode) : Prop :=
  event.operation () = some ⟨false⟩ ∧ codes = [] ∨
  event.operation () = some ⟨true⟩ ∧
    (codes = [.success] ∧ event.isSet = true ∨ codes = [.operationCanceled] ∧ cancelled = true)

/-- What holds of a call of `get`, the codes of its resumptions that stand in the
    strand, and the sessions that responses have given to it. -/
def FrameOk (frame : Option (GetFrame σ)) (codes : List ErrorCode) (given : List (Option σ)) : Prop :=
  match frame with
  | none => codes = [] ∧ given = []
  | some f =>
    match f.phase with
    | .spawned => codes = [] ∧ given = [] ∧ f.started = none
    | .starting request =>
      codes = [] ∧ given = request.given ∧ f.started = none ∧
        request.event.WellFormed ∧ request.event.operation () = none
    | .waiting request =>
      given = request.given ∧ request.event.WellFormed ∧ WaitOk request.event f.cancelled codes
    | .returned result => codes = [] ∧ given = [some result]
    | .threw _ =>
      codes = [] ∧
        ∀ result, some result ∈ given → f.cancelled = true ∨ f.started ≠ some (.ok true)

variable [DecidableEq γ]

def completions (g : γ) (strand : List (ProviderHandler γ ρ σ)) : List ErrorCode :=
  strand.filterMap fun
    | .resume h ec => if h = g then some ec else none
    | _ => none

def given (g : γ) (served : List (Match γ ρ κ σ)) : List (Option σ) :=
  served.filterMap fun m => if m.get = g then some m.second else none

def queue (p : AsyncProxyProvider γ ρ κ σ) (c : κ) : List γ :=
  match p.requests c with
  | none => []
  | some requests => requests.nodes

variable (classify : Option σ → κ)

/-- The part of the invariant that does not speak of the strand. -/
structure Registered (p : AsyncProxyProvider γ ρ κ σ) : Prop where
  linked : ∀ c g, g ∈ p.queue c ↔
    ∃ f, p.frames g = some f ∧ classify f.first = c ∧ f.pending = true
  classes : ∀ m ∈ p.served, m.sClass = classify m.second ∧
    ∃ f, p.frames m.get = some f ∧ classify f.first = m.sClass
  entries : ∀ e ∈ p.entered, ∃ f, p.frames e.1 = some f ∧ classify f.first = e.2 ∧ f.begun = true

def FramesBut (g : γ) (p : AsyncProxyProvider γ ρ κ σ) : Prop :=
  ∀ h, h ≠ g → FrameOk (p.frames h) (completions h p.strand) (given h p.served)

structure Consistent (p : AsyncProxyProvider γ ρ κ σ) : Prop where
  registered : Registered classify p
  frame : ∀ g, FrameOk (p.frames g) (completions g p.strand) (given g p.served)

variable {classify} {p q : AsyncProxyProvider γ ρ κ σ} {g : γ} {f : GetFrame σ}

theorem completions_append (g : γ) (before after : List (ProviderHandler γ ρ σ)) :
    completions g (before ++ after) = completions g before ++ completions g after :=
  List.filterMap_append

theorem given_append (g : γ) (before after : List (Match γ ρ κ σ)) :
    given g (before ++ after) = given g before ++ given g after := List.filterMap_append

theorem completions_resumptions (g h : γ) (posted : List (AwaitableEvent.Completion Unit)) :
    completions h (resumptions (ρ := ρ) (σ := σ) g posted) =
      if g = h then posted.map Prod.snd else [] := by
  simp only [completions, resumptions, List.filterMap_map, Function.comp_def]
  split
  · rw [← List.filterMap_eq_map]
    rfl
  · exact List.filterMap_eq_nil_iff.mpr fun _ _ => rfl

theorem Registered.update (reg : Registered classify p)
    (frames : q.frames = Function.update p.frames g (some f))
    (queue : ∀ c h, h ∈ q.queue c ↔
      if h = g then classify f.first = c ∧ f.pending = true else h ∈ p.queue c)
    (classes : ∀ m ∈ q.served,
      if m.get = g then m.sClass = classify m.second ∧ classify f.first = m.sClass else m ∈ p.served)
    (entries : ∀ e ∈ q.entered,
      if e.1 = g then classify f.first = e.2 ∧ f.begun = true else e ∈ p.entered) :
    Registered classify q := by
  refine ⟨?_, ?_, ?_⟩
  · intro c h
    rw [queue, frames]
    by_cases same : h = g
    · subst same
      simp
    · simpa [same] using reg.linked c h
  · intro m member
    have now := classes m member
    rw [frames]
    by_cases same : m.get = g
    · rw [if_pos same] at now
      exact ⟨now.1, f, by simp [same], now.2⟩
    · rw [if_neg same] at now
      simpa [same] using reg.classes m now
  · intro e member
    have now := entries e member
    rw [frames]
    by_cases same : e.1 = g
    · rw [if_pos same] at now
      exact ⟨f, by simp [same], now⟩
    · rw [if_neg same] at now
      simpa [same] using reg.entries e now

theorem Consistent.update (reg : Registered classify q)
    (frames : q.frames = Function.update p.frames g (some f))
    (others : ∀ h, h ≠ g → FrameOk (p.frames h) (completions h q.strand) (given h q.served))
    (ok : FrameOk (some f) (completions g q.strand) (given g q.served)) : Consistent classify q := by
  refine ⟨reg, fun h => ?_⟩
  rw [frames]
  by_cases same : h = g
  · subst same
    simpa using ok
  · simpa [same] using others h same

theorem Consistent.strand (ok : Consistent classify p) {strand : List (ProviderHandler γ ρ σ)}
    (same : ∀ g, completions g strand = completions g p.strand) :
    Consistent classify { p with strand := strand } := by
  refine ⟨⟨ok.registered.linked, ok.registered.classes, ok.registered.entries⟩, fun g => ?_⟩
  have before := ok.frame g
  rw [← same g] at before
  exact before

@[simp] theorem setFrame_queue (p : AsyncProxyProvider γ ρ κ σ) (g : γ) (f : GetFrame σ) (c : κ) :
    (p.setFrame g f).queue c = p.queue c := rfl

theorem queue_unlink (p : AsyncProxyProvider γ ρ κ σ) (g : γ) (outcome : GetPhase σ) (c : κ) :
    (p.finish g f outcome).queue c = (p.queue c).erase g := by
  simp only [queue, finish]
  cases p.requests c <;> rfl

omit [DecidableEq γ] in
theorem queue_nodup (p : AsyncProxyProvider γ ρ κ σ) (c : κ) : (p.queue c).Nodup := by
  unfold queue
  split
  · exact List.nodup_nil
  · rename_i requests _
    exact requests.nodup

theorem finish_consistent (reg : Registered classify p) (others : FramesBut g p)
    (here : p.frames g = some f) {f' : GetFrame σ} (first : f'.first = f.first)
    (outcome : GetPhase σ) (ended : outcome.ended = true)
    (ok : FrameOk (some { f' with phase := outcome }) (completions g p.strand) (given g p.served)) :
    Consistent classify (p.finish g f' outcome) := by
  have idle : GetFrame.pending { f' with phase := outcome } = false := by
    cases outcome <;> simp_all [GetPhase.ended, GetFrame.pending, GetPhase.request]
  have begun : GetFrame.begun { f' with phase := outcome } = true := by
    cases outcome <;> simp_all [GetPhase.ended, GetFrame.begun]
  refine Consistent.update (reg.update (f := { f' with phase := outcome }) rfl ?_ ?_ ?_) rfl others ok
  · intro c h
    rw [queue_unlink, (queue_nodup p c).mem_erase_iff]
    by_cases same : h = g <;> simp [same, idle]
  · intro m member
    obtain ⟨own, k, there, sClass⟩ := reg.classes m member
    split
    · rename_i same
      rw [same, here] at there
      cases there
      exact ⟨own, by simpa [first] using sClass⟩
    · exact member
  · intro e member
    obtain ⟨k, there, rClass, _⟩ := reg.entries e member
    split
    · rename_i same
      rw [same, here] at there
      cases there
      exact ⟨by simpa [first] using rClass, begun⟩
    · exact member

theorem setFrame_registered (reg : Registered classify p) (here : p.frames g = some f)
    {f' : GetFrame σ} (first : f'.first = f.first) (pending : f'.pending = f.pending)
    (begun : f.begun = true → f'.begun = true) : Registered classify (p.setFrame g f') := by
  refine reg.update (f := f') rfl ?_ ?_ ?_
  · intro c h
    by_cases same : h = g
    · subst same
      have linked := reg.linked c h
      rw [here] at linked
      simpa [first, pending] using linked
    · simp [same, queue, setFrame]
  · intro m member
    obtain ⟨own, k, there, sClass⟩ := reg.classes m member
    split
    · rename_i same
      rw [same, here] at there
      cases there
      exact ⟨own, by simpa [first] using sClass⟩
    · exact member
  · intro e member
    obtain ⟨k, there, rClass, started⟩ := reg.entries e member
    split
    · rename_i same
      rw [same, here] at there
      cases there
      exact ⟨by simpa [first] using rClass, begun started⟩
    · exact member

theorem Consistent.pop (ok : Consistent classify p) {handler : ProviderHandler γ ρ σ}
    {rest : List (ProviderHandler γ ρ σ)} (head : p.strand = handler :: rest)
    (silent : ∀ g, completions g [handler] = []) : Consistent classify { p with strand := rest } := by
  refine ok.strand fun g => ?_
  rw [head, ← List.singleton_append, completions_append, silent g, List.nil_append]

theorem post_consistent (ok : Consistent classify p) {hs : List (ProviderHandler γ ρ σ)}
    (silent : ∀ g, completions g hs = []) : Consistent classify (p.post hs) :=
  ok.strand fun g => by rw [completions_append, silent g, List.append_nil]

theorem setFrame_post_consistent (ok : Consistent classify p) (here : p.frames g = some f)
    {f' : GetFrame σ} (first : f'.first = f.first) (pending : f'.pending = f.pending)
    (begun : f.begun = true → f'.begun = true)
    {posted : List (AwaitableEvent.Completion Unit)}
    (fine : FrameOk (some f') (completions g p.strand ++ posted.map Prod.snd) (given g p.served)) :
    Consistent classify ((p.setFrame g f').post (resumptions g posted)) := by
  have reg := setFrame_registered ok.registered here first pending begun
  refine Consistent.update (p := p) (f := f') ⟨reg.linked, reg.classes, reg.entries⟩ rfl ?_ ?_
  · intro h other
    have silent : completions h (resumptions (ρ := ρ) (σ := σ) g posted) = [] := by
      rw [completions_resumptions, if_neg (Ne.symm other)]
    have before := ok.frame h
    rw [← List.append_nil (completions h p.strand), ← silent, ← completions_append] at before
    exact before
  · rw [← if_pos (c := g = g) (t := posted.map Prod.snd) (e := []) rfl,
      ← completions_resumptions (ρ := ρ) (σ := σ), ← completions_append] at fine
    exact fine

theorem afterStart_consistent (ok : Consistent classify p) (here : p.frames g = some f)
    {request : TRequest σ} (starting : f.phase = .starting request) (result : StartResult) :
    Consistent classify (p.afterStart g f request result) := by
  have before := ok.frame g
  simp only [here, FrameOk, starting] at before
  obtain ⟨silent, same, _, wf, fresh⟩ := before
  have others : FramesBut g p := fun h _ => ok.frame h
  have fails (outcome : Exception)
      (why : f.cancelled = true ∨ some result ≠ some (.ok true)) : Consistent classify
        (p.finish g { f with started := some result } (.threw outcome)) :=
    finish_consistent ok.registered others here (by rfl) _ rfl ⟨silent, fun _ _ => why⟩
  unfold afterStart
  split
  · exact fails _ (.inr (by simp))
  · exact fails _ (.inr (by simp))
  · dsimp only
    split
    · rename_i cancelled
      exact fails _ (.inl cancelled)
    · have pending : GetFrame.pending { f with
          started := some (.ok true)
          phase := .waiting { request with event := (request.event.coWait ()).1 } } = f.pending := by
        simp only [GetFrame.pending, GetPhase.request, starting]
        cases isSet : request.event.isSet with
        | true => rw [AwaitableEvent.coWait_of_set () isSet]; simp [isSet]
        | false => rw [AwaitableEvent.coWait_of_unset () isSet]; simp [isSet]
      refine setFrame_post_consistent ok here (by rfl) pending (fun _ => rfl) ?_
      have after := AwaitableEvent.coWait_wellFormed wf fresh
      rw [silent, List.nil_append, same]
      cases isSet : request.event.isSet with
      | true =>
        rw [AwaitableEvent.coWait_of_set () isSet] at after ⊢
        exact ⟨by simp [TRequest.given, isSet], after, .inr ⟨by simp, .inl ⟨rfl, isSet⟩⟩⟩
      | false =>
        rw [AwaitableEvent.coWait_of_unset () isSet] at after ⊢
        exact ⟨by simp [TRequest.given, isSet], after, .inl ⟨by simp, rfl⟩⟩

omit [DecidableEq γ] in
theorem pending_iff : f.pending = true ↔
    ∃ request, f.phase.request = some request ∧ request.event.isSet = false := by
  unfold GetFrame.pending
  split <;> simp_all

theorem Consistent.wellFormed (ok : Consistent classify p) (here : p.frames g = some f)
    {request : TRequest σ} (there : f.phase.request = some request) : request.event.WellFormed := by
  have frame := ok.frame g
  cases phase : f.phase <;> simp_all [FrameOk, GetPhase.request]

theorem Consistent.spawned (ok : Consistent classify p) (here : p.frames g = some f)
    (spawned : f.phase = .spawned) :
    (completions g p.strand = [] ∧ given g p.served = [] ∧ f.started = none) ∧
      (∀ c, g ∉ p.queue c) ∧ g ∉ p.entered.map Prod.fst := by
  have before := ok.frame g
  simp only [here, FrameOk, spawned] at before
  refine ⟨before, ?_, ?_⟩
  · intro c member
    obtain ⟨k, there, _, pending⟩ := (ok.registered.linked c g).mp member
    rw [here] at there
    cases there
    simp [GetFrame.pending, GetPhase.request, spawned] at pending
  · intro member
    obtain ⟨e, entry, rfl⟩ := List.mem_map.mp member
    obtain ⟨k, there, _, begun⟩ := ok.registered.entries e entry
    rw [here] at there
    cases there
    simp [GetFrame.begun, spawned] at begun

variable [DecidableEq κ]

theorem queue_enqueue (p : AsyncProxyProvider γ ρ κ σ) (request : TRequest σ) (rClass c : κ)
    (fresh : g ∉ p.queue rClass) :
    (p.enqueue g f request rClass).queue c = if c = rClass then p.queue c ++ [g] else p.queue c := by
  by_cases same : c = rClass
  · subst same
    unfold queue at fresh
    simp only [queue, enqueue, Function.update_self, if_true]
    cases requests : p.requests c with
    | none => simp [LinkedList.pushBack_nodes]
    | some l => simpa using LinkedList.pushBack_nodes (by simpa [requests] using fresh)
  · simp [queue, enqueue, same]

theorem enqueue_consistent (ok : Consistent classify p) (here : p.frames g = some f)
    (spawned : f.phase = .spawned) :
    Consistent classify (p.enqueue g f ⟨f.first, none, .new⟩ (classify f.first)) := by
  obtain ⟨⟨silent, ungiven, unstarted⟩, unlinked, unentered⟩ := ok.spawned here spawned
  let f' := { f with phase := .starting ⟨f.first, none, .new⟩ }
  have pending : GetFrame.pending f' = true := rfl
  refine Consistent.update (p := p) (f := f') (Registered.update ok.registered (f := f') rfl ?_ ?_ ?_) rfl
    (fun h _ => ok.frame h) ?_
  · intro c h
    rw [queue_enqueue p _ _ _ (unlinked _)]
    by_cases same : h = g
    · subst same
      by_cases own : c = classify f.first
      · simp [own, pending, f']
      · simp [own, unlinked, f', Ne.symm own]
    · by_cases own : c = classify f.first <;> simp [own, same]
  · intro m member
    have there : m.get ≠ g := by
      intro same
      subst same
      have gave : m.second ∈ given m.get p.served :=
        List.mem_filterMap.mpr ⟨m, member, by simp⟩
      simp [ungiven] at gave
    rw [if_neg there]
    exact member
  · intro e member
    rcases List.mem_append.mp member with old | new
    · split
      · rename_i same
        exact absurd (List.mem_map_of_mem old) (same ▸ unentered)
      · exact old
    · rw [List.mem_singleton] at new
      simp [new, f', GetFrame.begun]
  · exact ⟨silent, ungiven, unstarted, AwaitableEvent.new_wellFormed, rfl⟩

theorem getBody_consistent (ok : Consistent classify p) (here : p.frames g = some f)
    (spawned : f.phase = .spawned) : Consistent classify (p.getBody classify g f) := by
  obtain ⟨⟨silent, ungiven, _⟩, _⟩ := ok.spawned here spawned
  unfold getBody
  split
  · exact finish_consistent ok.registered (fun h _ => ok.frame h) here rfl _ rfl
      ⟨silent, by simp [ungiven]⟩
  · have queued := enqueue_consistent ok here spawned
    dsimp only
    split
    · exact queued
    · exact afterStart_consistent queued (by simp [enqueue, setFrame]) rfl _

omit [DecidableEq κ] in
theorem emit_consistent (ok : Consistent classify p) (here : p.frames g = some f) :
    Consistent classify (p.emit g f) := by
  have before := ok.frame g
  rw [here] at before
  unfold emit
  split
  · rename_i request waiting
    simp only [FrameOk, waiting] at before
    obtain ⟨same, wf, waits⟩ := before
    have isSet : (request.event.cancel ()).1.isSet = request.event.isSet := by
      by_cases pending : request.event.operation () = some ⟨false⟩
      · rw [AwaitableEvent.cancel_waiting wf pending]
      · rw [AwaitableEvent.cancel_idle pending]
    refine setFrame_post_consistent ok here (by rfl) ?_ (fun _ => rfl) ?_
    · simp [GetFrame.pending, GetPhase.request, waiting, isSet]
    · refine ⟨?_, AwaitableEvent.cancel_wellFormed wf (), ?_⟩
      · simpa [TRequest.given, isSet] using same
      · rcases waits with ⟨pending, silent⟩ | ⟨finished, codes⟩
        · rw [AwaitableEvent.cancel_waiting wf pending]
          exact .inr ⟨by simp, .inr ⟨by simp [silent], rfl⟩⟩
        · rw [AwaitableEvent.cancel_idle (by simp [finished])]
          refine .inr ⟨finished, ?_⟩
          rcases codes with ⟨code, set⟩ | ⟨code, _⟩
          · exact .inl ⟨by simp [code], set⟩
          · exact .inr ⟨by simp [code], rfl⟩
  · rename_i elsewhere
    have reg : Registered classify (p.setFrame g { f with cancelled := true }) :=
      setFrame_registered ok.registered here rfl rfl id
    refine Consistent.update (p := p) reg rfl (fun h _ => ok.frame h) ?_
    simp only [FrameOk] at before ⊢
    split at before
    · exact before
    · exact before
    · rename_i request waiting
      exact absurd waiting (elsewhere request)
    · exact before
    · exact ⟨before.1, fun _ _ => .inl trivial⟩

omit [DecidableEq κ] in
theorem afterWait_consistent (ok : Consistent classify p) (here : p.frames g = some f)
    {request : TRequest σ} (waiting : f.phase = .waiting request) {ec : ErrorCode}
    {rest : List (ProviderHandler γ ρ σ)} (head : p.strand = .resume g ec :: rest) :
    Consistent classify ({ p with strand := rest }.afterWait g f request ec) := by
  have before := ok.frame g
  simp only [here, FrameOk, waiting] at before
  obtain ⟨same, _, waits⟩ := before
  have codes : completions g p.strand = ec :: completions g rest := by
    rw [head]
    simp [completions]
  have reg : Registered classify { p with strand := rest } :=
    ⟨ok.registered.linked, ok.registered.classes, ok.registered.entries⟩
  have others : FramesBut g { p with strand := rest } := by
    intro h other
    have fine := ok.frame h
    rw [head] at fine
    simpa [completions, Ne.symm other] using fine
  rw [codes] at waits
  rcases waits with ⟨_, empty⟩ | ⟨_, ⟨single, isSet⟩ | ⟨single, cancelled⟩⟩
  · cases empty
  · obtain ⟨rfl, last⟩ := List.cons.inj single
    simp only [afterWait, ne_eq, not_true_eq_false, if_false]
    rw [TRequest.given, if_pos isSet] at same
    split
    · rename_i null
      rw [null] at same
      exact finish_consistent reg others here rfl _ rfl ⟨last, by simp [same]⟩
    · rename_i result session
      rw [session] at same
      exact finish_consistent reg others here rfl _ rfl ⟨last, same⟩
  · obtain ⟨rfl, last⟩ := List.cons.inj single
    exact finish_consistent reg others here rfl _ rfl ⟨last, fun _ _ => .inl cancelled⟩

theorem unit_nodes {nodes : List Unit} (nodup : nodes.Nodup) (member : () ∈ nodes) : nodes = [()] := by
  cases nodes with
  | nil => cases member
  | cons _ rest =>
    cases rest with
    | nil => rfl
    | cons _ rest => exact absurd List.mem_cons_self (List.nodup_cons.mp nodup).1

theorem fulfil_frameOk (second : Option σ) {request : TRequest σ} {codes : List ErrorCode}
    {given : List (Option σ)} (here : f.phase.request = some request)
    (unset : request.event.isSet = false) (ok : FrameOk (some f) codes given) :
    FrameOk (some { f with
        phase := f.phase.withRequest { request with second, event := request.event.set.1 } })
      (codes ++ request.event.set.2.map Prod.snd) (given ++ [second]) := by
  cases phase : f.phase with
  | spawned => simp [phase, GetPhase.request] at here
  | returned result => simp [phase, GetPhase.request] at here
  | threw e => simp [phase, GetPhase.request] at here
  | starting own =>
    obtain rfl : own = request := by simpa [phase, GetPhase.request] using here
    simp only [FrameOk, phase] at ok
    obtain ⟨silent, same, unstarted, wf, fresh⟩ := ok
    have idle : own.event.operations.nodes = [] := by
      rw [List.eq_nil_iff_forall_not_mem]
      intro i member
      have waits := (wf.linked i).mp member
      simp [fresh] at waits
    have walked := AwaitableEvent.walking_set wf
    refine ⟨?_, ?_, unstarted, AwaitableEvent.set_wellFormed wf, ?_⟩
    · simp [silent, AwaitableEvent.set_posted wf, idle]
    · simp [same, TRequest.given, unset, walked.isSet]
    · rw [AwaitableEvent.set_operation wf]
      simp [idle, fresh]
  | waiting own =>
    obtain rfl : own = request := by simpa [phase, GetPhase.request] using here
    simp only [FrameOk, phase] at ok
    obtain ⟨same, wf, waits⟩ := ok
    have walked := AwaitableEvent.walking_set wf
    refine ⟨?_, AwaitableEvent.set_wellFormed wf, ?_⟩
    · simp [same, TRequest.given, unset, walked.isSet]
    · rcases waits with ⟨pending, silent⟩ | ⟨finished, ⟨_, isSet⟩ | canceled⟩
      · have nodes := unit_nodes own.event.operations.nodup ((wf.linked ()).mpr pending)
        refine .inr ⟨?_, .inl ⟨?_, walked.isSet⟩⟩
        · rw [AwaitableEvent.set_operation wf, nodes]
          simp
        · simp [silent, AwaitableEvent.set_posted wf, nodes]
      · simp [unset] at isSet
      · have idle : own.event.operations.nodes = [] := by
          rw [List.eq_nil_iff_forall_not_mem]
          intro i member
          have waits := (wf.linked i).mp member
          simp [finished] at waits
        refine .inr ⟨?_, .inr ⟨?_, canceled.2⟩⟩
        · rw [AwaitableEvent.set_operation wf, idle]
          simpa using finished
        · simp [canceled.1, AwaitableEvent.set_posted wf, idle]

theorem response_empty {r : ρ} {second : Option σ} (empty : p.queue (classify second) = []) :
    p.responseBody classify r second = p := by
  have nothing : (p.requests (classify second)).bind LinkedList.popFront = none := by
    unfold queue at empty
    cases requests : p.requests (classify second) with
    | none => rfl
    | some l => simpa [requests, LinkedList.popFront_none] using empty
  simp [responseBody, nothing]

structure Popped (p q : AsyncProxyProvider γ ρ κ σ) (g : γ) (f : GetFrame σ) (request : TRequest σ)
    (r : ρ) (second : Option σ) (c : κ) (rest : List γ) : Prop where
  frames : q.frames = Function.update p.frames g (some { f with
    phase := f.phase.withRequest { request with second, event := request.event.set.1 } })
  queue : ∀ d, q.queue d = if d = c then rest else p.queue d
  strand : q.strand = p.strand ++ resumptions g request.event.set.2
  entered : q.entered = p.entered
  served : q.served = p.served ++ [⟨g, r, second, c⟩]
  responses : q.responses = p.responses

theorem response_popped (ok : Consistent classify p) {r : ρ} {second : Option σ} {rest : List γ}
    (front : p.queue (classify second) = g :: rest) :
    ∃ f request, p.frames g = some f ∧ classify f.first = classify second ∧
      f.phase.request = some request ∧ request.event.isSet = false ∧
      Popped p (p.responseBody classify r second) g f request r second (classify second) rest := by
  have member : g ∈ p.queue (classify second) := by simp [front]
  obtain ⟨f, here, rClass, pending⟩ := (ok.registered.linked _ g).mp member
  obtain ⟨request, there, unset⟩ := pending_iff.mp pending
  refine ⟨f, request, here, rClass, there, unset, ?_⟩
  unfold queue at front
  cases requests : p.requests (classify second) with
  | none => simp [requests] at front
  | some l =>
    simp only [requests] at front
    have nodup := List.nodup_cons.mp (front ▸ l.nodup)
    have popped : l.popFront = some (g, ⟨rest, nodup.2⟩) := LinkedList.popFront_some.mpr front
    have body : p.responseBody classify r second =
        { p with
          requests := Function.update p.requests (classify second) (some ⟨rest, nodup.2⟩)
          served := p.served ++ [Match.mk g r second (classify second)] }.fulfil g f request second := by
      simp only [responseBody, requests, Option.bind_some, popped, here, there]
    rw [body]
    refine ⟨rfl, fun d => ?_, rfl, rfl, rfl, rfl⟩
    by_cases same : d = classify second <;> simp [queue, fulfil, post, setFrame, same]

theorem response_consistent (ok : Consistent classify p) (r : ρ) (second : Option σ) :
    Consistent classify (p.responseBody classify r second) := by
  cases front : p.queue (classify second) with
  | nil =>
    rw [response_empty front]
    exact ok
  | cons g rest =>
    obtain ⟨f, request, here, rClass, there, unset, popped⟩ := response_popped (r := r) ok front
    have before := ok.frame g
    rw [here] at before
    have after := fulfil_frameOk second there unset before
    have fresh : g ∉ rest := (List.nodup_cons.mp (front ▸ queue_nodup p (classify second))).1
    have idle : GetFrame.pending { f with
        phase := f.phase.withRequest { request with second, event := request.event.set.1 } } = false := by
      have set := (AwaitableEvent.walking_set (ok.wellFormed here there)).isSet
      cases phase : f.phase <;> simp_all [GetFrame.pending, GetPhase.withRequest, GetPhase.request]
    refine Consistent.update (ok.registered.update popped.frames ?_ ?_ ?_) popped.frames ?_ ?_
    · intro c h
      have linked := ok.registered.linked c h
      rw [popped.queue c]
      by_cases same : h = g
      · subst same
        simp only [idle]
        by_cases own : c = classify second
        · simp [own, fresh]
        · simp [own, linked, here, rClass, Ne.symm own]
      · by_cases own : c = classify second
        · subst own
          simp [same, front]
        · simp [own, same]
    · intro m member
      rw [popped.served] at member
      rcases List.mem_append.mp member with old | new
      · split
        · rename_i same
          obtain ⟨own, k, known, sClass⟩ := ok.registered.classes m old
          rw [same, here] at known
          cases known
          exact ⟨own, sClass⟩
        · exact old
      · rw [List.mem_singleton] at new
        simp [new, rClass]
    · intro e member
      rw [popped.entered] at member
      split
      · rename_i same
        obtain ⟨k, known, own, begun⟩ := ok.registered.entries e member
        rw [same, here] at known
        cases known
        refine ⟨own, ?_⟩
        cases phase : f.phase <;> simp_all [GetFrame.begun, GetPhase.withRequest]
      · exact member
    · intro h other
      have fine := ok.frame h
      rw [popped.strand, popped.served, completions_append, given_append, completions_resumptions,
        if_neg (Ne.symm other), List.append_nil]
      simpa [given, Ne.symm other] using fine
    · rw [popped.strand, popped.served, completions_append, given_append, completions_resumptions,
        if_pos rfl]
      simpa [given] using after

omit [DecidableEq κ] in
theorem Consistent.resumed (ok : Consistent classify p) {ec : ErrorCode}
    (queued : .resume g ec ∈ p.strand) :
    ∃ f request, p.frames g = some f ∧ f.phase = .waiting request := by
  have before := ok.frame g
  have code : ec ∈ completions g p.strand := List.mem_filterMap.mpr ⟨_, queued, by simp⟩
  cases here : p.frames g with
  | none =>
    rw [here] at before
    simp [before.1] at code
  | some f =>
    rw [here] at before
    cases phase : f.phase with
    | waiting request => exact ⟨f, request, rfl, phase⟩
    | spawned | starting _ | returned _ | threw _ =>
      simp only [FrameOk, phase] at before
      simp [before.1] at code

theorem execute_consistent (ok : Consistent classify p) {handler : ProviderHandler γ ρ σ}
    {rest : List (ProviderHandler γ ρ σ)} (head : p.strand = handler :: rest) :
    Consistent classify ({ p with strand := rest }.execute classify handler) := by
  cases handler with
  | get g =>
    have popped := ok.pop head fun _ => rfl
    simp only [execute]
    split
    · rename_i f here
      split
      · rename_i spawned
        exact getBody_consistent popped here spawned
      · exact popped
    · exact popped
  | started g result =>
    have popped := ok.pop head fun _ => rfl
    simp only [execute]
    split
    · rename_i f here
      split
      · rename_i request starting
        exact afterStart_consistent popped here starting result
      · exact popped
    · exact popped
  | resume g ec =>
    have queued : .resume g ec ∈ p.strand := by simp [head]
    obtain ⟨f, request, here, waiting⟩ := ok.resumed queued
    simp only [execute, here, waiting]
    exact afterWait_consistent ok here waiting head
  | emit g =>
    have popped := ok.pop head fun _ => rfl
    simp only [execute]
    split
    · rename_i f here
      exact emit_consistent popped here
    · exact popped
  | response r second => exact response_consistent (ok.pop head fun _ => rfl) r second

variable [DecidableEq ρ]

theorem consistent_next {a : Action γ ρ σ} (ok : Consistent classify p)
    (taken : (provider classify).next p a = some q) : Consistent classify q := by
  cases a with
  | get g first immediate =>
    simp only [provider] at taken
    split at taken
    · cases taken
    · rename_i unknown
      cases taken
      have before := ok.frame g
      rw [unknown] at before
      let fresh : GetFrame σ := ⟨first, immediate, .spawned, false, none⟩
      have entering : Consistent classify (p.setFrame g fresh) := by
        refine Consistent.update (p := p) (f := fresh) (ok.registered.update rfl ?_ ?_ ?_) rfl
          (fun h _ => ok.frame h) ⟨before.1, before.2, rfl⟩
        · intro c h
          by_cases same : h = g
          · subst same
            simp [ok.registered.linked, unknown, GetFrame.pending, GetPhase.request]
          · simp [same]
        · intro m member
          split
          · rename_i same
            obtain ⟨_, k, known, _⟩ := ok.registered.classes m member
            rw [same, unknown] at known
            cases known
          · exact member
        · intro e member
          split
          · rename_i same
            obtain ⟨k, known, _⟩ := ok.registered.entries e member
            rw [same, unknown] at known
            cases known
          · exact member
      exact post_consistent entering fun _ => rfl
  | asyncResponse r second =>
    simp only [provider] at taken
    split at taken
    · cases taken
    · cases taken
      have posted : Consistent classify (p.post [.response r second]) :=
        post_consistent ok fun _ => rfl
      exact ⟨⟨posted.registered.linked, posted.registered.classes, posted.registered.entries⟩,
        posted.frame⟩
  | startDone g result =>
    simp only [provider] at taken
    split at taken
    · cases taken
      exact post_consistent ok fun _ => rfl
    · cases taken
  | cancel g =>
    cases taken
    exact post_consistent ok fun _ => rfl
  | run =>
    simp only [provider] at taken
    split at taken
    · cases taken
    · rename_i handler rest head
      cases taken
      exact execute_consistent ok head

theorem consistent (reached : (provider classify).Reachable p) : Consistent classify p := by
  refine reached.invariant ⟨⟨?_, ?_, ?_⟩, fun g => ⟨rfl, rfl⟩⟩ fun _ _ _ => consistent_next
  · simp [provider, new, queue]
  · simp [provider, new]
  · simp [provider, new]

end AsyncProxyProvider

end BoostBase
