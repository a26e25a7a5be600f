import BoostBase.Network.AsyncProxyProviderLine

namespace BoostBase.AsyncProxyProvider

open Asio Intrusive Transition FifoMatching

variable {γ ρ κ σ : Type} {classify : Option σ → κ} {p q : AsyncProxyProvider γ ρ κ σ}
variable {g : γ} {f : GetFrame σ} {as : List (Action γ ρ σ)}

def queuedResponses (strand : List (ProviderHandler γ ρ σ)) : List ρ :=
  strand.filterMap fun
    | .response r _ => some r
    | _ => none

theorem queuedResponses_append (before after : List (ProviderHandler γ ρ σ)) :
    queuedResponses (before ++ after) = queuedResponses before ++ queuedResponses after :=
  List.filterMap_append

theorem mem_queuedResponses {r : ρ} {strand : List (ProviderHandler γ ρ σ)} :
    r ∈ queuedResponses strand ↔ ∃ second, .response r second ∈ strand := by
  simp only [queuedResponses, List.mem_filterMap]
  constructor
  · intro both
    rcases both with ⟨h, member, same⟩
    cases h <;> simp at same
    exact ⟨_, same ▸ member⟩
  · intro both
    rcases both with ⟨second, member⟩
    exact ⟨_, member, rfl⟩

/-- Every response that is queued or was served comes from one call of `asyncResponse`. -/
structure Issued (as : List (Action γ ρ σ)) (p : AsyncProxyProvider γ ρ κ σ) : Prop where
  queued : ∀ r second, .response r second ∈ p.strand → .asyncResponse r second ∈ as
  served : ∀ m ∈ p.served, .asyncResponse m.response m.second ∈ as
  known : ∀ r ∈ p.served.map Match.response ++ queuedResponses p.strand, r ∈ p.responses
  distinct : (p.served.map Match.response ++ queuedResponses p.strand).Nodup

/-- The step is not a response's: nothing is served and no response is posted. -/
structure Quiet (p q : AsyncProxyProvider γ ρ κ σ) : Prop where
  served : q.served = p.served
  responses : q.responses = p.responses
  strand : ∃ posted, q.strand = p.strand ++ posted ∧ queuedResponses posted = []

theorem Quiet.post (p : AsyncProxyProvider γ ρ κ σ) {posted : List (ProviderHandler γ ρ σ)}
    (silent : queuedResponses posted = []) : Quiet p (p.post posted) := ⟨rfl, rfl, posted, rfl, silent⟩

theorem Quiet.refl (p : AsyncProxyProvider γ ρ κ σ) : Quiet p p :=
  ⟨rfl, rfl, [], (List.append_nil _).symm, rfl⟩

theorem Issued.quiet (issued : Issued as p) (step : Quiet p q) (a : Action γ ρ σ) :
    Issued (as ++ [a]) q := by
  obtain ⟨served, responses, posted, strand, silent⟩ := step
  have queued : queuedResponses q.strand = queuedResponses p.strand := by
    rw [strand, queuedResponses_append, silent, List.append_nil]
  refine ⟨?_, ?_, ?_, ?_⟩
  · intro r second member
    have old : r ∈ queuedResponses p.strand := queued ▸ mem_queuedResponses.mpr ⟨second, member⟩
    rw [strand] at member
    rcases List.mem_append.mp member with before | now
    · exact List.mem_append_left _ (issued.queued r second before)
    · have absurd_ : r ∈ queuedResponses posted := mem_queuedResponses.mpr ⟨second, now⟩
      simp [silent] at absurd_
  · rw [served]
    exact fun m member => List.mem_append_left _ (issued.served m member)
  · rw [served, responses, queued]
    exact issued.known
  · rw [served, queued]
    exact issued.distinct

theorem Issued.same_match (issued : Issued as p) {m n : Match γ ρ κ σ} (left : m ∈ p.served)
    (right : n ∈ p.served) (same : m.response = n.response) : m = n :=
  List.inj_on_of_nodup_map (List.nodup_append.mp issued.distinct).1 left right same

theorem Issued.pop (issued : Issued as p) {handler : ProviderHandler γ ρ σ}
    {rest : List (ProviderHandler γ ρ σ)} (head : p.strand = handler :: rest) :
    Issued as { p with strand := rest } := by
  have sub : (p.served.map Match.response ++ queuedResponses rest).Sublist
      (p.served.map Match.response ++ queuedResponses p.strand) := by
    rw [head]
    exact ((List.sublist_cons_self handler rest).filterMap _).append_left _
  refine ⟨fun r second member => issued.queued r second ?_, issued.served, ?_, ?_⟩
  · rw [head]
    exact List.mem_cons_of_mem _ member
  · exact fun r member => issued.known r (sub.subset member)
  · exact issued.distinct.sublist sub

theorem resumptions_queued (g : γ) (posted : List (AwaitableEvent.Completion Unit)) :
    queuedResponses (resumptions (ρ := ρ) (σ := σ) g posted) = [] := by
  rw [queuedResponses, List.filterMap_eq_nil_iff]
  intro h member
  obtain ⟨completion, _, rfl⟩ := List.mem_map.mp member
  rfl

variable [DecidableEq γ]

theorem finish_quiet (p : AsyncProxyProvider γ ρ κ σ) (g : γ) (f : GetFrame σ) (outcome : GetPhase σ) :
    Quiet p (p.finish g f outcome) := ⟨rfl, rfl, [], by simp [finish, setFrame], rfl⟩

theorem setFrame_quiet (p : AsyncProxyProvider γ ρ κ σ) (g : γ) (f : GetFrame σ)
    (posted : List (AwaitableEvent.Completion Unit)) :
    Quiet p ((p.setFrame g f).post (resumptions g posted)) :=
  ⟨rfl, rfl, _, rfl, resumptions_queued g posted⟩

theorem afterStart_quiet (p : AsyncProxyProvider γ ρ κ σ) (g : γ) (f : GetFrame σ)
    (request : TRequest σ) (result : StartResult) : Quiet p (p.afterStart g f request result) := by
  unfold afterStart
  split
  · exact finish_quiet _ _ _ _
  · exact finish_quiet _ _ _ _
  · dsimp only
    split
    · exact finish_quiet _ _ _ _
    · exact setFrame_quiet _ _ _ _

theorem afterWait_quiet (p : AsyncProxyProvider γ ρ κ σ) (g : γ) (f : GetFrame σ)
    (request : TRequest σ) (ec : ErrorCode) : Quiet p (p.afterWait g f request ec) := by
  unfold afterWait
  split
  · exact finish_quiet _ _ _ _
  · split <;> exact finish_quiet _ _ _ _

theorem emit_quiet (p : AsyncProxyProvider γ ρ κ σ) (g : γ) (f : GetFrame σ) :
    Quiet p (p.emit g f) := by
  unfold emit
  split
  · exact setFrame_quiet _ _ _ _
  · exact ⟨rfl, rfl, [], by simp [setFrame], rfl⟩

variable [DecidableEq κ]

theorem getBody_quiet (p : AsyncProxyProvider γ ρ κ σ) (g : γ) (f : GetFrame σ) :
    Quiet p (p.getBody classify g f) := by
  unfold getBody
  split
  · exact finish_quiet _ _ _ _
  · dsimp only
    split
    · exact ⟨rfl, rfl, [], by simp [enqueue, setFrame], rfl⟩
    · obtain ⟨served, responses, posted⟩ := afterStart_quiet
        (p.enqueue g f ⟨f.first, none, .new⟩ (classify f.first)) g _ _ _
      exact ⟨served, responses, posted⟩

theorem execute_quiet (p : AsyncProxyProvider γ ρ κ σ) {handler : ProviderHandler γ ρ σ}
    (other : ∀ r second, handler ≠ .response r second) : Quiet p (p.execute classify handler) := by
  cases handler with
  | get g =>
    simp only [execute]
    split
    · split
      · exact getBody_quiet _ _ _
      · exact .refl _
    · exact .refl _
  | started g result =>
    simp only [execute]
    split
    · split
      · exact afterStart_quiet _ _ _ _ _
      · exact .refl _
    · exact .refl _
  | resume g ec =>
    simp only [execute]
    split
    · split
      · exact afterWait_quiet _ _ _ _ _
      · exact .refl _
    · exact .refl _
  | emit g =>
    simp only [execute]
    split
    · exact emit_quiet _ _ _
    · exact .refl _
  | response r second => exact absurd rfl (other r second)

theorem Issued.response (ok : Consistent classify p) (issued : Issued as p) {r : ρ}
    {second : Option σ} {rest : List (ProviderHandler γ ρ σ)}
    (head : p.strand = .response r second :: rest) (a : Action γ ρ σ) :
    Issued (as ++ [a]) ({ p with strand := rest }.responseBody classify r second) := by
  have popped := ok.pop head fun _ => rfl
  cases front : queue { p with strand := rest } (classify second) with
  | nil =>
    rw [response_empty front]
    exact (issued.pop head).quiet (.refl _) a
  | cons g line =>
    obtain ⟨f, request, _, _, _, _, stored⟩ := response_popped (r := r) popped front
    have order : p.served.map Match.response ++ queuedResponses p.strand =
        p.served.map Match.response ++ [r] ++ queuedResponses rest := by
      rw [head]
      simp [queuedResponses]
    have queued : queuedResponses
        ({ p with strand := rest }.responseBody classify r second).strand = queuedResponses rest := by
      rw [stored.strand, queuedResponses_append, resumptions_queued, List.append_nil]
    refine ⟨?_, ?_, ?_, ?_⟩
    · intro s third member
      rw [stored.strand] at member
      rcases List.mem_append.mp member with before | now
      · refine List.mem_append_left _ (issued.queued s third ?_)
        rw [head]
        exact List.mem_cons_of_mem _ before
      · have absurd_ := mem_queuedResponses.mpr ⟨third, now⟩
        simp [resumptions_queued] at absurd_
    · intro m member
      rw [stored.served] at member
      apply List.mem_append_left _
      rcases List.mem_append.mp member with before | now
      · exact issued.served m before
      · rw [List.mem_singleton.mp now]
        exact issued.queued r second (head ▸ List.mem_cons_self)
    · rw [queued, stored.served, stored.responses]
      have known := issued.known
      rw [order] at known
      simpa using known
    · rw [queued, stored.served]
      have distinct := issued.distinct
      rw [order] at distinct
      simpa using distinct

variable [DecidableEq ρ]

theorem issued_next (ok : Consistent classify p) (issued : Issued as p) {a : Action γ ρ σ}
    (taken : (provider classify).next p a = some q) : Issued (as ++ [a]) q := by
  cases a with
  | get g first immediate =>
    simp only [provider] at taken
    split at taken
    · cases taken
    · cases taken
      refine issued.quiet ?_ _
      exact ⟨rfl, rfl, [.get g], rfl, rfl⟩
  | asyncResponse r second =>
    simp only [provider] at taken
    split at taken
    · cases taken
    · rename_i fresh
      cases taken
      have queued : queuedResponses (p.strand ++ [.response r second]) =
          queuedResponses p.strand ++ [r] := queuedResponses_append _ _
      refine ⟨?_, ?_, ?_, ?_⟩
      · intro s third member
        rcases List.mem_append.mp member with before | now
        · exact List.mem_append_left _ (issued.queued s third before)
        · cases List.mem_singleton.mp now
          simp
      · exact fun m member => List.mem_append_left _ (issued.served m member)
      · intro s member
        simp only [post, queued, ← List.append_assoc] at member ⊢
        rcases List.mem_append.mp member with before | now
        · exact List.mem_append_left _ (issued.known s before)
        · exact List.mem_append_right _ now
      · simp only [post, queued, ← List.append_assoc]
        exact nodup_snoc issued.distinct fun member => fresh (issued.known r member)
  | startDone g result =>
    simp only [provider] at taken
    split at taken
    · cases taken
      exact issued.quiet (.post p rfl) _
    · cases taken
  | cancel g =>
    cases taken
    exact issued.quiet (.post p rfl) _
  | run =>
    simp only [provider] at taken
    split at taken
    · cases taken
    · rename_i handler rest head
      cases taken
      cases handler with
      | response r second => exact issued.response ok head .run
      | get _ | started _ _ | resume _ _ | emit _ =>
        exact (issued.pop head).quiet (execute_quiet _ (by simp)) .run

theorem issued (ran : (provider classify).run (provider classify).initial as = some p) :
    Issued as p := by
  refine (Machine.run_history (fun as p => Consistent classify p ∧ Issued as p)
    ⟨consistent .initial, ?_⟩ ?_ ran).2
  · exact ⟨by simp [provider, new], by simp [provider, new], by simp [provider, new, queuedResponses],
      by simp [provider, new, queuedResponses]⟩
  · rintro as p a q ⟨ok, issued⟩ taken
    exact ⟨consistent_next ok taken, issued_next ok issued taken⟩

def unanswered (p : AsyncProxyProvider γ ρ κ σ) (g : γ) : Bool :=
  g ∉ p.served.map Match.get &&
    match p.frames g with
    | some f => !f.phase.ended
    | none => true

theorem queue_eq (reached : (provider classify).Reachable p) (c : κ) :
    p.queue c = ((p.entered.filter fun e => e.2 = c).map Prod.fst).filter p.unanswered := by
  have ok := consistent reached
  apply (lined reached c).waiting_eq p.unanswered
  intro g arrived
  obtain ⟨e, entry, rfl⟩ := List.mem_map.mp arrived
  obtain ⟨member, own⟩ := List.mem_filter.mp entry
  obtain ⟨f, here, rClass, _⟩ := ok.registered.entries e member
  have ofClass : classify f.first = c := rClass.trans (of_decide_eq_true own)
  have unserved : e.1 ∉ (p.line classify c).served.map Prod.fst ↔ e.1 ∉ p.served.map Match.get := by
    rw [not_iff_not]
    constructor
    · intro served
      obtain ⟨_, pair, same⟩ := List.mem_map.mp served
      obtain ⟨m, match_, rfl⟩ := List.mem_map.mp pair
      exact same ▸ List.mem_map_of_mem (List.mem_filter.mp match_).1
    · intro served
      obtain ⟨m, match_, same⟩ := List.mem_map.mp served
      obtain ⟨_, k, there, sClass⟩ := ok.registered.classes m match_
      rw [same, here] at there
      cases there
      exact same ▸ List.mem_map_of_mem (mem_line_served match_ (sClass.symm.trans ofClass))
  have remains : e.1 ∉ (p.line classify c).departed ↔ f.phase.ended = false := by
    simp [line, departed, here, ofClass]
  rw [unserved, remains]
  simp [unanswered, here]

theorem matched_once (reached : (provider classify).Reachable p) (issued : Issued as p)
    {m n : Match γ ρ κ σ} (left : m ∈ p.served) (right : n ∈ p.served) (same : n.get = m.get) :
    n = m := by
  have ok := consistent reached
  obtain ⟨_, f, here, ofClass⟩ := ok.registered.classes m left
  obtain ⟨_, k, there, sClass⟩ := ok.registered.classes n right
  rw [same, here] at there
  cases there
  have pairs : (n.get, n.response) = (m.get, m.response) :=
    List.inj_on_of_nodup_map (lined reached (classify f.first)).served_once
      (mem_line_served right sClass.symm) (mem_line_served left ofClass.symm) same
  exact issued.same_match right left (congrArg Prod.snd pairs)

theorem matched_in_order (reached : (provider classify).Reachable p) {c : κ} {m n : Match γ ρ κ σ}
    (left : m ∈ p.served) (right : n ∈ p.served)
    (order : Precedes p.entered (m.get, c) (n.get, c)) : Precedes p.served m n := by
  have ok := consistent reached
  have line := lined reached c
  have ofClass {k : Match γ ρ κ σ} (member : k ∈ p.served) (entry : (k.get, c) ∈ p.entered) :
      k.sClass = c := by
    obtain ⟨_, f, here, sClass⟩ := ok.registered.classes k member
    obtain ⟨f', there, rClass, _⟩ := ok.registered.entries _ entry
    rw [here] at there
    cases there
    exact sClass.symm.trans rClass
  have first := ofClass left (order.subset (by simp))
  have second := ofClass right (order.subset (by simp))
  have arrived : Precedes (p.line classify c).arrived m.get n.get := line_precedes.mpr order
  have forward := line.served_in_order arrived (mem_line_served left first)
    (mem_line_served right second)
  have different : m ≠ n := by
    intro same
    subst same
    exact arrived.asymm line.distinct arrived
  refine (precedes_or left right different).resolve_right fun backward => ?_
  have kept := backward.filter (fun k => decide (k.sClass = c)) (by simp [second]) (by simp [first])
  exact forward.asymm line.served_once.of_map (kept.map fun k : Match γ ρ κ σ => (k.get, k.response))

omit [DecidableEq κ] [DecidableEq ρ] in
theorem mem_given {m : Match γ ρ κ σ} (member : m ∈ p.served) : m.second ∈ given m.get p.served :=
  List.mem_filterMap.mpr ⟨m, member, by simp⟩

theorem returned_match (reached : (provider classify).Reachable p) (issued : Issued as p)
    {result : σ} (here : p.frames g = some f) (returned : f.phase = .returned result) :
    ∃ m ∈ p.served, (m.get = g ∧ ∀ n ∈ p.served, n.get = g → n = m) ∧ m.second = some result ∧
      .asyncResponse m.response (some result) ∈ as ∧ classify (some result) = classify f.first := by
  have ok := consistent reached
  have frame := ok.frame g
  simp only [here, FrameOk, returned] at frame
  have gave : some result ∈ given g p.served := by simp [frame.2]
  obtain ⟨m, member, chosen⟩ := List.mem_filterMap.mp gave
  split at chosen
  · rename_i same
    have brought : m.second = some result := Option.some.inj chosen
    obtain ⟨own, k, there, sClass⟩ := ok.registered.classes m member
    rw [same, here] at there
    cases there
    refine ⟨m, member, ⟨same, fun n other get => ?_⟩, brought, ?_, ?_⟩
    · exact matched_once reached issued member other (get.trans same.symm)
    · exact brought ▸ issued.served m member
    · rw [sClass, own, brought]
  · cases chosen

omit [DecidableEq κ] [DecidableEq ρ] in
theorem match_returned (ok : Consistent classify p) {m : Match γ ρ κ σ} (member : m ∈ p.served)
    (here : p.frames m.get = some f) {result : σ} (session : m.second = some result)
    (started : f.started = some (.ok true)) (live : f.cancelled = false) :
    f.phase = .returned result ∨
      (∃ request, f.phase = .waiting request ∧ request.second = some result) ∧
        .resume m.get .success ∈ p.strand := by
  have gave : some result ∈ given m.get p.served := session ▸ mem_given member
  have frame := ok.frame m.get
  cases phase : f.phase with
  | spawned =>
    simp only [here, FrameOk, phase] at frame
    simp [frame.2.1] at gave
  | starting request =>
    simp only [here, FrameOk, phase] at frame
    simp [frame.2.2.1] at started
  | waiting request =>
    simp only [here, FrameOk, phase] at frame
    obtain ⟨same, wf, waits⟩ := frame
    rw [same, TRequest.given] at gave
    split at gave
    · rename_i isSet
      refine .inr ⟨⟨request, rfl, (List.mem_singleton.mp gave).symm⟩, ?_⟩
      rcases waits with ⟨pending, _⟩ | ⟨_, ⟨codes, _⟩ | ⟨_, cancelled⟩⟩
      · have linked := (wf.linked ()).mpr pending
        simp [wf.drained isSet] at linked
      · have code : ErrorCode.success ∈ completions m.get p.strand := by simp [codes]
        obtain ⟨h, queued, chosen⟩ := List.mem_filterMap.mp code
        cases h <;> simp at chosen
        obtain ⟨rfl, rfl⟩ := chosen
        exact queued
      · simp [live] at cancelled
    · cases gave
  | returned other =>
    simp only [here, FrameOk, phase] at frame
    rw [frame.2, List.mem_singleton] at gave
    exact .inl (congrArg _ (Option.some.inj gave).symm)
  | threw e =>
    simp only [here, FrameOk, phase] at frame
    rcases frame.2 result gave with cancelled | failed
    · simp [live] at cancelled
    · exact absurd started failed

/-- Requests and responses are matched one to one, by class and in the order of the
    queues, and a match of a request whose start succeeds is what its `get` returns. -/
theorem requests_match_responses
    (ran : (provider classify).run (provider classify).initial as = some p) :
    (∀ g f result, p.frames g = some f → f.phase = .returned result →
      ∃ m ∈ p.served, (m.get = g ∧ ∀ n ∈ p.served, n.get = g → n = m) ∧ m.second = some result ∧
        .asyncResponse m.response (some result) ∈ as ∧ classify (some result) = classify f.first) ∧
    (p.served.map Match.response).Nodup ∧
    (∀ c, ∀ m ∈ p.served, ∀ n ∈ p.served,
      Precedes p.entered (m.get, c) (n.get, c) → Precedes p.served m n) ∧
    (∀ m ∈ p.served, ∀ f result, p.frames m.get = some f → m.second = some result →
      f.started = some (.ok true) → f.cancelled = false →
      f.phase = .returned result ∨
        (∃ request, f.phase = .waiting request ∧ request.second = some result) ∧
          .resume m.get .success ∈ p.strand) ∧
    ∀ c, p.queue c = ((p.entered.filter fun e => e.2 = c).map Prod.fst).filter p.unanswered := by
  have reached : (provider classify).Reachable p := ⟨as, ran⟩
  have issued := issued ran
  refine ⟨?_, (List.nodup_append.mp issued.distinct).1, ?_, ?_, queue_eq reached⟩
  · exact fun g f result here returned => returned_match reached issued here returned
  · exact fun c m left n right order => matched_in_order reached left right order
  · exact fun m member f result here session started live =>
      match_returned (consistent reached) member here session started live

/-- Two calls of one class and two responses, the first before its start has ended. -/
theorem requests_match_responses_two :
    ∃ p : AsyncProxyProvider Nat Nat Unit Nat,
      (provider fun _ => ()).run (provider fun _ => ()).initial
        [.get 0 (some 7) none, .get 1 (some 8) (some (.ok true)), .run, .run,
          .asyncResponse 0 (some 20), .asyncResponse 1 (some 21), .run, .run,
          .startDone 0 (.ok true), .run, .run, .run] = some p ∧
      (p.served.map Match.response).Nodup ∧ p.queue () = [] := by
  refine ⟨_, rfl, ?_, rfl⟩
  have ran : (provider (γ := Nat) (ρ := Nat) fun _ : Option Nat => ()).run (provider fun _ => ()).initial
      [.get 0 (some 7) none, .get 1 (some 8) (some (.ok true)), .run, .run,
        .asyncResponse 0 (some 20), .asyncResponse 1 (some 21), .run, .run,
        .startDone 0 (.ok true), .run, .run, .run] = some _ := rfl
  exact (requests_match_responses ran).2.1

/-- A null session given to a request before its start has ended is not returned:
    the call throws `host_unreachable`. -/
theorem null_match_throws : ∃ (p : AsyncProxyProvider Nat Nat Unit Unit) (f : GetFrame Unit),
    (provider fun _ => ()).run (provider fun _ => ()).initial
      [.get 0 (some ()) none, .run, .asyncResponse 0 none, .run, .startDone 0 (.ok true), .run,
        .run] = some p ∧
    p.strand = [] ∧ p.served = [⟨0, 0, none, ()⟩] ∧ p.frames 0 = some f ∧
    f.started = some (.ok true) ∧ f.cancelled = false ∧
    f.phase = .threw (.errorCode .hostUnreachable) := by
  exact ⟨_, _, rfl, rfl, rfl, rfl, rfl, rfl, rfl⟩

end BoostBase.AsyncProxyProvider
