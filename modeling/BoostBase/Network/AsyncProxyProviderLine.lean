import BoostBase.Network.AsyncProxyProviderInvariant
import BoostBase.Transition.FifoMatching

namespace BoostBase.AsyncProxyProvider

open Asio Intrusive Transition FifoMatching

variable {γ ρ κ σ : Type} [DecidableEq γ] [DecidableEq κ]
variable {classify : Option σ → κ} {p q : AsyncProxyProvider γ ρ κ σ} {g : γ} {f f' : GetFrame σ}

def departed (classify : Option σ → κ) (c : κ) (p : AsyncProxyProvider γ ρ κ σ) : Set γ :=
  {h | ∃ f, p.frames h = some f ∧ classify f.first = c ∧ f.phase.ended = true}

/-- The requests of one class as clients in line, the responses as those who serve. -/
def line (classify : Option σ → κ) (c : κ) (p : AsyncProxyProvider γ ρ κ σ) : Board γ ρ where
  arrived := (p.entered.filter fun e => e.2 = c).map Prod.fst
  waiting := p.queue c
  served := (p.served.filter fun m => m.sClass = c).map fun m => (m.get, m.response)
  departed := p.departed classify c

omit [DecidableEq γ] in
theorem mem_line_served {c : κ} {m : Match γ ρ κ σ} (member : m ∈ p.served) (own : m.sClass = c) :
    (m.get, m.response) ∈ (p.line classify c).served :=
  List.mem_map.mpr ⟨m, List.mem_filter.mpr ⟨member, by simp [own]⟩, rfl⟩

omit [DecidableEq γ] in
theorem line_precedes {c : κ} {g h : γ} :
    Precedes (p.line classify c).arrived g h ↔ Precedes p.entered (g, c) (h, c) := by
  constructor
  · intro order
    have entries : (p.line classify c).arrived.map (·, c) = p.entered.filter fun e => e.2 = c := by
      rw [line, List.map_map]
      refine (List.map_congr_left fun e member => ?_).trans (List.map_id _)
      have own : e.2 = c := of_decide_eq_true (List.mem_filter.mp member).2
      exact Prod.ext rfl own.symm
    have pairs := order.map (·, c)
    rw [entries] at pairs
    exact pairs.trans List.filter_sublist
  · intro order
    have kept := order.filter (fun e => decide (e.2 = c)) (by simp) (by simp)
    exact kept.map Prod.fst

omit [DecidableEq κ] in
theorem departed_update (frames : q.frames = Function.update p.frames g (some f'))
    (here : p.frames g = some f) (first : f'.first = f.first)
    (ended : f'.phase.ended = f.phase.ended) (c : κ) :
    q.departed classify c = p.departed classify c := by
  ext h
  simp only [departed, Set.mem_ofPred_eq, frames]
  by_cases same : h = g
  · subst same
    simp [here, first, ended]
  · simp [same]

theorem finish_steps (reg : Registered classify p) (here : p.frames g = some f)
    (first : f'.first = f.first) {outcome : GetPhase σ} (ended : outcome.ended = true) (c : κ) :
    board.Steps (p.line classify c) ((p.finish g f' outcome).line classify c) := by
  have waiting : (p.finish g f' outcome).queue c = (p.queue c).erase g := queue_unlink p g outcome c
  by_cases own : classify f.first = c
  · have leaves : (p.finish g f' outcome).departed classify c =
        insert g (p.departed classify c) := by
      ext h
      by_cases same : h = g
      · subst same
        simp [departed, finish, setFrame, first, own, ended]
      · simp [departed, finish, setFrame, same]
    exact .single (a := .depart g)
      (congrArg some (congrArg₂ (fun w d => Board.mk _ w _ d) waiting.symm leaves.symm))
  · have unlinked : g ∉ p.queue c := by
      intro member
      obtain ⟨k, there, rClass, _⟩ := (reg.linked c g).mp member
      rw [here] at there
      cases there
      exact own rClass
    have stays : (p.finish g f' outcome).departed classify c = p.departed classify c := by
      ext h
      by_cases same : h = g
      · subst same
        simp [departed, finish, setFrame, first, own, here]
      · simp [departed, finish, setFrame, same]
    rw [List.erase_of_not_mem unlinked] at waiting
    have unchanged : (p.finish g f' outcome).line classify c = p.line classify c :=
      congrArg₂ (fun w d => Board.mk _ w _ d) waiting stays
    rw [unchanged]
    exact .refl _

theorem setFrame_steps (here : p.frames g = some f) (f' : GetFrame σ) (first : f'.first = f.first)
    (ended : f'.phase.ended = f.phase.ended) (c : κ) :
    board.Steps (p.line classify c) ((p.setFrame g f').line classify c) := by
  have unchanged : (p.setFrame g f').line classify c = p.line classify c :=
    congrArg (Board.mk _ _ _) (departed_update rfl here first ended c)
  rw [unchanged]
  exact .refl _

theorem afterStart_steps (reg : Registered classify p) (here : p.frames g = some f)
    {request : TRequest σ} (starting : f.phase = .starting request) (result : StartResult) (c : κ) :
    board.Steps (p.line classify c) ((p.afterStart g f request result).line classify c) := by
  unfold afterStart
  split
  · exact finish_steps reg here (by rfl) rfl c
  · exact finish_steps reg here (by rfl) rfl c
  · dsimp only
    split
    · exact finish_steps reg here (by rfl) rfl c
    · exact setFrame_steps here _ (by rfl) (by simp [starting, GetPhase.ended]) c

theorem enqueue_steps (ok : Consistent classify p) (here : p.frames g = some f)
    (spawned : f.phase = .spawned) (request : TRequest σ) (c : κ) :
    board.Steps (p.line classify c)
      ((p.enqueue g f request (classify f.first)).line classify c) := by
  obtain ⟨_, unlinked, unentered⟩ := ok.spawned here spawned
  have stays : (p.enqueue g f request (classify f.first)).departed classify c =
      p.departed classify c :=
    departed_update rfl here (by rfl) (by simp [spawned, GetPhase.ended]) c
  have outside : p.departed classify c \ {g} = p.departed classify c := by
    refine Set.ext fun h => ⟨And.left, fun member => ⟨member, ?_⟩⟩
    intro same
    subst same
    obtain ⟨k, there, _, ended⟩ := member
    rw [here] at there
    cases there
    simp [spawned, GetPhase.ended] at ended
  have waiting := queue_enqueue (f := f) p request (classify f.first) c (unlinked _)
  by_cases own : c = classify f.first
  · subst own
    have absent : g ∉ (p.line classify (classify f.first)).arrived := by
      intro member
      obtain ⟨e, entry, rfl⟩ := List.mem_map.mp member
      exact unentered (List.mem_map_of_mem (List.mem_filter.mp entry).1)
    refine .single (a := .arrive g) ?_
    simp only [board, absent, if_false, Option.some.injEq]
    rw [if_pos rfl] at waiting
    simp only [line, waiting, stays, outside]
    simp [enqueue, setFrame]
  · have unchanged : (p.enqueue g f request (classify f.first)).line classify c =
        p.line classify c := by
      rw [if_neg own] at waiting
      simp only [line, waiting, stays]
      simp [enqueue, setFrame, Ne.symm own]
    rw [unchanged]
    exact .refl _

theorem getBody_steps (ok : Consistent classify p) (here : p.frames g = some f)
    (spawned : f.phase = .spawned) (c : κ) :
    board.Steps (p.line classify c) ((p.getBody classify g f).line classify c) := by
  unfold getBody
  split
  · exact finish_steps ok.registered here rfl rfl c
  · have queued := enqueue_steps ok here spawned ⟨f.first, none, .new⟩ c
    dsimp only
    split
    · exact queued
    · exact queued.trans
        (afterStart_steps (enqueue_consistent ok here spawned).registered
          (by simp [enqueue, setFrame]) rfl _ c)

theorem emit_steps (here : p.frames g = some f) (c : κ) :
    board.Steps (p.line classify c) ((p.emit g f).line classify c) := by
  unfold emit
  split
  · rename_i request waiting
    exact setFrame_steps here _ (by rfl) (by simp [waiting, GetPhase.ended]) c
  · exact setFrame_steps here { f with cancelled := true } rfl rfl c

theorem afterWait_steps (reg : Registered classify p) (here : p.frames g = some f)
    (request : TRequest σ) (ec : ErrorCode) (c : κ) :
    board.Steps (p.line classify c) ((p.afterWait g f request ec).line classify c) := by
  unfold afterWait
  split
  · exact finish_steps reg here rfl rfl c
  · split <;> exact finish_steps reg here rfl rfl c

theorem response_steps (ok : Consistent classify p) (r : ρ) (second : Option σ) (c : κ) :
    board.Steps (p.line classify c) ((p.responseBody classify r second).line classify c) := by
  cases front : p.queue (classify second) with
  | nil =>
    rw [response_empty front]
    exact .refl _
  | cons g rest =>
    obtain ⟨f, request, here, _, there, _, popped⟩ := response_popped (r := r) ok front
    have stays : (p.responseBody classify r second).departed classify c = p.departed classify c :=
      departed_update popped.frames here rfl
        (by cases phase : f.phase <;> simp_all [GetPhase.ended, GetPhase.withRequest]) c
    by_cases own : c = classify second
    · subst own
      refine .single (a := .serve r) ?_
      simp only [board, line, front, popped.queue, popped.entered, popped.served, stays]
      simp
    · have unchanged : (p.responseBody classify r second).line classify c = p.line classify c := by
        simp only [line, popped.queue, popped.entered, popped.served, stays]
        simp [own, Ne.symm own]
      rw [unchanged]
      exact .refl _

theorem execute_steps (ok : Consistent classify p) {handler : ProviderHandler γ ρ σ}
    {rest : List (ProviderHandler γ ρ σ)} (head : p.strand = handler :: rest) (c : κ) :
    board.Steps (p.line classify c)
      (({ p with strand := rest }.execute classify handler).line classify c) := by
  have reg : Registered classify { p with strand := rest } :=
    ⟨ok.registered.linked, ok.registered.classes, ok.registered.entries⟩
  change board.Steps (AsyncProxyProvider.line classify c { p with strand := rest }) _
  cases handler with
  | get g =>
    simp only [execute]
    split
    · rename_i f here
      split
      · rename_i spawned
        exact getBody_steps (ok.pop head fun _ => rfl) here spawned c
      · exact .refl _
    · exact .refl _
  | started g result =>
    simp only [execute]
    split
    · rename_i f here
      split
      · rename_i request starting
        exact afterStart_steps reg here starting result c
      · exact .refl _
    · exact .refl _
  | resume g ec =>
    simp only [execute]
    split
    · rename_i f here
      split
      · exact afterWait_steps reg here _ ec c
      · exact .refl _
    · exact .refl _
  | emit g =>
    simp only [execute]
    split
    · rename_i f here
      exact emit_steps (p := { p with strand := rest }) here c
    · exact .refl _
  | response r second => exact response_steps (ok.pop head fun _ => rfl) r second c

variable [DecidableEq ρ]

def inLine (classify : Option σ → κ) (c : κ) :
    Simulation (provider (γ := γ) (ρ := ρ) classify) (board (γ := γ) (ρ := ρ)) where
  abs := line classify c
  starts := by simp [line, departed, provider, new, queue, board]
  follows p a q reached taken := by
    have ok := consistent reached
    cases a with
    | get g first immediate =>
      simp only [provider] at taken
      split at taken
      · cases taken
      · rename_i unknown
        cases taken
        have stays : (p.setFrame g ⟨first, immediate, .spawned, false, none⟩).departed classify c =
            p.departed classify c := by
          ext h
          by_cases same : h = g
          · subst same
            simp [departed, setFrame, unknown, GetPhase.ended]
          · simp [departed, setFrame, same]
        have unchanged : ((p.setFrame g ⟨first, immediate, .spawned, false, none⟩).post
            [.get g]).line classify c = p.line classify c := congrArg (Board.mk _ _ _) stays
        rw [unchanged]
        exact .refl _
    | asyncResponse r second =>
      simp only [provider] at taken
      split at taken
      · cases taken
      · cases taken
        exact .refl _
    | startDone g result =>
      simp only [provider] at taken
      split at taken
      · cases taken
        exact .refl _
      · cases taken
    | cancel g =>
      cases taken
      exact .refl _
    | run =>
      simp only [provider] at taken
      split at taken
      · cases taken
      · rename_i handler rest head
        cases taken
        exact execute_steps ok head c

theorem lined (reached : (provider classify).Reachable p) (c : κ) : InLine (p.line classify c) :=
  FifoMatching.inLine ((inLine classify c).reachable reached)

end BoostBase.AsyncProxyProvider
