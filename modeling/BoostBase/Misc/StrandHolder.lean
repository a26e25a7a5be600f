import BoostBase.Transition.Delegation
import BoostBase.Transition.Machine

namespace BoostBase

open Transition Transition.Delegation

/-- `executor` is the strand the holder owns, `other` the holder it delegates to. -/
structure StrandHolder (ι σ : Type) where
  executor : Option σ
  other : Option ι
  deriving DecidableEq

/-- What a call of `executor` comes to; `unfinished` needs more calls than it was given. -/
inductive ExecutorCall (σ : Type)
  | unfinished
  | nullDereference
  | returned (strand : σ)
  deriving DecidableEq

abbrev StrandHolders (ι σ : Type) := ι → StrandHolder ι σ

structure SetStrand (ι : Type) where
  receiver : ι
  s : Option ι
  deriving DecidableEq

namespace StrandHolders

variable {ι σ : Type}

/-- Every holder right after its constructor; `make` is the strand made for it. -/
def new (make : ι → σ) : StrandHolders ι σ := fun h => ⟨some (make h), none⟩

def setStrand [DecidableEq ι] (holders : StrandHolders ι σ) (h : ι) (s : Option ι) :
    StrandHolders ι σ := Function.update holders h ⟨none, s⟩

def dereference : Option σ → ExecutorCall σ
  | none => .nullDereference
  | some strand => .returned strand

def executor (holders : StrandHolders ι σ) : Nat → ι → ExecutorCall σ
  | 0, _ => .unfinished
  | fuel + 1, h =>
    match (holders h).other with
    | some t => executor holders fuel t
    | none => dereference (holders h).executor

def others (holders : StrandHolders ι σ) : ι → Option ι := fun h => (holders h).other

/-- The argument is a holder, and its chain does not lead back to the receiver. -/
def Sound (holders : StrandHolders ι σ) (c : SetStrand ι) : Prop :=
  ∃ t, c.s = some t ∧ ¬ Passes holders.others t c.receiver

def machine [DecidableEq ι] (make : ι → σ) : Machine (StrandHolders ι σ) (SetStrand ι) where
  initial := new make
  next holders c := some (holders.setStrand c.receiver c.s)

theorem executor_eq (holders : StrandHolders ι σ) (fuel : Nat) (h : ι) :
    holders.executor fuel h =
      match last holders.others fuel h with
      | none => .unfinished
      | some e => dereference (holders e).executor := by
  induction fuel generalizing h with
  | zero => rfl
  | succ fuel ih =>
    cases other : (holders h).other with
    | none => simp [executor, last, others, other]
    | some t => simpa [executor, last, others, other] using ih t

/-- A holder owns a strand exactly when it does not delegate, and then the one made for it. -/
structure Delegating (make : ι → σ) (calls : List (SetStrand ι)) (holders : StrandHolders ι σ) :
    Prop where
  grounded : Grounded holders.others
  owned : ∀ h, (holders h).executor = if (holders h).other = none then some (make h) else none
  receivers : ∀ h, (holders h).other ≠ none → h ∈ calls.map SetStrand.receiver

theorem new_delegating (make : ι → σ) : Delegating make [] (new make) where
  grounded := fun h => ⟨h, .refl h, rfl⟩
  owned := fun _ => rfl
  receivers := by simp [new]

theorem Delegating.owned_end {make : ι → σ} {calls : List (SetStrand ι)} {holders : StrandHolders ι σ}
    {h e : ι} (ok : Delegating make calls holders) (ends : Ends holders.others h e) :
    (holders e).executor = some (make e) := (ok.owned e).trans (if_pos ends.2)

section Calls

variable [DecidableEq ι] {make : ι → σ} {calls : List (SetStrand ι)} {holders : StrandHolders ι σ}
  {h t : ι}

theorem setStrand_others (holders : StrandHolders ι σ) (h : ι) (s : Option ι) :
    (holders.setStrand h s).others = Function.update holders.others h s := by
  funext k
  by_cases here : k = h
  · subst here
    simp [others, setStrand]
  · simp [others, setStrand, here]

theorem setStrand_delegating (ok : Delegating make calls holders)
    (clear : ¬ Passes holders.others t h) :
    Delegating make (calls ++ [⟨h, some t⟩]) (holders.setStrand h (some t)) := by
  refine ⟨?_, fun k => ?_, fun k delegates => ?_⟩
  · rw [setStrand_others]
    exact ok.grounded.link clear
  · by_cases here : k = h
    · subst here
      simp [setStrand]
    · rw [setStrand, Function.update_of_ne here]
      exact ok.owned k
  · by_cases here : k = h
    · simp [here]
    · rw [setStrand, Function.update_of_ne here] at delegates
      rw [List.map_append, List.mem_append]
      exact .inl (ok.receivers k delegates)

theorem delegating (sound : (machine make).Always (fun s c _ => s.Sound c) (new make) calls)
    (ran : (machine make).run (new make) calls = some holders) : Delegating make calls holders := by
  refine (machine make).run_course (fun calls holders =>
    (machine make).Always (fun s c _ => s.Sound c) (new make) calls → Delegating make calls holders)
    (fun _ => new_delegating make) (fun calls s c u ran ok taken all => ?_) ran sound
  obtain ⟨before, t, given, clear⟩ := (Machine.always_taken ran taken).mp all
  obtain ⟨h, s'⟩ := c
  cases given
  cases taken
  exact setStrand_delegating (ok before) clear

theorem Delegating.returns {e : ι} (ok : Delegating make calls holders)
    (ends : Ends holders.others h e) {fuel : Nat} (enough : calls.length < fuel) :
    holders.executor fuel h = .returned (make e) := by
  have points : ∀ k, holders.others k ≠ none → k ∈ (calls.map SetStrand.receiver).toFinset :=
    fun k delegates => List.mem_toFinset.mpr (ok.receivers k delegates)
  have bound := List.toFinset_card_le (calls.map SetStrand.receiver)
  rw [List.length_map] at bound
  rw [executor_eq, last_of_ends points (by omega) ends]
  show dereference (holders e).executor = _
  rw [ok.owned_end ends]
  rfl

/-- What `holders` come to after `n` calls of `setStrand`. -/
structure Resolved (make : ι → σ) (n : Nat) (holders : StrandHolders ι σ) : Prop where
  /-- `executor` returns the strand of the last holder of the chain, which owns it. -/
  returns : ∀ h, ∃ e, Ends holders.others h e ∧ (holders e).executor = some (make e) ∧
    ∀ fuel, n < fuel → holders.executor fuel h = .returned (make e)
  owns : ∀ h, (holders h).executor ≠ none ↔ (holders h).other = none
  shared : ∀ h k e, Ends holders.others h e → Ends holders.others k e →
    ∀ fuel, n < fuel → holders.executor fuel h = holders.executor fuel k
  /-- What a next call changes. -/
  through : ∀ h t, ¬ Passes holders.others t h → ∀ i fuel, n + 1 < fuel →
    Passes holders.others i h →
      (holders.setStrand h (some t)).executor fuel i = holders.executor fuel t
  elsewhere : ∀ h t, ¬ Passes holders.others t h → ∀ i fuel, n + 1 < fuel →
    ¬ Passes holders.others i h →
      (holders.setStrand h (some t)).executor fuel i = holders.executor fuel i

theorem Delegating.setStrand_returns {i e : ι} (ok : Delegating make calls holders)
    (clear : ¬ Passes holders.others t h)
    (ends : Ends (Function.update holders.others h (some t)) i e) {fuel : Nat}
    (enough : calls.length + 1 < fuel) :
    (holders.setStrand h (some t)).executor fuel i = .returned (make e) := by
  rw [← setStrand_others] at ends
  refine (setStrand_delegating ok clear).returns ends ?_
  rw [List.length_append, List.length_singleton]
  exact enough

/-- After any calls of `setStrand`, each with a holder whose chain does not lead back to the
    receiver, every holder resolves to the strand of the end of its chain. -/
theorem resolved (sound : (machine make).Always (fun s c _ => s.Sound c) (new make) calls)
    (ran : (machine make).run (new make) calls = some holders) :
    Resolved make calls.length holders := by
  have ok := delegating sound ran
  refine ⟨fun h => ?_, fun h => ?_, ?_, ?_, ?_⟩
  · obtain ⟨e, ends⟩ := ok.grounded h
    exact ⟨e, ends, ok.owned_end ends, fun fuel enough => ok.returns ends enough⟩
  · rw [ok.owned h]
    split <;> simp_all
  · intro h k e first second fuel enough
    rw [ok.returns first enough, ok.returns second enough]
  · intro h t clear i fuel enough passes
    obtain ⟨e, ends⟩ := ok.grounded t
    rw [ok.setStrand_returns clear (ends.through passes clear) enough,
      ok.returns ends (by omega)]
  · intro h t clear i fuel enough passes
    obtain ⟨e, ends⟩ := ok.grounded i
    rw [ok.setStrand_returns clear (ends.elsewhere passes) enough, ok.returns ends (by omega)]

def chain : List (SetStrand Nat) := [⟨0, some 1⟩, ⟨1, some 2⟩]

theorem chain_sound : (machine id).Always (fun s c _ => s.Sound c) (new id) chain := by
  rintro _ ⟨⟩
  refine ⟨⟨1, rfl, ?_⟩, ?_⟩
  · rw [passes_of_end rfl]
    decide
  · rintro _ ⟨⟩
    refine ⟨⟨2, rfl, ?_⟩, trivial⟩
    rw [passes_of_end rfl]
    decide

theorem resolved_chain : ∃ holders : StrandHolders Nat Nat,
    (machine id).run (new id) chain = some holders ∧ holders.executor 3 0 = .returned 2 ∧
      Resolved id 2 holders := by
  have ran : (machine id).run (new id) chain = some _ := rfl
  exact ⟨_, ran, by decide, resolved chain_sound ran⟩

theorem returns_iff_sound (ok : Delegating make calls holders) (s : Option ι) :
    (∃ fuel strand, (holders.setStrand h s).executor fuel h = .returned strand) ↔
      holders.Sound ⟨h, s⟩ := by
  constructor
  · rintro ⟨fuel, strand, returned⟩
    cases s with
    | none =>
      cases fuel with
      | zero => cases returned
      | succ fuel => simp [executor, setStrand, dereference] at returned
    | some t =>
      refine ⟨t, rfl, fun back => ?_⟩
      rw [executor_eq] at returned
      cases found : last (holders.setStrand h (some t)).others fuel h with
      | none => simp [found] at returned
      | some e =>
        have ends := ends_of_last found
        rw [setStrand_others] at ends
        exact not_ends_of_back back ends
  · rintro ⟨t, given, clear⟩
    cases given
    obtain ⟨e, ends⟩ := ok.grounded t
    exact ⟨calls.length + 2, make e,
      ok.setStrand_returns clear (ends.through (.refl h) clear) (by omega)⟩

def Returns (holders : StrandHolders ι σ) : Prop :=
  ∀ h, ∃ fuel strand, holders.executor fuel h = .returned strand

theorem runs (make : ι → σ) (calls : List (SetStrand ι)) :
    ∃ holders, (machine make).run (new make) calls = some holders := by
  induction calls using List.reverseRecOn with
  | nil => exact ⟨_, rfl⟩
  | append_singleton calls c ih =>
    obtain ⟨holders, ran⟩ := ih
    exact ⟨_, Machine.run_snoc.mpr ⟨holders, ran, rfl⟩⟩

/-- Between any two calls of `setStrand` every holder has a strand, if and only if every call is
    made with a holder whose chain does not lead back to the receiver: the first other one leaves
    its receiver without. -/
theorem always_returns (make : ι → σ) (calls : List (SetStrand ι)) :
    (machine make).Visits Returns (new make) calls ↔
      (machine make).Always (fun s c _ => s.Sound c) (new make) calls := by
  rw [Machine.visits_iff]
  constructor
  · intro visits
    induction calls using List.reverseRecOn with
    | nil => exact trivial
    | append_singleton calls c ih =>
      obtain ⟨holders, ran⟩ := runs make calls
      have before := ih fun bs cs t split => visits bs (cs ++ [c]) t (by rw [split, List.append_assoc])
      have after := visits _ [] _ (List.append_nil _).symm (Machine.run_snoc.mpr ⟨holders, ran, rfl⟩)
      exact (Machine.always_taken ran rfl).mpr
        ⟨before, (returns_iff_sound (delegating before ran) c.s).mp (after c.receiver)⟩
  · rintro sound bs cs holders rfl ran h
    have ok := delegating (sound.append ran).1 ran
    obtain ⟨e, ends⟩ := ok.grounded h
    exact ⟨bs.length + 1, make e, ok.returns ends (Nat.lt_succ_self _)⟩

end Calls

end StrandHolders

end BoostBase
