import BoostBase.Coroutine.AwaitableEvent
import BoostBase.Transition.References

namespace BoostBase.AwaitableEvent

open Asio Intrusive Transition

/-- What holds a `shared_ptr`: an outside owner, the closure in a waiter's slot, or the
    completion `finalize` has posted. -/
inductive Holder (κ ι : Type)
  | owner (k : κ)
  | slot (i : ι)
  | completion (i : ι)
  deriving DecidableEq

inductive Shared (ι : Type)
  | event
  | operation (i : ι)
  deriving DecidableEq

/-- An event with all references to it and to its operations. `asserted` is what the assertion
    in the destructor found, once that has run. -/
structure SharedEvent (κ ι : Type) where
  event : AwaitableEvent ι
  refs : References (Holder κ ι) (Shared ι)
  asserted : Option Bool

namespace SharedEvent

variable {κ ι : Type} [DecidableEq κ] [DecidableEq ι]

def new (k : κ) : SharedEvent κ ι := ⟨AwaitableEvent.new, {(.owner k, .event)}, none⟩

def post (refs : References (Holder κ ι) (Shared ι)) :
    List (Completion ι) → References (Holder κ ι) (Shared ι)
  | [] => refs
  | (i, _) :: posted => insert (.completion i, .operation i) (post refs posted)

def finalized (s : SharedEvent κ ι) (p : Posting ι) : SharedEvent κ ι :=
  { s with event := p.1, refs := post s.refs p.2 }

/-- The initiation of `co_wait`. A closure that was assigned holds the event and the operation. -/
def coWait (s : SharedEvent κ ι) (i : ι) : SharedEvent κ ι :=
  let t := s.finalized (s.event.coWait i)
  if t.event.slot i then
    { t with refs := insert (.slot i, .event) (insert (.slot i, .operation i) t.refs) }
  else t

/-- The destructor of an operation: its hook unlinks it. -/
def destroyOperation (e : AwaitableEvent ι) (i : ι) : AwaitableEvent ι :=
  { e with
    operations := e.operations.unlink i
    operation := Function.update e.operation i none }

def releaseOperation (s : SharedEvent κ ι) (h : Holder κ ι) (i : ι) : SharedEvent κ ι :=
  let refs : References _ _ := s.refs.erase (h, .operation i)
  if refs.Held (.operation i) then { s with refs := refs }
  else { s with event := destroyOperation s.event i, refs := refs }

/-- The last reference to the event runs its destructor. -/
def releaseEvent (s : SharedEvent κ ι) (h : Holder κ ι) : SharedEvent κ ι :=
  let refs : References _ _ := s.refs.erase (h, .event)
  if refs.Held .event then { s with refs := refs }
  else { s with refs := refs, asserted := some s.event.operations.nodes.isEmpty }

/-- Clearing a slot, or destroying it, takes its closure down: the operation, which was
    captured last, is released first. -/
def clearSlot (s : SharedEvent κ ι) (i : ι) : SharedEvent κ ι :=
  releaseOperation { s with event.slot := Function.update s.event.slot i false } (.slot i) i

/-- `share` and `drop` are those of outside owners. `clear` begins the destruction of a closure
    and `cleared` ends it, `done` is the end of a posted completion, that has run or was
    destroyed with its queue. -/
inductive Action (κ ι : Type)
  | share (k : κ)
  | drop (k : κ)
  | set
  | coWait (i : ι)
  | cancel (i : ι)
  | clear (i : ι)
  | cleared (i : ι)
  | done (i : ι)
  deriving DecidableEq

/-- The functions of an event are entered while it is held. Each `co_wait` brings an operation
    and a closure of its own. -/
def machine (k : κ) : Machine (SharedEvent κ ι) (Action κ ι) where
  initial := new k
  next s
    | .share k =>
      if s.refs.Held .event then some { s with refs := insert (.owner k, .event) s.refs } else none
    | .drop k => if (.owner k, .event) ∈ s.refs then some (s.releaseEvent (.owner k)) else none
    | .set => if s.refs.Held .event then some (s.finalized s.event.set) else none
    | .coWait i =>
      if s.refs.Held .event ∧ s.event.operation i = none ∧ (.slot i, .event) ∉ s.refs then
        some (s.coWait i)
      else none
    | .cancel i => if s.event.slot i then some (s.finalized (s.event.cancel i)) else none
    | .clear i => if s.event.slot i then some (s.clearSlot i) else none
    | .cleared i =>
      if (.slot i, .event) ∈ s.refs ∧ (.slot i, .operation i) ∉ s.refs then
        some (s.releaseEvent (.slot i))
      else none
    | .done i =>
      if (.completion i, .operation i) ∈ s.refs then
        some (s.releaseOperation (.completion i) i)
      else none

structure Kept (s : SharedEvent κ ι) : Prop where
  wf : s.event.WellFormed
  closure : ∀ i, s.event.slot i = true ↔ (.slot i, .operation i) ∈ s.refs
  self : ∀ i, s.event.slot i = true → (.slot i, .event) ∈ s.refs
  posted : ∀ i, (.completion i, .operation i) ∈ s.refs → s.event.operation i = some ⟨true⟩
  own : ∀ h i, (h, .operation i) ∈ s.refs → h = .slot i ∨ h = .completion i
  held : ∀ i, s.event.operation i ≠ none ↔ s.refs.Held (.operation i)
  alive : s.refs.Held .event → s.asserted = none
  destroyed : ¬ s.refs.Held .event → s.asserted = some true

variable {s : SharedEvent κ ι} {h : Holder κ ι} {i : ι}

omit [DecidableEq κ] [DecidableEq ι] in
/-- A linked operation is kept by its closure alone, and that keeps the event. -/
theorem custody_of (wf : s.event.WellFormed)
    (closure : ∀ i, s.event.slot i = true → (.slot i, .operation i) ∈ s.refs)
    (self : ∀ i, s.event.slot i = true → (.slot i, .event) ∈ s.refs)
    (posted : ∀ i, (.completion i, .operation i) ∈ s.refs → s.event.operation i = some ⟨true⟩)
    (own : ∀ h i, (h, .operation i) ∈ s.refs → h = .slot i ∨ h = .completion i) :
    s.refs.Custody (· ∈ s.event.operations.nodes) .operation .slot .event := by
  intro i linked
  have waits := (wf.linked i).mp linked
  have connected := wf.connected i waits
  refine ⟨fun h => ⟨fun holds => ?_, ?_⟩, self i connected⟩
  · rcases own h i holds with same | rfl
    · exact same
    · rw [posted i holds] at waits
      cases waits
  · rintro rfl
    exact closure i connected

omit [DecidableEq κ] [DecidableEq ι] in
theorem new_kept (k : κ) : (new k : SharedEvent κ ι).Kept where
  wf := new_wellFormed
  closure := by simp [new, AwaitableEvent.new]
  self := by simp [new, AwaitableEvent.new]
  posted := by simp [new]
  own := by simp [new]
  held := by simp [new, AwaitableEvent.new, References.Held]
  alive := fun _ => rfl
  destroyed := fun released => absurd ⟨.owner k, Finset.mem_singleton_self _⟩ released

theorem mem_post {refs : References (Holder κ ι) (Shared ι)} {posted : List (Completion ι)}
    {o : Shared ι} : (h, o) ∈ post refs posted ↔
      (h, o) ∈ refs ∨ ∃ i ∈ posted.map Prod.fst, h = .completion i ∧ o = .operation i := by
  induction posted with
  | nil => simp [post]
  | cons c posted ih =>
    obtain ⟨j, ec⟩ := c
    simp only [post, Finset.mem_insert, Prod.mk.injEq, ih, List.map_cons, List.exists_mem_cons_iff]
    tauto

theorem held_post {refs : References (Holder κ ι) (Shared ι)} {posted : List (Completion ι)}
    {o : Shared ι} : References.Held (post refs posted) o ↔
      refs.Held o ∨ ∃ i ∈ posted.map Prod.fst, o = .operation i := by
  simp only [References.Held, mem_post, exists_or]
  refine or_congr_right ⟨?_, ?_⟩
  · rintro ⟨_, i, member, _, same⟩
    exact ⟨i, member, same⟩
  · rintro ⟨i, member, same⟩
    exact ⟨.completion i, i, member, rfl, same⟩

theorem Kept.finalized (kept : s.Kept) {p : Posting ι} (wf : p.1.WellFormed)
    (slot : p.1.slot = s.event.slot)
    (operation : ∀ i, p.1.operation i =
      if i ∈ p.2.map Prod.fst then some ⟨true⟩ else s.event.operation i) :
    (s.finalized p).Kept where
  wf := wf
  closure := by
    intro i
    show p.1.slot i = true ↔ (.slot i, .operation i) ∈ post s.refs p.2
    simp [slot, mem_post, kept.closure i]
  self := by
    intro i connected
    have connected : p.1.slot i = true := connected
    rw [slot] at connected
    exact mem_post.mpr (.inl (kept.self i connected))
  posted := by
    intro i holds
    show p.1.operation i = some ⟨true⟩
    rw [operation i]
    split
    · rfl
    · rename_i unposted
      rcases mem_post.mp holds with before | ⟨j, member, same, _⟩
      · exact kept.posted i before
      · cases same
        exact absurd member unposted
  own := by
    intro h i holds
    rcases mem_post.mp holds with before | ⟨j, _, rfl, same⟩
    · exact kept.own h i before
    · cases same
      exact .inr rfl
  held := by
    intro i
    show p.1.operation i ≠ none ↔ References.Held (post s.refs p.2) (.operation i)
    rw [held_post, ← kept.held i, operation i]
    split <;> simp_all
  alive := fun held => kept.alive ((held_post.mp held).resolve_right (by simp))
  destroyed := fun released => kept.destroyed fun held => released (held_post.mpr (.inl held))

theorem Kept.set (kept : s.Kept) : (s.finalized s.event.set).Kept := by
  refine kept.finalized (set_wellFormed kept.wf) (walking_set kept.wf).slot fun i => ?_
  simp [set_operation kept.wf, set_posted kept.wf]

theorem Kept.cancel (kept : s.Kept) (i : ι) : (s.finalized (s.event.cancel i)).Kept := by
  refine kept.finalized (cancel_wellFormed kept.wf i) ?_ fun j => ?_
  all_goals
    by_cases waits : s.event.operation i = some ⟨false⟩
    · simp [cancel_waiting kept.wf waits, Function.update_apply]
    · simp [cancel_idle waits]

theorem coWait_set (isSet : s.event.isSet = true) (free : s.event.slot i = false) :
    s.coWait i = s.finalized (s.event.coWait i) := by
  simp [coWait, finalized, coWait_of_set i isSet, free]

theorem coWait_unset (unset : s.event.isSet = false) : s.coWait i = { s with
    event := (s.event.coWait i).1
    refs := insert (.slot i, .event) (insert (.slot i, .operation i) s.refs) } := by
  simp [coWait, finalized, coWait_of_unset i unset, post]

theorem Kept.coWait (kept : s.Kept) (alive : s.refs.Held .event)
    (fresh : s.event.operation i = none) : (s.coWait i).Kept := by
  have wf := coWait_wellFormed kept.wf fresh
  cases isSet : s.event.isSet with
  | true =>
    have waited := coWait_of_set i isSet
    have free : s.event.slot i = false :=
      Bool.eq_false_iff.mpr fun connected => kept.wf.owned i connected fresh
    rw [coWait_set isSet free]
    exact kept.finalized wf (by rw [waited]) fun j => by simp [waited, Function.update_apply]
  | false =>
    have waited := coWait_of_unset i isSet
    have unheld (h : Holder κ ι) : (h, .operation i) ∉ s.refs :=
      fun holds => (kept.held i).mpr ⟨h, holds⟩ fresh
    rw [coWait_unset isSet]
    refine ⟨wf, fun j => ?_, fun j => ?_, fun j => ?_, fun h j => ?_, fun j => ?_, ?_, ?_⟩
    · by_cases same : j = i
      · simp [same, waited]
      · simp [same, waited, kept.closure j]
    · by_cases same : j = i
      · simp [same]
      · simpa [same, waited] using kept.self j
    · by_cases same : j = i
      · subst same
        simp [unheld]
      · simpa [same, waited] using kept.posted j
    · by_cases same : j = i
      · subst same
        simpa [unheld] using fun closure : h = .slot j => Or.inl closure
      · simpa [same] using kept.own h j
    · by_cases same : j = i
      · subst same
        simp [waited, References.held_insert]
      · simp [same, waited, References.held_insert, kept.held j]
    · exact fun _ => kept.alive alive
    · exact fun released => absurd ⟨.slot i, Finset.mem_insert_self _ _⟩ released

section Release

variable {slot : ι → Bool} (kept : s.Kept)
  (closure : ∀ j, slot j = true ↔ (.slot j, .operation j) ∈ s.refs.erase (h, .operation i))

include kept closure

theorem Kept.connected {j : ι} (connected : slot j = true) : s.event.slot j = true :=
  (kept.closure j).mpr (Finset.mem_of_mem_erase ((closure j).mp connected))

theorem Kept.waiting (waits : s.event.operation i = some ⟨false⟩)
    (held : References.Held (s.refs.erase (h, .operation i)) (.operation i)) : slot i = true := by
  obtain ⟨k, holds⟩ := held
  rcases kept.own k i (Finset.mem_of_mem_erase holds) with rfl | rfl
  · exact (closure i).mpr holds
  · rw [kept.posted i (Finset.mem_of_mem_erase holds)] at waits
    cases waits

theorem Kept.elsewhere {j : ι} (other : j ≠ i) : slot j = s.event.slot j := by
  have kept_here : (.slot j, .operation j) ∈ s.refs.erase (h, .operation i) ↔
      (.slot j, .operation j) ∈ s.refs := by simp [other]
  exact Bool.eq_iff_iff.mpr ((closure j).trans (kept_here.trans (kept.closure j).symm))

/-- One reference to an operation goes, with the slot cleared before if it was the closure's. -/
theorem Kept.releaseOperation :
    (releaseOperation { s with event.slot := slot } h i).Kept := by
  have same {j : ι} (other : j ≠ i) :
      References.Held (s.refs.erase (h, .operation i)) (.operation j) ↔ s.refs.Held (.operation j) :=
    References.held_erase (by simpa using other)
  have self (j : ι) (connected : slot j = true) :
      (.slot j, .event) ∈ s.refs.erase (h, .operation i) :=
    Finset.mem_erase.mpr ⟨by simp, kept.self j (kept.connected closure connected)⟩
  have own (k : Holder κ ι) (j : ι) (holds : (k, .operation j) ∈ s.refs.erase (h, .operation i)) :
      k = .slot j ∨ k = .completion j := kept.own k j (Finset.mem_of_mem_erase holds)
  have event : References.Held (s.refs.erase (h, .operation i)) .event ↔ s.refs.Held .event :=
    References.held_erase (by simp)
  unfold SharedEvent.releaseOperation
  dsimp only
  split
  · rename_i held
    refine ⟨?_, closure, self, fun j holds => kept.posted j (Finset.mem_of_mem_erase holds), own,
      fun j => ?_, fun held => kept.alive (event.mp held),
      fun released => kept.destroyed (mt event.mpr released)⟩
    · exact kept.wf.change (fun j _ => Iff.rfl) (fun j _ => rfl)
        (fun j other => kept.elsewhere closure other) (kept.wf.linked i)
        (fun waits => kept.waiting closure waits held)
        (fun connected => kept.wf.owned i (kept.connected closure connected)) kept.wf.drained
    · by_cases here : j = i
      · subst here
        exact iff_of_true ((kept.held j).mpr held.of_erase) held
      · exact (kept.held j).trans (same here).symm
  · rename_i unheld
    refine ⟨?_, closure, self, fun j holds => ?_, own, fun j => ?_,
      fun held => kept.alive (event.mp held),
      fun released => kept.destroyed (mt event.mpr released)⟩
    · refine kept.wf.change (fun j other => ?_) (fun j other => Function.update_of_ne other _ _)
        (fun j other => kept.elsewhere closure other) ?_ ?_ (fun connected => ?_) fun isSet => ?_
      · show j ∈ (s.event.operations.unlink i).nodes ↔ _
        rw [LinkedList.mem_unlink]
        simp [other]
      · show i ∈ (s.event.operations.unlink i).nodes ↔ _
        rw [LinkedList.mem_unlink]
        simp [destroyOperation]
      · simp [destroyOperation]
      · exact absurd ⟨_, (closure i).mp connected⟩ unheld
      · simp [destroyOperation, kept.wf.drained isSet]
    · have other : j ≠ i := by
        rintro rfl
        exact unheld ⟨_, holds⟩
      have finalizing := kept.posted j (Finset.mem_of_mem_erase holds)
      simpa [destroyOperation, other] using finalizing
    · by_cases here : j = i
      · subst here
        simpa [destroyOperation] using unheld
      · rw [same here, ← kept.held j]
        simp [destroyOperation, here]

end Release

theorem Kept.clearSlot (kept : s.Kept) (i : ι) : (s.clearSlot i).Kept := by
  refine kept.releaseOperation fun j => ?_
  by_cases same : j = i
  · simp [same]
  · simp [same, kept.closure j]

theorem Kept.done (kept : s.Kept) (i : ι) : (s.releaseOperation (.completion i) i).Kept :=
  kept.releaseOperation fun j => by simp [kept.closure j]

theorem Kept.releaseEvent (kept : s.Kept) (holds : (h, .event) ∈ s.refs)
    (free : ∀ i, h = .slot i → s.event.slot i = false) : (s.releaseEvent h).Kept := by
  have same (k : Holder κ ι) (j : ι) :
      (k, .operation j) ∈ s.refs.erase (h, .event) ↔ (k, .operation j) ∈ s.refs := by simp
  have self (j : ι) (connected : s.event.slot j = true) :
      (.slot j, .event) ∈ s.refs.erase (h, .event) := by
    refine Finset.mem_erase.mpr ⟨fun same => ?_, kept.self j connected⟩
    rw [free j (Prod.mk.inj same).1.symm] at connected
    cases connected
  have closure (j : ι) :
      s.event.slot j = true ↔ (.slot j, .operation j) ∈ s.refs.erase (h, .event) :=
    (kept.closure j).trans (same _ j).symm
  have posted (j : ι) (holds : (.completion j, .operation j) ∈ s.refs.erase (h, .event)) :
      s.event.operation j = some ⟨true⟩ := kept.posted j ((same _ j).mp holds)
  have own (k : Holder κ ι) (j : ι) (holds : (k, .operation j) ∈ s.refs.erase (h, .event)) :
      k = .slot j ∨ k = .completion j := kept.own k j ((same k j).mp holds)
  have held (j : ι) : s.event.operation j ≠ none ↔
      References.Held (s.refs.erase (h, .event)) (.operation j) :=
    (kept.held j).trans (References.held_erase (by simp)).symm
  unfold SharedEvent.releaseEvent
  dsimp only
  split
  · rename_i alive
    exact ⟨kept.wf, closure, self, posted, own, held, fun _ => kept.alive ⟨h, holds⟩,
      fun released => absurd alive released⟩
  · rename_i released
    have drained : s.event.operations.nodes = [] := by
      have custody := custody_of (s := { s with refs := s.refs.erase (h, .event) }) kept.wf
        (fun j => (closure j).mp) self posted own
      exact List.eq_nil_iff_forall_not_mem.mpr (custody.none_left released)
    refine ⟨kept.wf, closure, self, posted, own, held, fun held => absurd held released, fun _ => ?_⟩
    simp [drained]

theorem Kept.share (kept : s.Kept) (alive : s.refs.Held .event) (k : κ) :
    Kept { s with refs := insert (.owner k, .event) s.refs } where
  wf := kept.wf
  closure := fun i => (kept.closure i).trans (by simp)
  self := fun i connected => Finset.mem_insert_of_mem (kept.self i connected)
  posted := fun i holds => kept.posted i (by simpa using holds)
  own := fun h i holds => kept.own h i (by simpa using holds)
  held := fun i => (kept.held i).trans (by simp [References.held_insert])
  alive := fun _ => kept.alive alive
  destroyed := fun released => absurd ⟨.owner k, Finset.mem_insert_self _ _⟩ released

theorem kept_next {k : κ} {t : SharedEvent κ ι} {a : Action κ ι} (kept : s.Kept)
    (taken : (machine k).next s a = some t) : t.Kept := by
  cases a <;> simp only [machine, Option.ite_none_right_eq_some, Option.some.injEq] at taken
  all_goals obtain ⟨guard, rfl⟩ := taken
  case share k => exact kept.share guard k
  case drop k => exact kept.releaseEvent guard (by simp)
  case set => exact kept.set
  case coWait i => exact kept.coWait guard.1 guard.2.1
  case cancel i => exact kept.cancel i
  case clear i => exact kept.clearSlot i
  case cleared i =>
    refine kept.releaseEvent guard.1 fun j same => ?_
    cases same
    exact Bool.eq_false_iff.mpr fun connected => guard.2 ((kept.closure i).mp connected)
  case done i => exact kept.done i

theorem kept {k : κ} (reached : (machine k).Reachable s) : s.Kept :=
  reached.invariant (new_kept k) fun _ _ _ => kept_next

/-- A linked operation is kept alive by the closure in its slot alone, which also holds the
    event, so no operation is linked when the last reference to the event is released. -/
theorem unlinked_when_released {k : κ} (reached : (machine k).Reachable s) :
    (∀ i ∈ s.event.operations.nodes,
      (∀ h, (h, .operation i) ∈ s.refs ↔ h = .slot i) ∧ (.slot i, .event) ∈ s.refs) ∧
    (¬ s.refs.Held .event → s.event.operations.nodes = [] ∧ s.asserted = some true) ∧
    s.asserted ≠ some false := by
  have ok := kept reached
  have custody := custody_of ok.wf (fun i => (ok.closure i).mp) ok.self ok.posted ok.own
  refine ⟨custody, fun released => ⟨?_, ok.destroyed released⟩, ?_⟩
  · exact List.eq_nil_iff_forall_not_mem.mpr (custody.none_left released)
  · by_cases held : s.refs.Held .event
    · simp [ok.alive held]
    · simp [ok.destroyed held]

/-- Three waits, one of them cancelled; the owner has gone when the slots of the others are
    cleared. -/
def abandoned : List (Action Unit Nat) :=
  [.coWait 0, .coWait 1, .coWait 2, .drop (), .cancel 1, .clear 0, .cleared 0, .done 1, .clear 1,
    .cleared 1, .clear 2, .cleared 2]

theorem unlinked_when_released_abandoned : ∃ s : SharedEvent Unit Nat,
    (machine ()).run (new ()) abandoned = some s ∧ s.refs = ∅ ∧ s.event.operations.nodes = [] ∧
      s.asserted = some true := by
  have ran : (machine ()).run (new ()) abandoned = some _ := rfl
  have ok := (unlinked_when_released ⟨_, ran⟩).2.1 (by decide)
  exact ⟨_, ran, by decide, ok⟩

end SharedEvent

end BoostBase.AwaitableEvent
