import BoostBase.Coroutine.AwaitableEvent

namespace BoostBase.AwaitableEvent

open Asio Intrusive Transition

variable {ι : Type} [DecidableEq ι]

inductive Section (ι : Type)
  | set
  | coWait (i : ι)
  | cancel (i : ι)
  deriving DecidableEq

/-- An event with everything posted so far, oldest first. -/
structure Waits (ι : Type) where
  event : AwaitableEvent ι
  posted : List (Completion ι)

def Waits.after (w : Waits ι) (p : Posting ι) : Waits ι := ⟨p.1, w.posted ++ p.2⟩

/-- Sections in any order. Each `co_wait` initiation brings an operation of its own. -/
def sections : Machine (Waits ι) (Section ι) where
  initial := ⟨new, []⟩
  next w
    | .set => some (w.after w.event.set)
    | .coWait i => if w.event.operation i = none then some (w.after (w.event.coWait i)) else none
    | .cancel i => some (w.after (w.event.cancel i))

def initiated : List (Section ι) → List ι :=
  List.filterMap fun
    | .coWait i => some i
    | _ => none

omit [DecidableEq ι] in
@[simp] theorem mem_initiated {i : ι} {as : List (Section ι)} :
    i ∈ initiated as ↔ .coWait i ∈ as := by
  simp only [initiated, List.mem_filterMap]
  constructor
  · intro both
    rcases both with ⟨a, member, same⟩
    cases a <;> simp at same
    exact same ▸ member
  · exact fun member => ⟨_, member, rfl⟩

def unposted (as : List (Section ι)) (posted : List (Completion ι)) : List ι :=
  (initiated as).filter fun i => i ∉ posted.map Prod.fst

theorem mem_unposted {i : ι} {as : List (Section ι)} {posted : List (Completion ι)} :
    i ∈ unposted as posted ↔ .coWait i ∈ as ∧ i ∉ posted.map Prod.fst := by
  rw [unposted, List.mem_filter, mem_initiated, decide_eq_true_eq]

omit [DecidableEq ι] in
theorem mem_posted_snoc {i j : ι} {ec : ErrorCode} {posted : List (Completion ι)} :
    j ∈ (posted ++ [(i, ec)]).map Prod.fst ↔ j ∈ posted.map Prod.fst ∨ j = i := by
  rw [List.map_append, List.mem_append, List.map_cons, List.map_nil, List.mem_singleton]

structure Accounts (as : List (Section ι)) (w : Waits ι) : Prop where
  wf : w.event.WellFormed
  isSet : w.event.isSet = true ↔ .set ∈ as
  created : ∀ i, w.event.operation i ≠ none ↔ .coWait i ∈ as
  finished : ∀ i, w.event.operation i = some ⟨true⟩ ↔ i ∈ w.posted.map Prod.fst
  once : (w.posted.map Prod.fst).Nodup
  waiting : w.event.operations.nodes = unposted as w.posted

theorem accounts_initial : Accounts [] (sections (ι := ι)).initial where
  wf := new_wellFormed
  isSet := by simp [sections, new]
  created := by simp [sections, new]
  finished := by simp [sections, new]
  once := by simp [sections]
  waiting := by simp [sections, new, unposted, initiated]

omit [DecidableEq ι] in
theorem initiated_snoc (as : List (Section ι)) (a : Section ι) :
    initiated (as ++ [a]) = initiated as ++ initiated [a] := List.filterMap_append

theorem Accounts.linked {as : List (Section ι)} {w : Waits ι} (acc : Accounts as w) (i : ι) :
    i ∈ w.event.operations.nodes ↔ .coWait i ∈ as ∧ i ∉ w.posted.map Prod.fst := by
  rw [acc.waiting, mem_unposted]

theorem Accounts.set {as : List (Section ι)} {w : Waits ι} (acc : Accounts as w) :
    Accounts (as ++ [.set]) (w.after w.event.set) := by
  have walked := walking_set acc.wf
  have posted : (w.after w.event.set).posted.map Prod.fst =
      w.posted.map Prod.fst ++ w.event.operations.nodes := by
    simp [Waits.after, set_posted acc.wf, Function.comp_def]
  refine ⟨set_wellFormed acc.wf, by simp [Waits.after, walked.isSet], ?_, ?_, ?_, ?_⟩
  · intro i
    have before := acc.created i
    have linked := acc.wf.linked i
    simp only [Waits.after, set_operation acc.wf]
    split
    · simp_all
    · simpa using before
  · intro i
    rw [posted, List.mem_append, ← acc.finished i]
    simp only [Waits.after, set_operation acc.wf]
    split <;> simp_all
  · rw [posted, List.nodup_append]
    refine ⟨acc.once, w.event.operations.nodup, ?_⟩
    rintro i earlier j now rfl
    exact ((acc.linked i).mp now).2 earlier
  · have none_left : unposted (as ++ [.set]) (w.after w.event.set).posted = [] := by
      rw [List.eq_nil_iff_forall_not_mem]
      intro i member
      rw [mem_unposted, posted] at member
      have waiting := (acc.linked i).mpr (by simp_all)
      simp [waiting] at member
    rw [none_left]
    exact walked.nodes

theorem Accounts.fresh {as : List (Section ι)} {w : Waits ι} (acc : Accounts as w) {i : ι}
    (fresh : w.event.operation i = none) :
    .coWait i ∉ as ∧ i ∉ w.posted.map Prod.fst ∧ i ∉ w.event.operations.nodes := by
  refine ⟨?_, ?_, ?_⟩
  · rw [← acc.created i]
    simp [fresh]
  · rw [← acc.finished i]
    simp [fresh]
  · rw [acc.wf.linked i]
    simp [fresh]

theorem Accounts.coWait {as : List (Section ι)} {w : Waits ι} (acc : Accounts as w) {i : ι}
    (fresh : w.event.operation i = none) :
    Accounts (as ++ [.coWait i]) (w.after (w.event.coWait i)) := by
  obtain ⟨uninitiated, silent, unlinked⟩ := acc.fresh fresh
  have wf := coWait_wellFormed acc.wf fresh
  have others (j : ι) (other : j ≠ i) :
      (w.event.operation j ≠ none ↔ .coWait j ∈ as ++ [.coWait i]) ∧
      (w.event.operation j = some ⟨true⟩ ↔ j ∈ w.posted.map Prod.fst) := by
    refine ⟨?_, acc.finished j⟩
    rw [acc.created j]
    simp [other]
  cases isSet : w.event.isSet with
  | true =>
    rw [coWait_of_set i isSet, LinkedList.unlink_of_not_mem unlinked] at wf ⊢
    refine ⟨wf, by simp [Waits.after, acc.isSet.symm, isSet], ?_, ?_, ?_, ?_⟩
    · intro j
      by_cases same : j = i
      · subst same
        simp [Waits.after]
      · simpa [Waits.after, same] using (others j same).1
    · intro j
      by_cases same : j = i
      · subst same
        simp [Waits.after]
      · simpa [Waits.after, same] using (others j same).2
    · simp only [Waits.after, List.map_append]
      exact nodup_snoc acc.once silent
    · have none_left : unposted (as ++ [.coWait i]) (w.posted ++ [(i, .success)]) = [] := by
        rw [List.eq_nil_iff_forall_not_mem]
        intro j member
        rw [mem_unposted, mem_posted_snoc, not_or] at member
        have waiting := (acc.linked j).mpr ⟨by simpa [member.2.2] using member.1, member.2.1⟩
        simp [acc.wf.drained isSet] at waiting
      simp only [Waits.after, none_left]
      exact acc.wf.drained isSet
  | false =>
    rw [coWait_of_unset i isSet] at wf ⊢
    refine ⟨wf, by simp [Waits.after, ← acc.isSet, isSet], ?_, ?_, ?_, ?_⟩
    · intro j
      by_cases same : j = i
      · subst same
        simp [Waits.after]
      · simpa [Waits.after, same] using (others j same).1
    · intro j
      by_cases same : j = i
      · subst same
        simpa [Waits.after] using silent
      · simpa [Waits.after, same] using (others j same).2
    · simpa [Waits.after] using acc.once
    · have appended : unposted (as ++ [.coWait i]) w.posted = unposted as w.posted ++ [i] := by
        have kept : (initiated [.coWait i]).filter (fun j => j ∉ w.posted.map Prod.fst) = [i] := by
          simpa [initiated] using silent
        rw [unposted, initiated_snoc, List.filter_append, kept]
        rfl
      simp only [Waits.after, List.append_nil, LinkedList.pushBack_nodes unlinked, appended,
        acc.waiting]

theorem Accounts.cancel {as : List (Section ι)} {w : Waits ι} (acc : Accounts as w) (i : ι) :
    Accounts (as ++ [.cancel i]) (w.after (w.event.cancel i)) := by
  have wf := cancel_wellFormed acc.wf i
  have isSet : w.event.isSet = true ↔ .set ∈ as ++ [.cancel i] := by
    rw [acc.isSet]
    simp
  have created (j : ι) : w.event.operation j ≠ none ↔ .coWait j ∈ as ++ [.cancel i] := by
    rw [acc.created j]
    simp
  have same_initiated : initiated (as ++ [.cancel i]) = initiated as := by
    simp [initiated]
  by_cases waits : w.event.operation i = some ⟨false⟩
  · rw [cancel_waiting acc.wf waits] at wf ⊢
    have silent : i ∉ w.posted.map Prod.fst := by
      rw [← acc.finished i, waits]
      simp
    refine ⟨wf, isSet, ?_, ?_, ?_, ?_⟩
    · intro j
      by_cases same : j = i
      · subst same
        simpa [Waits.after, waits] using created j
      · simpa [Waits.after, same] using created j
    · intro j
      by_cases same : j = i
      · subst same
        simp [Waits.after]
      · simpa [Waits.after, same] using acc.finished j
    · simp only [Waits.after, List.map_append]
      exact nodup_snoc acc.once silent
    · have removed : unposted (as ++ [.cancel i]) (w.posted ++ [(i, .operationCanceled)]) =
          (unposted as w.posted).filter (· != i) := by
        rw [unposted, unposted, same_initiated, List.filter_filter]
        apply List.filter_congr
        intro j _
        rw [Bool.eq_iff_iff, decide_eq_true_eq, mem_posted_snoc, Bool.and_eq_true, bne_iff_ne,
          decide_eq_true_eq]
        tauto
      simp only [Waits.after, LinkedList.unlink_nodes, removed, ← acc.waiting]
      exact w.event.operations.nodup.erase_eq_filter i
  · rw [cancel_idle waits] at wf ⊢
    refine ⟨wf, isSet, created, ?_, ?_, ?_⟩
    · simpa [Waits.after] using acc.finished
    · simpa [Waits.after] using acc.once
    · simp only [Waits.after, List.append_nil, unposted, same_initiated]
      exact acc.waiting

theorem accounts_next (as : List (Section ι)) (w : Waits ι) (a : Section ι) (v : Waits ι)
    (acc : Accounts as w) (taken : sections.next w a = some v) : Accounts (as ++ [a]) v := by
  cases a with
  | set =>
    cases taken
    exact acc.set
  | coWait i =>
    simp only [sections] at taken
    split at taken
    · rename_i fresh
      cases taken
      exact acc.coWait fresh
    · cases taken
  | cancel i =>
    cases taken
    exact acc.cancel i

theorem accounts {as : List (Section ι)} {w : Waits ι}
    (ran : sections.run sections.initial as = some w) : Accounts as w :=
  Machine.run_history Accounts accounts_initial accounts_next ran

def decides (i : ι) : Section ι → Option ErrorCode
  | .set => some .success
  | .coWait _ => none
  | .cancel j => if j = i then some .operationCanceled else none

/-- The first section that decides a pending wait gives it its code. -/
def verdict (i : ι) (as : List (Section ι)) : Option ErrorCode := as.findSome? (decides i)

theorem decides_success {i : ι} {a : Section ι} : decides i a = some .success ↔ a = .set := by
  cases a with
  | set => simp [decides]
  | coWait j => simp [decides]
  | cancel j => by_cases same : j = i <;> simp [decides, same]

theorem decides_canceled {i : ι} {a : Section ι} :
    decides i a = some .operationCanceled ↔ a = .cancel i := by
  cases a with
  | set => simp [decides]
  | coWait j => simp [decides]
  | cancel j => by_cases same : j = i <;> simp [decides, same]

theorem decides_none {i : ι} {a : Section ι} : decides i a = none ↔ a ≠ .set ∧ a ≠ .cancel i := by
  cases a with
  | set => simp [decides]
  | coWait j => simp [decides]
  | cancel j => by_cases same : j = i <;> simp [decides, same]

theorem verdict_none {i : ι} {as : List (Section ι)} :
    verdict i as = none ↔ .set ∉ as ∧ .cancel i ∉ as := by
  simp only [verdict, List.findSome?_eq_none_iff, decides_none]
  constructor
  · exact fun clear => ⟨fun member => (clear _ member).1 rfl, fun member => (clear _ member).2 rfl⟩
  · rintro ⟨unset, uncanceled⟩ a member
    exact ⟨fun same => unset (same ▸ member), fun same => uncanceled (same ▸ member)⟩

theorem verdict_first {i : ι} {code : ErrorCode} {winner rival : Section ι}
    (decide_code : ∀ a, decides i a = some code ↔ a = winner)
    (undecided : ∀ a, decides i a = none ↔ a ≠ winner ∧ a ≠ rival) {as : List (Section ι)} :
    verdict i as = some code ↔ ∃ mid rest, as = mid ++ winner :: rest ∧ rival ∉ mid := by
  constructor
  · intro found
    obtain ⟨mid, a, rest, split, now, clear⟩ := List.findSome?_eq_some_iff.mp found
    refine ⟨mid, rest, (decide_code a).mp now ▸ split, fun member => ?_⟩
    exact ((undecided _).mp (clear _ member)).2 rfl
  · intro both
    rcases both with ⟨mid, rest, rfl, unrivaled⟩
    rw [verdict, List.findSome?_append, List.findSome?_cons, (decide_code winner).mpr rfl]
    cases earlier : mid.findSome? (decides i) with
    | none => rfl
    | some other =>
      obtain ⟨before, a, after, rfl, now, _⟩ := List.findSome?_eq_some_iff.mp earlier
      have decider : a = winner := by
        by_contra loses
        have beaten : a ≠ rival := by
          intro same
          subst same
          exact unrivaled (by simp)
        rw [(undecided a).mpr ⟨loses, beaten⟩] at now
        cases now
      rw [(decide_code a).mpr decider] at now
      exact now.symm

theorem verdict_success {i : ι} {as : List (Section ι)} :
    verdict i as = some .success ↔ ∃ mid rest, as = mid ++ .set :: rest ∧ .cancel i ∉ mid :=
  verdict_first (fun _ => decides_success) (fun _ => decides_none)

theorem verdict_canceled {i : ι} {as : List (Section ι)} :
    verdict i as = some .operationCanceled ↔
      ∃ mid rest, as = mid ++ .cancel i :: rest ∧ .set ∉ mid :=
  verdict_first (fun _ => decides_canceled) (fun _ => decides_none.trans and_comm)

theorem next_wellFormed {w v : Waits ι} {a : Section ι} (wf : w.event.WellFormed)
    (taken : sections.next w a = some v) : v.event.WellFormed := by
  cases a with
  | set =>
    cases taken
    exact set_wellFormed wf
  | coWait i =>
    simp only [sections] at taken
    split at taken
    · rename_i fresh
      cases taken
      exact coWait_wellFormed wf fresh
    · cases taken
  | cancel i =>
    cases taken
    exact cancel_wellFormed wf i

theorem pending_next {w v : Waits ι} {a : Section ι} {i : ι} (wf : w.event.WellFormed)
    (pending : w.event.operation i = some ⟨false⟩) (taken : sections.next w a = some v) :
    v.event.operation i = some ⟨(decides i a).isSome⟩ ∧
      ∀ ec, (i, ec) ∈ v.posted ↔ (i, ec) ∈ w.posted ∨ decides i a = some ec := by
  have member := (wf.linked i).mpr pending
  cases a with
  | set =>
    cases taken
    refine ⟨by simp [Waits.after, set_operation wf, member, decides], fun ec => ?_⟩
    simp [Waits.after, set_posted wf, member, decides, eq_comm]
  | coWait j =>
    simp only [sections] at taken
    split at taken
    · rename_i fresh
      cases taken
      have other : i ≠ j := by
        intro same
        subst same
        simp [fresh] at pending
      cases isSet : w.event.isSet with
      | true => simp [Waits.after, coWait_of_set j isSet, other, pending, decides]
      | false => simp [Waits.after, coWait_of_unset j isSet, other, pending, decides]
    · cases taken
  | cancel j =>
    cases taken
    by_cases same : j = i
    · subst same
      simp [Waits.after, cancel_waiting wf pending, decides, eq_comm]
    · by_cases waits : w.event.operation j = some ⟨false⟩
      · simp [Waits.after, cancel_waiting wf waits, decides, same, Ne.symm same, pending]
      · simp [Waits.after, cancel_idle waits, decides, same, pending]

theorem finished_next {w v : Waits ι} {a : Section ι} {i : ι} (wf : w.event.WellFormed)
    (finished : w.event.operation i = some ⟨true⟩) (taken : sections.next w a = some v) :
    v.event.operation i = some ⟨true⟩ ∧ ∀ ec, (i, ec) ∈ v.posted ↔ (i, ec) ∈ w.posted := by
  have unlinked : i ∉ w.event.operations.nodes := by simp [wf.linked i, finished]
  cases a with
  | set =>
    cases taken
    simp [Waits.after, set_operation wf, set_posted wf, unlinked, finished]
  | coWait j =>
    simp only [sections] at taken
    split at taken
    · rename_i fresh
      cases taken
      have other : i ≠ j := by
        intro same
        subst same
        simp [fresh] at finished
      cases isSet : w.event.isSet with
      | true => simp [Waits.after, coWait_of_set j isSet, other, finished]
      | false => simp [Waits.after, coWait_of_unset j isSet, other, finished]
    · cases taken
  | cancel j =>
    cases taken
    by_cases waits : w.event.operation j = some ⟨false⟩
    · have other : i ≠ j := by
        intro same
        subst same
        simp [waits] at finished
      simp [Waits.after, cancel_waiting wf waits, other, finished]
    · simp [Waits.after, cancel_idle waits, finished]

theorem finished_run {w v : Waits ι} {as : List (Section ι)} {i : ι} (wf : w.event.WellFormed)
    (finished : w.event.operation i = some ⟨true⟩) (ran : sections.run w as = some v)
    (ec : ErrorCode) : (i, ec) ∈ v.posted ↔ (i, ec) ∈ w.posted := by
  induction as generalizing w with
  | nil =>
    cases ran
    exact Iff.rfl
  | cons a as ih =>
    obtain ⟨u, taken, rest⟩ := Machine.run_cons.mp ran
    obtain ⟨still, same⟩ := finished_next wf finished taken
    exact (ih (next_wellFormed wf taken) still rest).trans (same ec)

/-- A pending wait is posted with the verdict of the sections that follow, if there
    is one. -/
theorem pending_run {w v : Waits ι} {as : List (Section ι)} {i : ι} (wf : w.event.WellFormed)
    (pending : w.event.operation i = some ⟨false⟩) (silent : i ∉ w.posted.map Prod.fst)
    (ran : sections.run w as = some v) (ec : ErrorCode) :
    (i, ec) ∈ v.posted ↔ verdict i as = some ec := by
  induction as generalizing w with
  | nil =>
    cases ran
    simp only [verdict, List.findSome?_nil, reduceCtorEq, iff_false]
    exact fun member => silent (List.mem_map_of_mem member)
  | cons a as ih =>
    obtain ⟨u, taken, rest⟩ := Machine.run_cons.mp ran
    obtain ⟨operation, posted⟩ := pending_next wf pending taken
    have unposted (code : ErrorCode) : (i, code) ∉ w.posted :=
      fun member => silent (List.mem_map_of_mem member)
    rw [verdict, List.findSome?_cons]
    cases decided : decides i a with
    | none =>
      rw [decided] at operation posted
      refine ih (next_wellFormed wf taken) operation (fun member => ?_) rest
      obtain ⟨⟨_, code⟩, now, rfl⟩ := List.mem_map.mp member
      simpa [unposted] using (posted code).mp now
    | some code =>
      rw [decided] at operation posted
      rw [finished_run (next_wellFormed wf taken) operation rest ec, posted ec]
      simp [unposted]

def AtInitiation (i : ι) (as : List (Section ι))
    (holds : List (Section ι) → List (Section ι) → Prop) : Prop :=
  ∃ before later, as = before ++ .coWait i :: later ∧ holds before later

def SetAtInitiation (i : ι) (as : List (Section ι)) : Prop :=
  AtInitiation i as fun before _ => .set ∈ before

def SetBeforeCancel (i : ι) (as : List (Section ι)) : Prop :=
  AtInitiation i as fun _ later => ∃ mid rest, later = mid ++ .set :: rest ∧ .cancel i ∉ mid

def CancelBeforeSet (i : ι) (as : List (Section ι)) : Prop :=
  AtInitiation i as fun before later =>
    .set ∉ before ∧ ∃ mid rest, later = mid ++ .cancel i :: rest ∧ .set ∉ mid

def NeitherYet (i : ι) (as : List (Section ι)) : Prop :=
  AtInitiation i as fun before later => .set ∉ before ∧ .set ∉ later ∧ .cancel i ∉ later

theorem initiated_nodup {as : List (Section ι)} {w : Waits ι}
    (ran : sections.run sections.initial as = some w) : (initiated as).Nodup := by
  refine (Machine.run_history (fun as w => Accounts as w ∧ (initiated as).Nodup)
    ⟨accounts_initial, List.nodup_nil⟩ ?_ ran).2
  rintro as w a v ⟨acc, distinct⟩ taken
  refine ⟨accounts_next as w a v acc taken, ?_⟩
  rw [initiated_snoc]
  cases a with
  | set => simpa [initiated] using distinct
  | coWait i =>
    simp only [sections] at taken
    split at taken
    · rename_i fresh
      apply nodup_snoc distinct
      rw [mem_initiated]
      exact (acc.fresh fresh).1
    · cases taken
  | cancel i => simpa [initiated] using distinct

theorem atInitiation_iff {before later : List (Section ι)} {w : Waits ι} {i : ι}
    (ran : sections.run sections.initial (before ++ .coWait i :: later) = some w)
    (holds : List (Section ι) → List (Section ι) → Prop) :
    AtInitiation i (before ++ .coWait i :: later) holds ↔ holds before later := by
  constructor
  · intro both
    rcases both with ⟨pre, post, split, held⟩
    have distinct := initiated_nodup ran
    have parts : initiated (before ++ .coWait i :: later) =
        initiated before ++ i :: initiated later := by simp [initiated]
    rw [parts, List.nodup_middle, List.nodup_cons, List.mem_append] at distinct
    have once : Section.coWait i ∉ before ∧ Section.coWait i ∉ later := by
      rw [← mem_initiated, ← mem_initiated]
      exact not_or.mp distinct.1
    obtain ⟨rfl, _, rfl⟩ := (List.append_cons_inj_of_notMem once.1 once.2).mp split
    exact held
  · exact fun held => ⟨before, later, rfl, held⟩

theorem posted_iff {before later : List (Section ι)} {w : Waits ι} {i : ι}
    (ran : sections.run sections.initial (before ++ .coWait i :: later) = some w) (ec : ErrorCode) :
    (i, ec) ∈ w.posted ↔ if .set ∈ before then ec = .success else verdict i later = some ec := by
  obtain ⟨u, earlier, rest⟩ := Machine.run_append.mp ran
  obtain ⟨v, taken, after⟩ := Machine.run_cons.mp rest
  have acc := accounts earlier
  have wf := next_wellFormed acc.wf taken
  simp only [sections] at taken
  split at taken
  · rename_i fresh
    obtain ⟨_, silent, _⟩ := acc.fresh fresh
    have unposted (code : ErrorCode) : (i, code) ∉ u.posted :=
      fun member => silent (List.mem_map_of_mem member)
    cases taken
    cases isSet : u.event.isSet with
    | true =>
      rw [if_pos (acc.isSet.mp isSet)]
      rw [coWait_of_set i isSet] at wf after
      rw [finished_run wf (by simp [Waits.after]) after ec]
      simp [Waits.after, unposted]
    | false =>
      rw [if_neg fun member => by simp [acc.isSet.mpr member] at isSet]
      rw [coWait_of_unset i isSet] at wf after
      exact pending_run wf (by simp [Waits.after]) (by simpa [Waits.after] using silent) after ec
  · cases taken

theorem uninitiated_silent {as : List (Section ι)} {w : Waits ι} {i : ι}
    (ran : sections.run sections.initial as = some w) (never : .coWait i ∉ as)
    (ec : ErrorCode) : (i, ec) ∉ w.posted := by
  intro member
  have acc := accounts ran
  have posted := (acc.finished i).mpr (List.mem_map_of_mem member)
  exact never ((acc.created i).mp (by simp [posted]))

omit [DecidableEq ι] in
theorem atInitiation_mem {i : ι} {as : List (Section ι)}
    {holds : List (Section ι) → List (Section ι) → Prop} (held : AtInitiation i as holds) :
    .coWait i ∈ as := by
  obtain ⟨before, later, rfl, _⟩ := held
  simp

theorem posted_success_iff {as : List (Section ι)} {w : Waits ι}
    (ran : sections.run sections.initial as = some w) (i : ι) :
    (i, .success) ∈ w.posted ↔ SetAtInitiation i as ∨ SetBeforeCancel i as := by
  by_cases member : .coWait i ∈ as
  · obtain ⟨before, later, rfl⟩ := List.append_of_mem member
    rw [posted_iff ran, SetAtInitiation, SetBeforeCancel, atInitiation_iff ran,
      atInitiation_iff ran, ← verdict_success]
    by_cases early : .set ∈ before <;> simp [early]
  · refine iff_of_false (uninitiated_silent ran member _) ?_
    rintro (held | held) <;> exact member (atInitiation_mem held)

theorem posted_canceled_iff {as : List (Section ι)} {w : Waits ι}
    (ran : sections.run sections.initial as = some w) (i : ι) :
    (i, .operationCanceled) ∈ w.posted ↔ CancelBeforeSet i as := by
  by_cases member : .coWait i ∈ as
  · obtain ⟨before, later, rfl⟩ := List.append_of_mem member
    rw [posted_iff ran, CancelBeforeSet, atInitiation_iff ran, ← verdict_canceled]
    by_cases early : .set ∈ before <;> simp [early]
  · exact iff_of_false (uninitiated_silent ran member _) fun held => member (atInitiation_mem held)

theorem unposted_iff {as : List (Section ι)} {w : Waits ι}
    (ran : sections.run sections.initial as = some w) {i : ι} (member : .coWait i ∈ as) :
    (∀ ec, (i, ec) ∉ w.posted) ↔ NeitherYet i as := by
  obtain ⟨before, later, rfl⟩ := List.append_of_mem member
  rw [NeitherYet, atInitiation_iff ran, ← verdict_none]
  simp only [posted_iff ran]
  by_cases early : .set ∈ before
  · simp [early]
  · simp [early, Option.eq_none_iff_forall_ne_some]

/-- After any order of sections every wait has been posted at most once, with the
    code its history gives it, and `m_operations` holds the others. -/
theorem waits_complete_once {as : List (Section ι)} {w : Waits ι}
    (ran : sections.run sections.initial as = some w) :
    (w.posted.map Prod.fst).Nodup ∧
    (∀ i, (i, .success) ∈ w.posted ↔ SetAtInitiation i as ∨ SetBeforeCancel i as) ∧
    (∀ i, (i, .operationCanceled) ∈ w.posted ↔ CancelBeforeSet i as) ∧
    (∀ i, .coWait i ∈ as → ((∀ ec, (i, ec) ∉ w.posted) ↔ NeitherYet i as)) ∧
    w.event.operations.nodes = unposted as w.posted ∧
    (.set ∈ as → w.event.operations.nodes = []) := by
  have acc := accounts ran
  exact ⟨acc.once, posted_success_iff ran, posted_canceled_iff ran, fun _ => unposted_iff ran,
    acc.waiting, fun member => acc.wf.drained (acc.isSet.mpr member)⟩

/-- One wait canceled before `set`, one canceled after it, one initiated after it. -/
theorem waits_complete_once_three : ∃ w : Waits Nat,
    sections.run sections.initial
      [.coWait 0, .coWait 1, .cancel 0, .set, .cancel 1, .coWait 2] = some w ∧
    w.posted = [(0, .operationCanceled), (1, .success), (2, .success)] ∧
    (w.posted.map Prod.fst).Nodup := by
  refine ⟨_, rfl, rfl, ?_⟩
  have ran : (sections (ι := Nat)).run sections.initial
      [.coWait 0, .coWait 1, .cancel 0, .set, .cancel 1, .coWait 2] = some _ := rfl
  exact (waits_complete_once ran).1

end BoostBase.AwaitableEvent
