import BoostBase.Network.ProxyPairEnding

namespace BoostBase

open Asio Transition LastOut

namespace ProxyDataSession

variable {s t : ProxyDataSession} {h : SessionHandler} {rest : List SessionHandler}

/-- The session is stopped, or a stop stands in its strand. -/
def Halting (s : ProxyDataSession) : Prop := s.task.state = .stopped ∨ .stop ∈ s.strand

theorem Executed.stays (executed : Executed s h t) (stopped : s.task.state = .stopped) :
    t.task.state = .stopped := by
  cases executed with
  | entered fresh => simp [fresh] at stopped
  | stops => rfl
  | ends _ _ state worked e => rw [endRun_state, if_pos stopped]
  | refused | stopped | marks | silent | told | idles | waits => exact stopped

theorem Executed.stopQueued (executed : Executed s (.otherDone .read) t) : .stop ∈ t.strand := by
  cases executed with
  | told => exact List.mem_append_right _ List.mem_cons_self

theorem Halting.post (halting : s.Halting) (handlers : List SessionHandler) :
    ({ s with strand := s.strand ++ handlers } : ProxyDataSession).Halting :=
  halting.imp_right fun queued => List.mem_append_left _ queued

theorem Halting.executed (halting : s.Halting) (head : s.strand = h :: rest)
    (executed : Executed { s with strand := rest } h t) : t.Halting := by
  rcases halting with stopped | queued
  · exact .inl (executed.stays stopped)
  · rw [head] at queued
    rcases List.mem_cons.mp queued with rfl | later
    · exact .inl executed.halted
    · exact .inr (executed.keeps later)

theorem resume_unstopping (s : ProxyDataSession) (otherAlive : Bool) (failure : Option Exception) :
    .stop ∉ (s.resume otherAlive failure).toOther := by
  cases active : s.phase.active with
  | false =>
    unfold resume
    cases phase : s.phase <;> simp_all [SessionPhase.active, quietly]
  | true =>
    have cases := resume_cases active otherAlive failure
    revert cases
    generalize s.resume otherAlive failure = o
    intro cases
    cases cases <;> simp only [quietly, endWork, List.not_mem_nil, not_false_eq_true] <;> split <;> simp

end ProxyDataSession

namespace ProxyPair

open ProxyDataSession

variable {p q : ProxyPair} {x : Side}

/-- The body of `co_stop` in front of the strand of `x` will enter `onStop`. -/
def entersOnStop (x : Side) (p : ProxyPair) : Action → Bool
  | .run y => y = x && (p.session x).strand.head? = some .stop && (p.session x).task.state ≠ .stopped
  | _ => false

/-- The handler in front of the strand of `x` will call `stop` on the other session. -/
def stopsOther (x : Side) (p : ProxyPair) : Action → Bool
  | .run y => y = x &&
    match (p.session x).strand with
    | [] => false
    | h :: rest => .stop ∈ (({ p.session x with strand := rest } : ProxyDataSession).execute
        (p.alive x.other) h).toOther
  | _ => false

/-- `x` handles a notice that the other session has ended on a read. -/
def toldRead (x : Side) (p : ProxyPair) : Action → Bool
  | .run y => y = x && (p.session x).strand.head? = some (.otherDone .read)
  | _ => false

def FindsOther (p : ProxyPair) (a : Action) (_ : ProxyPair) : Prop :=
  ∀ x, a = .run x → p.alive x.other = true

/-- No handler is left in the strands; the sessions may wait in a read or a write. -/
def Drained (p : ProxyPair) : Prop := ∀ x, (p.session x).strand = []

theorem next_quiet {a : Action} (taken : machine.next p a = some q) (idle : ∀ x, a ≠ .run x) :
    (∀ y, ∃ more, q.session y = { p.session y with strand := (p.session y).strand ++ more }) ∧
      ∀ y, q.held y = true → p.held y = true := by
  have same : ∀ y, ∃ more, p.session y = { p.session y with strand := (p.session y).strand ++ more } :=
    fun y => ⟨[], by simp⟩
  have posted (x : Side) (h : SessionHandler) : ∀ y, ∃ more, (p.post x h).session y =
      { p.session y with strand := (p.session y).strand ++ more } := by
    intro y
    rw [post_session]
    split
    · exact ⟨[h], rfl⟩
    · exact same y
  cases a with
  | start x | stop x | emit x =>
    simp only [machine] at taken
    split at taken
    · cases taken
      exact ⟨posted x _, fun _ => id⟩
    · cases taken
  | release x =>
    cases taken
    refine ⟨same, fun y held => ?_⟩
    by_cases own : y = x
    · subst own
      simp [release] at held
    · simpa [release, own] using held
  | complete x failure =>
    simp only [machine] at taken
    split at taken
    · cases taken
      exact ⟨posted x _, fun _ => id⟩
    · cases taken
  | run x => exact absurd rfl (idle x)

theorem next_held {a : Action} (taken : machine.next p a = some q) (y : Side)
    (held : q.held y = true) : p.held y = true := by
  by_cases runs : ∃ x, a = .run x
  · obtain ⟨x, rfl⟩ := runs
    obtain ⟨h, rest, sent, _, _, _, _, _, same⟩ := runHead_spec taken
    rwa [← same]
  · exact (next_quiet taken fun x same => runs ⟨x, same⟩).2 y held

theorem stays_next {a : Action} (taken : machine.next p a = some q) {y : Side}
    (stopped : (p.session y).task.state = .stopped) : (q.session y).task.state = .stopped := by
  by_cases runs : ∃ x, a = .run x
  · obtain ⟨x, rfl⟩ := runs
    obtain ⟨h, rest, sent, head, executed, other, _⟩ := runHead_spec taken
    rcases Side.eq_or_other x y with rfl | rfl
    · exact executed.stays stopped
    · rwa [other]
  · obtain ⟨more, same⟩ := (next_quiet taken fun x same => runs ⟨x, same⟩).1 y
    rwa [same]

theorem halting_next {a : Action} (taken : machine.next p a = some q) {y : Side}
    (halting : (p.session y).Halting) : (q.session y).Halting := by
  by_cases runs : ∃ x, a = .run x
  · obtain ⟨x, rfl⟩ := runs
    obtain ⟨h, rest, sent, head, executed, other, _⟩ := runHead_spec taken
    rcases Side.eq_or_other x y with rfl | rfl
    · exact halting.executed head executed
    · rw [other]
      exact halting.post sent
  · obtain ⟨more, same⟩ := (next_quiet taken fun x same => runs ⟨x, same⟩).1 y
    rw [same]
    exact halting.post more

/-- A session becomes stopped only by entering `onStop`, which stops the other one. -/
theorem first_stop {a : Action} (taken : machine.next p a = some q)
    (before : (p.session x).task.state ≠ .stopped) (after : (q.session x).task.state = .stopped) :
    entersOnStop x p a = true ∧ (FindsOther p a q → .stop ∈ (q.session x.other).strand) := by
  by_cases runs : ∃ y, a = .run y
  · obtain ⟨y, rfl⟩ := runs
    obtain ⟨h, rest, o, head, output, executed, _, other, _⟩ := runHead_output taken
    rcases Side.eq_or_other y x with rfl | rfl
    · have stop : h = .stop := by
        by_contra otherwise
        exact executed.unstopped otherwise before after
      subst stop
      refine ⟨by simp [entersOnStop, head, before], fun finds => ?_⟩
      have sends : .stop ∈ o.toOther := by
        rw [output, finds _ rfl]
        simp [execute, stopBody, CoroutineTask.stopEntry, before]
      rw [other]
      exact List.mem_append_right _ sends
    · rw [other] at after
      exact absurd after before
  · obtain ⟨more, same⟩ := (next_quiet taken fun y same => runs ⟨y, same⟩).1 x
    rw [same] at after
    exact absurd after before

theorem enters_stopped {a : Action} (taken : machine.next p a = some q)
    (enters : entersOnStop x p a = true) :
    (p.session x).task.state ≠ .stopped ∧ (q.session x).task.state = .stopped := by
  cases a with
  | run y =>
    simp only [entersOnStop, ne_eq, decide_not, Bool.and_eq_true, decide_eq_true_eq,
      Bool.not_eq_true', decide_eq_false_iff_not] at enters
    obtain ⟨⟨rfl, front⟩, before⟩ := enters
    obtain ⟨h, rest, sent, head, executed, _⟩ := runHead_spec taken
    rw [head] at front
    obtain rfl : h = .stop := by simpa using front
    exact ⟨before, executed.halted⟩
  | start | stop | emit | release | complete => simp [entersOnStop] at enters

theorem toldRead_halting {a : Action} (taken : machine.next p a = some q)
    (told : toldRead x p a = true) : (q.session x).Halting := by
  cases a with
  | run y =>
    simp only [toldRead, Bool.and_eq_true, decide_eq_true_eq] at told
    obtain ⟨rfl, front⟩ := told
    obtain ⟨h, rest, sent, head, executed, _⟩ := runHead_spec taken
    rw [head] at front
    obtain rfl : h = .otherDone .read := by simpa using front
    exact .inr executed.stopQueued
  | start | stop | emit | release | complete => simp [toldRead] at told

theorem stopsOther_enters {a : Action} (stops : stopsOther x p a = true) :
    entersOnStop x p a = true := by
  cases a with
  | run y =>
    simp only [stopsOther, Bool.and_eq_true, decide_eq_true_eq] at stops
    obtain ⟨rfl, sends⟩ := stops
    split at sends
    · cases sends
    · rename_i h rest head
      simp only [decide_eq_true_eq] at sends
      cases h with
      | stop =>
        simp only [execute, stopBody] at sends
        split at sends
        · cases sends
        · rename_i entry
          have first := (CoroutineTask.stopEntry_some.mp entry).1
          simpa [entersOnStop, head] using first
      | start | emit | otherDone => simp [execute, quietly] at sends
      | resume failure => exact absurd sends (resume_unstopping _ _ failure)
  | start | stop | emit | release | complete => simp [stopsOther] at stops

structure Agreement (as : List Action) (p : ProxyPair) : Prop where
  relayed : machine.Always FindsOther machine.initial as →
    ∀ x, (p.session x).task.state = .stopped → (p.session x.other).Halting
  told : ∀ x, 0 < machine.tally (toldRead x) machine.initial as → (p.session x).Halting
  once : ∀ x, machine.tally (entersOnStop x) machine.initial as ≤
    if (p.session x).task.state = .stopped then 1 else 0

theorem agreement_next {as : List Action} {a : Action}
    (ran : machine.run machine.initial as = some p) (kept : Agreement as p)
    (taken : machine.next p a = some q) : Agreement (as ++ [a]) q := by
  refine ⟨fun finds x stopped => ?_, fun x told => ?_, fun x => ?_⟩
  · obtain ⟨earlier, now⟩ := (Machine.always_taken ran taken).mp finds
    by_cases before : (p.session x).task.state = .stopped
    · exact halting_next taken (kept.relayed earlier x before)
    · exact .inr ((first_stop taken before stopped).2 now)
  · rw [Machine.tally_snoc ran taken] at told
    by_cases now : toldRead x p a = true
    · exact toldRead_halting taken now
    · rw [if_neg now] at told
      exact halting_next taken (kept.told x told)
  · have before := kept.once x
    rw [Machine.tally_snoc ran taken]
    by_cases enters : entersOnStop x p a = true
    · obtain ⟨unstopped, stopped⟩ := enters_stopped taken enters
      rw [if_neg unstopped] at before
      rw [if_pos enters, if_pos stopped]
      omega
    · rw [if_neg enters]
      by_cases stopped : (p.session x).task.state = .stopped
      · rw [if_pos stopped] at before
        rw [if_pos (stays_next taken stopped)]
        exact before
      · rw [if_neg stopped] at before
        omega

theorem agreement {as : List Action} (ran : machine.run machine.initial as = some p) :
    Agreement as p := by
  refine Machine.run_course Agreement ?_ (fun _ _ _ _ => agreement_next) ran
  exact ⟨fun _ _ stopped => (by cases stopped), fun _ told => (by cases told), fun _ => Nat.le_refl _⟩

theorem finds_held {as : List Action} (ran : machine.run machine.initial as = some p)
    (held : ∀ x, p.held x = true) : machine.Always FindsOther machine.initial as := by
  refine Machine.run_course (m := machine)
    (fun as p => (∀ x, p.held x = true) → machine.Always FindsOther machine.initial as) ?_ ?_ ran held
  · exact fun _ => trivial
  · intro as p a q ran kept taken held
    have before (x : Side) : p.held x = true := next_held taken x (held x)
    refine (Machine.always_taken ran taken).mpr ⟨kept before, fun x _ => ?_⟩
    simp [alive, before]

/-- While each session finds the other one alive, `onStop` is entered at most once on each side
    and stops the other at most once, and at rest both sessions are stopped or neither is; both
    are if either has been told of an end on a read. -/
theorem stopped_together {as : List Action} (ran : machine.run machine.initial as = some p)
    (finds : machine.Always FindsOther machine.initial as) :
    (∀ x, machine.tally (entersOnStop x) machine.initial as ≤ 1 ∧
      machine.tally (stopsOther x) machine.initial as ≤ 1) ∧
    (p.Drained →
      ((p.session .a).task.state = .stopped ↔ (p.session .b).task.state = .stopped) ∧
      ∀ x, 0 < machine.tally (toldRead x) machine.initial as →
        ∀ y, (p.session y).task.state = .stopped) := by
  have kept := agreement ran
  refine ⟨fun x => ?_, fun drained => ?_⟩
  · have once : machine.tally (entersOnStop x) machine.initial as ≤ 1 := by
      have bound := kept.once x
      split at bound <;> omega
    exact ⟨once, Nat.le_trans (Machine.tally_mono (fun _ _ => stopsOther_enters) _ _) once⟩
  · have at_rest {x : Side} (halting : (p.session x).Halting) : (p.session x).task.state = .stopped := by
      refine halting.resolve_right fun queued => ?_
      rw [drained x] at queued
      cases queued
    have both (x : Side) (stopped : (p.session x).task.state = .stopped) :
        (p.session x.other).task.state = .stopped := at_rest (kept.relayed finds x stopped)
    refine ⟨⟨both .a, both .b⟩, fun x told => ?_⟩
    have here := at_rest (kept.told x told)
    exact (Side.forall_iff x).mpr ⟨here, both x here⟩

/-- A stop of `a` from outside while both sessions read. -/
def stoppedReading : List Action :=
  [.start .a, .start .b, .run .a, .run .b, .complete .a none, .complete .b none, .run .a, .run .b,
    .stop .a, .run .a, .run .b, .complete .a (some (.systemError .operationCanceled)),
    .complete .b (some (.systemError .operationCanceled)), .run .a, .run .a, .run .b, .run .b,
    .run .b, .run .a, .run .a, .run .a, .run .b]

theorem stopped_together_reading : ∃ p : ProxyPair,
    machine.run machine.initial stoppedReading = some p ∧ p.Drained ∧
      ((p.session .a).task.state = .stopped ↔ (p.session .b).task.state = .stopped) := by
  obtain ⟨p, ran, held, drained⟩ : ∃ p : ProxyPair,
      machine.run machine.initial stoppedReading = some p ∧ (∀ x, p.held x = true) ∧ p.Drained := by
    refine ⟨_, rfl, ?_, ?_⟩
    · intro x
      rfl
    · intro x
      cases x <;> rfl
  exact ⟨p, ran, drained, ((stopped_together ran (finds_held ran held)).2 drained).1⟩

end ProxyPair

end BoostBase
