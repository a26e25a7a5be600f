import Mathlib.Data.List.Induction

namespace Transition

universe u v w x

/-- A labelled machine. Every choice a scheduler or an environment has is in the
    label; `none` is a label the state does not allow. -/
structure Machine (σ : Type u) (α : Type v) where
  initial : σ
  next : σ → α → Option σ

namespace Machine

variable {σ : Type u} {α : Type v} (m : Machine σ α)

def run (s : σ) : List α → Option σ
  | [] => some s
  | a :: as => (m.next s a).bind fun t => run t as

def Steps (s t : σ) : Prop := ∃ as, m.run s as = some t

def Reachable (s : σ) : Prop := m.Steps m.initial s

/-- Every step a run takes satisfies `P`, a fact about the state before it, its
    label and the state after it. -/
def Always (P : σ → α → σ → Prop) (s : σ) : List α → Prop
  | [] => True
  | a :: as => ∀ t, m.next s a = some t → P s a t ∧ Always P t as

/-- Every state a run visits, the first and the last included, satisfies `P`. -/
def Visits (P : σ → Prop) (s : σ) : List α → Prop
  | [] => P s
  | a :: as => P s ∧ ∀ t, m.next s a = some t → Visits P t as

def tally (P : σ → α → Bool) (s : σ) : List α → Nat
  | [] => 0
  | a :: as =>
    match m.next s a with
    | none => 0
    | some t => (if P s a then 1 else 0) + tally P t as

variable {m}

@[simp] theorem run_nil (s : σ) : m.run s [] = some s := rfl

theorem run_cons_eq (s : σ) (a : α) (as : List α) :
    m.run s (a :: as) = (m.next s a).bind fun t => m.run t as := rfl

theorem run_cons {s u : σ} {a : α} {as : List α} :
    m.run s (a :: as) = some u ↔ ∃ t, m.next s a = some t ∧ m.run t as = some u := by
  simp only [run_cons_eq, Option.bind_eq_some_iff]

theorem run_append {s u : σ} {as bs : List α} :
    m.run s (as ++ bs) = some u ↔ ∃ t, m.run s as = some t ∧ m.run t bs = some u := by
  induction as generalizing s with
  | nil => simp
  | cons a as ih =>
    simp only [List.cons_append, run_cons, ih]
    constructor
    · intro both
      rcases both with ⟨t, step, v, before, after⟩
      exact ⟨v, ⟨t, step, before⟩, after⟩
    · intro both
      rcases both with ⟨v, ⟨t, step, before⟩, after⟩
      exact ⟨t, step, v, before, after⟩

theorem run_snoc {s u : σ} {as : List α} {a : α} :
    m.run s (as ++ [a]) = some u ↔ ∃ t, m.run s as = some t ∧ m.next t a = some u := by
  simp [run_append, run_cons]

theorem Steps.refl (s : σ) : m.Steps s s := ⟨[], rfl⟩

theorem Steps.single {s t : σ} {a : α} (taken : m.next s a = some t) : m.Steps s t :=
  ⟨[a], run_cons.mpr ⟨t, taken, rfl⟩⟩

theorem Steps.trans {s t u : σ} (first : m.Steps s t) (second : m.Steps t u) : m.Steps s u := by
  obtain ⟨as, before⟩ := first
  obtain ⟨bs, after⟩ := second
  exact ⟨as ++ bs, run_append.mpr ⟨t, before, after⟩⟩

theorem Reachable.initial : m.Reachable m.initial := Steps.refl _

theorem Reachable.step {s t : σ} {a : α} (reached : m.Reachable s) (taken : m.next s a = some t) :
    m.Reachable t := Steps.trans reached (.single taken)

theorem tally_cons {P : σ → α → Bool} {s t : σ} {a : α} (taken : m.next s a = some t)
    (as : List α) : m.tally P s (a :: as) = (if P s a then 1 else 0) + m.tally P t as := by
  simp [tally, taken]

theorem tally_snoc {P : σ → α → Bool} {s t u : σ} {as : List α} {a : α} (ran : m.run s as = some t)
    (taken : m.next t a = some u) :
    m.tally P s (as ++ [a]) = m.tally P s as + if P t a then 1 else 0 := by
  induction as generalizing s with
  | nil =>
    cases ran
    simp [tally, taken]
  | cons b as ih =>
    obtain ⟨v, first, rest⟩ := run_cons.mp ran
    rw [List.cons_append, tally_cons first, tally_cons first, ih rest, Nat.add_assoc]

theorem tally_mono {P Q : σ → α → Bool} (kind : ∀ s a, P s a = true → Q s a = true) (s : σ)
    (as : List α) : m.tally P s as ≤ m.tally Q s as := by
  induction as generalizing s with
  | nil => exact Nat.le_refl _
  | cons a as ih =>
    unfold tally
    split
    · exact Nat.le_refl _
    · rename_i t taken
      have later := ih t
      by_cases now : P s a = true
      · rw [if_pos now, if_pos (kind s a now)]
        omega
      · rw [if_neg now]
        split <;> omega

/-- The rule for a property of a state together with the labels that led to it. -/
theorem run_course (I : List α → σ → Prop) (start : I [] m.initial)
    (keeps : ∀ as s a t, m.run m.initial as = some s → I as s → m.next s a = some t → I (as ++ [a]) t)
    {as : List α} {s : σ} (ran : m.run m.initial as = some s) : I as s := by
  induction as using List.reverseRecOn generalizing s with
  | nil =>
    cases ran
    exact start
  | append_singleton as a ih =>
    obtain ⟨t, before, taken⟩ := run_snoc.mp ran
    exact keeps as t a s before (ih before) taken

/-- A property that is kept whatever the run before. -/
theorem run_history (I : List α → σ → Prop) (start : I [] m.initial)
    (keeps : ∀ as s a t, I as s → m.next s a = some t → I (as ++ [a]) t)
    {as : List α} {s : σ} (ran : m.run m.initial as = some s) : I as s :=
  run_course I start (fun as s a t _ => keeps as s a t) ran

/-- The rule for an inductive invariant. -/
theorem Reachable.invariant {I : σ → Prop} (start : I m.initial)
    (keeps : ∀ s a t, I s → m.next s a = some t → I t) {s : σ} (reached : m.Reachable s) : I s := by
  obtain ⟨as, ran⟩ := reached
  exact run_history (fun _ => I) start (fun _ => keeps) ran

/-- An invariant that survives the steps meeting `P` holds after a run of such steps. -/
theorem Always.invariant {I : σ → Prop} {P : σ → α → σ → Prop}
    (keeps : ∀ s a t, I s → P s a t → m.next s a = some t → I t)
    {s t : σ} {as : List α} (holds : I s) (all : m.Always P s as) (ran : m.run s as = some t) :
    I t := by
  induction as generalizing s with
  | nil =>
    cases ran
    exact holds
  | cons a as ih =>
    obtain ⟨u, taken, rest⟩ := run_cons.mp ran
    obtain ⟨met, later⟩ := all u taken
    exact ih (keeps _ _ _ holds met taken) later rest

theorem Always.cons {P : σ → α → σ → Prop} {s t : σ} {a : α} {as : List α} (taken : m.next s a = some t)
    (met : P s a t) (later : m.Always P t as) : m.Always P s (a :: as) := by
  intro u same
  rw [taken] at same
  cases same
  exact ⟨met, later⟩

theorem always_of_invariant {I : σ → Prop} {P : σ → α → σ → Prop}
    (keeps : ∀ s a t, I s → m.next s a = some t → I t)
    (local_ : ∀ s a t, I s → m.next s a = some t → P s a t)
    {s : σ} (holds : I s) (as : List α) : m.Always P s as := by
  induction as generalizing s with
  | nil => exact trivial
  | cons a as ih =>
    intro t taken
    exact ⟨local_ s a t holds taken, ih (keeps s a t holds taken)⟩

/-- A step property that gives another one, along a run of actions of the kind `A` that keep
    an invariant. -/
theorem Always.imp {I : σ → Prop} {A : α → Prop} {P Q : σ → α → σ → Prop}
    (keeps : ∀ s a t, I s → A a → m.next s a = some t → I t)
    (weaker : ∀ s a t, I s → A a → m.next s a = some t → P s a t → Q s a t)
    {s : σ} {as : List α} (holds : I s) (kind : ∀ a ∈ as, A a) (all : m.Always P s as) :
    m.Always Q s as := by
  induction as generalizing s with
  | nil => exact trivial
  | cons a as ih =>
    intro t taken
    have now := kind a List.mem_cons_self
    obtain ⟨met, later⟩ := all t taken
    exact ⟨weaker s a t holds now taken met,
      ih (keeps s a t holds now taken) (fun b queued => kind b (List.mem_cons_of_mem a queued)) later⟩

/-- Two step properties that agree wherever an invariant holds agree on every run. -/
theorem always_congr {I : σ → Prop} {P Q : σ → α → σ → Prop}
    (keeps : ∀ s a t, I s → m.next s a = some t → I t)
    (same : ∀ s a t, I s → m.next s a = some t → (P s a t ↔ Q s a t))
    {s : σ} (holds : I s) (as : List α) : m.Always P s as ↔ m.Always Q s as := by
  have steps (s : σ) (a : α) (t : σ) (kept : I s) (_ : True) := keeps s a t kept
  constructor
  · exact Always.imp (A := fun _ => True) steps (fun s a t kept _ taken => (same s a t kept taken).mp)
      holds fun _ _ => trivial
  · exact Always.imp (A := fun _ => True) steps (fun s a t kept _ taken => (same s a t kept taken).mpr)
      holds fun _ _ => trivial

theorem Always.append {P : σ → α → σ → Prop} {s t : σ} {as bs : List α}
    (all : m.Always P s (as ++ bs)) (ran : m.run s as = some t) :
    m.Always P s as ∧ m.Always P t bs := by
  induction as generalizing s with
  | nil =>
    cases ran
    exact ⟨trivial, all⟩
  | cons a as ih =>
    obtain ⟨u, taken, rest⟩ := run_cons.mp ran
    refine ⟨?_, (ih (all u taken).2 rest).2⟩
    intro v other
    obtain rfl : u = v := Option.some.inj (taken.symm.trans other)
    exact ⟨(all u taken).1, (ih (all u taken).2 rest).1⟩

instance Always.decidable {P : σ → α → σ → Prop} [∀ s a t, Decidable (P s a t)] :
    ∀ (s : σ) (as : List α), Decidable (m.Always P s as)
  | _, [] => .isTrue trivial
  | s, a :: as =>
    match taken : m.next s a with
    | none => .isTrue fun t other => by simp [taken] at other
    | some t =>
      have := Always.decidable (P := P) t as
      decidable_of_iff (P s a t ∧ m.Always P t as)
        ⟨fun all u other => (Option.some.inj (taken.symm.trans other)) ▸ all,
          fun all => all t taken⟩

theorem always_snoc {P : σ → α → σ → Prop} {s t : σ} {as : List α} {a : α}
    (ran : m.run s as = some t) :
    m.Always P s (as ++ [a]) ↔
      m.Always P s as ∧ ∀ u, m.next t a = some u → P t a u := by
  induction as generalizing s with
  | nil =>
    cases ran
    constructor
    · exact fun all => ⟨trivial, fun u taken => (all u taken).1⟩
    · exact fun all u taken => ⟨all.2 u taken, trivial⟩
  | cons b as ih =>
    obtain ⟨v, taken, rest⟩ := run_cons.mp ran
    constructor
    · intro all
      refine ⟨fun w other => ?_, ((ih rest).mp (all v taken).2).2⟩
      obtain rfl : v = w := Option.some.inj (taken.symm.trans other)
      exact ⟨(all v taken).1, ((ih rest).mp (all v taken).2).1⟩
    · rintro ⟨all, last⟩ w other
      obtain rfl : v = w := Option.some.inj (taken.symm.trans other)
      exact ⟨(all v taken).1, (ih rest).mpr ⟨(all v taken).2, last⟩⟩

theorem always_taken {P : σ → α → σ → Prop} {s t u : σ} {as : List α} {a : α}
    (ran : m.run s as = some t) (taken : m.next t a = some u) :
    m.Always P s (as ++ [a]) ↔ m.Always P s as ∧ P t a u := by
  rw [always_snoc ran]
  refine and_congr_right fun _ => ⟨fun all => all u taken, fun met v other => ?_⟩
  obtain rfl : u = v := Option.some.inj (taken.symm.trans other)
  exact met

theorem visits_iff {P : σ → Prop} {s : σ} {as : List α} :
    m.Visits P s as ↔ ∀ bs cs t, as = bs ++ cs → m.run s bs = some t → P t := by
  induction as generalizing s with
  | nil =>
    constructor
    · rintro holds bs cs t split ran
      obtain ⟨rfl, rfl⟩ := List.append_eq_nil_iff.mp split.symm
      cases ran
      exact holds
    · exact fun all => all [] [] s rfl rfl
  | cons a as ih =>
    constructor
    · rintro ⟨holds, later⟩ bs cs t split ran
      cases bs with
      | nil =>
        cases ran
        exact holds
      | cons b bs =>
        obtain ⟨rfl, rfl⟩ := List.cons.inj split
        obtain ⟨u, taken, rest⟩ := run_cons.mp ran
        exact ih.mp (later u taken) bs cs t rfl rest
    · intro all
      refine ⟨all [] _ s rfl rfl, fun u taken => ih.mpr ?_⟩
      rintro bs cs t rfl ran
      exact all (a :: bs) cs t rfl (run_cons.mpr ⟨u, taken, ran⟩)

/-- A state property and a step property that agree step by step, as long as the state
    property has held so far, agree on whole runs. -/
theorem visits_iff_always {I P : σ → Prop} {Q : σ → α → σ → Prop}
    (keeps : ∀ s a t, I s → m.next s a = some t → I t)
    (step : ∀ s a t, I s → P s → m.next s a = some t → (P t ↔ Q s a t))
    {s : σ} (holds : I s) (good : P s) (as : List α) : m.Visits P s as ↔ m.Always Q s as := by
  induction as generalizing s with
  | nil => exact iff_of_true good trivial
  | cons a as ih =>
    constructor
    · rintro ⟨_, later⟩ t taken
      have next : P t := by
        cases as with
        | nil => exact later t taken
        | cons b bs => exact (later t taken).1
      exact ⟨(step s a t holds good taken).mp next,
        (ih (keeps s a t holds taken) next).mp (later t taken)⟩
    · refine fun all => ⟨good, fun t taken => ?_⟩
      obtain ⟨now, later⟩ := all t taken
      exact (ih (keeps s a t holds taken) ((step s a t holds good taken).mpr now)).mpr later

end Machine

/-- `abs` maps every step of `m` to a run of `n`; a step `n` does not see maps to
    the empty run. -/
structure Simulation {σ : Type u} {α : Type v} {τ : Type w} {β : Type x}
    (m : Machine σ α) (n : Machine τ β) where
  abs : σ → τ
  starts : abs m.initial = n.initial
  follows : ∀ s a t, m.Reachable s → m.next s a = some t → n.Steps (abs s) (abs t)

theorem Simulation.reachable {σ : Type u} {α : Type v} {τ : Type w} {β : Type x}
    {m : Machine σ α} {n : Machine τ β} (sim : Simulation m n) {s : σ} (reached : m.Reachable s) :
    n.Reachable (sim.abs s) := by
  obtain ⟨as, ran⟩ := reached
  induction as using List.reverseRecOn generalizing s with
  | nil =>
    cases ran
    rw [sim.starts]
    exact .refl _
  | append_singleton as a ih =>
    obtain ⟨t, before, taken⟩ := Machine.run_snoc.mp ran
    exact (ih before).trans (sim.follows t a s ⟨as, before⟩ taken)

end Transition
