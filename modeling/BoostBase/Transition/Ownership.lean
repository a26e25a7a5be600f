import Mathlib.Logic.Function.Basic

namespace Transition

variable {α β : Type*}

/-- What is owned is there, and by one owner only; there may be more than is owned. -/
structure Apart (owns : α → Option β) (there : β → Prop) : Prop where
  present : ∀ a b, owns a = some b → there b
  single : ∀ a a' b, owns a = some b → owns a' = some b → a = a'

def Owned (owns : α → Option β) (there : β → Prop) : Prop := ∀ b, there b → ∃ a, owns a = some b

variable {owns : α → Option β} {there there' : β → Prop} {a a' : α} {b b' : β}

namespace Apart

theorem empty : Apart (fun _ : α => (none : Option β)) there :=
  ⟨fun _ _ held => (by cases held), fun _ _ _ held => (by cases held)⟩

theorem mono (ok : Apart owns there) (more : ∀ b, there b → there' b) : Apart owns there' :=
  ⟨fun a b held => more b (ok.present a b held), ok.single⟩

theorem unique (ok : Apart owns there) (held : owns a = some b) : ∃! a, owns a = some b :=
  ⟨a, held, fun a' also => ok.single a' a b also held⟩

variable [DecidableEq α]

/-- An owner gets a new thing, instead of what it had. -/
theorem add (ok : Apart owns there) (a : α) (absent : ¬ there b) :
    Apart (Function.update owns a (some b)) (fun c => c = b ∨ there c) := by
  have new (e : α) (c : β) (owned : Function.update owns a (some b) e = some c) :
      e = a ∧ c = b ∨ e ≠ a ∧ owns e = some c := by
    by_cases here : e = a
    · subst here
      rw [Function.update_self] at owned
      exact .inl ⟨rfl, (Option.some.inj owned).symm⟩
    · rw [Function.update_of_ne here] at owned
      exact .inr ⟨here, owned⟩
  refine ⟨fun d c held => ?_, fun d d' c held also => ?_⟩
  · rcases new d c held with ⟨-, same⟩ | ⟨-, before⟩
    · exact .inl same
    · exact .inr (ok.present d c before)
  · rcases new d c held with ⟨rfl, same⟩ | ⟨_, before⟩ <;> rcases new d' c also with ⟨rfl, same'⟩ | ⟨_, after⟩
    · rfl
    · subst same
      exact absurd (ok.present d' c after) absent
    · subst same'
      exact absurd (ok.present d c before) absent
    · exact ok.single d d' c before after

theorem remove (ok : Apart owns there) (held : owns a = some b) :
    Apart (Function.update owns a none) (fun c => there c ∧ c ≠ b) := by
  have kept (d : α) (c : β) (owned : Function.update owns a none d = some c) :
      d ≠ a ∧ owns d = some c := by
    by_cases here : d = a
    · subst here
      rw [Function.update_self] at owned
      cases owned
    · rw [Function.update_of_ne here] at owned
      exact ⟨here, owned⟩
  refine ⟨fun d c owned => ?_, fun d d' c owned also => ?_⟩
  · obtain ⟨other, before⟩ := kept d c owned
    refine ⟨ok.present d c before, ?_⟩
    rintro rfl
    exact other (ok.single d a c before held)
  · exact ok.single d d' c (kept d c owned).2 (kept d' c also).2

theorem renew (ok : Apart owns there) (held : owns a = some b) (absent : ¬ there b') :
    Apart (Function.update owns a (some b')) (fun c => c = b' ∨ there c ∧ c ≠ b) := by
  have added := (ok.remove held).add a fun here => absent here.1
  rwa [Function.update_idem] at added

/-- An owner passes its thing to another and gets a new one for it. -/
theorem handOver (ok : Apart owns there) (held : owns a = some b) (absent : ¬ there b') (a' : α) :
    Apart (Function.update (Function.update owns a (some b')) a' (some b)) (fun c => c = b' ∨ there c) := by
  have there_ := ok.present a b held
  have passed := (ok.renew held absent).add (b := b) a' fun here => ?_
  · refine passed.mono fun c inside => ?_
    rcases inside with rfl | new | old
    · exact .inr there_
    · exact .inl new
    · exact .inr old.1
  · rcases here with rfl | here
    · exact absent there_
    · exact here.2 rfl

end Apart

namespace Owned

theorem mono (all : Owned owns there) (less : ∀ b, there' b → there b) : Owned owns there' :=
  fun b here => all b (less b here)

variable [DecidableEq α]

theorem add (all : Owned owns there) (free : owns a = none) (b : β) :
    Owned (Function.update owns a (some b)) (fun c => c = b ∨ there c) := by
  intro c here
  rcases here with rfl | before
  · exact ⟨a, Function.update_self ..⟩
  · obtain ⟨d, held⟩ := all c before
    refine ⟨d, ?_⟩
    rw [Function.update_of_ne]
    · exact held
    · rintro rfl
      rw [free] at held
      cases held

theorem remove (all : Owned owns there) (held : owns a = some b) :
    Owned (Function.update owns a none) (fun c => there c ∧ c ≠ b) := by
  intro c here
  obtain ⟨d, owned⟩ := all c here.1
  refine ⟨d, ?_⟩
  rw [Function.update_of_ne]
  · exact owned
  · rintro rfl
    rw [held] at owned
    exact here.2 (Option.some.inj owned).symm

theorem renew (all : Owned owns there) (held : owns a = some b) (b' : β) :
    Owned (Function.update owns a (some b')) (fun c => c = b' ∨ there c ∧ c ≠ b) := by
  have added := (all.remove held).add (a := a) (Function.update_self ..) b'
  rwa [Function.update_idem] at added

theorem handOver (all : Owned owns there) (held : owns a = some b) (free : owns a' = none) (b' : β) :
    Owned (Function.update (Function.update owns a (some b')) a' (some b)) (fun c => c = b' ∨ there c) := by
  have other : a' ≠ a := by
    rintro rfl
    rw [held] at free
    cases free
  have passed := (all.renew held b').add (a := a') (by rw [Function.update_of_ne other, free]) b
  refine passed.mono fun c inside => ?_
  by_cases same : c = b
  · exact .inl same
  · exact .inr (inside.imp_right fun old => ⟨old, same⟩)

end Owned

end Transition
