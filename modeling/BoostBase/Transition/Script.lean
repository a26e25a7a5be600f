import Mathlib.Data.List.Basic

namespace Transition

universe u

/-- A program that performs operations one after another, each answered before the next. It
    ends with a value or with an exception. -/
inductive Script (Op : Type) (Res : Op → Type) (ε : Type) (α : Type u)
  | ret (a : α)
  | raise (e : ε)
  | perform (op : Op) (next : Res op → Script Op Res ε α)

structure Event (Op : Type) (Res : Op → Type) where
  op : Op
  answer : Res op

/-- What answers the operations, by everything that was performed before. -/
def World (Op : Type) (Res : Op → Type) : Type :=
  List (Event Op Res) → (op : Op) → Res op

namespace Script

variable {Op : Type} {Res : Op → Type} {ε : Type} {α β γ : Type u}

def bind (x : Script Op Res ε α) (f : α → Script Op Res ε β) : Script Op Res ε β :=
  match x with
  | .ret a => f a
  | .raise e => .raise e
  | .perform op next => .perform op fun answer => (next answer).bind f

instance : Monad (Script Op Res ε) where
  pure := ret
  bind := bind

theorem bind_ret (x : Script Op Res ε α) : x.bind ret = x := by
  induction x with
  | ret a | raise e => rfl
  | perform op next ih => exact congrArg (perform op) (funext ih)

theorem bind_bind (x : Script Op Res ε α) (f : α → Script Op Res ε β) (g : β → Script Op Res ε γ) :
    (x.bind f).bind g = x.bind fun a => (f a).bind g := by
  induction x with
  | ret a | raise e => rfl
  | perform op next ih => exact congrArg (perform op) (funext ih)

instance : LawfulMonad (Script Op Res ε) :=
  .mk' (Script Op Res ε) bind_ret (fun _ _ => rfl) bind_bind

def ask (op : Op) : Script Op Res ε (Res op) := .perform op .ret

/-- What is performed after `history`, and how the program ends. -/
def run (world : World Op Res) (history : List (Event Op Res)) :
    Script Op Res ε α → List (Event Op Res) × Except ε α
  | .ret a => ([], .ok a)
  | .raise e => ([], .error e)
  | .perform op next =>
    let event : Event Op Res := ⟨op, world history op⟩
    let (events, result) := run world (history ++ [event]) (next event.answer)
    (event :: events, result)

/-- Whatever the answers, the program performs operations of the kind `P` only. -/
def Only (P : Op → Prop) : Script Op Res ε α → Prop
  | .ret _ | .raise _ => True
  | .perform op next => P op ∧ ∀ answer, (next answer).Only P

variable {world : World Op Res} {history : List (Event Op Res)} {x : Script Op Res ε α}

@[simp] theorem run_ret (a : α) :
    (ret a : Script Op Res ε α).run world history = ([], .ok a) := rfl

@[simp] theorem run_pure (a : α) :
    (pure a : Script Op Res ε α).run world history = ([], .ok a) := rfl

@[simp] theorem run_raise (e : ε) :
    (raise e : Script Op Res ε α).run world history = ([], .error e) := rfl

theorem run_perform (op : Op) (next : Res op → Script Op Res ε α) :
    (perform op next).run world history =
      let event : Event Op Res := ⟨op, world history op⟩
      (event :: ((next event.answer).run world (history ++ [event])).1,
        ((next event.answer).run world (history ++ [event])).2) := rfl

theorem run_perform_bind (op : Op) (next : Res op → Script Op Res ε α) (f : α → Script Op Res ε β) :
    (perform op next >>= f).run world history =
      let event : Event Op Res := ⟨op, world history op⟩
      (event :: ((next event.answer >>= f).run world (history ++ [event])).1,
        ((next event.answer >>= f).run world (history ++ [event])).2) := rfl

theorem run_bind_ok {f : α → Script Op Res ε β} {events : List (Event Op Res)} {a : α}
    (ended : x.run world history = (events, .ok a)) :
    (x >>= f).run world history =
      (events ++ ((f a).run world (history ++ events)).1, ((f a).run world (history ++ events)).2) := by
  induction x generalizing history events with
  | ret b =>
    obtain ⟨rfl, same⟩ := Prod.mk.inj ended
    cases same
    simp [Bind.bind, bind]
  | raise e =>
    cases (Prod.mk.inj ended).2
  | perform op next ih =>
    rw [run_perform] at ended
    obtain ⟨rfl, result⟩ := Prod.mk.inj ended
    have later := ih _ (Prod.ext (by rfl) result)
    rw [run_perform_bind]
    dsimp only at later ⊢
    rw [later]
    simp

theorem run_bind_error {f : α → Script Op Res ε β} {events : List (Event Op Res)} {e : ε}
    (ended : x.run world history = (events, .error e)) :
    (x >>= f).run world history = (events, .error e) := by
  induction x generalizing history events with
  | ret b => cases (Prod.mk.inj ended).2
  | raise e =>
    obtain ⟨rfl, same⟩ := Prod.mk.inj ended
    cases same
    rfl
  | perform op next ih =>
    rw [run_perform] at ended
    obtain ⟨rfl, result⟩ := Prod.mk.inj ended
    have later := ih _ (Prod.ext (by rfl) result)
    rw [run_perform_bind]
    dsimp only at later ⊢
    rw [later]

theorem mem_run_bind {f : α → Script Op Res ε β} {event : Event Op Res}
    (performed : event ∈ (x.run world history).1) : event ∈ ((x >>= f).run world history).1 := by
  cases result : (x.run world history).2 with
  | ok a =>
    rw [run_bind_ok (Prod.ext rfl result)]
    exact List.mem_append_left _ performed
  | error e =>
    rw [run_bind_error (Prod.ext rfl result)]
    exact performed

theorem run_bind_events (f : α → β) :
    ((x >>= fun a => ret (f a)).run world history).1 = (x.run world history).1 := by
  cases result : (x.run world history).2 with
  | ok a =>
    rw [run_bind_ok (Prod.ext rfl result)]
    exact List.append_nil _
  | error e => rw [run_bind_error (Prod.ext rfl result)]

theorem Only.bind {P : Op → Prop} {f : α → Script Op Res ε β} (first : x.Only P)
    (next : ∀ a, (f a).Only P) : (x >>= f).Only P := by
  induction x with
  | ret a => exact next a
  | raise e => exact trivial
  | perform op rest ih => exact ⟨first.1, fun answer => ih answer (first.2 answer)⟩

theorem Only.mono {P Q : Op → Prop} (only : x.Only P) (kind : ∀ op, P op → Q op) : x.Only Q := by
  induction x with
  | ret a | raise e => exact trivial
  | perform op next ih => exact ⟨kind op only.1, fun answer => ih answer (only.2 answer)⟩

theorem Only.ask {P : Op → Prop} {op : Op} (kind : P op) :
    (ask op : Script Op Res ε (Res op)).Only P := ⟨kind, fun _ => trivial⟩

theorem Only.run {P : Op → Prop} (only : x.Only P) :
    ∀ event ∈ (x.run world history).1, P event.op := by
  induction x generalizing history with
  | ret a | raise e =>
    intro event performed
    cases performed
  | perform op next ih =>
    intro event performed
    rw [run_perform] at performed
    rcases List.mem_cons.mp performed with rfl | later
    · exact only.1
    · exact ih _ (only.2 _) event later

end Script

end Transition
