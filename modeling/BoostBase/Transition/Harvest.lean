import Mathlib.Data.List.Basic
import Mathlib.Data.List.TakeWhile

namespace Transition

/-- What is to be done about one thing: pass it over, take something from it, or stop. -/
inductive Verdict (β ε : Type*)
  | skip
  | take (b : β)
  | stop (e : ε)
  deriving DecidableEq

namespace Verdict

variable {β ε : Type*}

def taken : Verdict β ε → Option β
  | .take b => some b
  | .skip | .stop _ => none

def stops : Verdict β ε → Bool
  | .stop _ => true
  | .skip | .take _ => false

end Verdict

variable {α β ε : Type*}

/-- What is taken from a list, in order, before the first stop, and why it stopped. -/
def harvest (judge : α → Verdict β ε) : List α → List β × Option ε
  | [] => ([], none)
  | a :: as =>
    match judge a with
    | .skip => harvest judge as
    | .take b => (b :: (harvest judge as).1, (harvest judge as).2)
    | .stop e => ([], some e)

variable {judge : α → Verdict β ε} {a : α} {as : List α}

theorem harvest_skip (skips : judge a = .skip) : harvest judge (a :: as) = harvest judge as := by
  rw [harvest, skips]

theorem harvest_take {b : β} (takes : judge a = .take b) :
    harvest judge (a :: as) = (b :: (harvest judge as).1, (harvest judge as).2) := by
  rw [harvest, takes]

theorem harvest_stop {e : ε} (stops : judge a = .stop e) :
    harvest judge (a :: as) = ([], some e) := by
  rw [harvest, stops]

theorem harvest_through : (harvest judge as).2 = none ↔ ∀ a ∈ as, (judge a).stops = false := by
  induction as with
  | nil => simp [harvest]
  | cons a as ih =>
    rw [List.forall_mem_cons, ← ih]
    cases verdict : judge a with
    | skip => simp [harvest_skip verdict, Verdict.stops]
    | take b => simp [harvest_take verdict, Verdict.stops]
    | stop e => simp [harvest_stop verdict, Verdict.stops]

theorem harvest_taken : (harvest judge as).1 =
    (as.takeWhile fun a => !(judge a).stops).filterMap fun a => (judge a).taken := by
  induction as with
  | nil => rfl
  | cons a as ih =>
    cases verdict : judge a with
    | skip => simp [harvest_skip verdict, verdict, Verdict.stops, Verdict.taken, ih]
    | take b => simp [harvest_take verdict, verdict, Verdict.stops, Verdict.taken, ih]
    | stop e => simp [harvest_stop verdict, verdict, Verdict.stops]

theorem harvest_append (bs : List α) (through : (harvest judge as).2 = none) :
    harvest judge (as ++ bs) = ((harvest judge as).1 ++ (harvest judge bs).1, (harvest judge bs).2) := by
  induction as with
  | nil => rfl
  | cons a as ih =>
    rw [List.cons_append]
    cases verdict : judge a with
    | skip =>
      rw [harvest_skip verdict] at through ⊢
      rw [harvest_skip verdict, ih through]
    | take b =>
      rw [harvest_take verdict] at through ⊢
      rw [harvest_take verdict, ih through]
      rfl
    | stop e =>
      rw [harvest_stop verdict] at through
      cases through

theorem harvest_append_stopped (bs : List α) (stopped : (harvest judge as).2 ≠ none) :
    harvest judge (as ++ bs) = harvest judge as := by
  induction as with
  | nil => exact absurd rfl stopped
  | cons a as ih =>
    rw [List.cons_append]
    cases verdict : judge a with
    | skip =>
      rw [harvest_skip verdict] at stopped ⊢
      rw [harvest_skip verdict, ih stopped]
    | take b =>
      rw [harvest_take verdict] at stopped ⊢
      rw [harvest_take verdict, ih stopped]
    | stop e => rw [harvest_stop verdict, harvest_stop verdict]

theorem harvest_filter {p : α → Bool} (skips : ∀ a, p a = false → judge a = .skip) :
    harvest judge (as.filter p) = harvest judge as := by
  induction as with
  | nil => rfl
  | cons a as ih =>
    cases kept : p a with
    | false =>
      rw [List.filter_cons_of_neg (by simp [kept]), harvest_skip (skips a kept), ih]
    | true =>
      rw [List.filter_cons_of_pos kept]
      cases verdict : judge a with
      | skip => rw [harvest_skip verdict, harvest_skip verdict, ih]
      | take b => rw [harvest_take verdict, harvest_take verdict, ih]
      | stop e => rw [harvest_stop verdict, harvest_stop verdict]

end Transition
