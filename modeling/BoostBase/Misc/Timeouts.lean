import BoostBase.Misc.MagicEnum
import BoostBase.Transition.Machine

namespace BoostBase

open Transition

structure Timeouts (e : Enumeration) (τ : Type) where
  timeouts : Vector (Option τ) (MagicEnum.enumCount e)

namespace Timeouts

variable {e : Enumeration} {τ : Type}

def new : Timeouts e τ := ⟨.replicate _ none⟩

/-- Where there is no index the assertion fails. -/
def index (e : Enumeration) (v : Int) : Option Nat := MagicEnum.enumIndex e v

def setTimeout (t : Timeouts e τ) (v : Int) (d : Option τ) : Option (Timeouts e τ) :=
  (index e v).bind fun i =>
    if inside : i < MagicEnum.enumCount e then some ⟨t.timeouts.set i d inside⟩ else none

structure SetTimeout (e : Enumeration) (τ : Type) where
  timeout : Int
  declared : timeout ∈ e.enumerators
  duration : Option τ

def machine (e : Enumeration) (τ : Type) : Machine (Timeouts e τ) (SetTimeout e τ) where
  initial := new
  next t c := t.setTimeout c.timeout c.duration

end Timeouts

def IntegerType.int : IntegerType := ⟨true, 32, by decide, by decide⟩

def sessionTimeouts : Enumeration := ⟨.int, [0, 1], by decide⟩

def proxyTimeouts : Enumeration := ⟨.int, [0, 1, 2], by decide⟩

example : ∀ e ∈ [sessionTimeouts, proxyTimeouts], ∀ v ∈ e.enumerators, 0 ≤ v ∧ v ≤ 255 := by decide

end BoostBase
