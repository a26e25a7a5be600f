import Mathlib.Data.Finset.Card
import Mathlib.Logic.Function.Basic
import Mathlib.Logic.Relation

namespace Transition.Delegation

variable {ι : Type*}

/-- The chain that starts at `i` and follows `next` passes through `j`. -/
def Passes (next : ι → Option ι) : ι → ι → Prop :=
  Relation.ReflTransGen fun i j => next i = some j

def Ends (next : ι → Option ι) (i e : ι) : Prop := Passes next i e ∧ next e = none

def Grounded (next : ι → Option ι) : Prop := ∀ i, ∃ e, Ends next i e

/-- The end of a chain, found in fewer than `fuel` links. -/
def last (next : ι → Option ι) : Nat → ι → Option ι
  | 0, _ => none
  | fuel + 1, i =>
    match next i with
    | none => some i
    | some j => last next fuel j

variable {next next' : ι → Option ι} {h i j t e : ι}

theorem Passes.refl (i : ι) : Passes next i i := Relation.ReflTransGen.refl

theorem Passes.link (linked : next i = some j) (rest : Passes next j e) : Passes next i e :=
  Relation.ReflTransGen.head linked rest

theorem passes_of_end (stop : next i = none) : Passes next i j ↔ j = i := by
  constructor
  · intro passes
    rcases Relation.ReflTransGen.cases_head passes with same | ⟨k, linked, _⟩
    · exact same.symm
    · simp [stop] at linked
  · rintro rfl
    exact .refl j

theorem passes_of_link (linked : next i = some j) : Passes next i e ↔ e = i ∨ Passes next j e := by
  constructor
  · intro passes
    rcases Relation.ReflTransGen.cases_head passes with same | ⟨k, other, rest⟩
    · exact .inl same.symm
    · rw [linked] at other
      cases other
      exact .inr rest
  · rintro (rfl | rest)
    · exact .refl e
    · exact .link linked rest

theorem ends_of_end (stop : next i = none) : Ends next i e ↔ e = i := by
  rw [Ends, passes_of_end stop]
  constructor
  · exact fun both => both.1
  · rintro rfl
    exact ⟨rfl, stop⟩

theorem ends_of_link (linked : next i = some j) : Ends next i e ↔ Ends next j e := by
  rw [Ends, Ends, passes_of_link linked]
  constructor
  · rintro ⟨rfl | rest, stop⟩
    · simp [linked] at stop
    · exact ⟨rest, stop⟩
  · exact fun ⟨rest, stop⟩ => ⟨.inr rest, stop⟩

/-- A chain with an end never comes back to where it started. -/
theorem Ends.acyclic (ends : Ends next i e) (linked : next i = some j) : ¬ Passes next j i := by
  obtain ⟨passes, stop⟩ := ends
  induction passes using Relation.ReflTransGen.head_induction_on generalizing j with
  | refl => simp [stop] at linked
  | @head a c first rest ih =>
    rw [first] at linked
    cases linked
    intro back
    rcases Relation.ReflTransGen.cases_head back with same | ⟨d, second, back⟩
    · subst same
      exact ih first (.refl c)
    · exact ih second (back.trans (Passes.link first (.refl c)))

theorem ends_of_last {fuel : Nat} (found : last next fuel i = some e) : Ends next i e := by
  induction fuel generalizing i with
  | zero => simp [last] at found
  | succ fuel ih =>
    rw [last] at found
    cases linked : next i with
    | none =>
      rw [linked] at found
      cases found
      exact (ends_of_end linked).mpr rfl
    | some j =>
      rw [linked] at found
      exact (ends_of_link linked).mpr (ih found)

section Congruence

variable (same : ∀ k, k ≠ h → next' k = next k)

include same

/-- A chain that keeps clear of `h` does not see where `h` points. -/
theorem Passes.congr (clear : ¬ Passes next i h) (passes : Passes next i j) : Passes next' i j := by
  induction passes using Relation.ReflTransGen.head_induction_on with
  | refl => exact .refl j
  | @head a c linked _ ih =>
    have other : a ≠ h := fun here => clear (here ▸ .refl a)
    refine .link ((same a other).trans linked) (ih fun rest => clear ?_)
    exact .link linked rest

theorem Passes.up_to (passes : Passes next i h) : Passes next' i h := by
  induction passes using Relation.ReflTransGen.head_induction_on with
  | refl => exact .refl h
  | @head a c linked _ ih =>
    by_cases here : a = h
    · rw [here]
      exact .refl h
    · exact .link ((same a here).trans linked) ih

theorem Ends.congr (clear : ¬ Passes next i h) (ends : Ends next i e) : Ends next' i e := by
  have other : e ≠ h := fun here => clear (here ▸ ends.1)
  exact ⟨ends.1.congr same clear, (same e other).trans ends.2⟩

theorem last_congr (clear : ¬ Passes next i h) (fuel : Nat) : last next' fuel i = last next fuel i := by
  induction fuel generalizing i with
  | zero => rfl
  | succ fuel ih =>
    have other : i ≠ h := fun here => clear (here ▸ .refl i)
    rw [last, last, same i other]
    cases linked : next i with
    | none => rfl
    | some j => exact ih fun rest => clear (.link linked rest)

end Congruence

section Link

variable [DecidableEq ι]

/-- What passed through `h` goes on to where `h` was made to point. -/
theorem Ends.through (passes : Passes next i h) (clear : ¬ Passes next t h) (ends : Ends next t e) :
    Ends (Function.update next h (some t)) i e := by
  have here : Ends (Function.update next h (some t)) h e := by
    rw [ends_of_link (Function.update_self ..)]
    exact ends.congr (fun _ other => Function.update_of_ne other _ _) clear
  induction passes using Relation.ReflTransGen.head_induction_on with
  | refl => exact here
  | @head a c linked _ ih =>
    by_cases at_ : a = h
    · rw [at_]
      exact here
    · rw [ends_of_link (j := c)]
      · exact ih
      · rw [Function.update_of_ne at_, linked]

theorem not_ends_of_back (back : Passes next t h) :
    ¬ Ends (Function.update next h (some t)) h e := by
  intro ends
  refine ends.acyclic (Function.update_self ..) ?_
  exact back.up_to fun _ other => Function.update_of_ne other _ _

theorem Ends.elsewhere (clear : ¬ Passes next i h) (ends : Ends next i e) :
    Ends (Function.update next h (some t)) i e :=
  ends.congr (fun _ other => Function.update_of_ne other _ _) clear

theorem Grounded.link (ok : Grounded next) (clear : ¬ Passes next t h) :
    Grounded (Function.update next h (some t)) := by
  intro i
  by_cases passes : Passes next i h
  · obtain ⟨e, ends⟩ := ok t
    exact ⟨e, ends.through passes clear⟩
  · obtain ⟨e, ends⟩ := ok i
    exact ⟨e, ends.elsewhere passes⟩

/-- A chain has no more links than there are things that point somewhere. -/
theorem last_of_ends {S : Finset ι} {fuel : Nat} (points : ∀ k, next k ≠ none → k ∈ S)
    (bound : S.card < fuel) (ends : Ends next i e) : last next fuel i = some e := by
  induction fuel generalizing next S i with
  | zero => omega
  | succ fuel ih =>
    rw [last]
    cases linked : next i with
    | none => rw [(ends_of_end linked).mp ends]
    | some j =>
      have member : i ∈ S := points i (by simp [linked])
      have clear : ¬ Passes next j i := ends.acyclic linked
      have rest : Ends next j e := (ends_of_link linked).mp ends
      -- the rest of the chain keeps clear of `i`, so `i` may as well point nowhere
      have same : ∀ k, k ≠ i → Function.update next i none k = next k :=
        fun k other => Function.update_of_ne other _ _
      show last next fuel j = some e
      rw [← last_congr same clear]
      refine ih (S := S.erase i) (fun k somewhere => ?_) ?_ (rest.congr same clear)
      · have other : k ≠ i := by
          rintro rfl
          simp at somewhere
        rw [same k other] at somewhere
        exact Finset.mem_erase.mpr ⟨other, points k somewhere⟩
      · rw [Finset.card_erase_of_mem member]
        have : 0 < S.card := Finset.card_pos.mpr ⟨i, member⟩
        omega

end Link

end Transition.Delegation
