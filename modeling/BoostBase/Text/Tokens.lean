import Mathlib.Algebra.BigOperators.Group.List.Basic
import Mathlib.Algebra.Order.Ring.Int

namespace Text

universe u

section

variable {α : Type u}

/-- How deep a text goes into groups; `change` is what a character does to the depth. -/
def depth (change : α → Int) (w : List α) : Int := (w.map change).sum

variable {change : α → Int}

@[simp] theorem depth_nil : depth change ([] : List α) = 0 := rfl

@[simp] theorem depth_cons (c : α) (w : List α) :
    depth change (c :: w) = change c + depth change w := by simp [depth]

end

variable {α : Type u} [DecidableEq α]

/-- No splitter stands outside of all groups when the text begins at the depth `d`. -/
def Unsplit (change : α → Int) (splitter : α) : Int → List α → Prop
  | _, [] => True
  | d, c :: w => ¬ (c = splitter ∧ d = 0) ∧ Unsplit change splitter (d + change c) w

instance Unsplit.decidable (change : α → Int) (splitter : α) :
    ∀ d w, Decidable (Unsplit change splitter d w)
  | _, [] => .isTrue trivial
  | d, c :: w =>
    have := Unsplit.decidable change splitter (d + change c) w
    inferInstanceAs (Decidable (¬ (c = splitter ∧ d = 0) ∧ _))

/-- A text is cut at the splitters outside of all groups; an empty rest is no token. -/
def tokensFrom (change : α → Int) (splitter : α) : Int → List α → List α → List (List α)
  | _, token, [] => if token = [] then [] else [token]
  | d, token, c :: w =>
    if c = splitter ∧ d = 0 then token :: tokensFrom change splitter (d + change c) [] w
    else tokensFrom change splitter (d + change c) (token ++ [c]) w

def tokens (change : α → Int) (splitter : α) (v : List α) : List (List α) :=
  tokensFrom change splitter 0 [] v

/-- The groups that are opened in a token are closed in it, and it holds no splitter outside. -/
structure Whole (change : α → Int) (splitter : α) (w : List α) : Prop where
  unsplit : Unsplit change splitter 0 w
  closed : depth change w = 0

instance (change : α → Int) (splitter : α) (w : List α) : Decidable (Whole change splitter w) :=
  decidable_of_iff (Unsplit change splitter 0 w ∧ depth change w = 0)
    ⟨fun both => ⟨both.1, both.2⟩, fun whole => ⟨whole.unsplit, whole.closed⟩⟩

variable {change : α → Int} {splitter : α}

theorem tokensFrom_unsplit {d : Int} {w : List α} (unsplit : Unsplit change splitter d w)
    (token rest : List α) : tokensFrom change splitter d token (w ++ rest) =
      tokensFrom change splitter (d + depth change w) (token ++ w) rest := by
  induction w generalizing d token with
  | nil => simp
  | cons c w ih =>
    rw [List.cons_append, tokensFrom, if_neg unsplit.1, ih unsplit.2, depth_cons, Int.add_assoc,
      List.append_assoc, List.singleton_append]

theorem tokens_cut {w : List α} (whole : Whole change splitter w) (rest : List α) :
    tokens change splitter (w ++ splitter :: rest) =
      w :: tokensFrom change splitter (change splitter) [] rest := by
  rw [tokens, tokensFrom_unsplit whole.unsplit, whole.closed, tokensFrom, if_pos ⟨rfl, rfl⟩]
  simp

theorem tokens_whole {w : List α} (whole : Whole change splitter w) (some : w ≠ []) :
    tokens change splitter w = [w] := by
  have last := tokensFrom_unsplit whole.unsplit [] []
  rw [List.append_nil] at last
  rw [tokens, last, List.nil_append, tokensFrom, if_neg some]

/-- Tokens joined by a splitter that opens no group come apart again. -/
theorem tokens_intercalate (flat : change splitter = 0) {ws : List (List α)} {last : List α}
    (whole : ∀ w ∈ ws ++ [last], Whole change splitter w) (some : last ≠ []) :
    tokens change splitter ([splitter].intercalate (ws ++ [last])) = ws ++ [last] := by
  induction ws with
  | nil =>
    rw [List.nil_append, List.intercalate_singleton]
    exact tokens_whole (whole last (by simp)) some
  | cons w ws ih =>
    obtain ⟨first, rest⟩ := List.forall_mem_cons.mp whole
    have joined : [splitter].intercalate (w :: ws ++ [last]) =
        w ++ splitter :: [splitter].intercalate (ws ++ [last]) := by
      cases ws with
      | nil => simp [List.intercalate_cons_cons]
      | cons v ws => simp [List.intercalate_cons_cons]
    rw [joined, tokens_cut first, flat]
    exact congrArg _ (ih rest)

end Text
