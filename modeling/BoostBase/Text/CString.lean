import Mathlib.Data.List.TakeWhile

namespace Text

abbrev Byte := UInt8

def nul : Byte := 0

def newline : Byte := 10

/-- What a C function sees of a string it is handed as `c_str()`. -/
def cString (s : List Byte) : List Byte := s.takeWhile (· ≠ nul)

def line (s : List Byte) : List Byte := cString s ++ [newline]

/-- Lines one after another, each but the last ended by a newline. -/
def joined (lines : List (List Byte)) : List Byte := [newline].intercalate lines

theorem cString_of_not_mem {s : List Byte} (whole : nul ∉ s) : cString s = s := by
  apply List.takeWhile_eq_self_iff.mpr
  intro b member
  simpa using ne_of_mem_of_not_mem member whole

theorem cString_append {s t : List Byte} (whole : nul ∉ s) :
    cString (s ++ t) = s ++ cString t := by
  unfold cString
  rw [List.takeWhile_append_of_pos]
  intro b member
  simpa using ne_of_mem_of_not_mem member whole

theorem cString_cut {s : List Byte} (cut : nul ∈ s) (t : List Byte) :
    cString (s ++ t) = cString s := by
  induction s with
  | nil => cases cut
  | cons b s ih =>
    unfold cString at ih ⊢
    by_cases ends : b = nul
    · simp [ends]
    · have later : nul ∈ s := (List.mem_cons.mp cut).resolve_left (Ne.symm ends)
      rw [List.cons_append, List.takeWhile_cons, List.takeWhile_cons, ih later]

theorem line_of_not_mem {s : List Byte} (whole : nul ∉ s) : line s = s ++ [newline] := by
  rw [line, cString_of_not_mem whole]

@[simp] theorem joined_singleton (s : List Byte) : joined [s] = s := List.intercalate_singleton

theorem joined_cons_cons (s t : List Byte) (rest : List (List Byte)) :
    joined (s :: t :: rest) = s ++ [newline] ++ joined (t :: rest) :=
  List.intercalate_cons_cons

theorem line_joined_whole {s : List Byte} (whole : nul ∉ s) (t : List Byte)
    (rest : List (List Byte)) :
    line (joined (s :: t :: rest)) = line s ++ line (joined (t :: rest)) := by
  have newline_whole : nul ∉ s ++ [newline] := by simpa using ⟨whole, by decide⟩
  rw [joined_cons_cons, line, cString_append newline_whole, line_of_not_mem whole, line,
    List.append_assoc (s ++ [newline])]

theorem line_joined_cut {s : List Byte} (cut : nul ∈ s) (t : List Byte) (rest : List (List Byte)) :
    line (joined (s :: t :: rest)) = line s := by
  rw [joined_cons_cons, List.append_assoc, line, cString_cut cut, line]

theorem line_length_pos (s : List Byte) : 0 < (line s).length := by simp [line]

/-- Joined lines printed at once give no more bytes than line by line. -/
theorem line_joined_length {lines : List (List Byte)} (some : lines ≠ []) :
    (line (joined lines)).length ≤ (lines.flatMap line).length := by
  induction lines with
  | nil => exact absurd rfl some
  | cons s lines ih =>
    cases lines with
    | nil => simp
    | cons t rest =>
      have tail := ih (by simp)
      rw [List.flatMap_cons, List.length_append]
      by_cases cut : nul ∈ s
      · rw [line_joined_cut cut]
        omega
      · rw [line_joined_whole cut, List.length_append]
        omega

/-- Joined lines printed at once give the same bytes as line by line, unless a NUL cuts a
    line that is not the last. -/
theorem line_joined {lines : List (List Byte)} (some : lines ≠ []) :
    line (joined lines) = lines.flatMap line ↔ ∀ s ∈ lines.dropLast, nul ∉ s := by
  induction lines with
  | nil => exact absurd rfl some
  | cons s lines ih =>
    cases lines with
    | nil => simp
    | cons t rest =>
      have tail := ih (by simp)
      rw [List.flatMap_cons, List.dropLast_cons_cons, List.forall_mem_cons]
      by_cases cut : nul ∈ s
      · rw [line_joined_cut cut]
        refine iff_of_false (fun same => ?_) (fun whole => whole.1 cut)
        have longer : 0 < ((t :: rest).flatMap line).length := by
          rw [List.flatMap_cons, List.length_append]
          have first := line_length_pos t
          omega
        have sizes := congrArg List.length same
        rw [List.length_append] at sizes
        omega
      · rw [line_joined_whole cut, List.append_cancel_left_eq, tail]
        exact (and_iff_right cut).symm

end Text
