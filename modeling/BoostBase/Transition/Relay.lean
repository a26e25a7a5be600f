import Mathlib.Data.List.Infix

namespace Transition

/-- What a loop carries that reads chunks into one buffer and writes each out of it before
    the next. `writing` is how far the write at hand has come; `chunks` and `written` are
    what has been read and written so far. -/
structure Relay (α : Type*) where
  buffer : List α
  size : Nat
  writing : Option Nat
  chunks : List (List α)
  written : List α

namespace Relay

variable {α : Type*} {r : Relay α}

def new (buffer : List α) : Relay α := ⟨buffer, 0, none, [], []⟩

def readDone (r : Relay α) (chunk : List α) : Relay α :=
  { r with
    buffer := chunk ++ r.buffer.drop chunk.length
    size := chunk.length
    chunks := r.chunks ++ [chunk] }

def beginWrite (r : Relay α) : Relay α := { r with writing := some 0 }

def progress (r : Relay α) (n : Nat) : Option (Relay α) :=
  match r.writing with
  | none => none
  | some k =>
    if k + n ≤ r.size then
      some { r with
        writing := some (k + n)
        written := r.written ++ (r.buffer.drop k).take n }
    else none

def endWrite (r : Relay α) : Relay α := { r with writing := none }

def Level (r : Relay α) : Prop := r.written = r.chunks.flatten

/-- The buffer holds the last chunk, and the first `k` elements of it have been written. -/
def Delivered (r : Relay α) (k : Nat) : Prop :=
  ∃ before, r.chunks = before ++ [r.buffer.take r.size] ∧ k ≤ r.size ∧
    r.written = before.flatten ++ (r.buffer.take r.size).take k

/-- What is missing in what was written is the end of the last chunk. -/
def Sound (r : Relay α) : Prop :=
  ∃ missing, r.chunks.flatten = r.written ++ missing ∧
    (missing = [] ∨ ∃ last, r.chunks.getLast? = some last ∧ missing <:+ last)

theorem new_level (buffer : List α) : (new buffer).Level := rfl

theorem Level.sound (level : r.Level) : r.Sound :=
  ⟨[], by rw [level, List.append_nil], .inl rfl⟩

theorem Delivered.sound {k : Nat} (delivered : r.Delivered k) : r.Sound := by
  obtain ⟨before, chunks, _, written⟩ := delivered
  refine ⟨(r.buffer.take r.size).drop k, ?_, .inr ⟨r.buffer.take r.size, ?_, List.drop_suffix _ _⟩⟩
  · rw [chunks, written, List.flatten_append, List.append_assoc, List.take_append_drop]
    simp
  · rw [chunks, List.getLast?_concat]

theorem Sound.leads (sound : r.Sound) : r.written <+: r.chunks.flatten := by
  obtain ⟨missing, whole, _⟩ := sound
  exact ⟨missing, whole.symm⟩

theorem Level.readDone (level : r.Level) (chunk : List α) : (r.readDone chunk).Delivered 0 := by
  refine ⟨r.chunks, ?_, Nat.zero_le _, ?_⟩
  · simp [Relay.readDone]
  · simpa [Relay.readDone, Level] using level

theorem Delivered.beginWrite {k : Nat} (delivered : r.Delivered k) : r.beginWrite.Delivered k :=
  delivered

theorem Delivered.endWrite {k : Nat} (delivered : r.Delivered k) : r.endWrite.Delivered k :=
  delivered

theorem Delivered.progress {s : Relay α} {k n : Nat} (delivered : r.Delivered k)
    (writing : r.writing = some k) (taken : r.progress n = some s) :
    s.writing = some (k + n) ∧ s.Delivered (k + n) := by
  obtain ⟨before, chunks, _, written⟩ := delivered
  unfold Relay.progress at taken
  rw [writing] at taken
  simp only [Option.ite_none_right_eq_some, Option.some.injEq] at taken
  obtain ⟨fits, rfl⟩ := taken
  refine ⟨rfl, before, chunks, fits, ?_⟩
  have more : (r.buffer.drop k).take n = ((r.buffer.take r.size).drop k).take n := by
    rw [List.drop_take, List.take_take, Nat.min_eq_left (by omega)]
  simp only
  rw [written, more, List.append_assoc, List.take_add]

theorem Delivered.level (delivered : r.Delivered r.size) : r.Level := by
  obtain ⟨before, chunks, _, written⟩ := delivered
  unfold Level
  rw [written, chunks, List.take_take, Nat.min_self]
  simp

end Relay

end Transition
