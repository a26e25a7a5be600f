import Mathlib.Data.List.Nodup
import Mathlib.Data.List.Perm.Basic

namespace Transition

/-- What a heap has seen: the objects made, and every time one was freed with who did it. -/
structure Ledger (ο κ : Type*) where
  made : List ο
  freed : List (ο × κ)
  deriving DecidableEq

namespace Ledger

variable {ο κ : Type*}

def empty : Ledger ο κ := ⟨[], []⟩

def make (l : Ledger ο κ) (o : ο) : Ledger ο κ := { l with made := l.made ++ [o] }

/-- Freeing is entered whether or not the object is there to be freed. -/
def free (l : Ledger ο κ) (o : ο) (k : κ) : Ledger ο κ := { l with freed := l.freed ++ [(o, k)] }

/-- Everything made is in `live` or was freed once, and never both. -/
structure Accounts (l : Ledger ο κ) (live : List ο) : Prop where
  nodup : l.made.Nodup
  split : l.made.Perm (live ++ l.freed.map Prod.fst)

variable {l : Ledger ο κ} {live live' : List ο} {o : ο}

theorem empty_accounts : (empty : Ledger ο κ).Accounts [] := ⟨List.nodup_nil, .refl _⟩

theorem Accounts.perm (ok : l.Accounts live) (same : live.Perm live') : l.Accounts live' :=
  ⟨ok.nodup, ok.split.trans (same.append_right _)⟩

theorem Accounts.make (ok : l.Accounts live) (fresh : o ∉ l.made) :
    (l.make o).Accounts (o :: live) := by
  refine ⟨?_, ?_⟩
  · exact List.nodup_append.mpr ⟨ok.nodup, List.nodup_singleton o, fun a member b last same =>
      fresh (List.mem_singleton.mp last ▸ same ▸ member)⟩
  · show (l.made ++ [o]).Perm (o :: live ++ l.freed.map Prod.fst)
    exact (List.perm_append_singleton o l.made).trans (ok.split.cons o)

theorem Accounts.free (ok : l.Accounts (o :: live)) (k : κ) : (l.free o k).Accounts live := by
  refine ⟨ok.nodup, ?_⟩
  show l.made.Perm (live ++ (l.freed ++ [(o, k)]).map Prod.fst)
  rw [List.map_append, ← List.append_assoc]
  exact ok.split.trans (List.perm_append_singleton o (live ++ l.freed.map Prod.fst)).symm

theorem Accounts.nodup_split (ok : l.Accounts live) : (live ++ l.freed.map Prod.fst).Nodup :=
  ok.split.nodup_iff.mp ok.nodup

theorem Accounts.mem_iff (ok : l.Accounts live) :
    o ∈ l.made ↔ o ∈ live ∨ o ∈ l.freed.map Prod.fst := by
  rw [ok.split.mem_iff, List.mem_append]

theorem Accounts.not_freed (ok : l.Accounts live) (lives : o ∈ live) : o ∉ l.freed.map Prod.fst :=
  fun freed => List.disjoint_of_nodup_append ok.nodup_split lives freed

theorem Accounts.freed_nodup (ok : l.Accounts live) : (l.freed.map Prod.fst).Nodup :=
  ok.nodup_split.of_append_right

theorem filter_eq_singleton {α β : Type*} [DecidableEq α] {entries : List (α × β)} {e : α × β}
    (nodup : (entries.map Prod.fst).Nodup) (member : e ∈ entries) :
    entries.filter (fun f => f.1 = e.1) = [e] := by
  induction entries with
  | nil => cases member
  | cons f rest ih =>
    obtain ⟨first, others⟩ := List.nodup_cons.mp nodup
    rcases List.mem_cons.mp member with rfl | later
    · have none_left : rest.filter (fun f => f.1 = e.1) = [] := by
        rw [List.filter_eq_nil_iff]
        intro g inside same
        exact first (decide_eq_true_eq.mp same ▸ List.mem_map_of_mem inside)
      rw [List.filter_cons_of_pos (by simp), none_left]
    · have other : ¬ f.1 = e.1 := fun same => first (same ▸ List.mem_map_of_mem later)
      rw [List.filter_cons_of_neg (by simpa using other), ih others later]

theorem Accounts.freed_once [DecidableEq ο] (ok : l.Accounts live) (here : o ∈ l.made)
    (gone : o ∉ live) : ∃ k, l.freed.filter (fun f => f.1 = o) = [(o, k)] := by
  obtain ⟨f, member, same⟩ := List.mem_map.mp ((ok.mem_iff.mp here).resolve_left gone)
  obtain ⟨o', k⟩ := f
  obtain rfl : o' = o := same
  exact ⟨k, filter_eq_singleton ok.freed_nodup member⟩

def unfreed [DecidableEq ο] (l : Ledger ο κ) : List ο :=
  l.made.filter fun o => o ∉ l.freed.map Prod.fst

theorem Accounts.unfreed_perm [DecidableEq ο] (ok : l.Accounts live) : l.unfreed.Perm live := by
  have kept : live.filter (fun o => o ∉ l.freed.map Prod.fst) = live := by
    rw [List.filter_eq_self]
    exact fun o lives => by simpa using ok.not_freed lives
  have gone : (l.freed.map Prod.fst).filter (fun o => o ∉ l.freed.map Prod.fst) = [] := by
    rw [List.filter_eq_nil_iff]
    exact fun o freed => by simpa using freed
  have parts := ok.split.filter fun o => o ∉ l.freed.map Prod.fst
  rw [List.filter_append, kept, gone, List.append_nil] at parts
  exact parts

end Ledger

end Transition
