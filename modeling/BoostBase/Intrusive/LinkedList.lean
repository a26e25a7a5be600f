import Mathlib.Data.List.Nodup

namespace Intrusive

theorem nodup_snoc {ι : Type*} {l : List ι} {i : ι} (nodup : l.Nodup) (fresh : i ∉ l) :
    (l ++ [i]).Nodup := by
  rw [← List.concat_eq_append]
  exact nodup.concat fresh

/-- The nodes an auto-unlink list links, front first. A node carries one hook, so
    it is linked at most once. -/
structure LinkedList (ι : Type*) where
  nodes : List ι
  nodup : nodes.Nodup

namespace LinkedList

variable {ι σ : Type*}

@[ext] theorem ext {l r : LinkedList ι} (same : l.nodes = r.nodes) : l = r := by
  cases l
  cases r
  cases same
  rfl

def empty : LinkedList ι := ⟨[], List.nodup_nil⟩

@[simp] theorem empty_nodes : (empty : LinkedList ι).nodes = [] := rfl

variable [DecidableEq ι]

/-- Linking a node that is linked already is what the hook's safe mode rejects. -/
def pushBack (l : LinkedList ι) (i : ι) : LinkedList ι :=
  if linked : i ∈ l.nodes then l else ⟨l.nodes ++ [i], nodup_snoc l.nodup linked⟩

theorem pushBack_nodes {l : LinkedList ι} {i : ι} (fresh : i ∉ l.nodes) :
    (l.pushBack i).nodes = l.nodes ++ [i] := by
  simp [pushBack, fresh]

/-- Unlinking through the hook; a node that is not linked is left alone. -/
def unlink (l : LinkedList ι) (i : ι) : LinkedList ι := ⟨l.nodes.erase i, l.nodup.erase i⟩

@[simp] theorem unlink_nodes (l : LinkedList ι) (i : ι) : (l.unlink i).nodes = l.nodes.erase i := rfl

theorem mem_unlink {l : LinkedList ι} {i j : ι} :
    j ∈ (l.unlink i).nodes ↔ j ≠ i ∧ j ∈ l.nodes := l.nodup.mem_erase_iff

theorem unlink_of_not_mem {l : LinkedList ι} {i : ι} (absent : i ∉ l.nodes) : l.unlink i = l :=
  ext (List.erase_of_not_mem absent)

omit [DecidableEq ι] in
def popFront : LinkedList ι → Option (ι × LinkedList ι)
  | ⟨[], _⟩ => none
  | ⟨i :: rest, nodup⟩ => some (i, ⟨rest, (List.nodup_cons.mp nodup).2⟩)

omit [DecidableEq ι] in
theorem popFront_none {l : LinkedList ι} : l.popFront = none ↔ l.nodes = [] := by
  obtain ⟨nodes, nodup⟩ := l
  cases nodes <;> simp [popFront]

omit [DecidableEq ι] in
theorem popFront_some {l r : LinkedList ι} {i : ι} :
    l.popFront = some (i, r) ↔ l.nodes = i :: r.nodes := by
  obtain ⟨nodes, nodup⟩ := l
  cases nodes with
  | nil => simp [popFront]
  | cons j rest =>
    constructor
    · intro popped
      cases popped
      rfl
    · intro split
      cases split
      rfl

/-- `clear_and_dispose`: the walk moves past a node and resets its hook before the
    disposer sees it. `links` is the list inside the state the disposer works on. -/
def clearAndDispose (put : σ → LinkedList ι → σ) (links : σ → LinkedList ι) (dispose : ι → σ → σ)
    (s : σ) : σ :=
  walk (links s).nodes s
where
  walk : List ι → σ → σ
    | [], s => put s empty
    | i :: rest, s => walk rest (dispose i (put s ((links s).unlink i)))

variable {put : σ → LinkedList ι → σ} {links : σ → LinkedList ι} {dispose : ι → σ → σ}

/-- The rule for the walk. `I rest s` speaks of the nodes the walk has still to visit. -/
theorem clearAndDispose_rule (I : List ι → σ → Prop)
    (visit : ∀ i rest s, I (i :: rest) s → I rest (dispose i (put s ((links s).unlink i))))
    (finish : ∀ s, I [] s → I [] (put s empty)) {s : σ} (start : I (links s).nodes s) :
    I [] (clearAndDispose put links dispose s) := by
  suffices walked : ∀ nodes t, I nodes t → I [] (clearAndDispose.walk put links dispose nodes t) from
    walked _ s start
  intro nodes
  induction nodes with
  | nil => exact finish
  | cons i rest ih => exact fun t holds => ih _ (visit i rest t holds)

end LinkedList

end Intrusive
