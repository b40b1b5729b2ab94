import Mathlib

/-!
# Stacks linked through their nodes

A stack that keeps the next node in each node, as a list of free blocks does: a function
from nodes to nodes, a head, and null at the end. The nodes of a pool are on such a stack
or held by somebody; pushing and popping moves one node from one to the other.

## Implementation notes

A chain that reaches null cannot meet a node twice, so that the nodes of a stack are all
different is a theorem and not a part of the invariant.
-/

namespace Libdce.Foundation.LinkedStack

variable {α : Type*} {null : α} {next next' : α → α} {p x : α} {xs ys : List α}

/-- From a pointer on, the nodes of a list are linked, and the last one to null. -/
inductive Chain (null : α) (next : α → α) : α → List α → Prop
  | nil : Chain null next null []
  | cons {x : α} {xs : List α} (hx : x ≠ null) (tail : Chain null next (next x) xs) :
      Chain null next x (x :: xs)

namespace Chain

/-- The nodes are determined by the pointer. -/
theorem unique (h : Chain null next p xs) (h' : Chain null next p ys) : xs = ys := by
  induction h generalizing ys with
  | nil =>
      cases h' with
      | nil => rfl
      | cons hx _ => exact absurd rfl hx
  | cons hx _ ih =>
      cases h' with
      | nil => exact absurd rfl hx
      | cons _ tail' => rw [ih tail']

theorem eq_cons (h : Chain null next p xs) (hp : p ≠ null) :
    ∃ rest, xs = p :: rest ∧ Chain null next (next p) rest := by
  cases h with
  | nil => exact absurd rfl hp
  | cons _ tail => exact ⟨_, rfl, tail⟩

/-- From every node on, what follows is a chain. -/
theorem tail_of_mem (h : Chain null next p xs) (hx : x ∈ xs) :
    ∃ rest, (x :: rest) <:+ xs ∧ Chain null next x (x :: rest) := by
  induction h with
  | nil => exact absurd hx List.not_mem_nil
  | cons hy tail ih =>
      rcases List.mem_cons.mp hx with rfl | hmem
      · exact ⟨_, List.suffix_rfl, .cons hy tail⟩
      · obtain ⟨rest, hsuffix, hchain⟩ := ih hmem
        exact ⟨rest, hsuffix.trans (List.suffix_cons _ _), hchain⟩

/-- No node is met twice: the list would have to go on from it in two lengths. -/
theorem nodup (h : Chain null next p xs) : xs.Nodup := by
  induction h with
  | nil => exact List.nodup_nil
  | cons hx tail ih =>
      refine List.nodup_cons.mpr ⟨?_, ih⟩
      intro hmem
      obtain ⟨rest, hsuffix, hchain⟩ := tail.tail_of_mem hmem
      have hsame := hchain.unique (.cons hx tail)
      rw [hsame] at hsuffix
      have hlength := hsuffix.length_le
      rw [List.length_cons] at hlength
      omega

/-- Only the links of the nodes matter. -/
theorem congr (h : Chain null next p xs) (hnext : ∀ x ∈ xs, next' x = next x) :
    Chain null next' p xs := by
  induction h with
  | nil => exact .nil
  | cons hx _ ih =>
      obtain ⟨hhead, htail⟩ := List.forall_mem_cons.mp hnext
      exact .cons hx (hhead ▸ ih htail)

end Chain

section Pool

variable [DecidableEq α] {head : α} {pool held : Finset α}

/-- Every node of a pool is on the stack or held, and none is both. -/
structure Pool (null : α) (next : α → α) (head : α) (pool held : Finset α) (free : List α) : Prop where
  chain : Chain null next head free
  disjoint : Disjoint free.toFinset held
  union : free.toFinset ∪ held = pool

variable {free : List α}

namespace Pool

theorem empty : Pool null next null ∅ ∅ [] := ⟨.nil, by simp, by simp⟩

theorem held_subset (h : Pool null next head pool held free) : held ⊆ pool :=
  h.union ▸ Finset.subset_union_right

theorem head_not_held (h : Pool null next head pool held free) (hhead : head ≠ null) :
    head ∉ held := by
  obtain ⟨rest, rfl, -⟩ := h.chain.eq_cons hhead
  exact Finset.disjoint_left.mp h.disjoint (by simp)

/-- The top of the stack is taken off and held. -/
theorem pop (h : Pool null next head pool held free) (hhead : head ≠ null) :
    Pool null next (next head) pool (insert head held) free.tail := by
  obtain ⟨rest, rfl, htail⟩ := h.chain.eq_cons hhead
  have hnodup := (List.nodup_cons.mp h.chain.nodup).1
  refine ⟨htail, ?_, ?_⟩
  · rw [Finset.disjoint_insert_right]
    refine ⟨by simpa using hnodup, h.disjoint.mono_left ?_⟩
    simp
  · rw [← h.union]
    simp

/-- A node that is neither on the stack nor held can be pushed. -/
theorem push_new (h : Pool null next head pool held free) (hx : x ≠ null) (hnew : x ∉ pool)
    (hlink : next' x = head) (hkeep : ∀ y, y ≠ x → next' y = next y) :
    Pool null next' x (insert x pool) held (x :: free) := by
  have hfree : ∀ y ∈ free, y ≠ x := by
    rintro y hy rfl
    exact hnew (h.union ▸ Finset.mem_union_left _ (List.mem_toFinset.mpr hy))
  have hheld : x ∉ held := fun hmem => hnew (h.held_subset hmem)
  refine ⟨.cons hx ?_, ?_, ?_⟩
  · rw [hlink]
    exact h.chain.congr fun y hy => hkeep y (hfree y hy)
  · rw [List.toFinset_cons, Finset.disjoint_insert_left]
    exact ⟨hheld, h.disjoint⟩
  · rw [List.toFinset_cons, Finset.insert_union, h.union]

/-- A node that is held is pushed back. -/
theorem push (h : Pool null next head pool held free) (hx : x ≠ null) (hmem : x ∈ held)
    (hlink : next' x = head) (hkeep : ∀ y, y ≠ x → next' y = next y) :
    Pool null next' x pool (held.erase x) (x :: free) := by
  have hnot : x ∉ free.toFinset := fun hfree => Finset.disjoint_left.mp h.disjoint hfree hmem
  have hrest : Pool null next head (pool.erase x) (held.erase x) free := by
    refine ⟨h.chain, h.disjoint.mono_right (Finset.erase_subset _ _), ?_⟩
    rw [← h.union, Finset.erase_union_distrib, Finset.erase_eq_of_notMem hnot]
  have hpushed := hrest.push_new hx (Finset.notMem_erase x pool) hlink hkeep
  rwa [Finset.insert_erase (h.held_subset hmem)] at hpushed

/-- There are as many nodes on the stack and held as there are in the pool. -/
theorem card (h : Pool null next head pool held free) : free.length + held.card = pool.card := by
  rw [← h.union, Finset.card_union_of_disjoint h.disjoint, List.toFinset_card_of_nodup h.chain.nodup]

/-- The whole pool is on the stack exactly when nothing is held. -/
theorem forall_mem_free_iff (h : Pool null next head pool held free) :
    (∀ x ∈ pool, x ∈ free) ↔ held = ∅ := by
  constructor
  · intro hall
    rw [Finset.eq_empty_iff_forall_notMem]
    intro x hx
    have hfree := List.mem_toFinset.mpr (hall x (h.held_subset hx))
    exact Finset.disjoint_left.mp h.disjoint hfree hx
  · intro hheld x hx
    have hunion := h.union
    rw [hheld, Finset.union_empty] at hunion
    exact List.mem_toFinset.mp (hunion ▸ hx)

end Pool

/-- Walk down a stack; nothing is returned if it is not at its end when the fuel is. -/
def walk (null : α) (next : α → α) : ℕ → α → Option (List α)
  | 0, _ => none
  | fuel + 1, p => if p = null then some [] else (walk null next fuel (next p)).map (p :: ·)

theorem Chain.walk (h : Chain null next p xs) {fuel : ℕ} (hfuel : xs.length < fuel) :
    walk null next fuel p = some xs := by
  induction h generalizing fuel with
  | nil =>
      obtain ⟨fuel, rfl⟩ : ∃ k, fuel = k + 1 := ⟨fuel - 1, by omega⟩
      simp [LinkedStack.walk]
  | cons hx _ ih =>
      obtain ⟨fuel, rfl⟩ : ∃ k, fuel = k + 1 := ⟨fuel - 1, by omega⟩
      rw [LinkedStack.walk, if_neg hx, ih (by simpa using hfuel)]
      rfl

end Pool

end Libdce.Foundation.LinkedStack
