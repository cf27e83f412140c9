/-
# Depth-first search with a stack

The nodes of a finite forest are visited with a stack: the node on top is taken off and visited,
and its successors are put on the stack, one after the other.  The stack grows meanwhile, but
what is under it weighs less with each turn.

* `search_eq`: the search visits the nodes in the order `order`;
* `mem_order`: these are the nodes that can be reached from the stack, and no others;
* `turns_length`: after as many turns as there are such nodes the stack is empty.
-/
import Mathlib.Algebra.BigOperators.Group.List.Basic
import Mathlib.Algebra.Ring.Nat
import Mathlib.Data.List.Basic
import Mathlib.Logic.Relation

/-- Nodes with successors, which together weigh less than the node. -/
structure Forest (N : Type*) where
  next : N → List N
  rank : N → ℕ
  shrinks : ∀ n, ((next n).map rank).sum < rank n

namespace Forest

variable {N β : Type*} (F : Forest N) (visit : β → N → β)

/-- What is under a stack. -/
def weight (stack : List N) : ℕ := (stack.map F.rank).sum

theorem weight_cons (n : N) (stack : List N) :
    F.weight (n :: stack) = F.rank n + F.weight stack := by
  rw [weight, List.map_cons, List.sum_cons, weight]

theorem weight_append (l stack : List N) :
    F.weight (l ++ stack) = F.weight l + F.weight stack := by
  rw [weight, List.map_append, List.sum_append, weight, weight]

/-- The successors of a node on the stack, the last one on top. -/
def push (n : N) (stack : List N) : List N := (F.next n).reverse ++ stack

/-- A turn lessens the weight. -/
theorem weight_push_lt (n : N) (stack : List N) :
    F.weight (F.push n stack) < F.weight (n :: stack) := by
  have hrev : F.weight (F.next n).reverse = ((F.next n).map F.rank).sum := by
    rw [weight, List.map_reverse, List.sum_reverse]
  have hlt := F.shrinks n
  rw [push, weight_append, weight_cons, hrev]
  omega

/-! ## The loop -/

/-- A turn of the loop; nothing is left to do when the stack is empty. -/
def turn : β × List N → Option (β × List N)
  | (_, []) => none
  | (b, n :: stack) => some (visit b n, F.push n stack)

/-- Some turns. -/
def turns : ℕ → β × List N → Option (β × List N)
  | 0, s => some s
  | k + 1, s => (F.turn visit s).bind (turns k)

/-- The loop. -/
def search (b : β) : List N → β
  | [] => b
  | n :: stack => search (visit b n) (F.push n stack)
termination_by stack => F.weight stack
decreasing_by exact F.weight_push_lt n stack

/-- The nodes in the order of the search. -/
def order : List N → List N
  | [] => []
  | n :: stack => n :: order (F.push n stack)
termination_by stack => F.weight stack
decreasing_by exact F.weight_push_lt n stack

/-- **The search visits the nodes in order.** -/
theorem search_eq (b : β) (stack : List N) :
    F.search visit b stack = (F.order stack).foldl visit b := by
  fun_induction search F visit b stack with
  | case1 b => rw [order, List.foldl_nil]
  | case2 b n stack ih => rw [ih, order.eq_def F (n :: stack), List.foldl_cons]

/-- **The loop ends**, after a turn for each node. -/
theorem turns_length (b : β) (stack : List N) :
    F.turns visit (F.order stack).length (b, stack) = some (F.search visit b stack, []) := by
  fun_induction search F visit b stack with
  | case1 b => rw [order, List.length_nil, turns]
  | case2 b n stack ih =>
    rw [order, List.length_cons, turns, turn, Option.bind_some, ih]

/-! ## The nodes -/

/-- One node is a successor of another one. -/
def Next (m n : N) : Prop := n ∈ F.next m

/-- **The search visits just the nodes that can be reached from the stack.** -/
theorem mem_order {n : N} {stack : List N} :
    n ∈ F.order stack ↔ ∃ m ∈ stack, Relation.ReflTransGen F.Next m n := by
  fun_induction order F stack with
  | case1 => simp
  | case2 m stack ih =>
    rw [List.mem_cons, ih, push]
    constructor
    · rintro (rfl | ⟨k, hk, hreach⟩)
      · exact ⟨n, List.mem_cons_self, .refl⟩
      · rcases List.mem_append.mp hk with hk | hk
        · exact ⟨m, List.mem_cons_self, .head (List.mem_reverse.mp hk) hreach⟩
        · exact ⟨k, List.mem_cons_of_mem m hk, hreach⟩
    · rintro ⟨k, hk, hreach⟩
      rcases List.mem_cons.mp hk with rfl | hk
      · rcases hreach.cases_head with rfl | ⟨j, hj, hreach⟩
        · exact .inl rfl
        · exact .inr ⟨j, List.mem_append_left _ (List.mem_reverse.mpr hj), hreach⟩
      · exact .inr ⟨k, List.mem_append_right _ hk, hreach⟩

end Forest
