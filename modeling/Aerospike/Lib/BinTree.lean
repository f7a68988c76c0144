import Mathlib

/-! # In-order traversal of binary search trees

The values of a binary tree read left subtree, node, right subtree. A search
tree for a relation `r` has every value of a left subtree `r`-before its node
and the node `r`-before every value of its right subtree; for a transitive `r`
its in-order list is then `r`-sorted.
-/

namespace BinaryTree

variable {α : Type*}

def inorder : BinaryTree α → List α
  | nil => []
  | node a l r => l.inorder ++ a :: r.inorder

@[simp] theorem inorder_nil : (nil : BinaryTree α).inorder = [] := rfl

@[simp] theorem inorder_node (a : α) (l r : BinaryTree α) :
    (node a l r).inorder = l.inorder ++ a :: r.inorder := rfl

@[simp] theorem length_inorder : ∀ t : BinaryTree α, t.inorder.length = t.numNodes
  | nil => rfl
  | node a l r => by
    rw [inorder_node, List.length_append, List.length_cons, length_inorder l, length_inorder r,
      numNodes]
    omega

/-- A search tree for `r`: the values of each left subtree are `r`-before their
node, which is `r`-before the values of its right subtree. -/
def SearchTree (r : α → α → Prop) : BinaryTree α → Prop
  | nil => True
  | node a lt rt =>
    (∀ x ∈ lt.inorder, r x a) ∧ (∀ y ∈ rt.inorder, r a y) ∧ SearchTree r lt ∧ SearchTree r rt

theorem SearchTree.pairwise_inorder {r : α → α → Prop} (htrans : ∀ a b c, r a b → r b c → r a c) :
    ∀ {t : BinaryTree α}, t.SearchTree r → t.inorder.Pairwise r
  | nil, _ => List.Pairwise.nil
  | node a lt rt, ⟨hl, hr, hlt, hrt⟩ => by
    rw [inorder_node, List.pairwise_append, List.pairwise_cons]
    refine ⟨pairwise_inorder htrans hlt, ⟨hr, pairwise_inorder htrans hrt⟩, ?_⟩
    intro x hx y hy
    rcases List.mem_cons.mp hy with rfl | hy
    · exact hl x hx
    · exact htrans x a y (hl x hx) (hr y hy)

end BinaryTree
