import Aerospike.Lib.BinTree

/-! # Red-black trees and their zippers

A red-black tree is a binary tree whose nodes carry a colour; an empty tree
counts as black. It is balanced when no red node has a red child and every path
from the root to an empty tree meets the same number of black nodes, its black
height. A `Path` is a tree with a hole, read from the hole up to the root, as
an insertion or deletion keeps it while it walks up from where it changed the
tree; `Path.fill` puts a subtree back into the hole.

The balance of a tree with a hole is `Path.Balanced`: filling the hole of a
path that is balanced for a colour and a height with a tree of that colour and
height gives a balanced tree. The states an insertion and a deletion pass
through between two rotations are balanced in this sense except at the hole:
`Path.InsBalanced` lets the hole's parent be red under a red tree, and
`RedRed` lets a tree's red root have red children.
-/

namespace RedBlack

inductive RBColor where
  | red
  | black
  deriving DecidableEq, Repr

theorem RBColor.eq_red_of_ne_black {c : RBColor} (h : c ≠ .black) : c = .red := by
  cases c
  · rfl
  · exact absurd rfl h

inductive RBNode (α : Type*) where
  | nil
  | node (c : RBColor) (l : RBNode α) (v : α) (r : RBNode α)
  deriving DecidableEq, Repr

variable {α β : Type*}

namespace RBNode

def color : RBNode α → RBColor
  | nil => .black
  | node c _ _ _ => c

/-- The tree with its root coloured `c`; an empty tree has no colour to set. -/
def setColor (c : RBColor) : RBNode α → RBNode α
  | nil => nil
  | node _ l v r => node c l v r

def toList : RBNode α → List α
  | nil => []
  | node _ l v r => l.toList ++ v :: r.toList

/-- The tree with `f` applied to every value, its shape and colours kept. -/
def map (f : α → β) : RBNode α → RBNode β
  | nil => nil
  | node c l v r => node c (l.map f) (f v) (r.map f)

def toBinaryTree : RBNode α → BinaryTree α
  | nil => .nil
  | node _ l v r => .node v l.toBinaryTree r.toBinaryTree

@[simp] theorem color_nil : (nil : RBNode α).color = .black := rfl

@[simp] theorem color_node (c : RBColor) (l : RBNode α) (v : α) (r : RBNode α) :
    (node c l v r).color = c := rfl

@[simp] theorem setColor_nil (c : RBColor) : (nil : RBNode α).setColor c = nil := rfl

@[simp] theorem setColor_node (c c' : RBColor) (l : RBNode α) (v : α) (r : RBNode α) :
    (node c' l v r).setColor c = node c l v r := rfl

@[simp] theorem toList_nil : (nil : RBNode α).toList = [] := rfl

@[simp] theorem toList_node (c : RBColor) (l : RBNode α) (v : α) (r : RBNode α) :
    (node c l v r).toList = l.toList ++ v :: r.toList := rfl

@[simp] theorem toList_setColor (c : RBColor) (t : RBNode α) : (t.setColor c).toList = t.toList := by
  cases t <;> rfl

@[simp] theorem toList_map (f : α → β) : ∀ t : RBNode α, (t.map f).toList = t.toList.map f
  | nil => rfl
  | node c l v r => by simp [map, toList_map f l, toList_map f r]

@[simp] theorem inorder_toBinaryTree : ∀ t : RBNode α, t.toBinaryTree.inorder = t.toList
  | nil => rfl
  | node c l v r => by
    simp [toBinaryTree, inorder_toBinaryTree l, inorder_toBinaryTree r]

/-! ### Balance -/

/-- `t` has root colour `c` and black height `n`, no red node of it has a red
child, and every path from its root to an empty tree meets `n` black nodes. -/
inductive Balanced : RBNode α → RBColor → ℕ → Prop
  | protected nil : Balanced nil .black 0
  | protected red {l r : RBNode α} {v : α} {n : ℕ} :
    Balanced l .black n → Balanced r .black n → Balanced (node .red l v r) .red n
  | protected black {l r : RBNode α} {v : α} {cl cr : RBColor} {n : ℕ} :
    Balanced l cl n → Balanced r cr n → Balanced (node .black l v r) .black (n + 1)

theorem Balanced.color_eq {t : RBNode α} {c : RBColor} {n : ℕ} (h : t.Balanced c n) : t.color = c := by
  cases h <;> rfl

theorem Balanced.of_color {t : RBNode α} {c c' : RBColor} {n : ℕ} (h : t.Balanced c n)
    (hc : t.color = c') : t.Balanced c' n := by
  rw [← hc, h.color_eq]
  exact h

theorem Balanced.eq_of_zero {t : RBNode α} {c : RBColor} (h : t.Balanced c 0) :
    t = nil ∨ ∃ v, t = node .red nil v nil := by
  cases h with
  | nil => exact .inl rfl
  | red hl hr =>
    cases hl
    cases hr
    exact .inr ⟨_, rfl⟩

theorem Balanced.exists_node {t : RBNode α} {n : ℕ} (h : t.Balanced .black (n + 1)) :
    ∃ l v r cl cr, t = node .black l v r ∧ l.Balanced cl n ∧ r.Balanced cr n := by
  cases h with
  | black hl hr => exact ⟨_, _, _, _, _, rfl, hl, hr⟩

theorem Balanced.exists_red {t : RBNode α} {c : RBColor} {n : ℕ} (h : t.Balanced c n)
    (hc : t.color = .red) :
    ∃ l v r, t = node .red l v r ∧ l.Balanced .black n ∧ r.Balanced .black n := by
  cases h with
  | nil => cases hc
  | red hl hr => exact ⟨_, _, _, rfl, hl, hr⟩
  | black => cases hc

theorem Balanced.black_of_ne_red {t : RBNode α} {c : RBColor} {n : ℕ} (h : t.Balanced c n)
    (hc : t.color ≠ .red) : t.Balanced .black n := by
  cases h with
  | nil => exact .nil
  | red => exact absurd rfl hc
  | black hl hr => exact .black hl hr

theorem Balanced.setBlack {t : RBNode α} {c : RBColor} {n : ℕ} (h : t.Balanced c n) :
    ∃ n', (t.setColor .black).Balanced .black n' := by
  cases h with
  | nil => exact ⟨0, .nil⟩
  | red hl hr => exact ⟨_, .black hl hr⟩
  | black hl hr => exact ⟨_, .black hl hr⟩

theorem Balanced.map (f : α → β) {t : RBNode α} {c : RBColor} {n : ℕ} (h : t.Balanced c n) :
    (t.map f).Balanced c n := by
  induction h with
  | nil => exact .nil
  | red _ _ ihl ihr => exact .red ihl ihr
  | black _ _ ihl ihr => exact .black ihl ihr

theorem Balanced.two_pow_le {t : RBNode α} {c : RBColor} {n : ℕ} (h : t.Balanced c n) :
    2 ^ n ≤ t.toList.length + 1 := by
  induction h with
  | nil => simp
  | red _ _ ihl ihr =>
    simp only [toList_node, List.length_append, List.length_cons]
    omega
  | black _ _ ihl ihr =>
    simp only [toList_node, List.length_append, List.length_cons, pow_succ]
    omega

/-- `t` is balanced of black height `n`, or a red node whose children are, of
any colours. -/
inductive RedRed : RBNode α → ℕ → Prop
  | balanced {t : RBNode α} {c : RBColor} {n : ℕ} : Balanced t c n → RedRed t n
  | redred {l r : RBNode α} {v : α} {cl cr : RBColor} {n : ℕ} :
    Balanced l cl n → Balanced r cr n → RedRed (node .red l v r) n

theorem RedRed.of_black {t : RBNode α} {n : ℕ} (h : t.RedRed n) (hc : t.color = .black) :
    t.Balanced .black n := by
  cases h with
  | balanced h =>
    rw [← h.color_eq, hc] at *
    exact hc ▸ h
  | redred => cases hc

theorem RedRed.setBlack_of_red {t : RBNode α} {n : ℕ} (h : t.RedRed n) (hc : t.color = .red) :
    (t.setColor .black).Balanced .black (n + 1) := by
  cases h with
  | balanced h =>
    cases h with
    | nil => cases hc
    | red hl hr => exact .black hl hr
    | black => cases hc
  | redred hl hr => exact .black hl hr

/-! ### Paths -/

/-- A tree with a hole, from the hole up: `left c p v r` is a hole that is the
left child of a node of colour `c`, value `v` and right child `r`, which sits
at `p`; `right` is the mirror image. -/
inductive Path (α : Type*) where
  | root
  | left (c : RBColor) (parent : Path α) (v : α) (r : RBNode α)
  | right (c : RBColor) (l : RBNode α) (v : α) (parent : Path α)
  deriving Repr

namespace Path

/-- The tree with `t` in the hole. -/
def fill : Path α → RBNode α → RBNode α
  | root, t => t
  | left c p v r, t => p.fill (node c t v r)
  | right c l v p, t => p.fill (node c l v t)

def color : Path α → RBColor
  | root => .black
  | left c _ _ _ => c
  | right c _ _ _ => c

def depth : Path α → ℕ
  | root => 0
  | left _ p _ _ => p.depth + 1
  | right _ _ _ p => p.depth + 1

def pre : Path α → List α
  | root => []
  | left _ p _ _ => p.pre
  | right _ l v p => p.pre ++ l.toList ++ [v]

def post : Path α → List α
  | root => []
  | left _ p v r => v :: r.toList ++ p.post
  | right _ _ _ p => p.post

@[simp] theorem fill_root (t : RBNode α) : (root : Path α).fill t = t := rfl

@[simp] theorem fill_left (c : RBColor) (p : Path α) (v : α) (r t : RBNode α) :
    (left c p v r).fill t = p.fill (node c t v r) := rfl

@[simp] theorem fill_right (c : RBColor) (l : RBNode α) (v : α) (p : Path α) (t : RBNode α) :
    (right c l v p).fill t = p.fill (node c l v t) := rfl

@[simp] theorem color_root : (root : Path α).color = .black := rfl

@[simp] theorem depth_root : (root : Path α).depth = 0 := rfl

@[simp] theorem depth_left (c : RBColor) (p : Path α) (v : α) (r : RBNode α) :
    (left c p v r).depth = p.depth + 1 := rfl

@[simp] theorem depth_right (c : RBColor) (l : RBNode α) (v : α) (p : Path α) :
    (right c l v p).depth = p.depth + 1 := rfl

@[simp] theorem pre_left (c : RBColor) (p : Path α) (v : α) (r : RBNode α) :
    (left c p v r).pre = p.pre := rfl

@[simp] theorem pre_right (c : RBColor) (l : RBNode α) (v : α) (p : Path α) :
    (right c l v p).pre = p.pre ++ l.toList ++ [v] := rfl

@[simp] theorem post_left (c : RBColor) (p : Path α) (v : α) (r : RBNode α) :
    (left c p v r).post = v :: r.toList ++ p.post := rfl

@[simp] theorem post_right (c : RBColor) (l : RBNode α) (v : α) (p : Path α) :
    (right c l v p).post = p.post := rfl

theorem toList_fill : ∀ (p : Path α) (t : RBNode α), (p.fill t).toList = p.pre ++ t.toList ++ p.post
  | root, t => by simp [pre, post]
  | left c p v r, t => by simp [toList_fill p]
  | right c l v p, t => by simp [toList_fill p]

theorem toList_fill_congr (p : Path α) {t t' : RBNode α} (h : t.toList = t'.toList) :
    (p.fill t).toList = (p.fill t').toList := by
  rw [toList_fill, toList_fill, h]

/-! ### Balance with a hole -/

variable (c₀ : RBColor) (n₀ : ℕ) in
/-- `p.Balanced c₀ n₀ c n`: filling the hole of `p` with a balanced tree of
root colour `c` and black height `n` gives a balanced tree of root colour `c₀`
and black height `n₀`. -/
inductive Balanced : Path α → RBColor → ℕ → Prop
  | protected root : Balanced root c₀ n₀
  | redL {p : Path α} {v : α} {r : RBNode α} {n : ℕ} :
    r.Balanced .black n → Balanced p .red n → Balanced (left .red p v r) .black n
  | redR {p : Path α} {v : α} {l : RBNode α} {n : ℕ} :
    l.Balanced .black n → Balanced p .red n → Balanced (right .red l v p) .black n
  | blackL {p : Path α} {v : α} {r : RBNode α} {c cr : RBColor} {n : ℕ} :
    r.Balanced cr n → Balanced p .black (n + 1) → Balanced (left .black p v r) c n
  | blackR {p : Path α} {v : α} {l : RBNode α} {c cl : RBColor} {n : ℕ} :
    l.Balanced cl n → Balanced p .black (n + 1) → Balanced (right .black l v p) c n

variable {c₀ : RBColor} {n₀ : ℕ}

theorem Balanced.fill {p : Path α} {t : RBNode α} {c : RBColor} {n : ℕ}
    (hp : p.Balanced c₀ n₀ c n) (ht : t.Balanced c n) : (p.fill t).Balanced c₀ n₀ := by
  induction hp generalizing t with
  | root => exact ht
  | redL hr _ ih => exact ih (.red ht hr)
  | redR hl _ ih => exact ih (.red hl ht)
  | blackL hr _ ih => exact ih (.black ht hr)
  | blackR hl _ ih => exact ih (.black hl ht)

theorem Balanced.toBlack {p : Path α} {c : RBColor} {n : ℕ} (hp : p.Balanced .black n₀ c n) :
    p.Balanced .black n₀ .black n := by
  cases hp with
  | root => exact .root
  | redL hr hp => exact .redL hr hp
  | redR hl hp => exact .redR hl hp
  | blackL hr hp => exact .blackL hr hp
  | blackR hl hp => exact .blackR hl hp

theorem Balanced.recolor {p : Path α} {c c' : RBColor} {n : ℕ} (hp : p.Balanced c₀ n₀ c n)
    (hne : p ≠ root) (hcol : p.color = .black) : p.Balanced c₀ n₀ c' n := by
  cases hp with
  | root => exact absurd rfl hne
  | redL => cases hcol
  | redR => cases hcol
  | blackL hr hp => exact .blackL hr hp
  | blackR hl hp => exact .blackR hl hp

theorem Balanced.black_of_red {p : Path α} {c : RBColor} {n : ℕ} (hp : p.Balanced .black n₀ c n)
    (hcol : p.color = .red) : c = .black := by
  cases hp with
  | root => rfl
  | redL => rfl
  | redR => rfl
  | blackL => cases hcol
  | blackR => cases hcol

theorem Balanced.not_root_red {n : ℕ} (h : (root : Path α).Balanced .black n₀ .red n) : False := by
  cases h

theorem Balanced.left_of_red {p : Path α} {c : RBColor} {v : α} {y : RBNode α} {n : ℕ}
    (h : (left c p v y).Balanced c₀ n₀ .red n) :
    c = .black ∧ (∃ cy, y.Balanced cy n) ∧ p.Balanced c₀ n₀ .black (n + 1) := by
  cases h with
  | blackL hy hp => exact ⟨rfl, ⟨_, hy⟩, hp⟩

theorem Balanced.right_of_red {p : Path α} {c : RBColor} {v : α} {y : RBNode α} {n : ℕ}
    (h : (right c y v p).Balanced c₀ n₀ .red n) :
    c = .black ∧ (∃ cy, y.Balanced cy n) ∧ p.Balanced c₀ n₀ .black (n + 1) := by
  cases h with
  | blackR hy hp => exact ⟨rfl, ⟨_, hy⟩, hp⟩

/-- `p.InsBalanced n₀ n`: the hole of `p` takes a red tree of black height `n`,
except that the hole's parent may be red as well; at the root the hole takes
any red tree. These are the states of a red-black insertion below a black root
of black height `n₀`. -/
inductive InsBalanced (n₀ : ℕ) : Path α → ℕ → Prop
  | protected root {n : ℕ} : InsBalanced n₀ root n
  | ok {p : Path α} {n : ℕ} : p.Balanced .black n₀ .red n → InsBalanced n₀ p n
  | redL {p : Path α} {v : α} {r : RBNode α} {n : ℕ} :
    r.Balanced .black n → p.Balanced .black n₀ .red n → InsBalanced n₀ (left .red p v r) n
  | redR {p : Path α} {v : α} {l : RBNode α} {n : ℕ} :
    l.Balanced .black n → p.Balanced .black n₀ .red n → InsBalanced n₀ (right .red l v p) n

theorem InsBalanced.left_red {p : Path α} {v : α} {y : RBNode α} {n : ℕ}
    (h : (left .red p v y).InsBalanced n₀ n) : y.Balanced .black n ∧ p.Balanced .black n₀ .red n := by
  cases h with
  | ok h => cases h
  | redL hy hp => exact ⟨hy, hp⟩

theorem InsBalanced.right_red {p : Path α} {v : α} {y : RBNode α} {n : ℕ}
    (h : (right .red y v p).InsBalanced n₀ n) : y.Balanced .black n ∧ p.Balanced .black n₀ .red n := by
  cases h with
  | ok h => cases h
  | redR hy hp => exact ⟨hy, hp⟩

theorem Balanced.insBalanced {p : Path α} {n : ℕ} (hp : p.Balanced .black n₀ .black n) :
    p.InsBalanced n₀ n := by
  cases hp with
  | root => exact .root
  | redL hr hp => exact .redL hr hp
  | redR hl hp => exact .redR hl hp
  | blackL hr hp => exact .ok (.blackL hr hp)
  | blackR hl hp => exact .ok (.blackR hl hp)

theorem Balanced.of_fill : ∀ {p : Path α} {t : RBNode α}, (p.fill t).Balanced c₀ n₀ →
    ∃ c n, t.Balanced c n ∧ p.Balanced c₀ n₀ c n
  | root, _, h => ⟨_, _, h, .root⟩
  | left _ p _ _, _, h => by
    obtain ⟨c, n, hn, hp⟩ := Balanced.of_fill (p := p) h
    cases hn with
    | red hl hr => exact ⟨_, _, hl, .redL hr hp⟩
    | black hl hr => exact ⟨_, _, hl, .blackL hr hp⟩
  | right _ _ _ p, _, h => by
    obtain ⟨c, n, hn, hp⟩ := Balanced.of_fill (p := p) h
    cases hn with
    | red hl hr => exact ⟨_, _, hr, .redR hl hp⟩
    | black hl hr => exact ⟨_, _, hr, .blackR hl hp⟩

theorem Balanced.left_cases {p : Path α} {c c' : RBColor} {v : α} {y : RBNode α} {k : ℕ}
    (h : (left c p v y).Balanced c₀ n₀ c' k) :
    (c = .red ∧ y.Balanced .black k ∧ p.Balanced c₀ n₀ .red k) ∨
      (c = .black ∧ (∃ cy, y.Balanced cy k) ∧ p.Balanced c₀ n₀ .black (k + 1)) := by
  cases h with
  | redL hy hp => exact .inl ⟨rfl, hy, hp⟩
  | blackL hy hp => exact .inr ⟨rfl, ⟨_, hy⟩, hp⟩

theorem Balanced.right_cases {p : Path α} {c c' : RBColor} {v : α} {y : RBNode α} {k : ℕ}
    (h : (right c y v p).Balanced c₀ n₀ c' k) :
    (c = .red ∧ y.Balanced .black k ∧ p.Balanced c₀ n₀ .red k) ∨
      (c = .black ∧ (∃ cy, y.Balanced cy k) ∧ p.Balanced c₀ n₀ .black (k + 1)) := by
  cases h with
  | redR hy hp => exact .inl ⟨rfl, hy, hp⟩
  | blackR hy hp => exact .inr ⟨rfl, ⟨_, hy⟩, hp⟩

theorem Balanced.fill_left_parent {p : Path α} {c c' : RBColor} {v v' : α} {y l r : RBNode α}
    {k : ℕ} (h : (left c p v y).Balanced c₀ n₀ c' k) (hl : l.Balanced .black k)
    (hr : r.Balanced .black k) : (p.fill (node c l v' r)).Balanced c₀ n₀ := by
  rcases h.left_cases with ⟨rfl, -, hp⟩ | ⟨rfl, -, hp⟩
  · exact hp.fill (.red hl hr)
  · exact hp.fill (.black hl hr)

theorem Balanced.fill_right_parent {p : Path α} {c c' : RBColor} {v v' : α} {y l r : RBNode α}
    {k : ℕ} (h : (right c y v p).Balanced c₀ n₀ c' k) (hl : l.Balanced .black k)
    (hr : r.Balanced .black k) : (p.fill (node c l v' r)).Balanced c₀ n₀ := by
  rcases h.right_cases with ⟨rfl, -, hp⟩ | ⟨rfl, -, hp⟩
  · exact hp.fill (.red hl hr)
  · exact hp.fill (.black hl hr)

/-- `p.DelBalanced n₀ n`: the hole of `p` takes a tree of black height `n + 1`
but holds one of height `n`, or is the root. These are the states of a
red-black deletion below a black root of black height `n₀`. -/
inductive DelBalanced (n₀ : ℕ) : Path α → ℕ → Prop
  | protected root {n : ℕ} : DelBalanced n₀ root n
  | short {p : Path α} {c : RBColor} {n : ℕ} : p.Balanced .black n₀ c (n + 1) → DelBalanced n₀ p n

/-- A deletion state one layer up: below a left child whose hole takes height
`k + 1` but holds height `k`, the parent over that child and a red sibling of
height `k` is short by one black node where the parent sits. -/
theorem Balanced.delUp_left {p : Path α} {c c' : RBColor} {v : α} {y x s : RBNode α} {k : ℕ}
    (h : (left c p v y).Balanced .black n₀ c' (k + 1)) (hx : x.Balanced .black k)
    (hs : s.Balanced .red k) : ∃ m, (node c x v s).RedRed m ∧ p.DelBalanced n₀ m := by
  rcases h.left_cases with ⟨rfl, -, hp⟩ | ⟨rfl, -, hp⟩
  · exact ⟨k, .redred hx hs, .short hp⟩
  · exact ⟨k + 1, .balanced (.black hx hs), .short hp⟩

theorem Balanced.delUp_right {p : Path α} {c c' : RBColor} {v : α} {y x s : RBNode α} {k : ℕ}
    (h : (right c y v p).Balanced .black n₀ c' (k + 1)) (hx : x.Balanced .black k)
    (hs : s.Balanced .red k) : ∃ m, (node c s v x).RedRed m ∧ p.DelBalanced n₀ m := by
  rcases h.right_cases with ⟨rfl, -, hp⟩ | ⟨rfl, -, hp⟩
  · exact ⟨k, .redred hs hx, .short hp⟩
  · exact ⟨k + 1, .balanced (.black hs hx), .short hp⟩

theorem DelBalanced.short_of_ne_root {p : Path α} {n : ℕ} (hp : p.DelBalanced n₀ n)
    (hne : p ≠ root) : ∃ c, p.Balanced .black n₀ c (n + 1) := by
  cases hp with
  | root => exact absurd rfl hne
  | short hp => exact ⟨_, hp⟩

theorem Balanced.depth_le {p : Path α} {c : RBColor} {n : ℕ} (hp : p.Balanced .black n₀ c n) :
    p.depth + (if c = .red then 1 else 0) ≤ 2 * (n₀ - n) ∧ n ≤ n₀ := by
  induction hp with
  | root => simp
  | redL _ _ ih =>
    simp only [depth_left, reduceCtorEq, if_false, if_true] at ih ⊢
    omega
  | redR _ _ ih =>
    simp only [depth_right, reduceCtorEq, if_false, if_true] at ih ⊢
    omega
  | blackL _ _ ih =>
    simp only [depth_left, reduceCtorEq, if_false] at ih ⊢
    split_ifs <;> omega
  | blackR _ _ ih =>
    simp only [depth_right, reduceCtorEq, if_false] at ih ⊢
    split_ifs <;> omega

end Path

end RBNode

end RedBlack
