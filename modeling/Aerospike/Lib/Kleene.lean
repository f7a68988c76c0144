import Mathlib

/-! # Kleene's strong three-valued logic

Truth values with a third one, `unknown`, for a test whose inputs are not all
available yet. A conjunction is false as soon as one side is false, and unknown
when no side is false but one is unknown; a disjunction is the dual. The
information order puts `unknown` below both truth values: evaluating with more
inputs known can only resolve an `unknown`. The connectives are monotone in
that order, so a truth value found with fewer inputs stays when more are known,
and they never produce `unknown` from known inputs.
-/

namespace Kleene

inductive Tri
  | false
  | true
  | unknown
  deriving DecidableEq, Repr

namespace Tri

def and : Tri → Tri → Tri
  | .false, _ => .false
  | _, .false => .false
  | .true, b => b
  | .unknown, _ => .unknown

def or : Tri → Tri → Tri
  | .true, _ => .true
  | _, .true => .true
  | .false, b => b
  | .unknown, _ => .unknown

def not : Tri → Tri
  | .false => .true
  | .true => .false
  | .unknown => .unknown

def all (l : List Tri) : Tri := l.foldr and .true

def any (l : List Tri) : Tri := l.foldr or .false

def ofBool : Bool → Tri
  | .false => .false
  | .true => .true

/-- The information order: `b` is `a`, or resolves an unknown `a`. -/
instance : PartialOrder Tri where
  le a b := a = .unknown ∨ a = b
  le_refl _ := .inr rfl
  le_trans a b c := by
    rintro (rfl | rfl) h
    · exact .inl rfl
    · exact h
  le_antisymm a b := by
    rintro (rfl | rfl) h
    · rcases h with h | h <;> exact h.symm
    · rfl

instance : DecidableRel (α := Tri) (· ≤ ·) :=
  fun a b => inferInstanceAs (Decidable (a = .unknown ∨ a = b))

variable {a b a' b' : Tri}

theorem le_iff : a ≤ b ↔ a = .unknown ∨ a = b := Iff.rfl

@[simp] theorem unknown_le (a : Tri) : unknown ≤ a := .inl rfl

theorem eq_of_le (h : a ≤ b) (ha : a ≠ .unknown) : a = b :=
  h.resolve_left ha

@[simp] theorem and_true (a : Tri) : and a .true = a := by cases a <;> rfl

@[simp] theorem true_and (a : Tri) : and .true a = a := by cases a <;> rfl

@[simp] theorem and_false (a : Tri) : and a .false = .false := by cases a <;> rfl

@[simp] theorem false_and (a : Tri) : and .false a = .false := rfl

@[simp] theorem or_false (a : Tri) : or a .false = a := by cases a <;> rfl

@[simp] theorem false_or (a : Tri) : or .false a = a := by cases a <;> rfl

@[simp] theorem or_true (a : Tri) : or a .true = .true := by cases a <;> rfl

@[simp] theorem true_or (a : Tri) : or .true a = .true := rfl

@[simp] theorem all_nil : all [] = .true := rfl

@[simp] theorem all_cons (t : Tri) (l : List Tri) : all (t :: l) = and t (all l) := rfl

@[simp] theorem any_nil : any [] = .false := rfl

@[simp] theorem any_cons (t : Tri) (l : List Tri) : any (t :: l) = or t (any l) := rfl

theorem unknown_and_of_ne_false (ha : a ≠ .false) : and .unknown (and a b) = and .unknown b := by
  cases a <;> cases b <;> simp_all [and]

theorem unknown_or_of_ne_true (ha : a ≠ .true) : or .unknown (or a b) = or .unknown b := by
  cases a <;> cases b <;> simp_all [or]

theorem and_mono (ha : a ≤ a') (hb : b ≤ b') : and a b ≤ and a' b' := by
  revert ha hb
  cases a <;> cases a' <;> cases b <;> cases b' <;> decide

theorem or_mono (ha : a ≤ a') (hb : b ≤ b') : or a b ≤ or a' b' := by
  revert ha hb
  cases a <;> cases a' <;> cases b <;> cases b' <;> decide

theorem not_mono (ha : a ≤ a') : not a ≤ not a' := by
  rcases ha with rfl | rfl
  · exact .inl rfl
  · exact le_rfl

theorem all_mono {l l' : List Tri} (h : List.Forall₂ (· ≤ ·) l l') : all l ≤ all l' := by
  induction h with
  | nil => exact le_rfl
  | cons hx _ ih => exact and_mono hx ih

theorem any_mono {l l' : List Tri} (h : List.Forall₂ (· ≤ ·) l l') : any l ≤ any l' := by
  induction h with
  | nil => exact le_rfl
  | cons hx _ ih => exact or_mono hx ih

theorem and_ne_unknown (ha : a ≠ .unknown) (hb : b ≠ .unknown) : and a b ≠ .unknown := by
  cases a <;> cases b <;> simp_all [and]

theorem or_ne_unknown (ha : a ≠ .unknown) (hb : b ≠ .unknown) : or a b ≠ .unknown := by
  cases a <;> cases b <;> simp_all [or]

theorem not_ne_unknown (ha : a ≠ .unknown) : not a ≠ .unknown := by
  cases a <;> simp_all [not]

theorem all_ne_unknown {l : List Tri} (h : ∀ t ∈ l, t ≠ .unknown) : all l ≠ .unknown := by
  induction l with
  | nil => simp
  | cons t l ih =>
    rw [all_cons]
    exact and_ne_unknown (h t (by simp)) (ih fun u hu => h u (by simp [hu]))

theorem any_ne_unknown {l : List Tri} (h : ∀ t ∈ l, t ≠ .unknown) : any l ≠ .unknown := by
  induction l with
  | nil => simp
  | cons t l ih =>
    rw [any_cons]
    exact or_ne_unknown (h t (by simp)) (ih fun u hu => h u (by simp [hu]))

end Tri

end Kleene
