import Mathlib

/-! # Scanning a range of indices

The first index of a range `[start, stop)` at which a test holds, or `stop` when
there is none: what a scan of a bit mask for its next set bit computes. A scan
stops at a hit, every index before it misses, and the hits of the range are
the hit found and the hits after it.

A binary search over a sorted list looks for the end of the prefix on which a
downward-closed test holds; that prefix is as long as the count of the
elements that pass.
-/

namespace Scan

/-- The first index in `[start, stop)` at which `p` holds, or `stop`. -/
def findFrom (p : ℕ → Bool) (start stop : ℕ) : ℕ :=
  if start < stop then
    if p start then start else findFrom p (start + 1) stop
  else stop
termination_by stop - start

/-- The number of indices in `[start, stop)` at which `p` holds. -/
def countFrom (p : ℕ → Bool) (start stop : ℕ) : ℕ :=
  Nat.count (fun k => p (start + k) = true) (stop - start)

variable {p : ℕ → Bool} {start stop j : ℕ}

theorem findFrom_of_le (h : stop ≤ start) : findFrom p start stop = stop := by
  rw [findFrom, if_neg (by omega)]

theorem findFrom_of_hit (h : start < stop) (hp : p start = true) :
    findFrom p start stop = start := by
  rw [findFrom, if_pos h, if_pos hp]

theorem findFrom_of_miss (h : start < stop) (hp : p start = false) :
    findFrom p start stop = findFrom p (start + 1) stop := by
  rw [findFrom, if_pos h, if_neg (by simp [hp])]

theorem findFrom_induction {P : ℕ → ℕ → Prop}
    (stop_ : ∀ start, stop ≤ start → P start stop)
    (hit : ∀ start, start < stop → p start = true → P start start)
    (miss : ∀ start r, start < stop → p start = false → P (start + 1) r → P start r) :
    ∀ start, P start (findFrom p start stop) := by
  intro start
  induction h : stop - start generalizing start with
  | zero => rw [findFrom_of_le (by omega)]; exact stop_ start (by omega)
  | succ n ih =>
    cases hp : p start
    · rw [findFrom_of_miss (by omega) hp]
      exact miss start _ (by omega) hp (ih (start + 1) (by omega))
    · rw [findFrom_of_hit (by omega) hp]
      exact hit start (by omega) hp

theorem findFrom_le (h : start ≤ stop) : findFrom p start stop ≤ stop :=
  findFrom_induction (P := fun s r => s ≤ stop → r ≤ stop) (fun _ _ _ => le_rfl)
    (fun _ hs _ _ => hs.le) (fun _ _ _ _ ih _ => ih (by omega)) start h

theorem le_findFrom (h : start ≤ stop) : start ≤ findFrom p start stop :=
  findFrom_induction (P := fun s r => s ≤ stop → s ≤ r) (fun _ _ hs => hs)
    (fun _ _ _ _ => le_rfl) (fun _ _ _ _ ih _ => by have := ih (by omega); omega) start h

theorem findFrom_hit (h : findFrom p start stop < stop) : p (findFrom p start stop) = true :=
  findFrom_induction (P := fun _ r => r < stop → p r = true) (fun _ _ h => absurd h (lt_irrefl _))
    (fun _ _ hp _ => hp) (fun _ _ _ _ ih => ih) start h

theorem findFrom_miss (h1 : start ≤ j) (h2 : j < findFrom p start stop) : p j = false :=
  findFrom_induction (P := fun s r => s ≤ j → j < r → p j = false)
    (fun s hs h1 h2 => absurd h2 (by omega)) (fun _ _ _ h1 h2 => absurd h2 (by omega))
    (fun s _ _ hp ih h1 h2 => by
      rcases Nat.eq_or_lt_of_le h1 with rfl | hlt
      · exact hp
      · exact ih (by omega) h2) start h1 h2

theorem countFrom_of_le (h : stop ≤ start) : countFrom p start stop = 0 := by
  rw [countFrom, Nat.sub_eq_zero_of_le h, Nat.count_zero]

theorem countFrom_of_lt (h : start < stop) :
    countFrom p start stop = countFrom p (start + 1) stop + if p start then 1 else 0 := by
  have hn : stop - start = (stop - (start + 1)) + 1 := by omega
  rw [countFrom, hn, Nat.count_succ', Nat.add_zero, countFrom]
  congr 2
  funext k
  rw [Nat.add_assoc, Nat.add_comm 1 k]

theorem countFrom_le : countFrom p start stop ≤ stop - start := Nat.count_le _

theorem countFrom_findFrom (h : findFrom p start stop < stop) :
    countFrom p start stop = countFrom p (findFrom p start stop + 1) stop + 1 :=
  findFrom_induction
    (P := fun s r => r < stop → countFrom p s stop = countFrom p (r + 1) stop + 1)
    (fun _ _ h => absurd h (lt_irrefl _))
    (fun s hs hp _ => by rw [countFrom_of_lt hs, if_pos hp])
    (fun s _ hs hp ih h => by rw [countFrom_of_lt hs, if_neg (by simp [hp]), ih h, Nat.add_zero])
    start h

theorem countFrom_eq_zero_of_findFrom (h : start ≤ stop) (hf : findFrom p start stop = stop) :
    countFrom p start stop = 0 :=
  findFrom_induction (P := fun s r => s ≤ stop → r = stop → countFrom p s stop = 0)
    (fun _ hs _ _ => countFrom_of_le hs)
    (fun _ hs _ _ hr => absurd hr (by omega))
    (fun s _ hs hp ih _ hr => by rw [countFrom_of_lt hs, if_neg (by simp [hp]), ih (by omega) hr])
    start h hf

theorem countFrom_eq_countP {α : Type} {q : α → Bool} :
    ∀ (l : List α) (start : ℕ), (∀ k (hk : k < l.length), p (start + k) = q l[k]) →
      countFrom p start (start + l.length) = l.countP q
  | [], start, _ => by rw [List.length_nil, Nat.add_zero, countFrom_of_le le_rfl, List.countP_nil]
  | x :: xs, start, h => by
    have hx : p start = q x := h 0 (by simp)
    have hxs : ∀ k (hk : k < xs.length), p (start + 1 + k) = q xs[k] := fun k hk => by
      have := h (k + 1) (by simp; omega)
      rwa [Nat.add_assoc, Nat.add_comm 1 k]
    have hlen : start + (x :: xs).length = start + 1 + xs.length := by simp; omega
    rw [hlen, countFrom_of_lt (by omega), countFrom_eq_countP xs (start + 1) hxs, List.countP_cons, hx]

theorem findFrom_eq_of {r : ℕ} (hs : start ≤ r) (hr : r ≤ stop)
    (hmiss : ∀ j, start ≤ j → j < r → p j = false) (hhit : r < stop → p r = true) :
    findFrom p start stop = r := by
  rcases Nat.lt_trichotomy (findFrom p start stop) r with hlt | heq | hgt
  · have hhit' := findFrom_hit (p := p) (Nat.lt_of_lt_of_le hlt hr)
    rw [hmiss _ (le_findFrom (Nat.le_trans hs hr)) hlt] at hhit'
    exact absurd hhit' (by decide)
  · exact heq
  · have hr' : r < stop := Nat.lt_of_lt_of_le hgt (findFrom_le (Nat.le_trans hs hr))
    have := findFrom_miss (p := p) hs hgt
    rw [hhit hr'] at this
    exact absurd this (by decide)

/-! ### Counting over adjacent ranges -/

theorem countFrom_add {a b c : ℕ} (h1 : a ≤ b) (h2 : b ≤ c) :
    countFrom p a b + countFrom p b c = countFrom p a c := by
  have hc : c - a = (b - a) + (c - b) := by omega
  rw [countFrom, countFrom, countFrom, hc, Nat.count_add]
  congr 2
  funext k
  rw [show a + (b - a + k) = b + k by omega]

theorem countFrom_of_forall {a b : ℕ} (h : ∀ j, a ≤ j → j < b → p j = true) :
    countFrom p a b = b - a := by
  induction hn : b - a generalizing a with
  | zero => exact countFrom_of_le (by omega)
  | succ n ih =>
    rw [countFrom_of_lt (by omega), if_pos (h a le_rfl (by omega)),
      ih (fun j h1 h2 => h j (by omega) h2) (by omega)]

theorem countFrom_of_forall_not {a b : ℕ} (h : ∀ j, a ≤ j → j < b → p j = false) :
    countFrom p a b = 0 := by
  induction hn : b - a generalizing a with
  | zero => exact countFrom_of_le (by omega)
  | succ n ih =>
    rw [countFrom_of_lt (by omega), if_neg (by simp [h a le_rfl (by omega)]),
      ih (fun j h1 h2 => h j (by omega) h2) (by omega)]

theorem miss_of_countFrom_eq_zero (h : countFrom p start stop = 0) (h1 : start ≤ j)
    (h2 : j < stop) : p j = false := by
  have hsplit := countFrom_add (p := p) h1 h2.le
  rw [h, countFrom_of_lt h2] at hsplit
  cases hj : p j
  · rfl
  · rw [if_pos hj] at hsplit; omega

theorem findFrom_lt_of_countFrom_pos (h : 0 < countFrom p start stop) :
    findFrom p start stop < stop := by
  have hle : start ≤ stop := by
    by_contra hlt
    rw [countFrom_of_le (by omega)] at h
    omega
  rcases Nat.lt_or_ge (findFrom p start stop) stop with hlt | hge
  · exact hlt
  · have := countFrom_eq_zero_of_findFrom hle (le_antisymm (findFrom_le hle) hge)
    omega

section Sorted

variable {α : Type} {r : α → α → Prop} {q : α → Bool}

theorem getElem_iff_lt_countP (hq : ∀ a b, r a b → q b = true → q a = true) :
    ∀ {l : List α}, l.Pairwise r → ∀ {j : ℕ} (hj : j < l.length), q l[j] = true ↔ j < l.countP q
  | [], _, _, hj => absurd hj (Nat.not_lt_zero _)
  | x :: xs, hs, j, hj => by
    rw [List.pairwise_cons] at hs
    obtain ⟨hx, hs⟩ := hs
    cases hqx : q x
    · have hnone : ∀ y ∈ xs, q y = false := fun y hy => by
        cases hqy : q y
        · rfl
        · exact absurd (hq x y (hx y hy) hqy) (by rw [hqx]; decide)
      have hzero : xs.countP q = 0 := List.countP_eq_zero.mpr fun y hy => by simp [hnone y hy]
      rw [List.countP_cons, hqx, hzero]
      cases j with
      | zero => simp [hqx]
      | succ j => simp [hnone _ (List.getElem_mem _)]
    · rw [List.countP_cons, hqx]
      cases j with
      | zero => simp [hqx]
      | succ j =>
        have := getElem_iff_lt_countP hq hs (j := j) (by simp at hj; omega)
        simp only [List.getElem_cons_succ, this, if_true]
        omega

end Sorted

end Scan
