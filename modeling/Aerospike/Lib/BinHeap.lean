import Mathlib

/-! # Binary heaps laid out in an array

An array `f : ℕ → α` read on `[0, n)` is a heap for a key into a total
preorder when the key at every position is at most the keys of its children
`2 * i + 1` and `2 * i + 2`. `siftDown` moves the value at a position down,
swapping it with its least child while that child's key is strictly below its
own. Sifting from `n / 2 - 1` down to `0` builds a heap, and taking the root
off `k` times, each time moving the last value to the root and sifting it in,
leaves the `k` least values at the end of the array, the least last.
-/

namespace BinHeap

variable {α β : Type*} [Preorder β] [DecidableLE β] (key : α → β)

/-! ### Swaps and rearrangements below a bound -/

/-- The array with the values at `i` and `j` exchanged, written as two stores. -/
def swapAt (f : ℕ → α) (i j : ℕ) : ℕ → α :=
  Function.update (Function.update f i (f j)) j (f i)

theorem swapAt_eq_comp (f : ℕ → α) (i j : ℕ) : swapAt f i j = f ∘ Equiv.swap i j := by
  funext x
  by_cases hj : x = j
  · subst hj
    simp [swapAt]
  · by_cases hi : x = i
    · subst hi
      simp [swapAt, hj]
    · simp [swapAt, hi, hj, Equiv.swap_apply_of_ne_of_ne]

/-- `g` rearranges the first `n` values of `f` and keeps the others. -/
def PermBelow (n : ℕ) (f g : ℕ → α) : Prop :=
  ∃ σ : Equiv.Perm ℕ, (∀ x, n ≤ x → σ x = x) ∧ g = f ∘ σ

variable {n m : ℕ} {f g h : ℕ → α}

theorem PermBelow.refl (n : ℕ) (f : ℕ → α) : PermBelow n f f :=
  ⟨Equiv.refl ℕ, fun _ _ => rfl, rfl⟩

theorem PermBelow.trans (hfg : PermBelow n f g) (hgh : PermBelow n g h) : PermBelow n f h := by
  obtain ⟨σ, hσ, rfl⟩ := hfg
  obtain ⟨τ, hτ, rfl⟩ := hgh
  refine ⟨τ.trans σ, fun x hx => ?_, rfl⟩
  rw [Equiv.trans_apply, hτ x hx, hσ x hx]

theorem PermBelow.mono (hnm : n ≤ m) (hfg : PermBelow n f g) : PermBelow m f g := by
  obtain ⟨σ, hσ, rfl⟩ := hfg
  exact ⟨σ, fun x hx => hσ x (le_trans hnm hx), rfl⟩

theorem permBelow_swapAt (f : ℕ → α) {i j : ℕ} (hi : i < n) (hj : j < n) :
    PermBelow n f (swapAt f i j) :=
  ⟨Equiv.swap i j, fun _ hx => Equiv.swap_apply_of_ne_of_ne (by omega) (by omega),
    swapAt_eq_comp f i j⟩

theorem PermBelow.apply_of_ge (hfg : PermBelow n f g) {x : ℕ} (hx : n ≤ x) : g x = f x := by
  obtain ⟨σ, hσ, rfl⟩ := hfg
  rw [Function.comp_apply, hσ x hx]

theorem perm_lt_of_lt {σ : Equiv.Perm ℕ} (hσ : ∀ x, n ≤ x → σ x = x) {y : ℕ} (hy : y < n) :
    σ y < n := by
  by_contra hge
  have hfix : σ (σ y) = σ y := hσ _ (not_lt.mp hge)
  have : σ y = y := σ.injective hfix
  omega

theorem PermBelow.perm_map_range (hfg : PermBelow n f g) :
    ((List.range n).map g).Perm ((List.range n).map f) := by
  obtain ⟨σ, hσ, rfl⟩ := hfg
  have hsub : (List.range n).map σ ⊆ List.range n := by
    intro x hx
    obtain ⟨y, hy, rfl⟩ := List.mem_map.mp hx
    exact List.mem_range.mpr (perm_lt_of_lt hσ (List.mem_range.mp hy))
  have hperm : ((List.range n).map σ).Perm (List.range n) :=
    (List.subperm_of_subset (List.nodup_range.map σ.injective) hsub).perm_of_length_le (by simp)
  rw [← List.map_map]
  exact hperm.map f

theorem map_range_eq_append_reverse {F : ℕ} (hF : F ≤ n) (f : ℕ → α) :
    (List.range n).map f = (List.range F).map f ++
      ((List.range (n - F)).map fun j => f (n - 1 - j)).reverse := by
  have hback : ((List.range (n - F)).map fun j => f (n - 1 - j)).reverse =
      (List.range (n - F)).map fun j => f (F + j) := by
    apply List.ext_getElem (by simp)
    intro j h1 h2
    simp only [List.getElem_reverse, List.getElem_map, List.getElem_range, List.length_map,
      List.length_range]
    congr 1
    simp only [List.length_map, List.length_range] at h2
    omega
  rw [hback]
  conv_lhs => rw [show n = F + (n - F) by omega, List.range_add, List.map_append, List.map_map]
  rfl

/-! ### The heap order -/

/-- `c` is a child of `p`. -/
def IsChild (c p : ℕ) : Prop := c = 2 * p + 1 ∨ c = 2 * p + 2

theorem IsChild.parent_eq {c p : ℕ} (h : IsChild c p) : (c - 1) / 2 = p := by
  unfold IsChild at h
  omega

theorem IsChild.lt {c p : ℕ} (h : IsChild c p) : p < c := by
  unfold IsChild at h
  omega

theorem isChild_parent {c : ℕ} (hc : 0 < c) : IsChild c ((c - 1) / 2) := by
  unfold IsChild
  omega

/-- The key at `j` is at most the keys of its children below `n`. -/
def HeapAt (f : ℕ → α) (n j : ℕ) : Prop := ∀ c, IsChild c j → c < n → key (f j) ≤ key (f c)

/-- Every position from `s` on keeps the heap order of `[0, n)`. -/
def HeapFrom (f : ℕ → α) (n s : ℕ) : Prop := ∀ j, s ≤ j → HeapAt key f n j

theorem heapFrom_half (f : ℕ → α) (n : ℕ) : HeapFrom key f n (n / 2) := by
  intro j hj c hc hcn
  unfold IsChild at hc
  omega

omit [DecidableLE β] in
theorem HeapFrom.root_le (hf : HeapFrom key f n 0) : ∀ x, x < n → key (f 0) ≤ key (f x) := by
  intro x
  induction x using Nat.strong_induction_on with
  | _ x ih =>
    intro hx
    rcases Nat.eq_zero_or_pos x with rfl | hpos
    · exact le_rfl
    · have hp : (x - 1) / 2 < x := by omega
      exact le_trans (ih _ hp (by omega)) (hf _ (Nat.zero_le _) x (isChild_parent hpos) hx)

/-! ### Sifting down -/

/-- The child of `i` that sifting moves up: the second when it is below `n` and
the first's key is not at most its own, the first otherwise. -/
def minChild (f : ℕ → α) (n i : ℕ) : ℕ :=
  if 2 * i + 2 < n ∧ ¬ key (f (2 * i + 1)) ≤ key (f (2 * i + 2)) then 2 * i + 2 else 2 * i + 1

theorem minChild_isChild (f : ℕ → α) (n i : ℕ) : IsChild (minChild key f n i) i := by
  unfold minChild IsChild
  split_ifs <;> omega

theorem minChild_lt {i : ℕ} (h : 2 * i + 1 < n) : minChild key f n i < n := by
  unfold minChild
  split_ifs with h2 <;> omega

/-- Sift the value at `i` down the heap on `[0, n)`: while it has a child below
`n` and its key is not at most the least child's, swap the two. -/
def siftDown (f : ℕ → α) (n i : ℕ) : ℕ → α :=
  if h : 2 * i + 1 < n ∧ ¬ key (f i) ≤ key (f (minChild key f n i)) then
    siftDown (swapAt f i (minChild key f n i)) n (minChild key f n i)
  else f
termination_by n - i
decreasing_by
  have := (minChild_isChild key f n i).lt
  have := minChild_lt key (f := f) h.1
  omega

theorem siftDown_of_lt {i : ℕ} (h1 : 2 * i + 1 < n)
    (h2 : ¬ key (f i) ≤ key (f (minChild key f n i))) :
    siftDown key f n i = siftDown key (swapAt f i (minChild key f n i)) n (minChild key f n i) := by
  rw [siftDown, dif_pos ⟨h1, h2⟩]

theorem siftDown_of_le {i : ℕ} (h : 2 * i + 1 < n → key (f i) ≤ key (f (minChild key f n i))) :
    siftDown key f n i = f := by
  rw [siftDown, dif_neg]
  rintro ⟨h1, h2⟩
  exact h2 (h h1)

theorem siftDown_perm (f : ℕ → α) (n i : ℕ) : PermBelow n f (siftDown key f n i) := by
  fun_induction siftDown key f n i with
  | case1 f i h ih =>
    exact (permBelow_swapAt f (by omega) (minChild_lt key h.1)).trans ih
  | case2 f i _ => exact PermBelow.refl n f

section Total

/-! The heap order needs the keys totally preordered: a value whose key is not
at most another's then has it above. -/

variable (total : ∀ a b : β, a ≤ b ∨ b ≤ a)
include total

theorem minChild_le {i c : ℕ} (hc : IsChild c i) (hcn : c < n) :
    key (f (minChild key f n i)) ≤ key (f c) := by
  unfold minChild
  unfold IsChild at hc
  split_ifs with h2
  · rcases hc with rfl | rfl
    · exact (total _ _).resolve_left h2.2
    · exact le_rfl
  · rcases hc with rfl | rfl
    · exact le_rfl
    · exact not_not.mp (fun h => h2 ⟨hcn, h⟩)

omit total in
/-- While the value at the hole `c` sifts down, the heap order of `[0, n)`
holds from `s` on except at `c`, and the hole's parent is at most the hole's
children. -/
structure SiftInv (f : ℕ → α) (n s c : ℕ) : Prop where
  le_hole : s ≤ c
  except : ∀ j, s ≤ j → j ≠ c → HeapAt key f n j
  grand : s < c → ∀ g, IsChild g c → g < n → key (f ((c - 1) / 2)) ≤ key (f g)

omit total [DecidableLE β] in
theorem siftInv_start {s : ℕ} (hf : HeapFrom key f n (s + 1)) : SiftInv key f n s s where
  le_hole := le_rfl
  except j hj hne := hf j (by omega)
  grand h := absurd h (Nat.lt_irrefl s)

theorem SiftInv.move {s c : ℕ} (hinv : SiftInv key f n s c) (h1 : 2 * c + 1 < n)
    (h2 : ¬ key (f c) ≤ key (f (minChild key f n c))) :
    SiftInv key (swapAt f c (minChild key f n c)) n s (minChild key f n c) := by
  set m := minChild key f n c with hm
  have hmc : IsChild m c := minChild_isChild key f n c
  have hcm : c < m := hmc.lt
  have hmn : m < n := minChild_lt key h1
  have hmin : ∀ x, IsChild x c → x < n → key (f m) ≤ key (f x) :=
    fun x hx hxn => minChild_le key total hx hxn
  have hup : key (f m) ≤ key (f c) := (total _ _).resolve_left h2
  have hsw : ∀ x, x ≠ c → x ≠ m → swapAt f c m x = f x := fun x hxc hxm => by
    simp [swapAt, hxc, hxm]
  have hswc : swapAt f c m c = f m := by simp [swapAt, hcm.ne]
  have hswm : swapAt f c m m = f c := by simp [swapAt]
  refine ⟨le_trans hinv.le_hole hcm.le, fun j hj hjm x hx hxn => ?_, fun _ x hx hxn => ?_⟩
  · by_cases hjc : j = c
    · subst hjc
      rw [hswc]
      by_cases hxm : x = m
      · rw [hxm, hswm]
        exact hup
      · rw [hsw x (hx.lt.ne') hxm]
        exact hmin x hx hxn
    · have hxm : x ≠ m := fun hxm => hjc (by rw [← hx.parent_eq, hxm, hmc.parent_eq])
      rw [hsw j hjc hjm]
      by_cases hxc : x = c
      · have hjp : (c - 1) / 2 = j := by rw [← hxc]; exact hx.parent_eq
        have hsc : s < c := hxc ▸ lt_of_le_of_lt hj hx.lt
        rw [hxc, hswc, ← hjp]
        exact hinv.grand hsc m hmc hmn
      · rw [hsw x hxc hxm]
        exact hinv.except j hj hjc x hx hxn
  · rw [hmc.parent_eq, hswc, hsw x (by have := hx.lt; omega) (hx.lt.ne')]
    exact hinv.except m (le_trans hinv.le_hole hcm.le) hcm.ne' x hx hxn

theorem SiftInv.finish {s c : ℕ} (hinv : SiftInv key f n s c)
    (hstop : 2 * c + 1 < n → key (f c) ≤ key (f (minChild key f n c))) : HeapFrom key f n s := by
  intro j hj
  by_cases hjc : j = c
  · subst hjc
    intro x hx hxn
    have h1 : 2 * j + 1 < n := by unfold IsChild at hx; omega
    exact le_trans (hstop h1) (minChild_le key total hx hxn)
  · exact hinv.except j hj hjc

theorem siftDown_heapFrom {s c : ℕ} (hinv : SiftInv key f n s c) :
    HeapFrom key (siftDown key f n c) n s := by
  fun_induction siftDown key f n c with
  | case1 f c h ih => exact ih (hinv.move key total h.1 h.2)
  | case2 f c h =>
    exact hinv.finish key total fun h1 => not_not.mp fun h2 => h ⟨h1, h2⟩

/-! ### Building -/

omit total in
/-- Sift down at `i - 1`, …, `0`: started at `n / 2`, the bottom-up build of a
heap on `[0, n)`. -/
def build : (ℕ → α) → ℕ → ℕ → (ℕ → α)
  | f, _, 0 => f
  | f, n, i + 1 => build (siftDown key f n i) n i

theorem build_heapFrom {i : ℕ} (hf : HeapFrom key f n i) : HeapFrom key (build key f n i) n 0 := by
  induction i generalizing f with
  | zero => exact hf
  | succ i ih => exact ih (siftDown_heapFrom key total (siftInv_start key hf))

omit total in
theorem build_perm (f : ℕ → α) (n i : ℕ) : PermBelow n f (build key f n i) := by
  induction i generalizing f with
  | zero => exact PermBelow.refl n f
  | succ i ih => exact (siftDown_perm key f n i).trans (ih _)

/-! ### Taking the root off -/

omit total in
/-- Take the root off the heap on `[0, m)`: the last value moves to the root
and sifts down in `[0, m - 1)`, and the old root goes to `m - 1`. -/
def popRoot (f : ℕ → α) (m : ℕ) : ℕ → α :=
  Function.update (siftDown key (Function.update f 0 (f (m - 1))) (m - 1) 0) (m - 1) (f 0)

omit total in
/-- Take the root off `k` times, from a heap on `[0, m)`. -/
def popToEnd : (ℕ → α) → ℕ → ℕ → (ℕ → α)
  | f, _, 0 => f
  | f, m, k + 1 => popToEnd (popRoot key f m) (m - 1) k

omit total in
/-- After roots are taken off a heap on `[0, n)` until `m` values remain:
`[0, m)` is a heap, the values from `m` on have decreasing keys, and none has a
key above a value still in the heap. -/
structure PopInv (f : ℕ → α) (m n : ℕ) : Prop where
  le : m ≤ n
  heap : HeapFrom key f m 0
  tail_sorted : ∀ i j, m ≤ i → i < j → j < n → key (f j) ≤ key (f i)
  tail_le : ∀ i j, i < m → m ≤ j → j < n → key (f j) ≤ key (f i)

omit total in
theorem popInv_start (hf : HeapFrom key f n 0) : PopInv key f n n where
  le := le_rfl
  heap := hf
  tail_sorted _ _ hi hij hj := by omega
  tail_le _ _ _ hj hjn := by omega

omit total in
theorem popRoot_apply_last (f : ℕ → α) (m : ℕ) : popRoot key f m (m - 1) = f 0 := by
  simp [popRoot]

omit total in
theorem popRoot_apply_of_ge {x : ℕ} (hm : 0 < m) (hx : m ≤ x) : popRoot key f m x = f x := by
  have hfix := (siftDown_perm key (Function.update f 0 (f (m - 1))) (m - 1) 0).apply_of_ge
    (show m - 1 ≤ x by omega)
  rw [popRoot, Function.update_of_ne (by omega), hfix, Function.update_of_ne (by omega)]

omit total in
theorem popRoot_apply_lt {x : ℕ} (hx : x < m - 1) : ∃ y, y < m ∧ popRoot key f m x = f y := by
  obtain ⟨σ, hσ, hg⟩ := siftDown_perm key (Function.update f 0 (f (m - 1))) (m - 1) 0
  have hσx : σ x < m - 1 := perm_lt_of_lt hσ hx
  rw [popRoot, Function.update_of_ne (by omega), hg, Function.comp_apply]
  by_cases h0 : σ x = 0
  · exact ⟨m - 1, by omega, by rw [h0, Function.update_self]⟩
  · exact ⟨σ x, by omega, Function.update_of_ne h0 _ _⟩

omit total in
theorem popRoot_perm (hm : 0 < m) (hmn : m ≤ n) : PermBelow n f (popRoot key f m) := by
  obtain ⟨σ, hσ, hg⟩ := siftDown_perm key (Function.update f 0 (f (m - 1))) (m - 1) 0
  refine ⟨σ.trans (Equiv.swap 0 (m - 1)), fun x hx => ?_, ?_⟩
  · rw [Equiv.trans_apply, hσ x (by omega), Equiv.swap_apply_of_ne_of_ne (by omega) (by omega)]
  · funext x
    rw [Function.comp_apply, Equiv.trans_apply]
    by_cases hx : x = m - 1
    · rw [hx, popRoot_apply_last, hσ _ le_rfl, Equiv.swap_apply_right]
    · have hσx : σ x ≠ m - 1 := fun h => hx (σ.injective (h.trans (hσ _ le_rfl).symm))
      rw [popRoot, Function.update_of_ne hx, hg, Function.comp_apply]
      by_cases h0 : σ x = 0
      · rw [h0, Function.update_self, Equiv.swap_apply_left]
      · rw [Function.update_of_ne h0, Equiv.swap_apply_of_ne_of_ne h0 hσx]

theorem PopInv.pop (hinv : PopInv key f m n) (hm : 0 < m) :
    PopInv key (popRoot key f m) (m - 1) n := by
  have hroot := hinv.heap.root_le key
  refine ⟨by have := hinv.le; omega, ?_, fun i j hi hij hj => ?_, fun i j hi hj hjn => ?_⟩
  · have hstart : HeapFrom key (Function.update f 0 (f (m - 1))) (m - 1) (0 + 1) := by
      intro j hj x hx hxn
      rw [Function.update_of_ne (by omega), Function.update_of_ne (by have := hx.lt; omega)]
      exact hinv.heap j (Nat.zero_le _) x hx (by omega)
    have hsift := siftDown_heapFrom key total (siftInv_start key hstart)
    intro j _ x hx hxn
    rw [popRoot, Function.update_of_ne (by have := hx.lt; omega), Function.update_of_ne (by omega)]
    exact hsift j (Nat.zero_le _) x hx hxn
  · rw [popRoot_apply_of_ge key hm (by omega)]
    rcases Nat.eq_or_lt_of_le hi with rfl | hi
    · rw [popRoot_apply_last]
      exact hinv.tail_le 0 j hm (by omega) hj
    · rw [popRoot_apply_of_ge key hm (by omega)]
      exact hinv.tail_sorted i j (by omega) hij hj
  · obtain ⟨y, hy, hfy⟩ := popRoot_apply_lt key (f := f) hi
    rw [hfy]
    rcases Nat.eq_or_lt_of_le hj with rfl | hj
    · rw [popRoot_apply_last]
      exact hroot y hy
    · rw [popRoot_apply_of_ge key hm (by omega)]
      exact hinv.tail_le y j hy (by omega) hjn

theorem popToEnd_spec {k : ℕ} (hinv : PopInv key f m n) (hk : k ≤ m) :
    PopInv key (popToEnd key f m k) (m - k) n ∧ PermBelow n f (popToEnd key f m k) := by
  induction k generalizing f m with
  | zero => exact ⟨hinv, PermBelow.refl n f⟩
  | succ k ih =>
    have hm : 0 < m := by omega
    obtain ⟨hinv', hperm⟩ := ih (hinv.pop key total hm) (by omega)
    refine ⟨?_, (popRoot_perm key hm hinv.le).trans hperm⟩
    rw [popToEnd, show m - (k + 1) = m - 1 - k by omega]
    exact hinv'

theorem PopInv.exists_sorted {F : ℕ} (hinv : PopInv key f F n) :
    ∃ R : List α, R.Perm ((List.range n).map f) ∧ R.Pairwise (fun a b => key a ≤ key b) ∧
      ∀ j, j < n - F → R[j]? = some (f (n - 1 - j)) := by
  set back := (List.range (n - F)).map fun j => f (n - 1 - j) with hback
  set rest := ((List.range F).map f).mergeSort fun a b => decide (key a ≤ key b) with hrest
  have hrest_perm : rest.Perm ((List.range F).map f) := List.mergeSort_perm _ _
  refine ⟨back ++ rest, ?_, ?_, fun j hj => ?_⟩
  · rw [map_range_eq_append_reverse hinv.le f, ← hback]
    exact List.perm_append_comm.trans
      ((hrest_perm.append_right back).trans ((List.reverse_perm back).symm.append_left _))
  · rw [List.pairwise_append]
    refine ⟨?_, ?_, ?_⟩
    · rw [List.pairwise_iff_getElem]
      intro a b ha hb hab
      simp only [hback, List.getElem_map, List.getElem_range, List.length_map, List.length_range]
        at ha hb ⊢
      exact hinv.tail_sorted _ _ (by omega) (by omega) (by omega)
    · have hsorted := @List.pairwise_mergeSort _ (fun a b => decide (key a ≤ key b))
        (fun a b c hab hbc => by simp only [decide_eq_true_eq] at *; exact le_trans hab hbc)
        (fun a b => by simpa only [Bool.or_eq_true, decide_eq_true_eq] using total (key a) (key b))
        ((List.range F).map f)
      exact hsorted.imp fun h => of_decide_eq_true h
    · intro a ha b hb
      obtain ⟨j, hj, rfl⟩ := List.mem_map.mp ha
      obtain ⟨i, hi, rfl⟩ := List.mem_map.mp (hrest_perm.mem_iff.mp hb)
      simp only [List.mem_range] at hi hj
      exact hinv.tail_le i _ hi (by omega) (by omega)
  · rw [List.getElem?_append_left (by simpa [hback] using hj)]
    simp [hback, hj]

end Total

end BinHeap
