import Mathlib

/-! # Association lists with distinct keys

`List.lookup` on a list of pairs whose keys are distinct: the value of a key
after the value at a position is replaced, after the entry at a position is
erased, and in a list of blocks where only one block can hold the key; and
keys searched by position, in a list of keys zipped with their values.
-/

namespace KeyList

variable {K V : Type} [DecidableEq K] {k : K}

/-- A list of pairs with distinct keys whose lookup is the map `m`: the pairs
of `m` in some order, each once. -/
def Enumerates (m : K → Option V) (l : List (K × V)) : Prop :=
  (l.map Prod.fst).Nodup ∧ ∀ k, l.lookup k = m k

theorem lookup_cons_of_ne {a : K} {b : V} {l : List (K × V)} (h : k ≠ a) :
    ((a, b) :: l).lookup k = l.lookup k := by
  have : (k == a) = false := by simpa using h
  simp [List.lookup_cons, this]

theorem lookup_eq_none_of_not_mem {l : List (K × V)} (h : k ∉ l.map Prod.fst) : l.lookup k = none := by
  rw [List.lookup_eq_none_iff]
  intro p hp
  rw [bne_iff_ne]
  exact fun he => h (List.mem_map.mpr ⟨p, hp, he.symm⟩)

theorem lookup_eq_some_of_mem {l : List (K × V)} (hl : (l.map Prod.fst).Nodup) {v : V}
    (h : (k, v) ∈ l) : l.lookup k = some v := by
  induction l with
  | nil => simp at h
  | cons p l ih =>
    obtain ⟨a, b⟩ := p
    obtain ⟨hp, hl'⟩ := List.nodup_cons.mp hl
    rcases List.mem_cons.mp h with he | hmem
    · obtain ⟨rfl, rfl⟩ := Prod.mk.inj he
      simp
    · have hne : k ≠ a := fun he => hp (he ▸ List.mem_map.mpr ⟨_, hmem, rfl⟩)
      rw [lookup_cons_of_ne hne]
      exact ih hl' hmem

theorem Enumerates.apply_of_mem {m : K → Option V} {l : List (K × V)} (hl : Enumerates m l)
    {p : K × V} (hp : p ∈ l) : m p.1 = some p.2 :=
  (hl.2 p.1).symm.trans (lookup_eq_some_of_mem hl.1 hp)

theorem foldl_update_apply {α : Type} (f : K → α) (l : List (K × α)) (k : K) :
    (l.foldl (fun f q => Function.update f q.1 q.2) f) k = (l.reverse.lookup k).getD (f k) := by
  induction l generalizing f with
  | nil => rfl
  | cons q l ih =>
    rw [List.foldl_cons, ih, List.reverse_cons, List.lookup_append]
    cases l.reverse.lookup k with
    | some v => rfl
    | none =>
      obtain ⟨a, b⟩ := q
      by_cases hk : k = a
      · subst hk
        simp
      · simp [lookup_cons_of_ne hk, hk]

theorem lookup_map_pair {α : Type} (key : α → K) (val : α → V) (l : List α) :
    (l.map fun e => (key e, val e)).lookup k = (l.find? fun e => key e = k).map val := by
  induction l with
  | nil => rfl
  | cons e l ih =>
    by_cases hk : key e = k
    · subst hk
      simp
    · simp [lookup_cons_of_ne (Ne.symm hk), hk, ih]

theorem lookup_modify {l : List (K × V)} (hl : (l.map Prod.fst).Nodup) {i : ℕ} (hi : i < l.length)
    (v : V) : (l.modify i fun p => (p.1, v)).lookup k = if k = l[i].1 then some v else l.lookup k := by
  induction l generalizing i with
  | nil => simp at hi
  | cons p l ih =>
    obtain ⟨hp, hl'⟩ := List.nodup_cons.mp hl
    obtain ⟨a, b⟩ := p
    cases i with
    | zero =>
      by_cases hk : k = a
      · subst hk
        simp
      · simp [lookup_cons_of_ne hk, hk]
    | succ i =>
      have hi' : i < l.length := by simpa using hi
      have hne : a ≠ l[i].1 := fun he => hp (he ▸ List.mem_map.mpr ⟨_, List.getElem_mem hi', rfl⟩)
      by_cases hk : k = a
      · subst hk
        simp [hne]
      · simp [lookup_cons_of_ne hk, ih hl' hi']

theorem lookup_eraseIdx {l : List (K × V)} (hl : (l.map Prod.fst).Nodup) {i : ℕ} (hi : i < l.length) :
    (l.eraseIdx i).lookup k = if k = l[i].1 then none else l.lookup k := by
  induction l generalizing i with
  | nil => simp at hi
  | cons p l ih =>
    obtain ⟨hp, hl'⟩ := List.nodup_cons.mp hl
    obtain ⟨a, b⟩ := p
    cases i with
    | zero =>
      by_cases hk : k = a
      · subst hk
        simpa using lookup_eq_none_of_not_mem hp
      · simp [lookup_cons_of_ne hk, hk]
    | succ i =>
      have hi' : i < l.length := by simpa using hi
      have hne : a ≠ l[i].1 := fun he => hp (he ▸ List.mem_map.mpr ⟨_, List.getElem_mem hi', rfl⟩)
      by_cases hk : k = a
      · subst hk
        simp [hne]
      · simp [lookup_cons_of_ne hk, ih hl' hi']

theorem lookup_flatten {ls : List (List (K × V))} {i : ℕ} (hi : i < ls.length)
    (h : ∀ j (hj : j < ls.length), j ≠ i → k ∉ ls[j].map Prod.fst) :
    ls.flatten.lookup k = ls[i].lookup k := by
  induction ls generalizing i with
  | nil => simp at hi
  | cons l ls ih =>
    have hrest : ∀ j (hj : j < ls.length), j + 1 ≠ i → k ∉ ls[j].map Prod.fst :=
      fun j hj hne => by
        have := h (j + 1) (by simpa using hj) hne
        rwa [List.getElem_cons_succ] at this
    rw [List.flatten_cons, List.lookup_append]
    cases i with
    | zero =>
      have hnone : ls.flatten.lookup k = none := by
        apply lookup_eq_none_of_not_mem
        intro hk
        rw [List.map_flatten, List.mem_flatten] at hk
        obtain ⟨m, hm, hk⟩ := hk
        obtain ⟨blk, hblk, rfl⟩ := List.mem_map.mp hm
        obtain ⟨j, hj, rfl⟩ := List.getElem_of_mem hblk
        exact hrest j hj (by omega) hk
      simp [hnone]
    | succ i =>
      have hnone : l.lookup k = none := by
        have := h 0 (by simp) (by omega)
        rw [List.getElem_cons_zero] at this
        exact lookup_eq_none_of_not_mem this
      simpa [hnone] using ih (by simpa using hi) fun j hj hne => hrest j hj (by omega)

/-! ### Lists edited at a position -/

section Edit

variable {α β : Type}

theorem map_modify {f : α → α} {g : α → β} {u : β → β} (h : ∀ x, g (f x) = u (g x)) :
    ∀ (l : List α) (i : ℕ), (l.modify i f).map g = (l.map g).modify i u
  | [], _ => by simp
  | a :: l, 0 => by simp [h]
  | a :: l, i + 1 => by simp [map_modify h l i]

theorem takeWhile_modify {p : α → Bool} {f : α → α} (h : ∀ x, p (f x) = p x) :
    ∀ (l : List α) (i : ℕ), (l.modify i f).takeWhile p = (l.takeWhile p).modify i f
  | [], _ => by simp
  | a :: l, 0 => by
    by_cases ha : p a
    · simp [List.takeWhile_cons_of_pos ha, List.takeWhile_cons_of_pos ((h a).trans ha)]
    · have ha' : ¬p (f a) := by rw [h]; exact ha
      simp [List.takeWhile_cons_of_neg ha, List.takeWhile_cons_of_neg ha']
  | a :: l, i + 1 => by
    by_cases ha : p a
    · simp [List.takeWhile_cons_of_pos ha, takeWhile_modify h l i]
    · simp [List.takeWhile_cons_of_neg ha]

end Edit

/-! ### Keys searched by position -/

section Search

variable {α β : Type*}

theorem findIdx?_congr {p q : α → Bool} : ∀ {l : List α}, (∀ a ∈ l, p a = q a) →
    l.findIdx? p = l.findIdx? q
  | [], _ => rfl
  | a :: l, h => by
    rw [List.findIdx?_cons, List.findIdx?_cons, h a (List.mem_cons_self ..),
      findIdx?_congr fun b hb => h b (List.mem_cons_of_mem a hb)]

theorem find?_zip_eq [BEq α] [LawfulBEq α] (a : α) : ∀ (l : List α) (r : List β),
    (l.zip r).find? (fun e => e.1 == a) = (l.idxOf? a).bind fun j => r[j]?.map fun b => (a, b)
  | [], _ => rfl
  | _ :: _, [] => by
    simp
  | x :: l, y :: r => by
    rw [List.zip_cons_cons, List.find?_cons, List.idxOf?_cons]
    by_cases hx : x = a
    · subst hx
      simp
    · have hb : (x == a) = false := beq_false_of_ne hx
      simp only [hb, Bool.false_eq_true, if_false]
      rw [find?_zip_eq a l r, Option.bind_map]
      rfl

theorem nodup_filterMap {f : α → Option β} : ∀ {l : List α}, l.Nodup →
    (∀ a ∈ l, ∀ a' ∈ l, ∀ b, f a = some b → f a' = some b → a = a') → (l.filterMap f).Nodup
  | [], _, _ => List.nodup_nil
  | a :: l, hl, hf => by
    obtain ⟨ha, hl'⟩ := List.nodup_cons.mp hl
    have ih := nodup_filterMap hl' fun x hx y hy =>
      hf x (List.mem_cons_of_mem a hx) y (List.mem_cons_of_mem a hy)
    rw [List.filterMap_cons]
    cases hfa : f a with
    | none => exact ih
    | some b =>
      refine List.nodup_cons.mpr ⟨fun hb => ?_, ih⟩
      obtain ⟨x, hx, hfx⟩ := List.mem_filterMap.mp hb
      exact ha (hf x (List.mem_cons_of_mem a hx) a (List.mem_cons_self ..) b hfx hfa ▸ hx)

end Search

end KeyList
