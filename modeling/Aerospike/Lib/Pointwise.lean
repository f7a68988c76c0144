import Mathlib

/-! # Failing updates of a map, one index at a time

A step on a map `ι → σ` that may fail is pointwise when it acts on each index
by a step of its own on the value there, and fails as soon as one of those
does: a batch of independent updates. Loops of pointwise steps are pointwise,
so a loop that writes a map through its indices (a row per key, a counter per
slot) can be read one index at a time. At one index, a loop of updates over
distinct keys is the one update with that key.
-/

/-- `G` acts on index `i` by `g i`: it succeeds exactly when every `g i` does
on the value at `i`, with their results. -/
def Pointwise {ι σ : Type*} (G : (ι → σ) → Option (ι → σ)) (g : ι → σ → Option σ) : Prop :=
  ∀ m m', G m = some m' ↔ ∀ i, g i (m i) = some (m' i)

namespace Pointwise

variable {ι σ α : Type*} {G H : (ι → σ) → Option (ι → σ)} {g h : ι → σ → Option σ}

theorem eq_some (hG : Pointwise G g) {m : ι → σ} (hs : ∀ i, (g i (m i)).isSome) :
    G m = some fun i => (g i (m i)).get (hs i) :=
  (hG _ _).mpr fun i => by simp

theorem pure : Pointwise (some : (ι → σ) → Option (ι → σ)) fun _ => some := by
  intro m m'
  simp [funext_iff]

theorem fail [Nonempty ι] : Pointwise (fun _ : ι → σ => none) fun _ _ => none := by
  intro m m'
  simp

theorem bind (hG : Pointwise G g) (hH : Pointwise H h) :
    Pointwise (fun m => (G m).bind H) fun i s => (g i s).bind (h i) := by
  intro m m'
  dsimp only
  constructor
  · intro hm i
    obtain ⟨m₁, h₁, h₂⟩ := Option.bind_eq_some_iff.mp hm
    rw [(hG m m₁).mp h₁ i, Option.bind_some]
    exact (hH m₁ m').mp h₂ i
  · intro hm
    have hs : ∀ i, (g i (m i)).isSome := fun i => by
      cases hgi : g i (m i) with
      | none => simpa [hgi] using hm i
      | some _ => rfl
    rw [hG.eq_some hs, Option.bind_some]
    refine (hH _ _).mpr fun i => ?_
    have hi := hm i
    rwa [Option.eq_some_of_isSome (hs i), Option.bind_some] at hi

theorem foldlM {G : α → (ι → σ) → Option (ι → σ)} {g : α → ι → σ → Option σ}
    (hG : ∀ a, Pointwise (G a) (g a)) (l : List α) :
    Pointwise (fun m => l.foldlM (fun m a => G a m) m) fun i s => l.foldlM (fun s a => g a i s) s := by
  induction l with
  | nil => simpa using pure
  | cons a l ih => simpa only [List.foldlM_cons, Option.bind_eq_bind] using (hG a).bind ih

theorem update [DecidableEq ι] (j : ι) (f : σ → Option σ) :
    Pointwise (fun m => (f (m j)).map (Function.update m j)) fun i => if i = j then f else some := by
  intro m m'
  dsimp only
  constructor
  · intro hm i
    obtain ⟨s, hs, rfl⟩ := Option.map_eq_some_iff.mp hm
    by_cases hij : i = j
    · subst hij
      simp [hs]
    · simp [hij]
  · intro hm
    have hj : f (m j) = some (m' j) := by simpa using hm j
    have hm' : Function.update m j (m' j) = m' := by
      funext i
      by_cases hij : i = j
      · subst hij
        simp
      · simpa [hij] using hm i
    rw [hj, Option.map_some, hm']

theorem foldlM_congr {β : Type*} {f f' : β → α → Option β} :
    ∀ {l : List α} (b : β), (∀ a ∈ l, ∀ b, f b a = f' b a) → l.foldlM f b = l.foldlM f' b
  | [], _, _ => rfl
  | a :: l, b, h => by
    simp only [List.foldlM_cons, h a (List.mem_cons_self ..)]
    congr 1
    funext b'
    exact foldlM_congr b' fun a' ha' => h a' (List.mem_cons_of_mem a ha')

section Keys

variable [DecidableEq ι] (i : ι)

theorem foldlM_ite_of_not_mem (s : σ) :
    ∀ {l : List (ι × (σ → Option σ))}, i ∉ l.map Prod.fst →
      l.foldlM (fun s p => if i = p.1 then p.2 s else some s) s = some s
  | [], _ => rfl
  | p :: l, h => by
    have hne : i ≠ p.1 := fun he => h (he ▸ List.mem_cons_self ..)
    rw [List.foldlM_cons, if_neg hne, Option.bind_eq_bind, Option.bind_some]
    exact foldlM_ite_of_not_mem s fun hl => h (List.mem_cons_of_mem _ hl)

theorem foldlM_ite_eq : ∀ {l : List (ι × (σ → Option σ))}, (l.map Prod.fst).Nodup → ∀ s : σ,
    l.foldlM (fun s p => if i = p.1 then p.2 s else some s) s = (l.lookup i).getD some s
  | [], _, _ => rfl
  | (j, f) :: l, hl, s => by
    obtain ⟨hj, hl'⟩ := List.nodup_cons.mp hl
    rw [List.foldlM_cons, Option.bind_eq_bind]
    by_cases hij : i = j
    · subst hij
      rw [if_pos rfl, List.lookup_cons_self]
      cases hf : f s with
      | none => simp [hf]
      | some t => simpa [hf] using foldlM_ite_of_not_mem i t hj
    · rw [if_neg hij, Option.bind_some, foldlM_ite_eq hl' s]
      have hb : (i == j) = false := beq_false_of_ne hij
      simp [List.lookup_cons, hb]

end Keys

end Pointwise
