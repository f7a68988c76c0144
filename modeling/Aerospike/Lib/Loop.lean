import Mathlib

/-! # Bounded while loops

A C `while` loop whose body may `break`: `runWhile cond body fuel s` tests the
condition, runs the body, and goes on from the state it returns unless the
body asks to stop. The fuel bounds the number of rounds. When every round that
goes on lowers a measure that the condition keeps positive, fuel beyond the
measure changes nothing, so the bounded loop is the C loop. An invariant that
every round keeps holds of the state the loop ends in.

A counted loop whose rounds may fail, `for (i = 0; i < m; i++) if (! step) fail;`,
is `repeatStep next m`: `m` rounds of a partial step. A step that follows a
sequence of states for `N` rounds takes the loop from the `k`-th state of the
sequence to the `(k + m)`-th.
-/

namespace Loop

variable {σ : Type} (cond : σ → Bool) (body : σ → σ × Bool)

/-- At most `fuel` rounds of `while (cond) { body }`; the body returns the next
state and `false` for a `break`. -/
def runWhile : ℕ → σ → σ
  | 0, s => s
  | fuel + 1, s =>
    if cond s then
      if (body s).2 then runWhile fuel (body s).1 else (body s).1
    else s

variable {cond body} {s : σ} {fuel : ℕ}

theorem runWhile_of_not (fuel : ℕ) (h : cond s = false) : runWhile cond body fuel s = s := by
  cases fuel <;> simp [runWhile, h]

theorem runWhile_succ_of_continue (h : cond s = true) (hc : (body s).2 = true) :
    runWhile cond body (fuel + 1) s = runWhile cond body fuel (body s).1 := by
  simp [runWhile, h, hc]

theorem runWhile_succ_of_break (h : cond s = true) (hc : (body s).2 = false) :
    runWhile cond body (fuel + 1) s = (body s).1 := by
  simp [runWhile, h, hc]

theorem runWhile_induction (P : σ → Prop) (hstep : ∀ s, P s → cond s = true → P (body s).1) :
    ∀ fuel s, P s → P (runWhile cond body fuel s)
  | 0, _, hs => hs
  | fuel + 1, s, hs => by
    cases hcond : cond s
    · rw [runWhile_of_not _ hcond]
      exact hs
    have hnext := hstep s hs hcond
    cases hc : (body s).2
    · rw [runWhile_succ_of_break hcond hc]
      exact hnext
    · rw [runWhile_succ_of_continue hcond hc]
      exact runWhile_induction P hstep fuel _ hnext

theorem runWhile_fuel_enough (μ : σ → ℕ) (hpos : ∀ s, cond s = true → 0 < μ s)
    (hdec : ∀ s, cond s = true → (body s).2 = true → μ (body s).1 < μ s) :
    ∀ fuel s, μ s ≤ fuel → ∀ k, runWhile cond body (fuel + k) s = runWhile cond body fuel s
  | 0, s, hμ, k => by
    have hcond : cond s = false := by
      cases h : cond s
      · rfl
      · exact absurd (hpos s h) (by omega)
    rw [runWhile_of_not _ hcond, runWhile_of_not _ hcond]
  | fuel + 1, s, hμ, k => by
    rw [Nat.add_right_comm]
    cases hcond : cond s
    · rw [runWhile_of_not _ hcond, runWhile_of_not _ hcond]
    cases hc : (body s).2
    · rw [runWhile_succ_of_break hcond hc, runWhile_succ_of_break hcond hc]
    · have hlt := hdec s hcond hc
      rw [runWhile_succ_of_continue hcond hc, runWhile_succ_of_continue hcond hc]
      exact runWhile_fuel_enough μ hpos hdec fuel _ (by omega) k

/-! ### Counted loops that may fail -/

section Counted

variable {σ : Type} (next : σ → Option σ)

/-- `m` rounds of a partial step from a state, `none` once a round fails. -/
def repeatStep (m : ℕ) (s : σ) : Option σ := (fun o => o.bind next)^[m] (some s)

/-- The step follows the sequence `seq` for `N` rounds. -/
def Follows (seq : ℕ → σ) (N : ℕ) : Prop := ∀ k < N, next (seq k) = some (seq (k + 1))

@[simp] theorem repeatStep_zero (s : σ) : repeatStep next 0 s = some s := rfl

theorem repeatStep_succ (m : ℕ) (s : σ) :
    repeatStep next (m + 1) s = (repeatStep next m s).bind next := by
  rw [repeatStep, repeatStep, Function.iterate_succ_apply']

theorem repeatStep_add (m n : ℕ) (s : σ) :
    repeatStep next (m + n) s = (repeatStep next m s).bind (repeatStep next n) := by
  induction n with
  | zero => cases repeatStep next m s <;> rfl
  | succ n ih =>
    rw [← Nat.add_assoc, repeatStep_succ, ih]
    cases repeatStep next m s with
    | none => rfl
    | some t => rw [Option.bind_some, Option.bind_some, repeatStep_succ]

theorem repeatStep_of_follows {seq : ℕ → σ} {N : ℕ} (h : Follows next seq N) :
    ∀ (m k : ℕ), k + m ≤ N → repeatStep next m (seq k) = some (seq (k + m))
  | 0, k, _ => rfl
  | m + 1, k, hkm => by
    rw [repeatStep_succ, repeatStep_of_follows h m k (by omega), Option.bind_some,
      h (k + m) (by omega), Nat.add_assoc]

end Counted

end Loop
