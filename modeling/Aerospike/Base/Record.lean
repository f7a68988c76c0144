import Mathlib

/-! # Conflict resolution between two versions of a record

`as_record_resolve_conflict` (`record.c`) compares a left and a right version of
a record by generation and last-update time: `-1` when the left one wins, `1`
when the right one does, `0` for a tie. The generation policy compares
generations directly and breaks ties by last-update time. The last-update-time
policy breaks ties by `as_gen_less_than`, a comparison of 16-bit generations
that allows wrap-around and holds both ways for generations `32768` apart.

`as_record_replace_if_better` applies a remote version when it wins against the
local one, under the last-update-time policy for a replica write. Two nodes
holding versions whose generations are `32768` apart, with equal last-update
times, each apply the other's.
-/

namespace Aerospike.Base

inductive ConflictResolutionPol
  | undef
  | generation
  | lastUpdateTime
deriving DecidableEq, Repr

/-- `as_gen_less_than`: generations compared allowing wrap-around. -/
def asGenLessThan (lhs rhs : UInt16) : Bool := lhs - rhs ≥ 32768

def resolveGenerationDirect (left right : UInt16) : ℤ :=
  if left = right then 0 else if right > left then 1 else -1

def resolveGeneration (left right : UInt16) : ℤ :=
  if left = right then 0 else if asGenLessThan left right then 1 else -1

def resolveLastUpdateTime (left right : UInt64) : ℤ :=
  if left = right then 0 else if right > left then 1 else -1

/-- `as_record_resolve_conflict`; `none` for the crash on an invalid policy. -/
def asRecordResolveConflict (policy : ConflictResolutionPol) (leftGen : UInt16) (leftLut : UInt64)
    (rightGen : UInt16) (rightLut : UInt64) : Option ℤ :=
  match policy with
  | .generation =>
    let result := resolveGenerationDirect leftGen rightGen
    some (if result = 0 then resolveLastUpdateTime leftLut rightLut else result)
  | .lastUpdateTime =>
    let result := resolveLastUpdateTime leftLut rightLut
    some (if result = 0 then resolveGeneration leftGen rightGen else result)
  | .undef => none

def asProtoResultFailGeneration : ℕ := 3

def asProtoResultFailRecordExists : ℕ := 5

/-- What `as_record_replace_if_better` does with a remote version of a record it
already holds. -/
inductive ReplaceVerdict
  | apply
  | fail (result : ℕ)
deriving DecidableEq, Repr

/-- The decision of `as_record_replace_if_better` for an existing record: a
replica write is resolved by last-update time; the remote version is applied
when it wins, else the write fails; `none` for the crash. -/
def replaceIfBetterVerdict (policy : ConflictResolutionPol) (isReplWrite : Bool)
    (localGen : UInt16) (localLut : UInt64) (remoteGen : UInt16) (remoteLut : UInt64) :
    Option ReplaceVerdict :=
  let policy := if isReplWrite then .lastUpdateTime else policy
  (asRecordResolveConflict policy localGen localLut remoteGen remoteLut).map fun result =>
    if result ≤ 0 then
      .fail (if result = 0 then asProtoResultFailRecordExists else asProtoResultFailGeneration)
    else .apply

/-! ### The comparisons -/

theorem asGenLessThan_eq (l r : UInt16) :
    asGenLessThan l r = decide (32768 ≤ (2 ^ 16 - r.toNat + l.toNat) % 2 ^ 16) := by
  rw [asGenLessThan, ← UInt16.toNat_sub]
  simp only [ge_iff_le, UInt16.le_iff_toNat_le]
  rfl

theorem asGenLessThan_swap {l r : UInt16} (hne : l ≠ r) (hhalf : l - r ≠ 32768) :
    asGenLessThan r l = !asGenLessThan l r := by
  have hne' : l.toNat ≠ r.toNat := fun h => hne (UInt16.toNat_inj.mp h)
  have hhalf' : (2 ^ 16 - r.toNat + l.toNat) % 2 ^ 16 ≠ 32768 := by
    rw [← UInt16.toNat_sub]
    exact fun h => hhalf (UInt16.toNat_inj.mp h)
  have hl := UInt16.toNat_lt l
  have hr := UInt16.toNat_lt r
  rw [asGenLessThan_eq, asGenLessThan_eq]
  by_cases h : 32768 ≤ (2 ^ 16 - r.toNat + l.toNat) % 2 ^ 16
  · rw [decide_eq_true h, decide_eq_false (by omega)]
    rfl
  · rw [decide_eq_false h, decide_eq_true (by omega)]
    rfl

theorem asGenLessThan_half (g : UInt16) :
    asGenLessThan g (g + 32768) = true ∧ asGenLessThan (g + 32768) g = true := by
  have hg := UInt16.toNat_lt g
  have hhalf : (32768 : UInt16).toNat = 32768 := rfl
  rw [asGenLessThan_eq, asGenLessThan_eq, UInt16.toNat_add, hhalf]
  constructor <;> simp only [decide_eq_true_eq] <;> omega

theorem resolveGenerationDirect_swap (l r : UInt16) :
    resolveGenerationDirect r l = -resolveGenerationDirect l r := by
  unfold resolveGenerationDirect
  simp only [UInt16.lt_iff_toNat_lt, ← UInt16.toNat_inj, gt_iff_lt]
  split_ifs <;> omega

theorem resolveLastUpdateTime_swap (l r : UInt64) :
    resolveLastUpdateTime r l = -resolveLastUpdateTime l r := by
  unfold resolveLastUpdateTime
  simp only [UInt64.lt_iff_toNat_lt, ← UInt64.toNat_inj, gt_iff_lt]
  split_ifs <;> omega

theorem resolveGeneration_swap {l r : UInt16} (hhalf : l - r ≠ 32768) :
    resolveGeneration r l = -resolveGeneration l r := by
  unfold resolveGeneration
  by_cases hne : l = r
  · rw [if_pos hne.symm, if_pos hne, Int.neg_zero]
  · rw [if_neg (Ne.symm hne), if_neg hne, asGenLessThan_swap hne hhalf]
    cases asGenLessThan l r <;> rfl

theorem resolveGenerationDirect_eq_zero_iff {l r : UInt16} : resolveGenerationDirect l r = 0 ↔ l = r := by
  unfold resolveGenerationDirect
  split_ifs <;> simp_all

theorem resolveGeneration_eq_zero_iff {l r : UInt16} : resolveGeneration l r = 0 ↔ l = r := by
  unfold resolveGeneration
  split_ifs <;> simp_all

theorem resolveLastUpdateTime_eq_zero_iff {l r : UInt64} : resolveLastUpdateTime l r = 0 ↔ l = r := by
  unfold resolveLastUpdateTime
  split_ifs <;> simp_all

theorem resolveGenerationDirect_eq_one_iff {l r : UInt16} :
    resolveGenerationDirect l r = 1 ↔ l.toNat < r.toNat := by
  unfold resolveGenerationDirect
  simp only [UInt16.lt_iff_toNat_lt, ← UInt16.toNat_inj, gt_iff_lt]
  split_ifs <;> simp <;> omega

theorem resolveLastUpdateTime_eq_one_iff {l r : UInt64} :
    resolveLastUpdateTime l r = 1 ↔ l.toNat < r.toNat := by
  unfold resolveLastUpdateTime
  simp only [UInt64.lt_iff_toNat_lt, ← UInt64.toNat_inj, gt_iff_lt]
  split_ifs <;> simp <;> omega

/-! ### The two policies -/

section Policies

variable {g1 g2 : UInt16} {t1 t2 : UInt64}

/-- Under either policy two versions tie exactly when they are the same. -/
theorem asRecordResolveConflict_eq_zero_iff {policy : ConflictResolutionPol}
    (hp : policy ≠ .undef) :
    asRecordResolveConflict policy g1 t1 g2 t2 = some 0 ↔ g1 = g2 ∧ t1 = t2 := by
  cases policy with
  | undef => exact absurd rfl hp
  | generation =>
    simp only [asRecordResolveConflict, Option.some.injEq]
    split_ifs with h
    · rw [resolveLastUpdateTime_eq_zero_iff, resolveGenerationDirect_eq_zero_iff.mp h]
      exact ⟨fun ht => ⟨rfl, ht⟩, And.right⟩
    · exact ⟨fun h' => absurd h' h, fun ⟨hg, _⟩ => absurd (resolveGenerationDirect_eq_zero_iff.mpr hg) h⟩
  | lastUpdateTime =>
    simp only [asRecordResolveConflict, Option.some.injEq]
    split_ifs with h
    · rw [resolveGeneration_eq_zero_iff, resolveLastUpdateTime_eq_zero_iff.mp h]
      exact ⟨fun hg => ⟨hg, rfl⟩, And.left⟩
    · exact ⟨fun h' => absurd h' h, fun ⟨_, ht⟩ => absurd (resolveLastUpdateTime_eq_zero_iff.mpr ht) h⟩

theorem asRecordResolveConflict_eq_zero_iff_generation :
    ConflictResolutionPol.generation ≠ .undef ∧
      (asRecordResolveConflict .generation 3 7 3 7 = some 0 ↔ (3 : UInt16) = 3 ∧ (7 : UInt64) = 7) :=
  ⟨by decide, asRecordResolveConflict_eq_zero_iff (by decide)⟩

theorem asRecordResolveConflict_generation_swap :
    asRecordResolveConflict .generation g2 t2 g1 t1 =
      (asRecordResolveConflict .generation g1 t1 g2 t2).map (- ·) := by
  simp only [asRecordResolveConflict, Option.map_some, Option.some.injEq,
    resolveGenerationDirect_swap g1 g2, resolveLastUpdateTime_swap t1 t2]
  split_ifs <;> omega

theorem asRecordResolveConflict_lastUpdateTime_swap (hhalf : ¬(t1 = t2 ∧ g1 - g2 = 32768)) :
    asRecordResolveConflict .lastUpdateTime g2 t2 g1 t1 =
      (asRecordResolveConflict .lastUpdateTime g1 t1 g2 t2).map (- ·) := by
  simp only [asRecordResolveConflict, Option.map_some, Option.some.injEq,
    resolveLastUpdateTime_swap t1 t2]
  by_cases ht : t1 = t2
  · rw [resolveGeneration_swap fun h => hhalf ⟨ht, h⟩]
    split_ifs <;> omega
  · have hne : resolveLastUpdateTime t1 t2 ≠ 0 := fun h => ht (resolveLastUpdateTime_eq_zero_iff.mp h)
    split_ifs <;> omega

theorem asRecordResolveConflict_generation_eq_one_iff (g1 : UInt16) (t1 : UInt64) (g2 : UInt16)
    (t2 : UInt64) : asRecordResolveConflict .generation g1 t1 g2 t2 = some 1 ↔
      g1.toNat < g2.toNat ∨ g1.toNat = g2.toNat ∧ t1.toNat < t2.toNat := by
  simp only [asRecordResolveConflict, Option.some.injEq]
  split_ifs with h
  · have hg := UInt16.toNat_inj.mpr (resolveGenerationDirect_eq_zero_iff.mp h)
    rw [resolveLastUpdateTime_eq_one_iff]
    omega
  · have hg : g1.toNat ≠ g2.toNat := fun hg => h (resolveGenerationDirect_eq_zero_iff.mpr
      (UInt16.toNat_inj.mp hg))
    rw [resolveGenerationDirect_eq_one_iff]
    omega

/-- Under the generation policy, "the right version wins" is a strict total
order on versions. -/
theorem generation_rightWins_isStrictTotalOrder :
    IsStrictTotalOrder (UInt16 × UInt64)
      fun a b => asRecordResolveConflict .generation a.1 a.2 b.1 b.2 = some 1 where
  trichotomous a b := by
    rw [asRecordResolveConflict_generation_eq_one_iff, asRecordResolveConflict_generation_eq_one_iff,
      Prod.ext_iff, ← UInt16.toNat_inj, ← UInt64.toNat_inj]
    omega
  irrefl a h := by
    rw [asRecordResolveConflict_generation_eq_one_iff] at h
    omega
  trans a b c hab hbc := by
    rw [asRecordResolveConflict_generation_eq_one_iff] at hab hbc ⊢
    omega

end Policies

/-! ### Replacing a record by a better version -/

section Replace

variable {policy : ConflictResolutionPol} {isReplWrite : Bool} {g1 g2 : UInt16} {t1 t2 : UInt64}

theorem replaceIfBetterVerdict_eq_apply_iff :
    replaceIfBetterVerdict policy isReplWrite g1 t1 g2 t2 = some .apply ↔
      ∃ r, asRecordResolveConflict (if isReplWrite then .lastUpdateTime else policy) g1 t1 g2 t2 =
        some r ∧ 0 < r := by
  unfold replaceIfBetterVerdict
  dsimp only
  generalize asRecordResolveConflict (if isReplWrite then .lastUpdateTime else policy) g1 t1 g2 t2 = res
  cases res with
  | none => simp
  | some r =>
    simp only [Option.map_some, Option.some.injEq, exists_eq_left']
    by_cases h : r ≤ 0
    · rw [if_pos h]
      exact ⟨(fun h' => nomatch h'), fun h' => absurd h' (Int.not_lt.mpr h)⟩
    · rw [if_neg h]
      exact ⟨fun _ => Int.not_le.mp h, fun _ => rfl⟩

/-- Under the generation policy two nodes holding two versions never both apply
the other's version. -/
theorem replaceIfBetterVerdict_generation_not_both :
    ¬(replaceIfBetterVerdict .generation false g1 t1 g2 t2 = some .apply ∧
      replaceIfBetterVerdict .generation false g2 t2 g1 t1 = some .apply) := by
  rintro ⟨h1, h2⟩
  obtain ⟨r1, hr1, hpos1⟩ := replaceIfBetterVerdict_eq_apply_iff.mp h1
  obtain ⟨r2, hr2, hpos2⟩ := replaceIfBetterVerdict_eq_apply_iff.mp h2
  rw [if_neg Bool.false_ne_true] at hr1 hr2
  rw [asRecordResolveConflict_generation_swap, hr1, Option.map_some, Option.some.injEq] at hr2
  omega

/-- Under the last-update-time policy, versions with equal last-update times
whose generations are `32768` apart each win against the other: a replica write
between two nodes holding them applies the remote version on both. -/
theorem asRecordResolveConflict_lastUpdateTime_half_apart (policy : ConflictResolutionPol)
    (g : UInt16) (t : UInt64) :
    asRecordResolveConflict .lastUpdateTime g t (g + 32768) t = some 1 ∧
      asRecordResolveConflict .lastUpdateTime (g + 32768) t g t = some 1 ∧
      replaceIfBetterVerdict policy true g t (g + 32768) t = some .apply ∧
      replaceIfBetterVerdict policy true (g + 32768) t g t = some .apply := by
  have hg := UInt16.toNat_lt g
  have hne : g ≠ g + 32768 := fun h => by
    have := congrArg UInt16.toNat h
    rw [UInt16.toNat_add, show (32768 : UInt16).toNat = 32768 from rfl] at this
    omega
  have hleft : asRecordResolveConflict .lastUpdateTime g t (g + 32768) t = some 1 := by
    simp only [asRecordResolveConflict, resolveLastUpdateTime, resolveGeneration,
      if_neg hne, (asGenLessThan_half g).1]
    rfl
  have hright : asRecordResolveConflict .lastUpdateTime (g + 32768) t g t = some 1 := by
    simp only [asRecordResolveConflict, resolveLastUpdateTime, resolveGeneration,
      if_neg (Ne.symm hne), (asGenLessThan_half g).2]
    rfl
  refine ⟨hleft, hright, ?_, ?_⟩
  · exact replaceIfBetterVerdict_eq_apply_iff.mpr ⟨1, hleft, Int.one_pos⟩
  · exact replaceIfBetterVerdict_eq_apply_iff.mpr ⟨1, hright, Int.one_pos⟩

end Replace

end Aerospike.Base
