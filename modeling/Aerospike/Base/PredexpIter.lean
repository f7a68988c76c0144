import Aerospike.Base.PredexpSound

/-! # Iterating over a collection with nil elements

`eval_list_iter` and `eval_map_iter` load each element of the collection into
the iteration variable's bin with `as_bin_particle_replace_from_asval`, which
returns success without touching the bin for an element of no particle type (a
nil). Such an element is then evaluated with the previous element's value, and
only a nil before any other element finds the bin empty. On a collection
without nils the iterator evaluates its body once with each element.
-/

namespace Aerospike.Predicate

open Kleene

variable {V G R : Type}

/-! ### The variable's bins -/

theorem length_iterBins (bin : Option V) (es : List (Option V)) :
    (iterBins bin es).length = es.length := by
  induction es generalizing bin with
  | nil => rfl
  | cons e es ih => rw [iterBins, List.length_cons, ih, List.length_cons]

theorem iterBins_of_isSome (bin : Option V) {es : List (Option V)} (h : ∀ e ∈ es, e.isSome) :
    iterBins bin es = es := by
  induction es generalizing bin with
  | nil => rfl
  | cons e es ih =>
    obtain ⟨v, rfl⟩ := Option.isSome_iff_exists.mp (h e List.mem_cons_self)
    rw [iterBins, Option.some_or, ih _ fun e he => h e (List.mem_cons_of_mem _ he)]

theorem iterBins_some_none (bin : Option V) (v : V) (es : List (Option V)) :
    iterBins bin (some v :: none :: es) = some v :: some v :: iterBins (some v) es := by
  rw [iterBins, Option.some_or, iterBins, Option.none_or]

/-! ### An iteration over `[1, nil]` -/

/-- `LIST_ITERATE_AND` over list bin `bname` of `INTEGER_VAR vname` equal to
the immediate integer `one`. -/
def allEqualOne (bname vname : List UInt8) (one : V) : Predexp V G R :=
  .iter asPredexpListIterateAnd asParticleTypeList vname
    (.compare asPredexpIntegerEqual asParticleTypeInteger none none
      (.var asParticleTypeInteger vname) (.value asParticleTypeInteger one))
    (.bin asParticleTypeList bname)

section AllEqualOne

variable (ops : ParticleOps V G R) (md : IndexRecord) (vl : List (List UInt8 × Option V))
  {bins : List UInt8 → Option V} {bname vname : List UInt8} {one coll : V}

theorem eval_allEqualOne_body (hone : ops.particleType one = asParticleTypeInteger)
    (bin : Option V) (hbin : bin = none ∨ bin = some one) :
    eval ops ⟨md, (vname, bin) :: vl, some bins⟩
        (.compare asPredexpIntegerEqual asParticleTypeInteger none none
          (.var asParticleTypeInteger vname) (.value asParticleTypeInteger one) : Predexp V G R)
        false =
      some (if bin = none then .false else .true) := by
  rcases hbin with rfl | rfl
  · simp [eval, typedValue, missingValue]
  · simp [eval, typedValue, hone, compareValues, asPredexpIntegerEqual, PredexpRetval.ofBool,
      PredexpRetval.ofTri, Tri.ofBool]

theorem eval_allEqualOne (hcoll : bins bname = some coll)
    (hlist : ops.particleType coll = asParticleTypeList) :
    eval ops ⟨md, vl, some bins⟩ (allEqualOne bname vname one : Predexp V G R) false =
      scanLoop false (fun bin => eval ops ⟨md, (vname, bin) :: vl, some bins⟩
          (.compare asPredexpIntegerEqual asParticleTypeInteger none none
            (.var asParticleTypeInteger vname) (.value asParticleTypeInteger one) : Predexp V G R)
          false)
        (iterBins none (ops.listElements coll)) .true := by
  simp [allEqualOne, eval, iterIsOr, iterElements, typedValue, hcoll, hlist, asPredexpListIterateAnd,
    asPredexpListIterateOr, asPredexpMapkeyIterateOr, asPredexpMapvalIterateOr]

/-- On a list bin whose elements load as `1` and then a nil, `x == 1` holds for
every element under `LIST_ITERATE_AND`: the nil is tested with the `1` before
it. On a list of a nil alone it fails. -/
theorem list_iterate_and_nil_keeps_previous (hone : ops.particleType one = asParticleTypeInteger)
    (hcoll : bins bname = some coll) (hlist : ops.particleType coll = asParticleTypeList) :
    (ops.listElements coll = [some one, none] →
      predexpMatchesRecord ops (some (allEqualOne bname vname one : Predexp V G R))
        ⟨md, vl, some bins⟩ = some true) ∧
    (ops.listElements coll = [none] →
      predexpMatchesRecord ops (some (allEqualOne bname vname one : Predexp V G R))
        ⟨md, vl, some bins⟩ = some false) := by
  constructor
  · intro helems
    rw [predexpMatchesRecord, eval_allEqualOne ops md vl hcoll hlist, helems, iterBins_some_none,
      iterBins, scanLoop, eval_allEqualOne_body ops md vl hone _ (.inr rfl),
      if_neg (Option.some_ne_none one)]
    rw [scanLoop, eval_allEqualOne_body ops md vl hone _ (.inr rfl),
      if_neg (Option.some_ne_none one)]
    rfl
  · intro helems
    rw [predexpMatchesRecord, eval_allEqualOne ops md vl hcoll hlist, helems, iterBins, iterBins,
      Option.none_or, scanLoop, eval_allEqualOne_body ops md vl hone _ (.inl rfl), if_pos rfl]
    rfl

end AllEqualOne

def listOps : ParticleOps (ℤ ⊕ List (Option ℤ)) Unit Unit where
  particleType v := v.elim (fun _ => asParticleTypeInteger) fun _ => asParticleTypeList
  fromWire _ bytes := some (.inl (Bytes.beValue bytes))
  integerSet i := .inl i
  integerValue v := v.elim id fun _ => 0
  stringPtr _ := []
  geoParse _ := none
  geojsonMatch _ _ := Bool.false
  regcomp _ _ := none
  regexec _ _ := Bool.false
  listElements v := v.elim (fun _ => []) fun es => es.map (Option.map .inl)
  mapPairs _ := []
  utcNsFromClepochMs ms := ms
  utcNsFromClepochSec s := s

def oneNilBins : List UInt8 → Option (ℤ ⊕ List (Option ℤ)) := fun _ => some (.inr [some 1, none])

def nilBins : List UInt8 → Option (ℤ ⊕ List (Option ℤ)) := fun _ => some (.inr [none])

theorem list_iterate_and_nil_keeps_previous_oneNil :
    (listOps.particleType (.inl 1) = asParticleTypeInteger ∧
      oneNilBins [120] = some (.inr [some 1, none]) ∧ nilBins [120] = some (.inr [none]) ∧
      listOps.particleType (.inr [some 1, none]) = asParticleTypeList ∧
      listOps.particleType (.inr [none]) = asParticleTypeList) ∧
    predexpMatchesRecord listOps (some (allEqualOne [120] [120] (.inl 1)))
      ⟨⟨[], 0, 0, 0⟩, [], some oneNilBins⟩ = some true ∧
    predexpMatchesRecord listOps (some (allEqualOne [120] [120] (.inl 1)))
      ⟨⟨[], 0, 0, 0⟩, [], some nilBins⟩ = some false :=
  ⟨⟨rfl, rfl, rfl, rfl, rfl⟩,
    (list_iterate_and_nil_keeps_previous listOps ⟨[], 0, 0, 0⟩ []
      (show listOps.particleType (.inl 1) = asParticleTypeInteger from rfl)
      (show oneNilBins [120] = some (.inr [some 1, none]) from rfl) rfl).1 rfl,
    (list_iterate_and_nil_keeps_previous listOps ⟨[], 0, 0, 0⟩ []
      (show listOps.particleType (.inl 1) = asParticleTypeInteger from rfl)
      (show nilBins [120] = some (.inr [none]) from rfl) rfl).2 rfl⟩

end Aerospike.Predicate
