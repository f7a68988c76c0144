import Aerospike.Base.Predexp

/-! # Built predicate expressions cannot crash, and the metadata filter is sound

`WellTyped` collects what the builders check of a node's children, carried
down the whole tree; `predexp_build` leaves only well-typed nodes on its stack
(`predexpBuild_wellTyped`). Over a well-typed tree no evaluator reaches its
`cf_crash`: a matching node's result is its meaning `sem` in Kleene's
three-valued logic, where AND, OR, NOT and the iterators are the Kleene
connectives, a comparison is known once both operands are, and a missing
operand is `UNKNOWN` without the record's bins and `FALSE` with them. That
meaning is two-valued with the bins, and it only gets more defined from the
metadata phase to the record phase, so a record the metadata phase rejects is
rejected by the record phase too.
-/

namespace Aerospike.Predicate

open Bytes Kleene

variable {V G R : Type}

namespace Predexp

/-- The node kinds `predexp_eval_base_init` marks `PREDEXP_VALUE_NODE`. -/
def isValueNode : Predexp V G R → Bool
  | .value .. | .bin .. | .var .. | .recDeviceSize | .recLastUpdate | .recVoidTime
  | .recDigestModulo _ => true
  | _ => false

theorem flags_valueNode (e : Predexp V G R) :
    e.flags &&& predexpValueNode = if e.isValueNode then 1 else 0 := by
  cases e <;> simp only [flags, isValueNode, Bool.false_eq_true, ↓reduceIte]
  all_goals decide

theorem flags_valueNode_eq_zero {e : Predexp V G R} :
    e.flags &&& predexpValueNode = 0 ↔ e.isValueNode = false := by
  rw [flags_valueNode]
  cases e.isValueNode <;> simp

theorem flags_valueNode_eq_one {e : Predexp V G R} :
    e.flags &&& predexpValueNode = 1 ↔ e.isValueNode = true := by
  rw [flags_valueNode]
  cases e.isValueNode <;> simp

theorem type_of_not_isValueNode {e : Predexp V G R} (h : e.isValueNode = false) :
    e.type = asParticleTypeNull := by
  cases e <;> simp_all [isValueNode, type]

end Predexp

def scalarTypes : List UInt8 := [asParticleTypeInteger, asParticleTypeString, asParticleTypeGeojson]

/-- The nodes `predexp_build` can leave: what each builder checks of its node
and its children, holding all the way down. -/
inductive WellTyped : Predexp V G R → Prop
  | and {children : List (Predexp V G R)} :
      (∀ c ∈ children, WellTyped c) → (∀ c ∈ children, c.isValueNode = false) →
      WellTyped (.and children)
  | or {children : List (Predexp V G R)} :
      (∀ c ∈ children, WellTyped c) → (∀ c ∈ children, c.isValueNode = false) →
      WellTyped (.or children)
  | not {child : Predexp V G R} : WellTyped child → child.isValueNode = false →
      WellTyped (.not child)
  | compare {tag : ℕ} {type : UInt8} {geojson : Option G} {regex : Option R}
      {lchild rchild : Predexp V G R} :
      tag ∈ compareTags → type = compareType tag →
      (tag = asPredexpGeojsonWithin ∨ tag = asPredexpGeojsonContains → geojson.isSome) →
      (tag = asPredexpStringRegex → regex.isSome) →
      WellTyped lchild → WellTyped rchild → lchild.isValueNode = true →
      rchild.isValueNode = true → lchild.type = type → rchild.type = type →
      WellTyped (.compare tag type geojson regex lchild rchild)
  | value {type : UInt8} {bin : V} : type ∈ scalarTypes → WellTyped (.value type bin)
  | bin {type : UInt8} {bname : List UInt8} : WellTyped (.bin type bname)
  | var {type : UInt8} {vname : List UInt8} : type ∈ scalarTypes → WellTyped (.var type vname)
  | recDeviceSize : WellTyped .recDeviceSize
  | recLastUpdate : WellTyped .recLastUpdate
  | recVoidTime : WellTyped .recVoidTime
  | recDigestModulo {mod : Int} : WellTyped (.recDigestModulo mod)
  | iter {tag : ℕ} {type : UInt8} {vname : List UInt8} {lchild rchild : Predexp V G R} :
      tag ∈ iterTags → type = iterType tag → WellTyped lchild → lchild.isValueNode = false →
      WellTyped rchild → rchild.isValueNode = true → rchild.type = type →
      WellTyped (.iter tag type vname lchild rchild)

/-! ### Building keeps the stack well typed -/

section Build

variable (ops : ParticleOps V G R)

def StackOk (stack : List (Predexp V G R)) : Prop := ∀ e ∈ stack, WellTyped e

variable {ops} {stack stack' : List (Predexp V G R)} {val : List UInt8} {tag : ℕ}

theorem StackOk.cons {e : Predexp V G R} (he : WellTyped e) (hs : StackOk stack) :
    StackOk (e :: stack) := by
  intro x hx
  rcases List.mem_cons.mp hx with rfl | hx
  · exact he
  · exact hs x hx

theorem StackOk.head {e : Predexp V G R} (hs : StackOk (e :: stack)) : WellTyped e :=
  hs e List.mem_cons_self

theorem StackOk.tail {e : Predexp V G R} (hs : StackOk (e :: stack)) : StackOk stack :=
  fun x hx => hs x (List.mem_cons_of_mem e hx)

theorem popChildren_ok {n : ℕ} {children cs : List (Predexp V G R)}
    (h : popChildren n stack children = some (cs, stack')) (hs : StackOk stack)
    (hc : ∀ c ∈ children, WellTyped c ∧ c.isValueNode = false) :
    (∀ c ∈ cs, WellTyped c ∧ c.isValueNode = false) ∧ StackOk stack' := by
  induction n generalizing stack children with
  | zero =>
    rw [popChildren, Option.some.injEq, Prod.mk.injEq] at h
    obtain ⟨rfl, rfl⟩ := h
    exact ⟨hc, hs⟩
  | succ n ih =>
    cases stack with
    | nil => cases h
    | cons child stack =>
      rw [popChildren] at h
      by_cases hv : child.flags &&& predexpValueNode ≠ 0
      · rw [if_pos hv] at h
        cases h
      rw [if_neg hv] at h
      have hmatch := Predexp.flags_valueNode_eq_zero.mp (not_not.mp hv)
      refine ih h hs.tail fun c hcm => ?_
      rcases List.mem_cons.mp hcm with rfl | hcm
      · exact ⟨hs.head, hmatch⟩
      · exact hc c hcm

theorem buildLogic_ok {mk : List (Predexp V G R) → Predexp V G R}
    (hmk : ∀ cs, (∀ c ∈ cs, WellTyped c) → (∀ c ∈ cs, c.isValueNode = false) → WellTyped (mk cs))
    (h : buildLogic mk stack val = some stack') (hs : StackOk stack) : StackOk stack' := by
  unfold buildLogic at h
  by_cases hlen : val.length ≠ 2
  · rw [if_pos hlen] at h
    cases h
  rw [if_neg hlen] at h
  obtain ⟨⟨cs, rest⟩, hpop, rfl⟩ := Option.map_eq_some_iff.mp h
  obtain ⟨hcs, hrest⟩ := popChildren_ok hpop hs (fun _ h => absurd h List.not_mem_nil)
  exact hrest.cons (hmk cs (fun c hc => (hcs c hc).1) fun c hc => (hcs c hc).2)

theorem buildNot_ok (h : buildNot stack val = some stack') (hs : StackOk stack) :
    StackOk stack' := by
  unfold buildNot at h
  by_cases hlen : val.length ≠ 0
  · rw [if_pos hlen] at h
    cases h
  rw [if_neg hlen] at h
  cases stack with
  | nil => cases h
  | cons child stack =>
    dsimp only at h
    by_cases hv : child.flags &&& predexpValueNode ≠ 0
    · rw [if_pos hv] at h
      cases h
    rw [if_neg hv, Option.some.injEq] at h
    subst h
    exact hs.tail.cons (.not hs.head (Predexp.flags_valueNode_eq_zero.mp (not_not.mp hv)))

theorem popTyped_ok {type : UInt8} {child : Predexp V G R}
    (h : popTyped type stack = some (child, stack')) (hs : StackOk stack) :
    WellTyped child ∧ child.isValueNode = true ∧ child.type = type ∧ StackOk stack' := by
  cases stack with
  | nil => cases h
  | cons c stack =>
    rw [popTyped] at h
    by_cases hv : c.flags &&& predexpValueNode = 0
    · rw [if_pos hv] at h
      cases h
    rw [if_neg hv] at h
    by_cases ht : c.type ≠ type
    · rw [if_pos ht] at h
      cases h
    rw [if_neg ht, Option.some.injEq, Prod.mk.injEq] at h
    obtain ⟨rfl, rfl⟩ := h
    have hval : c.isValueNode = true := by
      cases hc : c.isValueNode
      · exact absurd (Predexp.flags_valueNode_eq_zero.mpr hc) hv
      · rfl
    exact ⟨hs.head, hval, not_not.mp ht, hs.tail⟩

theorem valueType_mem (tag : ℕ) : valueType tag ∈ scalarTypes := by
  unfold valueType
  split_ifs <;> simp [scalarTypes]

theorem varType_mem (tag : ℕ) : varType tag ∈ scalarTypes := by
  unfold varType
  split_ifs <;> simp [scalarTypes]

theorem buildCompare_ok (htag : tag ∈ compareTags) (h : buildCompare ops stack val tag = some stack')
    (hs : StackOk stack) : StackOk stack' := by
  unfold buildCompare at h
  dsimp only at h
  by_cases hopts : tag = asPredexpStringRegex ∧ val.length < 4
  · rw [if_pos hopts] at h
    cases h
  rw [if_neg hopts] at h
  by_cases hrest : (if tag = asPredexpStringRegex then val.drop 4 else val) ≠ []
  · rw [if_pos hrest] at h
    cases h
  rw [if_neg hrest] at h
  obtain ⟨⟨rchild, stack1⟩, hr, h⟩ := Option.bind_eq_some_iff.mp h
  obtain ⟨⟨lchild, stack2⟩, hl, h⟩ := Option.bind_eq_some_iff.mp h
  obtain ⟨hrw, hrv, hrt, hs1⟩ := popTyped_ok hr hs
  obtain ⟨hlw, hlv, hlt, hs2⟩ := popTyped_ok hl hs1
  have hnode : ∀ (geojson : Option G) (regex : Option R),
      (tag = asPredexpGeojsonWithin ∨ tag = asPredexpGeojsonContains → geojson.isSome) →
      (tag = asPredexpStringRegex → regex.isSome) →
      WellTyped (.compare tag (compareType tag) geojson regex lchild rchild) :=
    fun _ _ hg hre => .compare htag rfl hg hre hlw hrw hlv hrv hlt hrt
  dsimp only at h
  by_cases hgeo : tag = asPredexpGeojsonWithin ∨ tag = asPredexpGeojsonContains
  · rw [if_pos hgeo] at h
    by_cases himm : rchild.flags &&& predexpImmediateNode = 0
    · rw [if_pos himm] at h
      cases h
    rw [if_neg himm] at h
    obtain ⟨query, -, h⟩ := Option.bind_eq_some_iff.mp h
    obtain ⟨region, -, rfl⟩ := Option.map_eq_some_iff.mp h
    exact hs2.cons (hnode _ _ (fun _ => rfl) fun hre => absurd hgeo (by rw [hre]; decide))
  rw [if_neg hgeo] at h
  by_cases hregex : tag = asPredexpStringRegex
  · rw [if_pos hregex] at h
    by_cases himm : rchild.flags &&& predexpImmediateNode = 0
    · rw [if_pos himm] at h
      cases h
    rw [if_neg himm] at h
    obtain ⟨query, -, h⟩ := Option.bind_eq_some_iff.mp h
    obtain ⟨regex, -, rfl⟩ := Option.map_eq_some_iff.mp h
    exact hs2.cons (hnode _ _ (fun hg => absurd hg hgeo) fun _ => rfl)
  rw [if_neg hregex, Option.some.injEq] at h
  subst h
  exact hs2.cons (hnode _ _ (fun hg => absurd hg hgeo) fun hre => absurd hre hregex)

theorem buildValue_ok (h : buildValue ops stack val tag = some stack') (hs : StackOk stack) :
    StackOk stack' := by
  obtain ⟨bin, -, rfl⟩ := Option.map_eq_some_iff.mp h
  exact hs.cons (.value (valueType_mem tag))

theorem buildNamed_ok {mk : UInt8 → List UInt8 → Predexp V G R} {type : UInt8}
    (hmk : ∀ name, WellTyped (mk type name)) (h : buildNamed mk type stack val = some stack')
    (hs : StackOk stack) : StackOk stack' := by
  unfold buildNamed at h
  by_cases hlen : val.length ≥ asIdBinSz
  · rw [if_pos hlen] at h
    cases h
  rw [if_neg hlen, Option.some.injEq] at h
  subst h
  exact hs.cons (hmk _)

theorem buildRec_ok {node : Predexp V G R} (hnode : WellTyped node)
    (h : buildRec node stack val = some stack') (hs : StackOk stack) : StackOk stack' := by
  unfold buildRec at h
  by_cases hlen : val.length ≠ 0
  · rw [if_pos hlen] at h
    cases h
  rw [if_neg hlen, Option.some.injEq] at h
  subst h
  exact hs.cons hnode

theorem buildRecDigestModulo_ok (h : buildRecDigestModulo stack val = some stack')
    (hs : StackOk stack) : StackOk stack' := by
  unfold buildRecDigestModulo at h
  split_ifs at h
  cases h
  exact hs.cons .recDigestModulo

theorem buildIter_ok (htag : tag ∈ iterTags) (h : buildIter stack val tag = some stack')
    (hs : StackOk stack) : StackOk stack' := by
  unfold buildIter at h
  by_cases hlen : val.length ≥ asIdBinSz
  · rw [if_pos hlen] at h
    cases h
  rw [if_neg hlen] at h
  obtain ⟨⟨rchild, stack1⟩, hr, h⟩ := Option.bind_eq_some_iff.mp h
  obtain ⟨hrw, hrv, hrt, hs1⟩ := popTyped_ok hr hs
  dsimp only at h
  cases stack1 with
  | nil => cases h
  | cons lchild stack2 =>
    dsimp only at h
    by_cases hv : lchild.flags &&& predexpValueNode = 1
    · rw [if_pos hv] at h
      cases h
    rw [if_neg hv] at h
    by_cases ht : lchild.type ≠ asParticleTypeNull
    · rw [if_pos ht] at h
      cases h
    rw [if_neg ht, Option.some.injEq] at h
    subst h
    have hmatch : lchild.isValueNode = false := by
      cases hc : lchild.isValueNode
      · rfl
      · exact absurd (Predexp.flags_valueNode_eq_one.mpr hc) hv
    exact hs1.tail.cons (.iter htag rfl hs1.head hmatch hrw hrv hrt)

theorem build_ok (h : build ops stack tag val = some stack') (hs : StackOk stack) :
    StackOk stack' := by
  unfold build at h
  by_cases hand : tag = asPredexpAnd
  · rw [if_pos hand] at h
    exact buildLogic_ok (fun _ => .and) h hs
  rw [if_neg hand] at h
  by_cases hor : tag = asPredexpOr
  · rw [if_pos hor] at h
    exact buildLogic_ok (fun _ => .or) h hs
  rw [if_neg hor] at h
  by_cases hnot : tag = asPredexpNot
  · rw [if_pos hnot] at h
    exact buildNot_ok h hs
  rw [if_neg hnot] at h
  by_cases hcmp : tag ∈ compareTags
  · rw [if_pos hcmp] at h
    exact buildCompare_ok hcmp h hs
  rw [if_neg hcmp] at h
  by_cases hval : tag ∈ [asPredexpIntegerValue, asPredexpStringValue, asPredexpGeojsonValue]
  · rw [if_pos hval] at h
    exact buildValue_ok h hs
  rw [if_neg hval] at h
  by_cases hbin : tag ∈ [asPredexpIntegerBin, asPredexpStringBin, asPredexpGeojsonBin,
      asPredexpListBin, asPredexpMapBin]
  · rw [if_pos hbin] at h
    exact buildNamed_ok (fun _ => .bin) h hs
  rw [if_neg hbin] at h
  by_cases hvar : tag ∈ [asPredexpIntegerVar, asPredexpStringVar, asPredexpGeojsonVar]
  · rw [if_pos hvar] at h
    exact buildNamed_ok (fun _ => .var (varType_mem tag)) h hs
  rw [if_neg hvar] at h
  by_cases hsize : tag = asPredexpRecDeviceSize
  · rw [if_pos hsize] at h
    exact buildRec_ok .recDeviceSize h hs
  rw [if_neg hsize] at h
  by_cases hupdate : tag = asPredexpRecLastUpdate
  · rw [if_pos hupdate] at h
    exact buildRec_ok .recLastUpdate h hs
  rw [if_neg hupdate] at h
  by_cases hvoid : tag = asPredexpRecVoidTime
  · rw [if_pos hvoid] at h
    exact buildRec_ok .recVoidTime h hs
  rw [if_neg hvoid] at h
  by_cases hmod : tag = asPredexpRecDigestModulo
  · rw [if_pos hmod] at h
    exact buildRecDigestModulo_ok h hs
  rw [if_neg hmod] at h
  by_cases hiter : tag ∈ iterTags
  · rw [if_pos hiter] at h
    exact buildIter_ok hiter h hs
  rw [if_neg hiter] at h
  cases h

theorem predexpBuildLoop_ok {fuel : ℕ} {bytes : List UInt8}
    (h : predexpBuildLoop ops fuel bytes stack = some stack') (hs : StackOk stack) :
    StackOk stack' := by
  induction fuel generalizing bytes stack with
  | zero => cases h
  | succ fuel ih =>
    rw [predexpBuildLoop] at h
    by_cases hshort : bytes.length < 6
    · rw [if_pos hshort] at h
      by_cases hnil : bytes = []
      · rw [if_pos hnil, Option.some.injEq] at h
        subst h
        exact hs
      · rw [if_neg hnil] at h
        cases h
    rw [if_neg hshort] at h
    dsimp only at h
    by_cases hlen : beValue ((bytes.drop 2).take 4) > (bytes.drop 6).length
    · rw [if_pos hlen] at h
      cases h
    rw [if_neg hlen] at h
    obtain ⟨stack1, hb, h⟩ := Option.bind_eq_some_iff.mp h
    exact ih h (build_ok hb hs)

theorem predexpBuild_wellTyped {bytes : List UInt8} {root : Predexp V G R}
    (h : predexpBuild ops bytes = some root) : WellTyped root ∧ root.isValueNode = false := by
  unfold predexpBuild at h
  split at h
  · rename_i top hloop
    by_cases hv : top.flags &&& predexpValueNode ≠ 0
    · rw [if_pos hv] at h
      cases h
    rw [if_neg hv, Option.some.injEq] at h
    subst h
    exact ⟨(predexpBuildLoop_ok hloop fun _ h => absurd h List.not_mem_nil).head,
      Predexp.flags_valueNode_eq_zero.mp (not_not.mp hv)⟩
  · cases h

end Build

/-! ### The meaning of a tree -/

section Eval

variable (ops : ParticleOps V G R)

namespace PredexpRetval

def toTri : PredexpRetval V → Tri
  | .false => .false
  | .true => .true
  | _ => .unknown

def ofValue : Option V → PredexpRetval V
  | none => .novalue
  | some v => .value v

@[simp] theorem toTri_ofTri (t : Tri) : (ofTri t : PredexpRetval V).toTri = t := by
  cases t <;> rfl

end PredexpRetval

/-- The value a value node stands for in a phase, `none` when it is missing. -/
def valueOf (args : PredexpArgs V) (e : Predexp V G R) : Option V :=
  match eval ops args e true with
  | some (.value v) => some v
  | _ => none

def missingTri (args : PredexpArgs V) : Tri := if args.rd.isSome then .false else .unknown

mutual

/-- The meaning of a matching node in Kleene's logic, given the values its
operands stand for in the phase `args` describes. -/
def sem (args : PredexpArgs V) : Predexp V G R → Tri
  | .and children => Tri.all (semList args children)
  | .or children => Tri.any (semList args children)
  | .not child => (sem args child).not
  | .compare tag type geojson regex lchild rchild =>
    match valueOf ops args lchild, valueOf ops args rchild with
    | some lv, some rv =>
      ((compareValues ops tag type geojson regex lv rv).map PredexpRetval.toTri).getD .unknown
    | _, _ => missingTri args
  | .iter tag _ vname lchild rchild =>
    match valueOf ops args rchild with
    | none => missingTri args
    | some coll =>
      if iterIsOr tag = some true then
        Tri.any ((iterBins none (iterElements ops tag coll)).map fun bin =>
          sem { args with vl := (vname, bin) :: args.vl } lchild)
      else
        Tri.all ((iterBins none (iterElements ops tag coll)).map fun bin =>
          sem { args with vl := (vname, bin) :: args.vl } lchild)
  | _ => .unknown

/-- `sem` of each child. -/
def semList (args : PredexpArgs V) : List (Predexp V G R) → List Tri
  | [] => []
  | child :: children => sem args child :: semList args children

end

variable {ops}

theorem semList_eq_map (args : PredexpArgs V) (children : List (Predexp V G R)) :
    semList ops args children = children.map (sem ops args) := by
  induction children with
  | nil => rfl
  | cons c cs ih => rw [semList, ih, List.map_cons]

theorem missingValue_eq (args : PredexpArgs V) :
    missingValue args = .ofTri (missingTri args) := by
  unfold missingValue missingTri
  split <;> rfl

theorem evalChildren_eq_scanLoop (args : PredexpArgs V) (isOr : Bool)
    (children : List (Predexp V G R)) (ret : PredexpRetval V) :
    evalChildren ops args isOr children ret =
      scanLoop isOr (fun c => eval ops args c false) children ret := by
  induction children generalizing ret with
  | nil => rfl
  | cons c cs ih => simp only [evalChildren, scanLoop, ih]

section Scan

variable {α : Type} {body : α → Option (PredexpRetval V)} {f : α → Tri}

theorem scanLoop_and {xs : List α} (hbody : ∀ x ∈ xs, body x = some (.ofTri (f x)))
    {a : Tri} (ha : a ≠ .false) :
    scanLoop false body xs (.ofTri a) = some (.ofTri (Tri.and a (Tri.all (xs.map f)))) := by
  induction xs generalizing a with
  | nil => simp [scanLoop]
  | cons x xs ih =>
    have hrest : ∀ y ∈ xs, body y = some (.ofTri (f y)) :=
      fun y hy => hbody y (List.mem_cons_of_mem x hy)
    rw [scanLoop, hbody x List.mem_cons_self, List.map_cons, Tri.all_cons]
    cases hfx : f x with
    | false => simp [PredexpRetval.ofTri]
    | true =>
      simp only [PredexpRetval.ofTri, Bool.false_eq_true, ↓reduceIte, Tri.true_and]
      exact ih hrest ha
    | unknown =>
      have h := ih hrest (a := .unknown) (by decide)
      simp only [PredexpRetval.ofTri] at h ⊢
      rw [h]
      cases a with
      | false => exact absurd rfl ha
      | true => rw [Tri.true_and]
      | unknown => rw [Tri.unknown_and_of_ne_false (by decide)]

theorem scanLoop_or {xs : List α} (hbody : ∀ x ∈ xs, body x = some (.ofTri (f x)))
    {a : Tri} (ha : a ≠ .true) :
    scanLoop true body xs (.ofTri a) = some (.ofTri (Tri.or a (Tri.any (xs.map f)))) := by
  induction xs generalizing a with
  | nil => simp [scanLoop]
  | cons x xs ih =>
    have hrest : ∀ y ∈ xs, body y = some (.ofTri (f y)) :=
      fun y hy => hbody y (List.mem_cons_of_mem x hy)
    rw [scanLoop, hbody x List.mem_cons_self, List.map_cons, Tri.any_cons]
    cases hfx : f x with
    | true => simp [PredexpRetval.ofTri]
    | false =>
      simp only [PredexpRetval.ofTri, ↓reduceIte, Tri.false_or]
      exact ih hrest ha
    | unknown =>
      have h := ih hrest (a := .unknown) (by decide)
      simp only [PredexpRetval.ofTri] at h ⊢
      rw [h]
      cases a with
      | true => exact absurd rfl ha
      | false => rw [Tri.false_or]
      | unknown => rw [Tri.unknown_or_of_ne_true (by decide)]

end Scan

theorem typedValue_cases (ops : ParticleOps V G R) (type : UInt8) (o : Option V) :
    typedValue ops type o = some .novalue ∨ ∃ v, typedValue ops type o = some (.value v) := by
  cases o with
  | none => exact .inl rfl
  | some v =>
    unfold typedValue
    by_cases ht : ops.particleType v ≠ type
    · exact .inl (if_pos ht)
    · exact .inr ⟨v, if_neg ht⟩

theorem eval_valueNode (args : PredexpArgs V) {e : Predexp V G R} (he : e.isValueNode = true) :
    eval ops args e true = some (.ofValue (valueOf ops args e)) := by
  have hcases : eval ops args e true = some .novalue ∨ ∃ v, eval ops args e true = some (.value v) := by
    cases e with
    | value type bin => exact .inr ⟨bin, rfl⟩
    | bin type bname =>
      cases hrd : args.rd with
      | none => exact .inl (by simp [eval, hrd])
      | some bins => simpa [eval, hrd] using typedValue_cases ops type (bins bname)
    | var type vname => simpa [eval] using typedValue_cases ops type ((args.vl.lookup vname).bind id)
    | recDeviceSize | recLastUpdate | recVoidTime | recDigestModulo _ => exact .inr ⟨_, rfl⟩
    | and _ | or _ | not _ | compare _ _ _ _ _ _ | iter _ _ _ _ _ =>
      simp [Predexp.isValueNode] at he
  rcases hcases with h | ⟨v, h⟩ <;> simp [valueOf, h, PredexpRetval.ofValue]

theorem compareValues_wellTyped (ops : ParticleOps V G R) {tag : ℕ} {type : UInt8} {geojson : Option G} {regex : Option R}
    (htag : tag ∈ compareTags) (htype : type = compareType tag)
    (hgeo : tag = asPredexpGeojsonWithin ∨ tag = asPredexpGeojsonContains → geojson.isSome)
    (hre : tag = asPredexpStringRegex → regex.isSome) (lv rv : V) :
    ∃ b, compareValues ops tag type geojson regex lv rv = some (.ofBool b) := by
  subst htype
  simp only [compareTags, List.mem_cons, List.not_mem_nil, or_false] at htag
  rcases htag with rfl | rfl | rfl | rfl | rfl | rfl | rfl | rfl | rfl | rfl | rfl
  all_goals simp [compareValues, compareType, asPredexpIntegerEqual,
    asPredexpIntegerUnequal, asPredexpIntegerGreater, asPredexpIntegerGreatereq,
    asPredexpIntegerLess, asPredexpIntegerLesseq, asPredexpStringEqual, asPredexpStringUnequal,
    asPredexpStringRegex, asPredexpGeojsonWithin, asPredexpGeojsonContains,
    asParticleTypeInteger, asParticleTypeString, asParticleTypeGeojson]
  · obtain ⟨re, rfl⟩ := Option.isSome_iff_exists.mp (hre rfl)
    simp only [Option.some.injEq, exists_eq_left']
    rcases Bool.eq_false_or_eq_true (ops.regexec re (cString (ops.stringPtr lv))) with h | h <;>
      simp [h]
  · obtain ⟨region, rfl⟩ := Option.isSome_iff_exists.mp (hgeo (.inl rfl))
    simp only [Option.some.injEq, exists_eq_left']
    rcases Bool.eq_false_or_eq_true (ops.geojsonMatch lv region) with h | h <;> simp [h]
  · obtain ⟨region, rfl⟩ := Option.isSome_iff_exists.mp (hgeo (.inr rfl))
    simp only [Option.some.injEq, exists_eq_left']
    rcases Bool.eq_false_or_eq_true (ops.geojsonMatch lv region) with h | h <;> simp [h]

theorem iterIsOr_isSome {tag : ℕ} (htag : tag ∈ iterTags) : ∃ isOr, iterIsOr tag = some isOr := by
  simp only [iterTags, List.mem_cons, List.not_mem_nil, or_false] at htag
  rcases htag with rfl | rfl | rfl | rfl | rfl | rfl <;>
    simp [iterIsOr, asPredexpListIterateOr, asPredexpListIterateAnd, asPredexpMapkeyIterateOr,
      asPredexpMapkeyIterateAnd, asPredexpMapvalIterateOr, asPredexpMapvalIterateAnd]

/-- A well-typed matching node evaluates, in either phase and under any
iteration variables, to its Kleene meaning: no evaluator reaches its
`cf_crash`. -/
theorem eval_eq_sem (ops : ParticleOps V G R) {e : Predexp V G R} (h : WellTyped e) :
    e.isValueNode = false → ∀ args, eval ops args e false = some (.ofTri (sem ops args e)) := by
  induction h with
  | and _ hm ih =>
    intro _ args
    rw [eval, evalChildren_eq_scanLoop, sem, semList_eq_map]
    have := scanLoop_and (fun c hc => ih c hc (hm c hc) args) (a := .true) (by decide)
    rwa [Tri.true_and] at this
  | or _ hm ih =>
    intro _ args
    rw [eval, evalChildren_eq_scanLoop, sem, semList_eq_map]
    have := scanLoop_or (fun c hc => ih c hc (hm c hc) args) (a := .false) (by decide)
    rwa [Tri.false_or] at this
  | not _ hm ih =>
    intro _ args
    rw [eval, ih hm args, sem]
    cases sem ops args _ <;> rfl
  | @compare tag type geojson regex lchild rchild htag htype hgeo hre _ _ hlv hrv _ _ =>
    intro _ args
    rw [eval, eval_valueNode args hlv, sem]
    cases valueOf ops args lchild with
    | none => simp [PredexpRetval.ofValue, missingValue_eq]
    | some lv =>
      rw [eval_valueNode args hrv]
      cases valueOf ops args rchild with
      | none => simp [PredexpRetval.ofValue, missingValue_eq]
      | some rv =>
        obtain ⟨b, hb⟩ := compareValues_wellTyped ops htag htype hgeo hre lv rv
        simp [PredexpRetval.ofValue, hb, PredexpRetval.ofBool]
  | @iter tag _ vname lchild rchild htag _ _ hlm _ hrv _ ihl _ =>
    intro _ args
    obtain ⟨isOr, hor⟩ := iterIsOr_isSome htag
    rw [eval, hor, eval_valueNode args hrv, sem]
    cases valueOf ops args rchild with
    | none => simp [PredexpRetval.ofValue, missingValue_eq]
    | some coll =>
      simp only [PredexpRetval.ofValue, hor]
      have hbody := fun bin (_ : bin ∈ iterBins none (iterElements ops tag coll)) =>
        ihl hlm { args with vl := (vname, bin) :: args.vl }
      cases isOr
      · have := scanLoop_and hbody (a := .true) (by decide)
        rwa [Tri.true_and] at this
      · have := scanLoop_or hbody (a := .false) (by decide)
        rwa [Tri.false_or] at this
  | value | bin | var | recDeviceSize | recLastUpdate | recVoidTime | recDigestModulo =>
    intro hv
    simp [Predexp.isValueNode] at hv

/-! ### What the meaning guarantees -/

@[simp] theorem PredexpRetval.ofTri_inj {a b : Tri} :
    (PredexpRetval.ofTri a : PredexpRetval V) = .ofTri b ↔ a = b := by
  cases a <;> cases b <;> simp [PredexpRetval.ofTri]

theorem sem_record_known (ops : ParticleOps V G R) {e : Predexp V G R} (h : WellTyped e) :
    e.isValueNode = false → ∀ args : PredexpArgs V, args.rd.isSome → sem ops args e ≠ .unknown := by
  induction h with
  | and _ hm ih =>
    intro _ args hrd
    rw [sem, semList_eq_map]
    exact Tri.all_ne_unknown (by simpa using fun c hc => ih c hc (hm c hc) args hrd)
  | or _ hm ih =>
    intro _ args hrd
    rw [sem, semList_eq_map]
    exact Tri.any_ne_unknown (by simpa using fun c hc => ih c hc (hm c hc) args hrd)
  | not _ hm ih =>
    intro _ args hrd
    rw [sem]
    exact Tri.not_ne_unknown (ih hm args hrd)
  | @compare tag type geojson regex lchild rchild htag htype hgeo hre _ _ _ _ _ _ =>
    intro _ args hrd
    rw [sem]
    split
    · rename_i lv rv _ _
      obtain ⟨b, hb⟩ := compareValues_wellTyped ops htag htype hgeo hre lv rv
      rw [hb]
      cases b <;> simp [PredexpRetval.ofBool, Tri.ofBool]
    · simp [missingTri, hrd]
  | @iter tag _ vname lchild rchild _ _ _ hlm _ _ _ ihl _ =>
    intro _ args hrd
    rw [sem]
    cases valueOf ops args rchild with
    | none => simp [missingTri, hrd]
    | some coll =>
      have hknown : ∀ t ∈ (iterBins none (iterElements ops tag coll)).map
          (fun bin => sem ops { args with vl := (vname, bin) :: args.vl } lchild), t ≠ .unknown := by
        simp only [List.mem_map]
        rintro t ⟨v, -, rfl⟩
        exact ihl hlm _ hrd
      dsimp only
      split
      · exact Tri.any_ne_unknown hknown
      · exact Tri.all_ne_unknown hknown
  | value | bin | var | recDeviceSize | recLastUpdate | recVoidTime | recDigestModulo =>
    intro hv
    simp [Predexp.isValueNode] at hv

theorem valueOf_of_metadata {e : Predexp V G R} (he : e.isValueNode = true) {md : IndexRecord}
    {vl : List (List UInt8 × Option V)} (bins : List UInt8 → Option V) {v : V}
    (h : valueOf ops ⟨md, vl, none⟩ e = some v) : valueOf ops ⟨md, vl, some bins⟩ e = some v := by
  cases e with
  | bin type bname => simp [valueOf, eval] at h
  | value _ _ | var _ _ | recDeviceSize | recLastUpdate | recVoidTime | recDigestModulo _ => exact h
  | and _ | or _ | not _ | compare _ _ _ _ _ _ | iter _ _ _ _ _ =>
    simp [Predexp.isValueNode] at he

theorem iterType_collection (tag : ℕ) :
    iterType tag = asParticleTypeList ∨ iterType tag = asParticleTypeMap := by
  unfold iterType
  split_ifs <;> simp

theorem eq_bin_of_collection {tag : ℕ} {r : Predexp V G R} (h : WellTyped r)
    (hv : r.isValueNode = true) (ht : r.type = iterType tag) : ∃ type bname, r = .bin type bname := by
  cases h with
  | bin => exact ⟨_, _, rfl⟩
  | value hs | var hs =>
    simp only [Predexp.type] at ht
    rw [ht] at hs
    rcases iterType_collection tag with hc | hc <;> rw [hc] at hs <;> simp [scalarTypes] at hs <;>
      contradiction
  | recDeviceSize | recLastUpdate | recVoidTime | recDigestModulo =>
    simp only [Predexp.type] at ht
    rcases iterType_collection tag with hc | hc <;> rw [hc] at ht <;> contradiction
  | and | or | not | compare | iter => simp [Predexp.isValueNode] at hv

theorem sem_mono (ops : ParticleOps V G R) {e : Predexp V G R} (h : WellTyped e) :
    e.isValueNode = false → ∀ md vl bins,
      sem ops ⟨md, vl, none⟩ e ≤ sem ops ⟨md, vl, some bins⟩ e := by
  induction h with
  | and _ hm ih =>
    intro _ md vl bins
    rw [sem, sem, semList_eq_map, semList_eq_map]
    refine Tri.all_mono ?_
    rw [List.forall₂_map_left_iff, List.forall₂_map_right_iff, List.forall₂_same]
    exact fun c hc => ih c hc (hm c hc) md vl bins
  | or _ hm ih =>
    intro _ md vl bins
    rw [sem, sem, semList_eq_map, semList_eq_map]
    refine Tri.any_mono ?_
    rw [List.forall₂_map_left_iff, List.forall₂_map_right_iff, List.forall₂_same]
    exact fun c hc => ih c hc (hm c hc) md vl bins
  | not _ hm ih =>
    intro _ md vl bins
    rw [sem, sem]
    exact Tri.not_mono (ih hm md vl bins)
  | @compare tag type geojson regex lchild rchild _ _ _ _ _ _ hlv hrv _ _ =>
    intro _ md vl bins
    rw [sem, sem]
    cases hl : valueOf ops ⟨md, vl, none⟩ lchild with
    | none => simp [missingTri]
    | some lv =>
      cases hr : valueOf ops ⟨md, vl, none⟩ rchild with
      | none => simp [missingTri]
      | some rv =>
        rw [valueOf_of_metadata hlv bins hl, valueOf_of_metadata hrv bins hr]
  | @iter tag type vname lchild rchild _ htype _ _ hrw hrv hrt _ _ =>
    intro _ md vl bins
    obtain ⟨type', bname, rfl⟩ := eq_bin_of_collection hrw hrv (hrt.trans htype)
    have hmissing : valueOf ops ⟨md, vl, none⟩ (.bin type' bname : Predexp V G R) = none := by
      simp [valueOf, eval]
    rw [sem, hmissing]
    simp [missingTri]
  | value | bin | var | recDeviceSize | recLastUpdate | recVoidTime | recDigestModulo =>
    intro hv
    simp [Predexp.isValueNode] at hv

inductive ReadsRecord : Predexp V G R → Prop
  | bin {type : UInt8} {bname : List UInt8} : ReadsRecord (.bin type bname)
  | var {type : UInt8} {vname : List UInt8} : ReadsRecord (.var type vname)
  | and {child : Predexp V G R} {children : List (Predexp V G R)} :
      child ∈ children → ReadsRecord child → ReadsRecord (.and children)
  | or {child : Predexp V G R} {children : List (Predexp V G R)} :
      child ∈ children → ReadsRecord child → ReadsRecord (.or children)
  | not {child : Predexp V G R} : ReadsRecord child → ReadsRecord (.not child)
  | compareLeft {tag : ℕ} {type : UInt8} {geojson : Option G} {regex : Option R}
      {lchild rchild : Predexp V G R} :
      ReadsRecord lchild → ReadsRecord (.compare tag type geojson regex lchild rchild)
  | compareRight {tag : ℕ} {type : UInt8} {geojson : Option G} {regex : Option R}
      {lchild rchild : Predexp V G R} :
      ReadsRecord rchild → ReadsRecord (.compare tag type geojson regex lchild rchild)
  | iterLeft {tag : ℕ} {type : UInt8} {vname : List UInt8} {lchild rchild : Predexp V G R} :
      ReadsRecord lchild → ReadsRecord (.iter tag type vname lchild rchild)
  | iterRight {tag : ℕ} {type : UInt8} {vname : List UInt8} {lchild rchild : Predexp V G R} :
      ReadsRecord rchild → ReadsRecord (.iter tag type vname lchild rchild)

theorem valueOf_isSome_of_not_readsRecord (args : PredexpArgs V) {e : Predexp V G R}
    (he : e.isValueNode = true) (hr : ¬ ReadsRecord e) : (valueOf ops args e).isSome := by
  cases e with
  | value _ _ | recDeviceSize | recLastUpdate | recVoidTime | recDigestModulo _ => rfl
  | bin _ _ => exact absurd .bin hr
  | var _ _ => exact absurd .var hr
  | and _ | or _ | not _ | compare _ _ _ _ _ _ | iter _ _ _ _ _ =>
    simp [Predexp.isValueNode] at he

theorem sem_known_of_not_readsRecord {e : Predexp V G R} (h : WellTyped e) :
    e.isValueNode = false → ¬ ReadsRecord e → ∀ args : PredexpArgs V, sem ops args e ≠ .unknown := by
  induction h with
  | and _ hm ih =>
    intro _ hr args
    rw [sem, semList_eq_map]
    exact Tri.all_ne_unknown (by simpa using fun c hc => ih c hc (hm c hc) (fun h => hr (.and hc h)) args)
  | or _ hm ih =>
    intro _ hr args
    rw [sem, semList_eq_map]
    exact Tri.any_ne_unknown (by simpa using fun c hc => ih c hc (hm c hc) (fun h => hr (.or hc h)) args)
  | not _ hm ih =>
    intro _ hr args
    rw [sem]
    exact Tri.not_ne_unknown (ih hm (fun h => hr (.not h)) args)
  | @compare tag type geojson regex lchild rchild htag htype hgeo hre _ _ hlv hrv _ _ =>
    intro _ hr args
    obtain ⟨lv, hl⟩ := Option.isSome_iff_exists.mp
      (valueOf_isSome_of_not_readsRecord args hlv fun h => hr (.compareLeft h))
    obtain ⟨rv, hrr⟩ := Option.isSome_iff_exists.mp
      (valueOf_isSome_of_not_readsRecord args hrv fun h => hr (.compareRight h))
    obtain ⟨b, hb⟩ := compareValues_wellTyped ops htag htype hgeo hre lv rv
    rw [sem, hl, hrr]
    dsimp only
    rw [hb]
    cases b <;> simp [PredexpRetval.ofBool, Tri.ofBool]
  | @iter tag type vname lchild rchild _ htype _ _ hrw hrv hrt _ _ =>
    intro _ hr
    obtain ⟨type', bname, rfl⟩ := eq_bin_of_collection hrw hrv (hrt.trans htype)
    exact absurd (.iterRight .bin) hr
  | value | bin | var | recDeviceSize | recLastUpdate | recVoidTime | recDigestModulo =>
    intro hv
    simp [Predexp.isValueNode] at hv

theorem eq_map_sem_of_forall₂ {args : PredexpArgs V} {children : List (Predexp V G R)}
    {ts : List Tri} (hw : ∀ c ∈ children, WellTyped c ∧ c.isValueNode = false)
    (hts : List.Forall₂ (fun c t => eval ops args c false = some (.ofTri t)) children ts) :
    ts = children.map (sem ops args) := by
  induction hts with
  | nil => rfl
  | @cons c t cs ts hct _ ih =>
    have hc := hw c List.mem_cons_self
    rw [eval_eq_sem ops hc.1 hc.2 args, Option.some.injEq, PredexpRetval.ofTri_inj] at hct
    rw [List.map_cons, hct, ih fun x hx => hw x (List.mem_cons_of_mem c hx)]

/-- AND, OR and NOT combine their well-typed children's results with Kleene's
connectives. -/
def KleeneConnectives (ops : ParticleOps V G R) : Prop :=
  ∀ (args : PredexpArgs V) (children : List (Predexp V G R)) (ts : List Tri),
    List.Forall₂ (fun c t => eval ops args c false = some (.ofTri t)) children ts →
    (WellTyped (.and children) →
      eval ops args (.and children) false = some (.ofTri (Tri.all ts))) ∧
    (WellTyped (.or children) →
      eval ops args (.or children) false = some (.ofTri (Tri.any ts))) ∧
    ∀ (child : Predexp V G R) (t : Tri), WellTyped (.not child) →
      eval ops args child false = some (.ofTri t) →
      eval ops args (.not child) false = some (.ofTri t.not)

theorem kleeneConnectives (ops : ParticleOps V G R) : KleeneConnectives ops := by
  intro args children ts hts
  refine ⟨fun h => ?_, fun h => ?_, fun child t h ht => ?_⟩
  · cases h with
    | and hc hm =>
      rw [eq_map_sem_of_forall₂ (fun c hcm => ⟨hc c hcm, hm c hcm⟩) hts,
        eval_eq_sem ops (.and hc hm) rfl args, sem, semList_eq_map]
  · cases h with
    | or hc hm =>
      rw [eq_map_sem_of_forall₂ (fun c hcm => ⟨hc c hcm, hm c hcm⟩) hts,
        eval_eq_sem ops (.or hc hm) rfl args, sem, semList_eq_map]
  · cases h with
    | not hc hm =>
      rw [eval_eq_sem ops hc hm args, Option.some.injEq, PredexpRetval.ofTri_inj] at ht
      rw [eval_eq_sem ops (.not hc hm) rfl args, sem, ht]

/-- What the callers of a built expression rely on, for one index record, one
list of iteration variables and one set of bins: neither phase crashes, the
record phase answers `TRUE` or `FALSE`, and the metadata phase is sound. -/
structure EvalSafe (ops : ParticleOps V G R) (root : Predexp V G R) (md : IndexRecord)
    (vl : List (List UInt8 × Option V)) (bins : List UInt8 → Option V) : Prop where
  metadata_eval : eval ops ⟨md, vl, none⟩ root false = some (.ofTri (sem ops ⟨md, vl, none⟩ root))
  record_eval :
    eval ops ⟨md, vl, some bins⟩ root false = some (.ofTri (sem ops ⟨md, vl, some bins⟩ root))
  record_known : sem ops ⟨md, vl, some bins⟩ root ≠ .unknown
  matches_record : ∃ b, predexpMatchesRecord ops (some root) ⟨md, vl, some bins⟩ = some b
  metadata_le_record : sem ops ⟨md, vl, none⟩ root ≤ sem ops ⟨md, vl, some bins⟩ root
  metadata_sound : predexpMatchesMetadata ops (some root) ⟨md, vl, none⟩ = some false →
    predexpMatchesRecord ops (some root) ⟨md, vl, some bins⟩ = some false
  unknown_reads_record : ¬ ReadsRecord root → sem ops ⟨md, vl, none⟩ root ≠ .unknown

theorem predexpMatchesRecord_of_known {root : Predexp V G R} {args : PredexpArgs V} {t : Tri}
    (heval : eval ops args root false = some (.ofTri t)) (ht : t ≠ .unknown) :
    predexpMatchesRecord ops (some root) args = some (t == .true) := by
  simp only [predexpMatchesRecord, heval]
  cases t with
  | false => rfl
  | true => rfl
  | unknown => exact absurd rfl ht

theorem predexpBuild_eval_safe {bytes : List UInt8} {root : Predexp V G R}
    (h : predexpBuild ops bytes = some root) :
    (∀ md vl bins, EvalSafe ops root md vl bins) ∧ KleeneConnectives ops := by
  obtain ⟨hw, hm⟩ := predexpBuild_wellTyped h
  refine ⟨fun md vl bins => ?_, kleeneConnectives ops⟩
  have hmd := eval_eq_sem ops hw hm ⟨md, vl, none⟩
  have hrec := eval_eq_sem ops hw hm ⟨md, vl, some bins⟩
  have hknown := sem_record_known ops hw hm ⟨md, vl, some bins⟩ rfl
  have hle := sem_mono ops hw hm md vl bins
  refine ⟨hmd, hrec, hknown, ⟨_, predexpMatchesRecord_of_known hrec hknown⟩, hle, fun hmeta => ?_,
    fun hr => sem_known_of_not_readsRecord hw hm hr _⟩
  have hfalse : sem ops ⟨md, vl, none⟩ root = .false := by
    simp only [predexpMatchesMetadata, hmd] at hmeta
    cases hs : sem ops ⟨md, vl, none⟩ root <;> simp_all [PredexpRetval.ofTri, PredexpRetval.isFalse]
  have hrecFalse := Tri.eq_of_le hle (by rw [hfalse]; decide)
  rw [predexpMatchesRecord_of_known hrec hknown, ← hrecFalse, hfalse]
  decide

/-- A particle layer with integers only, in which the wire bytes of a value are
its big-endian number. -/
def integerOps : ParticleOps Int Unit Unit where
  particleType _ := asParticleTypeInteger
  fromWire _ bytes := some (beValue bytes)
  integerSet i := i
  integerValue i := i
  stringPtr _ := []
  geoParse _ := none
  geojsonMatch _ _ := Bool.false
  regcomp _ _ := none
  regexec _ _ := Bool.false
  listElements _ := []
  mapPairs _ := []
  utcNsFromClepochMs ms := ms
  utcNsFromClepochSec s := s

def binEqualsFive : List UInt8 :=
  [0, 100, 0, 0, 0, 1, 97, 0, 10, 0, 0, 0, 1, 5, 0, 200, 0, 0, 0, 0]

theorem predexpBuild_eval_safe_binEqualsFive :
    predexpBuild integerOps binEqualsFive =
        some (.compare 200 1 none none (.bin 1 [97]) (.value 1 5)) ∧
      (∀ md vl bins,
        EvalSafe integerOps (.compare 200 1 none none (.bin 1 [97]) (.value 1 5)) md vl bins) ∧
      KleeneConnectives integerOps := by
  have hb : predexpBuild integerOps binEqualsFive =
      some (.compare 200 1 none none (.bin 1 [97]) (.value 1 5)) := by
    simp +decide [predexpBuild, predexpBuildLoop, binEqualsFive, build, buildCompare, buildBin,
      buildNamed, buildValue, popTyped, beValue, integerOps, valueType, binType, compareType,
      cString, Predexp.flags, Predexp.type]
  exact ⟨hb, predexpBuild_eval_safe hb⟩

end Eval

end Aerospike.Predicate
