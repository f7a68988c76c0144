import Aerospike.Lib.Bytes
import Aerospike.Lib.Kleene

/-! # Predicate expressions: `predexp_build` and the evaluators

A client sends a predicate expression as a sequence of tag-length-value
tokens in postfix order. `predexp_build` pushes one node per token on a stack;
a node that takes children pops them and checks them: the children of AND, OR,
NOT and of an iterator's body must be matching nodes, the operands of a
comparison and an iterator's collection must be value nodes of the type the
tag names, and the query of a GeoJSON or regular expression comparison must be
an immediate value. The expression is accepted when one matching node is left.

The evaluators run in two phases: first with only the index record (the
metadata phase, `rd == NULL`), where a bin's value is missing and a comparison
with a missing value is `UNKNOWN`, and then with the record's bins, where it is
`FALSE`. Each evaluator `cf_crash`es on a result it does not expect.

The particle layer and the libraries the evaluators call (the particle codecs,
`regcomp` and `regexec`, GeoJSON parsing and matching, the clock conversions)
are parameters: a particle is a value of any type `V`.
-/

namespace Aerospike.Predicate

open Bytes Kleene

/-! ### Tags, particle types and flags -/

def asPredexpAnd : ℕ := 1
def asPredexpOr : ℕ := 2
def asPredexpNot : ℕ := 3
def asPredexpIntegerValue : ℕ := 10
def asPredexpStringValue : ℕ := 11
def asPredexpGeojsonValue : ℕ := 12
def asPredexpIntegerBin : ℕ := 100
def asPredexpStringBin : ℕ := 101
def asPredexpGeojsonBin : ℕ := 102
def asPredexpListBin : ℕ := 103
def asPredexpMapBin : ℕ := 104
def asPredexpIntegerVar : ℕ := 120
def asPredexpStringVar : ℕ := 121
def asPredexpGeojsonVar : ℕ := 122
def asPredexpRecDeviceSize : ℕ := 150
def asPredexpRecLastUpdate : ℕ := 151
def asPredexpRecVoidTime : ℕ := 152
def asPredexpRecDigestModulo : ℕ := 153
def asPredexpIntegerEqual : ℕ := 200
def asPredexpIntegerUnequal : ℕ := 201
def asPredexpIntegerGreater : ℕ := 202
def asPredexpIntegerGreatereq : ℕ := 203
def asPredexpIntegerLess : ℕ := 204
def asPredexpIntegerLesseq : ℕ := 205
def asPredexpStringEqual : ℕ := 210
def asPredexpStringUnequal : ℕ := 211
def asPredexpStringRegex : ℕ := 212
def asPredexpGeojsonWithin : ℕ := 220
def asPredexpGeojsonContains : ℕ := 221
def asPredexpListIterateOr : ℕ := 250
def asPredexpMapkeyIterateOr : ℕ := 251
def asPredexpMapvalIterateOr : ℕ := 252
def asPredexpListIterateAnd : ℕ := 253
def asPredexpMapkeyIterateAnd : ℕ := 254
def asPredexpMapvalIterateAnd : ℕ := 255

def asParticleTypeNull : UInt8 := 0
def asParticleTypeInteger : UInt8 := 1
def asParticleTypeString : UInt8 := 3
def asParticleTypeMap : UInt8 := 19
def asParticleTypeList : UInt8 := 20
def asParticleTypeGeojson : UInt8 := 23

/-- `PREDEXP_VALUE_NODE`: the node represents a value. -/
def predexpValueNode : UInt8 := 0x01

/-- `PREDEXP_IMMEDIATE_NODE`: the value is a constant of the query. -/
def predexpImmediateNode : UInt8 := 0x02

/-- `AS_ID_BIN_SZ`: the size of a bin or variable name with its terminator. -/
def asIdBinSz : ℕ := 15

/-- The comparison tags `build_compare` takes. -/
def compareTags : List ℕ :=
  [asPredexpIntegerEqual, asPredexpIntegerUnequal, asPredexpIntegerGreater,
    asPredexpIntegerGreatereq, asPredexpIntegerLess, asPredexpIntegerLesseq,
    asPredexpStringEqual, asPredexpStringUnequal, asPredexpStringRegex,
    asPredexpGeojsonWithin, asPredexpGeojsonContains]

/-- The iteration tags `build_iter` takes. -/
def iterTags : List ℕ :=
  [asPredexpListIterateOr, asPredexpListIterateAnd, asPredexpMapkeyIterateOr,
    asPredexpMapkeyIterateAnd, asPredexpMapvalIterateOr, asPredexpMapvalIterateAnd]

/-- A name as C reads it once copied and terminated: the bytes before the
first `NUL`. -/
def cString (bytes : List UInt8) : List UInt8 := bytes.takeWhile (· ≠ 0)

/-! ### The model -/

/-- What predicate expressions use of the particle layer and of the libraries
it calls, over particles `V`, parsed GeoJSON query regions `G` and compiled
regular expressions `R`. -/
structure ParticleOps (V G R : Type) where
  /-- `as_bin_get_particle_type`. -/
  particleType : V → UInt8
  /-- The type's `from_wire_fn`, `none` when it fails. -/
  fromWire : UInt8 → List UInt8 → Option V
  /-- An integer bin set by `as_bin_particle_integer_set`. -/
  integerSet : Int → V
  /-- `as_bin_particle_integer_value`. -/
  integerValue : V → Int
  /-- The bytes `as_bin_particle_string_ptr` designates. -/
  stringPtr : V → List UInt8
  /-- `geo_parse` of the particle's JSON text: the cell and region, or `none`. -/
  geoParse : V → Option G
  /-- `as_particle_geojson_match`, strict. -/
  geojsonMatch : V → G → Bool
  /-- `regcomp` with the options, `none` when it fails. -/
  regcomp : List UInt8 → UInt32 → Option R
  /-- `regexec` found a match. -/
  regexec : R → List UInt8 → Bool
  /-- A list particle's elements as `as_bin_particle_replace_from_asval` loads
  them into a bin, `none` for an element of no particle type (a nil), which it
  leaves the bin untouched for. -/
  listElements : V → List (Option V)
  /-- A map particle's keys and values, each as
  `as_bin_particle_replace_from_asval` loads it. -/
  mapPairs : V → List (Option V × Option V)
  /-- `cf_utc_ns_from_clepoch_ms`. -/
  utcNsFromClepochMs : ℕ → Int
  /-- `cf_utc_ns_from_clepoch_sec`. -/
  utcNsFromClepochSec : ℕ → Int

/-- A node of a built predicate expression: one constructor per node kind,
with the state its builder leaves. -/
inductive Predexp (V G R : Type)
  | and (children : List (Predexp V G R))
  | or (children : List (Predexp V G R))
  | not (child : Predexp V G R)
  | compare (tag : ℕ) (type : UInt8) (geojson : Option G) (regex : Option R)
      (lchild rchild : Predexp V G R)
  | value (type : UInt8) (bin : V)
  | bin (type : UInt8) (bname : List UInt8)
  | var (type : UInt8) (vname : List UInt8)
  | recDeviceSize
  | recLastUpdate
  | recVoidTime
  | recDigestModulo (mod : Int)
  | iter (tag : ℕ) (type : UInt8) (vname : List UInt8) (lchild rchild : Predexp V G R)

/-- `predexp_retval_t`; a `VALUE` carries the bin it fills in. -/
inductive PredexpRetval (V : Type)
  | false
  | true
  | unknown
  | value (bin : V)
  | novalue

/-- The fields of an index record (`as_record`) predicate expressions read. -/
structure IndexRecord where
  keyd : List UInt8
  voidTime : ℕ
  lastUpdateTime : ℕ
  nRblocks : ℕ

/-- `predexp_args_t`: the index record, the iteration variables (innermost
first) with their bins (`none` while empty) and, in the record phase, the
record's bins by name; `none` is the metadata phase's `rd == NULL`. -/
structure PredexpArgs (V : Type) where
  md : IndexRecord
  vl : List (List UInt8 × Option V)
  rd : Option (List UInt8 → Option V)

variable {V G R : Type}

namespace PredexpRetval

def ofTri : Tri → PredexpRetval V
  | .false => .false
  | .true => .true
  | .unknown => .unknown

def ofBool (b : Bool) : PredexpRetval V := ofTri (Tri.ofBool b)

/-- The test `predexp_matches_metadata` makes. -/
def isFalse : PredexpRetval V → Bool
  | .false => Bool.true
  | _ => Bool.false

end PredexpRetval

namespace Predexp

/-- `base.flags` as `predexp_eval_base_init` sets it. -/
def flags : Predexp V G R → UInt8
  | .value .. => predexpValueNode ||| predexpImmediateNode
  | .bin .. | .var .. | .recDeviceSize | .recLastUpdate | .recVoidTime | .recDigestModulo _ =>
    predexpValueNode
  | _ => 0

def type : Predexp V G R → UInt8
  | .value t _ | .bin t _ | .var t _ => t
  | .recDeviceSize | .recLastUpdate | .recVoidTime | .recDigestModulo _ => asParticleTypeInteger
  | _ => asParticleTypeNull

end Predexp

/-! ### Building -/

section Build

variable (ops : ParticleOps V G R)

/-- The children `build_and` and `build_or` pop: `n` nodes off the stack, none
of them a value node, gathered in the order they were pushed. -/
def popChildren : ℕ → List (Predexp V G R) → List (Predexp V G R) →
    Option (List (Predexp V G R) × List (Predexp V G R))
  | 0, stack, children => some (children, stack)
  | _ + 1, [], _ => none
  | n + 1, child :: stack, children =>
    if child.flags &&& predexpValueNode ≠ 0 then none
    else popChildren n stack (child :: children)

/-- `build_and` and `build_or`: a two-byte child count, then the children. -/
def buildLogic (mk : List (Predexp V G R) → Predexp V G R) (stack : List (Predexp V G R))
    (val : List UInt8) : Option (List (Predexp V G R)) :=
  if val.length ≠ 2 then none
  else (popChildren (beValue val) stack []).map fun (children, stack) => mk children :: stack

def buildAnd : List (Predexp V G R) → List UInt8 → Option (List (Predexp V G R)) :=
  buildLogic .and

def buildOr : List (Predexp V G R) → List UInt8 → Option (List (Predexp V G R)) :=
  buildLogic .or

def buildNot (stack : List (Predexp V G R)) (val : List UInt8) :
    Option (List (Predexp V G R)) :=
  if val.length ≠ 0 then none
  else
    match stack with
    | [] => none
    | child :: stack =>
      if child.flags &&& predexpValueNode ≠ 0 then none else some (.not child :: stack)

/-- The particle type a comparison tag compares (`NULL` for the tags
`build_compare` is never given). -/
def compareType (tag : ℕ) : UInt8 :=
  if tag ∈ [asPredexpIntegerEqual, asPredexpIntegerUnequal, asPredexpIntegerGreater,
      asPredexpIntegerGreatereq, asPredexpIntegerLess, asPredexpIntegerLesseq] then
    asParticleTypeInteger
  else if tag ∈ [asPredexpStringEqual, asPredexpStringUnequal, asPredexpStringRegex] then
    asParticleTypeString
  else if tag ∈ [asPredexpGeojsonWithin, asPredexpGeojsonContains] then asParticleTypeGeojson
  else asParticleTypeNull

/-- A comparison's or an iterator's operand off the stack: present, a value
node, and of the type. -/
def popTyped (type : UInt8) : List (Predexp V G R) → Option (Predexp V G R × List (Predexp V G R))
  | [] => none
  | child :: stack =>
    if child.flags &&& predexpValueNode = 0 then none
    else if child.type ≠ type then none
    else some (child, stack)

/-- The value an immediate node evaluates to: `eval_value` is the evaluator
of the only immediate nodes. -/
def immediateValue : Predexp V G R → Option V
  | .value _ bin => some bin
  | _ => none

/-- `build_compare`: a regular expression takes four bytes of options, the
others nothing; both operands are popped, and a GeoJSON or regular expression
query is parsed or compiled once. -/
def buildCompare (stack : List (Predexp V G R)) (val : List UInt8) (tag : ℕ) :
    Option (List (Predexp V G R)) :=
  let type := compareType tag
  if tag = asPredexpStringRegex ∧ val.length < 4 then none
  else
    let regexOpts := if tag = asPredexpStringRegex then beValue (val.take 4) else 0
    let rest := if tag = asPredexpStringRegex then val.drop 4 else val
    if rest ≠ [] then none
    else
      (popTyped type stack).bind fun (rchild, stack) =>
      (popTyped type stack).bind fun (lchild, stack) =>
      if tag = asPredexpGeojsonWithin ∨ tag = asPredexpGeojsonContains then
        if rchild.flags &&& predexpImmediateNode = 0 then none
        else (immediateValue rchild).bind fun query =>
          (ops.geoParse query).map fun region =>
            .compare tag type (some region) none lchild rchild :: stack
      else if tag = asPredexpStringRegex then
        if rchild.flags &&& predexpImmediateNode = 0 then none
        else (immediateValue rchild).bind fun query =>
          (ops.regcomp (cString (ops.stringPtr query)) (UInt32.ofNat regexOpts)).map fun regex =>
            .compare tag type none (some regex) lchild rchild :: stack
      else some (.compare tag type none none lchild rchild :: stack)

def valueType (tag : ℕ) : UInt8 :=
  if tag = asPredexpIntegerValue then asParticleTypeInteger
  else if tag = asPredexpStringValue then asParticleTypeString
  else asParticleTypeGeojson

/-- `build_value`: the whole value is the particle's wire form. -/
def buildValue (stack : List (Predexp V G R)) (val : List UInt8) (tag : ℕ) :
    Option (List (Predexp V G R)) :=
  (ops.fromWire (valueType tag) val).map fun bin => .value (valueType tag) bin :: stack

/-- `build_bin` and `build_var`: the whole value is a name shorter than
`AS_ID_BIN_SZ`. -/
def buildNamed (mk : UInt8 → List UInt8 → Predexp V G R) (type : UInt8)
    (stack : List (Predexp V G R)) (val : List UInt8) : Option (List (Predexp V G R)) :=
  if val.length ≥ asIdBinSz then none else some (mk type (cString val) :: stack)

def binType (tag : ℕ) : UInt8 :=
  if tag = asPredexpIntegerBin then asParticleTypeInteger
  else if tag = asPredexpStringBin then asParticleTypeString
  else if tag = asPredexpGeojsonBin then asParticleTypeGeojson
  else if tag = asPredexpListBin then asParticleTypeList
  else asParticleTypeMap

def varType (tag : ℕ) : UInt8 :=
  if tag = asPredexpIntegerVar then asParticleTypeInteger
  else if tag = asPredexpStringVar then asParticleTypeString
  else asParticleTypeGeojson

def buildBin (stack : List (Predexp V G R)) (val : List UInt8) (tag : ℕ) :
    Option (List (Predexp V G R)) :=
  buildNamed .bin (binType tag) stack val

def buildVar (stack : List (Predexp V G R)) (val : List UInt8) (tag : ℕ) :
    Option (List (Predexp V G R)) :=
  buildNamed .var (varType tag) stack val

/-- `build_rec_device_size`, `build_rec_last_update` and `build_rec_void_time`:
no value. -/
def buildRec (node : Predexp V G R) (stack : List (Predexp V G R)) (val : List UInt8) :
    Option (List (Predexp V G R)) :=
  if val.length ≠ 0 then none else some (node :: stack)

def toInt32 (x : ℕ) : Int := if x < 2 ^ 31 then x else (x : Int) - 2 ^ 32

/-- `build_rec_digest_modulo`: exactly four bytes of a nonzero modulus. -/
def buildRecDigestModulo (stack : List (Predexp V G R)) (val : List UInt8) :
    Option (List (Predexp V G R)) :=
  if val.length < 4 then none
  else if val.length ≠ 4 then none
  else if toInt32 (beValue val) = 0 then none
  else some (.recDigestModulo (toInt32 (beValue val)) :: stack)

def iterType (tag : ℕ) : UInt8 :=
  if tag = asPredexpListIterateOr ∨ tag = asPredexpListIterateAnd then asParticleTypeList
  else asParticleTypeMap

/-- `build_iter`: the value is the variable's name; the collection and then
the matching node run per element are popped. -/
def buildIter (stack : List (Predexp V G R)) (val : List UInt8) (tag : ℕ) :
    Option (List (Predexp V G R)) :=
  if val.length ≥ asIdBinSz then none
  else
    (popTyped (iterType tag) stack).bind fun (rchild, stack) =>
    match stack with
    | [] => none
    | lchild :: stack =>
      if lchild.flags &&& predexpValueNode = 1 then none
      else if lchild.type ≠ asParticleTypeNull then none
      else some (.iter tag (iterType tag) (cString val) lchild rchild :: stack)

/-- `build`: one token, dispatched on its tag. -/
def build (stack : List (Predexp V G R)) (tag : ℕ) (val : List UInt8) :
    Option (List (Predexp V G R)) :=
  if tag = asPredexpAnd then buildAnd stack val
  else if tag = asPredexpOr then buildOr stack val
  else if tag = asPredexpNot then buildNot stack val
  else if tag ∈ compareTags then buildCompare ops stack val tag
  else if tag ∈ [asPredexpIntegerValue, asPredexpStringValue, asPredexpGeojsonValue] then
    buildValue ops stack val tag
  else if tag ∈ [asPredexpIntegerBin, asPredexpStringBin, asPredexpGeojsonBin,
      asPredexpListBin, asPredexpMapBin] then buildBin stack val tag
  else if tag ∈ [asPredexpIntegerVar, asPredexpStringVar, asPredexpGeojsonVar] then
    buildVar stack val tag
  else if tag = asPredexpRecDeviceSize then buildRec .recDeviceSize stack val
  else if tag = asPredexpRecLastUpdate then buildRec .recLastUpdate stack val
  else if tag = asPredexpRecVoidTime then buildRec .recVoidTime stack val
  else if tag = asPredexpRecDigestModulo then buildRecDigestModulo stack val
  else if tag ∈ iterTags then buildIter stack val tag
  else none

/-- The token loop of `predexp_build` over the bytes left, with fuel: a token
is a two-byte tag, a four-byte length and the value; the bytes must end with
a whole token. -/
def predexpBuildLoop : ℕ → List UInt8 → List (Predexp V G R) → Option (List (Predexp V G R))
  | 0, _, _ => none
  | fuel + 1, bytes, stack =>
    if bytes.length < 6 then
      if bytes = [] then some stack else none
    else
      let tag := beValue (bytes.take 2)
      let len := beValue ((bytes.drop 2).take 4)
      let rest := bytes.drop 6
      if len > rest.length then none
      else (build ops stack tag (rest.take len)).bind (predexpBuildLoop fuel (rest.drop len))

/-- `predexp_build` on the bytes of a predicate field: the root, or `none` for
its `NULL`. Each token takes at least six bytes, so the fuel is never what
stops the loop. -/
def predexpBuild (bytes : List UInt8) : Option (Predexp V G R) :=
  match predexpBuildLoop ops (bytes.length + 1) bytes [] with
  | some [root] => if root.flags &&& predexpValueNode ≠ 0 then none else some root
  | _ => none

end Build

/-! ### Evaluating -/

section Eval

variable (ops : ParticleOps V G R)

/-- What a comparison or an iterator returns for a missing operand: `FALSE`
with the record's bins, `UNKNOWN` without. -/
def missingValue (args : PredexpArgs V) : PredexpRetval V :=
  if args.rd.isSome then .false else .unknown

/-- What `eval_bin` and `eval_var` return for the bin or variable found. -/
def typedValue (type : UInt8) : Option V → Option (PredexpRetval V)
  | none => some .novalue
  | some v => if ops.particleType v ≠ type then some .novalue else some (.value v)

/-- The comparison `eval_compare` makes once both operands are there; `none`
for its `cf_crash` on a type or tag it does not know, or a query never
prepared. -/
def compareValues (tag : ℕ) (type : UInt8) (geojson : Option G) (regex : Option R)
    (lv rv : V) : Option (PredexpRetval V) :=
  if type = asParticleTypeInteger then
    let l := ops.integerValue lv
    let r := ops.integerValue rv
    if tag = asPredexpIntegerEqual then some (.ofBool (l == r))
    else if tag = asPredexpIntegerUnequal then some (.ofBool (l != r))
    else if tag = asPredexpIntegerGreater then some (.ofBool (decide (l > r)))
    else if tag = asPredexpIntegerGreatereq then some (.ofBool (decide (l ≥ r)))
    else if tag = asPredexpIntegerLess then some (.ofBool (decide (l < r)))
    else if tag = asPredexpIntegerLesseq then some (.ofBool (decide (l ≤ r)))
    else none
  else if type = asParticleTypeString then
    if tag = asPredexpStringEqual then some (.ofBool (ops.stringPtr lv == ops.stringPtr rv))
    else if tag = asPredexpStringUnequal then some (.ofBool (ops.stringPtr lv != ops.stringPtr rv))
    else if tag = asPredexpStringRegex then
      regex.map fun re => .ofBool (ops.regexec re (cString (ops.stringPtr lv)))
    else none
  else if type = asParticleTypeGeojson then
    if tag = asPredexpGeojsonWithin ∨ tag = asPredexpGeojsonContains then
      geojson.map fun region => .ofBool (ops.geojsonMatch lv region)
    else none
  else none

/-- The value `eval_rec_digest_modulo` computes: the last four bytes of the
digest, read in host (little endian) order, modulo the `int32_t` modulus
converted to `uint32_t`. -/
def digestModulo (keyd : List UInt8) (mod : Int) : Int :=
  (beValue ((keyd.drop 16).take 4).reverse % (mod % 2 ^ 32).toNat : ℕ)

/-- Whether an iteration tag is an OR (starting `FALSE`) or an AND (starting
`TRUE`); `none` for the `cf_crash` on another tag. -/
def iterIsOr (tag : ℕ) : Option Bool :=
  if tag = asPredexpListIterateOr ∨ tag = asPredexpMapkeyIterateOr ∨
      tag = asPredexpMapvalIterateOr then some true
  else if tag = asPredexpListIterateAnd ∨ tag = asPredexpMapkeyIterateAnd ∨
      tag = asPredexpMapvalIterateAnd then some false
  else none

/-- The elements an iterator binds its variable to: a list's elements, a map's
keys or its values. -/
def iterElements (tag : ℕ) (coll : V) : List (Option V) :=
  if tag = asPredexpListIterateOr ∨ tag = asPredexpListIterateAnd then ops.listElements coll
  else if tag = asPredexpMapkeyIterateOr ∨ tag = asPredexpMapkeyIterateAnd then
    (ops.mapPairs coll).map Prod.fst
  else (ops.mapPairs coll).map Prod.snd

/-- The iteration variable's bin after each element is loaded into it: an
element of no particle type leaves the previous element's value (the empty bin
before the first). -/
def iterBins : Option V → List (Option V) → List (Option V)
  | _, [] => []
  | bin, e :: es => e.or bin :: iterBins (e.or bin) es

/-- The loop of an iterator over its elements, and the shape of `eval_and`
and `eval_or`: stop at the first `FALSE` (at the first `TRUE` for an OR),
remember an `UNKNOWN`, `cf_crash` on anything else. -/
def scanLoop {α : Type} (isOr : Bool) (body : α → Option (PredexpRetval V)) :
    List α → PredexpRetval V → Option (PredexpRetval V)
  | [], ret => some ret
  | x :: xs, ret =>
    match body x with
    | some .true => if isOr then some .true else scanLoop isOr body xs ret
    | some .false => if isOr then scanLoop isOr body xs ret else some .false
    | some .unknown => scanLoop isOr body xs .unknown
    | _ => none

mutual

/-- The `eval_fn` of a node: its result, or `none` for a `cf_crash`. `wbin`
says whether a value slot (`wbinp`) is passed: matching nodes are evaluated
without one, value nodes with one. -/
def eval (args : PredexpArgs V) : Predexp V G R → Bool → Option (PredexpRetval V)
  | .and children, _ => evalChildren args false children .true
  | .or children, _ => evalChildren args true children .false
  | .not child, _ =>
    match eval args child false with
    | some .false => some .true
    | some .unknown => some .unknown
    | some .true => some .false
    | _ => none
  | .compare tag type geojson regex lchild rchild, _ =>
    match eval args lchild true with
    | some .novalue => some (missingValue args)
    | some (.value lv) =>
      match eval args rchild true with
      | some .novalue => some (missingValue args)
      | some (.value rv) => compareValues ops tag type geojson regex lv rv
      | _ => none
    | _ => none
  | .value _ bin, wbin => if wbin then some (.value bin) else none
  | .bin type bname, wbin =>
    if !wbin then none
    else
      match args.rd with
      | none => some .novalue
      | some bins => typedValue ops type (bins bname)
  | .var type vname, wbin =>
    if !wbin then none else typedValue ops type ((args.vl.lookup vname).bind id)
  | .recDeviceSize, wbin =>
    if !wbin then none else some (.value (ops.integerSet (args.md.nRblocks * 128)))
  | .recLastUpdate, wbin =>
    if !wbin then none
    else some (.value (ops.integerSet (ops.utcNsFromClepochMs args.md.lastUpdateTime)))
  | .recVoidTime, wbin =>
    if !wbin then none
    else
      some (.value (ops.integerSet
        (if args.md.voidTime = 0 then 0 else ops.utcNsFromClepochSec args.md.voidTime)))
  | .recDigestModulo mod, wbin =>
    if !wbin then none else some (.value (ops.integerSet (digestModulo args.md.keyd mod)))
  | .iter tag _ vname lchild rchild, _ =>
    match iterIsOr tag with
    | none => none
    | some isOr =>
      match eval args rchild true with
      | some .novalue => some (missingValue args)
      | some (.value coll) =>
        scanLoop isOr (fun bin => eval { args with vl := (vname, bin) :: args.vl } lchild false)
          (iterBins none (iterElements ops tag coll)) (if isOr then .false else .true)
      | _ => none

/-- The loop of `eval_and` (`isOr = false`) and `eval_or` over the children. -/
def evalChildren (args : PredexpArgs V) (isOr : Bool) :
    List (Predexp V G R) → PredexpRetval V → Option (PredexpRetval V)
  | [], ret => some ret
  | child :: children, ret =>
    match eval args child false with
    | some .true => if isOr then some .true else evalChildren args isOr children ret
    | some .false => if isOr then evalChildren args isOr children ret else some .false
    | some .unknown => evalChildren args isOr children .unknown
    | _ => none

end

/-- `predexp_matches_metadata`: whether the record may match, `none` for a
`cf_crash`; no expression matches everything. -/
def predexpMatchesMetadata (bp : Option (Predexp V G R)) (args : PredexpArgs V) : Option Bool :=
  match bp with
  | none => some true
  | some bp => (eval ops args bp false).map fun r => !r.isFalse

/-- `predexp_matches_record`: whether the record matches, `none` for the
`cf_crash` on a result other than `TRUE` or `FALSE`. -/
def predexpMatchesRecord (bp : Option (Predexp V G R)) (args : PredexpArgs V) : Option Bool :=
  match bp with
  | none => some true
  | some bp =>
    match eval ops args bp false with
    | some .true => some true
    | some .false => some false
    | _ => none

end Eval

end Aerospike.Predicate
