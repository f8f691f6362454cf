import Mathlib.Data.List.Sort
import Taquito.Host.BigNumber
import Taquito.Js.Json
import Taquito.Js.Numbers
import Taquito.Micheline.Expr
import Taquito.Utils.Validators

/-!
# Values of the Michelson encoder

The JavaScript values that the tokens decode Micheline into (`Val`), the expressions that they
encode them into (`Encoded`), and `MichelsonMap`, which files its entries under the text of their
keys.
-/

open Js

namespace MichelsonEncoder

/-- The libraries and the parts of the language that are left to the implementation. -/
structure Host where
  /-- Base58check. -/
  b58 : Base58Check
  /-- Texts of numbers with a fractional part. -/
  lib : BigNumberLib
  /-- `new BigNumber(text)`. -/
  number : JSString → BigNumber
  /-- `Number(text)`, of a text that is no decimal integer. -/
  double : JSString → BigNumber
  /-- `Date.parse`, of a text that the language does not define. -/
  date : JSString → Option ℤ

/-- A decimal text is the number that it denotes. -/
def Host.Lawful (host : Host) : Prop :=
  ∀ {s : JSString} {z : ℤ}, decimalValue s = some z → host.number s = .finite z

/-- A host that reads decimal integers only. -/
def Host.decimal : Host where
  b58 := .hex
  lib := .decimal
  number := BigNumberLib.decimal.parse
  double _ := .nan
  date _ := none

theorem Host.lawful_decimal : Host.decimal.Lawful :=
  fun h => BigNumberLib.lawful_decimal.parse_decimal h

/-- What the tokens and schemas throw. -/
inductive EncoderError where
  | TypeError
  | RangeError
  /-- `TokenValidationError`, of the class with this name. -/
  | TokenValidationError (name : String)
  | TokenArgumentValidationError
  | TokenComparisonError
  | OrTokenDecodingError
  | MapTypecheckError
  | InvalidTokenError
  | StorageEncodingError
  deriving DecidableEq, Repr

/-! ## Values -/

/-- A value. A number stands for what it is written as, which is an integer (`number`) or not
(`double`). The fields of an object stand in the order in which they were assigned, and the entries
of a `MichelsonMap` with the text of their key. -/
inductive Val where
  | undefined
  | null
  | bool (b : Bool)
  | number (z : ℤ)
  | double (n : BigNumber)
  | string (s : JSString)
  | bigNumber (n : BigNumber)
  | uint8Array (bytes : Bytes)
  /-- `UnitValue`, a symbol. -/
  | unit
  | array (items : List Val)
  | object (fields : List (JSString × Val))
  | map (entries : List (Option JSString × Val × Val))

/-- The fields of an object. -/
abbrev Fields := List (JSString × Val)

/-- `x[label] = value`. -/
def setField (label : JSString) (value : Val) : Fields → Fields
  | [] => [(label, value)]
  | (k, v) :: fields => if k = label then (k, value) :: fields else (k, v) :: setField label value fields

/-- `{ ...left, ...right }`. -/
def spread (left right : Fields) : Fields := right.foldl (fun o f => setField f.1 f.2 o) left

/-- The value of a field. -/
def lookup (label : JSString) (fields : Fields) : Option Val :=
  (fields.find? fun f => f.1 = label).map Prod.snd

/-- `...x`. -/
def Val.fields : Val → Fields
  | .object fields => fields
  | _ => []

/-- A key of an object that is an array index. -/
def arrayIndex (k : JSString) : Option ℕ :=
  match decimalValue k with
  | some (.ofNat n) => if natText n = k ∧ n < 4294967295 then some n else none
  | _ => none

/-- `Object.keys(x)`: the array indices in order, and then the other keys as they were assigned. -/
def objectKeys (fields : Fields) : List JSString :=
  let keys := fields.map Prod.fst
  (keys.filter fun k => (arrayIndex k).isSome).mergeSort
      (fun a b => (arrayIndex a).getD 0 ≤ (arrayIndex b).getD 0) ++
    keys.filter fun k => (arrayIndex k).isNone

/-- `x[label]`, without what is inherited. -/
def Val.get (label : JSString) : Val → Except EncoderError Val
  | .undefined | .null => .error .TypeError
  | .object fields => .ok ((lookup label fields).getD .undefined)
  | .array items => .ok ((arrayIndex label).bind (items[·]?) |>.getD .undefined)
  | .uint8Array bytes =>
    .ok ((arrayIndex label).bind (bytes[·]?) |>.map (fun b => .number b.toNat) |>.getD .undefined)
  | .string s => .ok ((arrayIndex label).bind (s[·]?) |>.map (fun c => .string [c]) |>.getD .undefined)
  | _ => .ok .undefined

/-- `!!x`. -/
def Val.truthy : Val → Bool
  | .undefined | .null => false
  | .bool b => b
  | .number z => z ≠ 0
  | .double .nan => false
  | .string s => !s.isEmpty
  | _ => true

/-! ### Texts -/

mutual

/-- What `fast-json-stable-stringify` writes: no value for `undefined` and symbols, the text of a
big number, and the fields of an object sorted. A decimal fraction, which is no key of any type,
has none here. -/
def Val.toJson (host : Host) : Val → Option Json
  | .undefined => none
  | .null => some .null
  | .bool b => some (.bool b)
  | .number z => some (.number z)
  | .double (.finite _) => none
  | .double _ => some .null
  | .string s => some (.string s)
  | .bigNumber n => some (.string (n.text host.lib))
  | .uint8Array bytes => some (.object
    ((bytes.mapIdx fun i b => (natText i, Json.number b.toNat)).mergeSort fun a b => a.1 ≤ b.1))
  | .unit => none
  | .array items => some (.array (itemsJson host items))
  | .object fields => some (.object ((fieldsJson host fields).mergeSort fun a b => a.1 ≤ b.1))
  | .map _ => none

/-- The members of an array. -/
def itemsJson (host : Host) : List Val → List Json
  | [] => []
  | v :: vs => (v.toJson host).getD .null :: itemsJson host vs

/-- The members of an object that have a value. -/
def fieldsJson (host : Host) : Fields → List (JSString × Json)
  | [] => []
  | (k, v) :: fields =>
    match v.toJson host with
    | some j => (k, j) :: fieldsJson host fields
    | none => fieldsJson host fields

end

/-- `serializeDeterministically`. -/
def Val.serialize (host : Host) (v : Val) : Option JSString := (v.toJson host).map Json.text

/-- Keys that are written alike have the same JSON value. -/
theorem toJson_eq_of_serialize_eq {host : Host} {v w : Val} (h : v.serialize host = w.serialize host) :
    v.toJson host = w.toJson host := by
  unfold Val.serialize at h
  cases hv : v.toJson host with
  | none =>
    rw [hv, Option.map_none] at h
    exact (Option.map_eq_none_iff.mp h.symm).symm
  | some x =>
    rw [hv, Option.map_some] at h
    obtain ⟨y, hy, hxy⟩ := Option.map_eq_some_iff.mp h.symm
    rw [hy, Json.text_injective hxy]

/-- The texts of the members of an array, with commas. -/
def joinCommas (texts : List JSString) : JSString := (texts.intersperse (js ",")).flatten

mutual

/-- `String(x)`. -/
def Val.text (host : Host) : Val → JSString
  | .undefined => js "undefined"
  | .null => js "null"
  | .bool b => js (if b then "true" else "false")
  | .number z => BigNumber.text host.lib (.finite z)
  | .double n => n.text host.lib
  | .string s => s
  | .bigNumber n => n.text host.lib
  | .uint8Array bytes => joinCommas (bytes.map fun b => natText b.toNat)
  | .unit => js "Symbol()"
  | .array items => joinCommas (itemTexts host items)
  | .object _ | .map _ => js "[object Object]"

/-- The texts of members, of which `undefined` and `null` are empty. -/
def itemTexts (host : Host) : List Val → List JSString
  | [] => []
  | .undefined :: vs | .null :: vs => [] :: itemTexts host vs
  | v :: vs => v.text host :: itemTexts host vs

end

/-! ## Fields -/

@[simp] theorem lookup_setField_self (label : JSString) (value : Val) (fields : Fields) :
    lookup label (setField label value fields) = some value := by
  induction fields with
  | nil => simp [setField, lookup]
  | cons f fields ih =>
    obtain ⟨k, v⟩ := f
    by_cases hk : k = label
    · simp [setField, lookup, hk]
    · have : lookup label ((k, v) :: setField label value fields) =
          lookup label (setField label value fields) := by simp [lookup, hk]
      rw [setField, if_neg hk, this, ih]

theorem lookup_of_mem {label : JSString} {value : Val} {fields : Fields}
    (hnd : (fields.map Prod.fst).Nodup) (h : (label, value) ∈ fields) :
    lookup label fields = some value := by
  induction fields with
  | nil => cases h
  | cons f fields ih =>
    obtain ⟨k, v⟩ := f
    rw [List.map_cons, List.nodup_cons] at hnd
    obtain heq | hmem := List.mem_cons.mp h
    · obtain ⟨rfl, rfl⟩ := Prod.mk.inj heq
      simp [lookup]
    · have hne : k ≠ label := by
        rintro rfl
        exact hnd.1 (List.mem_map.mpr ⟨_, hmem, rfl⟩)
      rw [← ih hnd.2 hmem]
      simp [lookup, hne]

theorem lookup_setField_ne {label k : JSString} (hk : k ≠ label) (value : Val) (fields : Fields) :
    lookup k (setField label value fields) = lookup k fields := by
  induction fields with
  | nil => simp [setField, lookup, hk.symm]
  | cons f fields ih =>
    obtain ⟨k', v⟩ := f
    by_cases hk' : k' = label
    · have hne : k' ≠ k := fun h => hk (h.symm.trans hk')
      simp [setField, lookup, hk', hk.symm]
    · rw [setField, if_neg hk']
      by_cases hkk : k' = k
      · simp [lookup, hkk]
      · simpa [lookup, hkk] using ih

/-- Assigning a new label adds it at the end. -/
theorem setField_of_notMem {label : JSString} {fields : Fields}
    (h : label ∉ fields.map Prod.fst) (value : Val) :
    setField label value fields = fields ++ [(label, value)] := by
  induction fields with
  | nil => rfl
  | cons f fields ih =>
    obtain ⟨k, v⟩ := f
    rw [List.map_cons, List.mem_cons, not_or] at h
    rw [setField, if_neg (Ne.symm h.1), ih h.2, List.cons_append]

theorem mem_keys_setField {k label : JSString} {value : Val} {fields : Fields} :
    k ∈ (setField label value fields).map Prod.fst ↔ k = label ∨ k ∈ fields.map Prod.fst := by
  induction fields with
  | nil => simp [setField]
  | cons f fields ih =>
    obtain ⟨k', v⟩ := f
    by_cases hk : k' = label
    · simp [setField, hk]
    · rw [setField, if_neg hk, List.map_cons, List.mem_cons, ih, List.map_cons, List.mem_cons]
      tauto

theorem nodup_keys_setField {fields : Fields} (h : (fields.map Prod.fst).Nodup) (label : JSString)
    (value : Val) : ((setField label value fields).map Prod.fst).Nodup := by
  induction fields with
  | nil => simp [setField]
  | cons f fields ih =>
    obtain ⟨k', v⟩ := f
    rw [List.map_cons, List.nodup_cons] at h
    by_cases hk : k' = label
    · rw [setField, if_pos hk]
      exact List.nodup_cons.mpr h
    · rw [setField, if_neg hk, List.map_cons, List.nodup_cons, mem_keys_setField]
      exact ⟨fun hmem => hmem.elim hk h.1, ih h.2⟩

theorem mem_keys_spread {k : JSString} {left right : Fields} :
    k ∈ (spread left right).map Prod.fst ↔ k ∈ left.map Prod.fst ∨ k ∈ right.map Prod.fst := by
  induction right generalizing left with
  | nil => simp [spread]
  | cons f right ih =>
    have hstep : spread left (f :: right) = spread (setField f.1 f.2 left) right := rfl
    rw [hstep, ih, mem_keys_setField, List.map_cons, List.mem_cons]
    tauto

theorem nodup_keys_spread {left : Fields} (h : (left.map Prod.fst).Nodup) (right : Fields) :
    ((spread left right).map Prod.fst).Nodup := by
  induction right generalizing left with
  | nil => exact h
  | cons f right ih => exact ih (nodup_keys_setField h f.1 f.2)

theorem length_setField_le (label : JSString) (value : Val) (fields : Fields) :
    (setField label value fields).length ≤ fields.length + 1 := by
  induction fields with
  | nil => simp [setField]
  | cons f fields ih =>
    obtain ⟨k', v⟩ := f
    by_cases hk : k' = label
    · simp [setField, hk]
    · rw [setField, if_neg hk, List.length_cons, List.length_cons]
      omega

theorem length_spread_le (left right : Fields) :
    (spread left right).length ≤ left.length + right.length := by
  induction right generalizing left with
  | nil => exact le_rfl
  | cons f right ih =>
    have h := length_setField_le f.1 f.2 left
    have hstep : spread left (f :: right) = spread (setField f.1 f.2 left) right := rfl
    rw [hstep, List.length_cons]
    exact (ih _).trans (by omega)

@[simp] theorem mem_objectKeys {k : JSString} {fields : Fields} :
    k ∈ objectKeys fields ↔ k ∈ fields.map Prod.fst := by
  by_cases h : (arrayIndex k).isSome
  · have hn : (arrayIndex k).isNone = false := by rw [Option.isNone_eq_false_iff, h]
    simp [objectKeys, h, hn]
  · have hn : (arrayIndex k).isNone = true := by
      rwa [Bool.not_eq_true, Option.isSome_eq_false_iff] at h
    simp [objectKeys, h, hn]

@[simp] theorem length_objectKeys (fields : Fields) : (objectKeys fields).length = fields.length := by
  have h := (fields.map Prod.fst).length_eq_length_filter_add fun k => (arrayIndex k).isSome
  simp only [objectKeys, List.length_append, List.length_mergeSort]
  rw [← @List.length_map _ _ fields Prod.fst, h]
  simp only [Option.not_isSome]

/-- Objects without a label in common are put behind one another. -/
theorem spread_of_disjoint {left right : Fields}
    (h : (left ++ right).map Prod.fst |>.Nodup) : spread left right = left ++ right := by
  induction right generalizing left with
  | nil => simp [spread]
  | cons f right ih =>
    have hf : f.1 ∉ left.map Prod.fst := by
      rw [List.map_append, List.map_cons] at h
      intro hmem
      exact (List.nodup_append.mp h).2.2 _ hmem _ List.mem_cons_self rfl
    have hstep : spread left (f :: right) = spread (left ++ [f]) right := by
      rw [spread, List.foldl_cons, setField_of_notMem hf]
      rfl
    rw [hstep, ih (by simpa using h)]
    simp

/-! ## Expressions -/

/-- What the tokens encode into: Micheline, with `null` where no branch matched and whatever was
given for a text. -/
inductive Encoded where
  | null
  | int (text : JSString)
  | string (v : Val)
  | bytes (v : Val)
  | seq (items : List Encoded)
  | prim (prim : String) (args : Option (List Encoded))

mutual

/-- An expression, without annotations. -/
def Encoded.ofExpr : Expr → Encoded
  | .int text => .int text
  | .string text => .string (.string text)
  | .bytes hex => .bytes (.string hex)
  | .seq items => .seq (ofExprs items)
  | .prim p none _ => .prim p none
  | .prim p (some args) _ => .prim p (some (ofExprs args))

/-- `ofExpr` of every member. -/
def ofExprs : List Expr → List Encoded
  | [] => []
  | e :: es => Encoded.ofExpr e :: ofExprs es

end

theorem ofExprs_eq_map (es : List Expr) : ofExprs es = es.map Encoded.ofExpr := by
  induction es with
  | nil => rfl
  | cons e es ih => rw [ofExprs, ih, List.map_cons]

mutual

/-- `JSON.stringify`, before it is written. -/
def Encoded.toJson (host : Host) : Encoded → Json
  | .null => .null
  | .int text => .object [(js "int", .string text)]
  | .string v => .object ((v.toJson host).toList.map fun j => (js "string", j))
  | .bytes v => .object ((v.toJson host).toList.map fun j => (js "bytes", j))
  | .seq items => .array (toJsons host items)
  | .prim p none => .object [(js "prim", .string (js p))]
  | .prim p (some args) =>
    .object [(js "prim", .string (js p)), (js "args", .array (toJsons host args))]

/-- `toJson` of every member. -/
def toJsons (host : Host) : List Encoded → List Json
  | [] => []
  | e :: es => e.toJson host :: toJsons host es

end

end MichelsonEncoder
