import Taquito.MichelCodec.GlobalConstants
import Taquito.MichelsonEncoder.Constants
import Taquito.Wallet.Receipt

/-!
# Originations

`prepareCodeOrigination` encodes a storage value that is truthy: it asks a provider for the global
constants that it finds in the storage type, and substitutes them once. What is falsy is left to
`createOriginationOperation`, which encodes with the type as it stands. So a falsy value of a
constant is refused, and so is every value of a constant in the value of a constant
(`prepared_iff`).
-/

open Js MichelCodec MichelsonEncoder

namespace Operations

/-- What is thrown before an origination is built. -/
inductive OriginationError where
  | InvalidCodeParameter
  | InvalidInitParameter
  | OriginationParameterError
  | IntegerError
  | TypeError
  | parse (e : ParseError)
  | parseJSON (e : JSONParseError)
  | encoder (e : EncoderError)
  /-- An error of the provider of global constants. -/
  | provider (message : JSString)

/-- `code`. -/
inductive Code where
  | text (src : JSString)
  | json (items : List Expr)

/-- `init`, also as `Schema.Encode` gives it. -/
inductive Init where
  | text (src : JSString)
  | json (e : Expr)
  | encoded (e : Encoded)

/-- `OriginateParams`. The values that are only copied are texts. -/
structure OriginateParams where
  code : Code
  init : Option Init := none
  storage : Val := .undefined
  balance : Wallet.Amount := .text (js "0")
  delegate : Option JSString := none
  fee : JSString := js "10000"
  gasLimit : JSString := js "10600"
  storageLimit : JSString := js "257"
  mutez : Bool := false

/-- `RPCOriginationOperation`. -/
structure RPCOriginationOperation where
  fee : JSString
  gas_limit : JSString
  storage_limit : JSString
  balance : JSString
  code : List Expr
  storage : Init
  delegate : Option JSString

/-! ## Preparing the code -/

section Preparation

variable (host : MichelsonEncoder.Host)
  (others : String → Option (List Expr) → Option (ℕ → MichelsonEncoder.Token))
-- The protocol of the next block, and `getGlobalConstantByHash` of the provider.
variable (proto : Protocol) (provider : JSString → Except OriginationError Expr)

/-- The options of the parser of a context. -/
def contextOptions : ParserOptions := ⟨none, none, some proto⟩

/-- `order.indexOf(a.prim)`. -/
def sectionOrder : Expr → ℤ
  | .prim "parameter" _ _ => 0
  | .prim "storage" _ _ => 1
  | .prim "code" _ _ => 2
  | _ => -1

/-- `formatCodeParam`. -/
def formatCodeParam : Code → Except OriginationError (List Expr)
  | .text src =>
    match EntryPoint.parseSequence.run (contextOptions proto) src with
    | .error e => .error (.parse e)
    | .ok (some (.seq c)) => .ok c
    | .ok _ => .error .InvalidCodeParameter
  | .json items =>
    match parseJSONs (contextOptions proto) items with
    | .error e => .error (.parseJSON e)
    | .ok c => .ok (c.mergeSort fun a b => sectionOrder a ≤ sectionOrder b)

/-- `formatInitParam`. -/
def formatInitParam : Init → Except OriginationError Init
  | .text src =>
    match EntryPoint.parseMichelineExpression.run (contextOptions proto) src with
    | .error e => .error (.parse e)
    | .ok (some e) => .ok (.json e)
    | .ok none => .error .InvalidInitParameter
  | .json e =>
    match parseJSON (contextOptions proto) e with
    | .error e => .error (.parseJSON e)
    | .ok e => .ok (.json e)
  | .encoded e => .ok (.encoded e)

/-- A section with the storage type. -/
def isStorage : Expr → Bool
  | .prim p _ _ => p = "storage"
  | _ => false

/-- The storage type of a script. -/
def storageType (code : List Expr) : Except OriginationError Expr :=
  match code.find? isStorage with
  | some (.prim _ (some (type :: _)) _) => .ok type
  | some (.prim _ (some []) _) => .error .TypeError
  | _ => .error .InvalidCodeParameter

/-- `findGlobalConstantsHashAndValue`, for the tokens that were found. -/
def findGlobalConstantsHashAndValue :
    List (Option (List Expr)) → Except OriginationError (List (JSString × Expr))
  | [] => .ok []
  | tokenArgs :: tokens => do
    match tokenArgs with
    | none => findGlobalConstantsHashAndValue tokens
    | some [] => .error .TypeError
    | some (.string hash :: _) =>
      if hash.isEmpty then findGlobalConstantsHashAndValue tokens
      else
        let michelineValue ← provider hash
        return (hash, michelineValue) :: (← findGlobalConstantsHashAndValue tokens)
    | some (_ :: _) => findGlobalConstantsHashAndValue tokens

/-- The value of a hash in what `findGlobalConstantsHashAndValue` found: a hash has the same value
whenever it is asked for. -/
def valueOf (found : List (JSString × Expr)) (hash : JSString) : Option Expr :=
  (found.find? fun entry => entry.1 = hash).map Prod.snd

/-- `schema.findToken('constant')`. -/
def findConstants (type : Expr) : Except OriginationError (List (Option (List Expr))) :=
  match createToken (withConstants others) type with
  | none => .error (.encoder .InvalidTokenError)
  | some _ => .ok (constantTokens type)

/-- `new Schema(type).Encode(value)`. -/
def encodeStorage (type : Expr) (value : Val) : Except OriginationError Encoded :=
  (Schema.Encode (withConstants others) host type value).mapError .encoder

/-- `if (params.init)`. -/
def Init.truthy : Init → Bool
  | .text src => !src.isEmpty
  | .encoded .null => false
  | _ => true

/-- `prepareCodeOrigination`. -/
def prepareCodeOrigination (params : OriginateParams) :
    Except OriginationError OriginateParams := do
  let code ← formatCodeParam proto params.code
  let parsedParams := { params with code := .json code }
  match params.init.filter Init.truthy with
  | some init => return { parsedParams with init := some (← formatInitParam proto init) }
  | none =>
    if params.storage.truthy then
      let type ← storageType code
      let globalconstantsHashAndValue ←
        findGlobalConstantsHashAndValue provider (← findConstants others type)
      if globalconstantsHashAndValue.isEmpty then
        let init ← encodeStorage host others type params.storage
        return { parsedParams with init := some (.encoded init), storage := .undefined }
      else
        match MichelCodec.parseJSON
          ⟨none, some (valueOf globalconstantsHashAndValue), none⟩ type with
        | .error e => .error (.parseJSON e)
        | .ok storageTypeNoGlobalConst =>
          let init ← encodeStorage host others storageTypeNoGlobalConst params.storage
          return { parsedParams with init := some (.encoded init), storage := .undefined }
    else return parsedParams

/-! ## The operation -/

/-- `Number(balance)`. -/
def numberOfAmount : Wallet.Amount → BigNumber
  | .number x => x
  | .text s => BaseType.toNumber host (.string s)
  | .bigNumber x => BaseType.toNumber host (.bigNumber x)

/-- `balance.toString()`. -/
def amountText : Wallet.Amount → JSString
  | .number x | .bigNumber x => x.text host.lib
  | .text s => s

-- The settings of the arithmetic when the operation is created.
variable (settings : Settings)

/-- `createOriginationOperation`. -/
def createOriginationOperation (params : OriginateParams) :
    Except OriginationError RPCOriginationOperation := do
  if !params.storage.isUndefined && params.init.isSome then .error .OriginationParameterError
  else
    match params.code with
    | .text _ => .error .InvalidCodeParameter
    | .json code =>
      let contractStorage ←
        if !params.storage.isUndefined then
          Init.encoded <$> encodeStorage host others (← storageType code) params.storage
        else
          match params.init with
          | none | some (.text _) => .error .InvalidInitParameter
          | some init => .ok init
      if (numberOfAmount host params.balance).isNaN then .error .IntegerError
      else
        return {
          fee := params.fee
          gas_limit := params.gasLimit
          storage_limit := params.storageLimit
          balance := amountText host (if params.mutez then params.balance
            else ((Wallet.format host.lib .tz .mutez params.balance).run settings).1)
          code := code
          storage := contractStorage
          delegate := params.delegate.filter fun delegate => !delegate.isEmpty }

/-- `createOriginationOperation`, of what `prepareCodeOrigination` gives. -/
def originate (params : OriginateParams) : Except OriginationError RPCOriginationOperation := do
  createOriginationOperation host others settings
    (← prepareCodeOrigination host others proto provider params)

end Preparation

/-! ## Types with constants -/

/-- The classes whose components are encoded for a storage. -/
def dataTypes : List String := ["pair", "or", "option", "list", "set", "map", "big_map"]

/-- A node that is no constant. -/
def IsConstantFree : Expr → Prop
  | .prim p _ _ => p ≠ "constant"
  | _ => True

variable {provider : JSString → Except OriginationError Expr}

/-- A type with constants in the place of parts that hold data, and the type that it stands for. The
provider knows the values, which may refer to constants again. -/
inductive Expands (provider : JSString → Except OriginationError Expr) : Expr → Expr → Prop where
  | same {e : Expr} (hfree : e.Everywhere IsConstantFree)
    (hstable : e.Everywhere (IsStable DefaultProtocol)) : Expands provider e e
  | seq {items items' : List Expr} (h : List.Forall₂ (Expands provider) items items') :
    Expands provider (.seq items) (.seq items')
  | data {p : String} {args args' : List Expr} {annots : Option (List JSString)}
    (hp : p ∈ dataTypes) (h : List.Forall₂ (Expands provider) args args') :
    Expands provider (.prim p (some args) annots) (.prim p (some args') annots)
  | constant {hash : JSString} {value full : Expr} {annots : Option (List JSString)}
    (hhash : hash ≠ []) (hvalue : provider hash = .ok value) (h : Expands provider value full) :
    Expands provider (.prim "constant" (some [.string hash]) annots) full

/-- The value of a node that is a constant. -/
def valueIn (provider : JSString → Except OriginationError Expr) (p : String) :
    List Expr → Option Expr
  | [.string hash] => if p = "constant" then (provider hash).toOption else none
  | _ => none

mutual

/-- A type with the values of its constants in their places, once. -/
def putIn (provider : JSString → Except OriginationError Expr) : Expr → Expr
  | .prim p (some args) annots =>
    (valueIn provider p args).getD (.prim p (some (putInAll provider args)) annots)
  | .seq items => .seq (putInAll provider items)
  | e => e

/-- The same, of the components. -/
def putInAll (provider : JSString → Except OriginationError Expr) : List Expr → List Expr
  | [] => []
  | e :: es => putIn provider e :: putInAll provider es

end

theorem putInAll_eq_map (es : List Expr) : putInAll provider es = es.map (putIn provider) := by
  induction es with
  | nil => rfl
  | cons e es ih => rw [putInAll, ih, List.map_cons]

theorem constantTokensOf_eq_flatMap (es : List Expr) :
    constantTokensOf es = es.flatMap constantTokens := by
  induction es with
  | nil => rfl
  | cons e es ih => rw [constantTokensOf, ih, List.flatMap_cons]

theorem ne_constant_of_dataTypes {p : String} (hp : p ∈ dataTypes) : p ≠ "constant" := by
  rintro rfl
  exact absurd hp (by decide)

theorem constantTokens_data {p : String} (hp : p ∈ dataTypes) (args : List Expr)
    (annots : Option (List JSString)) :
    constantTokens (.prim p (some args) annots) = args.flatMap constantTokens := by
  have hsearched : p ∈ searchedTypes := by
    have hall : dataTypes.all (searchedTypes.contains ·) = true := by decide
    exact List.contains_iff_mem.mp (List.all_eq_true.mp hall p hp)
  rw [constantTokens, if_neg (ne_constant_of_dataTypes hp), if_pos hsearched,
    constantTokensOf_eq_flatMap]

theorem putIn_data {p : String} (hp : p ∈ dataTypes) (args : List Expr)
    (annots : Option (List JSString)) :
    putIn provider (.prim p (some args) annots) =
      .prim p (some (args.map (putIn provider))) annots := by
  have hvalue : valueIn provider p args = none := by
    unfold valueIn
    split
    · exact if_neg (ne_constant_of_dataTypes hp)
    · rfl
  rw [putIn, hvalue, Option.getD_none, putInAll_eq_map]

/-- A type without constants has no tokens for them. -/
theorem constantTokens_of_free {e : Expr} (h : e.Everywhere IsConstantFree) :
    constantTokens e = [] := by
  have hall : ∀ es : List Expr, (∀ a ∈ es, constantTokens a = []) → constantTokensOf es = [] := by
    intro es hes
    rw [constantTokensOf_eq_flatMap]
    exact List.flatMap_eq_nil_iff.mpr hes
  induction e with
  | seq items ih =>
    obtain ⟨-, below⟩ := Expr.everywhere_iff.mp h
    exact hall items fun a ha => ih a ha (below a ha)
  | prim p args annots ih =>
    obtain ⟨here, below⟩ := Expr.everywhere_iff.mp h
    have here : p ≠ "constant" := here
    cases args with
    | none => rw [constantTokens, if_neg here]
    | some args =>
      rw [constantTokens, if_neg here, hall args fun a ha => ih a ha (below a ha), ite_self]
  | _ => rfl

theorem putIn_of_free {e : Expr} (h : e.Everywhere IsConstantFree) : putIn provider e = e := by
  have hall : ∀ es : List Expr, (∀ a ∈ es, putIn provider a = a) → putInAll provider es = es := by
    intro es hes
    rw [putInAll_eq_map, List.map_congr_left hes, List.map_id']
  induction e with
  | seq items ih =>
    obtain ⟨-, below⟩ := Expr.everywhere_iff.mp h
    rw [putIn, hall items fun a ha => ih a ha (below a ha)]
  | prim p args annots ih =>
    obtain ⟨here, below⟩ := Expr.everywhere_iff.mp h
    have here : p ≠ "constant" := here
    cases args with
    | none => rfl
    | some args =>
      have hvalue : valueIn provider p args = none := by
        unfold valueIn
        split
        · exact if_neg here
        · rfl
      rw [putIn, hvalue, Option.getD_none, hall args fun a ha => ih a ha (below a ha)]
  | _ => rfl

/-- A type without constants stands for itself. -/
theorem Expands.eq_of_free {e : Expr} (h : e.Everywhere IsConstantFree) :
    ∀ {full : Expr}, Expands provider e full → e = full := by
  have hall : ∀ {es fulls : List Expr},
      (∀ a ∈ es, ∀ {full : Expr}, Expands provider a full → a = full) →
      List.Forall₂ (Expands provider) es fulls → es = fulls := by
    intro es fulls hes hfulls
    induction hfulls with
    | nil => rfl
    | cons hab _ ih =>
      rw [hes _ List.mem_cons_self hab, ih fun a ha => hes a (List.mem_cons_of_mem _ ha)]
  induction e with
  | seq items ih =>
    intro full hexpands
    obtain ⟨-, below⟩ := Expr.everywhere_iff.mp h
    cases hexpands with
    | same => rfl
    | seq hitems => rw [hall (fun a ha => ih a ha (below a ha)) hitems]
  | prim p args annots ih =>
    intro full hexpands
    obtain ⟨here, below⟩ := Expr.everywhere_iff.mp h
    cases hexpands with
    | same => rfl
    | data hp hargs =>
      exact congrArg (fun es => Expr.prim p (some es) annots)
        (hall (fun a ha => ih a ha (below a ha)) hargs)
    | constant => exact absurd rfl here
  | _ =>
    intro full hexpands
    cases hexpands
    rfl

/-- The constants of a type have values. -/
theorem Expands.exists_value {e : Expr} : ∀ {full : Expr}, Expands provider e full →
    ∀ args ∈ constantTokens e, ∃ hash value,
      args = some [.string hash] ∧ hash ≠ [] ∧ provider hash = .ok value := by
  have hall : ∀ {es fulls : List Expr},
      (∀ a ∈ es, ∀ {full : Expr}, Expands provider a full → ∀ args ∈ constantTokens a,
        ∃ hash value, args = some [.string hash] ∧ hash ≠ [] ∧ provider hash = .ok value) →
      List.Forall₂ (Expands provider) es fulls → ∀ args ∈ es.flatMap constantTokens,
        ∃ hash value, args = some [.string hash] ∧ hash ≠ [] ∧ provider hash = .ok value := by
    intro es fulls hes hfulls args hargs
    obtain ⟨a, ha, hargs⟩ := List.mem_flatMap.mp hargs
    obtain ⟨full, -, hfull⟩ := exists_mem_right hfulls ha
    exact hes a ha hfull args hargs
  have hfree : ∀ {a : Expr}, a.Everywhere IsConstantFree → ∀ args ∈ constantTokens a,
      ∃ hash value, args = some [.string hash] ∧ hash ≠ [] ∧ provider hash = .ok value := by
    intro a ha args hargs
    rw [constantTokens_of_free ha] at hargs
    cases hargs
  induction e with
  | seq items ih =>
    intro full hexpands
    cases hexpands with
    | same hf => exact hfree hf
    | seq hitems =>
      rw [constantTokens, constantTokensOf_eq_flatMap]
      exact hall ih hitems
  | prim p args annots ih =>
    intro full hexpands
    cases hexpands with
    | same hf => exact hfree hf
    | data hp hargs =>
      rw [constantTokens_data hp]
      exact hall ih hargs
    | @constant hash value full annots hhash hvalue h =>
      intro args hargs
      obtain rfl := List.mem_singleton.mp hargs
      exact ⟨hash, value, rfl, hhash, hvalue⟩
  | _ =>
    intro full hexpands args hargs
    cases hargs

/-- The values that are put in stand for the same type. -/
theorem Expands.putIn {e : Expr} : ∀ {full : Expr}, Expands provider e full →
    Expands provider (putIn provider e) full := by
  have hall : ∀ {es fulls : List Expr},
      (∀ a ∈ es, ∀ {full : Expr}, Expands provider a full →
        Expands provider (Operations.putIn provider a) full) →
      List.Forall₂ (Expands provider) es fulls →
        List.Forall₂ (Expands provider) (es.map (Operations.putIn provider)) fulls := by
    intro es fulls hes hfulls
    induction hfulls with
    | nil => exact .nil
    | cons hab _ ih =>
      exact .cons (hes _ List.mem_cons_self hab) (ih fun a ha => hes a (List.mem_cons_of_mem _ ha))
  induction e with
  | seq items ih =>
    intro full hexpands
    cases hexpands with
    | same hf hs =>
      rw [putIn_of_free hf]
      exact .same hf hs
    | seq hitems =>
      rw [Operations.putIn, putInAll_eq_map]
      exact .seq (hall ih hitems)
  | prim p args annots ih =>
    intro full hexpands
    cases hexpands with
    | same hf hs =>
      rw [putIn_of_free hf]
      exact .same hf hs
    | data hp hargs =>
      rw [putIn_data hp]
      exact .data hp (hall ih hargs)
    | @constant hash value full annots hhash hvalue h =>
      have hput : Operations.putIn provider (.prim "constant" (some [.string hash]) annots) =
          value := by
        rw [Operations.putIn, valueIn, if_pos rfl, hvalue]
        rfl
      rw [hput]
      exact h
  | _ =>
    intro full hexpands
    exact hexpands

/-- **No constant is left** if and only if no value that was put in refers to one. -/
theorem Expands.putIn_free_iff {e : Expr} : ∀ {full : Expr}, Expands provider e full →
    ((Operations.putIn provider e).Everywhere IsConstantFree ↔
      ∀ hash value, some [.string hash] ∈ constantTokens e → provider hash = .ok value →
        value.Everywhere IsConstantFree) := by
  have hall : ∀ {es fulls : List Expr},
      (∀ a ∈ es, ∀ {full : Expr}, Expands provider a full →
        ((Operations.putIn provider a).Everywhere IsConstantFree ↔
          ∀ hash value, some [.string hash] ∈ constantTokens a → provider hash = .ok value →
            value.Everywhere IsConstantFree)) →
      List.Forall₂ (Expands provider) es fulls →
        ((∀ a ∈ es.map (Operations.putIn provider), a.Everywhere IsConstantFree) ↔
          ∀ hash value, some [.string hash] ∈ es.flatMap constantTokens →
            provider hash = .ok value → value.Everywhere IsConstantFree) := by
    intro es fulls hes hfulls
    have hiff : ∀ a ∈ es, ((Operations.putIn provider a).Everywhere IsConstantFree ↔
        ∀ hash value, some [.string hash] ∈ constantTokens a → provider hash = .ok value →
          value.Everywhere IsConstantFree) := by
      intro a ha
      obtain ⟨full, -, hfull⟩ := exists_mem_right hfulls ha
      exact hes a ha hfull
    rw [List.forall_mem_map]
    constructor
    · intro h hash value hmem hvalue
      obtain ⟨a, ha, hmem⟩ := List.mem_flatMap.mp hmem
      exact (hiff a ha).mp (h a ha) hash value hmem hvalue
    · intro h a ha
      refine (hiff a ha).mpr fun hash value hmem hvalue => ?_
      exact h hash value (List.mem_flatMap.mpr ⟨a, ha, hmem⟩) hvalue
  have hfree : ∀ {a : Expr}, a.Everywhere IsConstantFree →
      ((Operations.putIn provider a).Everywhere IsConstantFree ↔
        ∀ hash value, some [.string hash] ∈ constantTokens a → provider hash = .ok value →
          value.Everywhere IsConstantFree) := by
    intro a ha
    rw [putIn_of_free ha, constantTokens_of_free ha]
    exact iff_of_true ha fun hash value hmem => absurd hmem List.not_mem_nil
  induction e with
  | seq items ih =>
    intro full hexpands
    cases hexpands with
    | same hf => exact hfree hf
    | seq hitems =>
      rw [Operations.putIn, putInAll_eq_map, constantTokens, constantTokensOf_eq_flatMap,
        Expr.everywhere_iff]
      exact (and_iff_right trivial).trans (hall ih hitems)
  | prim p args annots ih =>
    intro full hexpands
    cases hexpands with
    | same hf => exact hfree hf
    | data hp hargs =>
      rw [putIn_data hp, constantTokens_data hp, Expr.everywhere_iff]
      exact (and_iff_right (ne_constant_of_dataTypes hp)).trans (hall ih hargs)
    | @constant hash value full annots hhash hvalue h =>
      have hput : Operations.putIn provider (.prim "constant" (some [.string hash]) annots) =
          value := by
        rw [Operations.putIn, valueIn, if_pos rfl, hvalue]
        rfl
      rw [hput]
      constructor
      · intro hf hash' value' hmem hvalue'
        obtain rfl := Expr.string.inj
          (List.head_eq_of_cons_eq (Option.some.inj (List.mem_singleton.mp hmem)))
        obtain rfl := Except.ok.inj (hvalue.symm.trans hvalue')
        exact hf
      · intro hf
        exact hf hash value (List.mem_singleton.mpr rfl) hvalue
  | _ =>
    intro full hexpands
    cases hexpands
    next hf _ => exact hfree hf

/-- Where no constant is found there is none. -/
theorem Expands.free_of_constantTokens {e : Expr} : ∀ {full : Expr}, Expands provider e full →
    constantTokens e = [] → e.Everywhere IsConstantFree := by
  have hall : ∀ {es fulls : List Expr},
      (∀ a ∈ es, ∀ {full : Expr}, Expands provider a full → constantTokens a = [] →
        a.Everywhere IsConstantFree) →
      List.Forall₂ (Expands provider) es fulls → es.flatMap constantTokens = [] →
        ∀ a ∈ es, a.Everywhere IsConstantFree := by
    intro es fulls hes hfulls hnil a ha
    obtain ⟨full, -, hfull⟩ := exists_mem_right hfulls ha
    exact hes a ha hfull (List.flatMap_eq_nil_iff.mp hnil a ha)
  induction e with
  | seq items ih =>
    intro full hexpands hnil
    cases hexpands with
    | same hf => exact hf
    | seq hitems =>
      rw [constantTokens, constantTokensOf_eq_flatMap] at hnil
      exact Expr.everywhere_iff.mpr ⟨trivial, hall ih hitems hnil⟩
  | prim p args annots ih =>
    intro full hexpands hnil
    cases hexpands with
    | same hf => exact hf
    | data hp hargs =>
      rw [constantTokens_data hp] at hnil
      exact Expr.everywhere_iff.mpr ⟨ne_constant_of_dataTypes hp, hall ih hargs hnil⟩
    | constant => cases hnil
  | _ =>
    intro full hexpands hnil
    cases hexpands
    next hf _ => exact hf

/-! ## Substitution by the parser -/

theorem isNoMacro_of_dataTypes {proto : Protocol} {p : String} {args : Option (List Expr)}
    {annots : Option (List JSString)} (h : p ∈ dataTypes) : IsNoMacro proto p args annots := by
  simp only [dataTypes, List.mem_cons, List.not_mem_nil, or_false] at h
  rcases h with rfl | rfl | rfl | rfl | rfl | rfl | rfl <;> rfl

section substitution

variable {table : JSString → Option Expr}

/-- What is neither a constant nor a macro is parsed by parsing its arguments. -/
theorem expand_of_isNoMacro {p : String} {args : Option (List Expr)}
    {annots : Option (List JSString)} (hp : p ≠ "constant")
    (h : IsNoMacro DefaultProtocol p args annots) :
    (ParserOptions.mk none (some table) none).expand p args annots = .ok (.prim p args annots) := by
  rw [expand_other rfl hp]
  exact (if_pos rfl).trans (mapError_eq_ok.mpr h)

/-- A type without constants is left as it is. -/
theorem parseJSON_of_free {e : Expr} (hfree : e.Everywhere IsConstantFree)
    (hstable : e.Everywhere (IsStable DefaultProtocol)) :
    MichelCodec.parseJSON ⟨none, some table, none⟩ e = .ok e := by
  induction e with
  | int text =>
    obtain ⟨here, -⟩ := Expr.everywhere_iff.mp hstable
    exact if_pos here
  | string s => rfl
  | bytes hex =>
    obtain ⟨here, -⟩ := Expr.everywhere_iff.mp hstable
    exact if_pos here
  | seq items ih =>
    obtain ⟨-, hfree⟩ := Expr.everywhere_iff.mp hfree
    obtain ⟨-, hstable⟩ := Expr.everywhere_iff.mp hstable
    refine parseJSON_seq_eq_ok.mpr ⟨items, List.forall₂_same.mpr fun a ha => ?_, rfl⟩
    exact ih a ha (hfree a ha) (hstable a ha)
  | prim p args annots ih =>
    obtain ⟨hp, hfree⟩ := Expr.everywhere_iff.mp hfree
    obtain ⟨here, hstable⟩ := Expr.everywhere_iff.mp hstable
    refine parseJSON_prim_eq_ok.mpr ⟨args, rfl, List.forall₂_same.mpr fun a ha => ?_, ?_⟩
    · exact ih a ha (hfree a ha) (hstable a ha)
    · exact expand_of_isNoMacro hp here

/-- **The parser puts in the values** that it is given for all constants of a type. -/
theorem parseJSON_eq_putIn {e : Expr} : ∀ {full : Expr}, Expands provider e full →
    (∀ hash, some [.string hash] ∈ constantTokens e → ∃ value,
      table hash = some value ∧ provider hash = .ok value) →
    MichelCodec.parseJSON ⟨none, some table, none⟩ e = .ok (putIn provider e) := by
  have hall : ∀ {es fulls : List Expr},
      (∀ a ∈ es, ∀ {full : Expr}, Expands provider a full →
        (∀ hash, some [.string hash] ∈ constantTokens a → ∃ value,
          table hash = some value ∧ provider hash = .ok value) →
        MichelCodec.parseJSON ⟨none, some table, none⟩ a = .ok (putIn provider a)) →
      List.Forall₂ (Expands provider) es fulls →
      (∀ hash, some [.string hash] ∈ es.flatMap constantTokens → ∃ value,
        table hash = some value ∧ provider hash = .ok value) →
      List.Forall₂ (fun a b => MichelCodec.parseJSON ⟨none, some table, none⟩ a = .ok b) es
        (es.map (putIn provider)) := by
    intro es fulls hes hfulls htable
    rw [List.forall₂_map_right_iff, List.forall₂_same]
    intro a ha
    obtain ⟨full, -, hfull⟩ := exists_mem_right hfulls ha
    exact hes a ha hfull fun hash hmem => htable hash (List.mem_flatMap.mpr ⟨a, ha, hmem⟩)
  induction e with
  | seq items ih =>
    intro full hexpands htable
    cases hexpands with
    | same hf hs =>
      rw [putIn_of_free hf]
      exact parseJSON_of_free hf hs
    | seq hitems =>
      rw [constantTokens, constantTokensOf_eq_flatMap] at htable
      rw [putIn, putInAll_eq_map]
      exact parseJSON_seq_eq_ok.mpr ⟨_, hall ih hitems htable, rfl⟩
  | prim p args annots ih =>
    intro full hexpands htable
    cases hexpands with
    | same hf hs =>
      rw [putIn_of_free hf]
      exact parseJSON_of_free hf hs
    | @data _ args _ _ hp hargs =>
      rw [constantTokens_data hp] at htable
      rw [putIn_data hp]
      refine parseJSON_prim_eq_ok.mpr
        ⟨some (args.map (putIn provider)), rfl, hall ih hargs htable, ?_⟩
      exact expand_of_isNoMacro (ne_constant_of_dataTypes hp) (isNoMacro_of_dataTypes hp)
    | @constant hash value full annots hhash hvalue h =>
      obtain ⟨value', htable, hvalue'⟩ := htable hash (List.mem_singleton.mpr rfl)
      obtain rfl := Except.ok.inj (hvalue.symm.trans hvalue')
      have hput : putIn provider (.prim "constant" (some [.string hash]) annots) = value := by
        rw [putIn, valueIn, if_pos rfl, hvalue]
        rfl
      rw [hput]
      refine parseJSON_prim_eq_ok.mpr ⟨some [.string hash], rfl, .cons rfl .nil, ?_⟩
      rw [expand_constant rfl, constantValue, htable, Option.getD_some]
  | _ =>
    intro full hexpands htable
    cases hexpands
    next hf hs => exact parseJSON_of_free hf hs

end substitution

theorem valueOf_cons (hash hash' : JSString) (value : Expr) (found : List (JSString × Expr)) :
    valueOf ((hash, value) :: found) hash' =
      if hash = hash' then some value else valueOf found hash' := by
  unfold valueOf
  by_cases h : hash = hash'
  · rw [if_pos h, List.find?_cons, decide_eq_true h]
    rfl
  · rw [if_neg h, List.find?_cons, decide_eq_false h]

/-- The values that are found are those of the provider, one for each constant. -/
theorem findGlobalConstantsHashAndValue_ok {tokens : List (Option (List Expr))}
    (h : ∀ args ∈ tokens, ∃ hash value,
      args = some [.string hash] ∧ hash ≠ [] ∧ provider hash = .ok value) :
    ∃ found, findGlobalConstantsHashAndValue provider tokens = .ok found ∧
      (found = [] ↔ tokens = []) ∧
      ∀ hash, some [.string hash] ∈ tokens → ∃ value,
        valueOf found hash = some value ∧ provider hash = .ok value := by
  induction tokens with
  | nil => exact ⟨[], rfl, iff_of_true rfl rfl, fun hash hmem => absurd hmem List.not_mem_nil⟩
  | cons args tokens ih =>
    obtain ⟨hargs, htokens⟩ := List.forall_mem_cons.mp h
    obtain ⟨hash, value, rfl, hhash, hvalue⟩ := hargs
    obtain ⟨found, hfound, -, hvalues⟩ := ih htokens
    refine ⟨(hash, value) :: found, ?_, iff_of_false (List.cons_ne_nil _ _) (List.cons_ne_nil _ _),
      fun hash' hmem => ?_⟩
    · rw [findGlobalConstantsHashAndValue, if_neg (mt List.isEmpty_iff.mp hhash), hvalue, hfound]
      rfl
    · by_cases heq : hash = hash'
      · subst heq
        exact ⟨value, by rw [valueOf_cons, if_pos rfl], hvalue⟩
      · rcases List.mem_cons.mp hmem with hsame | hmem
        · obtain ⟨hstring, -⟩ := List.cons.inj (Option.some.inj hsame)
          exact absurd (Expr.string.inj hstring).symm heq
        · obtain ⟨value', hvalue', hprovider⟩ := hvalues hash' hmem
          exact ⟨value', by rw [valueOf_cons, if_neg heq, hvalue'], hprovider⟩

/-! ## Tokens of types with constants -/

section tokens

variable {others : String → Option (List Expr) → Option (ℕ → MichelsonEncoder.Token)}

theorem createTokens_isSome_iff (es : List Expr) :
    (createTokens others es).isSome = true ↔ ∀ e ∈ es, (createToken others e).isSome = true := by
  induction es with
  | nil => exact iff_of_true rfl fun e he => absurd he List.not_mem_nil
  | cons e es ih =>
    rw [List.forall_mem_cons, ← ih, createTokens]
    cases createToken others e with
    | none => exact iff_of_false Bool.false_ne_true fun h => Bool.false_ne_true h.1
    | some t =>
      cases createTokens others es with
      | none => exact iff_of_false Bool.false_ne_true fun h => Bool.false_ne_true h.2
      | some ts => exact iff_of_true rfl ⟨rfl, rfl⟩

theorem createTokens_length {es : List Expr} : ∀ {ts : List MType},
    createTokens others es = some ts → ts.length = es.length := by
  induction es with
  | nil =>
    intro ts h
    cases h
    rfl
  | cons e es ih =>
    intro ts h
    rw [createTokens] at h
    obtain ⟨t, -, h⟩ := Option.bind_eq_some_iff.mp h
    obtain ⟨us, hus, h⟩ := Option.bind_eq_some_iff.mp h
    cases h
    rw [List.length_cons, List.length_cons, ih hus]

theorem createPair_isSome_iff : ∀ (annots : Option (List JSString)) (es : List Expr),
    (createPair others annots es).isSome = true ↔
      2 ≤ es.length ∧ ∀ e ∈ es, (createToken others e).isSome = true
  | annots, [] => iff_of_false Bool.false_ne_true fun h => absurd h.1 (by decide)
  | annots, [e] => iff_of_false Bool.false_ne_true fun h => absurd h.1 (by simp)
  | annots, [e, f] => by
    rw [createPair, List.forall_mem_cons, List.forall_mem_singleton]
    cases createToken others e with
    | none => exact iff_of_false Bool.false_ne_true fun h => Bool.false_ne_true h.2.1
    | some t =>
      cases createToken others f with
      | none => exact iff_of_false Bool.false_ne_true fun h => Bool.false_ne_true h.2.2
      | some u => exact iff_of_true rfl ⟨Nat.le_refl 2, rfl, rfl⟩
  | annots, e :: f :: g :: es => by
    have ih := createPair_isSome_iff none (f :: g :: es)
    rw [createPair, List.forall_mem_cons]
    · cases createToken others e with
      | none => exact iff_of_false Bool.false_ne_true fun h => Bool.false_ne_true h.2.1
      | some t =>
        cases hpair : createPair others none (f :: g :: es) with
        | none =>
          rw [hpair] at ih
          refine iff_of_false Bool.false_ne_true fun h => Bool.false_ne_true (ih.mpr ⟨?_, h.2.2⟩)
          rw [List.length_cons, List.length_cons]
          omega
        | some u =>
          rw [hpair] at ih
          refine iff_of_true rfl ⟨?_, rfl, (ih.mp rfl).2⟩
          rw [List.length_cons, List.length_cons]
          omega
    · intro h
      cases h
    · intro _ h
      cases h

/-- Whether the classes with components accept them depends on how many there are. -/
theorem componentType_isSome {p : String} {annots : Option (List JSString)} {ts us : List MType}
    (h : ts.length = us.length) :
    (componentType p annots ts).isSome = (componentType p annots us).isSome := by
  match ts, us, h with
  | [], [], _ => rfl
  | [t], [u], _ =>
    simp only [componentType]
    split_ifs <;> rfl
  | [t, t'], [u, u'], _ =>
    simp only [componentType]
    split_ifs <;> rfl
  | t :: t' :: t'' :: ts, u :: u' :: u'' :: us, _ => rfl

theorem createToken_data {p : String} (hp : p ∈ dataTypes) (hpair : p ≠ "pair")
    (annots : Option (List JSString)) (args : List Expr) :
    createToken others (.prim p (some args) annots) =
      (createTokens others args).bind (componentType p annots) := by
  have hmem : p ∈ ["or", "option", "list", "set", "map", "big_map", "contract"] := by
    simp only [dataTypes, List.mem_cons, List.not_mem_nil, or_false] at hp
    rcases hp with rfl | rfl | rfl | rfl | rfl | rfl | rfl
    · exact absurd rfl hpair
    all_goals decide
  rw [createToken, if_neg hpair, if_pos hmem]

theorem createToken_option (annots : Option (List JSString)) (t : Expr) :
    createToken others (.prim "option" (some [t]) annots) =
      (createToken others t).map (.option annots) := by
  rw [createToken_data (by decide) (by decide), createTokens]
  cases createToken others t with
  | none => rfl
  | some u => rfl

theorem createToken_constant (args : Option (List Expr)) (annots : Option (List JSString)) :
    createToken (withConstants others) (.prim "constant" args annots) =
      some (.other annots fun _ => GlobalConstantToken args) := by
  cases args with
  | none => rfl
  | some args => rfl

/-- What stands for a type has a token if the type does. -/
theorem Expands.createToken_isSome {e : Expr} : ∀ {full : Expr}, Expands provider e full →
    (createToken (withConstants others) full).isSome = true →
    (createToken (withConstants others) e).isSome = true := by
  have hall : ∀ {es fulls : List Expr},
      (∀ a ∈ es, ∀ {full : Expr}, Expands provider a full →
        (createToken (withConstants others) full).isSome = true →
          (createToken (withConstants others) a).isSome = true) →
      List.Forall₂ (Expands provider) es fulls →
      (∀ a ∈ fulls, (createToken (withConstants others) a).isSome = true) →
        ∀ a ∈ es, (createToken (withConstants others) a).isSome = true := by
    intro es fulls hes hfulls hsome a ha
    obtain ⟨full, hmem, hfull⟩ := exists_mem_right hfulls ha
    exact hes a ha hfull (hsome full hmem)
  induction e with
  | seq items ih =>
    intro full hexpands hsome
    cases hexpands with
    | same => exact hsome
    | seq hitems =>
      rw [createToken, createPair_isSome_iff] at hsome ⊢
      rw [hitems.length_eq]
      exact ⟨hsome.1, hall ih hitems hsome.2⟩
  | prim p args annots ih =>
    intro full hexpands hsome
    cases hexpands with
    | same => exact hsome
    | @data _ es fulls _ hp hargs =>
      by_cases hpair : p = "pair"
      · subst hpair
        rw [createToken, if_pos rfl, createPair_isSome_iff] at hsome ⊢
        rw [hargs.length_eq]
        exact ⟨hsome.1, hall ih hargs hsome.2⟩
      · rw [createToken_data hp hpair] at hsome ⊢
        obtain ⟨t, ht⟩ := Option.isSome_iff_exists.mp hsome
        obtain ⟨ts, hts, ht⟩ := Option.bind_eq_some_iff.mp ht
        have hsomes := (createTokens_isSome_iff _).mp (Option.isSome_iff_exists.mpr ⟨ts, hts⟩)
        obtain ⟨us, hus⟩ := Option.isSome_iff_exists.mp
          ((createTokens_isSome_iff _).mpr (hall ih hargs hsomes))
        have hlength : us.length = ts.length := by
          rw [createTokens_length hts, createTokens_length hus]
          exact hargs.length_eq
        have hus' : createTokens (withConstants others) es = some us := hus
        rw [hus', Option.bind_some, componentType_isSome hlength, ht]
        rfl
    | constant => rw [createToken_constant]; rfl
  | _ =>
    intro full hexpands hsome
    cases hexpands
    exact hsome

end tokens

/-! ## Falsy values -/

/-- What stands within the options around a type. -/
def core : Expr → Expr
  | .prim p (some [t]) annots => if p = "option" then core t else .prim p (some [t]) annots
  | e => e

def isOption : Expr → Bool
  | .prim p (some [_]) _ => p = "option"
  | _ => false

def isConstant : Expr → Bool
  | .prim p _ _ => p = "constant"
  | _ => false

/-- A type whose values are objects. -/
def isStructured : Expr → Bool
  | .prim p _ _ => p = "pair" || p = "or"
  | .seq _ => true
  | _ => false

theorem core_option (t : Expr) (annots : Option (List JSString)) :
    core (.prim "option" (some [t]) annots) = core t := by
  rw [core, if_pos rfl]

theorem core_of_not_isOption {e : Expr} (h : isOption e = false) : core e = e := by
  unfold core
  split
  · next p t annots => exact if_neg (of_decide_eq_false h)
  · rfl

theorem exists_of_isOption {e : Expr} (h : isOption e = true) :
    ∃ t annots, e = .prim "option" (some [t]) annots := by
  unfold isOption at h
  split at h
  · next p t annots => exact ⟨t, annots, by rw [of_decide_eq_true h]⟩
  · cases h

section falsy

variable {host : MichelsonEncoder.Host}
  {others : String → Option (List Expr) → Option (ℕ → MichelsonEncoder.Token)}

theorem encodeStorage_eq_ok {type : Expr} {v : Val} {e : Encoded} :
    encodeStorage host others type v = .ok e ↔
      ∃ t, createToken (withConstants others) type = some t ∧
        (t.token host 0).EncodeObject v = .ok e := by
  rw [encodeStorage, mapError_eq_ok, Schema.Encode]
  cases createToken (withConstants others) type with
  | none =>
    refine iff_of_false (fun h => by cases h) ?_
    rintro ⟨_, h, -⟩
    cases h
  | some t =>
    have hsome : (∃ u, some t = some u ∧ (u.token host 0).EncodeObject v = .ok e) ↔
        (t.token host 0).EncodeObject v = .ok e := by
      constructor
      · rintro ⟨u, hu, h⟩
        exact Option.some.inj hu ▸ h
      · exact fun h => ⟨t, rfl, h⟩
    rw [hsome]
    dsimp only
    split
    · next he => rw [he]
    · next he => rw [he]
    · next he =>
      rw [he]
      exact iff_of_false (fun h => by cases h) fun h => by cases h

/-- The token of an option of a type. -/
theorem encodeStorage_option {type : Expr} {annots : Option (List JSString)} {v : Val}
    {e : Encoded} :
    encodeStorage host others (.prim "option" (some [type]) annots) v = .ok e ↔
      ((createToken (withConstants others) type).isSome = true ∧ v.isNone = true ∧
        e = .prim "None" none) ∨
      (v.isNone = false ∧ ∃ e', encodeStorage host others type v = .ok e' ∧
        e = .prim "Some" (some [e'])) := by
  have hoption : ∀ t : MType, (optionToken annots (t.token host) 0).EncodeObject v = .ok e ↔
      (v.isNone = true ∧ e = .prim "None" none) ∨
        (v.isNone = false ∧ ∃ e', (t.token host 0).EncodeObject v = .ok e' ∧
          e = .prim "Some" (some [e'])) := by
    intro t
    show OptionToken.EncodeObject (t.token host 0) v = .ok e ↔ _
    rw [OptionToken.EncodeObject]
    cases hv : v.isNone with
    | true =>
      rw [if_pos rfl, Except.ok.injEq]
      constructor
      · exact fun h => .inl ⟨rfl, h.symm⟩
      · rintro (⟨-, h⟩ | ⟨h, -⟩)
        · exact h.symm
        · cases h
    | false =>
      rw [if_neg Bool.false_ne_true, Except.bind_eq_ok]
      constructor
      · rintro ⟨e', he', h⟩
        exact .inr ⟨rfl, e', he', (Except.ok.inj h).symm⟩
      · rintro (⟨h, -⟩ | ⟨-, e', he', rfl⟩)
        · cases h
        · exact ⟨e', he', rfl⟩
  rw [encodeStorage_eq_ok, createToken_option]
  cases ht : createToken (withConstants others) type with
  | none =>
    refine iff_of_false ?_ ?_
    · rintro ⟨_, h, -⟩
      cases h
    rintro (⟨h, -⟩ | ⟨-, e', he', -⟩)
    · cases h
    · obtain ⟨t, ht', -⟩ := encodeStorage_eq_ok.mp he'
      cases ht.symm.trans ht'
  | some t =>
    have hencode : ∀ e', encodeStorage host others type v = .ok e' ↔
        (t.token host 0).EncodeObject v = .ok e' := by
      intro e'
      rw [encodeStorage_eq_ok, ht]
      constructor
      · rintro ⟨u, hu, h⟩
        exact Option.some.inj hu ▸ h
      · exact fun h => ⟨t, rfl, h⟩
    simp only [hencode]
    rw [Option.map_some, Option.isSome_some, eq_self, true_and, ← hoption t]
    constructor
    · rintro ⟨u, hu, h⟩
      obtain rfl := Option.some.inj hu
      exact h
    · exact fun h => ⟨_, rfl, h⟩

/-- A value of a constant is not encoded. -/
theorem encodeStorage_constant {type : Expr} {v : Val} (hcore : isConstant (core type) = true)
    (hnone : ¬(v.isNone = true ∧ isOption type = true)) :
    ∀ e : Encoded, encodeStorage host others type v ≠ .ok e := by
  induction type with
  | prim p args annots ih =>
    intro e he
    by_cases hoption : isOption (.prim p args annots) = true
    · obtain ⟨t, annots', heq⟩ := exists_of_isOption hoption
      cases heq
      have hv : v.isNone ≠ true := fun hv => hnone ⟨hv, hoption⟩
      rcases encodeStorage_option.mp he with ⟨-, h, -⟩ | ⟨-, e', he', -⟩
      · exact hv h
      · rw [core_option] at hcore
        exact ih t List.mem_cons_self hcore (fun h => hv h.1) e' he'
    · rw [core_of_not_isOption (Bool.eq_false_iff.mpr hoption)] at hcore
      obtain rfl : p = "constant" := of_decide_eq_true hcore
      obtain ⟨t, ht, he⟩ := encodeStorage_eq_ok.mp he
      rw [createToken_constant] at ht
      cases ht
      exact constantError_ne_ok he
  | _ => cases hcore

/-- Falsy values are no arrays, objects or maps. -/
theorem not_collection_of_falsy {v : Val} (hv : v.truthy = false) :
    (∀ (name : String) items, validArray name v ≠ .ok items) ∧
      ∀ (name : String) entries, objLitToMichelsonMap host name v ≠ .ok entries := by
  cases v with
  | array items => cases hv
  | object fields => cases hv
  | map entries => cases hv
  | _ =>
    constructor
    · intro name items h
      cases h
    · intro name entries h
      cases h

/-- A falsy value is encoded for no list, set or map. -/
theorem encodeStorage_collection {p : String} {args : List Expr} {annots : Option (List JSString)}
    {v : Val} (hp : p = "list" ∨ p = "set" ∨ p = "map" ∨ p = "big_map") (hv : v.truthy = false) :
    ∀ e : Encoded, encodeStorage host others (.prim p (some args) annots) v ≠ .ok e := by
  intro e he
  obtain ⟨harray, hmap⟩ := @not_collection_of_falsy host v hv
  obtain ⟨t, ht, he⟩ := encodeStorage_eq_ok.mp he
  have hdata : p ∈ dataTypes ∧ p ≠ "pair" := by
    rcases hp with rfl | rfl | rfl | rfl <;> exact ⟨by decide, by decide⟩
  rw [createToken_data hdata.1 hdata.2] at ht
  obtain ⟨ts, -, ht⟩ := Option.bind_eq_some_iff.mp ht
  have hkind : (∃ u, t = .list annots u) ∨ (∃ u, t = .set annots u) ∨
      (∃ k u, t = .map annots k u) ∨ ∃ k u, t = .bigMap annots k u := by
    match ts, ht with
    | [u], ht =>
      rcases hp with rfl | rfl | rfl | rfl
      · exact .inl ⟨u, (Option.some.inj ht).symm⟩
      · exact .inr (.inl ⟨u, (Option.some.inj ht).symm⟩)
      · cases ht
      · cases ht
    | [k, u], ht =>
      rcases hp with rfl | rfl | rfl | rfl
      · cases ht
      · cases ht
      · exact .inr (.inr (.inl ⟨k, u, (Option.some.inj ht).symm⟩))
      · exact .inr (.inr (.inr ⟨k, u, (Option.some.inj ht).symm⟩))
  rcases hkind with ⟨u, rfl⟩ | ⟨u, rfl⟩ | ⟨k, u, rfl⟩ | ⟨k, u, rfl⟩
  · obtain ⟨items, hitems, -⟩ := Except.bind_eq_ok.mp he
    exact harray _ items hitems
  · obtain ⟨items, hitems, -⟩ := Except.bind_eq_ok.mp he
    exact harray _ items hitems
  · obtain ⟨entries, hentries, -⟩ := Except.bind_eq_ok.mp he
    exact hmap _ entries hentries
  · obtain ⟨entries, hentries, -⟩ := Except.bind_eq_ok.mp he
    exact hmap _ entries hentries

/-- An option has one component. -/
theorem exists_of_createToken_option {args : List Expr} {annots : Option (List JSString)}
    {t : MType} (h : createToken others (.prim "option" (some args) annots) = some t) :
    ∃ a, args = [a] := by
  rw [createToken_data (by decide) (by decide)] at h
  obtain ⟨ts, hts, ht⟩ := Option.bind_eq_some_iff.mp h
  have hlength := createTokens_length hts
  match ts, ht with
  | [u], _ => exact List.length_eq_one_iff.mp hlength.symm
  | u :: u' :: us, ht =>
    cases us with
    | nil => cases ht
    | cons u'' us => cases ht

/-- A value of a type, as far as the type can tell: those of pairs and alternatives are objects, so
that a falsy value is none but in an option of them. -/
def Suits (full : Expr) (v : Val) : Prop :=
  v.truthy = false → isStructured (core full) = true → v.isNone = true ∧ isOption full = true

/-- **A falsy value** is encoded as for the type that is stood for, unless it is a value of a
constant. -/
theorem Expands.encodeStorage_of_falsy {v : Val} (hv : v.truthy = false) {type : Expr} :
    ∀ {full : Expr} {e : Encoded}, Expands provider type full →
      (isConstant (core type) = true → v.isNone = true ∧ isOption type = true) → Suits full v →
      encodeStorage host others full v = .ok e → encodeStorage host others type v = .ok e := by
  induction type with
  | seq items ih =>
    intro full e hexpands hconstant hsuits he
    cases hexpands with
    | same => exact he
    | seq hitems =>
      obtain ⟨-, h⟩ := hsuits hv rfl
      cases h
  | prim p args annots ih =>
    intro full e hexpands hconstant hsuits he
    cases hexpands with
    | same => exact he
    | @data _ es fulls _ hp hargs =>
      have hstructured : ∀ q : String, q ≠ "option" → (q = "pair" ∨ q = "or") →
          isStructured (core (.prim q (some fulls) annots)) = true := by
        intro q hoption hq
        have hcore : core (.prim q (some fulls) annots) = .prim q (some fulls) annots := by
          apply core_of_not_isOption
          unfold isOption
          split
          · next heq =>
            obtain ⟨rfl, -⟩ := Expr.prim.inj heq
            exact decide_eq_false hoption
          · rfl
        rw [hcore]
        rcases hq with rfl | rfl <;> rfl
      by_cases hoption : p = "option"
      · subst hoption
        obtain ⟨t, ht, -⟩ := encodeStorage_eq_ok.mp he
        obtain ⟨f, rfl⟩ := exists_of_createToken_option ht
        obtain ⟨a, rfl⟩ := List.length_eq_one_iff.mp hargs.length_eq
        obtain ⟨haf, -⟩ := List.forall₂_cons.mp hargs
        refine encodeStorage_option.mpr ?_
        rcases encodeStorage_option.mp he with ⟨hsome, hnone, rfl⟩ | ⟨hnone, e', he', rfl⟩
        · exact .inl ⟨haf.createToken_isSome hsome, hnone, rfl⟩
        · have hnone' : v.isNone ≠ true := Bool.eq_false_iff.mp hnone
          refine .inr ⟨hnone, e', ?_, rfl⟩
          refine ih a List.mem_cons_self haf (fun h => ?_) (fun _ h => ?_) he'
          · rw [core_option] at hconstant
            exact absurd (hconstant h).1 hnone'
          · have hsuits := hsuits hv
            rw [core_option] at hsuits
            exact absurd (hsuits h).1 hnone'
      · by_cases hobject : p = "pair" ∨ p = "or"
        · obtain ⟨-, h⟩ := hsuits hv (hstructured p hoption hobject)
          obtain ⟨f, annots', heq⟩ := exists_of_isOption h
          exact absurd (Expr.prim.inj heq).1 hoption
        · have hcollection : p = "list" ∨ p = "set" ∨ p = "map" ∨ p = "big_map" := by
            simp only [dataTypes, List.mem_cons, List.not_mem_nil, or_false] at hp
            rcases hp with h | h | h | h
            · exact absurd (.inl h) hobject
            · exact absurd (.inr h) hobject
            · exact absurd h hoption
            · exact h
          exact absurd he (encodeStorage_collection hcollection hv e)
    | constant =>
      obtain ⟨-, h⟩ := hconstant rfl
      cases h
  | _ =>
    intro full e hexpands hconstant hsuits he
    cases hexpands
    exact he

end falsy

/-! ## What an origination does -/

section origination

variable (host : MichelsonEncoder.Host)
  (others : String → Option (List Expr) → Option (ℕ → MichelsonEncoder.Token)) (proto : Protocol)
  (provider : JSString → Except OriginationError Expr) (settings : Settings)

/-- An origination is built, with a storage. -/
def Originates (params : OriginateParams) (e : Encoded) : Prop :=
  ∃ op, originate host others proto provider settings params = .ok op ∧ op.storage = .encoded e

variable {host others proto provider settings} {params : OriginateParams} {code : List Expr}
  {type full : Expr}

/-- The storage of an operation is the encoding of a storage value, if there is one. -/
theorem storage_of_createOriginationOperation (hcode : params.code = .json code)
    (htype : storageType code = .ok type) (hinit : params.init = none)
    (hbalance : (numberOfAmount host params.balance).isNaN = false) {e : Encoded} :
    (∃ op, createOriginationOperation host others settings params = .ok op ∧
      op.storage = .encoded e) ↔
        params.storage.isUndefined = false ∧
          encodeStorage host others type params.storage = .ok e := by
  unfold createOriginationOperation
  rw [hcode, hinit, Option.isSome_none, Bool.and_false, if_neg Bool.false_ne_true]
  dsimp only
  rw [hbalance]
  cases hdefined : params.storage.isUndefined with
  | true =>
    refine iff_of_false ?_ fun h => by cases h.1
    rintro ⟨op, hop, -⟩
    cases hop
  | false =>
    rw [Bool.not_false, if_pos rfl, htype, Except.ok_bind]
    cases he : encodeStorage host others type params.storage with
    | error err =>
      refine iff_of_false ?_ fun h => by cases h.2
      rintro ⟨op, hop, -⟩
      cases hop
    | ok e' =>
      constructor
      · rintro ⟨op, hop, hstorage⟩
        cases hop
        obtain rfl := Init.encoded.inj hstorage
        exact ⟨rfl, rfl⟩
      · rintro ⟨-, h⟩
        obtain rfl := Except.ok.inj h
        exact ⟨_, rfl, rfl⟩

/-- An encoded storage is that of the operation. -/
theorem storage_of_encoded (hcode : params.code = .json code) {e e' : Encoded}
    (hinit : params.init = some (.encoded e')) (hstorage : params.storage = .undefined)
    (hbalance : (numberOfAmount host params.balance).isNaN = false) :
    (∃ op, createOriginationOperation host others settings params = .ok op ∧
      op.storage = .encoded e) ↔ e' = e := by
  unfold createOriginationOperation
  rw [hcode, hinit, hstorage]
  dsimp only
  rw [hbalance]
  constructor
  · rintro ⟨op, hop, hstorage⟩
    cases hop
    exact Init.encoded.inj hstorage
  · rintro rfl
    exact ⟨_, rfl, rfl⟩

/-- A falsy storage is encoded with the type as it stands. -/
theorem originates_of_falsy (hcode : formatCodeParam proto params.code = .ok code)
    (htype : storageType code = .ok type) (hinit : params.init = none)
    (hbalance : (numberOfAmount host params.balance).isNaN = false) {v : Val}
    (hv : v.truthy = false) {e : Encoded} :
    Originates host others proto provider settings { params with storage := v } e ↔
      v.isUndefined = false ∧ encodeStorage host others type v = .ok e := by
  have hprepared : prepareCodeOrigination host others proto provider { params with storage := v } =
      .ok { params with code := .json code, storage := v } := by
    rw [prepareCodeOrigination, hcode, hinit]
    show (if v.truthy = true then _ else _) = _
    rw [hv, if_neg Bool.false_ne_true]
    rfl
  unfold Originates originate
  rw [hprepared, Except.ok_bind]
  exact @storage_of_createOriginationOperation host others settings
    { params with code := .json code, storage := v } code type rfl htype hinit hbalance e

/-- A truthy storage is encoded with the values of the constants of the type in their places. -/
theorem originates_of_truthy (hcode : formatCodeParam proto params.code = .ok code)
    (htype : storageType code = .ok type) (hinit : params.init = none)
    (hbalance : (numberOfAmount host params.balance).isNaN = false)
    (hexpands : Expands provider type full)
    (hfull : (createToken (withConstants others) full).isSome = true) {v : Val}
    (hv : v.truthy = true) {e : Encoded} :
    Originates host others proto provider settings { params with storage := v } e ↔
      encodeStorage host others (putIn provider type) v = .ok e := by
  obtain ⟨t, ht⟩ := Option.isSome_iff_exists.mp (hexpands.createToken_isSome hfull)
  obtain ⟨found, hfound, hnil, hvalues⟩ :=
    findGlobalConstantsHashAndValue_ok hexpands.exists_value
  have hconstants : findConstants others type = .ok (constantTokens type) := by
    rw [findConstants, ht]
  have hprepared : prepareCodeOrigination host others proto provider { params with storage := v } =
      (encodeStorage host others (putIn provider type) v).map fun init =>
        { params with
          code := .json code
          init := some (.encoded init)
          storage := .undefined } := by
    rw [prepareCodeOrigination, hcode, hinit]
    show (if v.truthy = true then _ else _) = _
    rw [hv, if_pos rfl, htype]
    show (findConstants others type >>= _) = _
    rw [hconstants]
    show (findGlobalConstantsHashAndValue provider (constantTokens type) >>= _) = _
    rw [hfound]
    show (if found.isEmpty = true then _ else _) = _
    cases hempty : found.isEmpty with
    | true =>
      have hfree := hexpands.free_of_constantTokens (hnil.mp (List.isEmpty_iff.mp hempty))
      rw [if_pos rfl, putIn_of_free hfree]
      cases encodeStorage host others type v with
      | error err => rfl
      | ok e' => rfl
    | false =>
      rw [if_neg Bool.false_ne_true, parseJSON_eq_putIn hexpands hvalues]
      dsimp only
      cases encodeStorage host others (putIn provider type) v with
      | error err => rfl
      | ok e' => rfl
  unfold Originates originate
  rw [hprepared]
  cases encodeStorage host others (putIn provider type) v with
  | error err =>
    refine iff_of_false ?_ fun h => by cases h
    rintro ⟨op, hop, -⟩
    cases hop
  | ok e' =>
    rw [Except.ok.injEq, Except.map, Except.ok_bind]
    exact storage_of_encoded rfl rfl rfl hbalance

variable (host others) in
/-- A value of a type, with what it is encoded as. -/
structure Valid (full : Expr) (v : Val) (e : Encoded) : Prop where
  encoded : encodeStorage host others full v = .ok e
  suits : Suits full v

variable (host others) in
/-- Where a constant is left, some value has data in the place of a constant. -/
def CarriesData (rest full : Expr) : Prop :=
  ¬rest.Everywhere IsConstantFree → ∃ v e t, v.truthy = true ∧ Valid host others full v e ∧
    createToken (withConstants others) rest = some t ∧ t.Shows e

/-- No value of a constant of a type refers to a constant. -/
def RefersOnce (provider : JSString → Except OriginationError Expr) (type : Expr) : Prop :=
  ∀ hash value, some [.string hash] ∈ constantTokens type → provider hash = .ok value →
    value.Everywhere IsConstantFree

/-- **Global constants are transparent** to the origination of falsy values only where no constant
would encode them, and to that of all truthy values if and only if no value of a constant refers to
a constant. -/
theorem prepared_iff (hcode : formatCodeParam proto params.code = .ok code)
    (htype : storageType code = .ok type) (hinit : params.init = none)
    (hbalance : (numberOfAmount host params.balance).isNaN = false)
    (hexpands : Expands provider type full) :
    (∀ v e, v.truthy = false → Valid host others full v e →
      (Originates host others proto provider settings { params with storage := v } e ↔
        v.isUndefined = false ∧
          (isConstant (core type) = true → v.isNone = true ∧ isOption type = true))) ∧
    (RefersOnce provider type → ∀ v e, v.truthy = true → Valid host others full v e →
      Originates host others proto provider settings { params with storage := v } e) ∧
    (CarriesData host others (putIn provider type) full →
      (∀ v e, v.truthy = true → Valid host others full v e →
        Originates host others proto provider settings { params with storage := v } e) →
          RefersOnce provider type) := by
  have htoken : ∀ {v e}, Valid host others full v e →
      (createToken (withConstants others) full).isSome = true := by
    intro v e hvalid
    obtain ⟨t, ht, -⟩ := encodeStorage_eq_ok.mp hvalid.encoded
    exact Option.isSome_iff_exists.mpr ⟨t, ht⟩
  refine ⟨?_, ?_, ?_⟩
  · intro v e hv hvalid
    rw [originates_of_falsy hcode htype hinit hbalance hv]
    constructor
    · rintro ⟨hdefined, he⟩
      refine ⟨hdefined, fun hconstant => ?_⟩
      by_contra hnone
      exact encodeStorage_constant hconstant hnone e he
    · rintro ⟨hdefined, hconstant⟩
      exact ⟨hdefined, hexpands.encodeStorage_of_falsy hv hconstant hvalid.suits hvalid.encoded⟩
  · intro honce v e hv hvalid
    rw [originates_of_truthy hcode htype hinit hbalance hexpands (htoken hvalid) hv]
    have hfree := hexpands.putIn_free_iff.mpr honce
    rw [hexpands.putIn.eq_of_free hfree]
    exact hvalid.encoded
  · intro hcarries hall
    apply hexpands.putIn_free_iff.mp
    by_contra hleft
    obtain ⟨v, e, t, hv, hvalid, ht, hshows⟩ := hcarries hleft
    have he := (originates_of_truthy hcode htype hinit hbalance hexpands (htoken hvalid) hv).mp
      (hall v e hv hvalid)
    obtain ⟨u, hu, he⟩ := encodeStorage_eq_ok.mp he
    obtain rfl := Option.some.inj (ht.symm.trans hu)
    exact not_shows_of_encodeObject hshows 0 v he

end origination

/-- A constant without annotations. -/
def constantOf (hash : JSString) : Expr := .prim "constant" (some [.string hash]) none

/-- A script with a storage type only, and a storage. -/
def scriptOf (type : Expr) (storage : Val) : OriginateParams where
  code := .json [.prim "storage" (some [type]) none]
  storage := storage

/-- A provider of `outer`, which is the constant `inner`, which is `nat`. -/
def nestedProvider (hash : JSString) : Except OriginationError Expr :=
  if hash = js "outer" then .ok (constantOf (js "inner"))
  else if hash = js "inner" then .ok (.prim "nat" none none)
  else .error .TypeError

/-- No integer is read as `NaN`. -/
theorem isNaN_doubleOf (z : ℤ) : (BaseType.doubleOf z).isNaN = false := by
  unfold BaseType.doubleOf
  split <;> rfl

/-- The balance is a number unless another one is given. -/
theorem isNaN_balance (type : Expr) (storage : Val) :
    (numberOfAmount .decimal (scriptOf type storage).balance).isNaN = false := by
  have hzero : decimalValue (js "0") = some 0 := by decide
  show (BaseType.textToNumber .decimal (js "0")).isNaN = false
  rw [BaseType.textToNumber, if_neg (by decide), hzero]
  exact isNaN_doubleOf 0

theorem formatCodeParam_scriptOf (hash : JSString) (storage : Val) :
    formatCodeParam DefaultProtocol (scriptOf (constantOf hash) storage).code =
      .ok [.prim "storage" (some [constantOf hash]) none] := by
  have hparsed : parseJSONs (contextOptions DefaultProtocol)
      [.prim "storage" (some [constantOf hash]) none] =
        .ok [.prim "storage" (some [constantOf hash]) none] := rfl
  rw [scriptOf, formatCodeParam, hparsed]
  dsimp only
  rw [List.mergeSort_singleton]

theorem expands_inner :
    Expands nestedProvider (constantOf (js "inner")) (.prim "nat" none none) := by
  refine .constant (by decide) rfl (.same ?_ ?_)
  · refine Expr.everywhere_iff.mpr ⟨?_, fun a ha => absurd ha List.not_mem_nil⟩
    show "nat" ≠ "constant"
    decide
  · exact Expr.everywhere_iff.mpr ⟨rfl, fun a ha => absurd ha List.not_mem_nil⟩

/-- A number is refused where the value of a constant is a constant. -/
theorem prepared_iff_nested :
    ¬∀ v e, v.truthy = true → Valid .decimal (fun _ _ => none) (.prim "nat" none none) v e →
      Originates .decimal (fun _ _ => none) DefaultProtocol nestedProvider .initial
        (scriptOf (constantOf (js "outer")) v) e := by
  intro hall
  have hexpands : Expands nestedProvider (constantOf (js "outer")) (.prim "nat" none none) :=
    .constant (by decide) rfl expands_inner
  have hcarries : CarriesData .decimal (fun _ _ => none)
      (putIn nestedProvider (constantOf (js "outer"))) (.prim "nat" none none) := by
    intro _
    refine ⟨.number 1, .int (js "1"), _, rfl, ⟨rfl, fun h => by cases h⟩,
      createToken_constant (some [.string (js "inner")]) none, ?_⟩
    exact .constant none _ _
  have honce := (@prepared_iff .decimal (fun _ _ => none) DefaultProtocol nestedProvider .initial
    (scriptOf (constantOf (js "outer")) .undefined) _ _ _ (formatCodeParam_scriptOf _ _) rfl rfl
    (isNaN_balance _ _) hexpands).2.2 hcarries hall
  obtain ⟨here, -⟩ := Expr.everywhere_iff.mp
    (honce (js "outer") _ (List.mem_singleton.mpr rfl) rfl)
  exact here rfl

/-- `0` is refused where a constant stands for `nat`. -/
theorem not_prepared : ¬∀ (host : MichelsonEncoder.Host) (proto : Protocol)
    (others : String → Option (List Expr) → Option (ℕ → MichelsonEncoder.Token))
    (provider : JSString → Except OriginationError Expr) (settings : Settings)
    (params : OriginateParams) (code : List Expr) (type full : Expr) (e : Encoded),
    formatCodeParam proto params.code = .ok code → storageType code = .ok type →
    params.init = none → (numberOfAmount host params.balance).isNaN = false →
    Expands provider type full → Valid host others full params.storage e →
      Originates host others proto provider settings params e := by
  intro hall
  have hzero := hall .decimal DefaultProtocol (fun _ _ => none) nestedProvider .initial
    (scriptOf (constantOf (js "inner")) (.number 0)) _ _ _ (.int (js "0"))
    (formatCodeParam_scriptOf _ _) rfl rfl (isNaN_balance _ _) expands_inner
    ⟨rfl, fun _ h => by cases h⟩
  obtain ⟨-, hencoded⟩ := (@originates_of_falsy .decimal (fun _ _ => none) DefaultProtocol
    nestedProvider .initial (scriptOf (constantOf (js "inner")) (.number 0)) _ _
    (formatCodeParam_scriptOf _ _) rfl rfl (isNaN_balance _ _) (.number 0) rfl _).mp hzero
  exact encodeStorage_constant rfl (fun h => by cases h.1) _ hencoded

end Operations
