import Taquito.Js.Text
import Taquito.Lib.InsertionMap
import Taquito.Lib.Reader
import Taquito.Micheline.Expr
import Taquito.MichelsonEncoder.Values

/-!
# The two maps of a `MichelsonMap`

A `MichelsonMap` files its keys and its values in two maps under the texts of the keys. Each
operation asserts the types first and then writes to one map after the other.
`fast-json-stable-stringify` and the schemas are parameters; keys with the same text are those that
are structurally equal.

Both maps are images of one map over the keys themselves (`Represents`), which holds what the
accepted operations left (`content`); so they stay in step over every run (`performAll_meets`).
-/

open Js MichelsonEncoder

namespace MichelsonMaps

/-- Which of the two was of the wrong type. -/
inductive ErrorType where
  | key
  | value
  deriving DecidableEq, Repr

/-- What a map throws. -/
inductive MapError where
  | InvalidMapTypeError
  | MapTypecheckError (errorType : ErrorType)
  /-- An error of the schemas. -/
  | SchemaError
  deriving DecidableEq, Repr

/-- The schemas of keys and of values: what `Typecheck` says, and `none` where it throws. -/
structure MapType (K T : Type) where
  keySchema : K → Option Bool
  valueSchema : T → Option Bool

/-- What maps with keys and values of two types use. -/
structure MapHost (τ K T : Type) where
  /-- `fast-json-stable-stringify`. -/
  stringify : K → τ
  /-- A text as a key. -/
  ofString : JSString → K
  /-- `Typecheck` of `new Schema(type)`, or `none` where the constructor throws. -/
  keySchema : Expr → Option (K → Option Bool)
  valueSchema : Expr → Option (T → Option Bool)

/-- `MichelsonMap`. -/
structure MichelsonMap (τ K T : Type) where
  valueMap : InsertionMap (discrete τ) T
  keyMap : InsertionMap (discrete τ) K
  mapType : Option (MapType K T)

/-- What is done with a map; when it throws, the map stays as it was changed until then. -/
abbrev MapM (τ K T α : Type) := EStateM MapError (MichelsonMap τ K T) α

section

variable {τ K T : Type} (host : MapHost τ K T)

/-- `setType`, of a new map: the schemas of a type of two arguments. -/
def setType (mapType : Expr) : Except MapError (MapType K T) :=
  match mapType with
  | .prim _ (some [key, value]) _ =>
    match host.keySchema key, host.valueSchema value with
    | some keySchema, some valueSchema => .ok { keySchema, valueSchema }
    | _, _ => .error .SchemaError
  | _ => .error .InvalidMapTypeError

/-- `new MichelsonMap(mapType)`. -/
def newMap (mapType : Option Expr) : Except MapError (MichelsonMap τ K T) := do
  let mapType ← mapType.mapM (setType host)
  return { valueMap := .empty, keyMap := .empty, mapType }

/-- `assertTypecheckKey` and `assertTypecheckValue`. -/
def assertTypecheck {α : Type} (errorType : ErrorType) (schema : Option (α → Option Bool)) (x : α) :
    MapM τ K T Unit :=
  match schema with
  | none => return
  | some typecheck =>
    match typecheck x with
    | some true => return
    | some false => throw (.MapTypecheckError errorType)
    | none => throw .SchemaError

/-- `assertTypecheckKey`. -/
def assertTypecheckKey (key : K) : MapM τ K T Unit := do
  assertTypecheck .key ((← get).mapType.map fun t => t.keySchema) key

/-- `assertTypecheckValue`. -/
def assertTypecheckValue (value : T) : MapM τ K T Unit := do
  assertTypecheck .value ((← get).mapType.map fun t => t.valueSchema) value

variable [DecidableEq τ]

/-- `get`. -/
def getValue (key : K) : MapM τ K T (Option T) := do
  assertTypecheckKey key
  let strKey := host.stringify key
  return (← get).valueMap.get strKey

/-- `set`. -/
def setValue (key : K) (value : T) : MapM τ K T Unit := do
  assertTypecheckKey key
  assertTypecheckValue value
  let strKey := host.stringify key
  modify fun m => { m with keyMap := m.keyMap.set strKey key }
  modify fun m => { m with valueMap := m.valueMap.set strKey value }

/-- `delete`. -/
def deleteKey (key : K) : MapM τ K T Unit := do
  assertTypecheckKey key
  modify fun m => { m with keyMap := m.keyMap.delete (host.stringify key) }
  modify fun m => { m with valueMap := m.valueMap.delete (host.stringify key) }

/-- `has`. -/
def hasKey (key : K) : MapM τ K T Bool := do
  assertTypecheckKey key
  let strKey := host.stringify key
  return (← get).keyMap.has strKey && (← get).valueMap.has strKey

/-- `clear`. -/
def clear : MapM τ K T Unit := do
  modify fun m => { m with keyMap := .empty }
  modify fun m => { m with valueMap := .empty }

/-- `size`. -/
def MichelsonMap.size (m : MichelsonMap τ K T) : ℕ := m.keyMap.size

/-- `entries`. What a map does not have is `undefined`. -/
def MichelsonMap.entries (m : MichelsonMap τ K T) : List (Option K × Option T) :=
  m.valueMap.keys.map fun key => (m.keyMap.get key, m.valueMap.get key)

/-- `keys`. -/
def MichelsonMap.keys (m : MichelsonMap τ K T) : List (Option K) := m.entries.map Prod.fst

/-- `values`. -/
def MichelsonMap.values (m : MichelsonMap τ K T) : List (Option T) := m.entries.map Prod.snd

/-- The values and keys that `forEach` calls its argument with. -/
def MichelsonMap.forEach (m : MichelsonMap τ K T) : List (Option T × Option K) :=
  m.entries.map fun e => (e.2, e.1)

/-- `fromLiteral`, of an object with its fields in the order of `Object.keys`. -/
def fromLiteral (obj : List (JSString × T)) (mapType : Option Expr) :
    Except MapError (MichelsonMap τ K T) := do
  let map ← newMap host mapType
  match (obj.forM fun field => setValue host (host.ofString field.1) field.2).run map with
  | .ok _ map => .ok map
  | .error e _ => .error e

/-! ## Runs -/

/-- What can be done with a map; `fromLiteral` puts a new one in its place. -/
inductive Op (K T : Type) where
  | set (key : K) (value : T)
  | delete (key : K)
  | clear
  | fromLiteral (obj : List (JSString × T)) (mapType : Option Expr)

/-- One operation. -/
def perform : Op K T → MapM τ K T Unit
  | .set key value => setValue host key value
  | .delete key => deleteKey host key
  | .clear => clear
  | .fromLiteral obj mapType =>
    match fromLiteral host obj mapType with
    | .ok map => MonadState.set map
    | .error e => throw e

/-- The map that an outcome leaves. -/
def mapOf {α : Type} : EStateM.Result MapError (MichelsonMap τ K T) α → MichelsonMap τ K T
  | .ok _ m => m
  | .error _ m => m

/-- A sequence of operations, of which some may throw. -/
def performAll (ops : List (Op K T)) (m : MichelsonMap τ K T) : MichelsonMap τ K T :=
  ops.foldl (fun m op => mapOf ((perform host op).run m)) m

end

/-! ## What a run leaves -/

/-- A change of a map. -/
inductive Update (K T : Type) where
  | set (key : K) (value : T)
  | delete (key : K)
  | clear

/-- Whether a map of a type takes a key. -/
def takesKey {K T : Type} (mapType : Option (MapType K T)) (key : K) : Bool :=
  mapType.all fun t => t.keySchema key = some true

/-- Whether a map of a type takes a value. -/
def takesValue {K T : Type} (mapType : Option (MapType K T)) (value : T) : Bool :=
  mapType.all fun t => t.valueSchema value = some true

section

variable {τ K T : Type} (host : MapHost τ K T)

/-- The type of the map after an operation and the changes that it makes, if it is accepted. -/
def accept (mapType : Option (MapType K T)) :
    Op K T → Option (Option (MapType K T) × List (Update K T))
  | .set key value =>
    if takesKey mapType key ∧ takesValue mapType value then some (mapType, [.set key value])
    else none
  | .delete key => if takesKey mapType key then some (mapType, [.delete key]) else none
  | .clear => some (mapType, [.clear])
  | .fromLiteral obj type =>
    match type.mapM (setType host) with
    | .error _ => none
    | .ok mapType' =>
      if obj.all fun field =>
          takesKey mapType' (host.ofString field.1) && takesValue mapType' field.2 then
        some (mapType', .clear :: obj.map fun field => .set (host.ofString field.1) field.2)
      else none

/-- The changes of the operations that are accepted, one after the other. -/
def accepted (mapType : Option (MapType K T)) : List (Op K T) → List (Update K T)
  | [] => []
  | op :: ops =>
    match accept host mapType op with
    | none => accepted mapType ops
    | some (mapType, updates) => updates ++ accepted mapType ops

end

section

variable {K T : Type} (s : Setoid K) [DecidableRel s.r]

/-- A map with one change. -/
def Update.apply (m : InsertionMap s T) : Update K T → InsertionMap s T
  | .set key value => m.set key value
  | .delete key => m.delete key
  | .clear => .empty

/-- The map that changes leave, with its entries in the order of insertion. -/
def content (updates : List (Update K T)) : InsertionMap s T :=
  updates.foldl (Update.apply s) .empty

/-- The value last set for a key, unless it was deleted since. -/
def lastSet (updates : List (Update K T)) (key : K) : Option T :=
  updates.foldl (fun value update =>
    match update with
    | .set k v => if s.r k key then some v else value
    | .delete k => if s.r k key then none else value
    | .clear => none) none

/-- A key has the value last set for it. -/
theorem get_content (updates : List (Update K T)) (key : K) :
    (content s updates).get key = lastSet s updates key := by
  have hfold (m : InsertionMap s T) : (updates.foldl (Update.apply s) m).get key =
      updates.foldl (fun value update =>
        match update with
        | .set k v => if s.r k key then some v else value
        | .delete k => if s.r k key then none else value
        | .clear => none) (m.get key) := by
    induction updates generalizing m with
    | nil => rfl
    | cons update updates ih =>
      rw [List.foldl_cons, List.foldl_cons, ih]
      cases update with
      | set k v => rw [Update.apply, InsertionMap.get_set]
      | delete k => rw [Update.apply, InsertionMap.get_delete]
      | clear => rfl
  exact hfold .empty

end

variable {τ K T : Type} [DecidableEq τ] {host : MapHost τ K T} {s : Setoid K} [DecidableRel s.r]

/-- Both maps are images of a map over the keys. -/
structure Represents (host : MapHost τ K T) (m : MichelsonMap τ K T) (p : InsertionMap s T) :
    Prop where
  keyMap : InsertionMap.ImageOf host.stringify Prod.fst p m.keyMap
  valueMap : InsertionMap.ImageOf host.stringify Prod.snd p m.valueMap

/-! ## Operations -/

omit [DecidableEq τ] in
/-- An assertion changes nothing. -/
theorem assertTypecheck_run {α : Type} (errorType : ErrorType) (schema : Option (α → Option Bool))
    (x : α) (m : MichelsonMap τ K T) :
    (schema.all (fun typecheck => typecheck x = some true) = true ∧
        (assertTypecheck errorType schema x).run m = .ok () m) ∨
      (schema.all (fun typecheck => typecheck x = some true) = false ∧
        ∃ e, (assertTypecheck errorType schema x).run m = .error e m) := by
  cases schema with
  | none => exact .inl ⟨rfl, rfl⟩
  | some typecheck =>
    cases h : typecheck x with
    | none => exact .inr ⟨by simp [h], _, by rw [assertTypecheck, h]; rfl⟩
    | some b =>
      cases b with
      | false => exact .inr ⟨by simp [h], _, by rw [assertTypecheck, h]; rfl⟩
      | true => exact .inl ⟨by simp [h], by rw [assertTypecheck, h]; rfl⟩

omit [DecidableEq τ] in
theorem assertTypecheckKey_run (m : MichelsonMap τ K T) (key : K) :
    (takesKey m.mapType key = true ∧ (assertTypecheckKey key).run m = .ok () m) ∨
      (takesKey m.mapType key = false ∧ ∃ e, (assertTypecheckKey key).run m = .error e m) := by
  have h := assertTypecheck_run .key (m.mapType.map fun t => t.keySchema) key m
  rw [Option.all_map] at h
  exact h

omit [DecidableEq τ] in
theorem assertTypecheckValue_run (m : MichelsonMap τ K T) (value : T) :
    (takesValue m.mapType value = true ∧ (assertTypecheckValue value).run m = .ok () m) ∨
      (takesValue m.mapType value = false ∧
        ∃ e, (assertTypecheckValue value).run m = .error e m) := by
  have h := assertTypecheck_run .value (m.mapType.map fun t => t.valueSchema) value m
  rw [Option.all_map] at h
  exact h

/-- The map with a key set. -/
def MichelsonMap.withEntry (host : MapHost τ K T) (key : K) (value : T) (m : MichelsonMap τ K T) :
    MichelsonMap τ K T where
  keyMap := m.keyMap.set (host.stringify key) key
  valueMap := m.valueMap.set (host.stringify key) value
  mapType := m.mapType

theorem setValue_run (m : MichelsonMap τ K T) (key : K) (value : T) :
    (takesKey m.mapType key = true ∧ takesValue m.mapType value = true ∧
        (setValue host key value).run m = .ok () (m.withEntry host key value)) ∨
      (¬ (takesKey m.mapType key = true ∧ takesValue m.mapType value = true) ∧
        ∃ e, (setValue host key value).run m = .error e m) := by
  obtain ⟨hkey, hrun⟩ | ⟨hkey, e, hrun⟩ := assertTypecheckKey_run m key
  · obtain ⟨hvalue, hrun'⟩ | ⟨hvalue, e, hrun'⟩ := assertTypecheckValue_run m value
    · refine .inl ⟨hkey, hvalue, ?_⟩
      simp only [setValue, EStateM.run_bind, hrun, hrun']
      rfl
    · refine .inr ⟨by simp [hvalue], e, ?_⟩
      simp only [setValue, EStateM.run_bind, hrun, hrun']
  · refine .inr ⟨by simp [hkey], e, ?_⟩
    simp only [setValue, EStateM.run_bind, hrun]

/-- The map without a key. -/
def MichelsonMap.withoutKey (host : MapHost τ K T) (key : K) (m : MichelsonMap τ K T) :
    MichelsonMap τ K T where
  keyMap := m.keyMap.delete (host.stringify key)
  valueMap := m.valueMap.delete (host.stringify key)
  mapType := m.mapType

theorem deleteKey_run (m : MichelsonMap τ K T) (key : K) :
    (takesKey m.mapType key = true ∧
        (deleteKey host key).run m = .ok () (m.withoutKey host key)) ∨
      (takesKey m.mapType key = false ∧ ∃ e, (deleteKey host key).run m = .error e m) := by
  obtain ⟨hkey, hrun⟩ | ⟨hkey, e, hrun⟩ := assertTypecheckKey_run m key
  · refine .inl ⟨hkey, ?_⟩
    simp only [deleteKey, EStateM.run_bind, hrun]
    rfl
  · refine .inr ⟨hkey, e, ?_⟩
    simp only [deleteKey, EStateM.run_bind, hrun]

/-- The entries of an object, set one after the other: all of them, or as many as are accepted. -/
theorem forM_setValue_run (obj : List (JSString × T)) (m : MichelsonMap τ K T) :
    ((obj.all fun field =>
          takesKey m.mapType (host.ofString field.1) && takesValue m.mapType field.2) = true ∧
        (obj.forM fun field => setValue host (host.ofString field.1) field.2).run m =
          .ok () (obj.foldl (fun m field => m.withEntry host (host.ofString field.1) field.2) m)) ∨
      ((obj.all fun field =>
          takesKey m.mapType (host.ofString field.1) && takesValue m.mapType field.2) = false ∧
        ∃ e m', (obj.forM fun field => setValue host (host.ofString field.1) field.2).run m =
          .error e m') := by
  induction obj generalizing m with
  | nil => exact .inl ⟨rfl, rfl⟩
  | cons field obj ih =>
    rw [List.forM, List.all_cons, EStateM.run_bind]
    obtain ⟨hkey, hvalue, hrun⟩ | ⟨hrefused, e, hrun⟩ :=
      @setValue_run τ K T _ host m (host.ofString field.1) field.2
    · rw [hrun, hkey, hvalue]
      exact ih (m.withEntry host (host.ofString field.1) field.2)
    · refine .inr ⟨?_, e, m, by rw [hrun]⟩
      rw [← Bool.and_eq_true] at hrefused
      rw [Bool.eq_false_iff.mpr hrefused, Bool.false_and]

/-- The entries of an object, set in a map and in what it represents. -/
theorem Represents.withEntries (htext : ∀ k k', host.stringify k = host.stringify k' ↔ s.r k k')
    (obj : List (JSString × T)) {m : MichelsonMap τ K T} {p : InsertionMap s T}
    (h : Represents host m p) :
    Represents host
        (obj.foldl (fun m field => m.withEntry host (host.ofString field.1) field.2) m)
        ((obj.map fun field => Update.set (host.ofString field.1) field.2).foldl
          (Update.apply s) p) ∧
      (obj.foldl (fun m field => m.withEntry host (host.ofString field.1) field.2) m).mapType =
        m.mapType := by
  induction obj generalizing m p with
  | nil => exact ⟨h, rfl⟩
  | cons field obj ih =>
    have hstep : Represents host (m.withEntry host (host.ofString field.1) field.2)
        (p.set (host.ofString field.1) field.2) :=
      ⟨h.keyMap.set htext _ field.2, h.valueMap.set htext _ field.2⟩
    exact ih hstep

/-- What an operation does: it is accepted, and makes its changes, or throws and makes none. -/
theorem perform_run (htext : ∀ k k', host.stringify k = host.stringify k' ↔ s.r k k')
    (m : MichelsonMap τ K T) (op : Op K T) :
    (∃ mapType updates m', accept host m.mapType op = some (mapType, updates) ∧
        (perform host op).run m = .ok () m' ∧ m'.mapType = mapType ∧
        ∀ p : InsertionMap s T, Represents host m p →
          Represents host m' (updates.foldl (Update.apply s) p)) ∨
      (accept host m.mapType op = none ∧ ∃ e, (perform host op).run m = .error e m) := by
  cases op with
  | set key value =>
    rw [accept, perform]
    obtain ⟨hkey, hvalue, hrun⟩ | ⟨hrefused, e, hrun⟩ := @setValue_run τ K T _ host m key value
    · refine .inl ⟨_, _, _, if_pos ⟨hkey, hvalue⟩, hrun, rfl, fun p h => ?_⟩
      exact ⟨h.keyMap.set htext key value, h.valueMap.set htext key value⟩
    · exact .inr ⟨if_neg hrefused, e, hrun⟩
  | delete key =>
    rw [accept, perform]
    obtain ⟨hkey, hrun⟩ | ⟨hkey, e, hrun⟩ := @deleteKey_run τ K T _ host m key
    · refine .inl ⟨_, _, _, if_pos hkey, hrun, rfl, fun p h => ?_⟩
      exact ⟨h.keyMap.delete htext key, h.valueMap.delete htext key⟩
    · exact .inr ⟨if_neg (Bool.eq_false_iff.mp hkey), e, hrun⟩
  | clear =>
    refine .inl ⟨_, _, { m with keyMap := .empty, valueMap := .empty }, rfl, rfl, rfl,
      fun p _ => ?_⟩
    exact ⟨InsertionMap.imageOf_empty, InsertionMap.imageOf_empty⟩
  | fromLiteral obj type =>
    rw [accept, perform, fromLiteral, newMap]
    cases htype : type.mapM (setType host) with
    | error e => exact .inr ⟨rfl, e, rfl⟩
    | ok mapType =>
      have hmap := @forM_setValue_run τ K T _ host obj
        { valueMap := .empty, keyMap := .empty, mapType }
      simp only [Except.ok_bind, Except.pure_eq_ok]
      obtain ⟨hall, hrun⟩ | ⟨hrefused, e, m', hrun⟩ := hmap
      · rw [if_pos hall, hrun]
        have hempty : Represents host ⟨.empty, .empty, mapType⟩ (.empty : InsertionMap s T) :=
          ⟨InsertionMap.imageOf_empty, InsertionMap.imageOf_empty⟩
        obtain ⟨hrepresents, htypes⟩ := hempty.withEntries htext obj
        exact .inl ⟨_, _, _, rfl, rfl, htypes, fun p _ => hrepresents⟩
      · rw [if_neg (Bool.eq_false_iff.mp hrefused), hrun]
        exact .inr ⟨rfl, e, rfl⟩

/-! ## Runs -/

/-- After any operations a map represents what the accepted ones left. -/
theorem represents_performAll
    (htext : ∀ k k', host.stringify k = host.stringify k' ↔ s.r k k') (ops : List (Op K T))
    {m : MichelsonMap τ K T} {p : InsertionMap s T} (h : Represents host m p) :
    Represents host (performAll host ops m)
      ((accepted host m.mapType ops).foldl (Update.apply s) p) := by
  induction ops generalizing m p with
  | nil => exact h
  | cons op ops ih =>
    rw [performAll, List.foldl_cons, accepted]
    obtain ⟨mapType, updates, m', haccept, hrun, htype, hstep⟩ | ⟨haccept, e, hrun⟩ :=
      perform_run htext m op
    · rw [haccept, hrun, List.foldl_append, ← htype]
      exact ih (hstep p h)
    · rw [haccept, hrun]
      exact ih h

/-- What a map of a type shows after changes. -/
structure MapMeets (host : MapHost τ K T) (s : Setoid K) [DecidableRel s.r]
    (m : MichelsonMap τ K T) (updates : List (Update K T)) : Prop where
  /-- Both maps have the same keys. -/
  domain : m.keyMap.keys = m.valueMap.keys
  /-- There are as many as there are keys present, which are pairwise different. -/
  size : m.size = (content s updates).size
  /-- A key has the value last set for it. -/
  get (key : K) : takesKey m.mapType key = true →
    (getValue host key).run m = .ok (lastSet s updates key) m
  /-- A key is there if it has a value. -/
  has (key : K) : takesKey m.mapType key = true →
    (hasKey host key).run m = .ok (lastSet s updates key).isSome m
  /-- Keys of the wrong type are refused. -/
  refused (key : K) : takesKey m.mapType key = false →
    ∃ e, (getValue host key).run m = .error e m ∧ (hasKey host key).run m = .error e m
  /-- The keys that have a value are those of the entries. -/
  present (key : K) : (lastSet s updates key).isSome ↔
    ∃ e ∈ (content s updates).entries, s.r e.1 key
  /-- The entries are yielded in the order of insertion. -/
  entries : m.entries = (content s updates).entries.map fun e => (some e.1, some e.2)
  keys : m.keys = (content s updates).entries.map fun e => some e.1
  values : m.values = (content s updates).entries.map fun e => some e.2
  forEach : m.forEach = (content s updates).entries.map fun e => (some e.2, some e.1)

theorem Represents.entries_eq {m : MichelsonMap τ K T} {p : InsertionMap s T}
    (htext : ∀ k k', host.stringify k = host.stringify k' ↔ s.r k k') (h : Represents host m p) :
    m.entries = p.entries.map fun e => (some e.1, some e.2) := by
  rw [MichelsonMap.entries, h.valueMap.keys_eq, InsertionMap.keys, List.map_map, List.map_map]
  apply List.map_congr_left
  intro e he
  show (m.keyMap.get (host.stringify e.1), m.valueMap.get (host.stringify e.1)) = _
  rw [h.keyMap.get htext, h.valueMap.get htext, InsertionMap.find?_entries he]
  rfl

/-- A map that represents what changes left shows it. -/
theorem Represents.meets {m : MichelsonMap τ K T}
    (htext : ∀ k k', host.stringify k = host.stringify k' ↔ s.r k k') {updates : List (Update K T)}
    (h : Represents host m (content s updates)) : MapMeets host s m updates := by
  have hentries := h.entries_eq htext
  have hvalue (key : K) : m.valueMap.get (host.stringify key) = lastSet s updates key := by
    rw [h.valueMap.get htext, ← get_content]
    rfl
  have hkey (key : K) : (m.keyMap.get (host.stringify key)).isSome =
      (lastSet s updates key).isSome := by
    rw [h.keyMap.get htext, ← hvalue, h.valueMap.get htext, Option.isSome_map, Option.isSome_map]
  constructor
  case domain => rw [h.keyMap.keys_eq, h.valueMap.keys_eq]
  case size => exact h.keyMap.size_eq
  case get =>
    intro key htakes
    obtain ⟨-, hrun⟩ | ⟨hrefused, -⟩ := assertTypecheckKey_run m key
    · simp only [getValue, EStateM.run_bind, hrun]
      exact congrArg (EStateM.Result.ok · m) (hvalue key)
    · rw [htakes] at hrefused
      cases hrefused
  case has =>
    intro key htakes
    obtain ⟨-, hrun⟩ | ⟨hrefused, -⟩ := assertTypecheckKey_run m key
    · simp only [hasKey, EStateM.run_bind, hrun]
      refine congrArg (EStateM.Result.ok · m) ?_
      show (m.keyMap.has (host.stringify key) && m.valueMap.has (host.stringify key)) = _
      rw [InsertionMap.has_eq, InsertionMap.has_eq, hkey, hvalue, Bool.and_self]
    · rw [htakes] at hrefused
      cases hrefused
  case refused =>
    intro key hrefuses
    obtain ⟨htakes, -⟩ | ⟨-, e, hrun⟩ := assertTypecheckKey_run m key
    · rw [hrefuses] at htakes
      cases htakes
    · refine ⟨e, ?_, ?_⟩
      · simp only [getValue, EStateM.run_bind, hrun]
      · simp only [hasKey, EStateM.run_bind, hrun]
  case present =>
    intro key
    rw [← get_content, ← InsertionMap.has_eq, InsertionMap.has, List.any_eq_true]
    simp only [decide_eq_true_eq]
  case entries => exact hentries
  case keys =>
    rw [MichelsonMap.keys, hentries, List.map_map]
    rfl
  case values =>
    rw [MichelsonMap.values, hentries, List.map_map]
    rfl
  case forEach =>
    rw [MichelsonMap.forEach, hentries, List.map_map]
    rfl

/-- **After any operations on a new map, both of its maps hold what the accepted ones left**, and an
operation that throws changes nothing. -/
theorem performAll_meets {τ K T : Type} [DecidableEq τ] (host : MapHost τ K T) (s : Setoid K)
    [DecidableRel s.r] (htext : ∀ k k', host.stringify k = host.stringify k' ↔ s.r k k')
    (mapType : Option Expr) (m : MichelsonMap τ K T) (hnew : newMap host mapType = .ok m)
    (ops : List (Op K T)) :
    MapMeets host s (performAll host ops m) (accepted host m.mapType ops) ∧
      ∀ op e m', (perform host op).run (performAll host ops m) = .error e m' →
        m' = performAll host ops m := by
  have hempty : Represents host m (.empty : InsertionMap s T) := by
    obtain ⟨t, -, hm⟩ := Except.bind_eq_ok.mp hnew
    cases hm
    exact ⟨InsertionMap.imageOf_empty, InsertionMap.imageOf_empty⟩
  refine ⟨(represents_performAll htext ops hempty).meets htext, fun op e m' h => ?_⟩
  obtain ⟨_, _, _, -, hrun, -⟩ | ⟨-, e', hrun⟩ := perform_run htext (performAll host ops m) op
  · rw [hrun] at h
    cases h
  · rw [hrun] at h
    cases h
    rfl

/-! ## Keys of the encoder -/

/-- Values with the same JSON, in which the fields of objects are sorted. -/
def jsonKeys (host : Host) : Setoid Val where
  r v w := v.toJson host = w.toJson host
  iseqv := ⟨fun _ => rfl, fun h => h.symm, fun h h' => h.trans h'⟩

/-- Values are written alike exactly when they have the same JSON. -/
theorem serialize_eq_iff (host : Host) (v w : Val) :
    v.serialize host = w.serialize host ↔ (jsonKeys host).r v w := by
  refine ⟨toJson_eq_of_serialize_eq, fun h => ?_⟩
  have h : v.toJson host = w.toJson host := h
  rw [Val.serialize, Val.serialize, h]

instance jsonKeysDecidable (host : Host) : DecidableRel (jsonKeys host).r :=
  fun v w => decidable_of_iff _ (serialize_eq_iff host v w)

/-- The schemas of texts and of booleans. -/
def textToBool : MapType Val Val where
  keySchema
    | .string _ => some true
    | _ => some false
  valueSchema
    | .bool _ => some true
    | _ => some false

/-- Maps from texts to booleans. -/
def textMaps : MapHost (Option JSString) Val Val where
  stringify := Val.serialize .decimal
  ofString := .string
  keySchema _ := some textToBool.keySchema
  valueSchema _ := some textToBool.valueSchema

/-- Two operations on a map with a type, of which the second throws. -/
theorem performAll_meets_textMaps :
    MapMeets textMaps (jsonKeys .decimal)
        (performAll textMaps [.set (.string (js "a")) (.bool true), .delete .null]
          ⟨.empty, .empty, some textToBool⟩)
        (accepted textMaps (some textToBool)
          [.set (.string (js "a")) (.bool true), .delete .null]) ∧
      ∀ op e m', (perform textMaps op).run
          (performAll textMaps [.set (.string (js "a")) (.bool true), .delete .null]
            ⟨.empty, .empty, some textToBool⟩) = .error e m' →
        m' = performAll textMaps [.set (.string (js "a")) (.bool true), .delete .null]
          ⟨.empty, .empty, some textToBool⟩ :=
  performAll_meets textMaps (jsonKeys .decimal) (serialize_eq_iff .decimal)
    (some (.prim "map" (some [.prim "string" none none, .prim "bool" none none]) none))
    ⟨.empty, .empty, some textToBool⟩ rfl [.set (.string (js "a")) (.bool true), .delete .null]

end MichelsonMaps
