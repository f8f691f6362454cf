import Taquito.Js.Text
import Taquito.Lib.Reader

/-!
# Reads of big maps

A read of a key passes through four layers: `fetch`, the HTTP backend, which classifies what comes
back, the provider, which encodes the key and decodes the value, and the abstraction of the big map,
where a missing key is to be `undefined`. `getBigMapKeysByID` reads many keys in batches, whose
requests run at the same time: it is a state that every settled request takes a step further, in any
order.

The encoding of the keys and the decoding of the values are parameters.
-/

open Js

namespace BigMaps

/-! ## HTTP -/

/-- What comes of a request: a response with its status and its body (`none` where it is no JSON),
or none. -/
inductive Answer (J : Type) where
  | response (status : ℕ) (body : Option J)
  | noResponse

/-- The errors, as far as they are told apart. -/
inductive ReadError where
  | HttpResponseError (status : ℕ)
  | HttpRequestFailed
  /-- What `fetch` or `res.json()` throws. -/
  | FetchError
  | BigMapEncodingError
  /-- What the decoding of a value throws. -/
  | ExecuteError
  deriving DecidableEq, Repr

/-- `STATUS_CODE.NOT_FOUND`. -/
def NOT_FOUND : ℕ := 404

/-- The body of the `try` of `createRequest`. -/
def tryRequest {J : Type} : Answer J → Except ReadError J
  | .noResponse => .error .FetchError
  | .response status body =>
    if ¬(200 ≤ status ∧ status ≤ 299) then .error (.HttpResponseError status)
    else
      match body with
      | none => .error .FetchError
      | some json => .ok json

/-- `createRequest`: the `catch` takes the errors of the `try`, whatever they are. -/
def createRequest {J : Type} (answer : Answer J) : Except ReadError J :=
  match tryRequest answer with
  | .ok json => .ok json
  | .error _ => .error .HttpRequestFailed

/-! ## One key -/

/-- The schema of a big map, for its keys, the JSON of its values and the decoded values. -/
structure Schema (K J V : Type) where
  /-- `encodeExpr` of the packed key; `none` where a step throws. -/
  encodedExpr : K → Option JSString
  /-- `ExecuteOnBigMapValue`. -/
  ExecuteOnBigMapValue : J → Option V

/-- A request of a value: the block, the big map and the hash of the key. -/
structure Request where
  block : JSString
  id : JSString
  expr : JSString
  deriving DecidableEq, Repr

section key

variable {K J V : Type} (schema : Schema K J V) (id : JSString)

/-- The block that `getBigMapKeyByID` names: a block that is falsy counts as none. -/
def blockText : Option ℕ → JSString
  | none => js "head"
  | some 0 => js "head"
  | some block => natText block

/-- The request that `getBigMapKeyByID` makes, if the key is encoded. -/
def requestOf (key : K) (block : Option ℕ) : Option Request :=
  (schema.encodedExpr key).map fun expr => { block := blockText block, id, expr }

/-- `getBigMapKeyByID`, with the answer to its request. -/
def getBigMapKeyByID (key : K) (answer : Answer J) : Except ReadError V := do
  let _ ← (schema.encodedExpr key).elim (.error .BigMapEncodingError) .ok
  let value ← createRequest answer
  (schema.ExecuteOnBigMapValue value).elim (.error .ExecuteError) .ok

/-- `get` of the abstraction. -/
def get (key : K) (answer : Answer J) : Except ReadError (Option V) :=
  match getBigMapKeyByID schema key answer with
  | .ok value => .ok (some value)
  | .error e => if e = .HttpResponseError NOT_FOUND then .ok none else .error e

/-- `getBigMapValueOrUndefined`. -/
def getBigMapValueOrUndefined (key : K) (answer : Answer J) : Except ReadError (Option V) :=
  match getBigMapKeyByID schema key answer with
  | .ok value => .ok (some value)
  | .error ex => if ex = .HttpResponseError NOT_FOUND then .ok none else .error ex

end key

/-! ## Many keys -/

/-- A `MichelsonMap`: its keys by their texts, in order of insertion, with the values. -/
abbrev MichelsonMap (K V : Type) := List (JSString × K × V)

/-- `set`. -/
def MichelsonMap.set {K V : Type} (stringify : K → JSString) (map : MichelsonMap K V) (key : K)
    (value : V) : MichelsonMap K V :=
  if map.any fun entry => entry.1 = stringify key then
    map.map fun entry => if entry.1 = stringify key then (stringify key, key, value) else entry
  else map ++ [(stringify key, key, value)]

/-- `entries`. -/
def MichelsonMap.entries {K V : Type} (map : MichelsonMap K V) : List (K × V) :=
  map.map fun entry => entry.2

/-- What `getBigMapKeysByID` is called with, and the answers to its requests: that of the head, and
that for each key by its position. -/
structure Call (K J V : Type) where
  stringify : K → JSString
  schema : Schema K J V
  id : JSString
  keys : List K
  block : Option ℕ
  batchSize : ℕ
  head : Answer ℕ
  answers : ℕ → Answer J

/-- Where a call stands. -/
inductive State (K V : Type) where
  /-- The level of the head is asked for. -/
  | level
  /-- A batch from a position on, with what its requests are settled to and the results before. -/
  | batch (level : Option ℕ) (position : ℕ) (settled : List (Option (Option V)))
    (results : List (Option V))
  | resolved (level : Option ℕ) (map : MichelsonMap K (Option V))
  | rejected (e : ReadError)

/-- What settles. -/
inductive Event where
  | level
  | request (i : ℕ)

namespace Call

variable {K J V : Type} (call : Call K J V)

/-- The `for` loop over the results. -/
def bigMapValues (results : List (Option V)) : MichelsonMap K (Option V) :=
  (call.keys.zip results).foldl (fun map entry => map.set call.stringify entry.1 entry.2) []

/-- The head of the `while` loop. -/
def loop (level : Option ℕ) (position : ℕ) (results : List (Option V)) : State K V :=
  if position < call.keys.length then
    .batch level position
      (List.replicate ((call.keys.drop position).take call.batchSize).length none) results
  else .resolved level (call.bigMapValues results)

/-- `getBlockForRequest`. -/
def getBlockForRequest : Except ReadError (Option ℕ) :=
  if call.keys.length = 1 ∨ call.block.isSome then .ok call.block
  else (createRequest call.head).map some

/-- The start of `getBigMapKeysByID`: the level of the head is asked for unless there is one key or
a block. -/
def start : State K V :=
  if call.keys.length = 1 ∨ call.block.isSome then call.loop call.block 0 [] else .level

/-- What the read of the key at a position comes to. -/
def outcome (i : ℕ) : Except ReadError (Option V) :=
  match call.keys[i]? with
  | none => .error .FetchError
  | some key => getBigMapValueOrUndefined call.schema key (call.answers i)

/-- A settled request of a batch: `Promise.all` rejects with the first error, and resolves to the
results by position when there is none. -/
def settle (level : Option ℕ) (position : ℕ) (settled : List (Option (Option V)))
    (results : List (Option V)) (i : ℕ) : State K V :=
  match settled[i]? with
  | some none =>
    match call.outcome (position + i) with
    | .error e => .rejected e
    | .ok value =>
      if (settled.set i (some value)).all Option.isSome then
        call.loop level (position + call.batchSize)
          (results ++ (settled.set i (some value)).filterMap fun value => value)
      else .batch level position (settled.set i (some value)) results
  | _ => .batch level position settled results

/-- One step. -/
def step : Event → State K V → State K V
  | .level, .level =>
    match call.getBlockForRequest with
    | .ok level => call.loop level 0 []
    | .error e => .rejected e
  | .request i, .batch level position settled results => call.settle level position settled results i
  | _, state => state

/-- A run. -/
def run (events : List Event) : State K V :=
  events.foldl (fun state event => call.step event state) call.start

end Call

end BigMaps
