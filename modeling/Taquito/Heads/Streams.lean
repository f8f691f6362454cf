import Mathlib.Data.Int.Order.Basic
import Taquito.Js.Text

/-!
# Streams of heads

An operation listens to the heads of the chain. Its stream asks for the blocks between the last head
that it emitted and a new one (`range`, `concatMap`) and ends with the new head (`endWith`); the
next head cancels what is still under way (`switchMap`). The two kinds of operations share this
stream and differ in what subscribes to it, so that the stream is a machine over a consumer.

Heads, replies and the acts of subscribers come in any order. An `error` event stands for a reply
that fails and for a timeout; after it the stream is silent.
-/

open Js

namespace Heads

/-- What the streams read of a block: its level, its hash and the hashes of the operations in its
four passes. -/
structure Block where
  level : ℤ
  hash : JSString
  operations : Fin 4 → List JSString

/-- The blocks of a chain without reorganisation, by their levels. -/
structure Chain where
  block : ℤ → Block
  level_block : ∀ level, (block level).level = level
  hash_injective : ∀ {level level'}, (block level).hash = (block level').hash → level = level'

/-- What subscribes to the stream. -/
structure Consumer (σ ε : Type) where
  /-- A block is emitted, after others. -/
  next : List Block → Block → σ → σ
  /-- Something else happens, after the blocks that were emitted. -/
  act : ε → List Block → σ → σ
  /-- Whether anything is still subscribed: without it the source is left. -/
  subscribed : σ → Bool

/-- The state of a stream, of which `emitted` is also the buffer of a replay. -/
structure Stream (σ : Type) where
  lastHead : Option Block
  /-- The inner observable: the levels to ask for, the first of which is under way, and the head
  that it ends with. -/
  inner : Option (List ℤ × Block)
  emitted : List Block
  failed : Bool
  sink : σ

/-- What happens. -/
inductive Event (ε : Type) where
  | head (level : ℤ)
  | reply
  | error
  | act (e : ε)

/-- `range`. -/
def range (start count : ℤ) : List ℤ := (List.range count.toNat).map fun i : ℕ => start + i

section machine

variable {σ ε : Type} (chain : Chain) (consumer : Consumer σ ε)

/-- A block leaves the inner observable. -/
def emit (block : Block) (s : Stream σ) : Stream σ :=
  { s with
    lastHead := some block
    emitted := s.emitted ++ [block]
    sink := consumer.next s.emitted block s.sink }

/-- The rest of an inner observable. -/
def continueWith (levels : List ℤ) (newHead : Block) (s : Stream σ) : Stream σ :=
  match levels with
  | [] => emit consumer newHead { s with inner := none }
  | level :: levels => { s with inner := some (level :: levels, newHead) }

/-- A new head, which takes the place of the inner observable. -/
def receive (newHead : Block) (s : Stream σ) : Stream σ :=
  let prevHead := (s.lastHead.map Block.level).getD (newHead.level - 1)
  continueWith consumer (range (prevHead + 1) (newHead.level - prevHead - 1)) newHead s

/-- The reply of `getBlock` that is under way. -/
def reply (s : Stream σ) : Stream σ :=
  match s.inner with
  | some (level :: levels, newHead) =>
    let s := emit consumer (chain.block level) { s with inner := none }
    if consumer.subscribed s.sink then continueWith consumer levels newHead s else s
  | _ => s

/-- Something is subscribed, and nothing failed. -/
def Stream.alive (s : Stream σ) : Bool := !s.failed && consumer.subscribed s.sink

/-- One step. -/
def step (s : Stream σ) (event : Event ε) : Stream σ :=
  if s.alive consumer then
    match event with
    | .head level => receive consumer (chain.block level) s
    | .reply => reply chain consumer s
    | .error => { s with failed := true, inner := none }
    | .act e => { s with sink := consumer.act e s.emitted s.sink }
  else s

/-- A stream that is subscribed to. -/
def Stream.start (sink : σ) : Stream σ where
  lastHead := none
  inner := none
  emitted := []
  failed := false
  sink := sink

/-- A run. -/
def run (sink : σ) (events : List (Event ε)) : Stream σ :=
  events.foldl (step chain consumer) (Stream.start sink)

/-- The levels of the delivered heads. -/
def heads (events : List (Event ε)) : List ℤ :=
  events.filterMap fun event =>
    match event with
    | .head level => some level
    | _ => none

end machine

/-! ## `WalletOperation` -/

/-- What `confirmationObservable` emits. -/
structure Confirmation where
  block : Block
  expectedConfirmation : ℤ
  currentConfirmation : ℤ
  completed : Bool

/-- A subscription of `confirmationObservable`: the last head that `combineLatest` holds, and what
was emitted. -/
structure Observer where
  conf : ℤ
  head : Option Block
  emitted : List Confirmation
  completed : Bool

/-- The operation: the block it is included in, and the subscriptions. -/
structure WalletOperation where
  includedInBlock : Option Block
  observers : List Observer

/-- The confirmation of an operation in a block, at a head. -/
def confirmationAt (conf : ℤ) (foundAtBlock head : Block) : Confirmation where
  block := head
  expectedConfirmation := conf
  currentConfirmation := head.level - foundAtBlock.level + 1
  completed := head.level - foundAtBlock.level ≥ conf - 1

/-- A pair of `combineLatest`: `distinctUntilChanged`, `map` and `takeWhile`. -/
def Observer.combined (foundAtBlock head : Block) (o : Observer) : Observer :=
  if o.completed || (o.emitted.getLast?.map fun c => c.block.hash) = some head.hash then o
  else
    { o with
      emitted := o.emitted ++ [confirmationAt o.conf foundAtBlock head]
      completed := (confirmationAt o.conf foundAtBlock head).completed }

/-- `combineLatest` gets the block of inclusion. -/
def Observer.onIncluded (foundAtBlock : Block) (o : Observer) : Observer :=
  match o.head with
  | none => o
  | some head => o.combined foundAtBlock head

/-- `combineLatest` gets a head. -/
def Observer.onHead (includedInBlock : Option Block) (head : Block) (o : Observer) : Observer :=
  match includedInBlock with
  | none => { o with head := some head }
  | some foundAtBlock => { o with head := some head }.combined foundAtBlock head

/-- Some pass has the operation. -/
def Block.contains (block : Block) (opHash : JSString) : Bool :=
  [0, 1, 2, 3].any fun pass => (block.operations pass).contains opHash

/-- `confirmed$`, the first subscriber of `newHead$`: until the operation is found. -/
def WalletOperation.confirmed (opHash : JSString) (head : Block) (op : WalletOperation) :
    WalletOperation :=
  if op.includedInBlock.isNone && head.contains opHash then
    { includedInBlock := some head
      observers := op.observers.map fun o => o.onIncluded head }
  else op

/-- A block of `newHead$`. -/
def WalletOperation.next (opHash : JSString) (head : Block) (op : WalletOperation) :
    WalletOperation :=
  let op := op.confirmed opHash head
  { op with observers := op.observers.map fun o => o.onHead op.includedInBlock head }

/-- `confirmationObservable(confirmations)`, subscribed to: `newHead$` replays its last head.
Without a number the default counts; the method throws without either, and for a number below one.
-/
def WalletOperation.confirmationObservable (defaultConfirmationCount confirmations : Option ℤ)
    (emitted : List Block) (op : WalletOperation) : WalletOperation :=
  if confirmations.any fun confirmations => confirmations < 1 then op
  else
    match confirmations.or defaultConfirmationCount with
    | none => op
    | some conf =>
      let o : Observer := { conf, head := none, emitted := [], completed := false }
      let o := match emitted.getLast? with
        | none => o
        | some head => o.onHead op.includedInBlock head
      { op with observers := op.observers ++ [o] }

/-- The subscribers of `newHead$`. -/
def walletConsumer (opHash : JSString) (defaultConfirmationCount : Option ℤ) :
    Consumer WalletOperation (Option ℤ) where
  next _ head op := op.next opHash head
  act confirmations emitted op :=
    op.confirmationObservable defaultConfirmationCount confirmations emitted
  subscribed op := op.includedInBlock.isNone || op.observers.any fun o => !o.completed

/-- An operation that was just sent. -/
def WalletOperation.sent : WalletOperation := { includedInBlock := none, observers := [] }

/-! ## `Operation` -/

/-- The operation with one call of `confirmation`, which starts the stream. -/
structure Operation where
  conf : ℤ
  /-- `_foundAt`; `none` is infinite. -/
  foundAt : Option ℤ
  /-- `confirmed$` emitted. -/
  confirmed : Bool
  /-- What the promise of `confirmation` is resolved with. -/
  resolved : Option ℤ

/-- The `map` of `confirmed$`. -/
def Operation.find (opHash : JSString) (head : Block) (op : Operation) : Operation :=
  [3, 2, 1, 0].foldl (fun op pass =>
    if (head.operations pass).contains opHash then { op with foundAt := some head.level } else op) op

/-- The `filter` and `first` of `confirmation`, over blocks that `currentHead$` replays or emits. -/
def Operation.await (foundAt : ℤ) (blocks : List Block) (op : Operation) : Operation :=
  if blocks.any fun head => head.level - foundAt ≥ op.conf - 1 then
    { op with resolved := some (foundAt + (op.conf - 1)) }
  else op

/-- A block of `currentHead$`, after others: `confirmed$` emits once, whereupon `confirmation`
subscribes and all blocks are replayed. -/
def Operation.next (opHash : JSString) (emitted : List Block) (head : Block) (op : Operation) :
    Operation :=
  if op.confirmed then
    match op.foundAt with
    | none => op
    | some foundAt => op.await foundAt [head]
  else
    let op := op.find opHash head
    match op.foundAt with
    | none => op
    | some foundAt =>
      if head.level - foundAt ≥ 0 then
        { op with confirmed := true }.await foundAt (emitted ++ [head])
      else op

/-- The subscribers of `currentHead$`. -/
def operationConsumer (opHash : JSString) : Consumer Operation Empty where
  next emitted head op := op.next opHash emitted head
  act e _ _ := e.elim
  subscribed op := op.resolved.isNone

/-- `confirmation(conf)` of an operation that was just sent. -/
def Operation.confirmation (conf : ℤ) : Operation :=
  { conf, foundAt := none, confirmed := false, resolved := none }

end Heads
