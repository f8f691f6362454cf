import Mathlib.Data.List.Nodup
import Taquito.Js.Json
import Taquito.Lib.Sorting
import Taquito.Lib.TimedCache
import Taquito.Utils.Validators

/-!
# The cache of RPC responses

`RpcClientCache` answers a call from its cache, or asks the client under it and keeps the response
until a timer removes it. A response is kept under a text made of the method and its arguments, and
nothing but that text is compared: `key_injective` says that it determines the call if no string
among the arguments contains `/`.

`deleteAllCachedData` deletes the responses and leaves their timers running, so a timer can remove a
response that was put under its key later. `served` says that every response is nevertheless a
recent one, and that in the runs in which no timer is left behind for a key that is asked for again
(`Session.Undisturbed`) no call is asked for twice within the time to live.
-/

open Js TimedCache

namespace Rpc

/-! ## Keys -/

/-- The names of the cached methods, of `RPCMethodName`. -/
inductive RPCMethodName where
  | GET_BLOCK_HASH | GET_LIVE_BLOCKS | GET_BALANCE | GET_STORAGE | GET_SCRIPT
  | GET_NORMALIZED_SCRIPT | GET_CONTRACT | GET_MANAGER_KEY | GET_DELEGATE | GET_BIG_MAP_KEY
  | GET_BIG_MAP_EXPR | GET_DELEGATES | GET_VOTING_INFO | GET_CONSTANTS | GET_BLOCK
  | GET_BLOCK_HEADER | GET_BLOCK_METADATA | GET_BAKING_RIGHTS | GET_ENDORSING_RIGHTS
  | GET_BALLOT_LIST | GET_BALLOTS | GET_CURRENT_PROPOSAL | GET_CURRENT_QUORUM | GET_VOTES_LISTINGS
  | GET_PROPOSALS | GET_ENTRYPOINTS | GET_CHAIN_ID | PACK_DATA | GET_CURRENT_PERIOD
  | GET_SUCCESSOR_PERIOD | GET_SAPLING_DIFF_BY_ID | GET_SAPLING_DIFF_BY_CONTRACT | GET_PROTOCOLS
  | GET_TX_ROLLUP_STATE | GET_TX_ROLLUP_INBOX | GET_STORAGE_USED_SPACE | GET_STORAGE_PAID_SPACE
  | GET_TICKET_BALANCE | GET_ALL_TICKET_BALANCES | GET_PENDING_OPERATIONS | GET_ORIGINATION_PROOF
  deriving DecidableEq, Repr

/-- The value of a name. -/
def RPCMethodName.text : RPCMethodName → JSString
  | .GET_BLOCK_HASH => js "getBlockHash"
  | .GET_LIVE_BLOCKS => js "getLiveBlocks"
  | .GET_BALANCE => js "getBalance"
  | .GET_STORAGE => js "getStorage"
  | .GET_SCRIPT => js "getScript"
  | .GET_NORMALIZED_SCRIPT => js "getNormalizedScript"
  | .GET_CONTRACT => js "getContract"
  | .GET_MANAGER_KEY => js "getManagerKey"
  | .GET_DELEGATE => js "getDelegate"
  | .GET_BIG_MAP_KEY => js "getBigMapKey"
  | .GET_BIG_MAP_EXPR => js "getBigMapExpr"
  | .GET_DELEGATES => js "getDelegates"
  | .GET_VOTING_INFO => js "getVotingInfo"
  | .GET_CONSTANTS => js "getConstants"
  | .GET_BLOCK => js "getBlock"
  | .GET_BLOCK_HEADER => js "getBlockHeader"
  | .GET_BLOCK_METADATA => js "getBlockMetadata"
  | .GET_BAKING_RIGHTS => js "getBakingRights"
  | .GET_ENDORSING_RIGHTS => js "getEndorsingRights"
  | .GET_BALLOT_LIST => js "getBallotList"
  | .GET_BALLOTS => js "getBallots"
  | .GET_CURRENT_PROPOSAL => js "getCurrentProposal"
  | .GET_CURRENT_QUORUM => js "getCurrentQuorum"
  | .GET_VOTES_LISTINGS => js "getVotesListings"
  | .GET_PROPOSALS => js "getProposals"
  | .GET_ENTRYPOINTS => js "getEntrypoints"
  | .GET_CHAIN_ID => js "getChainId"
  | .PACK_DATA => js "packData"
  | .GET_CURRENT_PERIOD => js "getCurrentPeriod"
  | .GET_SUCCESSOR_PERIOD => js "getSuccessorPeriod"
  | .GET_SAPLING_DIFF_BY_ID => js "getSaplingDiffById"
  | .GET_SAPLING_DIFF_BY_CONTRACT => js "getSaplingDiffByContract"
  | .GET_PROTOCOLS => js "getProtocols"
  | .GET_TX_ROLLUP_STATE => js "getTxRollupState"
  | .GET_TX_ROLLUP_INBOX => js "getTxRollupInbox"
  | .GET_STORAGE_USED_SPACE => js "getStorageUsedSpace"
  | .GET_STORAGE_PAID_SPACE => js "getStoragePaidSpace"
  | .GET_TICKET_BALANCE => js "getTicketBalance"
  | .GET_ALL_TICKET_BALANCES => js "getAllTicketBalances"
  | .GET_PENDING_OPERATIONS => js "getPendingOperations"
  | .GET_ORIGINATION_PROOF => js "getOriginationProof"

/-- A plain object. -/
abbrev Fields := List (JSString × Json)

/-- `RpcMethodParam`. -/
inductive Param where
  | string (s : JSString)
  | object (fields : Fields)

/-- What a parameter adds to the text of the parameters. -/
def Param.text : Param → JSString
  | .string s => s ++ [47]
  | .object fields => (Json.object fields).text ++ [47]

/-- What a key is made of. -/
structure Request where
  rpcMethodName : RPCMethodName
  rpcMethodParams : List Param
  rpcMethodData : Option Fields

/-- `formatCacheKey`. -/
def formatCacheKey (rpcUrl : JSString) (request : Request) : JSString :=
  let paramsToString := request.rpcMethodParams.foldl (fun text param => text ++ param.text) []
  match request.rpcMethodData with
  | some data =>
    rpcUrl ++ [47] ++ request.rpcMethodName.text ++ [47] ++ paramsToString ++
      (Json.object data).text ++ [47]
  | none => rpcUrl ++ [47] ++ request.rpcMethodName.text ++ [47] ++ paramsToString

/-! ## Methods -/

/-- A call of a cached method, with its arguments; an absent one has its default. -/
inductive Call where
  | getBlockHash (block : JSString)
  | getLiveBlocks (block : JSString)
  | getBalance (address block : JSString)
  | getStorage (address block : JSString)
  | getScript (address block : JSString)
  | getNormalizedScript (address : JSString) (unparsingMode : Fields) (block : JSString)
  | getContract (address block : JSString)
  | getManagerKey (address block : JSString)
  | getDelegate (address block : JSString)
  | getBigMapKey (address : JSString) (key : Fields) (block : JSString)
  | getBigMapExpr (id expr block : JSString)
  | getDelegates (address block : JSString)
  | getVotingInfo (address block : JSString)
  | getConstants (block : JSString)
  | getBlock (block : JSString)
  | getBlockHeader (block : JSString)
  | getBlockMetadata (block : JSString)
  | getBakingRights (args : Fields) (block : JSString)
  | getEndorsingRights (args : Fields) (block : JSString)
  | getBallotList (block : JSString)
  | getBallots (block : JSString)
  | getCurrentProposal (block : JSString)
  | getCurrentQuorum (block : JSString)
  | getVotesListings (block : JSString)
  | getProposals (block : JSString)
  | getEntrypoints (contract block : JSString)
  | getChainId
  | packData (data : Fields) (block : JSString)
  | getCurrentPeriod (block : JSString)
  | getSuccessorPeriod (block : JSString)
  | getSaplingDiffById (id block : JSString)
  | getSaplingDiffByContract (contract block : JSString)
  | getProtocols (block : JSString)
  | getTxRollupState (txRollupId block : JSString)
  | getTxRollupInbox (txRollupId blockLevel block : JSString)
  | getStorageUsedSpace (contract block : JSString)
  | getStoragePaidSpace (contract block : JSString)
  | getTicketBalance (contract : JSString) (ticket : Fields) (block : JSString)
  | getAllTicketBalances (contract block : JSString)
  | getPendingOperations (args : Fields)
  | getOriginationProof (params : Fields) (block : JSString)

/-- What the key of a call is made of. -/
def Call.request : Call → Request
  | .getBlockHash block => ⟨.GET_BLOCK_HASH, [.string block], none⟩
  | .getLiveBlocks block => ⟨.GET_LIVE_BLOCKS, [.string block], none⟩
  | .getBalance address block => ⟨.GET_BALANCE, [.string block, .string address], none⟩
  | .getStorage address block => ⟨.GET_STORAGE, [.string block, .string address], none⟩
  | .getScript address block => ⟨.GET_SCRIPT, [.string block, .string address], none⟩
  | .getNormalizedScript address unparsingMode block =>
    ⟨.GET_NORMALIZED_SCRIPT, [.string block, .string address], some unparsingMode⟩
  | .getContract address block => ⟨.GET_CONTRACT, [.string block, .string address], none⟩
  | .getManagerKey address block => ⟨.GET_MANAGER_KEY, [.string block, .string address], none⟩
  | .getDelegate address block => ⟨.GET_DELEGATE, [.string block, .string address], none⟩
  | .getBigMapKey address key block =>
    ⟨.GET_BIG_MAP_KEY, [.string block, .string address], some key⟩
  | .getBigMapExpr id expr block =>
    ⟨.GET_BIG_MAP_EXPR, [.string block, .string id, .string expr], none⟩
  | .getDelegates address block => ⟨.GET_DELEGATES, [.string block, .string address], none⟩
  | .getVotingInfo address block => ⟨.GET_VOTING_INFO, [.string block, .string address], none⟩
  | .getConstants block => ⟨.GET_CONSTANTS, [.string block], none⟩
  | .getBlock block => ⟨.GET_BLOCK, [.string block], none⟩
  | .getBlockHeader block => ⟨.GET_BLOCK_HEADER, [.string block], none⟩
  | .getBlockMetadata block => ⟨.GET_BLOCK_METADATA, [.string block], none⟩
  | .getBakingRights args block => ⟨.GET_BAKING_RIGHTS, [.string block, .object args], none⟩
  | .getEndorsingRights args block => ⟨.GET_ENDORSING_RIGHTS, [.string block, .object args], none⟩
  | .getBallotList block => ⟨.GET_BALLOT_LIST, [.string block], none⟩
  | .getBallots block => ⟨.GET_BALLOTS, [.string block], none⟩
  | .getCurrentProposal block => ⟨.GET_CURRENT_PROPOSAL, [.string block], none⟩
  | .getCurrentQuorum block => ⟨.GET_CURRENT_QUORUM, [.string block], none⟩
  | .getVotesListings block => ⟨.GET_VOTES_LISTINGS, [.string block], none⟩
  | .getProposals block => ⟨.GET_PROPOSALS, [.string block], none⟩
  | .getEntrypoints contract block => ⟨.GET_ENTRYPOINTS, [.string block, .string contract], none⟩
  | .getChainId => ⟨.GET_CHAIN_ID, [], none⟩
  | .packData data block => ⟨.PACK_DATA, [.string block], some data⟩
  | .getCurrentPeriod block => ⟨.GET_CURRENT_PERIOD, [.string block], none⟩
  | .getSuccessorPeriod block => ⟨.GET_SUCCESSOR_PERIOD, [.string block], none⟩
  | .getSaplingDiffById id block => ⟨.GET_SAPLING_DIFF_BY_ID, [.string block, .string id], none⟩
  | .getSaplingDiffByContract contract block =>
    ⟨.GET_SAPLING_DIFF_BY_CONTRACT, [.string block, .string contract], none⟩
  | .getProtocols block => ⟨.GET_PROTOCOLS, [.string block], none⟩
  | .getTxRollupState txRollupId block =>
    ⟨.GET_TX_ROLLUP_STATE, [.string block, .string txRollupId], none⟩
  | .getTxRollupInbox txRollupId blockLevel block =>
    ⟨.GET_TX_ROLLUP_INBOX, [.string block, .string txRollupId, .string blockLevel], none⟩
  | .getStorageUsedSpace contract block =>
    ⟨.GET_STORAGE_USED_SPACE, [.string block, .string contract], none⟩
  | .getStoragePaidSpace contract block =>
    ⟨.GET_STORAGE_PAID_SPACE, [.string block, .string contract], none⟩
  | .getTicketBalance contract ticket block =>
    ⟨.GET_TICKET_BALANCE, [.string block, .string contract], some ticket⟩
  | .getAllTicketBalances contract block =>
    ⟨.GET_ALL_TICKET_BALANCES, [.string block, .string contract], none⟩
  | .getPendingOperations args => ⟨.GET_PENDING_OPERATIONS, [.object args], none⟩
  | .getOriginationProof params block =>
    ⟨.GET_ORIGINATION_PROOF, [.string block, .object params], none⟩

/-- The address that a method validates. -/
inductive Check where
  | address (address : JSString)
  | contract (address : JSString)

/-- `validateAddress` or `validateContract`, where a method begins with one. -/
def Call.check : Call → Option Check
  | .getBalance address _ => some (.address address)
  | .getStorage address _ => some (.contract address)
  | .getScript address _ => some (.contract address)
  | .getNormalizedScript address _ _ => some (.contract address)
  | .getContract address _ => some (.address address)
  | .getManagerKey address _ => some (.address address)
  | .getDelegate address _ => some (.address address)
  | .getBigMapKey address _ _ => some (.address address)
  | .getDelegates address _ => some (.address address)
  | .getVotingInfo address _ => some (.address address)
  | .getEntrypoints contract _ => some (.contract contract)
  | _ => none

/-- Whether a method gets past the validation. -/
def Call.valid (b58 : Base58Check) (call : Call) : Bool :=
  match call.check with
  | some (.address address) => Utils.validateAddress b58 address = .VALID
  | some (.contract address) => Utils.validateContractAddress b58 address = .VALID
  | none => true

theorem Call.request_injective {c c' : Call} (h : c.request = c'.request) : c = c' := by
  cases c <;> cases c' <;> cases h <;> rfl

/-! ## Keys determine calls -/

/-- A parameter that is a string. -/
def Param.string? : Param → Option JSString
  | .string s => some s
  | .object _ => none

/-- A parameter that is an object. -/
def Param.object? : Param → Option Fields
  | .string _ => none
  | .object fields => some fields

/-- The strings among the parameters. -/
def Request.strings (request : Request) : List JSString :=
  request.rpcMethodParams.filterMap Param.string?

/-- The object among the parameters. -/
def Request.object (request : Request) : Option Fields :=
  request.rpcMethodParams.findSome? Param.object?

/-- No string among the arguments contains `/`. -/
def Call.NoSlash (call : Call) : Prop := ∀ s ∈ call.request.strings, 47 ∉ s

/-- The strings come before the object, of which there is no other. -/
theorem Call.request_params (c : Call) :
    c.request.rpcMethodParams =
        c.request.strings.map .string ++ (c.request.object.map Param.object).toList ∧
      (c.request.object = none ∨ c.request.rpcMethodData = none) := by
  cases c <;> first | exact ⟨rfl, Or.inl rfl⟩ | exact ⟨rfl, Or.inr rfl⟩

/-- Calls of one method have as many arguments of each kind. -/
theorem Call.arity {c c' : Call} (h : c.request.rpcMethodName = c'.request.rpcMethodName) :
    c.request.strings.length = c'.request.strings.length ∧
      c.request.object.isSome = c'.request.object.isSome ∧
      c.request.rpcMethodData.isSome = c'.request.rpcMethodData.isSome := by
  cases c <;> cases c' <;> cases h <;> exact ⟨rfl, rfl, rfl⟩

/-- The text of a key up to a `/`. -/
theorem append_slash_inj {a a' r r' : JSString} (ha : 47 ∉ a) (ha' : 47 ∉ a')
    (h : a ++ 47 :: r = a' ++ 47 :: r') : a = a' ∧ r = r' := by
  induction a generalizing a' with
  | nil =>
    cases a' with
    | nil => exact ⟨rfl, (List.cons.inj h).2⟩
    | cons c a' => exact absurd ((List.cons.inj h).1 ▸ List.mem_cons_self) ha'
  | cons c a ih =>
    cases a' with
    | nil => exact absurd ((List.cons.inj h).1 ▸ List.mem_cons_self) ha
    | cons c' a' =>
      obtain ⟨rfl, htail⟩ := List.cons.inj h
      obtain ⟨rfl, rfl⟩ := ih (fun hc => ha (List.mem_cons_of_mem _ hc))
        (fun hc => ha' (List.mem_cons_of_mem _ hc)) htail
      exact ⟨rfl, rfl⟩

/-- The text of strings. -/
def segments (strings : List JSString) : JSString := strings.flatMap (· ++ [47])

theorem segments_append_inj {ss ss' : List JSString} {r r' : JSString}
    (hlength : ss.length = ss'.length) (hss : ∀ s ∈ ss, 47 ∉ s) (hss' : ∀ s ∈ ss', 47 ∉ s)
    (h : segments ss ++ r = segments ss' ++ r') : ss = ss' ∧ r = r' := by
  induction ss generalizing ss' with
  | nil =>
    cases ss' with
    | nil => exact ⟨rfl, h⟩
    | cons s' ss' => cases hlength
  | cons s ss ih =>
    cases ss' with
    | nil => cases hlength
    | cons s' ss' =>
      rw [List.forall_mem_cons] at hss hss'
      have hcons (s : JSString) (ss : List JSString) (r : JSString) :
          segments (s :: ss) ++ r = s ++ 47 :: (segments ss ++ r) := by
        simp [segments]
      rw [hcons, hcons] at h
      obtain ⟨rfl, hrest⟩ := append_slash_inj hss.1 hss'.1 h
      obtain ⟨rfl, rfl⟩ := ih (Nat.succ.inj hlength) hss.2 hss'.2 hrest
      exact ⟨rfl, rfl⟩

/-- The text of an object at the end of a key. -/
def objectText (fields : Option Fields) : JSString :=
  match fields with
  | none => []
  | some fields => (Json.object fields).text ++ [47]

theorem objectText_inj {f f' : Option Fields} (hsome : f.isSome = f'.isSome)
    (h : objectText f = objectText f') : f = f' := by
  cases f with
  | none =>
    cases f' with
    | none => rfl
    | some fields' => cases hsome
  | some fields =>
    cases f' with
    | none => cases hsome
    | some fields' =>
      have htext := Json.text_injective (List.append_cancel_right h)
      rw [Json.object.inj htext]

/-- A key, laid out. -/
theorem formatCacheKey_request (rpcUrl : JSString) (c : Call) :
    formatCacheKey rpcUrl c.request = rpcUrl ++ 47 :: (c.request.rpcMethodName.text ++ 47 ::
      (segments c.request.strings ++
        (objectText c.request.object ++ objectText c.request.rpcMethodData))) := by
  have hfold (params : List Param) (text : JSString) :
      params.foldl (fun text param => text ++ param.text) text =
        text ++ params.flatMap Param.text := by
    induction params generalizing text with
    | nil => rw [List.foldl_nil, List.flatMap_nil, List.append_nil]
    | cons param params ih => rw [List.foldl_cons, ih, List.flatMap_cons, List.append_assoc]
  have hstrings (ss : List JSString) : (ss.map Param.string).flatMap Param.text = segments ss :=
    List.flatMap_map ..
  have hobject : (c.request.object.map Param.object).toList.flatMap Param.text =
      objectText c.request.object := by
    cases c.request.object with
    | none => rfl
    | some fields => exact List.append_nil _
  rw [formatCacheKey, hfold, List.nil_append, c.request_params.1, List.flatMap_append, hstrings,
    hobject]
  cases c.request.rpcMethodData with
  | none => simp [objectText]
  | some data => simp [objectText]

/-- The names. -/
def RPCMethodName.all : List RPCMethodName :=
  [.GET_BLOCK_HASH, .GET_LIVE_BLOCKS, .GET_BALANCE, .GET_STORAGE, .GET_SCRIPT,
    .GET_NORMALIZED_SCRIPT, .GET_CONTRACT, .GET_MANAGER_KEY, .GET_DELEGATE, .GET_BIG_MAP_KEY,
    .GET_BIG_MAP_EXPR, .GET_DELEGATES, .GET_VOTING_INFO, .GET_CONSTANTS, .GET_BLOCK,
    .GET_BLOCK_HEADER, .GET_BLOCK_METADATA, .GET_BAKING_RIGHTS, .GET_ENDORSING_RIGHTS,
    .GET_BALLOT_LIST, .GET_BALLOTS, .GET_CURRENT_PROPOSAL, .GET_CURRENT_QUORUM,
    .GET_VOTES_LISTINGS, .GET_PROPOSALS, .GET_ENTRYPOINTS, .GET_CHAIN_ID, .PACK_DATA,
    .GET_CURRENT_PERIOD, .GET_SUCCESSOR_PERIOD, .GET_SAPLING_DIFF_BY_ID,
    .GET_SAPLING_DIFF_BY_CONTRACT, .GET_PROTOCOLS, .GET_TX_ROLLUP_STATE, .GET_TX_ROLLUP_INBOX,
    .GET_STORAGE_USED_SPACE, .GET_STORAGE_PAID_SPACE, .GET_TICKET_BALANCE,
    .GET_ALL_TICKET_BALANCES, .GET_PENDING_OPERATIONS, .GET_ORIGINATION_PROOF]

/-- A number that tells the names apart. -/
private def nameKey (s : JSString) : ℕ := s.foldl (fun acc c => acc * 128 + c.toNat) 0 % 5003

theorem RPCMethodName.text_injective {m m' : RPCMethodName} (h : m.text = m'.text) : m = m' := by
  have hall (m : RPCMethodName) : m ∈ RPCMethodName.all := by cases m <;> decide
  have hfresh : Sorting.freshBits (RPCMethodName.all.map fun m => nameKey m.text) 0 = true := by
    decide +kernel
  have hnodup : (RPCMethodName.all.map RPCMethodName.text).Nodup := by
    apply List.Nodup.of_map nameKey
    rw [List.map_map]
    exact (Sorting.nodup_of_freshBits hfresh).1
  exact List.inj_on_of_nodup_map hnodup (hall m) (hall m') h

/-- **A key determines the call.** -/
theorem key_injective {rpcUrl : JSString} {c c' : Call} (hc : c.NoSlash) (hc' : c'.NoSlash)
    (h : formatCacheKey rpcUrl c.request = formatCacheKey rpcUrl c'.request) : c = c' := by
  have hname (m : RPCMethodName) : 47 ∉ m.text := by cases m <;> decide
  rw [formatCacheKey_request, formatCacheKey_request] at h
  obtain ⟨htext, hargs⟩ :=
    append_slash_inj (hname _) (hname _) (List.cons.inj (List.append_cancel_left h)).2
  have hmethod := RPCMethodName.text_injective htext
  obtain ⟨hlength, hobject, hdata⟩ := Call.arity hmethod
  obtain ⟨hstrings, htail⟩ := segments_append_inj hlength hc hc' hargs
  obtain ⟨hparams, hone⟩ := c.request_params
  have hparams' := c'.request_params.1
  have hobjects : c.request.object = c'.request.object ∧
      c.request.rpcMethodData = c'.request.rpcMethodData := by
    obtain hnone | hnone := hone
    · have hnone' : c'.request.object = none := by
        rw [hnone] at hobject
        exact Option.not_isSome_iff_eq_none.mp (Bool.eq_false_iff.mp hobject.symm)
      rw [hnone, hnone'] at htail ⊢
      exact ⟨rfl, objectText_inj hdata htail⟩
    · have hnone' : c'.request.rpcMethodData = none := by
        rw [hnone] at hdata
        exact Option.not_isSome_iff_eq_none.mp (Bool.eq_false_iff.mp hdata.symm)
      rw [hnone, hnone'] at htail ⊢
      exact ⟨objectText_inj hobject (List.append_cancel_right htail), rfl⟩
  apply Call.request_injective
  rw [← hstrings, ← hobjects.1, ← hparams] at hparams'
  cases hq : c.request with
  | mk name params data =>
    cases hq' : c'.request with
    | mk name' params' data' =>
      rw [hq, hq'] at hmethod hparams' hobjects
      rw [show name = name' from hmethod, show params = params' from hparams'.symm,
        show data = data' from hobjects.2]

/-! ## The cache -/

/-- `RpcClientCache`, by the URL of the client under it and the time to live in milliseconds. -/
structure RpcClientCache where
  rpcUrl : JSString
  ttl : ℕ

/-- The delay of `setTimeout`, which takes a number that it cannot count to for 1. -/
def timeout (ms : ℕ) : ℕ := if 1 ≤ ms ∧ ms ≤ 2 ^ 31 - 1 then ms else 1

/-- What happens to a cache. -/
inductive CacheEvent where
  | call (call : Call)
  | clock (ms : ℕ)
  | deleteAllCachedData

namespace RpcClientCache

variable (self : RpcClientCache)

/-- `put`. -/
def put (key : JSString) (response : ℕ) (cache : TimedCache JSString ℕ) : TimedCache JSString ℕ :=
  cache.insert (timeout self.ttl) key response

/-- A cached method. A response stands for the call that the client under the cache gave it to: the
position of that call among the events. -/
def call (b58 : Base58Check) (s : Session JSString Call) (call : Call) : Session JSString Call :=
  if call.valid b58 then
    let key := formatCacheKey self.rpcUrl call.request
    match s.cache.find key with
    | some response => ⟨s.cache, s.log ++ [.answered s.cache.now call response]⟩
    | none =>
      let response := s.log.length
      ⟨self.put key response s.cache, s.log ++ [.answered s.cache.now call response]⟩
  else ⟨s.cache, s.log ++ [.other]⟩

/-- An event. `deleteAllCachedData` deletes every key. -/
def step (b58 : Base58Check) (s : Session JSString Call) : CacheEvent → Session JSString Call
  | .call c => self.call b58 s c
  | .clock ms => ⟨s.cache.advance ms, s.log ++ [.other]⟩
  | .deleteAllCachedData => ⟨s.cache.clear, s.log ++ [.cleared]⟩

/-- A sequence of events. -/
def run (b58 : Base58Check) (events : List CacheEvent) : Session JSString Call :=
  events.foldl (self.step b58) Session.start

/-- The key of a call. -/
def key (c : Call) : JSString := formatCacheKey self.rpcUrl c.request

end RpcClientCache

/-- **Every response is a recent one** that the client gave to the same call, after the cache was
last cleared. -/
def ServesRecent (ttl : ℕ) (log : List (Record Call)) : Prop :=
  ∀ j time call response, log[j]? = some (.answered time call response) →
    response ≤ j ∧ NotClearedBetween log response j ∧
      ∃ time₀, log[response]? = some (.answered time₀ call response) ∧ time ≤ time₀ + ttl

/-- **The client is asked once**: of two equal calls less than the time to live apart, between which
the cache is not cleared, only one is answered by a call of its own. -/
def CallsOnce (ttl : ℕ) (log : List (Record Call)) : Prop :=
  ∀ i j time time' call, i < j → log[i]? = some (.answered time call i) →
    log[j]? = some (.answered time' call j) → NotClearedBetween log i j → time + ttl ≤ time'

/-! ## Runs -/

theorem timeout_pos (ms : ℕ) : 0 < timeout ms := by
  rw [timeout]
  split <;> omega

theorem timeout_le (ms : ℕ) : timeout ms ≤ ms ∨ timeout ms = 1 := by
  rw [timeout]
  split
  · exact Or.inl (Nat.le_refl ms)
  · exact Or.inr rfl

/-- What an event is for the cache. -/
def CacheEvent.toEvent (b58 : Base58Check) : CacheEvent → Event Call
  | .call c => if c.valid b58 then .request c else .other
  | .clock ms => .advance ms
  | .deleteAllCachedData => .clear

section runs

variable (b58 : Base58Check) (self : RpcClientCache)

theorem step_eq (s : Session JSString Call) (e : CacheEvent) :
    self.step b58 s e = s.step self.key (timeout self.ttl) (e.toEvent b58) := by
  cases e with
  | call c =>
    rw [RpcClientCache.step, RpcClientCache.call, CacheEvent.toEvent]
    by_cases hvalid : c.valid b58
    · rw [if_pos hvalid, if_pos hvalid]
      rfl
    · rw [if_neg hvalid, if_neg hvalid]
      rfl
  | clock ms => rfl
  | deleteAllCachedData => rfl

theorem run_eq (events : List CacheEvent) :
    self.run b58 events =
      Session.run self.key (timeout self.ttl) Session.start (events.map (·.toEvent b58)) := by
  rw [RpcClientCache.run, Session.run, List.foldl_map]
  exact congrArg (fun f => events.foldl f Session.start) (by funext s e; exact step_eq b58 self s e)

/-- The calls in a log are those of its events. -/
theorem call_of_log {events : List CacheEvent} {i time response : ℕ} {c : Call}
    (h : (self.run b58 events).log[i]? = some (.answered time c response)) : .call c ∈ events := by
  rw [run_eq] at h
  obtain h | h := Session.request_of_run h
  · cases h
  · obtain ⟨e, he, hevent⟩ := List.mem_map.mp h
    cases e with
    | call c' =>
      rw [CacheEvent.toEvent] at hevent
      by_cases hvalid : c'.valid b58
      · rw [if_pos hvalid] at hevent
        rwa [← Event.request.inj hevent]
      · rw [if_neg hvalid] at hevent
        cases hevent
    | clock ms => cases hevent
    | deleteAllCachedData => cases hevent

/-- No timer that an entry left behind removes a response that was put under its key later: when a
call finds no response, the timers of its key go off no sooner than the one it starts. -/
def Undisturbed (events : List CacheEvent) : Prop :=
  Session.start.Undisturbed self.key (timeout self.ttl) (events.map (·.toEvent b58))

/-- **The cache.** In every run the responses are recent ones. If the time to live is one that
`setTimeout` can count to, and no timer disturbs a later entry, the client is asked once. -/
theorem served {events : List CacheEvent} (hslash : ∀ c, .call c ∈ events → c.NoSlash) :
    ServesRecent self.ttl (self.run b58 events).log ∧
      (self.ttl < 2 ^ 31 → Undisturbed b58 self events →
        CallsOnce self.ttl (self.run b58 events).log) := by
  have hsound : Sound self.key (timeout self.ttl) (self.run b58 events) := by
    rw [run_eq]
    exact (Sound.start _ _).run (timeout_pos _) _
  constructor
  · intro j time call response hj
    obtain ⟨hle, hbetween, time₀, call₀, hasked, hkey, hlt⟩ := hsound.timely j time call response hj
    have hcall : call₀ = call := key_injective (hslash _ (call_of_log b58 self hasked))
      (hslash _ (call_of_log b58 self hj)) hkey
    rw [hcall] at hasked
    refine ⟨hle, hbetween, time₀, hasked, ?_⟩
    obtain hms | hone := timeout_le self.ttl
    · omega
    · omega
  · intro httl hundisturbed
    have honce : Once self.key (timeout self.ttl) (self.run b58 events) := by
      rw [run_eq]
      exact (Once.start _ _).run (timeout_pos _) (Sound.start _ _) hundisturbed
    intro i j time time' call hij hi hj hbetween
    have htime := honce.asksOnce i j time time' call call hij hi hj rfl hbetween
    have hms : self.ttl ≤ timeout self.ttl := by
      rw [timeout]
      split <;> omega
    omega

end runs

/-- A cache with the default time to live. -/
def defaultCache : RpcClientCache := ⟨js "https://mainnet.api.tez.ie", 1000⟩

/-- Two calls of one method. -/
theorem served_chainId : CallsOnce 1000
    (defaultCache.run .hex [.call .getChainId, .clock 400, .call .getChainId]).log := by
  refine (served .hex defaultCache fun c hc => ?_).2 (by decide) ⟨?_, trivial, ?_, trivial⟩
  · have hcall : c = .getChainId := by simpa using hc
    rw [hcall]
    exact fun s hs => absurd hs List.not_mem_nil
  · exact fun _ due hdue => absurd hdue List.not_mem_nil
  · exact fun hfind => by cases hfind

/-- The timer of a response that was deleted removes the one after it, half a second old. -/
theorem not_callsOnce_defaultCache : ¬ CallsOnce 1000 (defaultCache.run .hex
    [.call .getChainId, .clock 500, .deleteAllCachedData, .clock 100, .call .getChainId, .clock 400,
      .call .getChainId]).log := by
  intro h
  have htime := h 4 6 600 1000 .getChainId (by decide) rfl rfl fun m hm hm' hcleared => by
    have hm : m = 5 := by omega
    rw [hm] at hcleared
    cases hcleared
  omega

end Rpc
