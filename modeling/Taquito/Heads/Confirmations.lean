import Taquito.Heads.Contiguous

/-!
# Inclusion and confirmations

What the two kinds of operations hold is a function of the run that their stream emitted: the first
block that contains the operation, and the confirmations from there on. The subscribers of a wallet
operation report one level after the other; the promise of the other kind is resolved with the first
block that has enough confirmations.
-/

open Js

namespace Heads

/-! ## The block of inclusion -/

/-- The first level from a level on whose block contains an operation. -/
structure IncludedAt (chain : Chain) (opHash : JSString) (first i : ℤ) : Prop where
  le : first ≤ i
  contains : (chain.block i).contains opHash = true
  least : ∀ j, first ≤ j → j < i → (chain.block j).contains opHash = false

section inclusion

variable {chain : Chain} {opHash : JSString} {first i : ℤ}

/-- The operation is found once the run reaches its level. -/
theorem find?_blocks (h : IncludedAt chain opHash first i) (k : ℕ) :
    (chain.blocks first k).find? (fun b => b.contains opHash)
      = if i < first + k then some (chain.block i) else none := by
  induction k with
  | zero =>
    rw [if_neg (by have := h.le; push_cast; omega)]
    rfl
  | succ k ih =>
    rw [blocks_succ, List.find?_append, ih]
    by_cases hlt : i < first + k
    · rw [if_pos hlt, if_pos (by push_cast; omega)]
      rfl
    · rw [if_neg hlt, Option.none_or]
      by_cases heq : i = first + k
      · rw [if_pos (by push_cast; omega), ← heq]
        simp [h.contains]
      · rw [if_neg (by push_cast; omega)]
        simp [h.least (first + k) (by omega) (by omega)]

/-- A run holds the block of a level between its ends. -/
theorem block_mem_blocks {k : ℕ} {level : ℤ} (hle : first ≤ level) :
    chain.block level ∈ chain.blocks first k ↔ level < first + k := by
  rw [mem_blocks]
  constructor
  · rintro ⟨level', _, hlt, heq⟩
    have hlevel := congrArg Block.level heq
    rw [chain.level_block, chain.level_block] at hlevel
    omega
  · intro hlt
    exact ⟨level, hle, hlt, rfl⟩

theorem getLast?_blocks {k : ℕ} {level : ℤ} (hlevel : first + k = level + 1) (hk : 0 < k) :
    (chain.blocks first k).getLast? = some (chain.block level) := by
  obtain ⟨j, rfl⟩ : ∃ j, k = j + 1 := ⟨k - 1, by omega⟩
  rw [getLast?_blocks_succ]
  congr 2
  push_cast at hlevel
  omega

end inclusion

/-! ## Wallet operations -/

/-- The confirmations of an observer after inclusion: one for each level from a level on, up to the
last emitted one or the first that completes. -/
structure Reports (chain : Chain) (emitted : List Block) (foundAtBlock : Block) (o : Observer)
    (start : ℤ) (k : ℕ) : Prop where
  confirmations : o.emitted = (chain.blocks start (k + 1)).map (confirmationAt o.conf foundAtBlock)
  le_start : foundAtBlock.level - 1 ≤ start
  start_mem : chain.block start ∈ emitted
  before : ∀ j : ℕ, j < k → start + j - foundAtBlock.level < o.conf - 1
  completed : o.completed = true ↔ o.conf - 1 ≤ start + k - foundAtBlock.level
  upToDate : o.completed = false → emitted.getLast? = some (chain.block (start + k))

/-- What an observer holds, before and after inclusion. -/
def ObserverInv (chain : Chain) (emitted : List Block) (includedInBlock : Option Block)
    (o : Observer) : Prop :=
  match includedInBlock with
  | none => o.emitted = [] ∧ o.completed = false ∧ o.head = emitted.getLast?
  | some foundAtBlock => ∃ start k, Reports chain emitted foundAtBlock o start k

/-- What a wallet operation holds after a run. -/
structure WalletInv (chain : Chain) (opHash : JSString) (emitted : List Block)
    (op : WalletOperation) : Prop where
  included : op.includedInBlock = emitted.find? fun b => b.contains opHash
  observers : ∀ o ∈ op.observers, ObserverInv chain emitted op.includedInBlock o

section wallet

variable {chain : Chain} {opHash : JSString}

theorem completed_confirmationAt (conf : ℤ) (foundAtBlock : Block) (level : ℤ) :
    (confirmationAt conf foundAtBlock (chain.block level)).completed = true
      ↔ conf - 1 ≤ level - foundAtBlock.level := by
  simp [confirmationAt, chain.level_block]

/-- The first confirmation of an observer. -/
theorem reports_first {emitted : List Block} {foundAtBlock : Block} {o : Observer} {level : ℤ}
    (hemitted : o.emitted = []) (hcompleted : o.completed = false)
    (hle : foundAtBlock.level - 1 ≤ level) (hlast : emitted.getLast? = some (chain.block level)) :
    Reports chain emitted foundAtBlock (o.combined foundAtBlock (chain.block level)) level 0 := by
  have hcombined : o.combined foundAtBlock (chain.block level)
      = { o with
          emitted := [confirmationAt o.conf foundAtBlock (chain.block level)]
          completed := (confirmationAt o.conf foundAtBlock (chain.block level)).completed } := by
    rw [Observer.combined, hemitted, hcompleted]
    rfl
  rw [hcombined]
  refine ⟨?_, hle, List.mem_of_getLast? hlast, fun j hj => absurd hj (Nat.not_lt_zero j), ?_,
    fun _ => ?_⟩
  · simp [Chain.blocks]
  · rw [Nat.cast_zero, add_zero]
    exact completed_confirmationAt o.conf foundAtBlock level
  · rw [Nat.cast_zero, add_zero]
    exact hlast

theorem block_inj {level level' : ℤ} (h : chain.block level = chain.block level') : level = level' := by
  have hlevel := congrArg Block.level h
  rwa [chain.level_block, chain.level_block] at hlevel

/-- The next one, unless the observer has completed. -/
theorem reports_next {first : ℤ} {j : ℕ} {foundAtBlock : Block} {o : Observer} {start : ℤ} {k : ℕ}
    (h : Reports chain (chain.blocks first (j + 1)) foundAtBlock o start k) :
    ∃ k', Reports chain (chain.blocks first (j + 1 + 1)) foundAtBlock
      (o.onHead (some foundAtBlock) (chain.block (first + (j + 1 : ℕ)))) start k' := by
  have hmem : chain.block start ∈ chain.blocks first (j + 1 + 1) := by
    rw [blocks_succ]
    exact List.mem_append_left _ h.start_mem
  rw [Observer.onHead, Observer.combined]
  cases hcompleted : o.completed with
  | true =>
    rw [Bool.true_or, if_pos rfl]
    refine ⟨k, h.confirmations, h.le_start, hmem, h.before, ?_, fun hfalse => ?_⟩
    · exact iff_of_true rfl (h.completed.mp hcompleted)
    · cases hfalse
  | false =>
    have hlast := h.upToDate hcompleted
    rw [getLast?_blocks_succ, Option.some.injEq] at hlast
    have hlevel := block_inj hlast
    have hnext : first + ((j + 1 : ℕ) : ℤ) = start + ((k + 1 : ℕ) : ℤ) := by
      push_cast
      omega
    -- The head has another hash than that of the last confirmation.
    have hhash : ¬(false || decide ((o.emitted.getLast?.map fun c => c.block.hash)
        = some (chain.block (first + (j + 1 : ℕ))).hash)) = true := by
      rw [h.confirmations, List.getLast?_map, getLast?_blocks_succ, Bool.false_or,
        decide_eq_true_iff]
      intro heq
      have hsame := chain.hash_injective (Option.some.inj heq)
      omega
    rw [if_neg hhash]
    refine ⟨k + 1, ?_, h.le_start, hmem, ?_, ?_, fun _ => ?_⟩
    · show o.emitted ++ [_] = _
      rw [h.confirmations, hnext, @blocks_succ chain start (k + 1), List.map_append]
      rfl
    · intro i hi
      by_cases hlt : i < k
      · exact h.before i hlt
      · have hik : i = k := by omega
        subst hik
        have hnot := h.completed.not.mp (by rw [hcompleted]; exact Bool.false_ne_true)
        exact not_le.mp hnot
    · rw [← hnext]
      exact completed_confirmationAt o.conf foundAtBlock _
    · rw [getLast?_blocks_succ, hnext]

/-- A block before inclusion is the last head of an observer. -/
theorem observerInv_onHead_none {first : ℤ} {k : ℕ} {o : Observer}
    (h : ObserverInv chain (chain.blocks first k) none o) :
    ObserverInv chain (chain.blocks first (k + 1)) none
      (o.onHead none (chain.block (first + k))) :=
  ⟨h.1, h.2.1, getLast?_blocks_succ.symm⟩

/-- The block of inclusion comes to an observer: at its last head, and as a head itself. -/
theorem observerInv_found {first : ℤ} {k : ℕ} {o : Observer}
    (h : ObserverInv chain (chain.blocks first k) none o) :
    ObserverInv chain (chain.blocks first (k + 1)) (some (chain.block (first + k)))
      ((o.onIncluded (chain.block (first + k))).onHead (some (chain.block (first + k)))
        (chain.block (first + k))) := by
  obtain ⟨hemitted, hcompleted, hhead⟩ := h
  cases k with
  | zero =>
    have hnone : o.head = none := hhead
    rw [Observer.onIncluded, hnone]
    refine ⟨first + (0 : ℕ), 0, ?_⟩
    exact reports_first (o := { o with head := some _ }) hemitted hcompleted
      (by rw [chain.level_block]; omega) getLast?_blocks_succ
  | succ j =>
    rw [getLast?_blocks_succ] at hhead
    rw [Observer.onIncluded, hhead]
    dsimp only
    have hle : (chain.block (first + (j + 1 : ℕ))).level - 1 ≤ first + j := by
      rw [chain.level_block]
      push_cast
      omega
    have hfirst := @reports_first chain (chain.blocks first (j + 1)) _ o _ hemitted hcompleted hle
      getLast?_blocks_succ
    obtain ⟨k', hk'⟩ := reports_next hfirst
    exact ⟨_, k', hk'⟩

/-- The subscription of an observer. -/
theorem observerInv_observe {first : ℤ} {k : ℕ} {includedInBlock : Option Block}
    (hincluded : includedInBlock = (chain.blocks first k).find? fun b => b.contains opHash)
    (conf : ℤ) :
    ObserverInv chain (chain.blocks first k) includedInBlock
      (match (chain.blocks first k).getLast? with
        | none => { conf, head := none, emitted := [], completed := false }
        | some head => Observer.onHead includedInBlock head
          { conf, head := none, emitted := [], completed := false }) := by
  cases k with
  | zero =>
    subst hincluded
    exact ⟨rfl, rfl, rfl⟩
  | succ j =>
    rw [getLast?_blocks_succ]
    dsimp only
    cases includedInBlock with
    | none => exact ⟨rfl, rfl, getLast?_blocks_succ.symm⟩
    | some foundAtBlock =>
      -- The block of inclusion is not above the last head.
      have hmem := List.mem_of_find?_eq_some hincluded.symm
      obtain ⟨level, _, hlt, rfl⟩ := mem_blocks.mp hmem
      refine ⟨first + j, 0, ?_⟩
      refine @reports_first chain _ _ { conf, head := some _, emitted := [], completed := false } _ rfl
        rfl ?_ getLast?_blocks_succ
      rw [chain.level_block]
      push_cast at hlt
      omega

/-- **A wallet operation keeps its invariant.** -/
theorem keeps_wallet (chain : Chain) (opHash : JSString) (defaultConfirmationCount : Option ℤ) :
    Keeps chain (walletConsumer opHash defaultConfirmationCount) (WalletInv chain opHash) := by
  refine ⟨?_, ?_⟩
  · intro first k op h _
    have hfind : (chain.blocks first (k + 1)).find? (fun b => b.contains opHash)
        = op.includedInBlock.or (if (chain.block (first + k)).contains opHash = true then
          some (chain.block (first + k)) else none) := by
      rw [blocks_succ, List.find?_append, h.included, List.find?_singleton]
    show WalletInv chain opHash _ (op.next opHash (chain.block (first + k)))
    rw [WalletOperation.next, WalletOperation.confirmed]
    cases hincluded : op.includedInBlock with
    | some foundAtBlock =>
      -- The operation has been found before.
      rw [Option.isNone_some, Bool.false_and, if_neg Bool.false_ne_true]
      rw [hincluded, Option.some_or] at hfind
      refine ⟨hincluded.trans hfind.symm, ?_⟩
      intro o ho
      obtain ⟨o', ho', rfl⟩ := List.mem_map.mp ho
      dsimp only
      rw [hincluded]
      have hobserver := h.observers o' ho'
      rw [hincluded] at hobserver
      obtain ⟨start, k', hreports⟩ := hobserver
      have hne : k ≠ 0 := by
        rintro rfl
        have hempty := h.included
        rw [hincluded] at hempty
        cases hempty
      obtain ⟨j, rfl⟩ := Nat.exists_eq_succ_of_ne_zero hne
      obtain ⟨k'', hnext⟩ := reports_next hreports
      exact ⟨start, k'', hnext⟩
    | none =>
      rw [hincluded, Option.none_or] at hfind
      by_cases hcontains : (chain.block (first + k)).contains opHash = true
      · rw [Option.isNone_none, Bool.true_and, if_pos hcontains]
        rw [if_pos hcontains] at hfind
        refine ⟨hfind.symm, ?_⟩
        intro o ho
        obtain ⟨o', ho', rfl⟩ := List.mem_map.mp ho
        obtain ⟨o'', ho'', rfl⟩ := List.mem_map.mp ho'
        have hobserver := h.observers o'' ho''
        rw [hincluded] at hobserver
        exact observerInv_found hobserver
      · rw [Option.isNone_none, Bool.true_and, if_neg hcontains]
        rw [if_neg hcontains] at hfind
        refine ⟨hincluded.trans hfind.symm, ?_⟩
        intro o ho
        obtain ⟨o', ho', rfl⟩ := List.mem_map.mp ho
        dsimp only
        rw [hincluded]
        have hobserver := h.observers o' ho'
        rw [hincluded] at hobserver
        exact observerInv_onHead_none hobserver
  · intro confirmations first k op h
    show WalletInv chain opHash _ (op.confirmationObservable _ _ _)
    rw [WalletOperation.confirmationObservable]
    split
    · exact h
    split
    · exact h
    · refine ⟨h.included, ?_⟩
      intro o ho
      rcases List.mem_append.mp ho with ho | ho
      · exact h.observers o ho
      · rw [List.mem_singleton.mp ho]
        exact observerInv_observe h.included _

end wallet

/-! ## Operations -/

/-- What an operation holds after a run: where it was found, and whether a block had enough
confirmations, which then is the last one. -/
structure OperationInv (chain : Chain) (opHash : JSString) (conf : ℤ) (emitted : List Block)
    (op : Operation) : Prop where
  conf_eq : op.conf = conf
  foundAt : op.foundAt = (emitted.find? fun b => b.contains opHash).map Block.level
  confirmed : op.confirmed = op.foundAt.isSome
  resolved : op.resolved = op.foundAt.bind fun foundAt =>
    if (emitted.any fun b => b.level - foundAt ≥ conf - 1) then some (foundAt + (conf - 1))
    else none
  before : ∀ foundAt, op.foundAt = some foundAt → ∀ b ∈ emitted.dropLast, b.level - foundAt < conf - 1

section operation

variable {chain : Chain} {opHash : JSString}

/-- The scan of the passes. -/
theorem find_eq (head : Block) (op : Operation) :
    op.find opHash head
      = if head.contains opHash then { op with foundAt := some head.level } else op := by
  rw [Operation.find, Block.contains]
  cases h0 : (head.operations 0).contains opHash <;> cases h1 : (head.operations 1).contains opHash <;>
    cases h2 : (head.operations 2).contains opHash <;>
    cases h3 : (head.operations 3).contains opHash <;>
    simp only [List.foldl_cons, List.foldl_nil, List.any_cons, List.any_nil, h0, h1, h2, h3,
      Bool.or_true, Bool.or_false, Bool.false_eq_true, if_true, if_false]

/-- What the promise of `confirmation` comes to over some blocks. -/
theorem await_eq {op : Operation} (hnone : op.resolved = none) (foundAt : ℤ) (blocks : List Block) :
    op.await foundAt blocks
      = { op with
          resolved := (if (blocks.any fun b => b.level - foundAt ≥ op.conf - 1)
            then some (foundAt + (op.conf - 1)) else none) } := by
  rw [Operation.await]
  split
  · rfl
  · rw [← hnone]

/-- **An operation keeps its invariant.** -/
theorem keeps_operation (chain : Chain) (opHash : JSString) {conf : ℤ} (hconf : 1 ≤ conf) :
    Keeps chain (operationConsumer opHash) (OperationInv chain opHash conf) := by
  refine ⟨?_, fun e => e.elim⟩
  intro first k op h hsub
  have hnone : op.resolved = none := Option.isNone_iff_eq_none.mp hsub
  show OperationInv chain opHash conf _ (op.next opHash _ (chain.block (first + k)))
  have hfind : ((chain.blocks first (k + 1)).find? fun b => b.contains opHash)
      = ((chain.blocks first k).find? fun b => b.contains opHash).or
        (if (chain.block (first + k)).contains opHash = true then
          some (chain.block (first + k)) else none) := by
    rw [blocks_succ, List.find?_append, List.find?_singleton]
  have hdrop : (chain.blocks first (k + 1)).dropLast = chain.blocks first k := by
    rw [blocks_succ, List.dropLast_concat]
  rw [Operation.next]
  cases hfound : op.foundAt with
  | some foundAt =>
    have hconfirmed := h.confirmed
    rw [hfound, Option.isSome_some] at hconfirmed
    -- Nothing before was high enough, or the promise would be resolved.
    have hany : ((chain.blocks first k).any fun b => b.level - foundAt ≥ conf - 1) = false := by
      have hresolved := h.resolved
      rw [hnone, hfound, Option.bind_some] at hresolved
      by_contra hany
      rw [if_pos (Bool.eq_true_of_not_eq_false hany)] at hresolved
      cases hresolved
    have hfoundAt := h.foundAt
    rw [hfound] at hfoundAt
    obtain ⟨b, hb, hlevel⟩ := Option.map_eq_some_iff.mp hfoundAt.symm
    rw [hconfirmed, if_pos rfl]
    dsimp only
    rw [await_eq hnone]
    refine ⟨h.conf_eq, ?_, ?_, ?_, ?_⟩
    · rw [hfind, hb, Option.some_or, Option.map_some, hlevel]
      exact hfound
    · show op.confirmed = op.foundAt.isSome
      rw [hconfirmed, hfound]
      rfl
    · show _ = op.foundAt.bind _
      rw [hfound, Option.bind_some, blocks_succ, List.any_append, hany, Bool.false_or, h.conf_eq]
    · intro foundAt' hfoundAt' b' hb'
      have heq : foundAt = foundAt' := Option.some.inj (hfound.symm.trans hfoundAt')
      rw [hdrop] at hb'
      have hlt := List.any_eq_false.mp hany b' hb'
      rw [← heq]
      exact not_le.mp fun hle => hlt (decide_eq_true hle)
  | none =>
    have hconfirmed := h.confirmed
    rw [hfound, Option.isSome_none] at hconfirmed
    have hnotFound : ((chain.blocks first k).find? fun b => b.contains opHash) = none := by
      have hfoundAt := h.foundAt
      rw [hfound] at hfoundAt
      exact Option.map_eq_none_iff.mp hfoundAt.symm
    rw [hnotFound, Option.none_or] at hfind
    rw [hconfirmed, if_neg Bool.false_ne_true, find_eq]
    by_cases hcontains : (chain.block (first + k)).contains opHash = true
    · rw [if_pos hcontains] at hfind ⊢
      dsimp only
      rw [if_pos (by omega), await_eq (by exact hnone), ← blocks_succ]
      refine ⟨h.conf_eq, ?_, rfl, ?_, ?_⟩
      · rw [hfind]
        rfl
      · show _ = Option.bind (some _) _
        rw [Option.bind_some, h.conf_eq]
      · intro foundAt hfoundAt b hb
        rw [hdrop] at hb
        obtain ⟨level, _, hlt, rfl⟩ := mem_blocks.mp hb
        rw [← Option.some.inj hfoundAt, chain.level_block, chain.level_block]
        omega
    · rw [if_neg hcontains] at hfind ⊢
      dsimp only
      rw [hfound]
      refine ⟨h.conf_eq, ?_, h.confirmed, ?_, ?_⟩
      · rw [hfind, hfound]
        rfl
      · rw [hnone, hfound]
        rfl
      · intro foundAt hfoundAt
        rw [hfound] at hfoundAt
        cases hfoundAt

end operation

/-! ## Every run -/

/-- A stream misses no block: it emitted the blocks from the first head on, one level after the
other, and reaches the last head once nothing is asked for any more, which takes finitely many
replies. -/
structure MissesNone {σ ε : Type} (chain : Chain) (consumer : Consumer σ ε) (sink : σ)
    (events : List (Event ε)) : Prop where
  emitted : ∃ k, (run chain consumer sink events).emitted
    = chain.blocks ((heads events).head?.getD 0) k
  idle : heads events = [] → (run chain consumer sink events).emitted = []
  reached : (run chain consumer sink events).alive consumer = true →
    (run chain consumer sink events).inner = none →
    (run chain consumer sink events).emitted.getLast? = (heads events).getLast?.map chain.block
  arrives : ∃ n, (run chain consumer sink (events ++ List.replicate n .reply)).alive consumer = true →
    (run chain consumer sink (events ++ List.replicate n .reply)).inner = none

/-- A wallet operation that is included at a level: it is found there, and every subscription
reports the confirmations of one emitted level after the other, up to the last one or the first
that completes. -/
structure WalletFinds (chain : Chain) (i : ℤ) (s : Stream WalletOperation) : Prop where
  notFound : chain.block i ∉ s.emitted → s.sink.includedInBlock = none
  found : chain.block i ∈ s.emitted → s.sink.includedInBlock = some (chain.block i)
  silent : chain.block i ∉ s.emitted → ∀ o ∈ s.sink.observers, o.emitted = [] ∧ o.completed = false
  reports : chain.block i ∈ s.emitted → ∀ o ∈ s.sink.observers, ∃ start k,
    i - 1 ≤ start ∧ chain.block start ∈ s.emitted
    ∧ o.emitted = (List.range (k + 1)).map (fun j : ℕ =>
        { block := chain.block (start + j)
          expectedConfirmation := o.conf
          currentConfirmation := start + j - i + 1
          completed := decide (start + j - i ≥ o.conf - 1) })
    ∧ (∀ j : ℕ, j < k → start + j < i + o.conf - 1)
    ∧ (o.completed = true ↔ i + o.conf - 1 ≤ start + k)
    ∧ (o.completed = false → s.emitted.getLast? = some (chain.block (start + k)))

/-- An operation that is included at a level: it is found there, and the promise is resolved at the
first emitted level that has enough confirmations. -/
structure OperationFinds (chain : Chain) (i conf : ℤ) (s : Stream Operation) : Prop where
  notFound : chain.block i ∉ s.emitted → s.sink.foundAt = none
  found : chain.block i ∈ s.emitted → s.sink.foundAt = some i
  resolves : ∀ level, chain.block level ∈ s.emitted → i + conf - 1 ≤ level →
    s.sink.resolved = some (i + conf - 1)
  waits : (∀ level, chain.block level ∈ s.emitted → level < i + conf - 1) → s.sink.resolved = none
  atFirst : ∀ level, chain.block level ∈ s.emitted.dropLast → level < i + conf - 1

section every

variable {σ ε : Type} {chain : Chain} {consumer : Consumer σ ε} {P : List Block → σ → Prop}

/-- What a consumer keeps holds after every run, of the run of blocks that was emitted. -/
theorem keeps_run (hkeeps : Keeps chain consumer P) {sink : σ} (hsink : P [] sink)
    {events : List (Event ε)} (hinc : (heads events).Pairwise (· < ·)) :
    ∃ k, (run chain consumer sink events).emitted = chain.blocks ((heads events).head?.getD 0) k
      ∧ P (run chain consumer sink events).emitted (run chain consumer sink events).sink
      ∧ (heads events = [] → k = 0) := by
  rcases reached_run hkeeps hsink events hinc with ⟨hidle, _⟩ | ⟨first, last, hfirst, _, hinv⟩
  · refine ⟨0, hidle.emitted, ?_, fun _ => rfl⟩
    rw [hidle.emitted]
    exact hidle.sink
  · obtain ⟨k, hemitted, _, _⟩ := hinv
    refine ⟨k + 1, ?_, hemitted.sink, ?_⟩
    · rw [hfirst]
      exact hemitted.emitted
    · intro hnil
      rw [hnil] at hfirst
      cases hfirst

/-- A reply leaves fewer levels to ask for. -/
theorem inner_reply {n : ℕ} {s : Stream σ}
    (hinner : ∀ levels newHead, s.inner = some (levels, newHead) →
      levels.length ≤ n + 1 ∧ levels ≠ []) {levels : List ℤ} {newHead : Block}
    (h : (reply chain consumer s).inner = some (levels, newHead)) :
    levels.length ≤ n ∧ levels ≠ [] := by
  rw [reply] at h
  rcases hs : s.inner with _ | ⟨asked, head⟩
  · rw [hs] at h
    dsimp only at h
    rw [hs] at h
    cases h
  rcases asked with _ | ⟨level, rest⟩
  · exact absurd rfl (hinner [] head hs).2
  have hlength := (hinner _ head hs).1
  rw [hs] at h
  dsimp only at h
  split at h
  · rcases rest with _ | ⟨level', rest⟩
    · cases h
    · rw [continueWith] at h
      obtain ⟨rfl, rfl⟩ := Prod.mk.inj (Option.some.inj h)
      exact ⟨Nat.le_of_succ_le_succ hlength, List.cons_ne_nil _ _⟩
  · cases h

/-- Enough replies leave none. -/
theorem arrives_of_inner (n : ℕ) : ∀ {s : Stream σ},
    (s.alive consumer = true → ∀ levels newHead, s.inner = some (levels, newHead) →
      levels.length ≤ n ∧ levels ≠ []) →
    ((List.replicate n Event.reply).foldl (step chain consumer) s).alive consumer = true →
    ((List.replicate n Event.reply).foldl (step chain consumer) s).inner = none := by
  induction n with
  | zero =>
    intro s hinner halive
    by_contra hsome
    obtain ⟨⟨levels, newHead⟩, hs⟩ := Option.ne_none_iff_exists'.mp hsome
    obtain ⟨hlength, hne⟩ := hinner halive levels newHead hs
    exact hne (List.length_eq_zero_iff.mp (Nat.le_zero.mp hlength))
  | succ n ih =>
    intro s hinner
    rw [List.replicate_succ, List.foldl_cons]
    apply ih
    intro halive' levels newHead hstep
    by_cases halive : s.alive consumer = true
    · have hreply : step chain consumer s Event.reply = reply chain consumer s := if_pos halive
      rw [hreply] at hstep
      exact inner_reply (hinner halive) hstep
    · -- A stream that is not alive stays so.
      have hstay : step chain consumer s Event.reply = s := if_neg halive
      rw [hstay] at halive'
      exact absurd halive' halive

/-- **No stream misses a block**, whatever its consumer keeps. -/
theorem missesNone_run (hkeeps : Keeps chain consumer P) {sink : σ} (hsink : P [] sink)
    {events : List (Event ε)} (hinc : (heads events).Pairwise (· < ·)) :
    MissesNone chain consumer sink events := by
  obtain ⟨k, hemitted, _, hzero⟩ := keeps_run hkeeps hsink hinc
  have hreached := reached_run hkeeps hsink events hinc
  refine ⟨⟨k, hemitted⟩, ?_, ?_, ?_⟩
  · intro hnil
    rw [hemitted, hzero hnil]
    rfl
  · intro halive hinner
    rcases hreached with ⟨hidle, hnil⟩ | ⟨first, last, _, hlast, k, hrun, _, hask⟩
    · have hheads : heads events = [] := by
        rcases hnil with hnil | hnil
        · exact hnil
        · rw [halive] at hnil
          cases hnil
      rw [hidle.emitted, hheads]
      rfl
    · have hdone := hask halive
      rw [hinner] at hdone
      have hlevel : first + (k + 1 : ℕ) = last + 1 := by
        have hdone' : first + ((k + 1 : ℕ) : ℤ) - 1 = last := hdone
        omega
      rw [hlast, hrun.emitted, getLast?_blocks hlevel (Nat.succ_pos k)]
      rfl
  · rcases hreached with ⟨hidle, _⟩ | ⟨first, last, _, _, k, hrun, _, hask⟩
    · refine ⟨0, fun _ => ?_⟩
      rw [List.replicate_zero, List.append_nil]
      exact hidle.inner
    · refine ⟨(last - (first + (k + 1 : ℕ))).toNat, ?_⟩
      rw [run, List.foldl_append]
      apply arrives_of_inner
      intro halive levels newHead hinner
      have hlevels : Inner chain first last (k + 1) (some (levels, newHead)) :=
        hinner ▸ hask halive
      obtain ⟨_, hlt, rfl⟩ := hlevels
      refine ⟨?_, ?_⟩
      · rw [range, List.length_map, List.length_range]
      · rw [range_of_pos (by omega)]
        exact List.cons_ne_nil _ _

/-- A level that is not below the first one, in a run of blocks. -/
theorem walletFinds_run (opHash : JSString) (defaultConfirmationCount : Option ℤ)
    {events : List (Event (Option ℤ))} (hinc : (heads events).Pairwise (· < ·)) {first i : ℤ}
    (hfirst : (heads events).head? = some first) (hi : IncludedAt chain opHash first i) :
    WalletFinds chain i
      (run chain (walletConsumer opHash defaultConfirmationCount) WalletOperation.sent events) := by
  have hsent : WalletInv chain opHash [] WalletOperation.sent :=
    ⟨rfl, fun o ho => absurd ho List.not_mem_nil⟩
  obtain ⟨k, hemitted, hinv, _⟩ :=
    keeps_run (keeps_wallet chain opHash defaultConfirmationCount) hsent hinc
  rw [hfirst, Option.getD_some] at hemitted
  have hmem := @block_mem_blocks chain first k i hi.le
  have hincluded := hinv.included
  rw [hemitted, find?_blocks hi k] at hincluded
  rw [← hemitted] at hmem
  refine ⟨?_, ?_, ?_, ?_⟩
  · intro hnot
    rw [hincluded, if_neg (mt hmem.mpr hnot)]
  · intro hin
    rw [hincluded, if_pos (hmem.mp hin)]
  · intro hnot o ho
    have hobserver := hinv.observers o ho
    rw [hincluded, if_neg (mt hmem.mpr hnot)] at hobserver
    exact ⟨hobserver.1, hobserver.2.1⟩
  · intro hin o ho
    have hobserver := hinv.observers o ho
    rw [hincluded, if_pos (hmem.mp hin)] at hobserver
    obtain ⟨start, k', hreports⟩ := hobserver
    have hstart := hreports.le_start
    rw [chain.level_block] at hstart
    refine ⟨start, k', hstart, hreports.start_mem, ?_, ?_, ?_, hreports.upToDate⟩
    · rw [hreports.confirmations, Chain.blocks, List.map_map]
      apply List.map_congr_left
      intro j _
      simp only [Function.comp_apply, confirmationAt, chain.level_block]
    · intro j hj
      have hbefore := hreports.before j hj
      rw [chain.level_block] at hbefore
      omega
    · rw [hreports.completed, chain.level_block]
      omega

theorem operationFinds_run (opHash : JSString) {conf : ℤ} (hconf : 1 ≤ conf)
    {events : List (Event Empty)} (hinc : (heads events).Pairwise (· < ·)) {first i : ℤ}
    (hfirst : (heads events).head? = some first) (hi : IncludedAt chain opHash first i) :
    OperationFinds chain i conf
      (run chain (operationConsumer opHash) (Operation.confirmation conf) events) := by
  have hsent : OperationInv chain opHash conf [] (Operation.confirmation conf) :=
    ⟨rfl, rfl, rfl, rfl, fun _ _ b hb => absurd hb List.not_mem_nil⟩
  obtain ⟨k, hemitted, hinv, _⟩ := keeps_run (keeps_operation chain opHash hconf) hsent hinc
  rw [hfirst, Option.getD_some] at hemitted
  have hmem := @block_mem_blocks chain first k i hi.le
  have hfoundAt := hinv.foundAt
  rw [hemitted, find?_blocks hi k] at hfoundAt
  -- Emitted levels are those of the run.
  have hlevels : ∀ level, chain.block level ∈ chain.blocks first k → level < first + k := by
    intro level hin
    obtain ⟨level', _, hlt, heq⟩ := mem_blocks.mp hin
    rwa [block_inj heq]
  have hfoundAt' : i < first + k →
      (run chain (operationConsumer opHash) (Operation.confirmation conf) events).sink.foundAt
        = some i := by
    intro hlt
    rw [hfoundAt, if_pos hlt, Option.map_some, chain.level_block]
  rw [hemitted] at hinv
  refine ⟨?_, ?_, ?_, ?_, ?_⟩
  · intro hnot
    rw [hemitted] at hnot
    rw [hfoundAt, if_neg (mt hmem.mpr hnot)]
    rfl
  · intro hin
    rw [hemitted] at hin
    exact hfoundAt' (hmem.mp hin)
  · intro level hin hle
    rw [hemitted] at hin
    have hlt := hlevels level hin
    have hany : (chain.blocks first k).any (fun b => b.level - i ≥ conf - 1) = true := by
      refine List.any_eq_true.mpr ⟨chain.block level, hin, decide_eq_true ?_⟩
      rw [chain.level_block]
      omega
    rw [hinv.resolved, hfoundAt' (by omega), Option.bind_some, if_pos hany]
    congr 1
    ring
  · intro hbelow
    rw [hinv.resolved]
    by_cases hlt : i < first + k
    · have hany : ¬(chain.blocks first k).any (fun b => b.level - i ≥ conf - 1) = true := by
        intro hany
        obtain ⟨b, hb, hle⟩ := List.any_eq_true.mp hany
        obtain ⟨level, _, _, rfl⟩ := mem_blocks.mp hb
        rw [decide_eq_true_iff, chain.level_block] at hle
        have := hbelow level (hemitted ▸ hb)
        omega
      rw [hfoundAt' hlt, Option.bind_some, if_neg hany]
    · rw [hfoundAt, if_neg hlt]
      rfl
  · intro level hin
    rw [hemitted] at hin
    by_cases hlt : i < first + k
    · have hbefore := hinv.before i (hfoundAt' hlt) _ hin
      rw [chain.level_block] at hbefore
      omega
    · have := hlevels level (List.mem_of_mem_dropLast hin)
      omega

/-- A chain whose blocks are told apart by the lengths of their hashes, with one operation. -/
def Chain.withOperation (opHash : JSString) (i : ℤ) : Chain where
  block level :=
    { level
      hash := List.replicate (Equiv.intEquivNat level) 0
      operations := fun _ => if level = i then [opHash] else [] }
  level_block _ := rfl
  hash_injective h := by
    have hlength := congrArg List.length h
    rw [List.length_replicate, List.length_replicate] at hlength
    exact Equiv.intEquivNat.injective hlength

/-- It is resolved with the block after that of the operation. -/
example : (run (Chain.withOperation [0] 12) (operationConsumer [0]) (Operation.confirmation 2)
    [.head 10, .head 13, .head 14, .reply, .reply, .reply]).sink.resolved
    = some 13 := by decide

end every

end Heads
