import Taquito.Lib.Reader
import Taquito.Operations.Types

/-!
# The operation emitter

`OperationEmitter.prepareOperation`: the contents of a list of operations, with the counters of the
manager operations and the voting period of the votes. The construction of the contents
(`constructOp`) is shared with the prepare provider, which keeps its counters elsewhere; it takes
the step that yields the next counter as a parameter.

The counters of a list are numbered in order from the head counter on (`constructOps_numbered`), so
`prepareOperation` numbers the manager operations of any list (`prepareOperation_numbering`).
-/

open Js

namespace Operations

variable {ρ σ : Type}

/-! ## The contents of an operation -/

/-- `s.toLowerCase().startsWith('kt1')`. -/
def startsWithKt1 (s : JSString) : Bool :=
  match s with
  | k :: t :: one :: _ => (k = 107 ∨ k = 75 ∨ k = 0x212A) ∧ (t = 116 ∨ t = 84) ∧ one = 49
  | _ => false

/-- `getSource`. -/
def getSource (publicKeyHash : JSString) (source : Option JSString) (op : RPCOperation ρ) :
    JSString :=
  op.source.getD (orString source publicKeyHash)

/-- The fields of `getFee`, with the counter that `next` yields. -/
def getFee (next : σ → JSInt × σ) (c : OperationContents ρ) (s : σ) : OperationContents ρ × σ :=
  let (opCounter, s) := next s
  ({ c with
    counter := some opCounter.text
    fee := some (.string (fieldTextOr0 c.fee))
    gas_limit := some (.string (fieldTextOr0 c.gas_limit))
    storage_limit := some (.string (fieldTextOr0 c.storage_limit)) }, s)

/-- One operation in `constructOps`; the state is kept when it throws. -/
def constructOp (next : σ → JSInt × σ) (publicKeyHash : JSString) (source : Option JSString)
    (currentVotingPeriod : Option ℤ) (op : RPCOperation ρ) (s : σ) :
    Except OperationError (OperationContents ρ) × σ :=
  let c := OperationContents.copy op
  let src := getSource publicKeyHash source op
  let withFee (c : OperationContents ρ) : Except OperationError (OperationContents ρ) × σ :=
    let (c, s) := getFee next c s
    (.ok c, s)
  match op.kind with
  | .ACTIVATION | .DRAIN_DELEGATE => (.ok c, s)
  | .ORIGINATION =>
    withFee { c with balance := some (.string (fieldTextOr0 op.balance)), source := some src }
  | .TRANSACTION =>
    let (cops, s) := getFee next
      { c with amount := some (.string (fieldTextOr0 op.amount)), source := some src } s
    if startsWithKt1 src then (.error .DeprecationError, s) else (.ok cops, s)
  | .REVEAL | .DELEGATION | .REGISTER_GLOBAL_CONSTANT | .TX_ROLLUP_ORIGINATION
  | .TX_ROLLUP_SUBMIT_BATCH | .UPDATE_CONSENSUS_KEY | .SMART_ROLLUP_ADD_MESSAGES
  | .SMART_ROLLUP_ORIGINATE => withFee { c with source := some src }
  | .TRANSFER_TICKET =>
    withFee
      { c with ticket_amount := some (.string (fieldText op.ticket_amount)), source := some src }
  | .INCREASE_PAID_STORAGE =>
    withFee { c with amount := some (.string (fieldText op.amount)), source := some src }
  | .BALLOT | .PROPOSALS =>
    match currentVotingPeriod with
    | none => (.error .RPCResponseError, s)
    | some index => (.ok { c with period := some index }, s)
  | kind => (.error (.InvalidOperationKindError kind), s)

/-- `constructOps`. -/
def constructOps (next : σ → JSInt × σ) (publicKeyHash : JSString) (source : Option JSString)
    (currentVotingPeriod : Option ℤ) :
    List (RPCOperation ρ) → σ → Except OperationError (List (OperationContents ρ)) × σ
  | [], s => (.ok [], s)
  | op :: ops, s =>
    match constructOp next publicKeyHash source currentVotingPeriod op s with
    | (.error e, s) => (.error e, s)
    | (.ok c, s) =>
      match constructOps next publicKeyHash source currentVotingPeriod ops s with
      | (.error e, s) => (.error e, s)
      | (.ok cs, s) => (.ok (c :: cs), s)

/-! ## Preparing -/

section

variable (answers : Answers ρ)

/-- An awaited call. -/
def await (q : Request ρ) : Except OperationError (Response q) :=
  (answers q).mapError .request

/-- The current voting period, if it is asked for. The callback of `find` is asynchronous, so what
it returns is a promise, which is truthy: only the first operation is looked at. -/
def getCurrentVotingPeriod (ops : List (RPCOperation ρ)) : Except OperationError (Option ℤ) :=
  match ops with
  | op :: _ =>
    if op.kind = .BALLOT ∨ op.kind = .PROPOSALS then some <$> await answers .getCurrentPeriod
    else pure none
  | [] => pure none

/-- The counter of an account, if it is asked for. -/
def getHeadCounter (publicKeyHash : JSString) (ops : List (RPCOperation ρ)) :
    Except OperationError (Option JSString) :=
  if ops.any fun op => isOpRequireReveal op.kind || op.kind = .REVEAL then
    some <$> await answers (.getCounter publicKeyHash)
  else pure none

/-- `++counters[publicKeyHash]`; the entry was set to the head counter before. -/
def nextCounter (counter : JSInt) : JSInt × JSInt := (counter.succ, counter.succ)

/-- `pkh ? pkh : await this.signer.publicKeyHash()`. -/
def getPublicKeyHash (pkh : Option JSString) : Except OperationError JSString :=
  match pkh with
  | some s => if s.isEmpty then await answers .publicKeyHash else pure s
  | none => await answers .publicKeyHash

/-- `prepareOperation`. -/
def prepareOperation (ops : List (RPCOperation ρ)) (source pkh : Option JSString) :
    Except OperationError (PreparedOperation ρ) := do
  let publicKeyHash ← getPublicKeyHash answers pkh
  let hash ← await answers .getBlockHash
  let protocol ← await answers .getNextProtocol
  let headCounter ← getHeadCounter answers publicKeyHash ops
  let currentVotingPeriod ← getCurrentVotingPeriod answers ops
  let counter := parseInt 10 (orString headCounter (js "0"))
  let contents ←
    (constructOps nextCounter publicKeyHash source currentVotingPeriod ops counter).1
  return ⟨hash, contents, protocol, counter⟩

end

/-! ## Kinds of operations -/

/-- The manager operations, which carry a counter. -/
def isManager (kind : OpKind) : Bool := isOpRequireReveal kind || kind = .REVEAL

/-- The operations that carry a voting period. -/
def isVote (kind : OpKind) : Bool := kind = .BALLOT || kind = .PROPOSALS

/-- The kinds that `constructOps` has a case for. -/
def isSupported (kind : OpKind) : Bool :=
  isManager kind || isVote kind || kind = .ACTIVATION || kind = .DRAIN_DELEGATE

/-- What contents keep of their operation. -/
structure Keeps (op : RPCOperation ρ) (c : OperationContents ρ) : Prop where
  kind : c.kind = op.kind
  destination : c.destination = op.destination
  parameters : c.parameters = op.parameters
  public_key : c.public_key = op.public_key
  rest : c.rest = op.rest

/-- What contents hold besides: nothing for a counter unless they are a manager operation's, and the
period of a vote. -/
structure Describes (period : Option ℤ) (op : RPCOperation ρ) (c : OperationContents ρ) : Prop
    extends Keeps op c where
  counter : isManager op.kind = false → c.counter = none
  period : isVote op.kind = true → period.isSome ∧ c.period = period

theorem isVote_of_isManager {kind : OpKind} (h : isManager kind = true) : isVote kind = false := by
  revert h
  cases kind <;> decide

/-! ## One operation -/

section construct

variable {next : σ → JSInt × σ} {publicKeyHash : JSString} {source : Option JSString}
  {period : Option ℤ}

/-- A manager operation takes the next counter. -/
theorem getFee_describes {op : RPCOperation ρ} {c : OperationContents ρ} {s : σ}
    (hk : isManager op.kind = true) (hc : Keeps op c) :
    Describes period op (getFee next c s).1 ∧
      if isManager op.kind then
        (getFee next c s).1.counter = some (next s).1.text ∧ (getFee next c s).2 = (next s).2
      else (getFee next c s).2 = s := by
  rw [if_pos hk]
  have hv := isVote_of_isManager hk
  exact ⟨⟨⟨hc.kind, hc.destination, hc.parameters, hc.public_key, hc.rest⟩, by simp [hk],
    by simp [hv]⟩, rfl, rfl⟩

/-- What one operation becomes: a manager operation takes the next counter, and no other does. -/
theorem constructOp_eq_ok {op : RPCOperation ρ} {c : OperationContents ρ} {s s' : σ}
    (h : constructOp next publicKeyHash source period op s = (.ok c, s')) :
    Describes period op c ∧
      if isManager op.kind then c.counter = some (next s).1.text ∧ s' = (next s).2
      else s' = s := by
  have hcopy : Keeps op (OperationContents.copy op) := ⟨rfl, rfl, rfl, rfl, rfl⟩
  unfold constructOp at h
  cases hk : op.kind <;> simp only [hk] at h
  case ORIGINATION | REVEAL | DELEGATION | REGISTER_GLOBAL_CONSTANT | TX_ROLLUP_ORIGINATION |
      TX_ROLLUP_SUBMIT_BATCH | UPDATE_CONSENSUS_KEY | SMART_ROLLUP_ADD_MESSAGES |
      SMART_ROLLUP_ORIGINATE | TRANSFER_TICKET | INCREASE_PAID_STORAGE =>
    cases h
    rw [← hk]
    exact getFee_describes (by simp [hk, isManager, isOpRequireReveal])
      ⟨rfl, rfl, rfl, rfl, rfl⟩
  case TRANSACTION =>
    rw [← hk]
    by_cases hkt : startsWithKt1 (getSource publicKeyHash source op) = true
    · rw [if_pos hkt] at h
      cases h
    · rw [if_neg hkt] at h
      cases h
      exact getFee_describes (by simp [hk, isManager, isOpRequireReveal])
        ⟨rfl, rfl, rfl, rfl, rfl⟩
  case ACTIVATION | DRAIN_DELEGATE =>
    cases h
    exact ⟨⟨hcopy, fun _ => rfl, by simp [hk, isVote]⟩, rfl⟩
  case BALLOT | PROPOSALS =>
    cases period with
    | none => cases h
    | some index =>
      cases h
      exact ⟨⟨⟨rfl, rfl, rfl, rfl, rfl⟩, fun _ => rfl, fun _ => ⟨rfl, rfl⟩⟩, rfl⟩
  all_goals cases h

/-- Why one operation is refused. -/
theorem constructOp_eq_error {op : RPCOperation ρ} {s s' : σ} {e : OperationError}
    (h : constructOp next publicKeyHash source period op s = (.error e, s')) :
    (e = .RPCResponseError ∧ isVote op.kind = true ∧ period = none) ∨
    (e = .InvalidOperationKindError op.kind ∧ isSupported op.kind = false) ∨
    (e = .DeprecationError ∧ op.kind = .TRANSACTION ∧
      startsWithKt1 (getSource publicKeyHash source op) = true) := by
  unfold constructOp at h
  cases hk : op.kind <;> simp only [hk] at h
  case ORIGINATION | REVEAL | DELEGATION | REGISTER_GLOBAL_CONSTANT | TX_ROLLUP_ORIGINATION |
      TX_ROLLUP_SUBMIT_BATCH | UPDATE_CONSENSUS_KEY | SMART_ROLLUP_ADD_MESSAGES |
      SMART_ROLLUP_ORIGINATE | TRANSFER_TICKET | INCREASE_PAID_STORAGE => cases h
  case TRANSACTION =>
    by_cases hkt : startsWithKt1 (getSource publicKeyHash source op) = true
    · rw [if_pos hkt] at h
      cases h
      exact .inr (.inr ⟨rfl, rfl, hkt⟩)
    · rw [if_neg hkt] at h
      cases h
  case ACTIVATION | DRAIN_DELEGATE => cases h
  case BALLOT | PROPOSALS =>
    cases period with
    | none =>
      cases h
      exact .inl ⟨rfl, rfl, rfl⟩
    | some index => cases h
  all_goals
    cases h
    exact .inr (.inl ⟨rfl, rfl⟩)

/-! ## All operations -/

/-- The counters of the manager operations, in order. -/
def managerCounters (cs : List (OperationContents ρ)) : List (Option JSString) :=
  (cs.filter fun c => isManager c.kind).map (·.counter)

/-- The first `k` numbers after `n`. -/
def numbering (n : JSInt) (k : ℕ) : List JSInt :=
  (List.range k).map fun i : ℕ => n.map fun z : ℤ => z + (i + 1)

theorem numbering_succ (n : JSInt) (k : ℕ) :
    numbering n (k + 1) = n.succ :: numbering n.succ k := by
  have hrest : ∀ i : ℕ, n.map (fun z : ℤ => z + ((i + 1 : ℕ) + 1)) =
      n.succ.map (fun z : ℤ => z + (i + 1)) := by
    intro i
    cases n with
    | none => rfl
    | some z =>
      simp only [JSInt.succ, Option.map_some, Option.some.injEq]
      push_cast
      ring
  rw [numbering, numbering, List.range_succ_eq_map, List.map_cons, List.map_map]
  refine List.cons_eq_cons.mpr ⟨?_, ?_⟩
  · cases n <;> simp [JSInt.succ]
  · apply List.map_congr_left
    intro i _
    exact hrest i

/-- Each of the contents comes from its operation. -/
theorem constructOps_each {ops : List (RPCOperation ρ)} {cs : List (OperationContents ρ)}
    {s s' : σ} (h : constructOps next publicKeyHash source period ops s = (.ok cs, s')) :
    List.Forall₂ (fun op c => ∃ s s', constructOp next publicKeyHash source period op s =
      (.ok c, s')) ops cs := by
  induction ops generalizing s cs with
  | nil =>
    cases h
    exact .nil
  | cons op ops ih =>
    rw [constructOps] at h
    split at h
    · cases h
    next c s₁ hc =>
    split at h
    · cases h
    next cs' s₂ hcs =>
    cases h
    exact .cons ⟨s, s₁, hc⟩ (ih hcs)

/-- The contents are those of the operations, in order. -/
theorem constructOps_describes {ops : List (RPCOperation ρ)} {cs : List (OperationContents ρ)}
    {s s' : σ} (h : constructOps next publicKeyHash source period ops s = (.ok cs, s')) :
    List.Forall₂ (Describes period) ops cs := by
  apply (constructOps_each h).imp
  rintro op c ⟨s, s', hc⟩
  exact (constructOp_eq_ok hc).1

/-- **The manager operations of a list are numbered in order**, wherever the counters are kept: `At`
says which number was given last, and `next` gives the one after it. -/
theorem constructOps_numbered {At : JSInt → σ → Prop}
    (hnext : ∀ n s, At n s → (next s).1 = n.succ ∧ At n.succ (next s).2)
    {ops : List (RPCOperation ρ)} {cs : List (OperationContents ρ)} {n : JSInt} {s s' : σ}
    (hs : At n s) (h : constructOps next publicKeyHash source period ops s = (.ok cs, s')) :
    managerCounters cs =
      (numbering n (ops.countP fun op => isManager op.kind)).map fun n => some n.text := by
  induction ops generalizing n s cs with
  | nil =>
    cases h
    rfl
  | cons op ops ih =>
    rw [constructOps] at h
    split at h
    · cases h
    next c s₁ hc =>
    split at h
    · cases h
    next cs' s₂ hcs =>
    cases h
    obtain ⟨hdesc, hstep⟩ := constructOp_eq_ok hc
    have hkind := hdesc.kind
    cases hm : isManager op.kind with
    | true =>
      rw [if_pos hm] at hstep
      obtain ⟨hcounter, rfl⟩ := hstep
      obtain ⟨hn, hs₁⟩ := hnext n s hs
      have hlist : managerCounters (c :: cs') = some n.succ.text :: managerCounters cs' := by
        simp [managerCounters, hkind, hm, hcounter, hn]
      rw [hlist, ih hs₁ hcs, List.countP_cons_of_pos (by exact hm), numbering_succ, List.map_cons]
    | false =>
      rw [if_neg (by simp [hm])] at hstep
      subst hstep
      have hlist : managerCounters (c :: cs') = managerCounters cs' := by
        simp [managerCounters, hkind, hm]
      rw [hlist, ih hs hcs, List.countP_cons_of_neg]
      simp [hm]

/-- Why a list is refused: for one of its operations. -/
theorem constructOps_eq_error {ops : List (RPCOperation ρ)} {s s' : σ} {e : OperationError}
    (h : constructOps next publicKeyHash source period ops s = (.error e, s')) :
    ∃ op ∈ ops,
      (e = .RPCResponseError ∧ isVote op.kind = true ∧ period = none) ∨
      (e = .InvalidOperationKindError op.kind ∧ isSupported op.kind = false) ∨
      (e = .DeprecationError ∧ op.kind = .TRANSACTION ∧
        startsWithKt1 (getSource publicKeyHash source op) = true) := by
  induction ops generalizing s with
  | nil => cases h
  | cons op ops ih =>
    rw [constructOps] at h
    split at h
    · next e₁ s₁ hc =>
      cases h
      exact ⟨op, by simp, constructOp_eq_error hc⟩
    next c s₁ hc =>
    split at h
    · next e₂ s₂ hcs =>
      cases h
      obtain ⟨op', hmem, he⟩ := ih hcs
      exact ⟨op', by simp [hmem], he⟩
    · cases h

end construct

/-! ## `prepareOperation` -/

section prepare

variable {answers : Answers ρ} {ops : List (RPCOperation ρ)} {source pkh : Option JSString}

theorem await_eq_ok {q : Request ρ} {a : Response q} (h : await answers q = .ok a) :
    answers q = .ok a := by
  unfold await at h
  cases hq : answers q with
  | error e =>
    rw [hq] at h
    cases h
  | ok b =>
    rw [hq] at h
    cases h
    rfl

theorem await_eq_error {q : Request ρ} {e : OperationError} (h : await answers q = .error e) :
    ∃ m, e = .request m ∧ answers q = .error m := by
  unfold await at h
  cases hq : answers q with
  | error m =>
    rw [hq] at h
    cases h
    exact ⟨m, rfl, rfl⟩
  | ok b =>
    rw [hq] at h
    cases h

/-- The account whose counter is asked for: the one that is given, or the signer's. -/
def IsAccount (answers : Answers ρ) (pkh : Option JSString) (account : JSString) : Prop :=
  pkh = some account ∨ answers .publicKeyHash = .ok account

/-- A public key hash that is given is not asked for. -/
theorem getPublicKeyHash_cases (answers : Answers ρ) (pkh : Option JSString) :
    (∃ s, pkh = some s ∧ getPublicKeyHash answers pkh = .ok s) ∨
      getPublicKeyHash answers pkh = await answers .publicKeyHash := by
  cases pkh with
  | none => exact .inr rfl
  | some s =>
    cases hs : s.isEmpty with
    | true => exact .inr (by rw [getPublicKeyHash, if_pos hs])
    | false => exact .inl ⟨s, rfl, by rw [getPublicKeyHash, if_neg (by simp [hs])]; rfl⟩

theorem getPublicKeyHash_eq_ok {account : JSString}
    (h : getPublicKeyHash answers pkh = .ok account) : IsAccount answers pkh account := by
  obtain ⟨s, hpkh, hs⟩ | hasked := getPublicKeyHash_cases answers pkh
  · rw [hs] at h
    cases h
    exact .inl hpkh
  · rw [hasked] at h
    exact .inr (await_eq_ok h)

theorem getPublicKeyHash_eq_error {e : OperationError}
    (h : getPublicKeyHash answers pkh = .error e) :
    ∃ m, e = .request m ∧ answers .publicKeyHash = .error m := by
  obtain ⟨s, -, hs⟩ | hasked := getPublicKeyHash_cases answers pkh
  · rw [hs] at h
    cases h
  · rw [hasked] at h
    exact await_eq_error h

/-- The head counter is asked for when an operation of the list needs one. -/
theorem getHeadCounter_eq_ok {account : JSString} {c : Option JSString}
    (h : getHeadCounter answers account ops = .ok c)
    (hm : ∃ op ∈ ops, isManager op.kind = true) :
    ∃ head, c = some head ∧ answers (.getCounter account) = .ok head := by
  unfold getHeadCounter at h
  split at h
  · cases hq : await answers (.getCounter account) with
    | error e =>
      rw [hq] at h
      cases h
    | ok head =>
      rw [hq] at h
      cases h
      exact ⟨head, rfl, await_eq_ok hq⟩
  · next hany =>
    obtain ⟨op, hop, hk⟩ := hm
    exact absurd (List.any_eq_true.mpr ⟨op, hop, hk⟩) hany

theorem getHeadCounter_eq_error {account : JSString} {e : OperationError}
    (h : getHeadCounter answers account ops = .error e) :
    ∃ m, e = .request m ∧ answers (.getCounter account) = .error m := by
  unfold getHeadCounter at h
  split at h
  · cases hq : await answers (.getCounter account) with
    | error e' =>
      rw [hq] at h
      cases h
      exact await_eq_error hq
    | ok head =>
      rw [hq] at h
      cases h
  · cases h

/-- The voting period, when there is one, is what the node answered. -/
theorem getCurrentVotingPeriod_eq_ok {period : Option ℤ}
    (h : getCurrentVotingPeriod answers ops = .ok period) :
    (∀ i, period = some i → answers .getCurrentPeriod = .ok i) ∧
      ((∃ op ∈ ops.head?, isVote op.kind = true) → period ≠ none) := by
  unfold getCurrentVotingPeriod at h
  split at h
  · next op ops =>
    split at h
    · cases hq : await answers .getCurrentPeriod with
      | error e =>
        rw [hq] at h
        cases h
      | ok i =>
        rw [hq] at h
        cases h
        refine ⟨?_, by simp⟩
        rintro _ ⟨⟩
        exact await_eq_ok hq
    · next hk =>
      cases h
      refine ⟨by simp, ?_⟩
      rintro ⟨_, ⟨⟩, hv⟩
      exact absurd (by simpa [isVote] using hv) hk
  · cases h
    exact ⟨by simp, by simp⟩

theorem getCurrentVotingPeriod_eq_error {e : OperationError}
    (h : getCurrentVotingPeriod answers ops = .error e) :
    ∃ m, e = .request m ∧ answers .getCurrentPeriod = .error m := by
  unfold getCurrentVotingPeriod at h
  split at h
  · split at h
    · cases hq : await answers .getCurrentPeriod with
      | error e' =>
        rw [hq] at h
        cases h
        exact await_eq_error hq
      | ok i =>
        rw [hq] at h
        cases h
    · cases h
  · cases h

/-- Why preparing fails, unless a vote stands behind the first operation. -/
def Refused (answers : Answers ρ) (ops : List (RPCOperation ρ)) (source pkh : Option JSString) :
    OperationError → Prop
  | .request m => ∃ q, answers q = .error m
  | .InvalidOperationKindError kind => isSupported kind = false ∧ ∃ op ∈ ops, op.kind = kind
  | .DeprecationError => ∃ op ∈ ops, op.kind = .TRANSACTION ∧
      ∃ account, IsAccount answers pkh account ∧
        startsWithKt1 (getSource account source op) = true
  | _ => False

/-- What was asked for and built when preparing succeeds. -/
theorem prepareOperation_eq_ok {p : PreparedOperation ρ}
    (h : prepareOperation answers ops source pkh = .ok p) :
    ∃ account headCounter period s,
      IsAccount answers pkh account ∧
      getHeadCounter answers account ops = .ok headCounter ∧
      getCurrentVotingPeriod answers ops = .ok period ∧
      p.counter = parseInt 10 (orString headCounter (js "0")) ∧
      constructOps nextCounter account source period ops p.counter = (.ok p.contents, s) := by
  obtain ⟨account, haccount, h⟩ := Except.bind_eq_ok.mp h
  obtain ⟨hash, -, h⟩ := Except.bind_eq_ok.mp h
  obtain ⟨protocol, -, h⟩ := Except.bind_eq_ok.mp h
  obtain ⟨headCounter, hhead, h⟩ := Except.bind_eq_ok.mp h
  obtain ⟨period, hperiod, h⟩ := Except.bind_eq_ok.mp h
  obtain ⟨contents, hcontents, h⟩ := Except.bind_eq_ok.mp h
  cases h
  exact ⟨account, headCounter, period, _, getPublicKeyHash_eq_ok haccount, hhead, hperiod, rfl,
    Prod.ext hcontents rfl⟩

/-- A failure is a failed call, or one of an operation. -/
private theorem prepareOperation_eq_error {e : OperationError}
    (h : prepareOperation answers ops source pkh = .error e) :
    (∃ m q, e = .request m ∧ answers q = .error m) ∨
    ∃ account period, IsAccount answers pkh account ∧
      getCurrentVotingPeriod answers ops = .ok period ∧
      ∃ s s', constructOps nextCounter account source period ops s = (.error e, s') := by
  rcases Except.bind_eq_error.mp h with h | ⟨account, haccount, h⟩
  · obtain ⟨m, he, hq⟩ := getPublicKeyHash_eq_error h
    exact .inl ⟨m, _, he, hq⟩
  rcases Except.bind_eq_error.mp h with h | ⟨hash, -, h⟩
  · obtain ⟨m, he, hq⟩ := await_eq_error h
    exact .inl ⟨m, _, he, hq⟩
  rcases Except.bind_eq_error.mp h with h | ⟨protocol, -, h⟩
  · obtain ⟨m, he, hq⟩ := await_eq_error h
    exact .inl ⟨m, _, he, hq⟩
  rcases Except.bind_eq_error.mp h with h | ⟨headCounter, -, h⟩
  · obtain ⟨m, he, hq⟩ := getHeadCounter_eq_error h
    exact .inl ⟨m, _, he, hq⟩
  rcases Except.bind_eq_error.mp h with h | ⟨period, hperiod, h⟩
  · obtain ⟨m, he, hq⟩ := getCurrentVotingPeriod_eq_error h
    exact .inl ⟨m, _, he, hq⟩
  rcases Except.bind_eq_error.mp h with h | ⟨contents, -, h⟩
  · exact .inr ⟨account, period, getPublicKeyHash_eq_ok haccount, hperiod, _, _, Prod.ext h rfl⟩
  · cases h

/-- **Numbering of a prepared operation.** The contents are those of the operations, in order; the
manager operations carry the numbers after the head counter, the others none, and the votes the
current period. If no vote stands behind the first operation of the list, it is refused only for a
call that fails, a kind that is not supported or a transaction from an originated account. -/
theorem prepareOperation_numbering (answers : Answers ρ) (ops : List (RPCOperation ρ))
    (source pkh : Option JSString) :
    (∀ p, prepareOperation answers ops source pkh = .ok p →
      (∃ period, List.Forall₂ (Describes period) ops p.contents ∧
        ∀ i, period = some i → answers .getCurrentPeriod = .ok i) ∧
      managerCounters p.contents =
        (numbering p.counter (ops.countP fun op => isManager op.kind)).map
          (fun n => some n.text) ∧
      ((∃ op ∈ ops, isManager op.kind = true) →
        ∃ account head, IsAccount answers pkh account ∧
          answers (.getCounter account) = .ok head ∧
          p.counter = parseInt 10 (orString (some head) (js "0")))) ∧
    (∀ e, prepareOperation answers ops source pkh = .error e →
      ((∃ op ∈ ops.head?, isVote op.kind = true) ∨ ∀ op ∈ ops, isVote op.kind = false) →
      Refused answers ops source pkh e) := by
  constructor
  · intro p h
    obtain ⟨account, headCounter, period, s, haccount, hhead, hperiod, hcounter, hcontents⟩ :=
      prepareOperation_eq_ok h
    have hnext : ∀ n s : JSInt, s = n → (nextCounter s).1 = n.succ ∧ (nextCounter s).2 = n.succ := by
      rintro n _ rfl
      exact ⟨rfl, rfl⟩
    refine ⟨⟨period, constructOps_describes hcontents, (getCurrentVotingPeriod_eq_ok hperiod).1⟩,
      constructOps_numbered hnext rfl hcontents, fun hm => ?_⟩
    obtain ⟨head, rfl, hq⟩ := getHeadCounter_eq_ok hhead hm
    exact ⟨account, head, haccount, hq, hcounter⟩
  · intro e h hvotes
    obtain ⟨m, q, rfl, hq⟩ | ⟨account, period, haccount, hperiod, s, s', hops⟩ :=
      prepareOperation_eq_error h
    · exact ⟨q, hq⟩
    obtain ⟨op, hop, ⟨rfl, hv, hnone⟩ | ⟨rfl, hk⟩ | ⟨rfl, hk, hkt⟩⟩ := constructOps_eq_error hops
    · -- a vote is only refused for want of a period
      rcases hvotes with hfirst | hnovotes
      · exact absurd hnone ((getCurrentVotingPeriod_eq_ok hperiod).2 hfirst)
      · simp [hnovotes op hop] at hv
    · exact ⟨hk, op, hop, rfl⟩
    · exact ⟨op, hop, hk, account, haccount, hkt⟩

/-- A ballot in front of two manager operations. -/
theorem prepareOperation_ballot :
    let answers := answersAt (js "tz1") (js "7") 3 ⟨.int 1, .int 2, .int 3⟩ none
      ([] : List (RPCOperation Unit))
    let ops : List (RPCOperation Unit) := [.ofKind .BALLOT, .ofKind .DELEGATION, .ofKind .REVEAL]
    ∃ p, prepareOperation answers ops none none = .ok p ∧
      managerCounters p.contents = (numbering p.counter 2).map (fun n => some n.text) := by
  intro answers ops
  refine ⟨_, rfl, ?_⟩
  exact ((prepareOperation_numbering answers ops none none).1 _ rfl).2.1

/-- Where every call is answered and every kind is supported, a transaction from an originated
account is refused, and so is a vote behind another operation. -/
theorem prepareOperation_refuses :
    let answers := answersAt (js "tz1") (js "7") 3 ⟨.int 1, .int 2, .int 3⟩ none
      ([] : List (RPCOperation Unit))
    prepareOperation answers [{ RPCOperation.ofKind .TRANSACTION with source := js "KT1" }] none
        none = .error .DeprecationError ∧
      prepareOperation answers [.ofKind .REVEAL, .ofKind .BALLOT] none none =
        .error .RPCResponseError ∧
      (∀ kind ∈ [OpKind.TRANSACTION, .REVEAL, .BALLOT], isSupported kind = true) ∧
      ∀ q m, answers q ≠ .error m := by
  refine ⟨rfl, rfl, by decide, ?_⟩
  intro q m
  cases q <;> exact nofun

end prepare

end Operations
