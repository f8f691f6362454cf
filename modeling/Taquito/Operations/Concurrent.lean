import Taquito.Operations.Prepare

/-!
# Concurrent calls of the prepare provider

The field `#counters` is reset in one step of a call and read in a later one, and another call can
number its operations in between. A call numbers its operations from the head counter on exactly if
the entry of its account does not exceed the head counter when it numbers them (`NumbersFresh`). In
every interleaving whose steps meet this condition, every call numbers as it would alone
(`prepare_concurrent`); an interleaving that does not may leave gaps (`prepare_gap`).
-/

open Js Async

namespace Operations

variable {ρ : Type}

/-! ## Numbering in `#counters` -/

/-- When manager operations are numbered, the entry of the account is not above the head counter. -/
def NumbersFresh : CounterOp ρ → Counters → Prop
  | .reset, _ => True
  | .constructOpContents ops headCounter pkh _ _, counters =>
    (∃ op ∈ ops, isManager op.kind = true) →
      ∀ z n, counters pkh = some (some z) → headCounter = some n → z ≤ n

/-- After the reset the entry of every account is fresh. -/
theorem numbersFresh_reset (ops : List (RPCOperation ρ)) (headCounter : JSInt) (pkh : JSString)
    (source : Option JSString) (period : Option ℤ) (counters : Counters) :
    NumbersFresh (.constructOpContents ops headCounter pkh source period)
      (@execCounterOp ρ .reset counters).2 := by
  rintro _ z n ⟨⟩

/-- The number `m` was given last, or it is the head counter `n` and the entry is not above it. -/
def LastGiven (pkh : JSString) (n : ℕ) (m : JSInt) (counters : Counters) : Prop :=
  (m = some (n : ℤ) ∧ ∀ z, counters pkh = some (some z) → z ≤ n) ∨
    ∃ z : ℤ, m = some z ∧ n < z ∧ counters pkh = some (some z)

/-- The next number is one more. -/
theorem providerCounter_lastGiven {pkh : JSString} {n : ℕ} {m : JSInt}
    {counters : Counters} (h : LastGiven pkh n m counters) :
    (providerCounter pkh (some (n : ℤ)) counters).1 = m.succ ∧
      LastGiven pkh n m.succ (providerCounter pkh (some (n : ℤ)) counters).2 := by
  have hgiven (z : ℤ) (hz : n ≤ z) (hfst : (providerCounter pkh (some (n : ℤ)) counters).1 =
      some (z + 1)) : LastGiven pkh n (some (z + 1))
        (providerCounter pkh (some (n : ℤ)) counters).2 := by
    refine .inr ⟨z + 1, rfl, by omega, ?_⟩
    rw [← hfst]
    simp [providerCounter]
  rcases h with ⟨rfl, hle⟩ | ⟨z, rfl, hlt, hz⟩
  · have hfst : (providerCounter pkh (some (n : ℤ)) counters).1 = some ((n : ℤ) + 1) := by
      rcases hc : counters pkh with _ | _ | z
      · simp [providerCounter, hc, isBehind, JSInt.succ]
      · simp [providerCounter, hc, isBehind, JSInt.succ]
      · -- an entry that is not behind is the head counter itself
        have hz := hle z hc
        by_cases hb : z = 0 ∨ z < n
        · simp [providerCounter, hc, isBehind, hb, JSInt.succ]
        · obtain rfl : z = n := by omega
          simp [providerCounter, hc, isBehind, JSInt.succ]
    exact ⟨hfst, hgiven n le_rfl hfst⟩
  · have hb : ¬ (z = 0 ∨ z < n) := by omega
    have hfst : (providerCounter pkh (some (n : ℤ)) counters).1 = some (z + 1) := by
      simp [providerCounter, hz, isBehind, hb, JSInt.succ]
    exact ⟨hfst, hgiven z hlt.le hfst⟩

/-- The manager operations carry the numbers after `n`. -/
def NumberedFrom (n : JSInt) (cs : List (OperationContents ρ)) : Prop :=
  managerCounters cs = (numbering n (managerCounters cs).length).map fun n => some n.text

/-- **Operations that find a fresh entry are numbered from the head counter on.** -/
theorem constructOpContents_numbered {ops : List (RPCOperation ρ)} {pkh : JSString} {n : ℕ}
    {source : Option JSString} {period : Option ℤ} {counters counters' : Counters}
    {cs : List (OperationContents ρ)}
    (hfresh : NumbersFresh (.constructOpContents ops (some (n : ℤ)) pkh source period) counters)
    (h : constructOps (providerCounter pkh (some (n : ℤ))) pkh source period ops counters =
      (.ok cs, counters')) : NumberedFrom (some (n : ℤ)) cs := by
  by_cases hm : ∃ op ∈ ops, isManager op.kind = true
  · have hlast : LastGiven pkh n (some (n : ℤ)) counters :=
      .inl ⟨rfl, fun z hz => hfresh hm z n hz rfl⟩
    have hnumbers := constructOps_numbered (fun _ _ => providerCounter_lastGiven) hlast h
    rw [NumberedFrom, hnumbers]
    simp [numbering]
  · -- without manager operations there is nothing to number
    have hnone : managerCounters cs = [] := by
      have hdesc := constructOps_describes h
      clear h hfresh
      induction hdesc with
      | nil => rfl
      | @cons op c ops cs hd _ ih =>
        have hk : isManager c.kind = false := by
          rw [hd.kind]
          by_contra hk
          exact hm ⟨op, by simp, by simpa using hk⟩
        have hcs : managerCounters cs = [] := by
          apply ih
          intro hm'
          obtain ⟨op', hop', hk'⟩ := hm'
          exact hm ⟨op', List.mem_cons_of_mem _ hop', hk'⟩
        rw [managerCounters, List.filter_cons_of_neg (by simp [hk])]
        exact hcs
    rw [NumberedFrom, hnone]
    rfl

/-! ## The methods, each alone -/

/-- A call numbered its operations from the head counter on that it was given. -/
def NumberedCall (h : Task.History (@Answer ρ)) (r : PreparedOperation ρ) : Prop :=
  ∃ account text, ⟨.getCounter account, .ok text⟩ ∈ h ∧ r.counter = parseInt 10 text ∧
    ∀ n : ℕ, r.counter = some (n : ℤ) → NumberedFrom r.counter r.contents

section safe

variable {α β : Type} {h : Task.History (@Answer ρ)}
  {P : Task.History (@Answer ρ) → β → Prop}

/-- A task is safe for the condition on `#counters`. -/
abbrev SafeTask (P : Task.History (@Answer ρ) → β → Prop)
    (h : Task.History (@Answer ρ)) (t : PrepareTask ρ β) : Prop :=
  t.Safe execCounterOp NumbersFresh P h

theorem safe_request {q : Request ρ} {f : Response q → PrepareTask ρ β}
    (hf : ∀ a, SafeTask P (h ++ [⟨q, .ok a⟩]) (f a)) :
    SafeTask P h (PrepareProvider.request q >>= f) := by
  intro a
  cases a with
  | error e => trivial
  | ok a => exact hf a

theorem safe_reset {f : Unit → PrepareTask ρ β} (hf : SafeTask P h (f ())) :
    SafeTask P h (PrepareProvider.reset >>= f) :=
  fun _ _ => hf

theorem safe_currentVotingPeriod {votes : Bool} {f : Option ℤ → PrepareTask ρ β}
    (hf : ∀ h' period, SafeTask P (h ++ h') (f period)) :
    SafeTask P h (PrepareProvider.currentVotingPeriod votes >>= f) := by
  cases votes with
  | false =>
    have hnone := hf [] none
    rw [List.append_nil] at hnone
    exact hnone
  | true =>
    intro a
    cases a with
    | error e => trivial
    | ok i => exact hf [⟨.getCurrentPeriod, .ok i⟩] (some i)

theorem safe_addRevealOperationIfNeeded {op : RPCOperation ρ} {pkh : JSString}
    {f : List (RPCOperation ρ) → PrepareTask ρ β} (hf : ∀ h' ops, SafeTask P h' (f ops)) :
    SafeTask P h (PrepareProvider.addRevealOperationIfNeeded op pkh >>= f) := by
  unfold PrepareProvider.addRevealOperationIfNeeded
  apply Task.Safe.bind
  by_cases hk : isOpRequireReveal op.kind = true
  · rw [if_pos hk]
    refine safe_request fun publicKey => safe_request fun e => ?_
    cases e with
    | none => exact hf _ _
    | some e => exact hf _ _
  · rw [if_neg hk]
    exact hf _ _

/-- The last step of a method. -/
theorem safe_construct {ops : List (RPCOperation ρ)} {pkh text hash protocol : JSString}
    {source : Option JSString} {period : Option ℤ}
    (hmem : ⟨.getCounter pkh, .ok text⟩ ∈ h) :
    SafeTask NumberedCall h (do
      let contents ← PrepareProvider.constructOpContents ops (parseInt 10 text) pkh source period
      return ⟨hash, contents, protocol, parseInt 10 text⟩) := by
  intro counters hfresh
  have hstep : ∀ r : Except OperationError (List (OperationContents ρ)) × Counters,
      constructOps (providerCounter pkh (parseInt 10 text)) pkh source period ops counters = r →
      ∀ contents, r.1 = .ok contents →
      NumberedCall h ⟨hash, contents, protocol, parseInt 10 text⟩ := by
    rintro ⟨-, counters'⟩ hr contents rfl
    refine ⟨pkh, text, hmem, rfl, ?_⟩
    intro n hn
    dsimp only at hn ⊢
    rw [hn] at hr hfresh ⊢
    exact constructOpContents_numbered hfresh hr
  cases hr : (execCounterOp (.constructOpContents ops (parseInt 10 text) pkh source period)
    counters).1 with
  | error e => trivial
  | ok contents => exact hstep _ rfl contents hr

/-- The end of a method, from any history. -/
theorem safe_prepareContents (pkh : JSString) (ops : List (RPCOperation ρ))
    (source : Option JSString) (votes : Bool) :
    SafeTask NumberedCall h (PrepareProvider.prepareContents pkh ops source votes) := by
  unfold PrepareProvider.prepareContents
  refine safe_request fun hash => safe_request fun protocol => safe_reset ?_
  refine safe_request fun text => ?_
  exact safe_currentVotingPeriod fun h' period => safe_construct (by simp)

theorem safe_prepareWith (method : String) (source : Option JSString) (votes : Bool) :
    SafeTask NumberedCall h (@PrepareProvider.prepareWith ρ method source votes) := by
  unfold PrepareProvider.prepareWith
  exact safe_request fun pkh => safe_request fun ops => safe_prepareContents pkh ops source votes

/-- **Every method numbers its operations from the head counter on**, whatever it is answered, if it
finds a fresh entry. -/
theorem safe_call (tzToMutez : JSNumber → JSString) (c : PrepareCall ρ) :
    SafeTask NumberedCall [] (c.task tzToMutez) := by
  cases c with
  | reveal =>
    refine safe_request fun pkh => safe_request fun e => ?_
    cases e with
    | none => trivial
    | some e => exact safe_request fun publicKey => safe_prepareContents _ _ _ _
  | transaction params source =>
    refine safe_request fun pkh => safe_request fun estimate => ?_
    exact safe_addRevealOperationIfNeeded fun _ ops => safe_prepareContents pkh ops source false
  | contractCall params =>
    refine safe_request fun hash => safe_request fun protocol => safe_request fun pkh => ?_
    refine safe_reset (safe_request fun text => safe_request fun estimate => ?_)
    exact safe_construct (by simp)
  | _ => exact safe_prepareWith _ _ _

end safe

/-! ## All interleavings -/

/-- **Concurrent prepares.** In every interleaving of any number of calls on one provider in which
operations are numbered only when the entry of their account is fresh, every call that returns
numbered its manager operations from the head counter on that the node gave it. -/
theorem prepare_concurrent {ι : Type} [DecidableEq ι] (tzToMutez : JSNumber → JSString)
    (calls : ι → PrepareCall ρ) (counters : Counters)
    {p : Pool ι (Request ρ) Answer (CounterOp ρ) CounterResult OperationError
      (PreparedOperation ρ) Counters}
    (hp : Pool.Reachable execCounterOp NumbersFresh
      (Pool.initial (fun i => (calls i).task tzToMutez) counters) p)
    {i : ι} {r : PreparedOperation ρ} (hr : (p.calls i).task = .ret r) :
    NumberedCall (p.calls i).history r :=
  hp.safe (fun i => safe_call tzToMutez (calls i)) hr

/-- Two delegations, prepared at a head counter 7. -/
def twoDelegations : Pool Bool (Request Unit) Answer (CounterOp Unit) CounterResult OperationError
    (PreparedOperation Unit) Counters :=
  .initial (fun _ => (PrepareCall.delegation none).task JSNumber.text) fun _ => none

/-- What the two calls are answered. -/
def delegationAnswers : Answers Unit :=
  answersAt (js "tz1") (js "7") 3 ⟨.int 1, .int 2, .int 3⟩ none [.ofKind .DELEGATION]

/-- One delegation after the other. -/
theorem prepare_concurrent_inTurn :
    ∃ r, ((twoDelegations.run execCounterOp delegationAnswers
        [true, false, true, true, true, true, false, false, false, false]).calls true).task =
          .ret r ∧
      NumberedCall ((twoDelegations.run execCounterOp delegationAnswers
        [true, false, true, true, true, true, false, false, false, false]).calls true).history r := by
  refine ⟨_, rfl, ?_⟩
  refine prepare_concurrent JSNumber.text (fun _ => .delegation none) (fun _ => none)
    (Pool.Reachable.start.run ?_) rfl
  -- only the fifth and sixth answers of the first call have it touch the field
  refine ⟨trivial, trivial, trivial, trivial, ⟨trivial, trivial⟩, ⟨?_, trivial⟩, ?_⟩
  · exact numbersFresh_reset _ _ _ _ _ fun _ => none
  refine ⟨trivial, trivial, ⟨trivial, trivial⟩, ⟨?_, trivial⟩, trivial⟩
  exact numbersFresh_reset _ _ _ _ _ fun _ => none

/-- **Two delegations that are reset before either of them is numbered**: the second one gets the
number 9 at a head counter 7. -/
theorem prepare_gap :
    ∃ p, Pool.Reachable execCounterOp (fun _ _ => True) twoDelegations p ∧
      ∃ r, (p.calls true).task = .ret r ∧ ¬ NumberedCall (p.calls true).history r := by
  refine ⟨_, Pool.Reachable.start.run (Pool.runMeets_true delegationAnswers
    [false, false, false, false, true, true, true, true, false, true] _), ?_⟩
  have hrun : (((twoDelegations.run execCounterOp delegationAnswers
      [false, false, false, false, true, true, true, true, false, true]).calls true).task.result?.map
        fun r => (r.counter, managerCounters r.contents)) = some (some 7, [some (js "9")]) := by
    decide
  obtain ⟨r, hr, hcs⟩ := Option.map_eq_some_iff.mp hrun
  obtain ⟨hcounter, hnumbers⟩ := Prod.mk.inj hcs
  refine ⟨r, Task.result?_eq_some.mp hr, ?_⟩
  rintro ⟨account, text, -, -, hnumbered⟩
  have hfrom := hnumbered 7 hcounter
  rw [NumberedFrom, hcounter, hnumbers] at hfrom
  exact absurd hfrom (by decide)

end Operations
