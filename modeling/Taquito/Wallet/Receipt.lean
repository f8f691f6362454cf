import Taquito.Host.Rounding

/-!
# Units of the currency, and receipts

`format` converts an amount between units by one product and one quotient. `receiptFromOperation`
adds up what an operation cost; its first statement sets the module-wide settings of the arithmetic
to whole numbers rounded up, and nothing sets them back. So a quotient that `format` takes later is
rounded up to a whole number.
-/

open Js

namespace Wallet

/-! ## Units -/

/-- The type `Format`. -/
inductive Format where
  | tz
  | mtz
  | mutez
  deriving DecidableEq, Repr

def TZ_DECIMALS : ℕ := 6

def MTZ_DECIMALS : ℕ := 3

/-- `getDecimal`. -/
def getDecimal : Format → ℕ
  | .tz => TZ_DECIMALS
  | .mtz => MTZ_DECIMALS
  | .mutez => 0

/-- What an amount may be given as; a number is what its digits denote. -/
inductive Amount where
  | number (x : BigNumber)
  | text (s : JSString)
  | bigNumber (x : BigNumber)

/-- `new BigNumber(amount)`. -/
def Amount.value (lib : BigNumberLib) : Amount → BigNumber
  | number x => x
  | text s => lib.parse s
  | bigNumber x => x

/-- `format`; an amount that is no number is given back. -/
def format (lib : BigNumberLib) (source target : Format) (amount : Amount) : BigNumberM Amount := do
  let bigNum := amount.value lib
  if bigNum.isNaN then return amount
  let x ← (bigNum.multipliedBy (.finite (10 ^ getDecimal source))).dividedBy
    (.finite (10 ^ getDecimal target))
  return .bigNumber x

/-! ## Receipts -/

/-- What the node reports of an operation or an internal one, as far as it is counted. A result that
is not internal has the `fee` of its content. -/
structure OperationResult where
  fee : Option JSString := none
  originated_contracts : Option (List JSString) := none
  allocated_destination_contract : Option Bool := none
  consumed_milligas : Option JSString := none
  paid_storage_size_diff : Option JSString := none

/-- The metadata of a content: `operation_result`, and what `internal_operation_results` report. -/
structure Metadata where
  operation_result : Option OperationResult
  internal_operation_results : Option (List OperationResult)

/-- One of the contents of an operation. -/
structure Content where
  fee : Option JSString
  metadata : Option Metadata

/-- What one content adds to `flattenOperationResult`. -/
def Content.results (content : Content) : List OperationResult :=
  match content.metadata with
  | none => []
  | some metadata =>
    match metadata.operation_result with
    | none => []
    | some result =>
      { result with fee := content.fee } :: metadata.internal_operation_results.getD []

/-- `flattenOperationResult`. -/
def flattenOperationResult (contents : List Content) : List OperationResult :=
  contents.flatMap Content.results

/-- `x || 0`, as an argument of `plus`. -/
def textOrZero (lib : BigNumberLib) : Option JSString → BigNumber
  | none | some [] => .finite 0
  | some s => lib.parse s

/-- `COST_PER_BYTE`. -/
def COST_PER_BYTE : BigNumber := .finite 250

/-- The burns that `receiptFromOperation` is given. -/
structure Burns where
  ALLOCATION_BURN : ℚ := 257
  ORIGINATION_BURN : ℚ := 257

/-- The totals that are added up result by result. -/
structure Totals where
  totalFee : BigNumber := .finite 0
  totalOriginationBurn : BigNumber := .finite 0
  totalAllocationBurn : BigNumber := .finite 0
  totalMilliGas : BigNumber := .finite 0
  totalPaidStorageDiff : BigNumber := .finite 0

/-- The type `Receipt`. -/
structure Receipt where
  totalFee : BigNumber
  totalGas : BigNumber
  totalMilliGas : BigNumber
  totalStorage : BigNumber
  totalAllocationBurn : BigNumber
  totalOriginationBurn : BigNumber
  totalPaidStorageDiff : BigNumber
  totalStorageBurn : BigNumber

section Calls

variable (lib : BigNumberLib)
-- `Number(text) || 0` of a text, as `plus` takes it.
variable (numberOrZero : JSString → BigNumber)

/-- The body of the loop over the results. -/
def Totals.add (burns : Burns) (totals : Totals) (result : OperationResult) : Totals where
  totalFee := totals.totalFee.plus (textOrZero lib result.fee)
  totalOriginationBurn := totals.totalOriginationBurn.plus <|
    match result.originated_contracts with
    | some contracts => .finite (contracts.length * burns.ORIGINATION_BURN)
    | none => .finite 0
  totalAllocationBurn := totals.totalAllocationBurn.plus <|
    .finite (if result.allocated_destination_contract.isSome then burns.ALLOCATION_BURN else 0)
  totalMilliGas := totals.totalMilliGas.plus (textOrZero lib result.consumed_milligas)
  totalPaidStorageDiff := totals.totalPaidStorageDiff.plus <|
    match result.paid_storage_size_diff with
    | some s => numberOrZero s
    | none => .finite 0

/-- `receiptFromOperation`. -/
def receiptFromOperation (op : List Content) (burns : Burns) : BigNumberM Receipt := do
  set (⟨0, .ROUND_UP⟩ : Settings)
  let totals := (flattenOperationResult op).foldl (Totals.add lib numberOrZero burns) {}
  let totalStorage := (((BigNumber.finite 0).plus totals.totalAllocationBurn).plus
    totals.totalOriginationBurn).plus totals.totalPaidStorageDiff
  let totalGas ← totals.totalMilliGas.dividedBy (.finite 1000)
  return {
    totalFee := totals.totalFee
    totalGas := totalGas
    totalMilliGas := totals.totalMilliGas
    totalStorage := totalStorage
    totalAllocationBurn := totals.totalAllocationBurn
    totalOriginationBurn := totals.totalOriginationBurn
    totalPaidStorageDiff := totals.totalPaidStorageDiff
    totalStorageBurn := totalStorage.multipliedBy COST_PER_BYTE }

/-! ## Histories -/

/-- A call of one of the two functions. -/
inductive Call where
  | format (source target : Format) (amount : Amount)
  | receiptFromOperation (op : List Content) (burns : Burns)

/-- The call is for a receipt. -/
def Call.isReceipt : Call → Bool
  | .format .. => false
  | .receiptFromOperation .. => true

/-- A call whose result is dropped. -/
def Call.run : Call → BigNumberM Unit
  | .format source target amount => discard (Wallet.format lib source target amount)
  | .receiptFromOperation op burns =>
    discard (Wallet.receiptFromOperation lib numberOrZero op burns)

/-- What a computation gives after a history of calls. -/
def after {α : Type} (history : List Call) (x : BigNumberM α) : α :=
  ((do history.forM (Call.run lib numberOrZero); x).run Settings.initial).1

/-- `m` mutez are converted to both larger units, and back. -/
structure Converts (history : List Call) (amount : Amount) (m : ℕ) : Prop where
  tz : after lib numberOrZero history (format lib .mutez .tz amount) =
    .bigNumber (.finite (m / 10 ^ 6))
  mtz : after lib numberOrZero history (format lib .mutez .mtz amount) =
    .bigNumber (.finite (m / 10 ^ 3))
  tz_back : after lib numberOrZero history
      (format lib .mutez .tz amount >>= format lib .tz .mutez) = .bigNumber (.finite m)
  mtz_back : after lib numberOrZero history
      (format lib .mutez .mtz amount >>= format lib .mtz .mutez) = .bigNumber (.finite m)

/-- The receipt of an operation is the one that it would have without the calls before. -/
def Independent (history : List Call) : Prop :=
  ∀ op burns, after lib numberOrZero history (receiptFromOperation lib numberOrZero op burns) =
    after lib numberOrZero [] (receiptFromOperation lib numberOrZero op burns)

end Calls

section

variable {lib : BigNumberLib} {numberOrZero : JSString → BigNumber}

/-! ## What a call does to the settings -/

theorem format_settings (source target : Format) (amount : Amount) (s : Settings) :
    ((format lib source target amount).run s).2 = s := by
  unfold format
  dsimp only
  split
  · rfl
  · rfl

/-- A receipt does not look at the settings it finds. -/
theorem receiptFromOperation_run (op : List Content) (burns : Burns) (s t : Settings) :
    (receiptFromOperation lib numberOrZero op burns).run s =
      (receiptFromOperation lib numberOrZero op burns).run t := rfl

theorem Call.run_settings (call : Call) (s : Settings) :
    ((call.run lib numberOrZero).run s).2 = if call.isReceipt then ⟨0, .ROUND_UP⟩ else s := by
  cases call with
  | format source target amount => exact format_settings source target amount s
  | receiptFromOperation op burns => rfl

/-- After a history with a receipt in it, quotients are rounded up to whole numbers. -/
theorem forM_settings (history : List Call) (s : Settings) :
    ((history.forM (Call.run lib numberOrZero)).run s).2 =
      if history.any Call.isReceipt then ⟨0, .ROUND_UP⟩ else s := by
  induction history generalizing s with
  | nil => rfl
  | cons call history ih =>
    have hstep : (((call :: history).forM (Call.run lib numberOrZero)).run s).2 =
        ((history.forM (Call.run lib numberOrZero)).run
          ((call.run lib numberOrZero).run s).2).2 := rfl
    rw [hstep, ih, Call.run_settings, List.any_cons]
    cases h : history.any Call.isReceipt with
    | true => rw [if_pos rfl, Bool.or_true, if_pos rfl]
    | false => rw [if_neg Bool.false_ne_true, Bool.or_false]

theorem after_eq {α : Type} (history : List Call) (x : BigNumberM α) :
    after lib numberOrZero history x =
      (x.run (if history.any Call.isReceipt then ⟨0, .ROUND_UP⟩ else .initial)).1 := by
  have h : ((history.forM (Call.run lib numberOrZero)).run .initial).2 =
      if history.any Call.isReceipt then ⟨0, .ROUND_UP⟩ else .initial :=
    forM_settings history .initial
  rw [← h]
  rfl

/-! ## What a conversion gives -/

theorem format_run {amount : Amount} {q : ℚ} (h : amount.value lib = .finite q)
    (source target : Format) (s : Settings) :
    (format lib source target amount).run s =
      (.bigNumber (.finite (s.round (q * 10 ^ getDecimal source / 10 ^ getDecimal target))),
        s) := by
  have hpos : (10 : ℚ) ^ getDecimal target ≠ 0 := pow_ne_zero _ (by norm_num)
  unfold format
  rw [h]
  simp [BigNumber.isNaN, BigNumber.multipliedBy, BigNumber.dividedBy, hpos]
  rfl

/-- After a conversion, a second one sees the same settings. -/
theorem format_bind_run {amount : Amount} {q : ℚ} (h : amount.value lib = .finite q)
    (source target : Format) (s : Settings) :
    ((format lib source target amount >>= format lib target source).run s).1 =
      .bigNumber (.finite (s.round (s.round (q * 10 ^ getDecimal source / 10 ^ getDecimal target) *
        10 ^ getDecimal target / 10 ^ getDecimal source))) := by
  rw [StateT.run_bind, format_run h]
  exact congrArg Prod.fst (format_run rfl target source s)

/-! ## Exact conversions -/

theorem round_mutez (m d : ℕ) (hd : d ≤ 20) :
    Settings.initial.round ((m : ℚ) / 10 ^ d) = m / 10 ^ d := by
  apply Settings.round_of_eq (z := m * 10 ^ (20 - d))
  obtain ⟨e, he⟩ : ∃ e, 20 = d + e := ⟨20 - d, by omega⟩
  have hpos : (10 : ℚ) ^ d ≠ 0 := pow_ne_zero _ (by norm_num)
  rw [Settings.initial, he, Nat.add_sub_cancel_left, pow_add]
  push_cast
  field_simp

/-- A quotient that is rounded up to a whole number stays what it is only if it is one. -/
theorem round_up_eq_iff (m d : ℕ) :
    Settings.round ⟨0, .ROUND_UP⟩ ((m : ℚ) / 10 ^ d) = m / 10 ^ d ↔ 10 ^ d ∣ m := by
  have hpos : (10 : ℚ) ^ d ≠ 0 := pow_ne_zero _ (by norm_num)
  constructor
  · intro h
    rw [Settings.round_up (by positivity), eq_div_iff hpos] at h
    have hdvd : (10 ^ d : ℤ) ∣ m := ⟨⌈(m : ℚ) / 10 ^ d⌉, by rw [mul_comm]; exact_mod_cast h.symm⟩
    exact_mod_cast hdvd
  · rintro ⟨k, rfl⟩
    have hk : ((10 ^ d * k : ℕ) : ℚ) / 10 ^ d = (k : ℤ) := by
      push_cast
      field_simp
    rw [hk, Settings.round_intCast]

/-- The conversions are exact where both quotients are. -/
theorem converts_iff {history : List Call} {amount : Amount} {m : ℕ} {s : Settings}
    (hs : (if history.any Call.isReceipt then ⟨0, .ROUND_UP⟩ else .initial) = s)
    (h : amount.value lib = .finite m) :
    Converts lib numberOrZero history amount m ↔
      s.round ((m : ℚ) / 10 ^ 6) = m / 10 ^ 6 ∧ s.round ((m : ℚ) / 10 ^ 3) = m / 10 ^ 3 := by
  have hm : s.round (m : ℚ) = m := by exact_mod_cast s.round_intCast m
  have htz : after lib numberOrZero history (format lib .mutez .tz amount) =
      .bigNumber (.finite (s.round ((m : ℚ) / 10 ^ 6))) := by
    rw [after_eq, hs, format_run h]
    simp [getDecimal, TZ_DECIMALS]
  have hmtz : after lib numberOrZero history (format lib .mutez .mtz amount) =
      .bigNumber (.finite (s.round ((m : ℚ) / 10 ^ 3))) := by
    rw [after_eq, hs, format_run h]
    simp [getDecimal, MTZ_DECIMALS]
  constructor
  · intro hc
    have h6 := htz.symm.trans hc.tz
    have h3 := hmtz.symm.trans hc.mtz
    simp only [Amount.bigNumber.injEq, BigNumber.finite.injEq] at h6 h3
    exact ⟨h6, h3⟩
  · rintro ⟨h6, h3⟩
    refine ⟨by rw [htz, h6], by rw [hmtz, h3], ?_, ?_⟩
    · rw [after_eq, hs, format_bind_run h]
      simp only [getDecimal, TZ_DECIMALS, pow_zero, mul_one, div_one]
      rw [h6, div_mul_cancel₀ _ (by norm_num), hm]
    · rw [after_eq, hs, format_bind_run h]
      simp only [getDecimal, MTZ_DECIMALS, pow_zero, mul_one, div_one]
      rw [h3, div_mul_cancel₀ _ (by norm_num), hm]

/-! ## The main result -/

/-- **Amounts are converted exactly, and receipts do not depend on the calls before, if and only if
no receipt was asked for before or the amount is a whole number of tez.** -/
theorem conversions_iff (history : List Call) {amount : Amount} {m : ℕ}
    (h : amount.value lib = .finite m) :
    (Converts lib numberOrZero history amount m ∧ Independent lib numberOrZero history) ↔
      (∀ call ∈ history, call.isReceipt = false) ∨ 10 ^ 6 ∣ m := by
  have hreceipts : Independent lib numberOrZero history := by
    intro op burns
    rw [after_eq, after_eq]
    exact congrArg Prod.fst (receiptFromOperation_run op burns _ _)
  rw [and_iff_left hreceipts, converts_iff rfl h]
  cases hany : history.any Call.isReceipt with
  | false =>
    have hnone : ∀ call ∈ history, call.isReceipt = false := by
      simpa using hany
    rw [if_neg Bool.false_ne_true]
    exact iff_of_true ⟨round_mutez m 6 (by omega), round_mutez m 3 (by omega)⟩ (Or.inl hnone)
  | true =>
    have hsome : ¬∀ call ∈ history, call.isReceipt = false := by
      simpa using hany
    rw [if_pos rfl, round_up_eq_iff, round_up_eq_iff, or_iff_right hsome]
    exact and_iff_left_of_imp fun hdvd => (pow_dvd_pow 10 (by omega)).trans hdvd

theorem conversions_iff_one :
    (Converts .decimal (fun _ => .finite 0) [] (.number (.finite (1 : ℕ))) 1 ∧
      Independent .decimal (fun _ => .finite 0) []) ↔
      (∀ call ∈ ([] : List Call), call.isReceipt = false) ∨ 10 ^ 6 ∣ 1 :=
  conversions_iff [] rfl

/-- After the receipt of an operation without contents, a mutez is a whole tez. -/
theorem not_converts :
    ¬∀ (history : List Call) (m : ℕ),
      Converts .decimal (fun _ => .finite 0) history (.number (.finite m)) m ∧
        Independent .decimal (fun _ => .finite 0) history := by
  intro h
  have hone := (converts_iff rfl rfl).mp (h [.receiptFromOperation [] {}] 1).1
  have hdvd := (round_up_eq_iff 1 6).mp hone.1
  omega

end

end Wallet
