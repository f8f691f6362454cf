import Taquito.Lib.Loops
import Taquito.Sapling.Transactions

/-!
# Conservation of value in Sapling transactions

What the inputs of a prepared transaction are worth, less its outputs, is its balance. The loop over
the notes takes some of the unspent notes, and takes them all where they do not cover the amount;
the viewer's balance is what all of them are worth, so that the toolkit finds the balance
insufficient just where the viewer does.
-/

open Js Utils

namespace Sapling

/-- What amounts are worth together. -/
def worth (inputs : List Input) : ℚ := (inputs.map fun input => input.amount).sum

/-- What outputs are worth together. -/
def paid (outputs : List Output) : ℚ := (outputs.map fun output => output.amount).sum

@[simp] theorem worth_nil : worth [] = 0 := rfl

@[simp] theorem worth_cons (input : Input) (inputs : List Input) :
    worth (input :: inputs) = input.amount + worth inputs := rfl

@[simp] theorem paid_nil : paid [] = 0 := rfl

@[simp] theorem paid_cons (output : Output) (outputs : List Output) :
    paid (output :: outputs) = output.amount + paid outputs := rfl

@[simp] theorem paid_append (outputs outputs' : List Output) :
    paid (outputs ++ outputs') = paid outputs + paid outputs' := by
  simp only [paid, List.map_append, List.sum_append]

theorem amount_nonneg (note : Note) : 0 ≤ note.amount := Nat.cast_nonneg _

theorem worth_nonneg (inputs : List Input) : 0 ≤ worth inputs := by
  induction inputs with
  | nil => exact le_refl 0
  | cons input inputs ih => exact add_nonneg (amount_nonneg input.toNote) ih

/-! ## What the viewer returns -/

/-- The unspent notes. -/
def unspent (incoming : List Incoming) : List Input :=
  (incoming.filter fun note => !note.isSpent).map fun note => note.toInput

theorem mem_unspent {incoming : List Incoming} {input : Input} :
    input ∈ unspent incoming ↔ ∃ note ∈ incoming, note.isSpent = false ∧ note.toInput = input := by
  simp [unspent, and_assoc]

theorem unspent_cons (note : Incoming) (incoming : List Incoming) :
    unspent (note :: incoming)
      = if note.isSpent then unspent incoming else note.toInput :: unspent incoming := by
  cases h : note.isSpent <;> simp [unspent, h]

section viewer

variable {C : Type} {viewer : Viewer C} {nullifiers : List JSString}

/-- A pushed note is at its position, and its value is added to the balance unless it is spent. -/
theorem noteIncoming_ok {i : ℕ} {decrypted : Option Note} {pushed : List Incoming}
    (h : noteIncoming viewer nullifiers i decrypted = .ok pushed) (balance : ℚ) :
    noteBalance viewer nullifiers i balance decrypted = .ok (balance + worth (unspent pushed))
      ∧ (pushed = [] ∨ ∃ note, pushed = [note] ∧ note.position = i) := by
  match decrypted, h with
  | none, h =>
    rw [noteIncoming, Except.ok.injEq] at h
    subst h
    exact ⟨by simp [noteBalance, unspent], Or.inl rfl⟩
  | some note, h =>
    rw [noteIncoming] at h
    obtain ⟨spent, hspent, h⟩ := Except.bind_eq_ok.mp h
    rw [Except.pure_eq_ok, Except.ok.injEq] at h
    subst h
    refine ⟨?_, Or.inr ⟨_, rfl, rfl⟩⟩
    rw [noteBalance, hspent, Except.ok_bind, Except.pure_eq_ok, unspent_cons]
    by_cases hs : spent
    · simp [hs, unspent]
    · simp [hs, unspent]

/-- The balance is what the unspent notes are worth. -/
theorem balanceFrom_of_incomingFrom {i : ℕ} {ciphertexts : List C} {incoming : List Incoming}
    (h : incomingFrom viewer nullifiers i ciphertexts = .ok incoming) (balance : ℚ) :
    balanceFrom viewer nullifiers i ciphertexts balance
      = .ok (balance + worth (unspent incoming)) := by
  induction ciphertexts generalizing i incoming balance with
  | nil =>
    rw [incomingFrom, Except.ok.injEq] at h
    subst h
    simp [balanceFrom, unspent]
  | cons c ciphertexts ih =>
    rw [incomingFrom] at h
    obtain ⟨decrypted, hdecrypted, h⟩ := Except.bind_eq_ok.mp h
    obtain ⟨_, _, h⟩ := Except.bind_eq_ok.mp h
    obtain ⟨pushed, hpushed, h⟩ := Except.bind_eq_ok.mp h
    obtain ⟨rest, hrest, h⟩ := Except.bind_eq_ok.mp h
    rw [Except.pure_eq_ok, Except.ok.injEq] at h
    subst h
    rw [balanceFrom, hdecrypted, Except.ok_bind, (noteIncoming_ok hpushed balance).1,
      Except.ok_bind, ih hrest]
    have hworth : worth (unspent (pushed ++ rest))
        = worth (unspent pushed) + worth (unspent rest) := by
      simp [worth, unspent]
    rw [hworth, add_assoc]

theorem orThrow_error {α : Type} {x : Option α} {e : SaplingError} (h : orThrow x = .error e) :
    e = .LibraryError := by
  cases x with
  | none => exact (Except.error.inj h).symm
  | some a => cases h

theorem noteIncoming_error {i : ℕ} {decrypted : Option Note} {e : SaplingError}
    (h : noteIncoming viewer nullifiers i decrypted = .error e) : e = .LibraryError := by
  match decrypted, h with
  | some note, h =>
    rcases Except.bind_eq_error.mp h with h | ⟨_, _, h⟩
    · rcases Except.bind_eq_error.mp h with h | ⟨_, _, h⟩
      · exact orThrow_error h
      · cases h
    · cases h

/-- What the viewer throws comes from the cryptography. -/
theorem incomingFrom_error {i : ℕ} {ciphertexts : List C} {e : SaplingError}
    (h : incomingFrom viewer nullifiers i ciphertexts = .error e) : e = .LibraryError := by
  induction ciphertexts generalizing i with
  | nil => cases h
  | cons c ciphertexts ih =>
    rw [incomingFrom] at h
    rcases Except.bind_eq_error.mp h with h | ⟨_, _, h⟩
    · exact orThrow_error h
    rcases Except.bind_eq_error.mp h with h | ⟨_, _, h⟩
    · exact orThrow_error h
    rcases Except.bind_eq_error.mp h with h | ⟨_, _, h⟩
    · exact noteIncoming_error h
    rcases Except.bind_eq_error.mp h with h | ⟨_, _, h⟩
    · exact ih h
    · cases h

/-- Each note has a position of its own. -/
theorem incomingFrom_positions {i : ℕ} {ciphertexts : List C} {incoming : List Incoming}
    (h : incomingFrom viewer nullifiers i ciphertexts = .ok incoming) :
    (∀ note ∈ incoming, i ≤ note.position)
      ∧ incoming.Pairwise fun note note' => note.position < note'.position := by
  induction ciphertexts generalizing i incoming with
  | nil =>
    rw [incomingFrom, Except.ok.injEq] at h
    subst h
    simp
  | cons c ciphertexts ih =>
    rw [incomingFrom] at h
    obtain ⟨decrypted, hdecrypted, h⟩ := Except.bind_eq_ok.mp h
    obtain ⟨_, _, h⟩ := Except.bind_eq_ok.mp h
    obtain ⟨pushed, hpushed, h⟩ := Except.bind_eq_ok.mp h
    obtain ⟨rest, hrest, h⟩ := Except.bind_eq_ok.mp h
    rw [Except.pure_eq_ok, Except.ok.injEq] at h
    subst h
    obtain ⟨hge, hlt⟩ := ih hrest
    have hge' : ∀ note ∈ rest, i ≤ note.position := fun note hnote =>
      Nat.le_of_succ_le (hge note hnote)
    rcases (noteIncoming_ok hpushed 0).2 with rfl | ⟨note, rfl, hnote⟩
    · exact ⟨hge', hlt⟩
    · refine ⟨?_, ?_⟩
      · intro n hn
        rcases List.mem_cons.mp hn with rfl | hn
        · exact hnote.ge
        · exact hge' n hn
      · refine List.pairwise_cons.mpr ⟨?_, hlt⟩
        intro n hn
        rw [hnote]
        exact hge n hn

/-- The unspent notes are at distinct positions. -/
theorem nodup_unspent {i : ℕ} {ciphertexts : List C} {incoming : List Incoming}
    (h : incomingFrom viewer nullifiers i ciphertexts = .ok incoming) :
    ((unspent incoming).map fun input => input.position).Nodup := by
  have hlt := (incomingFrom_positions h).2
  rw [unspent, List.map_map, List.Nodup, List.pairwise_map]
  exact (hlt.filter _).imp fun hlt => Nat.ne_of_lt hlt

end viewer

/-! ## Selection -/

/-- **The loop takes some of the unspent notes, and all of them where they do not cover the
amount.** -/
theorem selectFrom_spec (amountMutez : ℚ) (incoming : List Incoming)
    (chosen : ChosenSpendableInputs) :
    ∃ taken, taken.Sublist (unspent incoming)
      ∧ selectFrom amountMutez incoming chosen
        = ⟨chosen.inputsToSpend ++ taken, chosen.sumSelectedInputs + worth taken⟩
      ∧ (chosen.sumSelectedInputs + worth taken < amountMutez → taken = unspent incoming) := by
  induction incoming generalizing chosen with
  | nil => exact ⟨[], List.Sublist.slnil, by simp [selectFrom], fun _ => rfl⟩
  | cons input incoming ih =>
    rw [selectFrom, unspent_cons]
    by_cases hspent : input.isSpent
    · have hskip : (!input.isSpent && decide (chosen.sumSelectedInputs < amountMutez)) = false := by
        simp [hspent]
      rw [if_pos hspent, hskip, if_neg Bool.false_ne_true]
      exact ih chosen
    · rw [if_neg hspent]
      by_cases hcovered : chosen.sumSelectedInputs < amountMutez
      · have htake : (!input.isSpent && decide (chosen.sumSelectedInputs < amountMutez)) = true := by
          simp [hspent, hcovered]
        rw [htake, if_pos rfl]
        obtain ⟨taken, hsub, heq, hall⟩ := ih
          { inputsToSpend := chosen.inputsToSpend ++ [input.toInput]
            sumSelectedInputs := chosen.sumSelectedInputs + input.amount }
        refine ⟨input.toInput :: taken, hsub.cons_cons _, ?_, ?_⟩
        · rw [heq, worth_cons, List.append_assoc, add_assoc]
          rfl
        · intro hlt
          rw [worth_cons, ← add_assoc] at hlt
          rw [hall hlt]
      · -- Once the amount is covered, no note is taken.
        have hskip : (!input.isSpent && decide (chosen.sumSelectedInputs < amountMutez)) = false := by
          simp [hcovered]
        rw [hskip, if_neg Bool.false_ne_true]
        obtain ⟨taken, hsub, heq, _⟩ := ih chosen
        refine ⟨taken, hsub.cons _, heq, ?_⟩
        intro hlt
        have hnonneg := worth_nonneg taken
        linarith

theorem worth_le_of_sublist {taken inputs : List Input} (h : taken.Sublist inputs) :
    worth taken ≤ worth inputs := by
  induction h with
  | slnil => exact le_refl 0
  | cons input _ ih => exact ih.trans (le_add_of_nonneg_left (amount_nonneg input.toNote))
  | cons_cons input _ ih => exact add_le_add_right ih _

section toolkit

variable {C : Type} {toolkit : SaplingToolkit C} {diff : SaplingDiff C}

/-- What is chosen are unspent notes that cover the amount. -/
theorem selectInputsToSpend_ok {amountMutez : ℚ} {chosen : ChosenSpendableInputs}
    (h : toolkit.selectInputsToSpend diff amountMutez = .ok chosen) :
    ∃ incoming, toolkit.getIncoming diff = .ok incoming
      ∧ chosen.inputsToSpend.Sublist (unspent incoming)
      ∧ chosen.sumSelectedInputs = worth chosen.inputsToSpend
      ∧ amountMutez ≤ chosen.sumSelectedInputs := by
  rw [SaplingToolkit.selectInputsToSpend] at h
  obtain ⟨incoming, hincoming, h⟩ := Except.bind_eq_ok.mp h
  obtain ⟨taken, hsub, heq, _⟩ := selectFrom_spec amountMutez incoming ⟨[], 0⟩
  dsimp only at h
  rw [heq] at h
  by_cases hlt : 0 + worth taken < amountMutez
  · rw [if_pos hlt] at h
    cases h
  · rw [if_neg hlt, Except.pure_eq_ok, Except.ok.injEq] at h
    subst h
    refine ⟨incoming, hincoming, ?_, ?_, not_lt.mp hlt⟩
    · simpa using hsub
    · simp

/-- The balance is insufficient where the unspent notes do not cover the amount. -/
theorem selectInputsToSpend_insufficient {amountMutez realBalance amountToSpend : ℚ} :
    toolkit.selectInputsToSpend diff amountMutez
        = .error (.InsufficientBalance realBalance amountToSpend)
      ↔ amountToSpend = amountMutez ∧ realBalance < amountMutez
        ∧ ∃ incoming, toolkit.getIncoming diff = .ok incoming
          ∧ worth (unspent incoming) = realBalance := by
  rw [SaplingToolkit.selectInputsToSpend]
  cases hincoming : toolkit.getIncoming diff with
  | error e =>
    have he := incomingFrom_error hincoming
    simp [he]
  | ok incoming =>
    obtain ⟨taken, hsub, heq, hall⟩ := selectFrom_spec amountMutez incoming ⟨[], 0⟩
    rw [Except.ok_bind]
    dsimp only
    rw [heq]
    by_cases hlt : 0 + worth taken < amountMutez
    · rw [if_pos hlt, hall hlt, zero_add, Except.error.injEq, SaplingError.InsufficientBalance.injEq]
      rw [hall hlt, zero_add] at hlt
      constructor
      · rintro ⟨rfl, rfl⟩
        exact ⟨rfl, hlt, incoming, rfl, rfl⟩
      · rintro ⟨rfl, _, incoming', h, hworth⟩
        cases h
        exact ⟨hworth, rfl⟩
    · rw [if_neg hlt]
      constructor
      · intro h
        cases h
      · -- All the unspent notes are worth at least what was taken.
        rintro ⟨_, hlt', incoming', h, rfl⟩
        cases h
        have hle := worth_le_of_sublist hsub
        linarith

end toolkit

/-! ## Building -/

section builder

variable {prover : Prover}

theorem prepareSaplingOutputDescription_ok {output output' : Output}
    (h : prepareSaplingOutputDescription prover output = .ok output') : output' = output := by
  rw [prepareSaplingOutputDescription] at h
  split at h
  · exact (Except.ok.inj h).symm
  · cases h

theorem prepareSaplingOutputDescription_error {output : Output} {e : SaplingError}
    (h : prepareSaplingOutputDescription prover output = .error e) : e = .LibraryError := by
  rw [prepareSaplingOutputDescription] at h
  split at h
  · cases h
  · exact (Except.error.inj h).symm

theorem createBindingSignature_ok {tx tx' : SaplingTransaction}
    (h : createBindingSignature prover tx = .ok tx') : tx' = tx := by
  rw [createBindingSignature] at h
  split at h
  · exact (Except.ok.inj h).symm
  · cases h

theorem createBindingSignature_error {tx : SaplingTransaction} {e : SaplingError}
    (h : createBindingSignature prover tx = .error e) : e = .LibraryError := by
  rw [createBindingSignature] at h
  split at h
  · cases h
  · exact (Except.error.inj h).symm

/-- A check of every element leaves them as they are. -/
theorem mapM_ok_of_forall {α : Type} {f : α → Except SaplingError α}
    (hf : ∀ a b, f a = .ok b → b = a) {xs ys : List α} (h : xs.mapM f = .ok ys) : ys = xs := by
  have hall := (Except.mapM_eq_ok.mp h).imp fun a b hab => (hf a b hab).symm
  rw [List.forall₂_eq_eq_eq] at hall
  exact hall.symm

theorem prepareSaplingSpendDescription_ok {inputs inputs' : List Input}
    (h : prepareSaplingSpendDescription prover inputs = .ok inputs') : inputs' = inputs := by
  refine mapM_ok_of_forall ?_ h
  intro input input' h
  split at h
  · exact (Except.ok.inj h).symm
  · cases h

theorem prepareSaplingSpendDescription_error {inputs : List Input} {e : SaplingError}
    (h : prepareSaplingSpendDescription prover inputs = .error e) : e = .LibraryError := by
  obtain ⟨input, -, h⟩ := Except.mapM_eq_error h
  split at h
  · cases h
  · exact (Except.error.inj h).symm

theorem prepareOutputs_ok {params outputs : List Output} {sumAmountOutput : ℚ}
    {result : List Output × ℚ} (h : prepareOutputs prover params outputs sumAmountOutput = .ok result) :
    result = (outputs ++ params, sumAmountOutput + paid params) := by
  induction params generalizing outputs sumAmountOutput with
  | nil =>
    rw [prepareOutputs, Except.ok.injEq] at h
    rw [← h, List.append_nil, paid_nil, add_zero]
  | cons param params ih =>
    rw [prepareOutputs] at h
    obtain ⟨output, houtput, h⟩ := Except.bind_eq_ok.mp h
    rw [ih h, prepareSaplingOutputDescription_ok houtput, List.append_assoc, paid_cons, add_assoc]
    rfl

theorem prepareOutputs_error {params outputs : List Output} {sumAmountOutput : ℚ}
    {e : SaplingError} (h : prepareOutputs prover params outputs sumAmountOutput = .error e) :
    e = .LibraryError := by
  induction params generalizing outputs sumAmountOutput with
  | nil => cases h
  | cons param params ih =>
    rw [prepareOutputs] at h
    rcases Except.bind_eq_error.mp h with h | ⟨output, _, h⟩
    · exact prepareSaplingOutputDescription_error h
    · exact ih h

/-- The output that pays back what the amount leaves of the inputs. -/
def paybackOutput (prover : Prover) (amount sumSelectedInputs : ℚ) : Output :=
  { «to» := prover.address, amount := sumSelectedInputs - amount, memo := [] }

/-- The rest is paid back where the inputs are worth more than the outputs. -/
theorem withPayback_ok {txTotalAmount sumAmountOutput : ℚ} {chosen : ChosenSpendableInputs}
    {outputs : List Output} {result : List Output × ℚ}
    (h : withPayback prover txTotalAmount chosen outputs sumAmountOutput = .ok result) :
    result = if chosen.sumSelectedInputs > sumAmountOutput then
        (outputs ++ [paybackOutput prover txTotalAmount chosen.sumSelectedInputs],
          sumAmountOutput + (chosen.sumSelectedInputs - txTotalAmount))
      else (outputs, sumAmountOutput) := by
  rw [withPayback] at h
  by_cases hgt : chosen.sumSelectedInputs > sumAmountOutput
  · rw [if_pos hgt] at h ⊢
    obtain ⟨⟨payBackOutput, payBackAmount⟩, hpayback, h⟩ := Except.bind_eq_ok.mp h
    rw [createPaybackOutput] at hpayback
    obtain ⟨output, houtput, hpayback⟩ := Except.bind_eq_ok.mp hpayback
    rw [Except.pure_eq_ok, Except.ok.injEq, Prod.mk.injEq] at hpayback
    obtain ⟨rfl, rfl⟩ := hpayback
    rw [prepareSaplingOutputDescription_ok houtput] at h
    exact (Except.ok.inj h).symm
  · rw [if_neg hgt] at h ⊢
    exact (Except.ok.inj h).symm

theorem withPayback_error {txTotalAmount sumAmountOutput : ℚ} {chosen : ChosenSpendableInputs}
    {outputs : List Output} {e : SaplingError}
    (h : withPayback prover txTotalAmount chosen outputs sumAmountOutput = .error e) :
    e = .LibraryError := by
  rw [withPayback] at h
  split at h
  · rcases Except.bind_eq_error.mp h with h | ⟨_, _, h⟩
    · rcases Except.bind_eq_error.mp h with h | ⟨_, _, h⟩
      · exact prepareSaplingOutputDescription_error h
      · cases h
    · cases h
  · cases h

/-- The inputs are the chosen ones, and the balance is what they leave of the outputs. -/
theorem createSaplingTx_ok {params : List Output} {txTotalAmount : ℚ}
    {chosen : ChosenSpendableInputs} {tx : SaplingTransaction}
    (h : createSaplingTx prover params txTotalAmount chosen = .ok tx) :
    tx.inputs = chosen.inputsToSpend
      ∧ tx.outputs = (if chosen.sumSelectedInputs > paid params then
          params ++ [paybackOutput prover txTotalAmount chosen.sumSelectedInputs] else params)
      ∧ tx.balance = chosen.sumSelectedInputs - paid tx.outputs := by
  rw [createSaplingTx] at h
  obtain ⟨inputs, hinputs, hrest⟩ := Except.bind_eq_ok.mp h
  obtain ⟨⟨outputs, sumAmountOutput⟩, houtputs, hrest⟩ := Except.bind_eq_ok.mp hrest
  obtain ⟨⟨outputs', sumAmountOutput'⟩, hpayback, hsigned⟩ := Except.bind_eq_ok.mp hrest
  have hsum := prepareOutputs_ok houtputs
  rw [List.nil_append, zero_add, Prod.mk.injEq] at hsum
  obtain ⟨rfl, rfl⟩ := hsum
  have hresult := withPayback_ok hpayback
  rw [createBindingSignature_ok hsigned]
  refine ⟨prepareSaplingSpendDescription_ok hinputs, ?_⟩
  by_cases hgt : chosen.sumSelectedInputs > paid outputs
  · rw [if_pos hgt, Prod.mk.injEq] at hresult
    obtain ⟨rfl, rfl⟩ := hresult
    rw [if_pos hgt]
    refine ⟨rfl, ?_⟩
    simp [calculateTransactionBalance, paybackOutput]
  · rw [if_neg hgt, Prod.mk.injEq] at hresult
    obtain ⟨rfl, rfl⟩ := hresult
    rw [if_neg hgt]
    exact ⟨rfl, rfl⟩

theorem createSaplingTx_error {params : List Output} {txTotalAmount : ℚ}
    {chosen : ChosenSpendableInputs} {e : SaplingError}
    (h : createSaplingTx prover params txTotalAmount chosen = .error e) : e = .LibraryError := by
  rw [createSaplingTx] at h
  rcases Except.bind_eq_error.mp h with h | ⟨_, _, h⟩
  · exact prepareSaplingSpendDescription_error h
  rcases Except.bind_eq_error.mp h with h | ⟨_, _, h⟩
  · exact prepareOutputs_error h
  rcases Except.bind_eq_error.mp h with h | ⟨_, _, h⟩
  · exact withPayback_error h
  · exact createBindingSignature_error h

/-- A shielding has no inputs, and its balance is the negated amount. -/
theorem createShieldedTx_ok {params : List Output} {txTotalAmount : ℚ} {tx : SaplingTransaction}
    (h : createShieldedTx prover params txTotalAmount = .ok tx) :
    tx = { inputs := [], outputs := params, balance := -txTotalAmount } := by
  rw [createShieldedTx] at h
  obtain ⟨outputs, houtputs, h⟩ := Except.bind_eq_ok.mp h
  have heq := mapM_ok_of_forall (fun _ _ => prepareSaplingOutputDescription_ok) houtputs
  rw [createBindingSignature_ok h, heq, calculateTransactionBalance, zero_sub]

theorem createShieldedTx_error {params : List Output} {txTotalAmount : ℚ} {e : SaplingError}
    (h : createShieldedTx prover params txTotalAmount = .error e) : e = .LibraryError := by
  rw [createShieldedTx] at h
  rcases Except.bind_eq_error.mp h with h | ⟨_, _, h⟩
  · obtain ⟨output, -, h⟩ := Except.mapM_eq_error h
    exact prepareSaplingOutputDescription_error h
  · exact createBindingSignature_error h

end builder

/-! ## The prepared transaction -/

/-- The output of a parameter. -/
def Params.output (param : Params) : Output :=
  { «to» := param.«to», amount := param.amountMutez, memo := param.memo.getD [] }

/-- The parameters of a request. -/
def Request.params : Request → List Params
  | .shielded params | .sapling params => params
  | .unshielded param => [param]

/-- The outputs that a request asks for: an unshielded amount leaves the state. -/
def Request.outputs : Request → List Output
  | .shielded params | .sapling params => params.map Params.output
  | .unshielded _ => []

/-- The total amount of a request. -/
def Request.total (request : Request) : ℚ :=
  (request.params.map fun param => param.amountMutez).sum

/-- Whether a request takes its amount from the notes. -/
def Request.spends : Request → Bool
  | .shielded _ => false
  | .unshielded _ | .sapling _ => true

/-- What a request adds to the transparent side. -/
def Request.balance : Request → ℚ
  | request@(.shielded _) => -request.total
  | request@(.unshielded _) => request.total
  | .sapling _ => 0

section toolkit

variable {C : Type} {toolkit : SaplingToolkit C} {diff : SaplingDiff C}

/-- The formatted parameters are the outputs of the parameters with their sum. -/
theorem formatTransactionParams_ok {validateDestination : JSString → Except SaplingError Unit}
    {params : List Params} {formatedParams : List Output} {totalAmount : ℚ}
    {result : List Output × ℚ}
    (h : formatTransactionParams toolkit validateDestination params formatedParams totalAmount
      = .ok result) :
    result = (formatedParams ++ params.map Params.output,
      totalAmount + (params.map fun param => param.amountMutez).sum) := by
  induction params generalizing formatedParams totalAmount with
  | nil =>
    rw [formatTransactionParams, Except.ok.injEq] at h
    simp [← h]
  | cons param params ih =>
    rw [formatTransactionParams] at h
    obtain ⟨_, _, h⟩ := Except.bind_eq_ok.mp h
    dsimp only at h
    split at h
    · cases h
    · rw [ih h, List.append_assoc, List.map_cons, List.map_cons, List.sum_cons, add_assoc]
      rfl

theorem formatTransactionParams_error {validateDestination : JSString → Except SaplingError Unit}
    (hv : ∀ destination e, validateDestination destination = .error e → e = .InvalidAddressError)
    {params : List Params} {formatedParams : List Output} {totalAmount : ℚ} {e : SaplingError}
    (h : formatTransactionParams toolkit validateDestination params formatedParams totalAmount
      = .error e) : e = .InvalidAddressError ∨ e = .InvalidMemo := by
  induction params generalizing formatedParams totalAmount with
  | nil => cases h
  | cons param params ih =>
    rw [formatTransactionParams] at h
    rcases Except.bind_eq_error.mp h with h | ⟨_, _, h⟩
    · exact Or.inl (hv _ _ h)
    · dsimp only at h
      split at h
      · exact Or.inr (Except.error.inj h).symm
      · exact ih h

/-- The total of what is formatted is that of the request, and so are the outputs, unless the
amount leaves the state. -/
theorem format_ok {request : Request} {result : List Output × ℚ}
    (h : toolkit.format request = .ok result) :
    result = (request.params.map Params.output, request.total) := by
  match request, h with
  | .shielded params, h =>
    have heq := formatTransactionParams_ok h
    rwa [List.nil_append, zero_add] at heq
  | .sapling params, h =>
    have heq := formatTransactionParams_ok h
    rwa [List.nil_append, zero_add] at heq
  | .unshielded param, h =>
    obtain ⟨formated, hformated, h⟩ := Except.bind_eq_ok.mp h
    obtain ⟨_, _, h⟩ := Except.bind_eq_ok.mp h
    have heq := formatTransactionParams_ok hformated
    rw [← Except.ok.inj h]
    rwa [List.nil_append, zero_add] at heq

/-- A request that is not well formed is rejected as such. -/
theorem format_error {request : Request} {e : SaplingError} (h : toolkit.format request = .error e) :
    e = .InvalidAddressError ∨ e = .InvalidMemo ∨ e = .InvalidKeyError := by
  have hsapling : ∀ destination e, validateDestinationSaplingAddress destination = .error e →
      e = SaplingError.InvalidAddressError := by
    intro destination e h
    rw [validateDestinationSaplingAddress] at h
    split at h
    · cases h
    · exact (Except.error.inj h).symm
  have himplicit : ∀ destination e,
      validateDestinationImplicitAddress toolkit.b58 destination = .error e →
      e = SaplingError.InvalidAddressError := by
    intro destination e h
    rw [validateDestinationImplicitAddress] at h
    split at h
    · cases h
    · exact (Except.error.inj h).symm
  match request, h with
  | .shielded params, h => exact (formatTransactionParams_error hsapling h).imp_right Or.inl
  | .sapling params, h => exact (formatTransactionParams_error hsapling h).imp_right Or.inl
  | .unshielded param, h =>
    rcases Except.bind_eq_error.mp h with h | ⟨_, _, h⟩
    · exact (formatTransactionParams_error himplicit h).imp_right Or.inl
    · rcases Except.bind_eq_error.mp h with h | ⟨_, _, h⟩
      · rw [createBoundData] at h
        split at h
        · cases h
        · exact Or.inr (Or.inr (Except.error.inj h).symm)
      · cases h

/-- The value of a transaction is conserved: the inputs less the outputs are its balance, which is
that of the request; the inputs are distinct unspent notes, that cover what the request spends; and
the outputs are those of the request, with one that pays a non-negative amount back. -/
structure Conserves (toolkit : SaplingToolkit C) (diff : SaplingDiff C) (request : Request)
    (tx : SaplingTransaction) : Prop where
  difference : worth tx.inputs - paid tx.outputs = tx.balance
  balance : tx.balance = request.balance
  distinct : (tx.inputs.map fun input => input.position).Nodup
  unspent : ∀ input ∈ tx.inputs, ∃ incoming, toolkit.getIncoming diff = .ok incoming
    ∧ ∃ note ∈ incoming, note.isSpent = false ∧ note.toInput = input
  covers : if request.spends then request.total ≤ worth tx.inputs else tx.inputs = []
  payback : tx.outputs = request.outputs
    ∨ ∃ amount, 0 ≤ amount ∧ tx.outputs = request.outputs
        ++ [{ «to» := toolkit.prover.address, amount, memo := [] }]

/-- The outputs of a request are worth its total. -/
theorem paid_map_output (params : List Params) :
    paid (params.map Params.output) = (params.map fun param => param.amountMutez).sum := by
  rw [paid, List.map_map]
  rfl

/-- A transaction of chosen notes conserves value, where the outputs and the balance make the
total. -/
theorem conserves_of_createSaplingTx {request : Request} (hspends : request.spends = true)
    (hbalance : request.balance = request.total - paid request.outputs)
    (hle : paid request.outputs ≤ request.total)
    {chosen : ChosenSpendableInputs} {tx : SaplingTransaction}
    (hchosen : toolkit.selectInputsToSpend diff request.total = .ok chosen)
    (h : createSaplingTx toolkit.prover request.outputs request.total chosen = .ok tx) :
    Conserves toolkit diff request tx := by
  obtain ⟨incoming, hincoming, hsub, hworth, hcovers⟩ := selectInputsToSpend_ok hchosen
  obtain ⟨hinputs, houtputs, htx⟩ := createSaplingTx_ok h
  have hdifference : worth tx.inputs - paid tx.outputs = tx.balance := by
    rw [hinputs, htx, hworth]
  refine ⟨hdifference, ?_, ?_, ?_, ?_, ?_⟩
  · rw [htx, houtputs, hbalance]
    by_cases hgt : chosen.sumSelectedInputs > paid request.outputs
    · rw [if_pos hgt, paid_append]
      simp [paybackOutput]
      ring
    · -- Without payback the notes, the outputs and the total are worth the same.
      rw [if_neg hgt]
      linarith
  · rw [hinputs]
    exact (nodup_unspent hincoming).sublist (hsub.map _)
  · intro input hinput
    rw [hinputs] at hinput
    exact ⟨incoming, hincoming, mem_unspent.mp (hsub.subset hinput)⟩
  · rw [if_pos hspends, hinputs, ← hworth]
    exact hcovers
  · rw [houtputs]
    by_cases hgt : chosen.sumSelectedInputs > paid request.outputs
    · rw [if_pos hgt]
      exact Or.inr ⟨_, sub_nonneg.mpr hcovers, rfl⟩
    · rw [if_neg hgt]
      exact Or.inl rfl

/-- The outputs of a request are worth no more than its total. -/
theorem paid_outputs_le {request : Request}
    (hnonneg : ∀ param ∈ request.params, 0 ≤ param.amountMutez) :
    paid request.outputs ≤ request.total := by
  match request, hnonneg with
  | .shielded params, _ | .sapling params, _ => exact (paid_map_output params).le
  | .unshielded param, hnonneg =>
    simpa [Request.outputs, Request.total, Request.params] using hnonneg param

/-- A prepared transaction conserves value. -/
theorem conserves_of_prepare {request : Request}
    (hnonneg : ∀ param ∈ request.params, 0 ≤ param.amountMutez) {tx : SaplingTransaction}
    (h : toolkit.prepare diff request = .ok tx) : Conserves toolkit diff request tx := by
  obtain ⟨result, hformat, h⟩ := Except.bind_eq_ok.mp h
  rw [format_ok hformat] at h
  match request, hnonneg, h with
  | .shielded params, _, h =>
    rw [createShieldedTx_ok h]
    refine ⟨?_, rfl, List.nodup_nil, ?_, rfl, Or.inl rfl⟩
    · rw [worth_nil, zero_sub]
      exact congrArg Neg.neg (paid_map_output params)
    · intro input hinput
      cases hinput
  | .unshielded param, hnonneg, h =>
    obtain ⟨chosen, hchosen, h⟩ := Except.bind_eq_ok.mp h
    exact conserves_of_createSaplingTx rfl (sub_zero _).symm (paid_outputs_le hnonneg) hchosen h
  | .sapling params, hnonneg, h =>
    obtain ⟨chosen, hchosen, h⟩ := Except.bind_eq_ok.mp h
    refine conserves_of_createSaplingTx rfl ?_ (paid_outputs_le hnonneg) hchosen h
    exact (sub_eq_zero_of_eq (paid_map_output params).symm).symm

/-- What `getBalance` returns where the viewer's scan succeeds. -/
theorem getBalance_of_getIncoming {incoming : List Incoming}
    (h : toolkit.getIncoming diff = .ok incoming) :
    toolkit.getBalance diff = .ok (worth (unspent incoming)) := by
  have hbalance := balanceFrom_of_incomingFrom h 0
  rwa [zero_add] at hbalance

/-- The notes do not cover a request: it is well formed, takes its amount from the notes, the viewer
reads them, and its balance is less than the total. -/
structure Insufficient (toolkit : SaplingToolkit C) (diff : SaplingDiff C) (request : Request)
    (realBalance : ℚ) : Prop where
  spends : request.spends = true
  wellFormed : ∃ result, toolkit.format request = .ok result
  readable : ∃ incoming, toolkit.getIncoming diff = .ok incoming
  balance : toolkit.getBalance diff = .ok realBalance
  less : realBalance < request.total

/-- The selection throws just where the balance is insufficient. -/
theorem selectInputsToSpend_insufficient_iff {request : Request} (hspends : request.spends = true)
    {result : List Output × ℚ} (hformat : toolkit.format request = .ok result)
    {realBalance amountToSpend : ℚ} :
    toolkit.selectInputsToSpend diff request.total
        = .error (.InsufficientBalance realBalance amountToSpend)
      ↔ amountToSpend = request.total ∧ Insufficient toolkit diff request realBalance := by
  rw [selectInputsToSpend_insufficient]
  constructor
  · rintro ⟨heq, hlt, incoming, hincoming, rfl⟩
    exact ⟨heq, hspends, ⟨result, hformat⟩, ⟨incoming, hincoming⟩,
      getBalance_of_getIncoming hincoming, hlt⟩
  · rintro ⟨heq, h⟩
    obtain ⟨incoming, hincoming⟩ := h.readable
    have hbalance := h.balance
    rw [getBalance_of_getIncoming hincoming, Except.ok.injEq] at hbalance
    exact ⟨heq, h.less, incoming, hincoming, hbalance⟩

/-- The builder does not throw it. -/
theorem selection_error_iff {request : Request} (hspends : request.spends = true)
    {result : List Output × ℚ} (hformat : toolkit.format request = .ok result)
    {outputs : List Output} {realBalance amountToSpend : ℚ} :
    (do let chosen ← toolkit.selectInputsToSpend diff request.total
        createSaplingTx toolkit.prover outputs request.total chosen)
        = Except.error (.InsufficientBalance realBalance amountToSpend)
      ↔ amountToSpend = request.total ∧ Insufficient toolkit diff request realBalance := by
  rw [← selectInputsToSpend_insufficient_iff hspends hformat]
  constructor
  · intro h
    rcases Except.bind_eq_error.mp h with h | ⟨_, _, h⟩
    · exact h
    · cases createSaplingTx_error h
  · intro h
    exact Except.bind_eq_error.mpr (Or.inl h)

/-- **The balance is insufficient just where the viewer's balance is less than the total of a
request that takes its amount from the notes.** -/
theorem prepare_insufficient_iff {request : Request} {realBalance amountToSpend : ℚ} :
    toolkit.prepare diff request = .error (.InsufficientBalance realBalance amountToSpend)
      ↔ amountToSpend = request.total ∧ Insufficient toolkit diff request realBalance := by
  rw [SaplingToolkit.prepare]
  cases hformat : toolkit.format request with
  | error e =>
    constructor
    · intro h
      cases h
      rcases format_error hformat with h | h | h <;> cases h
    · rintro ⟨_, h⟩
      obtain ⟨result, hresult⟩ := h.wellFormed
      rw [hformat] at hresult
      cases hresult
  | ok result =>
    rw [format_ok hformat, Except.ok_bind]
    match request, hformat with
    | .shielded params, _ =>
      constructor
      · intro h
        cases createShieldedTx_error h
      · rintro ⟨_, h⟩
        cases h.spends
    | .unshielded param, hformat => exact selection_error_iff rfl hformat
    | .sapling params, hformat => exact selection_error_iff rfl hformat

/-- **Value is conserved**: for non-negative amounts, every transaction that the toolkit prepares
conserves value, and it throws that the balance is insufficient just where it is. -/
theorem prepare_conserves (toolkit : SaplingToolkit C) (diff : SaplingDiff C) (request : Request)
    (hnonneg : ∀ param ∈ request.params, 0 ≤ param.amountMutez) :
    (∀ tx, toolkit.prepare diff request = .ok tx → Conserves toolkit diff request tx)
      ∧ ∀ realBalance amountToSpend,
        toolkit.prepare diff request = .error (.InsufficientBalance realBalance amountToSpend)
          ↔ amountToSpend = request.total ∧ Insufficient toolkit diff request realBalance :=
  ⟨fun _ => conserves_of_prepare hnonneg, fun _ _ => prepare_insufficient_iff⟩

end toolkit

/-- A toolkit whose viewer decrypts values and whose prover always succeeds. -/
def openToolkit : SaplingToolkit Bytes where
  b58 := Base58Check.hex
  viewer :=
    { decryptCiphertextAsReceiver := fun value => some (some ⟨value, [], [], []⟩)
      decryptCiphertextAsSender := fun _ => some none
      computeNullifier := fun _ _ => some (js "00") }
  prover :=
    { address := js "zet1"
      spend := fun _ => true
      output := fun _ => true
      sign := fun _ _ _ => true }
  memoSize := 8

/-- A request of one mutez. -/
def oneMutez : Params := { «to» := js "zet1", amount := 1, memo := none, mutez := true }

/-- A transfer of one mutez out of two notes of two. -/
theorem prepare_conserves_oneMutez :
    ∃ tx, openToolkit.prepare ⟨[[2], [2]], []⟩ (.sapling [oneMutez]) = .ok tx
      ∧ Conserves openToolkit ⟨[[2], [2]], []⟩ (.sapling [oneMutez]) tx := by
  have hsome : (openToolkit.prepare ⟨[[2], [2]], []⟩ (.sapling [oneMutez])).toOption.isSome = true :=
    by decide +kernel
  have hnonneg : ∀ param ∈ (Request.sapling [oneMutez]).params, 0 ≤ param.amountMutez := by
    intro param hparam
    rw [List.mem_singleton.mp hparam]
    decide
  cases htx : openToolkit.prepare ⟨[[2], [2]], []⟩ (.sapling [oneMutez]) with
  | error e =>
    rw [htx] at hsome
    cases hsome
  | ok tx => exact ⟨tx, rfl, (prepare_conserves openToolkit _ _ hnonneg).1 tx htx⟩

/-- Shielding takes no notes, which need not cover the amount: with none at all a mutez is shielded,
though the balance is less. -/
theorem shielded_without_balance :
    openToolkit.getBalance ⟨[], []⟩ = .ok 0
      ∧ Request.total (.shielded [oneMutez]) = 1
      ∧ ∃ tx, openToolkit.prepare ⟨[], []⟩ (.shielded [oneMutez]) = .ok tx ∧ worth tx.inputs < 1 :=
  ⟨rfl, by decide +kernel, { inputs := [], outputs := _, balance := _ }, rfl, by decide +kernel⟩

end Sapling
