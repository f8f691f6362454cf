import Taquito.LocalForging.Fields
import Taquito.LocalForging.MichelsonDecoding
import Taquito.LocalForging.Operations

/-!
# Batches of operations

What the decoders of the forger consume. The decoder of a field takes exactly the octets it reads,
whatever follows (`CODEC.local_decoder`), but for that of proposals, which takes all that is left,
and so does the decoder of an operation (`operationDecoder_eq_ok`). So the octets of two groups may
be laid end to end unless the first ends with proposals (`readAll_append_iff`).
-/

open Js BigEndian Reader

namespace LocalForging

open OperationKind
open Utils (Prefix)

variable {lib : Libraries}

/-! ## Decoders consume what they read -/

section identifiers

variable {b58 : Base58Check}

theorem local_prefixDecoder (p : Prefix) : Local (prefixDecoder b58 p) :=
  (local_consume _).bind fun _ => .pure _

theorem local_pkhDecoder : Local (pkhDecoder b58) := by
  refine local_consumeByte.bind fun tag => ?_
  refine .ite (local_prefixDecoder _) (.ite (local_prefixDecoder _) ?_)
  exact .ite (local_prefixDecoder _) (.fail _)

theorem local_publicKeyDecoder : Local (publicKeyDecoder b58) := by
  refine local_consumeByte.bind fun preamble => ?_
  refine .ite (local_prefixDecoder _) (.ite (local_prefixDecoder _) ?_)
  exact .ite (local_prefixDecoder _) (.fail _)

theorem local_contractDecoder : Local (contractDecoder b58) :=
  (local_prefixDecoder _).bind fun _ => (local_consume 1).bind fun _ => .pure _

theorem local_addressDecoder : Local (addressDecoder b58) :=
  local_consumeByte.bind fun _ => .ite local_pkhDecoder (.ite local_contractDecoder (.fail _))

theorem local_smartRollupAddressDecoder : Local (smartRollupAddressDecoder b58) :=
  (local_prefixDecoder _).bind fun _ => .ite (.fail _) (.pure _)

theorem local_smartContractAddressDecoder : Local (smartContractAddressDecoder b58) :=
  local_consumeByte.bind fun _ => .ite local_contractDecoder (.fail _)

theorem local_smartRollupCommitmentHashDecoder : Local (smartRollupCommitmentHashDecoder b58) :=
  (local_prefixDecoder _).bind fun _ => .ite (.fail _) (.pure _)

theorem local_identifierDecoder (codec : Identifier) : Local (codec.decoder b58) := by
  cases codec with
  | PUBLIC_KEY => exact local_publicKeyDecoder
  | PKH => exact local_pkhDecoder
  | ADDRESS => exact local_addressDecoder
  | SMART_ROLLUP_ADDRESS => exact local_smartRollupAddressDecoder
  | SMART_CONTRACT_ADDRESS => exact local_smartContractAddressDecoder
  | SMART_ROLLUP_COMMITMENT_HASH => exact local_smartRollupCommitmentHashDecoder
  | _ => exact local_prefixDecoder _

end identifiers

theorem local_entrypointDecoder : Local entrypointDecoder := by
  refine local_consumeByte.bind fun tag => ?_
  refine (Local.lift _).bind fun preamble => ?_
  dsimp only
  cases entrypointMapping.lookup preamble with
  | some entrypoint => exact .pure _
  | none => exact (local_extractRequiredLen 1).bind fun _ => .ite (.fail _) (.pure _)

theorem local_parametersDecoder : Local parametersDecoder := by
  refine local_consumeByte.bind fun preamble => .ite (.pure _) ?_
  refine local_entrypointDecoder.bind fun _ => ?_
  exact (local_extractRequiredLen 4).bind fun _ => (Local.lift _).bind fun _ => .pure _

theorem local_limitDecoder : Local (limitDecoder lib.big) :=
  local_consumeByte.bind fun _ => .ite (local_zarithDecoder.bind fun _ => .pure _) (.pure _)

theorem local_delegateDecoder : Local (delegateDecoder lib.b58) := by
  have hbool : Local boolDecoder := local_consumeByte.bind fun _ => .pure _
  refine hbool.bind fun hasDelegate => ?_
  exact .ite (local_pkhDecoder.bind fun _ => .pure _) (.pure _)

theorem local_scriptDecoder : Local scriptDecoder := by
  refine (local_extractRequiredLen 4).bind fun _ => (local_extractRequiredLen 4).bind fun _ => ?_
  exact (Local.lift _).bind fun _ => (Local.lift _).bind fun _ => .pure _

theorem local_ballotDecoder : Local ballotDecoder :=
  local_consumeByte.bind fun _ => .ite (.pure _) (.ite (.pure _) (.ite (.pure _) (.fail _)))

theorem local_pvmKindDecoder : Local pvmKindDecoder :=
  local_consumeByte.bind fun _ => .ite (.pure _) (.ite (.pure _) (.fail _))

theorem local_intFieldDecoder (count : ℕ) : Local (intFieldDecoder count) :=
  (local_consume count).bind fun _ => .pure _

/-- The decoder of every field but proposals consumes what it reads. -/
theorem CODEC.local_decoder {c : CODEC} (hc : c ≠ .PROPOSAL_ARR) : Local (c.decoder lib) := by
  cases c with
  | PROPOSAL_ARR => exact absurd rfl hc
  | DELEGATE => exact local_delegateDecoder
  | PARAMETERS => exact local_parametersDecoder
  | BURN_LIMIT | DEPOSITS_LIMIT => exact local_limitDecoder
  | TX_ROLLUP_ORIGINATION_PARAM => exact .pure _
  | identifier codec => exact (local_identifierDecoder codec).map _
  | SECRET | RAW => exact ((local_consume _).bind fun _ => .pure _).map _
  | ZARITH => exact local_zarithDecoder.map _
  | SCRIPT => exact local_scriptDecoder.map _
  | BALLOT_STATEMENT => exact local_ballotDecoder.map _
  | PVM_KIND => exact local_pvmKindDecoder.map _
  | INT32 | INT16 => exact (local_intFieldDecoder _).map _
  | VALUE => exact ((local_extractRequiredLen 4).bind fun _ => .lift _).map _
  | PADDED_BYTES | TX_ROLLUP_BATCH_CONTENT =>
    exact ((local_extractRequiredLen 4).bind fun _ => .pure _).map _
  | SMART_ROLLUP_MESSAGE =>
    exact ((local_extractRequiredLen 4).bind fun _ => (Local.lift _).bind fun _ => .pure _).map _
  | ENTRYPOINT => exact ((local_extractRequiredLen 4).bind fun _ => .pure _).map _

theorem local_schemaDecoder {schema : Schema} (h : ∀ field ∈ schema, field.2 ≠ .PROPOSAL_ARR) :
    Local (schemaDecoder lib schema) := by
  induction schema with
  | nil => exact .pure ()
  | cons field schema ih =>
    refine (CODEC.local_decoder (h field List.mem_cons_self)).bind fun value => ?_
    exact (ih fun f hf => h f (List.mem_cons_of_mem _ hf)).bind fun values => .pure _

/-! ## What a decoder of operations reads -/

/-- An operation of proposals. -/
def OperationContents.isProposals : OperationContents → Bool
  | .known .proposals _ => true
  | _ => false

/-- Only proposals have a field that takes all that is left. -/
theorem schema_of_ne {kind : OperationKind} (h : kind ≠ .proposals) :
    ∀ field ∈ kind.schema, field.2 ≠ .PROPOSAL_ARR := by
  cases kind <;> first | exact absurd rfl h | decide

theorem rest_of_proposalsDecoder {b58 : Base58Check} {bs rest : Bytes} {proposals : List JSString}
    (h : proposalsDecoder b58 bs = .ok (proposals, rest)) : rest = [] := by
  obtain ⟨length, mid, -, h⟩ := bind_eq_ok.mp h
  obtain ⟨read, -, hread⟩ := Except.map_eq_ok.mp h
  exact (Prod.mk.inj hread).2.symm

/-- **What a decoder of operations reads**: proposals take all that is left, and any other operation
exactly its own octets, whatever follows. -/
theorem operationDecoder_eq_ok {bs rest : Bytes} {op : OperationContents}
    (h : operationDecoder lib bs = .ok (op, rest)) :
    (op.isProposals = true ∧ rest = []) ∨
      (op.isProposals = false ∧ ∃ used, used ≠ [] ∧ bs = used ++ rest ∧
        Reads (operationDecoder lib) used op) := by
  obtain ⟨tag, mid, htag, h⟩ := bind_eq_ok.mp h
  cases hkind : kindMapping.lookup tag with
  | none =>
    rw [hkind] at h
    cases h
  | some kind =>
    rw [hkind] at h
    obtain ⟨fields, mid', hfields, h⟩ := bind_eq_ok.mp h
    cases h
    by_cases hprop : kind = .proposals
    · subst hprop
      refine .inl ⟨rfl, ?_⟩
      obtain ⟨source, mid₁, -, hfields⟩ := bind_eq_ok.mp hfields
      obtain ⟨values, mid₂, hvalues, hfields⟩ := bind_eq_ok.mp hfields
      obtain ⟨-, rfl⟩ := Prod.mk.inj (Except.ok.inj hfields)
      obtain ⟨period, mid₃, -, hvalues⟩ := bind_eq_ok.mp hvalues
      obtain ⟨values', mid₄, hvalues', hvalues⟩ := bind_eq_ok.mp hvalues
      obtain ⟨-, rfl⟩ := Prod.mk.inj (Except.ok.inj hvalues)
      obtain ⟨proposals, mid₅, hproposals, hvalues'⟩ := bind_eq_ok.mp hvalues'
      obtain ⟨none', mid₆, hnone, hvalues'⟩ := bind_eq_ok.mp hvalues'
      obtain ⟨-, rfl⟩ := Prod.mk.inj (Except.ok.inj hnone)
      obtain ⟨-, rfl⟩ := Prod.mk.inj (Except.ok.inj hvalues')
      have hmap : (proposalsDecoder lib.b58 >>= fun l => pure (some l)) mid₃ =
          .ok (proposals, mid₅) := hproposals
      obtain ⟨list, mid₇, hlist, hmap⟩ := bind_eq_ok.mp hmap
      obtain ⟨-, rfl⟩ := Prod.mk.inj (Except.ok.inj hmap)
      exact rest_of_proposalsDecoder hlist
    · refine .inr ⟨?_, ?_⟩
      · cases kind <;> first | rfl | exact absurd rfl hprop
      · have hlocal : Local (schemaDecoder lib kind.schema) := by
          exact local_schemaDecoder (schema_of_ne hprop)
        obtain ⟨used, rfl, hread⟩ := hlocal _ _ _ hfields
        obtain rfl : bs = tag :: (used ++ rest) := by
          cases bs with
          | nil => cases htag
          | cons b bs =>
            cases htag
            rfl
        refine ⟨[tag] ++ used, List.cons_ne_nil _ _, rfl, ?_⟩
        refine (consumeByte_reads tag).bind ?_
        rw [hkind]
        exact hread.bind_pure (Reads.pure _)

/-- The operations that a loop reads, but the proposals at the end. -/
theorem readAll_operations {fuel : ℕ} : ∀ {us : Bytes} {as : List OperationContents},
    readAll (operationDecoder lib) .outOfFuel fuel us = .ok as →
      (ReadsMany (operationDecoder lib) us as ∧ ∀ op ∈ as, op.isProposals = false) ∨
        ∃ (us' vs : Bytes) (as' : List OperationContents) (op : OperationContents),
          us = us' ++ vs ∧ as = as' ++ [op] ∧ op.isProposals = true ∧ vs ≠ [] ∧
            ReadsMany (operationDecoder lib) us' as' := by
  induction fuel with
  | zero =>
    intro us as h
    cases us with
    | nil =>
      cases h
      exact .inl ⟨.nil, by simp⟩
    | cons b us => cases h
  | succ fuel ih =>
    intro us as h
    cases us with
    | nil =>
      cases h
      exact .inl ⟨.nil, by simp⟩
    | cons b us =>
      rw [readAll] at h
      obtain ⟨⟨op, rest⟩, hop, h⟩ := Except.bind_eq_ok.mp h
      obtain ⟨as', hrest, h⟩ := Except.bind_eq_ok.mp h
      cases h
      rcases operationDecoder_eq_ok hop with ⟨hprop, rfl⟩ | ⟨hprop, used, hne, hused, hread⟩
      · obtain rfl : as' = [] := by
          cases fuel <;> cases hrest <;> rfl
        exact .inr ⟨[], b :: us, [], op, rfl, rfl, hprop, List.cons_ne_nil _ _, .nil⟩
      · rw [hused]
        rcases ih hrest with ⟨hmany, hall⟩ | ⟨us', vs, as'', last, rfl, rfl, hlast, hvs, hmany⟩
        · exact .inl ⟨.cons hne hread hmany, List.forall_mem_cons.mpr ⟨hprop, hall⟩⟩
        · exact .inr ⟨used ++ us', vs, op :: as'', last, by rw [List.append_assoc], rfl, hlast, hvs,
            .cons hne hread hmany⟩

/-- **The octets of two groups laid end to end** are read as the operations of both, unless the
first ends with proposals and something follows. -/
theorem readAll_append_iff {us vs : Bytes} {as bs : List OperationContents}
    (hus : readAll (operationDecoder lib) .outOfFuel us.length us = .ok as)
    (hvs : readAll (operationDecoder lib) .outOfFuel vs.length vs = .ok bs) :
    readAll (operationDecoder lib) .outOfFuel (us ++ vs).length (us ++ vs) = .ok (as ++ bs) ↔
      bs = [] ∨ ∀ op ∈ as, op.isProposals = false := by
  have hempty : bs = [] ↔ vs = [] := by
    cases vs with
    | nil => exact iff_of_true (by cases hvs; rfl) rfl
    | cons v vs =>
      refine iff_of_false ?_ (List.cons_ne_nil _ _)
      rintro rfl
      rw [List.length_cons, readAll] at hvs
      obtain ⟨p, -, hvs⟩ := Except.bind_eq_ok.mp hvs
      obtain ⟨rest, -, hvs⟩ := Except.bind_eq_ok.mp hvs
      cases hvs
  rcases readAll_operations hus with ⟨hmany, hall⟩ |
    ⟨us', tail, as', op, rfl, rfl, hprop, htail, hmany⟩
  · refine iff_of_true ?_ (.inr hall)
    have hread := readAll_append ForgeError.outOfFuel hmany vs vs.length
    rw [hvs] at hread
    refine readAll_mono hread ?_
    rw [List.length_append]
    exact Nat.add_le_add_right hmany.length_le _
  · have hnot : ¬ ∀ a ∈ as' ++ [op], a.isProposals = false := by
      intro h
      rw [h op (by simp)] at hprop
      cases hprop
    rw [or_iff_left hnot, hempty]
    constructor
    · intro h
      by_contra hne
      have hread := readAll_append ForgeError.outOfFuel hmany (tail ++ vs)
        (us' ++ tail ++ vs).length
      rw [← List.append_assoc, readAll_mono h (by omega)] at hread
      obtain ⟨last, hlast, heq⟩ := Except.map_eq_ok.mp hread.symm
      rw [List.append_assoc] at heq
      obtain rfl := List.append_cancel_left heq
      -- the proposals take everything, so nothing is left for the second group
      obtain ⟨fuel, hfuel⟩ : ∃ n, (us' ++ tail ++ vs).length = n + 1 := by
        have := List.length_pos_of_ne_nil htail
        refine ⟨(us' ++ tail ++ vs).length - 1, ?_⟩
        simp only [List.length_append]
        omega
      obtain ⟨t, tail, rfl⟩ := List.exists_cons_of_ne_nil htail
      rw [hfuel, List.cons_append, readAll] at hlast
      obtain ⟨⟨op', rest⟩, hop, hlast⟩ := Except.bind_eq_ok.mp hlast
      obtain ⟨bs', hrest, hlast⟩ := Except.bind_eq_ok.mp hlast
      obtain ⟨rfl, rfl⟩ := List.cons.inj (Except.ok.inj hlast)
      rcases operationDecoder_eq_ok hop with ⟨-, rfl⟩ | ⟨hfalse, -⟩
      · have hnil : bs' = [] := by
          cases fuel <;> cases hrest <;> rfl
        exact hne (hempty.mp hnil)
      · rw [hfalse] at hprop
        cases hprop
    · rintro rfl
      obtain rfl : bs = [] := hempty.mpr rfl
      rw [List.append_nil, List.append_nil]
      exact hus

end LocalForging
