import Taquito.MichelCodec.Identifiers
import Taquito.Utils.Letters

/-!
# The validators and the identifiers of the codec

A validator of `validators.ts` looks at the letters of a text, `checkDecodeTezosID` at its octets.
What is valid is the text of a kind of the validator, which the codec recognises, exactly if it is
no `Impostor`: the letters of a prefix are also those of octets next to it.
-/

open Js Utils MichelCodec

namespace Agreement

/-- The validators. -/
inductive Validator where
  | address | keyHash | contractAddress | publicKey | signature | block | operation | protocol
  | chain
  deriving DecidableEq, Repr

/-- The function of a validator. -/
def Validator.validate (b58 : Base58Check) : Validator → JSString → ValidationResult
  | .address => validateAddress b58
  | .keyHash => validateKeyHash b58
  | .contractAddress => validateContractAddress b58
  | .publicKey => validatePublicKey b58
  | .signature => validateSignature b58
  | .block => validateBlock b58
  | .operation => validateOperation b58
  | .protocol => validateProtocol b58
  | .chain => validateChain b58

/-- The kinds that a validator lists. -/
def Validator.prefixes : Validator → List Prefix
  | .address => [.TZ1, .TZ2, .TZ3, .TZ4, .KT1, .TXR1]
  | .keyHash => [.TZ1, .TZ2, .TZ3, .TZ4]
  | .contractAddress => [.KT1, .TXR1]
  | .publicKey => [.EDPK, .SPPK, .P2PK, .BLPK]
  | .signature => [.EDSIG, .P2SIG, .SPSIG, .SIG]
  | .block => [.B]
  | .operation => [.O]
  | .protocol => [.P]
  | .chain => [.NET]

variable {b58 : Base58Check} {validator : Validator} {s : JSString}

theorem validate_eq (validator : Validator) (s : JSString) :
    validator.validate b58 s = validatePrefixedValue b58 s validator.prefixes := by
  cases validator <;> rfl

theorem apart_prefixes (validator : Validator) : Apart validator.prefixes := by
  cases validator <;> decide

/-- The kind of the codec with a prefix. -/
def codecKind : Prefix → Option TezosIDType
  | .TZ1 => some .ED25519PublicKeyHash
  | .TZ2 => some .SECP256K1PublicKeyHash
  | .TZ3 => some .P256PublicKeyHash
  | .TZ4 => some .TxRollupL2Address
  | .KT1 => some .ContractHash
  | .TXR1 => some .RollupAddress
  | .EDSIG => some .ED25519Signature
  | .SPSIG => some .SECP256K1Signature
  | .P2SIG => some .P256Signature
  | .SIG => some .GenericSignature
  | .EDPK => some .ED25519PublicKey
  | .SPPK => some .SECP256K1PublicKey
  | .P2PK => some .P256PublicKey
  | .NET => some .ChainID
  | .B => some .BlockHash
  | .O => some .OperationHash
  | .P => some .ProtocolHash
  | _ => none

/-- The kinds have one prefix and one length in both packages. -/
theorem tezosPrefix_codecKind {p : Prefix} {type : TezosIDType} (h : codecKind p = some type) :
    tezosPrefix type = (p.payload, p.bytes) := by
  cases p <;> cases h <;> rfl

/-- The text is that of a payload of the kind, and the codec recognises the kind, if it knows it. -/
structure IsOfKind (b58 : Base58Check) (p : Prefix) (id : JSString) : Prop where
  text : ∃ payload : Bytes, payload.length = p.payload ∧ id = b58.encode (p.bytes ++ payload)
  recognised : ∀ {type types}, codecKind p = some type → type ∈ types →
    ∃ payload, checkDecodeTezosID b58 id types = .ok (some (type, payload))

/-- What is valid is of a kind of the validator. -/
def ValidOfKind (b58 : Base58Check) (validator : Validator) (s : JSString) : Prop :=
  validator.validate b58 s = .VALID → ∃ p ∈ validator.prefixes, IsOfKind b58 p (withoutEntrypoint s)

/-- The text has the letters of a kind of the validator, and as many octets as a text of it, but
they do not begin with its prefix. -/
def Impostor (b58 : Base58Check) (validator : Validator) (s : JSString) : Prop :=
  ∃ p ∈ validator.prefixes, ∃ bs, ValidAs b58 s p bs ∧ ¬ p.bytes <+: bs

theorem isOfKind_of_prefix (hb : b58.Lawful) {p : Prefix} {bs : Bytes} (h : ValidAs b58 s p bs)
    (hbytes : p.bytes <+: bs) : IsOfKind b58 p (withoutEntrypoint s) := by
  obtain ⟨payload, rfl⟩ := hbytes
  have hlength := h.length
  rw [List.length_append, Nat.add_left_cancel_iff] at hlength
  refine ⟨⟨payload, hlength, (hb.encode_decode h.decoded).symm⟩, fun hkind hmem => ?_⟩
  have hprefix := tezosPrefix_codecKind hkind
  refine ⟨_, checkDecodeTezosID_of_mem h.decoded ?_ hmem⟩
  rw [Fits, hprefix]
  refine ⟨?_, List.take_left⟩
  rw [List.length_append, hlength, Nat.add_comm]

/-- **What is valid is of a kind of the validator, unless its letters deceive.** -/
theorem validOfKind_iff (hb : b58.Lawful) (hl : Lettered b58) :
    ValidOfKind b58 validator s ↔ ¬ Impostor b58 validator s := by
  rw [ValidOfKind, validate_eq, validatePrefixedValue_eq_valid (apart_prefixes validator)]
  constructor
  · rintro h ⟨p, hp, bs, hvalid, hbytes⟩
    obtain ⟨q, hq, ⟨payload, hlength, htext⟩, -⟩ := h ⟨p, hp, bs, hvalid⟩
    have hdecoded := hvalid.decoded
    rw [htext, hb.decode_encode] at hdecoded
    obtain rfl := Option.some.inj hdecoded
    -- the letters of both kinds begin the text, so they are one kind
    have hletters : q.text <+: s :=
      (htext ▸ hl q hlength).trans (List.takeWhile_prefix _)
    have hpq : p = q :=
      (List.prefix_or_prefix_of_prefix hvalid.letters hletters).elim
        (apart_prefixes validator p hp q hq)
        fun h => (apart_prefixes validator q hq p hp h).symm
    subst hpq
    exact hbytes (List.prefix_append _ _)
  · rintro himpostor ⟨p, hp, bs, hvalid⟩
    refine ⟨p, hp, isOfKind_of_prefix hb hvalid ?_⟩
    by_contra hbytes
    exact himpostor ⟨p, hp, bs, hvalid, hbytes⟩

/-! ## Two addresses -/

open Bs58check (bs58check lawful_bs58check)

theorem validOfKind_tz1 :
    ValidOfKind bs58check .address (js "tz1QZ6KY7d3BuZDT1d19dUxoQrtFPN2QJ3hn") := by
  refine (validOfKind_iff lawful_bs58check lettered_bs58check).mpr ?_
  rintro ⟨p, hp, bs, hvalid, hbytes⟩
  have hdecode : bs58check.decode (js "tz1QZ6KY7d3BuZDT1d19dUxoQrtFPN2QJ3hn") = some
      (Prefix.TZ1.bytes ++ bufferFromHex (js "35e993d8c7aaa42b5e3ccd86a33390ececc73abd")) := by
    decide +kernel
  obtain rfl := Option.some.inj (hdecode.symm.trans hvalid.decoded)
  have hletters := hvalid.letters
  simp only [Validator.prefixes, List.mem_cons, List.not_mem_nil, or_false] at hp
  obtain rfl | rfl | rfl | rfl | rfl | rfl := hp
  · exact hbytes (List.prefix_append _ _)
  all_goals exact absurd hletters (by decide)

/-- The octets after those of the first kind of implicit accounts have its letters too. -/
theorem not_validOfKind_tz1 :
    ¬ ValidOfKind bs58check .address (js "tz1iydgEAWLmDA7qqDXwPsXEJRXWa9WHdaLR") := by
  intro h
  have hvalid : Validator.address.validate bs58check
      (js "tz1iydgEAWLmDA7qqDXwPsXEJRXWa9WHdaLR") = .VALID := by
    decide +kernel
  have hdecode : bs58check.decode (js "tz1iydgEAWLmDA7qqDXwPsXEJRXWa9WHdaLR") = some
      ([6, 161, 160] ++ List.replicate 20 0) := by
    decide +kernel
  obtain ⟨p, hp, ⟨payload, -, htext⟩, -⟩ := h hvalid
  have hwhole : withoutEntrypoint (js "tz1iydgEAWLmDA7qqDXwPsXEJRXWa9WHdaLR") =
      js "tz1iydgEAWLmDA7qqDXwPsXEJRXWa9WHdaLR" := by
    decide
  have hbytes : p.bytes ++ payload = [6, 161, 160] ++ List.replicate 20 0 := by
    apply Option.some.inj
    rw [← hdecode, ← hwhole, htext, lawful_bs58check.decode_encode]
  have hbegin : p.bytes <+: [6, 161, 160] ++ List.replicate 20 0 := ⟨payload, hbytes⟩
  simp only [Validator.prefixes, List.mem_cons, List.not_mem_nil, or_false] at hp
  obtain rfl | rfl | rfl | rfl | rfl | rfl := hp <;> exact absurd hbegin (by decide)

end Agreement
