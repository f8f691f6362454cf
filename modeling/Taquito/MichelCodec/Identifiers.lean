import Taquito.MichelCodec.Utils

/-!
# Identifiers of the codec

`checkDecodeTezosID` compares the octets of an identifier with the prefixes of the kinds asked for.
No two kinds share octets, so the kind that is found does not depend on the order of the list
(`checkDecodeTezosID_of_mem`).
-/

open Js

namespace MichelCodec

/-- Two octets or more are read as they are. -/
theorem decodeBase58Check_eq_ok {b58 : Base58Check} {src : JSString} {bs : Bytes}
    (h : b58.decode src = some bs) (hlength : 2 ≤ bs.length) :
    decodeBase58Check b58 src = .ok (bs.map some) := by
  rw [decodeBase58Check, h]
  match bs, hlength with
  | _ :: _ :: _, _ => rfl

/-- What is recognised: the first kind of the length, with its prefix. -/
theorem matchTezosID_map (bs : Bytes) (types : List TezosIDType) :
    matchTezosID (bs.map some) types
      = (types.find? fun t => bs.length = (tezosPrefix t).1 + (tezosPrefix t).2.length ∧
          bs.take (tezosPrefix t).2.length = (tezosPrefix t).2).map fun t =>
        (t, bs.drop (tezosPrefix t).2.length) := by
  induction types with
  | nil => rfl
  | cons t types ih =>
    rw [matchTezosID, List.find?_cons]
    have hcond : ((bs.map some).length = (tezosPrefix t).1 + (tezosPrefix t).2.length ∧
        (bs.map some).take (tezosPrefix t).2.length = (tezosPrefix t).2.map some)
        ↔ (bs.length = (tezosPrefix t).1 + (tezosPrefix t).2.length ∧
          bs.take (tezosPrefix t).2.length = (tezosPrefix t).2) := by
      rw [List.length_map, ← List.map_take,
        (List.map_injective_iff.mpr (Option.some_injective _)).eq_iff]
    dsimp only
    by_cases h : bs.length = (tezosPrefix t).1 + (tezosPrefix t).2.length ∧
        bs.take (tezosPrefix t).2.length = (tezosPrefix t).2
    · rw [if_pos (hcond.mpr h), decide_eq_true h]
      show _ = some _
      rw [← List.map_drop, List.filterMap_map]
      exact congrArg (fun l => some (t, l)) List.filterMap_some
    · rw [if_neg (hcond.not.mpr h), decide_eq_false h, ih]

/-- The octets are those of the kind. -/
def Fits (bs : Bytes) (type : TezosIDType) : Prop :=
  bs.length = (tezosPrefix type).1 + (tezosPrefix type).2.length ∧
    bs.take (tezosPrefix type).2.length = (tezosPrefix type).2

instance fitsDecidable (bs : Bytes) (type : TezosIDType) : Decidable (Fits bs type) :=
  inferInstanceAs (Decidable (_ ∧ _))

/-- No kind has the length and the beginning of another one. -/
theorem eq_of_fits {bs : Bytes} {type type' : TezosIDType} (h : Fits bs type)
    (h' : Fits bs type') : type = type' := by
  have hlength : (tezosPrefix type).1 + (tezosPrefix type).2.length =
      (tezosPrefix type').1 + (tezosPrefix type').2.length := h.1.symm.trans h'.1
  have hprefix : (tezosPrefix type).2 <+: (tezosPrefix type').2 ∨
      (tezosPrefix type').2 <+: (tezosPrefix type).2 :=
    List.prefix_or_prefix_of_prefix (h.2 ▸ List.take_prefix _ _) (h'.2 ▸ List.take_prefix _ _)
  revert hlength hprefix
  cases type <;> cases type' <;> decide

/-- **An identifier is recognised as its kind, whichever others are asked for.** -/
theorem checkDecodeTezosID_of_mem {b58 : Base58Check} {id : JSString} {bs : Bytes}
    {type : TezosIDType} {types : List TezosIDType} (hdecode : b58.decode id = some bs)
    (hfits : Fits bs type) (hmem : type ∈ types) :
    checkDecodeTezosID b58 id types =
      .ok (some (type, bs.drop (tezosPrefix type).2.length)) := by
  have hlength : 2 ≤ bs.length := by
    have hkind : 2 ≤ (tezosPrefix type).1 + (tezosPrefix type).2.length := by
      cases type <;> decide
    rw [hfits.1]
    exact hkind
  have hfind : (types.find? fun t => bs.length = (tezosPrefix t).1 + (tezosPrefix t).2.length ∧
      bs.take (tezosPrefix t).2.length = (tezosPrefix t).2) = some type := by
    have hsome : (types.find? fun t => Fits bs t).isSome = true :=
      List.find?_isSome.mpr ⟨type, hmem, decide_eq_true hfits⟩
    obtain ⟨type', htype'⟩ := Option.isSome_iff_exists.mp hsome
    have hholds := List.find?_some htype'
    rw [← eq_of_fits (of_decide_eq_true hholds) hfits]
    exact htype'
  rw [checkDecodeTezosID, decodeBase58Check_eq_ok hdecode hlength]
  show Except.ok (matchTezosID (bs.map some) types) = _
  rw [matchTezosID_map, hfind]
  rfl

end MichelCodec
