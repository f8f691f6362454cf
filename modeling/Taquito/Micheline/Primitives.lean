import Taquito.Lib.Sorting
import Taquito.Micheline.Expr

/-!
# Primitive codes

The two tables of Micheline primitives of the repository: `opMapping`, keyed by the hexadecimal text
of the code, in the forger, and `primitives`, where the position is the code, in `michel-codec`.
They are transcribed separately and agree: `opMapping_hexByte` and `opMappingReverse_eq` reduce
every lookup in the first to one in the second.
-/

open Js

namespace Micheline

/-- `LAMBDA` and `LAMBDA_REC`. -/
def isLambda (p : String) : Bool := p == "LAMBDA" || p == "LAMBDA_REC"

/-- `pair` and `Pair`. -/
def isPair (p : String) : Bool := p == "pair" || p == "Pair"

end Micheline

namespace MichelCodec

/-- The order is important: the position represents the encoding value. -/
def primitives : List String := [
  "parameter", "storage", "code", "False", "Elt", "Left", "None", "Pair", "Right", "Some", "True",
  "Unit", "PACK", "UNPACK", "BLAKE2B", "SHA256", "SHA512", "ABS", "ADD", "AMOUNT", "AND",
  "BALANCE", "CAR", "CDR", "CHECK_SIGNATURE", "COMPARE", "CONCAT", "CONS", "CREATE_ACCOUNT",
  "CREATE_CONTRACT", "IMPLICIT_ACCOUNT", "DIP", "DROP", "DUP", "EDIV", "EMPTY_MAP", "EMPTY_SET",
  "EQ", "EXEC", "FAILWITH", "GE", "GET", "GT", "HASH_KEY", "IF", "IF_CONS", "IF_LEFT", "IF_NONE",
  "INT", "LAMBDA", "LE", "LEFT", "LOOP", "LSL", "LSR", "LT", "MAP", "MEM", "MUL", "NEG", "NEQ",
  "NIL", "NONE", "NOT", "NOW", "OR", "PAIR", "PUSH", "RIGHT", "SIZE", "SOME", "SOURCE", "SENDER",
  "SELF", "STEPS_TO_QUOTA", "SUB", "SWAP", "TRANSFER_TOKENS", "SET_DELEGATE", "UNIT", "UPDATE",
  "XOR", "ITER", "LOOP_LEFT", "ADDRESS", "CONTRACT", "ISNAT", "CAST", "RENAME", "bool", "contract",
  "int", "key", "key_hash", "lambda", "list", "map", "big_map", "nat", "option", "or", "pair",
  "set", "signature", "string", "bytes", "mutez", "timestamp", "unit", "operation", "address",
  "SLICE", "DIG", "DUG", "EMPTY_BIG_MAP", "APPLY", "chain_id", "CHAIN_ID", "LEVEL", "SELF_ADDRESS",
  "never", "NEVER", "UNPAIR", "VOTING_POWER", "TOTAL_VOTING_POWER", "KECCAK", "SHA3",
  "PAIRING_CHECK", "bls12_381_g1", "bls12_381_g2", "bls12_381_fr", "sapling_state",
  "sapling_transaction_deprecated", "SAPLING_EMPTY_STATE", "SAPLING_VERIFY_UPDATE", "ticket",
  "TICKET_DEPRECATED", "READ_TICKET", "SPLIT_TICKET", "JOIN_TICKETS", "GET_AND_UPDATE", "chest",
  "chest_key", "OPEN_CHEST", "VIEW", "view", "constant", "SUB_MUTEZ", "tx_rollup_l2_address",
  "MIN_BLOCK_TIME", "sapling_transaction", "EMIT", "Lambda_rec", "LAMBDA_REC", "TICKET", "BYTES",
  "NAT"]

/-- `primTags`: the code of a primitive. -/
def primTags (p : String) : Option ℕ := (primitives.zipIdx.find? (·.1 == p)).map (·.2)

theorem primitives_length : primitives.length = 157 := by
  rw [primitives]
  simp only [List.length_cons, List.length_nil]

theorem primTags_eq_some {p : String} {i : ℕ} (h : primTags p = some i) :
    primitives[i]? = some p := by
  obtain ⟨⟨q, j⟩, hf, rfl⟩ := Option.map_eq_some_iff.mp h
  obtain rfl : q = p := by simpa using List.find?_some hf
  simpa using List.mem_zipIdx_iff_getElem?.mp (List.mem_of_find?_eq_some hf)

theorem primTags_lt {p : String} {i : ℕ} (h : primTags p = some i) : i < 157 := by
  have := (List.getElem?_eq_some_iff.mp (primTags_eq_some h)).1
  rwa [primitives_length] at this

/-- A number that tells names apart, cheaper to compare than the names. -/
private def nameKey (p : String) : ℕ :=
  p.toByteArray.data.toList.foldl (fun acc b => acc * 128 + b.toNat) 0 % 50021

/-- No name stands for two codes. -/
theorem primitives_nodup : primitives.Nodup := by
  have hfresh : Sorting.freshBits (primitives.map nameKey) 0 = true := by decide +kernel
  exact List.Nodup.of_map nameKey (Sorting.nodup_of_freshBits hfresh).1

theorem primTags_getElem {p : String} {i : ℕ} (h : primitives[i]? = some p) :
    primTags p = some i := by
  have hmem : (p, i) ∈ primitives.zipIdx := List.mem_zipIdx_iff_getElem?.mpr h
  have hsome : (primitives.zipIdx.find? (·.1 == p)).isSome = true :=
    List.find?_isSome.mpr ⟨_, hmem, by simp⟩
  obtain ⟨⟨q, j⟩, hf⟩ := Option.isSome_iff_exists.mp hsome
  have htag : primTags p = some j := by rw [primTags, hf]; rfl
  have hj := primTags_eq_some htag
  have hlt := (List.getElem?_eq_some_iff.mp h).1
  rw [htag, Option.some.injEq]
  exact ((List.getElem?_inj hlt primitives_nodup).mp (h.trans hj.symm)).symm

theorem primTags_iff {p : String} {i : ℕ} : primTags p = some i ↔ primitives[i]? = some p :=
  ⟨primTags_eq_some, primTags_getElem⟩

end MichelCodec

namespace LocalForging

/-- The primitives of the binary format by the hexadecimal text of their code. -/
def opMapping : List (String × String) := [
  ("00", "parameter"), ("01", "storage"), ("02", "code"), ("03", "False"), ("04", "Elt"),
  ("05", "Left"), ("06", "None"), ("07", "Pair"), ("08", "Right"), ("09", "Some"), ("0a", "True"),
  ("0b", "Unit"), ("0c", "PACK"), ("0d", "UNPACK"), ("0e", "BLAKE2B"), ("0f", "SHA256"),
  ("10", "SHA512"), ("11", "ABS"), ("12", "ADD"), ("13", "AMOUNT"), ("14", "AND"),
  ("15", "BALANCE"), ("16", "CAR"), ("17", "CDR"), ("18", "CHECK_SIGNATURE"), ("19", "COMPARE"),
  ("1a", "CONCAT"), ("1b", "CONS"), ("1c", "CREATE_ACCOUNT"), ("1d", "CREATE_CONTRACT"),
  ("1e", "IMPLICIT_ACCOUNT"), ("1f", "DIP"), ("20", "DROP"), ("21", "DUP"), ("22", "EDIV"),
  ("23", "EMPTY_MAP"), ("24", "EMPTY_SET"), ("25", "EQ"), ("26", "EXEC"), ("27", "FAILWITH"),
  ("28", "GE"), ("29", "GET"), ("2a", "GT"), ("2b", "HASH_KEY"), ("2c", "IF"), ("2d", "IF_CONS"),
  ("2e", "IF_LEFT"), ("2f", "IF_NONE"), ("30", "INT"), ("31", "LAMBDA"), ("32", "LE"),
  ("33", "LEFT"), ("34", "LOOP"), ("35", "LSL"), ("36", "LSR"), ("37", "LT"), ("38", "MAP"),
  ("39", "MEM"), ("3a", "MUL"), ("3b", "NEG"), ("3c", "NEQ"), ("3d", "NIL"), ("3e", "NONE"),
  ("3f", "NOT"), ("40", "NOW"), ("41", "OR"), ("42", "PAIR"), ("43", "PUSH"), ("44", "RIGHT"),
  ("45", "SIZE"), ("46", "SOME"), ("47", "SOURCE"), ("48", "SENDER"), ("49", "SELF"),
  ("4a", "STEPS_TO_QUOTA"), ("4b", "SUB"), ("4c", "SWAP"), ("4d", "TRANSFER_TOKENS"),
  ("4e", "SET_DELEGATE"), ("4f", "UNIT"), ("50", "UPDATE"), ("51", "XOR"), ("52", "ITER"),
  ("53", "LOOP_LEFT"), ("54", "ADDRESS"), ("55", "CONTRACT"), ("56", "ISNAT"), ("57", "CAST"),
  ("58", "RENAME"), ("59", "bool"), ("5a", "contract"), ("5b", "int"), ("5c", "key"),
  ("5d", "key_hash"), ("5e", "lambda"), ("5f", "list"), ("60", "map"), ("61", "big_map"),
  ("62", "nat"), ("63", "option"), ("64", "or"), ("65", "pair"), ("66", "set"),
  ("67", "signature"), ("68", "string"), ("69", "bytes"), ("6a", "mutez"), ("6b", "timestamp"),
  ("6c", "unit"), ("6d", "operation"), ("6e", "address"), ("6f", "SLICE"), ("70", "DIG"),
  ("71", "DUG"), ("72", "EMPTY_BIG_MAP"), ("73", "APPLY"), ("74", "chain_id"), ("75", "CHAIN_ID"),
  ("76", "LEVEL"), ("77", "SELF_ADDRESS"), ("78", "never"), ("79", "NEVER"), ("7a", "UNPAIR"),
  ("7b", "VOTING_POWER"), ("7c", "TOTAL_VOTING_POWER"), ("7d", "KECCAK"), ("7e", "SHA3"),
  ("7f", "PAIRING_CHECK"), ("80", "bls12_381_g1"), ("81", "bls12_381_g2"), ("82", "bls12_381_fr"),
  ("83", "sapling_state"), ("84", "sapling_transaction_deprecated"), ("85", "SAPLING_EMPTY_STATE"),
  ("86", "SAPLING_VERIFY_UPDATE"), ("87", "ticket"), ("88", "TICKET_DEPRECATED"),
  ("89", "READ_TICKET"), ("8a", "SPLIT_TICKET"), ("8b", "JOIN_TICKETS"), ("8c", "GET_AND_UPDATE"),
  ("8d", "chest"), ("8e", "chest_key"), ("8f", "OPEN_CHEST"), ("90", "VIEW"), ("91", "view"),
  ("92", "constant"), ("93", "SUB_MUTEZ"), ("94", "tx_rollup_l2_address"),
  ("95", "MIN_BLOCK_TIME"), ("96", "sapling_transaction"), ("97", "EMIT"), ("98", "Lambda_rec"),
  ("99", "LAMBDA_REC"), ("9a", "TICKET"), ("9b", "BYTES"), ("9c", "NAT")]

/-- `opMapping[op]`. -/
def opMappingGet (op : JSString) : Option String := (opMapping.find? (js ·.1 == op)).map (·.2)

/-- `opMappingReverse[prim]`. -/
def opMappingReverse (p : String) : Option JSString := (opMapping.find? (·.2 == p)).map (js ·.1)

private theorem opMapping_eq :
    opMapping.map (fun e => (js e.1, e.2)) =
      MichelCodec.primitives.zipIdx.map fun e => (hexByte (UInt8.ofNat e.2), e.1) := by
  rfl

private theorem hexByte_injective {b c : UInt8} (h : hexByte b = hexByte c) : b = c := by
  have := toHex_injective (show toHex [b] = toHex [c] by simpa [toHex] using h)
  simpa using this

private theorem find?_zipIdx (l : List String) (k : ℕ) (hk : k + l.length ≤ 256) (b : UInt8)
    (hb : k ≤ b.toNat) :
    (((l.zipIdx k).map fun e => (hexByte (UInt8.ofNat e.2), e.1)).find? (·.1 == hexByte b)).map
      (·.2) = l[b.toNat - k]? := by
  induction l generalizing k with
  | nil => simp
  | cons p l ih =>
    rw [List.length_cons] at hk
    have hkb : (UInt8.ofNat k).toNat = k := by simp; omega
    rw [List.zipIdx_cons, List.map_cons, List.find?_cons]
    by_cases he : k = b.toNat
    · simp [he]
    · have hne : (hexByte (UInt8.ofNat k) == hexByte b) = false := by
        rw [beq_eq_false_iff_ne]
        exact fun h => he (by rw [← hkb, hexByte_injective h])
      rw [hne, ih (k + 1) (by omega) (by omega), show b.toNat - k = b.toNat - (k + 1) + 1 by omega,
        List.getElem?_cons_succ]

/-- The forger reads the same name off a code. -/
theorem opMappingGet_hexByte (b : UInt8) :
    opMappingGet (hexByte b) = MichelCodec.primitives[b.toNat]? := by
  have h : opMappingGet (hexByte b) =
      ((opMapping.map fun e => (js e.1, e.2)).find? (·.1 == hexByte b)).map (·.2) := by
    simp [opMappingGet, List.find?_map, Function.comp_def]
  rw [h, opMapping_eq]
  exact find?_zipIdx _ 0 (by rw [MichelCodec.primitives_length]; omega) b (Nat.zero_le _)

/-- The forger writes the same code for a name. -/
theorem opMappingReverse_eq (p : String) :
    opMappingReverse p = (MichelCodec.primTags p).map fun i => hexByte (UInt8.ofNat i) := by
  have h : opMappingReverse p =
      ((opMapping.map fun e => (js e.1, e.2)).find? (·.2 == p)).map (·.1) := by
    simp [opMappingReverse, List.find?_map, Function.comp_def]
  rw [h, opMapping_eq, MichelCodec.primTags, List.find?_map]
  simp [Function.comp_def]

end LocalForging
