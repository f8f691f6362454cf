import Taquito.Host.Bs58check
import Taquito.MichelCodec.Identifiers

/-!
# Base58 in `michel-codec`

The wrappers spread the decoded octets into `new Array(...)`. With one argument that is the length
of an array of holes, and with any other number of arguments they are its members. So a single octet
is lost, whatever it is (`base58_iff`).
-/

open Js Bs58check

namespace MichelCodec

/-- `basex(BASE58)`. -/
structure BaseX where
  encode : Bytes → JSString
  /-- `decode`; `none` where it throws. -/
  decode : JSString → Option Bytes

/-- What is encoded is decoded. -/
def BaseX.Lawful (bs58 : BaseX) : Prop := ∀ bs, bs58.decode (bs58.encode bs) = some bs

/-- The library with the letters of Base58. -/
def base58 : BaseX := ⟨encode58, decode58⟩

theorem lawful_base58 : base58.Lawful := decode58_encode58

section wrappers

variable (bs58 : BaseX) (b58 : Base58Check)

/-- `new Array(...decoded)`; a hole is `none`. -/
def newArray : Bytes → List (Option UInt8)
  | [b] => List.replicate b.toNat none
  | bs => bs.map some

/-- `decodeBase58`. -/
def decodeBase58 (src : JSString) : Except MichelError (List (Option UInt8)) :=
  match bs58.decode src with
  | none => .error .base58DecodingError
  | some decoded => .ok (newArray decoded)

/-- `encodeBase58`. -/
def encodeBase58 (src : Bytes) : JSString := bs58.encode src

/-- `encodeBase58Check`. -/
def encodeBase58Check (src : Bytes) : JSString := b58.encode src

end wrappers

variable {bs58 : BaseX} {b58 : Base58Check}

/-- **An array of octets** is made of all octets but a single one. -/
theorem newArray_eq_iff (bs : Bytes) : newArray bs = bs.map some ↔ bs.length ≠ 1 := by
  match bs with
  | [] => exact iff_of_true rfl (by decide)
  | [b] =>
    refine iff_of_false (fun h => ?_) (fun h => h rfl)
    have hmem : some b ∈ List.replicate b.toNat (none : Option UInt8) := by
      have hnew : List.replicate b.toNat none = [some b] := h
      rw [hnew]
      exact List.mem_singleton.mpr rfl
    cases List.eq_of_mem_replicate hmem
  | b :: c :: bs =>
    refine iff_of_true rfl ?_
    rw [List.length_cons, List.length_cons]
    omega

theorem decodeBase58Check_eq (src : JSString) : decodeBase58Check b58 src =
    (b58.decode src).elim (.error .base58DecodingError) fun decoded => .ok (newArray decoded) := by
  rw [decodeBase58Check]
  cases b58.decode src with
  | none => rfl
  | some decoded =>
    rcases decoded with _ | ⟨b, _ | ⟨c, bs⟩⟩
    · rfl
    · rfl
    · rfl

/-- **Octets come back** from both encodings unless there is one of them only, and what is decoded
of any text are its octets unless there is one of them only. -/
theorem base58_iff (hbs58 : bs58.Lawful) (hb58 : b58.Lawful) (bs : Bytes) (src : JSString) :
    (decodeBase58 bs58 (encodeBase58 bs58 bs) = .ok (bs.map some) ↔ bs.length ≠ 1) ∧
      (decodeBase58Check b58 (encodeBase58Check b58 bs) = .ok (bs.map some) ↔ bs.length ≠ 1) ∧
      ((decodeBase58Check b58 src = .error .base58DecodingError ∨
          ∃ decoded, b58.decode src = some decoded ∧
            decodeBase58Check b58 src = .ok (decoded.map some)) ↔
        ∀ b, b58.decode src ≠ some [b]) := by
  refine ⟨?_, ?_, ?_⟩
  · rw [decodeBase58, encodeBase58, hbs58 bs, Except.ok.injEq]
    exact newArray_eq_iff bs
  · rw [decodeBase58Check_eq, encodeBase58Check, hb58.decode_encode bs, Option.elim_some,
      Except.ok.injEq]
    exact newArray_eq_iff bs
  · rw [decodeBase58Check_eq]
    cases h : b58.decode src with
    | none => exact iff_of_true (.inl rfl) fun b h => by cases h
    | some decoded =>
      have hsingle : (∀ b, some decoded ≠ some [b]) ↔ decoded.length ≠ 1 := by
        rw [← not_iff_not, not_not, List.length_eq_one_iff]
        push Not
        exact exists_congr fun b => Option.some_inj
      rw [hsingle, ← newArray_eq_iff]
      constructor
      · rintro (h | ⟨_, hdecoded, h⟩)
        · cases h
        · obtain rfl := Option.some.inj hdecoded
          exact Except.ok.inj h
      · exact fun h => .inr ⟨decoded, rfl, congrArg Except.ok h⟩

theorem base58_iff_empty :
    (decodeBase58 base58 (encodeBase58 base58 []) = .ok ([].map some) ↔
        ([] : Bytes).length ≠ 1) ∧
      (decodeBase58Check bs58check (encodeBase58Check bs58check []) = .ok ([].map some) ↔
        ([] : Bytes).length ≠ 1) ∧
      ((decodeBase58Check bs58check (js "0") = .error .base58DecodingError ∨
          ∃ decoded, bs58check.decode (js "0") = some decoded ∧
            decodeBase58Check bs58check (js "0") = .ok (decoded.map some)) ↔
        ∀ b, bs58check.decode (js "0") ≠ some [b]) :=
  base58_iff lawful_base58 lawful_bs58check [] (js "0")

/-- A single octet 3 comes back as three holes. -/
theorem not_base58 : ¬∀ (bs58 : BaseX) (b58 : Base58Check), bs58.Lawful → b58.Lawful →
    ∀ bs : Bytes, decodeBase58 bs58 (encodeBase58 bs58 bs) = .ok (bs.map some) := by
  intro h
  have hthree := h base58 bs58check lawful_base58 lawful_bs58check [3]
  have hdecoded : decodeBase58 base58 (encodeBase58 base58 [3]) = .ok [none, none, none] := by
    rw [decodeBase58, encodeBase58, lawful_base58 [3]]
    rfl
  cases hdecoded.symm.trans hthree

end MichelCodec
