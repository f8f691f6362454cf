import Taquito.LocalForging.MichelsonDecoding
import Taquito.MichelCodec.Decoding

/-!
# The two Micheline decoders

`valueDecoder` of the forger and `readExpr` below untyped `unpackData` both follow the strict reader
of the format, so they agree on every input that reader decides. What it leaves open are the
redundancies of the format: there the decoders take different paths.
-/

open Js Micheline Reader LocalForging MichelCodec

namespace Agreement

/-- The strict reader decides the input: it meets no `PUSH`, and none of the redundancies of the
format that only one of the decoders accepts, or that they read differently. -/
def Decided (bs : Bytes) : Prop := readNode true (bs.length + 1) bs ≠ .error .irregular

instance (bs : Bytes) : Decidable (Decided bs) :=
  match h : readNode true (bs.length + 1) bs with
  | .error .irregular => isFalse fun hn => hn h
  | .error .reject => isTrue (by simp [Decided, h])
  | .error .outOfFuel => isTrue (by simp [Decided, h])
  | .ok _ => isTrue (by simp [Decided, h])

/-- The decoder of `unpackData` without a type, on what follows the octet `05`. -/
def unpackExpr (host : Host) (bs : Bytes) : Except MichelError (Expr × Bytes) :=
  readExpr host (bs.length + 1) .passThrough bs

theorem unpackData_untyped (host : Host) (bs : Bytes) :
    unpackData host (5 :: bs) none = (do
      let (ex, _) ← unpackExpr host bs
      assertMichelsonData ex
      return ex) := rfl

/-- Both decoders throw, or both return the same expression and leave the same octets. -/
def DecodersAgree (host : Host) (bs : Bytes) : Prop :=
  (∃ e e', valueDecode bs = .error e ∧ unpackExpr host bs = .error e' ∧
      e ≠ .outOfFuel ∧ e' ≠ .outOfFuel) ∨
    ∃ e e' rest, valueDecode bs = .ok (e, rest) ∧ unpackExpr host bs = .ok (e', rest) ∧
      e.norm = e'.norm

/-- **Where the two decoders agree.** -/
theorem decodersAgree (host : Host) {bs : Bytes} (h : Decided bs) : DecodersAgree host bs := by
  have hforger := follows_readNode true (bs.length + 1) bs
  have hcodec := follows_readExpr host (bs.length + 1) bs
  cases hread : readNode true (bs.length + 1) bs with
  | ok p =>
    obtain ⟨n, rest⟩ := p
    obtain ⟨e, he, hn⟩ := hforger.1 n rest hread
    obtain ⟨e', he', hn'⟩ := hcodec.1 n rest hread
    exact .inr ⟨e, e', rest, he, he', hn.trans hn'.symm⟩
  | error err =>
    have hreject : Strict err := by
      cases err with
      | reject => rfl
      | irregular => exact absurd hread h
      | outOfFuel => exact absurd hread (readNode_ne_outOfFuel (Nat.lt_succ_self _))
    obtain ⟨e, he, hthrown⟩ := hforger.2 err hread hreject
    obtain ⟨e', he', hthrown'⟩ := hcodec.2 err hread hreject
    exact .inl ⟨e, e', he, he', hthrown, hthrown'⟩

/-- A sequence of a pair of three, with the rest of an input behind it. -/
theorem decodersAgree_comb : Decided (bufferFromHex (js "020000001209070000000600010002000300000000ff")) ∧
    DecodersAgree .plain (bufferFromHex (js "020000001209070000000600010002000300000000ff")) :=
  ⟨by decide, decodersAgree .plain (by decide)⟩

/-- The forger reads the tag `0b`, which does not exist, as that of a primitive with four
arguments. -/
theorem decodersAgree_unknownTag :
    (valueDecode (bufferFromHex (js "0b4f030b030b030b030b"))).isOk = true ∧
    unpackExpr .plain (bufferFromHex (js "0b4f030b030b030b030b")) =
      .error (.error (js "Unknown tag: 11")) ∧
    ¬ DecodersAgree .plain (bufferFromHex (js "0b4f030b030b030b030b")) := by
  have hforger : (valueDecode (bufferFromHex (js "0b4f030b030b030b030b"))).isOk = true := by
    decide +kernel
  have hcodec : unpackExpr .plain (bufferFromHex (js "0b4f030b030b030b030b")) =
      .error (.error (js "Unknown tag: 11")) := rfl
  refine ⟨hforger, hcodec, ?_⟩
  rintro (⟨e, e', he, -⟩ | ⟨e, e', rest, -, he', -⟩)
  · rw [he] at hforger
    cases hforger
  · rw [hcodec] at he'
    cases he'

end Agreement
