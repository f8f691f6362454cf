import Taquito.Js.Text

/-!
# Base58check

The `bs58check` library is not part of the repository. Its two functions are parameters;
`Base58Check.Lawful` says that they are mutually inverse.
-/

open Js

/-- The library. -/
structure Base58Check where
  /-- `bs58check.encode`. -/
  encode : Bytes → JSString
  /-- `bs58check.decode`; `none` where it throws. -/
  decode : JSString → Option Bytes

/-- Encoding and decoding are mutually inverse. -/
structure Base58Check.Lawful (b58 : Base58Check) : Prop where
  decode_encode : ∀ bs, b58.decode (b58.encode bs) = some bs
  encode_decode : ∀ {s bs}, b58.decode s = some bs → b58.encode bs = s

/-- What is decoded consists of letters and digits. -/
def Base58Check.Alphanumeric (b58 : Base58Check) : Prop :=
  ∀ {s bs}, b58.decode s = some bs → ∀ c ∈ s, (digitValue c).isSome

/-- A library that writes hexadecimal text. -/
def Base58Check.hex : Base58Check where
  encode := toHex
  decode s := if toHex (bufferFromHex s) = s then some (bufferFromHex s) else none

theorem Base58Check.lawful_hex : Base58Check.hex.Lawful where
  decode_encode bs := by simp [Base58Check.hex]
  encode_decode := by
    intro s bs h
    simp only [Base58Check.hex, Option.ite_none_right_eq_some, Option.some.injEq] at h ⊢
    obtain ⟨hs, rfl⟩ := h
    exact hs

theorem Base58Check.alphanumeric_hex : Base58Check.hex.Alphanumeric := by
  intro s bs h c hc
  simp only [Base58Check.hex, Option.ite_none_right_eq_some] at h
  obtain ⟨hs, -⟩ := h
  rw [← hs] at hc
  have hdigit := isLowerHexDigit_of_mem_toHex hc
  simp only [isLowerHexDigit, Bool.or_eq_true, Bool.and_eq_true, decide_eq_true_eq] at hdigit
  rw [digitValue]
  by_cases hnumeral : 48 ≤ c.toNat ∧ c.toNat ≤ 57
  · rw [if_pos hnumeral]
    rfl
  · rw [if_neg hnumeral, if_pos (by omega)]
    rfl
