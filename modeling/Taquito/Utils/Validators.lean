import Taquito.Host.Base58

/-!
# Validators

`validators.ts`: a value is valid if it is a text with one of the expected prefixes that decodes to
a payload of the length of that prefix. An entrypoint behind `%` is not looked at.
-/

open Js

namespace Utils

/-- The prefixes that the validators below expect. -/
inductive Prefix where
  | TZ1 | TZ2 | TZ3 | TZ4 | KT1 | TXR1
  | EDSIG | P2SIG | SPSIG | SIG
  | EDPK | SPPK | P2PK | BLPK
  | NET
  | B | O | P | VH
  | SR1 | SRC1
  deriving DecidableEq, Repr

/-- The text of a prefix. -/
def Prefix.text : Prefix → JSString
  | .TZ1 => js "tz1"
  | .TZ2 => js "tz2"
  | .TZ3 => js "tz3"
  | .TZ4 => js "tz4"
  | .KT1 => js "KT1"
  | .TXR1 => js "txr1"
  | .EDSIG => js "edsig"
  | .P2SIG => js "p2sig"
  | .SPSIG => js "spsig"
  | .SIG => js "sig"
  | .EDPK => js "edpk"
  | .SPPK => js "sppk"
  | .P2PK => js "p2pk"
  | .BLPK => js "BLpk"
  | .NET => js "Net"
  | .B => js "B"
  | .O => js "o"
  | .P => js "P"
  | .VH => js "vh"
  | .SR1 => js "sr1"
  | .SRC1 => js "src1"

/-- `prefix`. -/
def Prefix.bytes : Prefix → Bytes
  | .TZ1 => [6, 161, 159]
  | .TZ2 => [6, 161, 161]
  | .TZ3 => [6, 161, 164]
  | .TZ4 => [6, 161, 166]
  | .KT1 => [2, 90, 121]
  | .TXR1 => [1, 128, 120, 31]
  | .EDSIG => [9, 245, 205, 134, 18]
  | .P2SIG => [54, 240, 44, 52]
  | .SPSIG => [13, 115, 101, 19, 63]
  | .SIG => [4, 130, 43]
  | .EDPK => [13, 15, 37, 217]
  | .SPPK => [3, 254, 226, 86]
  | .P2PK => [3, 178, 139, 127]
  | .BLPK => [6, 149, 135, 204]
  | .NET => [87, 82, 0]
  | .B => [1, 52]
  | .O => [5, 116]
  | .P => [2, 170]
  | .VH => [1, 106, 242]
  | .SR1 => [6, 124, 117]
  | .SRC1 => [17, 165, 134, 138]

/-- `prefixLength`. -/
def Prefix.payload : Prefix → ℕ
  | .TZ1 | .TZ2 | .TZ3 | .TZ4 | .KT1 | .TXR1 | .SR1 => 20
  | .EDSIG | .P2SIG | .SPSIG | .SIG => 64
  | .EDPK | .B | .O | .P | .VH | .SRC1 => 32
  | .SPPK | .P2PK => 33
  | .BLPK => 48
  | .NET => 4

/-- `ValidationResult`. -/
inductive ValidationResult where
  | NO_PREFIX_MATCHED | INVALID_CHECKSUM | INVALID_LENGTH | VALID
  deriving DecidableEq, Repr

/-- `\w`. -/
def isWordUnit (c : UInt16) : Bool :=
  (48 ≤ c && c ≤ 57) || (65 ≤ c && c ≤ 90) || c == 95 || (97 ≤ c && c ≤ 122)

/-- `/^(KT1\w{33})$/`. -/
def kt1Regex (value : JSString) : Bool :=
  value.take 3 = js "KT1" ∧ value.length = 36 ∧ (value.drop 3).all isWordUnit

/-- `value.split('%')[0]`. -/
def withoutEntrypoint (value : JSString) : JSString := value.takeWhile (· ≠ 37)

variable (b58 : Base58Check)

/-- `validatePrefixedValue`, of a string. -/
def validatePrefixedValue (value : JSString) (prefixes : List Prefix) : ValidationResult :=
  match prefixes.find? fun p => p.text.isPrefixOf value with
  | none => .NO_PREFIX_MATCHED
  | some prefixKey =>
    let value := withoutEntrypoint value
    if !kt1Regex value && prefixKey = .KT1 then .INVALID_CHECKSUM
    else
      match b58.decode value with
      | none => .INVALID_CHECKSUM
      | some decoded =>
        if (decoded.drop prefixKey.bytes.length).length ≠ prefixKey.payload then .INVALID_LENGTH
        else .VALID

/-- The prefixes of implicit accounts. -/
def implicitPrefixes : List Prefix := [.TZ1, .TZ2, .TZ3, .TZ4]

/-- The prefixes of contracts. -/
def contractPrefixes : List Prefix := [.KT1, .TXR1]

/-- `validateAddress`. -/
def validateAddress (value : JSString) : ValidationResult :=
  validatePrefixedValue b58 value (implicitPrefixes ++ contractPrefixes)

/-- `validateChain`. -/
def validateChain (value : JSString) : ValidationResult := validatePrefixedValue b58 value [.NET]

/-- `validateKeyHash`. -/
def validateKeyHash (value : JSString) : ValidationResult :=
  validatePrefixedValue b58 value implicitPrefixes

/-- `validateSignature`. -/
def validateSignature (value : JSString) : ValidationResult :=
  validatePrefixedValue b58 value [.EDSIG, .P2SIG, .SPSIG, .SIG]

/-- `validatePublicKey`. -/
def validatePublicKey (value : JSString) : ValidationResult :=
  validatePrefixedValue b58 value [.EDPK, .SPPK, .P2PK, .BLPK]

/-- `validateContractAddress`. -/
def validateContractAddress (value : JSString) : ValidationResult :=
  validatePrefixedValue b58 value contractPrefixes

/-- `validateOperation`. -/
def validateOperation (value : JSString) : ValidationResult := validatePrefixedValue b58 value [.O]

/-- `validateProtocol`. -/
def validateProtocol (value : JSString) : ValidationResult := validatePrefixedValue b58 value [.P]

/-- `validateBlock`. -/
def validateBlock (value : JSString) : ValidationResult := validatePrefixedValue b58 value [.B]

/-- What is valid is not empty. -/
theorem ne_nil_of_valid {value : JSString} {prefixes : List Prefix}
    (h : validatePrefixedValue b58 value prefixes = .VALID) : value ≠ [] := by
  rintro rfl
  have hnone : ( prefixes.find? fun p => p.text.isPrefixOf ([] : JSString)) = none := by
    apply List.find?_eq_none.mpr
    intro p _
    cases p <;> decide
  rw [validatePrefixedValue, hnone] at h
  cases h

end Utils
