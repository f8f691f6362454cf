import Taquito.Utils.Validators

/-!
# Addresses and keys in base58

The functions of `taquito-utils.ts` that write the bytes of an address or a key, given in
hexadecimal, as base58check with the prefix of their kind.
-/

open Js

namespace Utils

variable (b58 : Base58Check)

/-- `stripHexPrefix`. -/
def stripHexPrefix (hex : JSString) : JSString :=
  if (js "0x").isPrefixOf hex then hex.drop 2 else hex

/-- `b58cencode`, of hexadecimal digits; without a prefix it throws. -/
def b58cencodeHex (value : JSString) (pref : Option Bytes) : Option JSString :=
  pref.map fun p => b58.encode (p ++ bufferFromHex value)

/-- `encodePubKey`; `none` is a `TypeError`. -/
def encodePubKey (value : JSString) : Option JSString :=
  if value.take 2 = js "00" then
    let pref :=
      if value.take 4 = js "0000" then some Prefix.TZ1.bytes
      else if value.take 4 = js "0001" then some Prefix.TZ2.bytes
      else if value.take 4 = js "0002" then some Prefix.TZ3.bytes
      else none
    b58cencodeHex b58 (value.drop 4) pref
  else if value.take 2 = js "02" then
    b58cencodeHex b58 ((value.take (value.length - 2)).drop 2) (some Prefix.TXR1.bytes)
  else b58cencodeHex b58 ((value.take 42).drop 2) (some Prefix.KT1.bytes)

/-- `encodeL2Address`. -/
def encodeL2Address (value : JSString) : Option JSString :=
  b58cencodeHex b58 value (some Prefix.TZ4.bytes)

/-- The common part of `encodeKey` and `encodeKeyHash`: the inner `none` is `undefined`. -/
def encodeTagged (tags : Prefix × Prefix × Prefix) (value : JSString) : Option (Option JSString) :=
  if value.head? = some 48 then
    let pref :=
      if value.take 2 = js "00" then some tags.1.bytes
      else if value.take 2 = js "01" then some tags.2.1.bytes
      else if value.take 2 = js "02" then some tags.2.2.bytes
      else none
    (b58cencodeHex b58 (value.drop 2) pref).map some
  else some none

/-- `encodeKey`. -/
def encodeKey : JSString → Option (Option JSString) := encodeTagged b58 (.EDPK, .SPPK, .P2PK)

/-- `encodeKeyHash`. -/
def encodeKeyHash : JSString → Option (Option JSString) := encodeTagged b58 (.TZ1, .TZ2, .TZ3)

/-! ## Decoding -/

/-- `b58decode`, as hexadecimal digits: an implicit account with its tag, a rollup, or else a
contract; `none` where the library throws. -/
def b58decode (payload : JSString) : Option JSString :=
  (b58.decode payload).map fun buf =>
    if buf.take 3 = Prefix.TZ1.bytes then js "0000" ++ toHex (buf.drop 3)
    else if buf.take 3 = Prefix.TZ2.bytes then js "0001" ++ toHex (buf.drop 3)
    else if buf.take 3 = Prefix.TZ3.bytes then js "0002" ++ toHex (buf.drop 3)
    else if buf.take 4 = Prefix.TXR1.bytes then js "02" ++ toHex (buf.drop 4) ++ js "00"
    else js "01" ++ toHex ((buf.take 42).drop 3) ++ js "00"

/-- `b58decodeL2Address`. -/
def b58decodeL2Address (payload : JSString) : Option JSString :=
  (b58.decode payload).map fun buf => toHex ((buf.take 42).drop 3)

end Utils
