import Taquito.Utils.Addresses
import Taquito.Utils.Letters

/-!
# Octets of addresses

`b58decode` and `encodePubKey` choose a tag by the prefix and the prefix by the tag. For the five
prefixes that both know they are inverse (`addressBytes_faithful`); every other address is taken for
one of a contract.
-/

open Js

namespace Utils

variable {b58 : Base58Check}

/-- The prefixes with a tag: `b58decode` looks for four of them, and takes the rest for contracts.
-/
def taggedPrefixes : List Prefix := [.TZ1, .TZ2, .TZ3, .KT1, .TXR1]

/-- What stands before and behind the hash in the octets of an address. -/
def addressFrame : Prefix → JSString × JSString
  | .TZ1 => (js "0000", [])
  | .TZ2 => (js "0001", [])
  | .TZ3 => (js "0002", [])
  | .TXR1 => (js "02", js "00")
  | _ => (js "01", js "00")

/-- The text is the prefix and twenty octets, with nothing behind it. -/
def Tagged (b58 : Base58Check) (a : JSString) : Prop :=
  ∃ p ∈ taggedPrefixes, ∃ hash : Bytes, hash.length = 20 ∧ b58.decode a = some (p.bytes ++ hash)

theorem b58decode_tagged {p : Prefix} (hp : p ∈ taggedPrefixes) {hash : Bytes}
    (hlength : hash.length = 20) {a : JSString} (hdecode : b58.decode a = some (p.bytes ++ hash)) :
    b58decode b58 a = some ((addressFrame p).1 ++ toHex hash ++ (addressFrame p).2) := by
  rw [b58decode, hdecode, Option.map_some, Option.some.injEq]
  simp only [taggedPrefixes, List.mem_cons, List.not_mem_nil, or_false] at hp
  obtain rfl | rfl | rfl | rfl | rfl := hp
  · exact (List.append_nil _).symm
  · exact (List.append_nil _).symm
  · exact (List.append_nil _).symm
  · have htake : (Prefix.KT1.bytes ++ hash).take 42 = Prefix.KT1.bytes ++ hash := by
      apply List.take_of_length_le
      rw [List.length_append, hlength]
      decide
    rw [htake]
    rfl
  · rfl

/-- The hash behind a tag is written with the prefix. -/
theorem b58cencodeHex_drop (tag : JSString) (hash : Bytes) (p : Prefix) :
    b58cencodeHex b58 ((tag ++ toHex hash).drop tag.length) (some p.bytes) =
      some (b58.encode (p.bytes ++ hash)) := by
  rw [List.drop_left, b58cencodeHex, Option.map_some, bufferFromHex_toHex]

theorem encodePubKey_tagged {p : Prefix} (hp : p ∈ taggedPrefixes) {hash : Bytes}
    (hlength : hash.length = 20) :
    encodePubKey b58 ((addressFrame p).1 ++ toHex hash ++ (addressFrame p).2) =
      some (b58.encode (p.bytes ++ hash)) := by
  have hhex : (toHex hash).length = 40 := by rw [toHex_length, hlength]
  simp only [taggedPrefixes, List.mem_cons, List.not_mem_nil, or_false] at hp
  obtain rfl | rfl | rfl | rfl | rfl := hp
  · rw [addressFrame, List.append_nil]
    exact b58cencodeHex_drop (js "0000") hash .TZ1
  · rw [addressFrame, List.append_nil]
    exact b58cencodeHex_drop (js "0001") hash .TZ2
  · rw [addressFrame, List.append_nil]
    exact b58cencodeHex_drop (js "0002") hash .TZ3
  · have htake : (js "01" ++ toHex hash ++ js "00").take 2 = js "01" := rfl
    have hcut : (js "01" ++ toHex hash ++ js "00").take 42 = js "01" ++ toHex hash := by
      apply List.take_left'
      rw [List.length_append, hhex]
      rfl
    show encodePubKey b58 (js "01" ++ toHex hash ++ js "00") = _
    rw [encodePubKey, htake, if_neg (by decide), if_neg (by decide), hcut]
    exact b58cencodeHex_drop (js "01") hash .KT1
  · have htake : (js "02" ++ toHex hash ++ js "00").take 2 = js "02" := rfl
    -- the padding is cut off by the length
    have hcut : (js "02" ++ toHex hash ++ js "00").take
        ((js "02" ++ toHex hash ++ js "00").length - 2) = js "02" ++ toHex hash := by
      apply List.take_left'
      rw [@List.length_append _ (js "02" ++ toHex hash) _]
      exact (Nat.add_sub_cancel _ 2).symm
    show encodePubKey b58 (js "02" ++ toHex hash ++ js "00") = _
    rw [encodePubKey, htake, if_neg (by decide), if_pos rfl, hcut]
    exact b58cencodeHex_drop (js "02") hash .TXR1

/-- An address is written back from its octets. -/
theorem roundTrip_tagged (hb : b58.Lawful) {a : JSString} (h : Tagged b58 a) :
    ∃ hex, b58decode b58 a = some hex ∧ encodePubKey b58 hex = some a := by
  obtain ⟨p, hp, hash, hlength, hdecode⟩ := h
  refine ⟨_, b58decode_tagged hp hlength hdecode, ?_⟩
  rw [encodePubKey_tagged hp hlength, hb.encode_decode hdecode]

open Bs58check (bs58check lawful_bs58check)

end Utils
