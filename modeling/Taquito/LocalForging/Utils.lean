import Taquito.Js.Numbers
import Taquito.Lib.Reader

/-!
# Errors, padding and the byte consumer of the forger

`pad` and `Uint8ArrayConsumer` of the forging package. A consumer is modelled by the octets it has
left, and a decoder is a `Reader` over them; the error texts are those of the source.

`pad` is always given half of a text length, so its argument counts halves: an odd count prints
with the fraction `.8`, as `Number.prototype.toString(16)` does.
-/

open Js BigEndian

namespace LocalForging

/-- What the forging package throws. `outOfFuel` is the model's own: the recursion of a decoder is
bounded by a fuel argument, and no decoder runs out (`valueDecode_ne_outOfFuel`). `neverReturns`
stands for a loop of the source that does not end. -/
inductive ForgeError where
  | error (message : JSString)
  | typeError (message : JSString)
  | invalidHexString (hexString : JSString)
  | oversizedEntryPoint (entrypoint : JSString)
  | invalidBallotValue (ballotValue : JSString)
  | decodeBallotValue (ballotValue : JSString)
  | unsupportedPvmKind (pvm : JSString)
  | decodePvmKind (pvm : JSString)
  | invalidSmartRollupAddress (address : JSString)
  | invalidSmartRollupContractAddress (address : JSString)
  | invalidKeyHash (keyHash : JSString)
  | invalidPublicKey (publicKey : JSString)
  | invalidAddress (address : JSString)
  | invalidContractAddress (address : JSString)
  | invalidBlockHash (message : JSString)
  | invalidOperationKind (kind : String)
  | invalidOperationSchema (missing : List String)
  | operationEncoding (message : JSString)
  | operationDecoding (message : JSString)
  | unsupportedOperation (op : JSString)
  | invalidBase58 (text : JSString)
  | outOfFuel
  | neverReturns
  deriving DecidableEq, Repr

/-- A decoder: a reader of octets. -/
abbrev Decoder (α : Type) := Reader UInt8 ForgeError α

/-! ## Padding -/

/-- `(halves / 2).toString(16)`. -/
def halvesText (halves : ℕ) : JSString :=
  numberText 16 (halves / 2) ++ if halves % 2 = 0 then [] else js ".8"

/-- `pad(halves / 2, paddingLen)`. -/
def pad (halves : ℕ) (paddingLen : ℕ) : Except ForgeError JSString :=
  let ret := padStart paddingLen (digitChar 0) (halvesText halves)
  if ret.length ≠ paddingLen then
    .error (.error (js "expected padded string to be of length " ++ natText paddingLen ++
      js ", but it's length is " ++ natText ret.length))
  else .ok ret

theorem halvesText_two_mul (n : ℕ) : halvesText (2 * n) = numberText 16 n := by
  simp [halvesText]

theorem pad_two_mul {k n : ℕ} (hk : 0 < k) (h : n < 256 ^ k) :
    pad (2 * n) (2 * k) = .ok (toHex (beBytes k n)) := by
  have hp := padStart_hexText hk h
  rw [pad, halvesText_two_mul, hp, if_neg]
  simp

/-- A number that does not fit is refused. -/
theorem pad_two_mul_error {k n : ℕ} (hk : 0 < k) (h : 256 ^ k ≤ n) :
    ∃ message, pad (2 * n) (2 * k) = .error (.error message) := by
  have hlen := (numberText_hex_length_le (n := n) hk).not.mpr (by omega)
  rw [pad, halvesText_two_mul, if_pos]
  · exact ⟨_, rfl⟩
  · rw [padStart, List.length_append, List.length_replicate]
    omega

theorem pad_eq_ok {k n : ℕ} (hk : 0 < k) {s : JSString} (h : pad (2 * n) (2 * k) = .ok s) :
    n < 256 ^ k ∧ s = toHex (beBytes k n) := by
  rcases Nat.lt_or_ge n (256 ^ k) with hn | hn
  · rw [pad_two_mul hk hn, Except.ok.injEq] at h
    exact ⟨hn, h.symm⟩
  · obtain ⟨m, hm⟩ := pad_two_mul_error hk hn
    rw [hm] at h
    cases h

/-! ## Text of octets -/

/-- `s` is hexadecimal text, in either case, of the octets `bs`. -/
def HexOf (s : JSString) (bs : Bytes) : Prop := isHexPairs s = true ∧ bufferFromHex s = bs

theorem hexOf_toHex (bs : Bytes) : HexOf (toHex bs) bs :=
  ⟨isHexPairs_toHex bs, bufferFromHex_toHex bs⟩

private theorem hexOf_cons {c d : UInt16} {x y : ℕ} {s : JSString} {bs : Bytes}
    (hc : radixValue 16 c = some x) (hd : radixValue 16 d = some y) :
    HexOf (c :: d :: s) (UInt8.ofNat (16 * x + y) :: bs) ↔ HexOf s bs := by
  have hlen : (s.length + 1 + 1) % 2 = s.length % 2 := by omega
  simp [HexOf, isHexPairs, isHexDigit, hc, hd, bufferFromHex, hlen]

private theorem exists_radixValue {c : UInt16} (h : isHexDigit c = true) :
    ∃ x, radixValue 16 c = some x := Option.isSome_iff_exists.mp h

theorem HexOf.append : ∀ {s t : JSString} {bs cs : Bytes}, HexOf s bs → HexOf t cs →
    HexOf (s ++ t) (bs ++ cs)
  | [], t, bs, cs, hs, ht => by
    obtain rfl : bs = [] := hs.2.symm
    exact ht
  | [_], t, bs, cs, hs, ht => by
    have := hs.1
    simp [isHexPairs] at this
  | c :: d :: s, t, bs, cs, hs, ht => by
    have hall := hs.1
    simp only [isHexPairs, Bool.and_eq_true, List.all_cons] at hall
    obtain ⟨x, hx⟩ := exists_radixValue hall.2.1
    obtain ⟨y, hy⟩ := exists_radixValue hall.2.2.1
    obtain ⟨bs, rfl⟩ : ∃ l, bs = UInt8.ofNat (16 * x + y) :: l :=
      ⟨bufferFromHex s, by rw [← hs.2, bufferFromHex, hx, hy]⟩
    rw [List.cons_append, List.cons_append, List.cons_append, hexOf_cons hx hy]
    exact ((hexOf_cons hx hy).mp hs).append ht

theorem HexOf.length : ∀ {s : JSString} {bs : Bytes}, HexOf s bs → s.length = 2 * bs.length
  | [], bs, h => by
    obtain rfl : bs = [] := h.2.symm
    rfl
  | [_], bs, h => by
    have := h.1
    simp [isHexPairs] at this
  | c :: d :: s, bs, h => by
    have hall := h.1
    simp only [isHexPairs, Bool.and_eq_true, List.all_cons] at hall
    obtain ⟨x, hx⟩ := exists_radixValue hall.2.1
    obtain ⟨y, hy⟩ := exists_radixValue hall.2.2.1
    obtain ⟨bs, rfl⟩ : ∃ l, bs = UInt8.ofNat (16 * x + y) :: l :=
      ⟨bufferFromHex s, by rw [← h.2, bufferFromHex, hx, hy]⟩
    have ih := ((hexOf_cons hx hy).mp h).length
    simp only [List.length_cons, ih]
    omega

/-- The length prefix of a text of octets. -/
theorem HexOf.pad_eq {s : JSString} {bs : Bytes} (h : HexOf s bs) {k : ℕ} (hk : 0 < k)
    (hb : bs.length < 256 ^ k) : pad s.length (2 * k) = .ok (toHex (beBytes k bs.length)) := by
  rw [h.length, pad_two_mul hk hb]

theorem HexOf.pad_eq_error {s : JSString} {bs : Bytes} (h : HexOf s bs) {k : ℕ} (hk : 0 < k)
    (hb : 256 ^ k ≤ bs.length) : ∃ message, pad s.length (2 * k) = .error (.error message) := by
  rw [h.length]
  exact pad_two_mul_error hk hb

/-! ## The consumer -/

/-- The error for an input that ends too early. -/
def notEnough (expected got : ℕ) : ForgeError :=
  .error (js "not enough bytes, expected " ++ natText expected ++ js " but got " ++ natText got ++
    js " instead")

/-- `Uint8ArrayConsumer.consume(count)`. -/
def consume (count : ℕ) : Decoder Bytes := Reader.take count (notEnough count)

/-- `consume(1)[0]`. -/
def consumeByte : Decoder UInt8
  | [] => .error (notEnough 1 0)
  | b :: bs => .ok (b, bs)

/-- `consumeByte` is `consume` of one octet. -/
theorem consume_one (bs : Bytes) :
    consume 1 bs = (consumeByte bs).map fun p => ([p.1], p.2) := by
  cases bs with
  | nil => rfl
  | cons b bs => simp [consume, Reader.take, consumeByte, Except.map]

theorem local_consumeByte : Reader.Local consumeByte := by
  intro bs b rest h
  cases bs with
  | nil => cases h
  | cons c bs =>
    cases h
    exact ⟨[b], rfl, fun _ => rfl⟩

theorem consumeByte_reads (b : UInt8) : Reader.Reads consumeByte [b] b := fun _ => rfl

theorem local_consume (count : ℕ) : Reader.Local (consume count) := Reader.Local.take _ _

/-- `toHexString` of the package, on octets. -/
def toHexString (bs : Bytes) : JSString :=
  bs.foldl (fun str byte => str ++ padStart 2 (digitChar 0) (numberText 16 byte.toNat)) []

theorem padStart_byte (b : UInt8) :
    padStart 2 (digitChar 0) (numberText 16 b.toNat) = hexByte b := by
  have h := padStart_hexText (k := 1) (n := b.toNat) (by omega) (by simpa using b.toNat_lt)
  simpa [beBytes, fixedDigits, toHex] using h

theorem toHexString_eq (bs : Bytes) : toHexString bs = toHex bs := by
  have key : ∀ (bs : Bytes) (acc : JSString), bs.foldl (fun str byte => str ++
      padStart 2 (digitChar 0) (numberText 16 byte.toNat)) acc = acc ++ toHex bs := by
    intro bs
    induction bs with
    | nil => simp
    | cons b bs ih =>
      intro acc
      rw [List.foldl_cons, ih, padStart_byte, toHex_cons, List.append_assoc]
  rw [toHexString, key, List.nil_append]

end LocalForging
