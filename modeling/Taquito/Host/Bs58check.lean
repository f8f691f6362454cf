import Taquito.Host.Base58
import Taquito.Host.Sha256
import Taquito.Lib.Radix

/-!
# The base58check library

`bs58check` writes octets and the first four octets of their double SHA-256 in base 58. It is lawful
(`lawful_bs58check`), and the letters that its texts begin with are known from the first octets and
the length (`prefix_encode`).
-/

open Js BigEndian Radix

namespace Bs58check

/-- The letters, by the digits they stand for: all numerals and letters but `0`, `I`, `O` and `l`.
-/
def alphabet : JSString :=
  ((List.range' 49 9 ++ List.range' 65 26 ++ List.range' 97 26).filter
    fun c => c ≠ 73 ∧ c ≠ 79 ∧ c ≠ 108).map UInt16.ofNat

example : alphabet = js "123456789ABCDEFGHJKLMNPQRSTUVWXYZabcdefghijkmnopqrstuvwxyz" := by
  decide

/-- The letter of a digit. -/
def letter (d : ℕ) : UInt16 := alphabet.getD d 0

/-- The digit of a letter. -/
def digit (c : UInt16) : Option ℕ := alphabet.findIdx? (· == c)

theorem digit_letter {d : ℕ} (h : d < 58) : digit (letter d) = some d := by
  have hall : ∀ d ∈ List.range 58, digit (letter d) = some d := by decide
  exact hall d (List.mem_range.mpr h)

theorem eq_letter_of_digit {c : UInt16} {d : ℕ} (h : digit c = some d) : d < 58 ∧ letter d = c := by
  obtain ⟨hlt, hc, -⟩ := List.findIdx?_eq_some_iff_getElem.mp h
  refine ⟨hlt, ?_⟩
  rw [letter, List.getD_eq_getElem?_getD, List.getElem?_eq_getElem hlt, Option.getD_some]
  exact eq_of_beq hc

/-- `checksumFn`. -/
def checksum (payload : Bytes) : Bytes := (Sha256.hash (Sha256.hash payload)).take 4

theorem checksum_length (payload : Bytes) : (checksum payload).length = 4 := by
  rw [checksum, List.length_take, Sha256.hash_length]
  rfl

/-- `base58.encode`. -/
def encode58 (bs : Bytes) : JSString := (convert 256 58 (bs.map UInt8.toNat)).map letter

/-- `base58.decode`. -/
def decode58 (s : JSString) : Option Bytes :=
  (s.mapM digit).map fun ds => (convert 58 256 ds).map UInt8.ofNat

theorem toNat_lt_of_mem {bs : Bytes} : ∀ d ∈ bs.map UInt8.toNat, d < 256 := by
  intro d hd
  obtain ⟨b, -, rfl⟩ := List.mem_map.mp hd
  exact b.toNat_lt

theorem mapM_digit_map {ds : List ℕ} (h : ∀ d ∈ ds, d < 58) :
    (ds.map letter).mapM digit = some ds := by
  induction ds with
  | nil => rfl
  | cons d ds ih =>
    rw [List.map_cons, List.mapM_cons, digit_letter (h d List.mem_cons_self),
      ih fun x hx => h x (List.mem_cons_of_mem _ hx)]
    rfl

theorem map_letter_of_mapM {s : JSString} : ∀ {ds : List ℕ}, s.mapM digit = some ds →
    (∀ d ∈ ds, d < 58) ∧ ds.map letter = s := by
  induction s with
  | nil =>
    intro ds h
    obtain rfl : [] = ds := Option.some.inj h
    exact ⟨List.forall_mem_nil _, rfl⟩
  | cons c s ih =>
    intro ds h
    rw [List.mapM_cons] at h
    obtain ⟨d, hd, h⟩ := Option.bind_eq_some_iff.mp h
    obtain ⟨rest, hrest, h⟩ := Option.bind_eq_some_iff.mp h
    obtain rfl := Option.some.inj h
    obtain ⟨hlt, hletter⟩ := eq_letter_of_digit hd
    obtain ⟨hall, hmap⟩ := ih hrest
    exact ⟨List.forall_mem_cons.mpr ⟨hlt, hall⟩, by rw [List.map_cons, hletter, hmap]⟩

theorem decode58_encode58 (bs : Bytes) : decode58 (encode58 bs) = some bs := by
  rw [decode58, encode58, mapM_digit_map fun d hd => lt_of_mem_convert (by omega) hd,
    Option.map_some, convert_convert (by omega) toNat_lt_of_mem, List.map_map]
  congr 1
  conv_rhs => rw [← List.map_id bs]
  apply List.map_congr_left
  intro b _
  exact UInt8.ofNat_toNat

theorem encode58_decode58 {s : JSString} {bs : Bytes} (h : decode58 s = some bs) :
    encode58 bs = s := by
  obtain ⟨ds, hds, rfl⟩ := Option.map_eq_some_iff.mp h
  obtain ⟨hlt, rfl⟩ := map_letter_of_mapM hds
  rw [encode58, List.map_map]
  have hid : ((convert 58 256 ds).map (UInt8.toNat ∘ UInt8.ofNat)) = convert 58 256 ds := by
    conv_rhs => rw [← List.map_id (convert 58 256 ds)]
    apply List.map_congr_left
    intro d hd
    exact Nat.mod_eq_of_lt (lt_of_mem_convert (by omega) hd)
  rw [hid, convert_convert (by omega) hlt]

/-- `bs58check`. -/
def bs58check : Base58Check where
  encode payload := encode58 (payload ++ checksum payload)
  decode s := (decode58 s).bind fun bs =>
    let payload := bs.take (bs.length - 4)
    if bs.drop (bs.length - 4) = checksum payload then some payload else none

/-- **The library is lawful.** -/
theorem lawful_bs58check : bs58check.Lawful where
  decode_encode bs := by
    show (decode58 (encode58 (bs ++ checksum bs))).bind _ = _
    rw [decode58_encode58, Option.bind_some]
    have hlen : (bs ++ checksum bs).length - 4 = bs.length := by
      rw [List.length_append, checksum_length, Nat.add_sub_cancel]
    simp only [hlen, List.take_left, List.drop_left, if_true]
  encode_decode := by
    intro s bs h
    obtain ⟨all, hall, h⟩ := Option.bind_eq_some_iff.mp h
    obtain ⟨hsum, hbs⟩ := Option.ite_none_right_eq_some.mp h
    obtain rfl := Option.some.inj hbs
    show encode58 (_ ++ checksum _) = s
    rw [← hsum, List.take_append_drop, encode58_decode58 hall]

theorem alphanumeric_bs58check : bs58check.Alphanumeric := by
  intro s bs h c hc
  obtain ⟨all, hall, -⟩ := Option.bind_eq_some_iff.mp h
  obtain ⟨ds, hds, -⟩ := Option.map_eq_some_iff.mp hall
  obtain ⟨hlt, rfl⟩ := map_letter_of_mapM hds
  obtain ⟨d, hd, rfl⟩ := List.mem_map.mp hc
  have hletters : ∀ d ∈ List.range 58, (digitValue (letter d)).isSome = true := by decide
  exact hletters d (List.mem_range.mpr (hlt d hd))

/-! ## First letters -/

/-- The number that letters stand for. -/
def lettersValue (letters : JSString) : ℕ := ofDigitsBE 58 (letters.filterMap digit)

/-- How many letters follow. -/
def lettersAfter (pre : Bytes) (n : ℕ) (letters : JSString) : ℕ :=
  ((List.range (2 * (pre.length + n + 4))).find? fun k =>
    beValue pre * 256 ^ (n + 4) < (lettersValue letters + 1) * 58 ^ k).getD 0

/-- Whatever `n` octets and their sum stand behind `pre`, the number lies between the letters
followed by zeros and the next multiple. -/
structure BeginsWith (pre : Bytes) (n : ℕ) (letters : JSString) : Prop where
  head : pre.head?.any (· ≠ 0) = true
  pos : 0 < lettersValue letters
  written : (Nat.digits 58 (lettersValue letters)).reverse.map letter = letters
  low : lettersValue letters * 58 ^ lettersAfter pre n letters ≤ beValue pre * 256 ^ (n + 4)
  high : (beValue pre + 1) * 256 ^ (n + 4) ≤
    (lettersValue letters + 1) * 58 ^ lettersAfter pre n letters

instance (pre : Bytes) (n : ℕ) (letters : JSString) : Decidable (BeginsWith pre n letters) :=
  decidable_of_iff
    (pre.head?.any (· ≠ 0) = true ∧ 0 < lettersValue letters ∧
      (Nat.digits 58 (lettersValue letters)).reverse.map letter = letters ∧
      lettersValue letters * 58 ^ lettersAfter pre n letters ≤ beValue pre * 256 ^ (n + 4) ∧
      (beValue pre + 1) * 256 ^ (n + 4) ≤
        (lettersValue letters + 1) * 58 ^ lettersAfter pre n letters)
    ⟨fun h => ⟨h.1, h.2.1, h.2.2.1, h.2.2.2.1, h.2.2.2.2⟩,
      fun h => ⟨h.head, h.pos, h.written, h.low, h.high⟩⟩

theorem beValue_append (bs cs : Bytes) :
    beValue (bs ++ cs) = beValue bs * 256 ^ cs.length + beValue cs := by
  rw [beValue, beValue, beValue, List.map_append, ofDigitsBE_eq, ofDigitsBE_eq, ofDigitsBE_eq,
    List.reverse_append, Nat.ofDigits_append, List.length_reverse, List.length_map]
  ring

/-- **The first letters of a text.** -/
theorem prefix_encode {pre payload : Bytes} {n : ℕ} {letters : JSString}
    (h : BeginsWith pre n letters) (hlength : payload.length = n) :
    letters <+: bs58check.encode (pre ++ payload) := by
  have hrest : (payload ++ checksum (pre ++ payload)).length = n + 4 := by
    rw [List.length_append, checksum_length, hlength]
  have hvalue := beValue_append pre (payload ++ checksum (pre ++ payload))
  have hlt := beValue_lt (payload ++ checksum (pre ++ payload))
  rw [hrest] at hvalue hlt
  -- the octets do not begin with a zero
  have hzeros : leadingZeros ((pre ++ (payload ++ checksum (pre ++ payload))).map UInt8.toNat)
      = 0 := by
    have hhead := h.head
    cases pre with
    | nil => cases hhead
    | cons b pre =>
      have hb : b ≠ 0 := by simpa using hhead
      have hnat : b.toNat ≠ 0 := fun hzero => hb (UInt8.toNat_inj.mp hzero)
      rw [leadingZeros, List.cons_append, List.map_cons, List.takeWhile_cons_of_neg (by simpa using hnat)]
      rfl
  show letters <+: encode58 (pre ++ payload ++ checksum (pre ++ payload))
  rw [encode58, convert, List.append_assoc, hzeros, List.replicate_zero, List.nil_append,
    ← h.written]
  apply List.IsPrefix.map
  apply digits_prefix (k := lettersAfter pre n letters) (by omega) h.pos
  · show _ ≤ beValue (pre ++ (payload ++ checksum (pre ++ payload)))
    rw [hvalue]
    exact h.low.trans (Nat.le_add_right _ _)
  · show beValue (pre ++ (payload ++ checksum (pre ++ payload))) < _
    rw [hvalue]
    refine Nat.lt_of_lt_of_le ?_ h.high
    rw [Nat.add_mul, Nat.one_mul]
    omega

end Bs58check
