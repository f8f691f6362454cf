import Taquito.Lib.Reader
import Taquito.MichelCodec.Utils

/-!
# Octets read by `parseInt`

`parseBytes` and `parseHex` give slices of two characters to `parseInt`, which skips white space and
a sign, and stops at the first character that is no digit. So they read a text that is no
hexadecimal octets unless one of its slices has no digit at its start (`hexParsed_iff`), and
`parseHex` reads a text of odd length, too.
-/

open Js

namespace MichelCodec

/-- `s.toLowerCase()`, of ASCII characters. -/
def toLowerCase (s : JSString) : JSString :=
  s.map fun c => if 65 ≤ c.toNat ∧ c.toNat ≤ 90 then c + 32 else c

/-- What `parseInt` skips. -/
def isSkipped (c : UInt16) : Bool := isWhitespace c || c == 43 || c == 45

/-- All slices of two characters begin with a number, and so does a single one at the end. -/
def isReadable : JSString → Bool
  | [] => true
  | [c] => isHexDigit c
  | c :: d :: s =>
    (isSkipped c && isHexDigit d || isHexDigit c && !(c == 48 && (d == 120 || d == 88))) &&
      isReadable s

/-! ## Slices -/

/-- A text begins with a digit. -/
def startsWithDigit (s : JSString) : Bool := (s.head?.map isHexDigit).getD false

theorem digitsValue_isSome (s : JSString) :
    (digitsValue 16 (s.takeWhile isHexDigit)).isSome = startsWithDigit s := by
  have hall : ∀ t : JSString, (∀ c ∈ t, isHexDigit c = true) →
      (t.mapM (radixValue 16)).isSome = true := by
    intro t
    induction t with
    | nil => exact fun _ => rfl
    | cons c t ih =>
      intro h
      obtain ⟨hc, ht⟩ := List.forall_mem_cons.mp h
      obtain ⟨x, hx⟩ := Option.isSome_iff_exists.mp hc
      obtain ⟨ds, hds⟩ := Option.isSome_iff_exists.mp (ih ht)
      rw [List.mapM_cons, hx, hds]
      rfl
  cases s with
  | nil => rfl
  | cons c s =>
    rw [startsWithDigit, List.head?_cons, Option.map_some, Option.getD_some]
    by_cases hc : isHexDigit c = true
    · rw [List.takeWhile_cons_of_pos hc, digitsValue, List.isEmpty_cons, if_neg Bool.false_ne_true,
        Option.isSome_map, hc]
      apply hall
      intro d hd
      rcases List.mem_cons.mp hd with rfl | hd
      · exact hc
      · exact List.mem_takeWhile_imp hd
    · rw [List.takeWhile_cons_of_neg hc]
      rw [Bool.not_eq_true] at hc
      rw [hc]
      rfl

/-- `parseInt` needs a digit behind what it skips. -/
theorem parseInt_isSome (s : JSString) : (parseInt 16 s).isSome =
    startsWithDigit (stripHexPrefix (splitSign (s.dropWhile isWhitespace)).2) := by
  rw [← digitsValue_isSome, parseInt]
  exact Option.isSome_map

/-- What is skipped is no digit. -/
theorem isSkipped_of_isHexDigit {c : UInt16} (h : isHexDigit c = true) : isSkipped c = false := by
  have key : (List.range 128).all (fun i =>
      !isHexDigit (UInt16.ofNat i) || !isSkipped (UInt16.ofNat i)) = true := by decide
  have hlt : c.toNat < 128 := by
    rw [isHexDigit, radixValue, Option.isSome_filter] at h
    unfold digitValue at h
    split_ifs at h
    · omega
    · omega
    · omega
    · cases h
  have hc := List.all_eq_true.mp key c.toNat (List.mem_range.mpr hlt)
  rw [UInt16.ofNat_toNat, h, Bool.not_true, Bool.false_or, Bool.not_eq_true'] at hc
  exact hc

theorem stripHexPrefix_single (c : UInt16) : stripHexPrefix [c] = [c] := by
  unfold stripHexPrefix
  split
  · next heq => cases (List.cons.inj heq).2
  · next heq => cases (List.cons.inj heq).2
  · rfl

theorem stripHexPrefix_of_not {c d : UInt16} {s : JSString} (h : ¬(c = 48 ∧ (d = 120 ∨ d = 88))) :
    stripHexPrefix (c :: d :: s) = c :: d :: s := by
  unfold stripHexPrefix
  split
  · next heq =>
    obtain ⟨hc, heq⟩ := List.cons.inj heq
    exact absurd ⟨hc, .inl (List.cons.inj heq).1⟩ h
  · next heq =>
    obtain ⟨hc, heq⟩ := List.cons.inj heq
    exact absurd ⟨hc, .inr (List.cons.inj heq).1⟩ h
  · rfl

theorem splitSign_of_ne {c : UInt16} (hplus : c ≠ 43) (hminus : c ≠ 45) (s : JSString) :
    splitSign (c :: s) = (false, c :: s) := by
  unfold splitSign
  split
  · next heq => exact absurd (List.cons.inj heq).1 hminus
  · next heq => exact absurd (List.cons.inj heq).1 hplus
  · rfl

theorem isHexDigit_of_isSkipped {c : UInt16} (h : isSkipped c = true) : isHexDigit c = false := by
  by_contra hdigit
  rw [Bool.not_eq_false] at hdigit
  rw [isSkipped_of_isHexDigit hdigit] at h
  cases h

/-- A character alone is read if it is a digit. -/
theorem parseInt_isSome_single (c : UInt16) : (parseInt 16 [c]).isSome = isHexDigit c := by
  rw [parseInt_isSome]
  by_cases hspace : isWhitespace c = true
  · have hskip : isSkipped c = true := by rw [isSkipped, hspace, Bool.true_or, Bool.true_or]
    rw [List.dropWhile_cons_of_pos hspace, isHexDigit_of_isSkipped hskip]
    rfl
  · rw [List.dropWhile_cons_of_neg hspace]
    by_cases hplus : c = 43
    · subst hplus
      rfl
    · by_cases hminus : c = 45
      · subst hminus
        rfl
      · rw [splitSign_of_ne hplus hminus, stripHexPrefix_single]
        rfl

/-- Of two characters the first one is skipped and the second one read, or the first one is read,
unless they are the prefix of a hexadecimal numeral. -/
theorem parseInt_isSome_pair (c d : UInt16) : (parseInt 16 [c, d]).isSome =
    (isSkipped c && isHexDigit d || isHexDigit c && !(c == 48 && (d == 120 || d == 88))) := by
  by_cases hskip : isSkipped c = true
  · rw [hskip, Bool.true_and, isHexDigit_of_isSkipped hskip, Bool.false_and, Bool.or_false]
    by_cases hspace : isWhitespace c = true
    · rw [parseInt_isSome, List.dropWhile_cons_of_pos hspace, ← parseInt_isSome,
        parseInt_isSome_single]
    · rw [Bool.not_eq_true] at hspace
      rw [parseInt_isSome, List.dropWhile_cons_of_neg (Bool.eq_false_iff.mp hspace)]
      rw [isSkipped, hspace, Bool.false_or, Bool.or_eq_true, beq_iff_eq, beq_iff_eq] at hskip
      rcases hskip with rfl | rfl
      · show startsWithDigit (stripHexPrefix [d]) = _
        rw [stripHexPrefix_single]
        rfl
      · show startsWithDigit (stripHexPrefix [d]) = _
        rw [stripHexPrefix_single]
        rfl
  · rw [Bool.not_eq_true] at hskip
    rw [hskip, Bool.false_and, Bool.false_or]
    rw [isSkipped, Bool.or_eq_false_iff, Bool.or_eq_false_iff, beq_eq_false_iff_ne,
      beq_eq_false_iff_ne] at hskip
    obtain ⟨⟨hspace, hplus⟩, hminus⟩ := hskip
    rw [parseInt_isSome, List.dropWhile_cons_of_neg (Bool.eq_false_iff.mp hspace),
      splitSign_of_ne hplus hminus]
    by_cases hprefix : c = 48 ∧ (d = 120 ∨ d = 88)
    · obtain ⟨rfl, rfl | rfl⟩ := hprefix
      · rfl
      · rfl
    · have hnot : (c == 48 && (d == 120 || d == 88)) = false := by
        rw [← Bool.not_eq_true, Bool.and_eq_true, Bool.or_eq_true, beq_iff_eq, beq_iff_eq,
          beq_iff_eq]
        exact hprefix
      rw [stripHexPrefix_of_not hprefix, hnot, Bool.not_false, Bool.and_true]
      rfl

/-! ## Texts -/

/-- **`parseHex` accepts** the texts with a number in every slice. -/
theorem parseHex_ok_iff : ∀ s : JSString, (∃ bytes, parseHex s = .ok bytes) ↔ isReadable s = true
  | [] => iff_of_true ⟨[], rfl⟩ rfl
  | [c] => by
    rw [isReadable, ← parseInt_isSome_single, parseHex]
    cases parseInt 16 [c] with
    | none =>
      refine iff_of_false ?_ Bool.false_ne_true
      rintro ⟨_, h⟩
      cases h
    | some x => exact iff_of_true ⟨[x], rfl⟩ rfl
  | c :: d :: s => by
    rw [isReadable, ← parseInt_isSome_pair, Bool.and_eq_true, ← parseHex_ok_iff s, parseHex]
    cases parseInt 16 [c, d] with
    | none =>
      refine iff_of_false ?_ fun h => Bool.false_ne_true h.1
      rintro ⟨_, h⟩
      cases h
    | some x =>
      rw [Option.isSome_some, eq_self, true_and]
      constructor
      · rintro ⟨bytes, h⟩
        obtain ⟨res, hres, -⟩ := Except.bind_eq_ok.mp h
        exact ⟨res, hres⟩
      · rintro ⟨res, hres⟩
        refine ⟨x :: res, ?_⟩
        dsimp only
        rw [hres]
        rfl

/-- Of a text of even length both functions read the same. -/
theorem parsePairs_eq_some_iff : ∀ {s : JSString} {bytes : List ℤ}, s.length % 2 = 0 →
    (parsePairs s = some bytes ↔ parseHex s = .ok bytes)
  | [], bytes, _ => by
    show some [] = some bytes ↔ Except.ok [] = Except.ok bytes
    rw [Option.some.injEq, Except.ok.injEq]
  | [_], _, h => absurd h Nat.one_ne_zero
  | c :: d :: s, bytes, h => by
    have hs : s.length % 2 = 0 := by
      rw [List.length_cons, List.length_cons] at h
      omega
    rw [parsePairs, parseHex]
    cases parseInt 16 [c, d] with
    | none => exact iff_of_false (fun h => by cases h) fun h => by cases h
    | some x =>
      dsimp only
      rw [Except.bind_eq_ok, Option.map_eq_some_iff]
      constructor
      · rintro ⟨res, hres, rfl⟩
        exact ⟨res, (parsePairs_eq_some_iff hs).mp hres, rfl⟩
      · rintro ⟨res, hres, hbytes⟩
        exact ⟨res, (parsePairs_eq_some_iff hs).mpr hres, Except.ok.inj hbytes⟩

/-- The number of a digit is the digit in lower case. -/
theorem digitChar_of_radixValue {c : UInt16} {x : ℕ} (h : radixValue 16 c = some x) :
    x < 16 ∧ digitChar x = if 65 ≤ c.toNat ∧ c.toNat ≤ 90 then c + 32 else c := by
  have key : (List.range 128).all (fun i => (radixValue 16 (UInt16.ofNat i)).all fun x =>
      decide (x < 16) && (digitChar x ==
        if 65 ≤ (UInt16.ofNat i).toNat ∧ (UInt16.ofNat i).toNat ≤ 90 then UInt16.ofNat i + 32
        else UInt16.ofNat i)) = true := by decide
  have hlt : c.toNat < 128 := by
    have hdigit : isHexDigit c = true := by rw [isHexDigit, h]; rfl
    rw [isHexDigit, radixValue, Option.isSome_filter] at hdigit
    unfold digitValue at hdigit
    split_ifs at hdigit
    · omega
    · omega
    · omega
    · cases hdigit
  have hc := List.all_eq_true.mp key c.toNat (List.mem_range.mpr hlt)
  rw [UInt16.ofNat_toNat, h, Option.all_some, Bool.and_eq_true, decide_eq_true_eq, beq_iff_eq] at hc
  exact hc

/-- **Hexadecimal octets** are read, and written in lower case. -/
theorem parsePairs_of_isHexPairs : ∀ {s : JSString}, isHexPairs s = true →
    ∃ octets : Bytes, parsePairs s = some (octets.map fun b => (b.toNat : ℤ)) ∧
      hexBytes octets = toLowerCase s
  | [], _ => ⟨[], rfl, rfl⟩
  | [_], h => by
    rw [isHexPairs, Bool.and_eq_true, beq_iff_eq] at h
    exact absurd h.1 Nat.one_ne_zero
  | c :: d :: s, h => by
    rw [isHexPairs, Bool.and_eq_true, beq_iff_eq, List.all_cons, List.all_cons, Bool.and_eq_true,
      Bool.and_eq_true, List.length_cons, List.length_cons] at h
    obtain ⟨hlength, hc, hd, hs⟩ := h
    have hpairs : isHexPairs s = true := by
      rw [isHexPairs, Bool.and_eq_true, beq_iff_eq]
      exact ⟨by omega, hs⟩
    obtain ⟨octets, hparse, hhex⟩ := parsePairs_of_isHexPairs hpairs
    obtain ⟨x, hx⟩ := Option.isSome_iff_exists.mp hc
    obtain ⟨y, hy⟩ := Option.isSome_iff_exists.mp hd
    obtain ⟨hx16, hxc⟩ := digitChar_of_radixValue hx
    obtain ⟨hy16, hyd⟩ := digitChar_of_radixValue hy
    have hoctet : (UInt8.ofNat (16 * x + y)).toNat = 16 * x + y := by
      rw [UInt8.toNat_ofNat']
      omega
    refine ⟨UInt8.ofNat (16 * x + y) :: octets, ?_, ?_⟩
    · rw [parsePairs, parseInt_pair hx hy]
      dsimp only
      rw [hparse, List.map_cons, hoctet]
      rfl
    · have hhigh : (16 * x + y) / 16 = x := by omega
      have hlow : (16 * x + y) % 16 = y := by omega
      rw [hexBytes, toHex_cons, hexByte, hoctet, hhigh, hlow, hxc, hyd, ← hexBytes, hhex]
      rfl

/-- What is written is in lower case. -/
theorem toLowerCase_hexBytes (octets : Bytes) :
    toLowerCase (hexBytes octets) = hexBytes octets := by
  rw [toLowerCase]
  conv_rhs => rw [← List.map_id (hexBytes octets)]
  apply List.map_congr_left
  intro c hc
  have hlower := isLowerHexDigit_of_mem_toHex hc
  rw [isLowerHexDigit, Bool.or_eq_true, Bool.and_eq_true, Bool.and_eq_true, decide_eq_true_eq,
    decide_eq_true_eq, decide_eq_true_eq, decide_eq_true_eq] at hlower
  exact if_neg (by omega)

/-- Hexadecimal octets have a number in every slice. -/
theorem isReadable_of_isHexPairs {s : JSString} (h : isHexPairs s = true) :
    isReadable s = true := by
  obtain ⟨octets, hparse, -⟩ := parsePairs_of_isHexPairs h
  rw [isHexPairs, Bool.and_eq_true, beq_iff_eq] at h
  exact (parseHex_ok_iff s).mp ⟨_, (parsePairs_eq_some_iff h.1).mp hparse⟩

/-! ## Octets -/

/-- Hexadecimal octets are read, and nothing else, by `parseBytes` as by `parseHex`. -/
def HexParsed (s : JSString) : Prop :=
  ((∃ bytes, parseBytes s = .ok (some bytes)) ↔ isHexPairs s = true) ∧
    (isHexPairs s = true → ∃ octets : Bytes,
      parseBytes s = .ok (some (octets.map fun b => (b.toNat : ℤ))) ∧
        hexBytes octets = toLowerCase s) ∧
    ∀ bytes, parseHex s = .ok bytes ↔ parseBytes s = .ok (some bytes)

theorem parseBytes_eq_ok_iff {s : JSString} {bytes : List ℤ} :
    parseBytes s = .ok (some bytes) ↔ s.length % 2 = 0 ∧ parsePairs s = some bytes := by
  rw [parseBytes]
  split
  · next hodd => exact iff_of_false (fun h => by cases h) fun h => hodd h.1
  · next heven => rw [Except.ok.injEq, and_iff_right (not_not.mp heven)]

/-- **A text is parsed as it should be** if and only if it is hexadecimal octets or has a slice
without a number; octets that are written are always read. -/
theorem hexParsed_iff (s : JSString) (octets : Bytes) :
    (HexParsed s ↔ isHexPairs s = true ∨ isReadable s = false) ∧
      parseBytes (hexBytes octets) = .ok (some (octets.map fun b => (b.toNat : ℤ))) := by
  have hpairs : ∀ {t : JSString}, isHexPairs t = true → t.length % 2 = 0 := by
    intro t ht
    rw [isHexPairs, Bool.and_eq_true, beq_iff_eq] at ht
    exact ht.1
  constructor
  · constructor
    · rintro ⟨haccepts, -, hboth⟩
      by_contra hneither
      rw [not_or, Bool.not_eq_false] at hneither
      obtain ⟨hnot, hread⟩ := hneither
      obtain ⟨bytes, hbytes⟩ := (parseHex_ok_iff s).mpr hread
      exact hnot (haccepts.mp ⟨bytes, (hboth bytes).mp hbytes⟩)
    · rintro (hhex | hunread)
      · obtain ⟨octets, hparse, hwrite⟩ := parsePairs_of_isHexPairs hhex
        have hok : parseBytes s = .ok (some (octets.map fun b => (b.toNat : ℤ))) :=
          parseBytes_eq_ok_iff.mpr ⟨hpairs hhex, hparse⟩
        refine ⟨iff_of_true ⟨_, hok⟩ hhex, fun _ => ⟨octets, hok, hwrite⟩, fun bytes => ?_⟩
        rw [parseBytes_eq_ok_iff, and_iff_right (hpairs hhex), parsePairs_eq_some_iff (hpairs hhex)]
      · have hnone : ∀ bytes, parseHex s ≠ .ok bytes := by
          intro bytes hbytes
          rw [(parseHex_ok_iff s).mp ⟨bytes, hbytes⟩] at hunread
          cases hunread
        have hnone' : ∀ bytes, parseBytes s ≠ .ok (some bytes) := by
          intro bytes hbytes
          obtain ⟨heven, hparse⟩ := parseBytes_eq_ok_iff.mp hbytes
          exact hnone bytes ((parsePairs_eq_some_iff heven).mp hparse)
        have hnot : ¬isHexPairs s = true := by
          intro hhex
          rw [isReadable_of_isHexPairs hhex] at hunread
          cases hunread
        refine ⟨iff_of_false (not_exists.mpr hnone') hnot, fun h => absurd h hnot, ?_⟩
        exact fun bytes => iff_of_false (hnone bytes) (hnone' bytes)
  · have hhex : isHexPairs (hexBytes octets) = true := isHexPairs_toHex octets
    obtain ⟨octets', hparse, hwrite⟩ := parsePairs_of_isHexPairs hhex
    rw [toLowerCase_hexBytes] at hwrite
    obtain rfl := toHex_injective hwrite
    exact parseBytes_eq_ok_iff.mpr ⟨hpairs hhex, hparse⟩

/-- `1g` is read as the octet 1. -/
theorem not_hexParsed : ¬HexParsed (js "1g") := by
  intro h
  have hread : parseBytes (js "1g") = .ok (some [1]) := by rfl
  exact absurd (h.1.mp ⟨[1], hread⟩) (by decide)

end MichelCodec
