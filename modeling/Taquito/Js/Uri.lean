import Taquito.Js.Utf8

/-!
# Percent encoding

`encodeURIComponent` leaves letters, digits and ten marks as they are and writes the octets of
everything else as `%XX`; `decodeURIComponent` reads each run of such escapes as UTF-8, strictly.
Decoding undoes encoding on well-formed text (`decodeURIComponent_encodeURIComponent`).
-/

namespace Js

/-! ## The functions -/

/-- The characters `\w`. -/
def isWordChar (c : UInt16) : Bool :=
  (48 ≤ c.toNat && c.toNat ≤ 57) || (65 ≤ c.toNat && c.toNat ≤ 90) ||
    (97 ≤ c.toNat && c.toNat ≤ 122) || c == 95

/-- The marks beside `_` that are not escaped. -/
def isMark (c : UInt16) : Bool := (js "-.!~*'()").contains c

/-- `%` and two digits. -/
def escape (b : UInt8) : JSString :=
  let digit (d : ℕ) : UInt16 := UInt16.ofNat (if d < 10 then 48 + d else 55 + d)
  [37, digit (b.toNat / 16), digit (b.toNat % 16)]

/-- The encoding of a code unit that is not half of a pair. -/
def encodeUnit (c : UInt16) : JSString :=
  if isWordChar c || isMark c then [c] else (unitBytes c).flatMap escape

/-- The encoding of code units. -/
def encodeUnits : JSString → JSString
  | [] => []
  | [c] => encodeUnit c
  | c :: d :: s =>
    if isHighSurrogate c && isLowSurrogate d then
      (scalarBytes (pairValue c d)).flatMap escape ++ encodeUnits s
    else encodeUnit c ++ encodeUnits (d :: s)

/-- `encodeURIComponent`; `none` is a `URIError`. -/
def encodeURIComponent (s : JSString) : Option JSString :=
  if wellFormed s then some (encodeUnits s) else none

/-- The text of octets that must be UTF-8. -/
def decodeOctets (octets : Bytes) : Option JSString :=
  if validUtf8 octets then some (utf8Decode octets) else none

/-- `decodeURIComponent` behind a run of escapes with these octets. -/
def decodeRun (octets : Bytes) : JSString → Option JSString
  | [] => decodeOctets octets
  | c :: s =>
    if c = 37 then
      match s with
      | a :: b :: s =>
        match radixValue 16 a, radixValue 16 b with
        | some x, some y => decodeRun (octets ++ [UInt8.ofNat (16 * x + y)]) s
        | _, _ => none
      | _ => none
    else do return (← decodeOctets octets) ++ c :: (← decodeRun [] s)

/-- `decodeURIComponent`; `none` is a `URIError`. -/
def decodeURIComponent (s : JSString) : Option JSString := decodeRun [] s

/-! ## Well-formed text, code point by code point -/

/-- Induction along the code points of a well-formed text. -/
theorem wellFormed_induction {motive : (s : JSString) → wellFormed s = true → Prop}
    (nil : motive [] rfl)
    (unit : ∀ c s (_ : isHighSurrogate c = false) (_ : isLowSurrogate c = false)
      (hs : wellFormed s = true) (h : wellFormed (c :: s) = true), motive s hs → motive (c :: s) h)
    (pair : ∀ c d s (_ : isHighSurrogate c = true) (_ : isLowSurrogate d = true)
      (hs : wellFormed s = true) (h : wellFormed (c :: d :: s) = true), motive s hs →
      motive (c :: d :: s) h) :
    ∀ s (h : wellFormed s = true), motive s h
  | [], _ => nil
  | [c], h => by
    have hc := h
    simp only [wellFormed, Bool.and_eq_true, Bool.not_eq_true'] at hc
    exact unit c [] hc.1 hc.2 rfl h nil
  | c :: d :: s, h => by
    have hcd := h
    rw [wellFormed] at hcd
    by_cases hc : isHighSurrogate c = true
    · rw [if_pos hc, Bool.and_eq_true] at hcd
      exact pair c d s hc hcd.1 hcd.2 h (wellFormed_induction nil unit pair s hcd.2)
    · rw [if_neg hc, Bool.and_eq_true, Bool.not_eq_true'] at hcd
      exact unit c (d :: s) (by simpa using hc) hcd.1 hcd.2 h
        (wellFormed_induction nil unit pair (d :: s) hcd.2)

section

variable {c d : UInt16}

theorem wellFormed_unit (hh : isHighSurrogate c = false) (hl : isLowSurrogate c = false)
    (s : JSString) : wellFormed (c :: s) = wellFormed s := by
  cases s with
  | nil => simp [wellFormed, hh, hl]
  | cons d s => simp [wellFormed, hh, hl]

theorem wellFormed_pair (hh : isHighSurrogate c = true) (hl : isLowSurrogate d = true)
    (s : JSString) : wellFormed (c :: d :: s) = wellFormed s := by
  simp [wellFormed, hh, hl]

theorem utf8Encode_unit (hh : isHighSurrogate c = false) (s : JSString) :
    utf8Encode (c :: s) = unitBytes c ++ utf8Encode s := by
  cases s with
  | nil => simp [utf8Encode]
  | cons d s => simp [utf8Encode, hh]

theorem utf8Encode_pair (hh : isHighSurrogate c = true) (hl : isLowSurrogate d = true)
    (s : JSString) : utf8Encode (c :: d :: s) = scalarBytes (pairValue c d) ++ utf8Encode s := by
  simp [utf8Encode, hh, hl]

theorem encodeUnits_unit (hh : isHighSurrogate c = false) (s : JSString) :
    encodeUnits (c :: s) = encodeUnit c ++ encodeUnits s := by
  cases s with
  | nil => simp [encodeUnits]
  | cons d s => simp [encodeUnits, hh]

theorem encodeUnits_pair (hh : isHighSurrogate c = true) (hl : isLowSurrogate d = true)
    (s : JSString) :
    encodeUnits (c :: d :: s) = (scalarBytes (pairValue c d)).flatMap escape ++ encodeUnits s := by
  simp [encodeUnits, hh, hl]

end

theorem wellFormed_append {a b : JSString} (ha : wellFormed a = true) (hb : wellFormed b = true) :
    wellFormed (a ++ b) = true := by
  induction a, ha using wellFormed_induction with
  | nil => exact hb
  | unit c s hh hl _ _ ih =>
    rw [List.cons_append, wellFormed_unit hh hl]
    exact ih
  | pair c d s hh hl _ _ ih =>
    rw [List.cons_append, List.cons_append, wellFormed_pair hh hl]
    exact ih

theorem utf8Encode_append {a : JSString} (ha : wellFormed a = true) (b : JSString) :
    utf8Encode (a ++ b) = utf8Encode a ++ utf8Encode b := by
  induction a, ha using wellFormed_induction with
  | nil => rfl
  | unit c s hh _ _ _ ih =>
    rw [List.cons_append, utf8Encode_unit hh, utf8Encode_unit hh, ih, List.append_assoc]
  | pair c d s hh hl _ _ ih =>
    rw [List.cons_append, List.cons_append, utf8Encode_pair hh hl, utf8Encode_pair hh hl, ih,
      List.append_assoc]

/-! ## Decoding what was encoded -/

theorem decodeOctets_utf8Encode {s : JSString} (h : wellFormed s = true) :
    decodeOctets (utf8Encode s) = some s := by
  rw [decodeOctets, if_pos ((validUtf8_iff _).mpr ⟨s, h, rfl⟩), utf8Decode_utf8Encode h]

/-- A digit of an escape. -/
theorem radixValue_escape {d : ℕ} (h : d < 16) :
    radixValue 16 (UInt16.ofNat (if d < 10 then 48 + d else 55 + d)) = some d := by
  have key : ∀ i : Fin 16,
      radixValue 16 (UInt16.ofNat (if i.val < 10 then 48 + i.val else 55 + i.val)) =
        some i.val := by
    decide
  exact key ⟨d, h⟩

theorem decodeRun_escape (octets : Bytes) (b : UInt8) (s : JSString) :
    decodeRun octets (escape b ++ s) = decodeRun (octets ++ [b]) s := by
  have hb := b.toNat_lt
  have hvalue : 16 * (b.toNat / 16) + b.toNat % 16 = b.toNat := by omega
  rw [escape, List.cons_append, List.cons_append, List.cons_append, List.nil_append, decodeRun,
    if_pos rfl]
  simp only [radixValue_escape (show b.toNat / 16 < 16 by omega),
    radixValue_escape (show b.toNat % 16 < 16 by omega)]
  rw [hvalue, UInt8.ofNat_toNat]

theorem decodeRun_escapes (octets bs : Bytes) (s : JSString) :
    decodeRun octets (bs.flatMap escape ++ s) = decodeRun (octets ++ bs) s := by
  induction bs generalizing octets with
  | nil => rw [List.flatMap_nil, List.nil_append, List.append_nil]
  | cons b bs ih =>
    rw [List.flatMap_cons, List.append_assoc, decodeRun_escape, ih, List.append_assoc]
    rfl

theorem decodeRun_cons {octets : Bytes} {c : UInt16} (hc : c ≠ 37) (s : JSString) :
    decodeRun octets (c :: s) =
      do return (← decodeOctets octets) ++ c :: (← decodeRun [] s) := by
  match s with
  | [] => simp [decodeRun, hc]
  | [x] => simp [decodeRun, hc]
  | x :: y :: s => simp [decodeRun, hc]

/-- A character that is not escaped. -/
theorem decodeRun_plain {a : JSString} (ha : wellFormed a = true) {c : UInt16} (hc : c ≠ 37)
    {s t : JSString} (h : decodeRun [] s = some t) :
    decodeRun (utf8Encode a) (c :: s) = some (a ++ c :: t) := by
  rw [decodeRun_cons hc, decodeOctets_utf8Encode ha, h]
  rfl

theorem ne_percent_of_plain {c : UInt16} (h : (isWordChar c || isMark c) = true) : c ≠ 37 := by
  rintro rfl
  exact absurd h (by decide)

/-- Behind the escapes of `a`, the encoding of `s` is read. -/
theorem decodeRun_encodeUnits {s : JSString} (hs : wellFormed s = true) :
    ∀ {a : JSString}, wellFormed a = true →
      decodeRun (utf8Encode a) (encodeUnits s) = some (a ++ s) := by
  induction s, hs using wellFormed_induction with
  | nil =>
    intro a ha
    rw [encodeUnits, decodeRun, decodeOctets_utf8Encode ha, List.append_nil]
  | unit c s hh hl _ _ ih =>
    intro a ha
    rw [encodeUnits_unit hh, encodeUnit]
    by_cases hplain : (isWordChar c || isMark c) = true
    · rw [if_pos hplain]
      exact decodeRun_plain ha (ne_percent_of_plain hplain) (ih (a := []) rfl)
    · have hc : wellFormed [c] = true := by rw [wellFormed_unit hh hl]; rfl
      have hbytes : utf8Encode [c] = unitBytes c := rfl
      rw [if_neg hplain, decodeRun_escapes, ← hbytes, ← utf8Encode_append ha,
        ih (wellFormed_append ha hc), List.append_assoc]
      rfl
  | pair c d s hh hl _ _ ih =>
    intro a ha
    have hcd : wellFormed [c, d] = true := by rw [wellFormed_pair hh hl]; rfl
    have hbytes : utf8Encode [c, d] = scalarBytes (pairValue c d) := by
      rw [utf8Encode_pair hh hl]
      exact List.append_nil _
    rw [encodeUnits_pair hh hl, decodeRun_escapes, ← hbytes, ← utf8Encode_append ha,
      ih (wellFormed_append ha hcd), List.append_assoc]
    rfl

/-- **Decoding undoes encoding.** -/
theorem decodeURIComponent_encodeURIComponent {s : JSString} (h : wellFormed s = true) :
    ∃ e, encodeURIComponent s = some e ∧ decodeURIComponent e = some s := by
  refine ⟨encodeUnits s, if_pos h, ?_⟩
  exact decodeRun_encodeUnits h (a := []) rfl

/-! ## The characters of an encoding -/

theorem mem_escape {b : UInt8} {c : UInt16} (h : c ∈ escape b) : isWordChar c = true ∨ c = 37 := by
  have key : ∀ i : Fin 16,
      isWordChar (UInt16.ofNat (if i.val < 10 then 48 + i.val else 55 + i.val)) = true := by
    decide
  have hb := b.toNat_lt
  simp only [escape, List.mem_cons, List.not_mem_nil, or_false] at h
  rcases h with rfl | rfl | rfl
  · exact Or.inr rfl
  · exact Or.inl (key ⟨b.toNat / 16, by omega⟩)
  · exact Or.inl (key ⟨b.toNat % 16, by omega⟩)

/-- What is not a word character or `%` in an encoding is a mark, and stands in the text. -/
theorem mem_encodeUnits {s : JSString} (hs : wellFormed s = true) {c : UInt16} :
    c ∈ encodeUnits s → isWordChar c = true ∨ c = 37 ∨ isMark c = true := by
  induction s, hs using wellFormed_induction with
  | nil => exact fun h => absurd h List.not_mem_nil
  | unit d s hh _ _ _ ih =>
    intro h
    rw [encodeUnits_unit hh, encodeUnit] at h
    rcases List.mem_append.mp h with h | h
    · by_cases hplain : (isWordChar d || isMark d) = true
      · rw [if_pos hplain, List.mem_singleton] at h
        subst h
        exact (Bool.or_eq_true _ _ ▸ hplain).imp_right Or.inr
      · rw [if_neg hplain] at h
        obtain ⟨b, -, hb⟩ := List.mem_flatMap.mp h
        exact (mem_escape hb).imp_right Or.inl
    · exact ih h
  | pair d d' s hh hl _ _ ih =>
    intro h
    rw [encodeUnits_pair hh hl] at h
    rcases List.mem_append.mp h with h | h
    · obtain ⟨b, -, hb⟩ := List.mem_flatMap.mp h
      exact (mem_escape hb).imp_right Or.inl
    · exact ih h

/-- A mark stands in the encoding exactly if it stands in the text. -/
theorem mark_mem_encodeUnits {s : JSString} (hs : wellFormed s = true) {c : UInt16}
    (hc : isMark c = true) : c ∈ encodeUnits s ↔ c ∈ s := by
  have hescape : ∀ bs : Bytes, c ∉ bs.flatMap escape := by
    intro bs h
    obtain ⟨b, -, hb⟩ := List.mem_flatMap.mp h
    have hmark : c ∈ js "-.!~*'()" := List.contains_iff_mem.mp hc
    have hnone : (js "-.!~*'()").all (fun m => !isWordChar m && m != 37) = true := by
      decide
    have hchar := List.all_eq_true.mp hnone c hmark
    rw [Bool.and_eq_true, Bool.not_eq_true', bne_iff_ne] at hchar
    rcases mem_escape hb with hw | h37
    · exact absurd hw (by rw [hchar.1]; exact Bool.false_ne_true)
    · exact hchar.2 h37
  have hsurrogate : isHighSurrogate c = false ∧ isLowSurrogate c = false := by
    have hnone : (js "-.!~*'()").all (fun m => !isHighSurrogate m && !isLowSurrogate m) = true := by
      decide
    have hchar := List.all_eq_true.mp hnone c (List.contains_iff_mem.mp hc)
    rw [Bool.and_eq_true, Bool.not_eq_true', Bool.not_eq_true'] at hchar
    exact hchar
  induction s, hs using wellFormed_induction with
  | nil => exact Iff.rfl
  | unit d s hh _ _ _ ih =>
    have ih : c ∈ encodeUnits s ↔ c ∈ s := ih
    rw [encodeUnits_unit hh, List.mem_append, ih, List.mem_cons, encodeUnit]
    by_cases hplain : (isWordChar d || isMark d) = true
    · rw [if_pos hplain, List.mem_singleton]
    · have hne : c ≠ d := by
        rintro rfl
        exact hplain (by rw [hc, Bool.or_true])
      rw [if_neg hplain, or_iff_right (hescape _), or_iff_right hne]
  | pair d d' s hh hl _ _ ih =>
    have hd : c ≠ d := by
      rintro rfl
      rw [hsurrogate.1] at hh
      exact Bool.false_ne_true hh
    have hd' : c ≠ d' := by
      rintro rfl
      rw [hsurrogate.2] at hl
      exact Bool.false_ne_true hl
    have ih : c ∈ encodeUnits s ↔ c ∈ s := ih
    rw [encodeUnits_pair hh hl, List.mem_append, ih, List.mem_cons, List.mem_cons,
      or_iff_right (hescape _), or_iff_right hd, or_iff_right hd']

theorem encodeUnits_ne_nil {s : JSString} (hs : wellFormed s = true) (h : s ≠ []) :
    encodeUnits s ≠ [] := by
  intro he
  have hback := decodeRun_encodeUnits hs (a := []) rfl
  rw [he] at hback
  exact h (Option.some.inj hback).symm

end Js
