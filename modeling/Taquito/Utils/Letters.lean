import Taquito.Host.Bs58check
import Taquito.Utils.Validators

/-!
# The letters of the prefixes

A validator decides by the first letters of a text and by the number of its octets
(`validatePrefixedValue_eq_valid`). The octets of a prefix make the letters: every text of the
prefix begins with them (`Lettered`), so it is valid (`validatePrefixedValue_encode`). The converse
fails, since the letters leave room for other octets.
-/

open Js

namespace Utils

/-- The texts of a prefix begin with its letters. -/
def Lettered (b58 : Base58Check) : Prop :=
  ∀ (p : Prefix) {payload : Bytes}, payload.length = p.payload →
    p.text <+: b58.encode (p.bytes ++ payload)

variable {b58 : Base58Check} {p : Prefix} {payload : Bytes}

/-- A text without `%` is validated whole. -/
theorem withoutEntrypoint_encode (hb : b58.Lawful) (halpha : b58.Alphanumeric) (bs : Bytes) :
    withoutEntrypoint (b58.encode bs) = b58.encode bs := by
  apply List.takeWhile_eq_self_iff.mpr
  intro c hc
  have hsome := halpha (hb.decode_encode bs) c hc
  apply decide_eq_true
  rintro rfl
  exact absurd hsome (by decide)

/-- No prefix of a list is the beginning of another one. -/
def Apart (prefixes : List Prefix) : Prop :=
  ∀ p ∈ prefixes, ∀ q ∈ prefixes, p.text <+: q.text → p = q

instance apartDecidable (prefixes : List Prefix) : Decidable (Apart prefixes) :=
  inferInstanceAs (Decidable (∀ p ∈ prefixes, ∀ q ∈ prefixes, p.text <+: q.text → p = q))

/-- The prefix that a text begins with. -/
theorem find?_of_prefix {prefixes : List Prefix} (hapart : Apart prefixes) (hp : p ∈ prefixes)
    {value : JSString} (htext : p.text <+: value) :
    prefixes.find? (fun q => q.text.isPrefixOf value) = some p := by
  have hsome : (prefixes.find? fun q => q.text.isPrefixOf value).isSome = true := by
    apply List.find?_isSome.mpr
    exact ⟨p, hp, List.isPrefixOf_iff_prefix.mpr htext⟩
  obtain ⟨q, hq⟩ := Option.isSome_iff_exists.mp hsome
  have hmem := List.mem_of_find?_eq_some hq
  have hholds := List.find?_some hq
  have hqtext : q.text <+: value := List.isPrefixOf_iff_prefix.mp hholds
  rw [hq]
  rcases List.prefix_or_prefix_of_prefix hqtext htext with h | h
  · rw [hapart q hmem p hp h]
  · rw [hapart p hp q hmem h]

/-- **A text of a prefix is valid.** -/
theorem validatePrefixedValue_encode (hb : b58.Lawful) (halpha : b58.Alphanumeric)
    (hl : Lettered b58) {prefixes : List Prefix} (hapart : Apart prefixes) (hp : p ∈ prefixes)
    (hKT1 : p ≠ .KT1) (hlength : payload.length = p.payload) :
    validatePrefixedValue b58 (b58.encode (p.bytes ++ payload)) prefixes = .VALID := by
  rw [validatePrefixedValue, find?_of_prefix hapart hp (hl p hlength)]
  simp only [withoutEntrypoint_encode hb halpha, hb.decode_encode, List.drop_left, hlength]
  simp [hKT1]

theorem lettered_bs58check : Lettered Bs58check.bs58check := by
  intro p payload hlength
  have hbegins : Bs58check.BeginsWith p.bytes p.payload p.text := by cases p <;> decide
  exact Bs58check.prefix_encode hbegins hlength

/-! ## What is valid -/

/-- The text is valid as one of the prefix: its letters, and the length of its octets. -/
structure ValidAs (b58 : Base58Check) (value : JSString) (p : Prefix) (bs : Bytes) : Prop where
  letters : p.text <+: value
  word : p = .KT1 → kt1Regex (withoutEntrypoint value) = true
  decoded : b58.decode (withoutEntrypoint value) = some bs
  length : bs.length = p.bytes.length + p.payload

theorem payload_pos (p : Prefix) : 0 < p.payload := by
  cases p <;> decide

/-- **What is valid.** -/
theorem validatePrefixedValue_eq_valid {prefixes : List Prefix} (hapart : Apart prefixes)
    {value : JSString} : validatePrefixedValue b58 value prefixes = .VALID ↔
      ∃ p ∈ prefixes, ∃ bs, ValidAs b58 value p bs := by
  constructor
  · intro h
    rw [validatePrefixedValue] at h
    cases hfind : prefixes.find? fun p => p.text.isPrefixOf value with
    | none =>
      rw [hfind] at h
      cases h
    | some p =>
      rw [hfind] at h
      dsimp only at h
      by_cases hword : (!kt1Regex (withoutEntrypoint value) && decide (p = .KT1)) = true
      · rw [if_pos hword] at h
        cases h
      · rw [if_neg hword] at h
        cases hdecode : b58.decode (withoutEntrypoint value) with
        | none =>
          rw [hdecode] at h
          cases h
        | some bs =>
          rw [hdecode] at h
          dsimp only at h
          by_cases hlength : (bs.drop p.bytes.length).length ≠ p.payload
          · rw [if_pos hlength] at h
            cases h
          · rw [not_not, List.length_drop] at hlength
            have hpos := payload_pos p
            have hletters := List.find?_some hfind
            refine ⟨p, List.mem_of_find?_eq_some hfind, bs, ?_, ?_, hdecode, by omega⟩
            · exact List.isPrefixOf_iff_prefix.mp hletters
            · intro hp
              simpa [hp] using hword
  · rintro ⟨p, hp, bs, h⟩
    rw [validatePrefixedValue, find?_of_prefix hapart hp h.letters]
    have hword : ¬ (!kt1Regex (withoutEntrypoint value) && decide (p = .KT1)) = true := by
      by_cases hKT1 : p = .KT1
      · rw [h.word hKT1]
        exact Bool.false_ne_true
      · rw [decide_eq_false hKT1, Bool.and_false]
        exact Bool.false_ne_true
    dsimp only
    rw [if_neg hword, h.decoded]
    dsimp only
    rw [if_neg]
    rw [not_not, List.length_drop, h.length, Nat.add_sub_cancel_left]

end Utils
