import Taquito.MichelCodec.LongInteger
import Taquito.MichelsonEncoder.KeyPacking
import Taquito.Typechecker.Code

/-!
# The notations of a timestamp

Data of type `timestamp` may be a numeral, a text with a numeral, or a text with a date. The checker
and the writer both read texts with `parseDate`, which takes a natural numeral for milliseconds, as
`Date` does, while the writer divides the milliseconds by a thousand. So a text with a numeral of
seconds packs a thousandth of them, and one of a time before 1970 is refused.
-/

open Js MichelCodec
open MichelsonEncoder (packData_int packData_date packed_int_iff plainType)

namespace Typechecker

/-- The type of a timestamp. -/
def timestampType : Expr := .prim "timestamp" none none

/-- The notations of a number of seconds since the epoch: two numerals and a date in a zone. -/
def notations (offset : UtcOffset) (sec : ℤ) : List Expr :=
  [.int (intText sec), .string (intText sec), .string (zonedText offset sec)]

/-- Every notation is accepted, and packs as the integer. -/
def PackAlike (host : Host) (offset : UtcOffset) (sec : ℤ) : Prop :=
  ∀ d ∈ notations offset sec, assertDataValid host {} d timestampType = .ok () ∧
    (packData host d (some timestampType)).toOption =
      (packData host (.int (intText sec)) (some (.prim "int" none none))).toOption

/-! ## Dates -/

/-- The pattern of a date reads what the calendar writes, up to the zone. -/
theorem rfc3339Prefix_dateTimeText {y m d hh mm ss : ℕ} (h : IsDateTime y m d hh mm ss)
    (s : JSString) : rfc3339Prefix (dateTimeText y m d hh mm ss s) = some s := by
  have hd := h.day.2.trans (daysInMonth_le (isLeapYear y) h.month.2)
  obtain ⟨hy, hm, hday, hhour, hminute, hsecond⟩ := h
  rw [dateTimeText, rfc3339Prefix, readDigits_fixedText (by omega) (by omega)]
  simp only [Option.bind_eq_bind, Option.bind_some, readChar, if_true]
  rw [readDigits_fixedText (by omega) (by omega)]
  simp only [Option.bind_some, if_true]
  rw [readDigits_fixedText (by omega) (by omega)]
  simp only [Option.bind_some, Option.some_or, if_true]
  rw [readDigits_fixedText (by omega) (by omega)]
  simp only [Option.bind_some, if_true]
  rw [readDigits_fixedText (by omega) (by omega)]
  simp only [Option.bind_some, if_true]
  rw [readDigits_fixedText (by omega) (by omega)]
  simp only [Option.bind_some]
  rw [if_pos ⟨hm.1, hm.2, hday.1, hd, hhour, hminute, by omega⟩]

section

variable (host : Host) (offset : UtcOffset) {sec : ℤ}

/-- The date of a text in any zone. -/
theorem parseDate_zonedText (h : FourDigitYear (sec + 60 * offset.minutes))
    (hsec : sec.natAbs ≤ 8640000000000) :
    parseDate host (zonedText offset sec) = some (some (sec * 1000)) := by
  obtain ⟨y, m, d, hh, mm, ss, hvalid, -, htext⟩ := clockText_eq h
  have hfraction : rfc3339Fraction offset.text = offset.text := by
    unfold rfc3339Fraction
    split
    · rename_i heq
      exact absurd (by rw [heq]; rfl) offset.head_text
    · rfl
  have hre : rfc3339Re (zonedText offset sec) = true := by
    rw [zonedText, htext, rfc3339Re, rfc3339Prefix_dateTimeText hvalid]
    dsimp only
    rw [hfraction, offset.readOffset_text]
    rfl
  have hnatural : isNatural (zonedText offset sec) = false := by
    rw [zonedText, htext]
    refine isNatural_of_hyphen ?_
    simp
  have hclip : timeClip (sec * 1000) = some (sec * 1000) := if_pos (by omega)
  rw [parseDate, hnatural, if_neg Bool.false_ne_true, hre, if_pos rfl, dateParse,
    isoParse_zonedText offset h]
  exact congrArg some hclip

/-- A natural numeral is taken for milliseconds. -/
theorem parseDate_natural (hpos : 0 ≤ sec) (hsec : sec.natAbs ≤ 8640000000000) :
    parseDate host (intText sec) = some (some sec) := by
  have hclip : timeClip sec = some sec := if_pos (by omega)
  rw [parseDate, if_pos ((isNatural_intText sec).mpr hpos),
    parseInt_of_decimal (decimalValue_intText sec)]
  exact congrArg some hclip

/-- A negative numeral is no date. -/
theorem parseDate_negative (hneg : sec < 0) : parseDate host (intText sec) = none := by
  have hnatural : isNatural (intText sec) = false := by
    rw [← Bool.not_eq_true, isNatural_intText]
    omega
  have hre : rfc3339Re (intText sec) = false := by
    have hdigit : isDecimalDigit 45 = false := by decide
    rw [intText, if_pos hneg, show js "-" = [45] from rfl, List.singleton_append, rfc3339Re,
      rfc3339Prefix, readDigits, if_neg fun hall => ?_]
    · rfl
    · rw [List.take_succ_cons, List.all_cons, hdigit, Bool.false_and] at hall
      exact Bool.false_ne_true hall.2
  rw [parseDate, hnatural, hre]
  rfl

/-! ## What is accepted and packed -/

/-- The checker asks whether there is a date. -/
theorem assertDataValid_int (text : JSString) :
    assertDataValid host {} (.int text) timestampType = .ok () ↔
      isDecimal text = true := by
  show (if (parseLiteralDate host (.int text)).isSome then _ else _) = _ ↔ _
  rw [parseLiteralDate]
  cases isDecimal text with
  | true => exact iff_of_true rfl rfl
  | false => exact iff_of_false nofun nofun

theorem assertDataValid_string (text : JSString) :
    assertDataValid host {} (.string text) timestampType = .ok () ↔ parseDate host text ≠ none := by
  show (if (parseLiteralDate host (.string text)).isSome then _ else _) = _ ↔ _
  rw [parseLiteralDate]
  cases parseDate host text with
  | some date => exact iff_of_true rfl nofun
  | none => exact iff_of_false nofun fun h => h rfl

/-- A text packs as an integer exactly when its date is that many seconds. -/
theorem packData_string_iff (text : JSString) :
    (packData host (.string text) (some timestampType)).toOption =
        (packData host (.int (intText sec)) (some (.prim "int" none none))).toOption ↔
      ((parseDate host text).bind id).map (· / 1000) = some sec := by
  have hdate := packData_date host text
  have hint := packed_int_iff (p := "int") (by decide) (h := host)
    (x := ((parseDate host text).bind id).map (· / 1000)) (intText sec)
  rw [Option.map_map] at hint
  rw [show timestampType = plainType "timestamp" from rfl, hdate]
  refine hint.trans ?_
  rw [bigInt_of_decimal (decimalValue_intText sec)]

theorem packData_int_timestamp :
    (packData host (.int (intText sec)) (some timestampType)).toOption =
      (packData host (.int (intText sec)) (some (.prim "int" none none))).toOption :=
  (packData_int host (p := "timestamp") (by decide) (intText sec)).trans
    (packData_int host (p := "int") (by decide) (intText sec)).symm

/-- **The three notations of a time pack alike at the epoch only.** -/
theorem packAlike_iff (h : FourDigitYear (sec + 60 * offset.minutes)) :
    PackAlike host offset sec ↔ sec = 0 := by
  have hminutes := offset.minutes_bounds
  have hsec : sec.natAbs ≤ 8640000000000 := by
    obtain ⟨hlo, hhi⟩ := h
    omega
  constructor
  · intro halike
    obtain ⟨haccepted, hpacked⟩ := halike (.string (intText sec)) (by simp [notations])
    rw [assertDataValid_string] at haccepted
    rw [packData_string_iff] at hpacked
    by_cases hneg : sec < 0
    · exact absurd (parseDate_negative host hneg) haccepted
    · rw [parseDate_natural host (by omega) hsec] at hpacked
      have hseconds : sec / 1000 = sec := Option.some.inj hpacked
      omega
  · rintro rfl
    intro d hd
    simp only [notations, List.mem_cons, List.not_mem_nil, or_false] at hd
    rcases hd with rfl | rfl | rfl
    · exact ⟨(assertDataValid_int host _).mpr (isDecimal_intText 0), packData_int_timestamp host⟩
    · rw [assertDataValid_string, packData_string_iff, parseDate_natural host le_rfl hsec]
      exact ⟨nofun, rfl⟩
    · rw [assertDataValid_string, packData_string_iff, parseDate_zonedText host offset h hsec]
      exact ⟨nofun, rfl⟩

end

/-- The first second of 1970 is not packed from its numeral. -/
theorem packAlike_first_second : PackAlike Host.plain .utc 1 ↔ (1 : ℤ) = 0 :=
  packAlike_iff Host.plain .utc (by decide)

/-- One second after the epoch, the text `1` packs as zero. -/
theorem not_packAlike_first_second : ¬ PackAlike Host.plain .utc 1 := by
  intro halike
  have hmem : Expr.string (js "1") ∈ notations .utc 1 := List.mem_cons_of_mem _ List.mem_cons_self
  exact absurd (halike (.string (js "1")) hmem).2 (by decide)

end Typechecker
