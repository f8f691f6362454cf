import Taquito.Js.Numbers

/-!
# Dates

A time value is a number of milliseconds since the epoch, or `none` for an invalid date. The
calendar is the one the language defines (`DayFromYear`, `YearFromTime`, ...). `isoParse` reads the
date-time format of the language; a text outside it is left to the implementation, which is the
parameter of `dateParse`.

`isoParse_isoText` says that the text `toISOString` gives a whole second of a four-digit year, cut
to the second, reads back as that second.
-/

namespace Js

/-! ## Calendar -/

/-- `DayFromYear`: the number of the first day of a year. -/
def dayFromYear (y : ℤ) : ℤ := 365 * (y - 1970) + (y - 1969) / 4 - (y - 1901) / 100 + (y - 1601) / 400

/-- A leap year has 366 days. -/
def isLeapYear (y : ℤ) : Bool := (y % 4 == 0 && y % 100 != 0) || y % 400 == 0

/-- The days of a year before its `m`-th month, counting months from zero. -/
def dayFromMonth (leap : Bool) (m : ℕ) : ℕ :=
  [0, 31, 59, 90, 120, 151, 181, 212, 243, 273, 304, 334].getD m 365 +
    if leap && 1 < m then 1 else 0

/-- `MakeDay`, of a month and a day counted from one. -/
def makeDay (y : ℤ) (m d : ℕ) : ℤ := dayFromYear y + dayFromMonth (isLeapYear y) (m - 1) + d - 1

/-- The days of a month counted from one. -/
def daysInMonth (leap : Bool) (m : ℕ) : ℕ := dayFromMonth leap m - dayFromMonth leap (m - 1)

/-- `YearFromTime`, of a day. -/
def yearFromDay (day : ℤ) : ℤ :=
  let y := (400 * day) / 146097 + 1970
  if dayFromYear (y + 1) ≤ day then y + 1 else if day < dayFromYear y then y - 1 else y

/-- `MonthFromTime`, of a day of the year, counting from one. -/
def monthFromDay (leap : Bool) (dayInYear : ℕ) : ℕ :=
  (List.range 12).countP fun m => dayFromMonth leap m ≤ dayInYear

/-! ## Texts -/

/-- A number on a fixed number of decimal digits. -/
def fixedText (k n : ℕ) : JSString := (BigEndian.fixedDigits 10 k n).map digitChar

/-- `new Date(ms)`, of an integer. -/
def timeClip (ms : ℤ) : Option ℤ := if ms.natAbs ≤ 8640000000000000 then some ms else none

/-- `toISOString` of a valid date. -/
def toISOString (ms : ℤ) : JSString :=
  let day := ms / 86400000
  let time := (ms % 86400000).toNat
  let y := yearFromDay day
  let dayInYear := (day - dayFromYear y).toNat
  let m := monthFromDay (isLeapYear y) dayInYear
  let year := if 0 ≤ y ∧ y ≤ 9999 then fixedText 4 y.toNat
    else js (if y < 0 then "-" else "+") ++ fixedText 6 y.natAbs
  year ++ js "-" ++ fixedText 2 m ++ js "-" ++
    fixedText 2 (dayInYear - dayFromMonth (isLeapYear y) (m - 1) + 1) ++ js "T" ++
    fixedText 2 (time / 3600000) ++ js ":" ++ fixedText 2 (time / 60000 % 60) ++ js ":" ++
    fixedText 2 (time / 1000 % 60) ++ js "." ++ fixedText 3 (time % 1000) ++ js "Z"

/-- The number on the next `k` characters, all of them decimal digits. -/
def readDigits (k : ℕ) (s : JSString) : Option (ℕ × JSString) :=
  if k ≤ s.length ∧ (s.take k).all isDecimalDigit then
    (digitsValue 10 (s.take k)).map (·, s.drop k)
  else none

/-- The next character, which has to be `c`. -/
def readChar (c : UInt16) : JSString → Option JSString
  | d :: s => if d = c then some s else none
  | [] => none

/-- The milliseconds of a fraction of exactly three digits, if there is one. -/
def readFraction (s : JSString) : Option (ℕ × JSString) :=
  match s with
  | 46 :: s => readDigits 3 s
  | s => some (0, s)

/-- The minutes of an offset: `Z`, or a sign, hours and minutes. -/
def readOffset : JSString → Option (ℤ × JSString)
  | 90 :: s => some (0, s)
  | c :: s =>
    if c = 43 ∨ c = 45 then do
      let (h, s) ← readDigits 2 s
      let s ← readChar 58 s
      let (m, s) ← readDigits 2 s
      if h ≤ 23 ∧ m ≤ 59 then some (if c = 43 then 60 * h + m else -(60 * h + m), s) else none
    else none
  | [] => none

/-- A date on ten characters: `YYYY-MM-DD`, a day of the calendar. -/
def readDay (s : JSString) : Option (ℤ × JSString) := do
  let (y, s) ← readDigits 4 s
  let s ← readChar 45 s
  let (m, s) ← readDigits 2 s
  let s ← readChar 45 s
  let (d, s) ← readDigits 2 s
  if 1 ≤ m ∧ m ≤ 12 ∧ 1 ≤ d ∧ d ≤ daysInMonth (isLeapYear y) m then some (makeDay y m d, s) else none

/-- The seconds of `HH:mm:ss`. -/
def readClock (s : JSString) : Option (ℕ × JSString) := do
  let (h, s) ← readDigits 2 s
  let s ← readChar 58 s
  let (m, s) ← readDigits 2 s
  let s ← readChar 58 s
  let (sec, s) ← readDigits 2 s
  if h ≤ 23 ∧ m ≤ 59 ∧ sec ≤ 59 then some (3600 * h + 60 * m + sec, s) else none

/-- The milliseconds of a text `YYYY-MM-DDTHH:mm:ss[.sss](Z|±HH:mm)`. -/
def isoParse (s : JSString) : Option ℤ := do
  let (day, s) ← readDay s
  let s ← readChar 84 s
  let (clock, s) ← readClock s
  let (ms, s) ← readFraction s
  let (offset, s) ← readOffset s
  if s.isEmpty then some (86400000 * day + 1000 * clock + ms - 60000 * offset) else none

/-- `Date.parse`, with the implementation's reading of the texts outside the format. -/
def dateParse (fallback : JSString → Option ℤ) (s : JSString) : Option ℤ :=
  match isoParse s with
  | some ms => timeClip ms
  | none => fallback s

/-! ## Reading back -/

theorem dayFromYear_succ (y : ℤ) :
    dayFromYear (y + 1) = dayFromYear y + 365 + if isLeapYear y then 1 else 0 := by
  simp only [dayFromYear, isLeapYear, Bool.or_eq_true, Bool.and_eq_true, beq_iff_eq, bne_iff_ne]
  split_ifs with h <;> omega

/-- The mean year of 365.2425 days places a day at most one year off. -/
theorem dayFromYear_yearFromDay (day : ℤ) :
    dayFromYear (yearFromDay day) ≤ day ∧ day < dayFromYear (yearFromDay day + 1) := by
  unfold yearFromDay
  dsimp only
  generalize hy : (400 * day) / 146097 + 1970 = y
  split_ifs with h₁ h₂
  · refine ⟨h₁, ?_⟩
    simp only [dayFromYear]
    omega
  · refine ⟨?_, by rwa [sub_add_cancel]⟩
    simp only [dayFromYear]
    omega
  · exact ⟨by omega, by omega⟩

/-! ## Reading back -/

theorem readDigits_fixedText {k n : ℕ} (hk : 0 < k) (h : n < 10 ^ k) (s : JSString) :
    readDigits k (fixedText k n ++ s) = some (n, s) := by
  have hlen : (fixedText k n).length = k := by simp [fixedText]
  have hlt : ∀ d ∈ BigEndian.fixedDigits 10 k n, d < 10 := fun d hd =>
    BigEndian.fixedDigits_lt (by omega) hd
  have hall : (fixedText k n).all isDecimalDigit = true := by
    rw [List.all_eq_true]
    intro c hc
    obtain ⟨d, hd, rfl⟩ := List.mem_map.mp hc
    simp [isDecimalDigit, radixValue_digitChar (show 10 ≤ 36 by omega) (hlt d hd)]
  have hne : BigEndian.fixedDigits 10 k n ≠ [] := by
    intro he
    have := BigEndian.fixedDigits_length 10 k n
    rw [he] at this
    simp at this
    omega
  have hv : digitsValue 10 (fixedText k n) = some n := by
    rw [fixedText, digitsValue_map (by omega) hne hlt, BigEndian.ofDigitsBE_fixedDigits,
      Nat.mod_eq_of_lt h]
  rw [readDigits, List.take_left' hlen, List.drop_left' hlen, if_pos ⟨by simp [hlen], hall⟩, hv]
  rfl

/-- The months begin one after the other. -/
theorem dayFromMonth_mono (leap : Bool) {i j : ℕ} (hij : i ≤ j) (hj : j ≤ 12) :
    dayFromMonth leap i ≤ dayFromMonth leap j := by
  have key : ∀ (leap : Bool) (j i : Fin 13), i ≤ j →
      dayFromMonth leap i.val ≤ dayFromMonth leap j.val := by decide
  exact key leap ⟨j, by omega⟩ ⟨i, by omega⟩ hij

/-- A day of a year lies in some month. -/
theorem exists_month (leap : Bool) {n : ℕ} (h : n < dayFromMonth leap 12) :
    ∃ m, m < 12 ∧ dayFromMonth leap m ≤ n ∧ n < dayFromMonth leap (m + 1) := by
  have hfirst : ∃ m, n < dayFromMonth leap m := ⟨12, h⟩
  obtain ⟨m, hm⟩ := Nat.exists_eq_succ_of_ne_zero (n := Nat.find hfirst) (by
    intro h0
    have hz := Nat.find_spec hfirst
    rw [h0] at hz
    cases leap <;> simp [dayFromMonth] at hz)
  have hlast : Nat.find hfirst ≤ 12 := Nat.find_min' hfirst h
  have hspec := Nat.find_spec hfirst
  rw [hm] at hspec
  refine ⟨m, by omega, ?_, hspec⟩
  exact not_lt.mp (Nat.find_min hfirst (by omega))

/-- The month of a day between the beginnings of two months. -/
theorem monthFromDay_eq (leap : Bool) {m n : ℕ} (hm : m < 12) (hlo : dayFromMonth leap m ≤ n)
    (hhi : n < dayFromMonth leap (m + 1)) : monthFromDay leap n = m + 1 := by
  have hcount : ∀ m : Fin 12, (List.range 12).countP (fun j => j ≤ m.val) = m.val + 1 := by decide
  rw [← hcount ⟨m, hm⟩]
  apply List.countP_congr
  intro j hj
  have hj := List.mem_range.mp hj
  rw [decide_eq_true_eq, decide_eq_true_eq]
  constructor
  · intro hle
    by_contra hlt
    have := dayFromMonth_mono leap (show m + 1 ≤ j by simpa using hlt) (by omega)
    omega
  · intro hle
    exact (dayFromMonth_mono leap hle (by omega)).trans hlo

/-- A day of a year lies in the month that is found for it. -/
theorem monthFromDay_spec (leap : Bool) {n : ℕ} (h : n < 365 + leap.toNat) :
    1 ≤ monthFromDay leap n ∧ monthFromDay leap n ≤ 12 ∧
      dayFromMonth leap (monthFromDay leap n - 1) ≤ n ∧
      n < dayFromMonth leap (monthFromDay leap n) := by
  have hyear : dayFromMonth leap 12 = 365 + leap.toNat := by cases leap <;> rfl
  obtain ⟨m, hm, hlo, hhi⟩ := exists_month leap (hyear ▸ h)
  rw [monthFromDay_eq leap hm hlo hhi, Nat.add_sub_cancel]
  exact ⟨by omega, hm, hlo, hhi⟩
/-- The text of a whole second without its zone: `date.toISOString().slice(0, 19)`. -/
def clockText (sec : ℤ) : JSString := (toISOString (sec * 1000)).take 19

/-- The text of a whole second: `date.toISOString().slice(0, 19) + 'Z'`. -/
def isoText (sec : ℤ) : JSString := clockText sec ++ js "Z"

/-- The seconds of the years `0000` to `9999`. -/
def FourDigitYear (sec : ℤ) : Prop := -62167219200 ≤ sec ∧ sec ≤ 253402300799

instance (sec : ℤ) : Decidable (FourDigitYear sec) := inferInstanceAs (Decidable (_ ∧ _))

private theorem fixedText_length (k n : ℕ) : (fixedText k n).length = k := by simp [fixedText]

/-- A text `YYYY-MM-DDTHH:mm:ss`, and what follows it. -/
def dateTimeText (y m d hh mm ss : ℕ) (s : JSString) : JSString :=
  fixedText 4 y ++ 45 :: (fixedText 2 m ++ 45 :: (fixedText 2 d ++ 84 ::
    (fixedText 2 hh ++ 58 :: (fixedText 2 mm ++ 58 :: (fixedText 2 ss ++ s)))))

/-- The six numbers of such a text are those of a day of the calendar and of a clock. -/
structure IsDateTime (y m d hh mm ss : ℕ) : Prop where
  year : y ≤ 9999
  month : 1 ≤ m ∧ m ≤ 12
  day : 1 ≤ d ∧ d ≤ daysInMonth (isLeapYear y) m
  hour : hh ≤ 23
  minute : mm ≤ 59
  second : ss ≤ 59

theorem clockText_eq {sec : ℤ} (h : FourDigitYear sec) : ∃ y m d hh mm ss : ℕ,
    IsDateTime y m d hh mm ss ∧ sec = 86400 * makeDay y m d + 3600 * hh + 60 * mm + ss ∧
      ∀ s, clockText sec ++ s = dateTimeText y m d hh mm ss s := by
  obtain ⟨hlo, hhi⟩ := h
  generalize hday : sec * 1000 / 86400000 = day
  generalize htime : (sec * 1000 % 86400000).toNat = time
  obtain ⟨hy₁, hy₂⟩ := dayFromYear_yearFromDay day
  generalize hyear : yearFromDay day = y at hy₁ hy₂
  have hy : 0 ≤ y ∧ y ≤ 9999 := by
    simp only [dayFromYear] at hy₁ hy₂
    omega
  obtain ⟨y, rfl⟩ := Int.eq_ofNat_of_zero_le hy.1
  generalize hn : (day - dayFromYear y).toNat = n
  have hnlt : n < 365 + (isLeapYear y).toNat := by
    rw [dayFromYear_succ] at hy₂
    cases hl : isLeapYear y <;> simp [hl] at hy₂ ⊢ <;> omega
  obtain ⟨hm₁, hm₂, hm₃, hm₄⟩ := monthFromDay_spec (isLeapYear y) hnlt
  generalize hm : monthFromDay (isLeapYear y) n = m at hm₁ hm₂ hm₃ hm₄
  refine ⟨y, m, n - dayFromMonth (isLeapYear y) (m - 1) + 1, time / 3600000, time / 60000 % 60,
    time / 1000 % 60, ⟨by omega, ⟨hm₁, hm₂⟩, ⟨by omega, ?_⟩, by omega, by omega, by omega⟩, ?_,
    fun s => ?_⟩
  · rw [daysInMonth]
    omega
  · rw [makeDay]
    push_cast [Nat.cast_sub hm₃]
    omega
  · simp only [clockText, dateTimeText, toISOString, hday, htime, hyear, hn, hm, hy, and_self,
      if_true, Int.toNat_natCast, js]
    simp [List.take_append, fixedText_length, List.take_of_length_le]

private theorem readDay_fixedText {y m d : ℕ} (hy : y ≤ 9999) (hm : 1 ≤ m ∧ m ≤ 12)
    (hd : 1 ≤ d ∧ d ≤ daysInMonth (isLeapYear y) m) (s : JSString) :
    readDay (fixedText 4 y ++ 45 :: (fixedText 2 m ++ 45 :: (fixedText 2 d ++ s))) =
      some (makeDay y m d, s) := by
  have hd100 : d < 100 := by
    have key : ∀ (leap : Bool) (i : Fin 13), daysInMonth leap i.val < 100 := by decide
    exact lt_of_le_of_lt hd.2 (key (isLeapYear y) ⟨m, by omega⟩)
  rw [readDay, readDigits_fixedText (by omega) (by omega)]
  simp only [Option.bind_eq_bind, Option.bind_some, readChar, if_true]
  rw [readDigits_fixedText (by omega) (by omega)]
  simp only [Option.bind_some, if_true]
  rw [readDigits_fixedText (by omega) (by omega)]
  simp only [Option.bind_some]
  rw [if_pos ⟨hm.1, hm.2, hd.1, hd.2⟩]

private theorem readClock_fixedText {h m sec : ℕ} (hh : h ≤ 23) (hm : m ≤ 59) (hsec : sec ≤ 59)
    (s : JSString) :
    readClock (fixedText 2 h ++ 58 :: (fixedText 2 m ++ 58 :: (fixedText 2 sec ++ s))) =
      some (3600 * h + 60 * m + sec, s) := by
  rw [readClock, readDigits_fixedText (by omega) (by omega)]
  simp only [Option.bind_eq_bind, Option.bind_some, readChar, if_true]
  rw [readDigits_fixedText (by omega) (by omega)]
  simp only [Option.bind_some, if_true]
  rw [readDigits_fixedText (by omega) (by omega)]
  simp only [Option.bind_some]
  rw [if_pos ⟨hh, hm, hsec⟩]

theorem daysInMonth_le (leap : Bool) {m : ℕ} (hm : m ≤ 12) : daysInMonth leap m ≤ 31 := by
  have key : ∀ (leap : Bool) (i : Fin 13), daysInMonth leap i.val ≤ 31 := by decide
  exact key leap ⟨m, by omega⟩

/-- A text of this form, read up to its zone. -/
theorem isoParse_dateTimeText {y m d hh mm ss : ℕ} (h : IsDateTime y m d hh mm ss) {zone : JSString}
    {offset : ℤ} (hzone : zone.head? ≠ some 46) (hoffset : readOffset zone = some (offset, [])) :
    isoParse (dateTimeText y m d hh mm ss zone) =
      some ((86400 * makeDay y m d + 3600 * hh + 60 * mm + ss - 60 * offset) * 1000) := by
  rw [dateTimeText, isoParse, readDay_fixedText h.year h.month h.day]
  simp only [Option.bind_eq_bind, Option.bind_some, readChar, if_true]
  rw [readClock_fixedText h.hour h.minute h.second]
  have hfraction : readFraction zone = some (0, zone) := by
    unfold readFraction
    split
    · exact absurd rfl hzone
    · rfl
  simp only [Option.bind_some, hfraction, hoffset, List.isEmpty_nil, if_true, Option.some.injEq]
  push_cast
  ring

/-- **The text of a second reads back as that second.** -/
theorem isoParse_isoText {sec : ℤ} (h : FourDigitYear sec) :
    isoParse (isoText sec) = some (sec * 1000) := by
  obtain ⟨y, m, d, hh, mm, ss, hvalid, hsec, htext⟩ := clockText_eq h
  rw [isoText, htext, isoParse_dateTimeText hvalid (by decide) (show readOffset (js "Z") = _ from rfl),
    hsec]
  congr 1
  ring

/-! ## Zones -/

/-- The offset of a zone from UTC: `Z`, or hours and minutes to the east or the west. -/
inductive UtcOffset where
  | utc
  | shifted (west : Bool) (hours : Fin 24) (minutes : Fin 60)
  deriving Repr

/-- The offset in minutes. -/
def UtcOffset.minutes : UtcOffset → ℤ
  | .utc => 0
  | .shifted west h m => if west then -(60 * h.val + m.val) else 60 * h.val + m.val

/-- The text of the offset. -/
def UtcOffset.text : UtcOffset → JSString
  | .utc => js "Z"
  | .shifted west h m =>
    (if west then 45 else 43) :: (fixedText 2 h.val ++ 58 :: fixedText 2 m.val)

/-- The RFC3339 text of a whole second in a zone. -/
def zonedText (offset : UtcOffset) (sec : ℤ) : JSString :=
  clockText (sec + 60 * offset.minutes) ++ offset.text

theorem UtcOffset.minutes_bounds (offset : UtcOffset) :
    -1440 < offset.minutes ∧ offset.minutes < 1440 := by
  match offset with
  | .utc => decide
  | .shifted west h m =>
    rw [minutes]
    split <;> omega

theorem UtcOffset.head_text (offset : UtcOffset) : offset.text.head? ≠ some 46 := by
  match offset with
  | .utc | .shifted true _ _ | .shifted false _ _ => exact ne_of_beq_false rfl

theorem UtcOffset.readOffset_text (offset : UtcOffset) :
    readOffset offset.text = some (offset.minutes, []) := by
  match offset with
  | .utc => rfl
  | .shifted west h m =>
    have hc : (if west then (45 : UInt16) else 43) ≠ 90 := by cases west <;> decide
    have hsign : (if west then (45 : UInt16) else 43) = 43 ∨
        (if west then (45 : UInt16) else 43) = 45 := by cases west <;> decide
    have hm := readDigits_fixedText (k := 2) (by omega) (show m.val < 10 ^ 2 by omega) []
    rw [List.append_nil] at hm
    rw [text, readOffset.eq_2 _ _ hc, if_pos hsign, readDigits_fixedText (by omega) (by omega)]
    simp only [Option.bind_eq_bind, Option.bind_some, readChar, if_true]
    rw [hm]
    simp only [Option.bind_some]
    rw [if_pos ⟨by omega, by omega⟩]
    cases west <;> rfl

/-- **The text of a second in any zone reads back as that second.** -/
theorem isoParse_zonedText (offset : UtcOffset) {sec : ℤ}
    (h : FourDigitYear (sec + 60 * offset.minutes)) :
    isoParse (zonedText offset sec) = some (sec * 1000) := by
  obtain ⟨y, m, d, hh, mm, ss, hvalid, hsec, htext⟩ := clockText_eq h
  rw [zonedText, htext, isoParse_dateTimeText hvalid offset.head_text offset.readOffset_text, ← hsec]
  congr 1
  ring

end Js
