import Taquito.Js.Utf8

/-!
# JSON texts

`JSON.stringify` of a string, which escapes quotes, backslashes, control characters and unpaired
surrogates, and `JSON.parse` of a text that is a string literal. The second undoes the first on
every string (`parseString_stringify`).

The text of a whole value (`Json.text`) determines the value, whatever follows it
(`Json.text_append_injective`).
-/

open BigEndian

namespace Js

/-! ## Writing -/

/-- The escape of a code unit by its number. -/
def unicodeEscape (c : UInt16) : JSString :=
  js "\\u" ++ (fixedDigits 16 4 c.toNat).map digitChar

/-- A code unit inside a JSON string; `lone` says that it is an unpaired surrogate. -/
def quoteUnit (lone : Bool) (c : UInt16) : JSString :=
  if c = 0x08 then js "\\b"
  else if c = 0x09 then js "\\t"
  else if c = 0x0A then js "\\n"
  else if c = 0x0C then js "\\f"
  else if c = 0x0D then js "\\r"
  else if c = 0x22 then js "\\\""
  else if c = 0x5C then js "\\\\"
  else if c.toNat < 0x20 || lone then unicodeEscape c
  else [c]

/-- A surrogate without its other half, between the units before and after it. -/
def isLone (before c : UInt16) (after : Option UInt16) : Bool :=
  (isHighSurrogate c && !after.any isLowSurrogate) || (isLowSurrogate c && !isHighSurrogate before)

/-- The units of a string inside quotes, after the unit `before`. -/
def quoteUnits (before : UInt16) : JSString → JSString
  | [] => []
  | c :: s => quoteUnit (isLone before c s.head?) c ++ quoteUnits c s

/-- `JSON.stringify`, of a string. -/
def stringify (s : JSString) : JSString := 0x22 :: (quoteUnits 0 s ++ [0x22])

/-! ## Reading -/

/-- The unit that a one-letter escape stands for. -/
def escapedUnit (c : UInt16) : Option UInt16 :=
  if c = 0x22 ∨ c = 0x5C ∨ c = 0x2F then some c
  else if c = 0x62 then some 0x08
  else if c = 0x66 then some 0x0C
  else if c = 0x6E then some 0x0A
  else if c = 0x72 then some 0x0D
  else if c = 0x74 then some 0x09
  else none

/-- Four hexadecimal digits. -/
def hexUnit (ds : JSString) : Option UInt16 := (digitsValue 16 ds).map UInt16.ofNat

/-- The units of a JSON string up to the closing quote, which ends the text. Inside an escape,
`escape` holds the units after the backslash. -/
def parseUnits (escape : Option JSString) : JSString → Option JSString
  | [] => none
  | c :: s =>
    match escape with
    | none =>
      if c = 0x22 then if s.isEmpty then some [] else none
      else if c.toNat < 0x20 then none
      else if c = 0x5C then parseUnits (some []) s
      else (parseUnits none s).map (c :: ·)
    | some [] =>
      if c = 0x75 then parseUnits (some [c]) s
      else (escapedUnit c).bind fun u => (parseUnits none s).map (u :: ·)
    | some (u :: ds) =>
      if ds.length < 3 then parseUnits (some (u :: (ds ++ [c]))) s
      else (hexUnit (ds ++ [c])).bind fun u => (parseUnits none s).map (u :: ·)

/-- `JSON.parse`, of a text that starts with a quote; `none` is a `SyntaxError`. -/
def parseString : JSString → Option JSString
  | 0x22 :: s => parseUnits none s
  | _ => none

/-! ## Round trip -/

private theorem parseUnits_escape {d u : UInt16} (hd : d ≠ 0x75) (hu : escapedUnit d = some u)
    (s : JSString) : parseUnits none (0x5C :: d :: s) = (parseUnits none s).map (u :: ·) := by
  rw [parseUnits, if_neg (by decide), if_neg (by decide), if_pos rfl, parseUnits, if_neg hd, hu]
  rfl

private theorem parseUnits_unicode (e f g h : UInt16) (s : JSString) :
    parseUnits none (0x5C :: 0x75 :: e :: f :: g :: h :: s) =
      (hexUnit [e, f, g, h]).bind fun u => (parseUnits none s).map (u :: ·) := by
  rw [parseUnits, if_neg (by decide), if_neg (by decide), if_pos rfl, parseUnits, if_pos rfl]
  simp [parseUnits]

/-- A unit is written on four digits, which read back. -/
private theorem hexUnit_fixedDigits (c : UInt16) : ∃ w x y z,
    fixedDigits 16 4 c.toNat = [w, x, y, z] ∧
      hexUnit ([w, x, y, z].map digitChar) = some c := by
  have hlen : (fixedDigits 16 4 c.toNat).length = 4 := fixedDigits_length 16 4 c.toNat
  obtain ⟨w, x, y, z, hds⟩ : ∃ w x y z, fixedDigits 16 4 c.toNat = [w, x, y, z] := by
    match fixedDigits 16 4 c.toNat, hlen with
    | [w, x, y, z], _ => exact ⟨w, x, y, z, rfl⟩
  refine ⟨w, x, y, z, hds, ?_⟩
  have hlt : ∀ e ∈ [w, x, y, z], e < 16 := fun e he => fixedDigits_lt (by omega) (hds ▸ he)
  rw [hexUnit, digitsValue_map (by omega) (by simp) hlt, Option.map_some, ← hds,
    ofDigitsBE_fixedDigits, Nat.mod_eq_of_lt (by have := c.toNat_lt; omega)]
  simp

/-- What an escape stands for is read back. -/
theorem parseUnits_quoteUnit (lone : Bool) (c : UInt16) (s : JSString) :
    parseUnits none (quoteUnit lone c ++ s) = (parseUnits none s).map (c :: ·) := by
  unfold quoteUnit
  split_ifs with h1 h2 h3 h4 h5 h6 h7 h8
  · subst h1
    exact parseUnits_escape (by decide) rfl _
  · subst h2
    exact parseUnits_escape (by decide) rfl _
  · subst h3
    exact parseUnits_escape (by decide) rfl _
  · subst h4
    exact parseUnits_escape (by decide) rfl _
  · subst h5
    exact parseUnits_escape (by decide) rfl _
  · subst h6
    exact parseUnits_escape (by decide) rfl _
  · subst h7
    exact parseUnits_escape (by decide) rfl _
  · obtain ⟨w, x, y, z, hds, hval⟩ := hexUnit_fixedDigits c
    rw [unicodeEscape, hds]
    refine (parseUnits_unicode _ _ _ _ s).trans ?_
    rw [show [digitChar w, digitChar x, digitChar y, digitChar z] =
      [w, x, y, z].map digitChar from rfl, hval]
    rfl
  · simp only [Bool.or_eq_true, not_or, decide_eq_true_eq] at h8
    rw [List.singleton_append, parseUnits, if_neg h6, if_neg h8.1, if_neg h7]

theorem parseUnits_quoteUnits (s : JSString) :
    ∀ before, parseUnits none (quoteUnits before s ++ [0x22]) = some s := by
  induction s with
  | nil => intro before; rfl
  | cons c s ih =>
    intro before
    rw [quoteUnits, List.append_assoc, parseUnits_quoteUnit, ih]
    rfl

/-- **`JSON.parse` undoes `JSON.stringify`** on strings. -/
theorem parseString_stringify (s : JSString) : parseString (stringify s) = some s :=
  parseUnits_quoteUnits s 0

/-! ## Whole values -/

/-- A JSON value; numbers are integers. -/
inductive Json where
  | null
  | bool (b : Bool)
  | number (z : ℤ)
  | string (s : JSString)
  | array (items : List Json)
  | object (fields : List (JSString × Json))

namespace Json

mutual

/-- The text of a value, without blanks. -/
def text : Json → JSString
  | .null => js "null"
  | .bool b => js (if b then "true" else "false")
  | .number z => intText z
  | .string s => stringify s
  | .array [] => js "[]"
  | .array (x :: xs) => 0x5B :: (x.text ++ (moreItems xs ++ [0x5D]))
  | .object [] => js "\x7b\x7d"
  | .object ((k, x) :: xs) =>
    0x7B :: ((stringify k ++ 0x3A :: x.text) ++ (moreFields xs ++ [0x7D]))

/-- The members of an array behind the first one. -/
def moreItems : List Json → JSString
  | [] => []
  | x :: xs => 0x2C :: (x.text ++ moreItems xs)

/-- The members of an object behind the first one. -/
def moreFields : List (JSString × Json) → JSString
  | [] => []
  | (k, x) :: xs => 0x2C :: ((stringify k ++ 0x3A :: x.text) ++ moreFields xs)

end

/-- Induction with one hypothesis for every member. -/
@[elab_as_elim]
theorem induct {P : Json → Prop} (null : P .null) (bool : ∀ b, P (.bool b))
    (number : ∀ z, P (.number z)) (string : ∀ s, P (.string s))
    (array : ∀ items, (∀ x ∈ items, P x) → P (.array items))
    (object : ∀ fields, (∀ f ∈ fields, P f.2) → P (.object fields)) (x : Json) : P x :=
  @Json.rec P (fun items => ∀ x ∈ items, P x) (fun fields => ∀ f ∈ fields, P f.2) (fun f => P f.2)
    null bool number string array object (by simp) (fun _ _ hd tl => List.forall_mem_cons.mpr ⟨hd, tl⟩)
    (by simp) (fun _ _ hd tl => List.forall_mem_cons.mpr ⟨hd, tl⟩) (fun _ _ h => h) x

end Json

/-! ### Texts that end -/

/-- The first unit of a text inside quotes, and the rest. -/
def readUnit : JSString → Option (UInt16 × JSString)
  | 0x5C :: 0x75 :: a :: b :: c :: d :: s => (hexUnit [a, b, c, d]).map (·, s)
  | 0x5C :: e :: s => (escapedUnit e).map (·, s)
  | c :: s => some (c, s)
  | [] => none

theorem readUnit_quoteUnit (lone : Bool) (c : UInt16) (s : JSString) :
    readUnit (quoteUnit lone c ++ s) = some (c, s) := by
  unfold quoteUnit
  split_ifs with h1 h2 h3 h4 h5 h6 h7 h8
  · rw [h1]; rfl
  · rw [h2]; rfl
  · rw [h3]; rfl
  · rw [h4]; rfl
  · rw [h5]; rfl
  · rw [h6]; rfl
  · rw [h7]; rfl
  · obtain ⟨w, x, y, z, hds, hval⟩ := hexUnit_fixedDigits c
    rw [unicodeEscape, hds]
    show Option.map _ (hexUnit ([w, x, y, z].map digitChar)) = _
    rw [hval]
    rfl
  · have h0 : readUnit (c :: s) = some (c, s) := by
      unfold readUnit
      split <;> simp_all
    exact h0

theorem quoteUnit_ne_quote (lone : Bool) (c : UInt16) (s t : JSString) :
    quoteUnit lone c ++ s ≠ 0x22 :: t := by
  unfold quoteUnit
  split_ifs with h1 h2 h3 h4 h5 h6
  all_goals first | exact fun h => absurd (List.head_eq_of_cons_eq h) (by decide) | skip
  intro h
  exact h6 (List.head_eq_of_cons_eq h)

theorem quoteUnits_append_injective {s : JSString} : ∀ {s' r r' : JSString} {before before' : UInt16},
    quoteUnits before s ++ 0x22 :: r = quoteUnits before' s' ++ 0x22 :: r' → s = s' ∧ r = r' := by
  induction s with
  | nil =>
    intro s' r r' before before' h
    cases s' with
    | nil => exact ⟨rfl, List.tail_eq_of_cons_eq h⟩
    | cons c s' =>
      rw [quoteUnits, quoteUnits, List.nil_append, List.append_assoc] at h
      exact absurd h.symm (quoteUnit_ne_quote _ _ _ _)
  | cons c s ih =>
    intro s' r r' before before' h
    cases s' with
    | nil =>
      rw [quoteUnits, quoteUnits, List.nil_append, List.append_assoc] at h
      exact absurd h (quoteUnit_ne_quote _ _ _ _)
    | cons c' s' =>
      rw [quoteUnits, quoteUnits, List.append_assoc, List.append_assoc] at h
      have hread := congrArg readUnit h
      rw [readUnit_quoteUnit, readUnit_quoteUnit, Option.some.injEq, Prod.mk.injEq] at hread
      obtain ⟨rfl, hrest⟩ := hread
      obtain ⟨rfl, hr⟩ := ih hrest
      exact ⟨rfl, hr⟩

/-- A string literal ends at its closing quote. -/
theorem stringify_append_injective {s s' r r' : JSString}
    (h : stringify s ++ r = stringify s' ++ r') : s = s' ∧ r = r' := by
  rw [stringify, stringify, List.cons_append, List.cons_append, List.append_assoc,
    List.append_assoc] at h
  exact quoteUnits_append_injective (List.tail_eq_of_cons_eq h)

/-- What can follow a value: nothing, a comma or a closing bracket. -/
def Delimits (r : JSString) : Prop := ∀ c, r.head? = some c → c = 0x2C ∨ c = 0x5D ∨ c = 0x7D

theorem delimits_nil : Delimits [] := by simp [Delimits]

theorem delimits_cons {c : UInt16} (h : c = 0x2C ∨ c = 0x5D ∨ c = 0x7D) (r : JSString) :
    Delimits (c :: r) := by
  rintro d ⟨⟩
  exact h

/-- The units of a numeral. -/
def isNumeralUnit (c : UInt16) : Bool := isDecimalDigit c || c == 45

theorem isNumeralUnit_of_mem_intText {z : ℤ} {c : UInt16} (h : c ∈ intText z) :
    isNumeralUnit c = true := by
  have hdigits : ∀ c ∈ natText z.natAbs, isNumeralUnit c = true := by
    intro c hc
    obtain ⟨d, hd, rfl⟩ := numberText_digits (by omega) hc
    simp [isNumeralUnit, isDecimalDigit, radixValue_digitChar (show 10 ≤ 36 by omega) hd]
  unfold intText at h
  split at h
  · rcases List.mem_append.mp h with hminus | hc
    · rw [show js "-" = [45] from by decide, List.mem_singleton] at hminus
      rw [hminus]
      rfl
    · exact hdigits c hc
  · exact hdigits c h

theorem intText_ne_nil (z : ℤ) : intText z ≠ [] := by
  unfold intText
  split
  · exact List.append_ne_nil_of_left_ne_nil (by decide) _
  · exact numberText_ne_nil 10 _

/-- A numeral ends at what cannot stand in one. -/
theorem intText_append_injective {z z' : ℤ} {r r' : JSString} (hr : Delimits r)
    (hr' : Delimits r') (h : intText z ++ r = intText z' ++ r') : z = z' ∧ r = r' := by
  have htake : ∀ {z : ℤ} {r : JSString}, Delimits r →
      (intText z ++ r).takeWhile isNumeralUnit = intText z := by
    intro z r hr
    rw [List.takeWhile_append_of_pos fun c hc => isNumeralUnit_of_mem_intText hc]
    cases r with
    | nil => simp
    | cons c r =>
      have hc : isNumeralUnit c = false := by
        rcases hr c rfl with rfl | rfl | rfl <;> rfl
      simp [hc]
  have hz : z = z' :=
    intText_injective ((htake hr).symm.trans ((congrArg _ h).trans (htake hr')))
  subst hz
  exact ⟨rfl, List.append_cancel_left h⟩

namespace Json

/-- A unit that stands for the first unit of the text of a value. -/
def head : Json → UInt16
  | .null => 0x6E
  | .bool _ => 0x74
  | .number _ => 0x2D
  | .string _ => 0x22
  | .array _ => 0x5B
  | .object _ => 0x7B

/-- One unit for all of a numeral, and one for both truth values. -/
def headClass (c : UInt16) : UInt16 :=
  if isNumeralUnit c then 0x2D else if c = 0x66 then 0x74 else c

theorem text_head (x : Json) : ∃ c t, x.text = c :: t ∧ headClass c = x.head := by
  cases x with
  | null => exact ⟨_, _, rfl, rfl⟩
  | bool b => cases b <;> exact ⟨_, _, rfl, rfl⟩
  | number z =>
    obtain ⟨c, t, hz⟩ := List.exists_cons_of_ne_nil (intText_ne_nil z)
    have hc : isNumeralUnit c = true :=
      isNumeralUnit_of_mem_intText (z := z) (by rw [hz]; exact List.mem_cons_self)
    exact ⟨c, t, hz, if_pos hc⟩
  | string s => exact ⟨_, _, rfl, rfl⟩
  | array items => cases items <;> exact ⟨_, _, rfl, rfl⟩
  | object fields => cases fields <;> exact ⟨_, _, rfl, rfl⟩

/-- Texts that start alike are of one kind. -/
theorem head_eq_of_append_eq {x y : Json} {r r' : JSString} (h : x.text ++ r = y.text ++ r') :
    x.head = y.head := by
  obtain ⟨c, t, hx, hc⟩ := x.text_head
  obtain ⟨d, u, hy, hd⟩ := y.text_head
  rw [hx, hy] at h
  obtain rfl : c = d := List.head_eq_of_cons_eq h
  exact hc.symm.trans hd

/-- No text starts with the bracket that closes an array. -/
theorem text_append_ne_close (x : Json) (r t : JSString) : x.text ++ r ≠ 0x5D :: t := by
  intro h
  obtain ⟨d, u, hx, hd⟩ := x.text_head
  rw [hx] at h
  obtain rfl : d = 0x5D := List.head_eq_of_cons_eq h
  cases x <;> exact absurd hd (by simp only [head]; decide)

/-! ### Members -/

section members

variable {α : Type} {member : α → JSString} {close : UInt16}

/-- The text of a member ends where it ends, whatever delimits it. -/
def Ends (member : α → JSString) (a : α) : Prop := ∀ (b : α) (r r' : JSString),
  Delimits r → Delimits r' → member a ++ r = member b ++ r' → a = b ∧ r = r'

/-- Members behind commas. -/
def more (member : α → JSString) (xs : List α) : JSString := xs.flatMap fun x => 0x2C :: member x

theorem delimits_more (hclose : close = 0x5D ∨ close = 0x7D) (xs : List α) (r : JSString) :
    Delimits (more member xs ++ close :: r) := by
  cases xs with
  | nil => exact delimits_cons (.inr hclose) r
  | cons x xs => exact delimits_cons (.inl rfl) _

theorem more_append_injective (hclose : close = 0x5D ∨ close = 0x7D) {xs : List α}
    (hxs : ∀ x ∈ xs, Ends member x) : ∀ {ys : List α} {r r' : JSString},
      more member xs ++ close :: r = more member ys ++ close :: r' → xs = ys ∧ r = r' := by
  have hcomma : close ≠ 0x2C := by
    rintro rfl
    exact absurd hclose (by decide)
  induction xs with
  | nil =>
    intro ys r r' h
    cases ys with
    | nil => exact ⟨rfl, List.tail_eq_of_cons_eq h⟩
    | cons y ys => exact absurd (List.head_eq_of_cons_eq h) hcomma
  | cons x xs ih =>
    intro ys r r' h
    cases ys with
    | nil => exact absurd (List.head_eq_of_cons_eq h).symm hcomma
    | cons y ys =>
      have h : member x ++ (more member xs ++ close :: r) =
          member y ++ (more member ys ++ close :: r') := by
        simpa [more] using h
      obtain ⟨rfl, hrest⟩ := hxs x List.mem_cons_self _ _ _ (delimits_more hclose _ _)
        (delimits_more hclose _ _) h
      obtain ⟨rfl, hr⟩ := ih (fun x hx => hxs x (List.mem_cons_of_mem _ hx)) hrest
      exact ⟨rfl, hr⟩

end members

/-- The text of a member of an object. -/
def fieldText (f : JSString × Json) : JSString := stringify f.1 ++ 0x3A :: f.2.text

theorem moreItems_eq (xs : List Json) : moreItems xs = more text xs := by
  induction xs with
  | nil => rfl
  | cons x xs ih => rw [moreItems, ih, more, more, List.flatMap_cons, List.cons_append]

theorem moreFields_eq (xs : List (JSString × Json)) : moreFields xs = more fieldText xs := by
  induction xs with
  | nil => rfl
  | cons f xs ih => rw [moreFields, ih, more, more, List.flatMap_cons, List.cons_append, fieldText]

theorem ends_fieldText {f : JSString × Json} (hf : Ends text f.2) : Ends fieldText f := by
  rintro ⟨k, y⟩ r r' hr hr' h
  rw [fieldText, fieldText, List.append_assoc, List.append_assoc] at h
  obtain ⟨hk, h⟩ := stringify_append_injective h
  obtain ⟨hy, h⟩ := hf y r r' hr hr' (List.tail_eq_of_cons_eq h)
  exact ⟨Prod.ext hk hy, h⟩

/-- **The text of a value determines it**, whatever delimits the text. -/
theorem text_append_injective (x : Json) : Ends text x := by
  induction x using Json.induct with
  | null =>
    intro y r r' hr hr' h
    have hhead := head_eq_of_append_eq h
    cases y <;> simp only [head] at hhead <;> cases hhead
    exact ⟨rfl, List.append_cancel_left h⟩
  | bool b =>
    intro y r r' hr hr' h
    have hhead := head_eq_of_append_eq h
    cases y <;> simp only [head] at hhead <;> cases hhead
    next b' =>
    cases b <;> cases b'
    · exact ⟨rfl, List.append_cancel_left h⟩
    · exact absurd (List.head_eq_of_cons_eq h) (by decide)
    · exact absurd (List.head_eq_of_cons_eq h) (by decide)
    · exact ⟨rfl, List.append_cancel_left h⟩
  | number z =>
    intro y r r' hr hr' h
    have hhead := head_eq_of_append_eq h
    cases y <;> simp only [head] at hhead <;> cases hhead
    obtain ⟨rfl, hr⟩ := intText_append_injective hr hr' h
    exact ⟨rfl, hr⟩
  | string s =>
    intro y r r' hr hr' h
    have hhead := head_eq_of_append_eq h
    cases y <;> simp only [head] at hhead <;> cases hhead
    obtain ⟨rfl, hr⟩ := stringify_append_injective h
    exact ⟨rfl, hr⟩
  | array items ih =>
    intro y r r' hr hr' h
    have hhead := head_eq_of_append_eq h
    cases y <;> simp only [head] at hhead <;> cases hhead
    next items' =>
    cases items with
    | nil =>
      cases items' with
      | nil => exact ⟨rfl, List.append_cancel_left h⟩
      | cons y ys =>
        have h : (0x5D : UInt16) :: r = y.text ++ (moreItems ys ++ 0x5D :: r') := by
          simpa [text, js] using h
        exact absurd h.symm (text_append_ne_close _ _ _)
    | cons x xs =>
      cases items' with
      | nil =>
        have h : x.text ++ (moreItems xs ++ 0x5D :: r) = (0x5D : UInt16) :: r' := by
          simpa [text, js] using h
        exact absurd h (text_append_ne_close _ _ _)
      | cons y ys =>
        have h : more text (x :: xs) ++ 0x5D :: r = more text (y :: ys) ++ 0x5D :: r' := by
          simpa [text, moreItems_eq, more] using h
        obtain ⟨hitems, hr⟩ := more_append_injective (.inl rfl) ih h
        exact ⟨by rw [hitems], hr⟩
  | object fields ih =>
    intro y r r' hr hr' h
    have hhead := head_eq_of_append_eq h
    cases y <;> simp only [head] at hhead <;> cases hhead
    next fields' =>
    have hclose : ∀ (f : JSString × Json) (u v : JSString), fieldText f ++ u ≠ 0x7D :: v := by
      intro f u v hf
      exact absurd (List.head_eq_of_cons_eq hf) (by decide)
    cases fields with
    | nil =>
      cases fields' with
      | nil => exact ⟨rfl, List.append_cancel_left h⟩
      | cons g gs =>
        have h : (0x7D : UInt16) :: r = fieldText g ++ (moreFields gs ++ 0x7D :: r') := by
          simpa [text, js, fieldText] using h
        exact absurd h.symm (hclose _ _ _)
    | cons f fs =>
      cases fields' with
      | nil =>
        have h : fieldText f ++ (moreFields fs ++ 0x7D :: r) = (0x7D : UInt16) :: r' := by
          simpa [text, js, fieldText] using h
        exact absurd h (hclose _ _ _)
      | cons g gs =>
        have h : more fieldText (f :: fs) ++ 0x7D :: r = more fieldText (g :: gs) ++ 0x7D :: r' := by
          simpa [text, moreFields_eq, more, fieldText] using h
        obtain ⟨hfields, hr⟩ :=
          more_append_injective (.inr rfl) (fun f hf => ends_fieldText (ih f hf)) h
        exact ⟨by rw [hfields], hr⟩

theorem text_injective {x y : Json} (h : x.text = y.text) : x = y :=
  (text_append_injective x y [] [] delimits_nil delimits_nil (by simpa using h)).1

end Json

end Js
