import Taquito.Js.Text

/-!
# UTF-8

`utf8Encode` is `TextEncoder.encode` and `Buffer.from(_, 'utf8')`: a surrogate pair gives four
octets, a lone surrogate the octets of U+FFFD. `utf8Decode` is `Buffer.toString('utf8')`, the
decoder of the WHATWG standard as the state machine the standard describes, with one U+FFFD for
each maximal ill-formed subpart; `textDecode` is `TextDecoder.decode`, which drops a leading byte
order mark first.

Decoding undoes encoding exactly on well-formed UTF-16 (`utf8Decode_utf8Encode`), whatever follows,
and encoding undoes decoding exactly on valid UTF-8 (`validUtf8_iff`). The machine
always restarts at a space, so decoding commutes with cutting at spaces (`utf8Decode_space`).
-/

namespace Js

/-! ## UTF-16 -/

/-- A code unit `D800`–`DBFF`. -/
def isHighSurrogate (c : UInt16) : Bool := 0xD800 ≤ c.toNat && c.toNat ≤ 0xDBFF

/-- A code unit `DC00`–`DFFF`. -/
def isLowSurrogate (c : UInt16) : Bool := 0xDC00 ≤ c.toNat && c.toNat ≤ 0xDFFF

/-- Every surrogate is half of a pair. -/
def wellFormed : JSString → Bool
  | [] => true
  | [c] => !isHighSurrogate c && !isLowSurrogate c
  | c :: d :: s =>
    if isHighSurrogate c then isLowSurrogate d && wellFormed s
    else !isLowSurrogate c && wellFormed (d :: s)

/-- The code point of a surrogate pair. -/
def pairValue (c d : UInt16) : ℕ := 0x10000 + (c.toNat - 0xD800) * 0x400 + (d.toNat - 0xDC00)

/-- The code units of a code point. -/
def scalarUnits (cp : ℕ) : JSString :=
  if cp < 0x10000 then [UInt16.ofNat cp]
  else [UInt16.ofNat (0xD800 + (cp - 0x10000) / 0x400), UInt16.ofNat (0xDC00 + (cp - 0x10000) % 0x400)]

/-- The replacement character. -/
def replacement : UInt16 := 0xFFFD

/-! ## Encoding -/

/-- The octets of a code point. -/
def scalarBytes (cp : ℕ) : Bytes :=
  if cp < 0x80 then [UInt8.ofNat cp]
  else if cp < 0x800 then [UInt8.ofNat (0xC0 + cp / 64), UInt8.ofNat (0x80 + cp % 64)]
  else if cp < 0x10000 then
    [UInt8.ofNat (0xE0 + cp / 4096), UInt8.ofNat (0x80 + cp / 64 % 64), UInt8.ofNat (0x80 + cp % 64)]
  else
    [UInt8.ofNat (0xF0 + cp / 262144), UInt8.ofNat (0x80 + cp / 4096 % 64),
      UInt8.ofNat (0x80 + cp / 64 % 64), UInt8.ofNat (0x80 + cp % 64)]

/-- The octets of a code unit that is not half of a pair. -/
def unitBytes (c : UInt16) : Bytes :=
  if isHighSurrogate c || isLowSurrogate c then scalarBytes replacement.toNat
  else scalarBytes c.toNat

/-- `TextEncoder.encode`. -/
def utf8Encode : JSString → Bytes
  | [] => []
  | [c] => unitBytes c
  | c :: d :: s =>
    if isHighSurrogate c && isLowSurrogate d then scalarBytes (pairValue c d) ++ utf8Encode s
    else unitBytes c ++ utf8Encode (d :: s)

/-! ## Decoding -/

/-- Where the decoder stands: between code points, or inside one with `needed` octets to come, the
next of them between `lower` and `upper`. -/
inductive Utf8State
  | start
  | cont (needed lower upper cp : ℕ)
  deriving DecidableEq, Repr

/-- The decoder at an octet that opens a code point. -/
def utf8Lead (b : UInt8) : JSString × Utf8State :=
  let n := b.toNat
  if n < 0x80 then ([UInt16.ofNat n], .start)
  else if 0xC2 ≤ n ∧ n ≤ 0xDF then ([], .cont 1 0x80 0xBF (n - 0xC0))
  else if 0xE0 ≤ n ∧ n ≤ 0xEF then
    ([], .cont 2 (if n = 0xE0 then 0xA0 else 0x80) (if n = 0xED then 0x9F else 0xBF) (n - 0xE0))
  else if 0xF0 ≤ n ∧ n ≤ 0xF4 then
    ([], .cont 3 (if n = 0xF0 then 0x90 else 0x80) (if n = 0xF4 then 0x8F else 0xBF) (n - 0xF0))
  else ([replacement], .start)

/-- The decoder at one octet: the code units it puts out and its next state. An octet that cannot
continue the code point is looked at again as one that opens the next. -/
def utf8Step : Utf8State → UInt8 → JSString × Utf8State
  | .start, b => utf8Lead b
  | .cont needed lower upper cp, b =>
    if lower ≤ b.toNat ∧ b.toNat ≤ upper then
      let cp := cp * 64 + (b.toNat - 0x80)
      if needed ≤ 1 then (scalarUnits cp, .start) else ([], .cont (needed - 1) 0x80 0xBF cp)
    else (replacement :: (utf8Lead b).1, (utf8Lead b).2)

/-- The decoder from a given state to the end of the input. -/
def utf8Run : Utf8State → Bytes → JSString
  | .start, [] => []
  | .cont .., [] => [replacement]
  | st, b :: bs => (utf8Step st b).1 ++ utf8Run (utf8Step st b).2 bs

/-- `Buffer.toString('utf8')`. -/
def utf8Decode (bs : Bytes) : JSString := utf8Run .start bs

/-- `TextDecoder.decode`. -/
def textDecode : Bytes → JSString
  | 0xEF :: 0xBB :: 0xBF :: bs => utf8Decode bs
  | bs => utf8Decode bs

/-! ## Decoding what was encoded -/

private theorem utf8Run_cons (st : Utf8State) (b : UInt8) (bs : Bytes) :
    utf8Run st (b :: bs) = (utf8Step st b).1 ++ utf8Run (utf8Step st b).2 bs := by
  cases st <;> rfl

private theorem byte_toNat {n : ℕ} (h : n < 256) : (UInt8.ofNat n).toNat = n := by simpa using h

/-- A code point that is not a surrogate. -/
def IsScalar (cp : ℕ) : Prop := cp < 0xD800 ∨ (0xE000 ≤ cp ∧ cp < 0x110000)

private theorem run_cont {needed lower upper cp n : ℕ} {rest : Bytes} (hn : n < 256)
    (hl : lower ≤ n) (hu : n ≤ upper) (hneed : 1 < needed) :
    utf8Run (.cont needed lower upper cp) (UInt8.ofNat n :: rest) =
      utf8Run (.cont (needed - 1) 0x80 0xBF (cp * 64 + (n - 0x80))) rest := by
  rw [utf8Run_cons, utf8Step, byte_toNat hn, if_pos ⟨hl, hu⟩]
  simp [Nat.not_le.mpr hneed]

private theorem run_last {lower upper cp n : ℕ} {rest : Bytes} (hn : n < 256)
    (hl : lower ≤ n) (hu : n ≤ upper) :
    utf8Run (.cont 1 lower upper cp) (UInt8.ofNat n :: rest) =
      scalarUnits (cp * 64 + (n - 0x80)) ++ utf8Run .start rest := by
  rw [utf8Run_cons, utf8Step, byte_toNat hn, if_pos ⟨hl, hu⟩]
  simp

/-- The decoder reads one code point off its octets. -/
theorem utf8Run_scalarBytes {cp : ℕ} (h : IsScalar cp) (rest : Bytes) :
    utf8Run .start (scalarBytes cp ++ rest) = scalarUnits cp ++ utf8Run .start rest := by
  unfold scalarBytes
  split_ifs with h₁ h₂ h₃
  · rw [List.singleton_append, utf8Run_cons, utf8Step, utf8Lead, byte_toNat (by omega), if_pos h₁,
      scalarUnits, if_pos (by omega)]
  · have hlead : utf8Lead (UInt8.ofNat (0xC0 + cp / 64)) = ([], .cont 1 0x80 0xBF (cp / 64)) := by
      rw [utf8Lead, byte_toNat (by omega), if_neg (by omega), if_pos (by omega),
        Nat.add_sub_cancel_left]
    have hcp : cp / 64 * 64 + (0x80 + cp % 64 - 0x80) = cp := by omega
    rw [List.cons_append, List.singleton_append, utf8Run_cons, utf8Step, hlead, List.nil_append,
      run_last (by omega) (by omega) (by omega), hcp]
  · have hlead : utf8Lead (UInt8.ofNat (0xE0 + cp / 4096)) =
        ([], .cont 2 (if 0xE0 + cp / 4096 = 0xE0 then 0xA0 else 0x80)
          (if 0xE0 + cp / 4096 = 0xED then 0x9F else 0xBF) (cp / 4096)) := by
      rw [utf8Lead, byte_toNat (by omega), if_neg (by omega), if_neg (by omega),
        if_pos (by omega), Nat.add_sub_cancel_left]
    have hcp : (cp / 4096 * 64 + (0x80 + cp / 64 % 64 - 0x80)) * 64 + (0x80 + cp % 64 - 0x80) =
        cp := by omega
    unfold IsScalar at h
    rw [List.cons_append, List.cons_append, List.singleton_append, utf8Run_cons, utf8Step, hlead,
      List.nil_append, run_cont (by omega) (by split <;> omega) (by split <;> omega) (by omega),
      run_last (by omega) (by omega) (by omega), hcp]
  · have hlead : utf8Lead (UInt8.ofNat (0xF0 + cp / 262144)) =
        ([], .cont 3 (if 0xF0 + cp / 262144 = 0xF0 then 0x90 else 0x80)
          (if 0xF0 + cp / 262144 = 0xF4 then 0x8F else 0xBF) (cp / 262144)) := by
      unfold IsScalar at h
      rw [utf8Lead, byte_toNat (by omega), if_neg (by omega), if_neg (by omega),
        if_neg (by omega), if_pos (by omega), Nat.add_sub_cancel_left]
    have hcp : ((cp / 262144 * 64 + (0x80 + cp / 4096 % 64 - 0x80)) * 64 +
        (0x80 + cp / 64 % 64 - 0x80)) * 64 + (0x80 + cp % 64 - 0x80) = cp := by omega
    unfold IsScalar at h
    rw [List.cons_append, List.cons_append, List.cons_append, List.singleton_append, utf8Run_cons,
      utf8Step, hlead, List.nil_append,
      run_cont (by omega) (by split <;> omega) (by split <;> omega) (by omega),
      run_cont (by omega) (by omega) (by omega) (by omega),
      run_last (by omega) (by omega) (by omega), hcp]

private theorem isScalar_unit {c : UInt16} (hh : isHighSurrogate c = false)
    (hl : isLowSurrogate c = false) : IsScalar c.toNat := by
  have := c.toNat_lt
  simp only [isHighSurrogate, isLowSurrogate, Bool.and_eq_false_iff, decide_eq_false_iff_not] at hh hl
  unfold IsScalar
  omega

private theorem scalarUnits_unit (c : UInt16) : scalarUnits c.toNat = [c] := by
  rw [scalarUnits, if_pos c.toNat_lt, UInt16.ofNat_toNat]

private theorem isScalar_pair {c d : UInt16} (hc : isHighSurrogate c = true)
    (hd : isLowSurrogate d = true) : IsScalar (pairValue c d) := by
  simp only [isHighSurrogate, isLowSurrogate, Bool.and_eq_true, decide_eq_true_eq] at hc hd
  unfold IsScalar pairValue
  omega

private theorem scalarUnits_pair {c d : UInt16} (hc : isHighSurrogate c = true)
    (hd : isLowSurrogate d = true) : scalarUnits (pairValue c d) = [c, d] := by
  simp only [isHighSurrogate, isLowSurrogate, Bool.and_eq_true, decide_eq_true_eq] at hc hd
  have h₁ : 0xD800 + (pairValue c d - 0x10000) / 0x400 = c.toNat := by unfold pairValue; omega
  have h₂ : 0xDC00 + (pairValue c d - 0x10000) % 0x400 = d.toNat := by unfold pairValue; omega
  rw [scalarUnits, if_neg (by unfold pairValue; omega), h₁, h₂, UInt16.ofNat_toNat,
    UInt16.ofNat_toNat]

/-- **Decoding undoes encoding** on well-formed text, and leaves the machine at its start. -/
theorem utf8Run_utf8Encode : ∀ {s : JSString}, wellFormed s = true → ∀ rest : Bytes,
    utf8Run .start (utf8Encode s ++ rest) = s ++ utf8Run .start rest
  | [], _, rest => rfl
  | [c], h, rest => by
    simp only [wellFormed, Bool.and_eq_true, Bool.not_eq_true'] at h
    rw [utf8Encode, unitBytes, h.1, h.2, Bool.or_self, if_neg Bool.false_ne_true,
      utf8Run_scalarBytes (isScalar_unit h.1 h.2), scalarUnits_unit]
  | c :: d :: s, h, rest => by
    rw [wellFormed] at h
    by_cases hc : isHighSurrogate c = true
    · rw [if_pos hc, Bool.and_eq_true] at h
      rw [utf8Encode, hc, h.1, Bool.and_self, if_pos rfl, List.append_assoc,
        utf8Run_scalarBytes (isScalar_pair hc h.1), scalarUnits_pair hc h.1,
        utf8Run_utf8Encode h.2 rest]
      rfl
    · rw [if_neg hc, Bool.and_eq_true, Bool.not_eq_true'] at h
      have hc : isHighSurrogate c = false := by simpa using hc
      rw [utf8Encode, hc, Bool.false_and, if_neg Bool.false_ne_true, unitBytes, hc, h.1,
        Bool.or_self, if_neg Bool.false_ne_true, List.append_assoc,
        utf8Run_scalarBytes (isScalar_unit hc h.1), scalarUnits_unit, utf8Run_utf8Encode h.2 rest]
      rfl

theorem utf8Decode_utf8Encode {s : JSString} (h : wellFormed s = true) :
    utf8Decode (utf8Encode s) = s := by
  simpa [utf8Decode, utf8Run] using utf8Run_utf8Encode h []

/-! ## What the decoder can put out -/

/-- The states the decoder reaches: whichever octets complete the code point, it is a scalar value
that needs as many octets. -/
def Utf8State.Inv : Utf8State → Prop
  | .start => True
  | .cont needed lower upper cp =>
    0x80 ≤ lower ∧ upper ≤ 0xBF ∧
      ((needed = 1 ∧ 2 ≤ cp ∧ (cp < 0x360 ∨ (0x380 ≤ cp ∧ cp < 0x4400))) ∨
        (needed = 2 ∧ cp < 0x110 ∧ (cp = 0 → 0xA0 ≤ lower) ∧ (cp = 0xD → upper ≤ 0x9F)) ∨
        (needed = 3 ∧ cp ≤ 4 ∧ (cp = 0 → 0x90 ≤ lower) ∧ (cp = 4 → upper ≤ 0x8F)))

/-- Code units put out at octet `b`: some scalar values, of which only `b` itself is ASCII. -/
def Output (b : UInt8) (out : JSString) : Prop :=
  ∃ cps : List ℕ, out = cps.flatMap scalarUnits ∧
    ∀ cp ∈ cps, IsScalar cp ∧ (cp < 0x80 → cp = b.toNat)

private theorem output_nil (b : UInt8) : Output b [] := ⟨[], rfl, by simp⟩

private theorem output_one (b : UInt8) {cp : ℕ} (h : IsScalar cp) (ha : cp < 0x80 → cp = b.toNat) :
    Output b (scalarUnits cp) := ⟨[cp], by simp, by simpa using ⟨h, ha⟩⟩

private theorem output_replacement (b : UInt8) : Output b [replacement] :=
  @output_one b 0xFFFD (.inr (by omega)) (by omega)

private theorem output_append {b : UInt8} {s t : JSString} (hs : Output b s) (ht : Output b t) :
    Output b (s ++ t) := by
  obtain ⟨cs, rfl, hcs⟩ := hs
  obtain ⟨ds, rfl, hds⟩ := ht
  refine ⟨cs ++ ds, by simp, fun cp hcp => ?_⟩
  rcases List.mem_append.mp hcp with h | h
  · exact hcs cp h
  · exact hds cp h

private theorem utf8Lead_spec (b : UInt8) :
    (utf8Lead b).2.Inv ∧ Output b (utf8Lead b).1 := by
  have hb := b.toNat_lt
  simp only [utf8Lead]
  split_ifs with h₁ h₂ h₃ h₄ h₅ h₆ <;> simp only [Utf8State.Inv, true_and]
  · have := @output_one b b.toNat (.inl (by omega)) (fun _ => rfl)
    rwa [scalarUnits, if_pos (by omega)] at this
  all_goals first
    | exact output_replacement b
    | exact ⟨by omega, output_nil b⟩

/-- One octet keeps the invariant and puts out scalar values only. -/
theorem utf8Step_spec {st : Utf8State} (h : st.Inv) (b : UInt8) :
    (utf8Step st b).2.Inv ∧ Output b (utf8Step st b).1 := by
  cases st with
  | start => exact utf8Lead_spec b
  | cont needed lower upper cp =>
    simp only [Utf8State.Inv] at h
    simp only [utf8Step]
    split_ifs with hb hn
    · have hs : IsScalar (cp * 64 + (b.toNat - 0x80)) := by unfold IsScalar; omega
      refine ⟨by simp only [Utf8State.Inv], ?_⟩
      dsimp only
      exact output_one b hs fun hlt => by omega
    · refine ⟨?_, output_nil b⟩
      simp only [Utf8State.Inv]
      omega
    · exact ⟨(utf8Lead_spec b).1, output_append (output_replacement b) (utf8Lead_spec b).2⟩

private theorem wellFormed_scalarUnits_append {cp : ℕ} (h : IsScalar cp) {s : JSString}
    (hs : wellFormed s = true) : wellFormed (scalarUnits cp ++ s) = true := by
  unfold IsScalar at h
  unfold scalarUnits
  split
  · next hlt =>
    have hc : (UInt16.ofNat cp).toNat = cp := by simp; omega
    have hh : isHighSurrogate (UInt16.ofNat cp) = false := by
      simp only [isHighSurrogate, hc, Bool.and_eq_false_iff, decide_eq_false_iff_not]; omega
    have hl : isLowSurrogate (UInt16.ofNat cp) = false := by
      simp only [isLowSurrogate, hc, Bool.and_eq_false_iff, decide_eq_false_iff_not]; omega
    cases s with
    | nil => simp [wellFormed, hh, hl]
    | cons d s => simp [wellFormed, hh, hl, hs]
  · have hh : isHighSurrogate (UInt16.ofNat (0xD800 + (cp - 0x10000) / 0x400)) = true := by
      simp [isHighSurrogate]; omega
    have hl : isLowSurrogate (UInt16.ofNat (0xDC00 + (cp - 0x10000) % 0x400)) = true := by
      simp [isLowSurrogate]; omega
    rw [List.cons_append, List.singleton_append, wellFormed, if_pos hh, hl, hs]
    rfl

/-- Decoding puts out well-formed text, from any state the decoder reaches. -/
theorem wellFormed_utf8Run {st : Utf8State} (h : st.Inv) (bs : Bytes) :
    wellFormed (utf8Run st bs) = true := by
  induction bs generalizing st with
  | nil => cases st <;> rfl
  | cons b bs ih =>
    obtain ⟨hinv, cps, hout, hcps⟩ := utf8Step_spec h b
    rw [utf8Run_cons, hout]
    have hrest := ih hinv
    clear hout
    induction cps with
    | nil => exact hrest
    | cons cp cps ihc =>
      rw [List.flatMap_cons, List.append_assoc]
      exact wellFormed_scalarUnits_append (hcps cp (by simp)).1
        (ihc fun x hx => hcps x (by simp [hx]))

theorem wellFormed_utf8Decode (bs : Bytes) : wellFormed (utf8Decode bs) = true :=
  wellFormed_utf8Run (show Utf8State.Inv .start from trivial) bs

/-- Octets that are the encoding of a text. -/
def validUtf8 (bs : Bytes) : Bool := utf8Encode (utf8Decode bs) == bs

/-- **Encoding undoes decoding** exactly on the encodings of well-formed texts. -/
theorem validUtf8_iff (bs : Bytes) :
    validUtf8 bs = true ↔ ∃ s, wellFormed s = true ∧ utf8Encode s = bs := by
  rw [validUtf8, beq_iff_eq]
  constructor
  · exact fun h => ⟨utf8Decode bs, wellFormed_utf8Decode bs, h⟩
  · rintro ⟨s, hs, rfl⟩
    rw [utf8Decode_utf8Encode hs]

private theorem utf8Step_start_ne_nil {st : Utf8State} {b : UInt8}
    (h : (utf8Step st b).2 = .start) : (utf8Step st b).1 ≠ [] := by
  have hlead : (utf8Lead b).2 = .start → (utf8Lead b).1 ≠ [] := by
    simp only [utf8Lead]
    split_ifs <;> simp
  cases st with
  | start => exact hlead h
  | cont needed lower upper cp =>
    simp only [utf8Step] at h ⊢
    split_ifs at h ⊢
    · simp only [scalarUnits]
      split <;> simp
    · simp

/-- Nothing decodes to nothing only. -/
theorem utf8Run_eq_nil {st : Utf8State} {bs : Bytes} (h : utf8Run st bs = []) :
    st = .start ∧ bs = [] := by
  induction bs generalizing st with
  | nil =>
    cases st with
    | start => exact ⟨rfl, rfl⟩
    | cont => simp [utf8Run] at h
  | cons b bs ih =>
    rw [utf8Run_cons, List.append_eq_nil_iff] at h
    exact absurd h.1 (utf8Step_start_ne_nil (ih h.2).1)

/-! ## Spaces -/

private theorem utf8Step_ascii {st : Utf8State} (h : st.Inv) {x : UInt8} (hx : x.toNat < 0x80) :
    utf8Step st x =
      ((if st = .start then [] else [replacement]) ++ [UInt16.ofNat x.toNat], .start) := by
  have hlead : utf8Lead x = ([UInt16.ofNat x.toNat], .start) := by
    rw [utf8Lead, if_pos hx]
  cases st with
  | start => exact hlead
  | cont needed lower upper cp =>
    simp only [Utf8State.Inv] at h
    rw [utf8Step, if_neg (by omega), hlead]
    rfl

/-- The decoder restarts at an octet of ASCII. -/
theorem utf8Run_ascii {st : Utf8State} (h : st.Inv) {x : UInt8} (hx : x.toNat < 0x80)
    (a b : Bytes) :
    utf8Run st (a ++ x :: b) = utf8Run st a ++ UInt16.ofNat x.toNat :: utf8Run .start b := by
  induction a generalizing st with
  | nil =>
    rw [List.nil_append, utf8Run_cons, utf8Step_ascii h hx]
    cases st <;> simp [utf8Run]
  | cons y a ih =>
    rw [List.cons_append, utf8Run_cons, utf8Run_cons, ih (utf8Step_spec h y).1, List.append_assoc]

theorem utf8Decode_ascii {x : UInt8} (hx : x.toNat < 0x80) (a b : Bytes) :
    utf8Decode (a ++ x :: b) = utf8Decode a ++ UInt16.ofNat x.toNat :: utf8Decode b :=
  utf8Run_ascii (show Utf8State.Inv .start from trivial) hx a b

theorem utf8Decode_space (a b : Bytes) :
    utf8Decode (a ++ 0x20 :: b) = utf8Decode a ++ 0x20 :: utf8Decode b :=
  utf8Decode_ascii (by decide) a b

private theorem space_mem_scalarUnits {cp : ℕ} (h : IsScalar cp) (hm : (0x20 : UInt16) ∈ scalarUnits cp) :
    cp = 0x20 := by
  unfold IsScalar at h
  unfold scalarUnits at hm
  have h32 : (0x20 : UInt16).toNat = 0x20 := rfl
  split at hm
  · simp only [List.mem_singleton, ← UInt16.toNat_inj, h32] at hm
    simp at hm
    omega
  · simp only [List.mem_cons, List.not_mem_nil, or_false, ← UInt16.toNat_inj, h32] at hm
    simp at hm
    omega

/-- Only a space octet decodes to a space. -/
theorem space_mem_utf8Run {st : Utf8State} (h : st.Inv) {bs : Bytes}
    (hm : (0x20 : UInt16) ∈ utf8Run st bs) : (0x20 : UInt8) ∈ bs := by
  induction bs generalizing st with
  | nil => cases st <;> simp [utf8Run, replacement] at hm
  | cons b bs ih =>
    obtain ⟨hinv, cps, hout, hcps⟩ := utf8Step_spec h b
    rw [utf8Run_cons, hout] at hm
    rcases List.mem_append.mp hm with hm | hm
    · obtain ⟨cp, hcp, hsp⟩ := List.mem_flatMap.mp hm
      obtain ⟨hs, ha⟩ := hcps cp hcp
      obtain rfl := space_mem_scalarUnits hs hsp
      have : b = 0x20 := UInt8.toNat_inj.mp (ha (by omega)).symm
      simp [this]
    · exact List.mem_cons_of_mem _ (ih hinv hm)

theorem space_mem_utf8Decode {bs : Bytes} (hm : (0x20 : UInt16) ∈ utf8Decode bs) :
    (0x20 : UInt8) ∈ bs := space_mem_utf8Run (show Utf8State.Inv .start from trivial) hm

/-- Encoding commutes with cutting at a space, surrogates or not. -/
theorem utf8Encode_space : ∀ a b : JSString,
    utf8Encode (a ++ 0x20 :: b) = utf8Encode a ++ 0x20 :: utf8Encode b
  | [], [] => rfl
  | [], _ :: _ => rfl
  | [c], b => by
    have hl : isLowSurrogate 0x20 = false := rfl
    have h := utf8Encode_space [] b
    rw [List.nil_append] at h
    have hstep : utf8Encode (c :: 0x20 :: b) = unitBytes c ++ utf8Encode (0x20 :: b) := by
      rw [utf8Encode, hl, Bool.and_false, if_neg Bool.false_ne_true]
    rw [List.singleton_append, hstep, h]
    rfl
  | c :: d :: s, b => by
    have h₁ := utf8Encode_space s b
    have h₂ := utf8Encode_space (d :: s) b
    rw [List.cons_append] at h₂
    rw [List.cons_append, List.cons_append, utf8Encode, utf8Encode, h₁, h₂]
    split <;> simp

/-! ## Control characters -/

private theorem le_of_mem_scalarBytes {k cp : ℕ} (hk : k ≤ 0x80) (hcp : k ≤ cp) (hlt : cp < 0x110000)
    {b : UInt8} (h : b ∈ scalarBytes cp) : k ≤ b.toNat := by
  unfold scalarBytes at h
  split_ifs at h <;> simp only [List.mem_cons, List.not_mem_nil, or_false] at h
  · rw [h, byte_toNat (by omega)]
    exact hcp
  · rcases h with rfl | rfl <;> rw [byte_toNat (by omega)] <;> omega
  · rcases h with rfl | rfl | rfl <;> rw [byte_toNat (by omega)] <;> omega
  · rcases h with rfl | rfl | rfl | rfl <;> rw [byte_toNat (by omega)] <;> omega

private theorem le_of_mem_unitBytes {k : ℕ} (hk : k ≤ 0x80) {c : UInt16} (hc : k ≤ c.toNat) {b : UInt8}
    (h : b ∈ unitBytes c) : k ≤ b.toNat := by
  have hlt := c.toNat_lt
  unfold unitBytes at h
  split at h
  · exact le_of_mem_scalarBytes hk (by simp [replacement]; omega) (by decide) h
  · exact le_of_mem_scalarBytes hk hc (by omega) h

/-- Small octets come from small code units only. -/
theorem le_of_mem_utf8Encode {k : ℕ} (hk : k ≤ 0x80) : ∀ {s : JSString}, (∀ c ∈ s, k ≤ c.toNat) →
    ∀ {b : UInt8}, b ∈ utf8Encode s → k ≤ b.toNat
  | [], _, b, h => by simp [utf8Encode] at h
  | [c], hs, b, h => le_of_mem_unitBytes hk (hs c (by simp)) h
  | c :: d :: s, hs, b, h => by
    rw [utf8Encode] at h
    split at h
    · next hpair =>
      rw [Bool.and_eq_true] at hpair
      have hsc := isScalar_pair hpair.1 hpair.2
      rcases List.mem_append.mp h with h | h
      · refine le_of_mem_scalarBytes hk ?_ (by unfold IsScalar at hsc; omega) h
        unfold pairValue
        omega
      · exact le_of_mem_utf8Encode hk (fun x hx => hs x (by simp [hx])) h
    · rcases List.mem_append.mp h with h | h
      · exact le_of_mem_unitBytes hk (hs c (by simp)) h
      · exact le_of_mem_utf8Encode hk (fun x hx => hs x (by simp [List.mem_cons.mp hx])) h

theorem utf8Encode_eq_nil {s : JSString} (h : utf8Encode s = []) : s = [] := by
  have hb : ∀ cp, scalarBytes cp ≠ [] := fun cp => by
    unfold scalarBytes
    split_ifs <;> simp
  have hu : ∀ c, unitBytes c ≠ [] := fun c => by
    unfold unitBytes
    split <;> exact hb _
  match s, h with
  | [], _ => rfl
  | [c], h => exact absurd h (hu c)
  | c :: d :: s, h =>
    rw [utf8Encode] at h
    split at h
    · exact absurd (List.append_eq_nil_iff.mp h).1 (hb _)
    · exact absurd (List.append_eq_nil_iff.mp h).1 (hu c)

/-! ## Lengths -/

private theorem scalarBytes_length (cp : ℕ) :
    1 ≤ (scalarBytes cp).length ∧ (scalarBytes cp).length ≤ 4 ∧
      (cp < 0x10000 → (scalarBytes cp).length ≤ 3) ∧
        (0x10000 ≤ cp → (scalarBytes cp).length = 4) := by
  unfold scalarBytes
  split_ifs with h₁ h₂ h₃
  · exact ⟨by simp, by simp, by simp, fun h => absurd h (by omega)⟩
  · exact ⟨by simp, by simp, by simp, fun h => absurd h (by omega)⟩
  · exact ⟨by simp, by simp, by simp, fun h => absurd h (by omega)⟩
  · exact ⟨by simp, by simp, fun h => absurd h h₃, by simp⟩

private theorem unitBytes_length (c : UInt16) :
    1 ≤ (unitBytes c).length ∧ (unitBytes c).length ≤ 3 := by
  have hlt := c.toNat_lt
  unfold unitBytes
  split
  · exact ⟨(scalarBytes_length _).1, (scalarBytes_length _).2.2.1 (by decide)⟩
  · exact ⟨(scalarBytes_length _).1, (scalarBytes_length _).2.2.1 (by omega)⟩

/-- A code unit takes one octet at least and three at most. -/
theorem utf8Encode_length : ∀ s : JSString,
    s.length ≤ (utf8Encode s).length ∧ (utf8Encode s).length ≤ 3 * s.length
  | [] => ⟨Nat.le_refl 0, Nat.le_refl 0⟩
  | [c] => unitBytes_length c
  | c :: d :: s => by
    rw [utf8Encode]
    split
    · have ih := utf8Encode_length s
      have h4 := (scalarBytes_length (pairValue c d)).2.2.2 (by unfold pairValue; omega)
      rw [List.length_append, List.length_cons, List.length_cons]
      omega
    · have ih := utf8Encode_length (d :: s)
      have hc := unitBytes_length c
      rw [List.length_append, List.length_cons (a := c)]
      omega

end Js
