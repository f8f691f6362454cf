import Taquito.MichelCodec.Acceptance
import Taquito.MichelCodec.Emitter

/-!
# The parser undoes the emitter

The tokens of an emitted text do not depend on its layout (`exprTokens`): the scanner finds them
whatever white space the options put between them (`scans_emitExpr`), and they spell the expression
(`spells_exprTokens`). Since the parser accepts its language, it reads the text back
(`run_emitMicheline`).

A word is only known to end when a character that cannot continue it follows, hence the two notions
of scanning: `Scans` of a text that ends by itself, and `ScansWord` of one that needs a delimiter.
-/

open Js BigEndian

namespace MichelCodec

/-! ## Expressions whose text is well formed -/

/-- The name that an identifier other than an annotation stands for. -/
def IsPrimName (p : String) : Prop :=
  ∃ c s, (c = 95 ∨ isLetter c = true) ∧ s.all isIdent = true ∧ p = primName (c :: s)

/-- The text of an annotation. -/
def IsAnnotationText (w : JSString) : Prop :=
  ∃ c s, (c = 58 ∨ c = 64 ∨ c = 37) ∧ s.all isIdent = true ∧ w = c :: s

/-- The text of a decimal integer. -/
def IsDecimal (w : JSString) : Prop :=
  ∃ c s, isDecimalDigit c = true ∧ s.all isDecimalDigit = true ∧ (w = c :: s ∨ w = 45 :: c :: s)

/-- The names, annotations and literals of an expression are well formed; a string may be any. -/
inductive Lexical : Expr → Prop
  | int {text} (h : IsDecimal text) : Lexical (.int text)
  | string (text) : Lexical (.string text)
  | bytes {hex} (h : isHexPairs hex = true) : Lexical (.bytes hex)
  | seq {items} (h : ∀ e ∈ items, Lexical e) : Lexical (.seq items)
  | prim {p args annots} (hp : IsPrimName p) (ha : ∀ e ∈ args.getD [], Lexical e)
      (hw : ∀ w ∈ annots.getD [], IsAnnotationText w) : Lexical (.prim p args annots)

/-- The indentation and the line break are white space. -/
def FormatOptions.Blank (opt : FormatOptions) : Prop :=
  (opt.indent.getD []).all isWhitespace = true ∧ (opt.newline.getD []).all isWhitespace = true

/-! ## Characters -/

/-- A property that fails on every kind of white space. -/
private theorem not_of_isWhitespace {p : UInt16 → Bool}
    (hp : ([0x09, 0x0A, 0x0B, 0x0C, 0x0D, 0x20, 0xA0, 0x1680, 0x2000, 0x2001, 0x2002, 0x2003,
      0x2004, 0x2005, 0x2006, 0x2007, 0x2008, 0x2009, 0x200A, 0x2028, 0x2029, 0x202F, 0x205F,
      0x3000, 0xFEFF].all fun n => !p (UInt16.ofNat n)) = true)
    {c : UInt16} (h : isWhitespace c = true) : p c = false := by
  have hmem := List.contains_iff_mem.mp h
  simpa using List.all_eq_true.mp hp _ hmem

theorem isIdent_of_isWhitespace {c : UInt16} (h : isWhitespace c = true) : isIdent c = false :=
  not_of_isWhitespace (by decide) h

theorem isWhitespace_of_isIdentStart {c : UInt16} (h : isIdentStart c = true) :
    isWhitespace c = false := by
  by_contra hw
  have hn : isIdentStart c = false :=
    not_of_isWhitespace (by decide) (Bool.not_eq_false _ ▸ hw)
  simp [h] at hn

theorem isDecimalDigit_iff {c : UInt16} :
    isDecimalDigit c = true ↔ 48 ≤ c.toNat ∧ c.toNat ≤ 57 := by
  simp only [isDecimalDigit, radixValue, digitValue]
  split_ifs with h
  · simp
    omega
  · simp
    omega
  · simp
    omega
  · simp
    omega

/-- A digit is no space and starts no identifier. -/
theorem digit_first {c : UInt16} (h : isDecimalDigit c = true) :
    isWhitespace c = false ∧ isIdentStart c = false := by
  constructor
  · by_contra hw
    have hn : isDecimalDigit c = false :=
      not_of_isWhitespace (by decide) (Bool.not_eq_false _ ▸ hw)
    simp [h] at hn
  · have hd := isDecimalDigit_iff.mp h
    have hne (n : UInt16) (hn : n.toNat < 48 ∨ 57 < n.toNat) : c ≠ n := by
      rintro rfl
      omega
    have hl : isLetter c = false := by
      simp only [isLetter, Bool.or_eq_false_iff, Bool.and_eq_false_iff, decide_eq_false_iff_not]
      omega
    simp [isIdentStart, hl, hne 58 (by decide), hne 64 (by decide), hne 37 (by decide),
      hne 95 (by decide)]

theorem isIdent_of_isDecimalDigit {c : UInt16} (h : isDecimalDigit c = true) :
    isIdent c = true := by
  simp [isIdent, h]

theorem isIdent_of_isHexDigit {c : UInt16} (h : isHexDigit c = true) : isIdent c = true := by
  have hd : (48 ≤ c.toNat ∧ c.toNat ≤ 57) ∨ isLetter c = true := by
    simp only [isHexDigit, radixValue, digitValue] at h
    simp only [isLetter, Bool.or_eq_true, Bool.and_eq_true, decide_eq_true_eq]
    split_ifs at h <;> first | omega | simp at h
  rcases hd with hd | hd
  · exact isIdent_of_isDecimalDigit (isDecimalDigit_iff.mpr hd)
  · simp [isIdent, hd]

theorem toNat_lt_of_isIdent {c : UInt16} (h : isIdent c = true) : c.toNat < 128 := by
  simp only [isIdent, Bool.or_eq_true, beq_iff_eq, isDecimalDigit_iff, isLetter, Bool.and_eq_true,
    decide_eq_true_eq] at h
  rcases h with ((((rfl | rfl) | rfl) | rfl) | h) | h
  · decide
  · decide
  · decide
  · decide
  · omega
  · omega

/-- The name of a primitive keeps the text of its identifier. -/
theorem js_primName {w : JSString} (h : ∀ c ∈ w, c.toNat < 128) : js (primName w) = w := by
  rw [js, primName, String.toList_ofList, List.map_map]
  conv_rhs => rw [← List.map_id w]
  apply List.map_congr_left
  intro c hc
  have hv : c.toNat.isValidChar := .inl (by have := h c hc; omega)
  apply UInt16.toNat_inj.mp
  have hc' : (Char.ofNat c.toNat).toNat = c.toNat := by
    rw [Char.ofNat, dif_pos hv]
    rfl
  rw [Function.comp_apply, hc']
  simp

/-- The text of a name. -/
theorem js_of_isPrimName {p : String} (h : IsPrimName p) :
    ∃ c s, (c = 95 ∨ isLetter c = true) ∧ s.all isIdent = true ∧ js p = c :: s ∧
      primName (js p) = p := by
  obtain ⟨c, s, hc, hs, rfl⟩ := h
  have hfirst : isIdent c = true := by
    rcases hc with rfl | hc
    · decide
    · simp [isIdent, hc]
  have hlt : ∀ d ∈ c :: s, d.toNat < 128 := by
    intro d hd
    rcases List.mem_cons.mp hd with rfl | hd
    · exact toNat_lt_of_isIdent hfirst
    · exact toNat_lt_of_isIdent (List.all_eq_true.mp hs d hd)
  exact ⟨c, s, hc, hs, js_primName hlt, by rw [js_primName hlt]⟩

/-- A name is no annotation. -/
theorem isAnnotationToken_primName {p : String} (h : IsPrimName p) :
    isAnnotationToken ⟨.Ident, js p⟩ = false := by
  obtain ⟨c, s, hc, -, hp, -⟩ := js_of_isPrimName h
  rw [hp]
  rcases hc with rfl | hc
  · rfl
  · simp only [isLetter, Bool.or_eq_true, Bool.and_eq_true, decide_eq_true_eq] at hc
    have hne (n : UInt16) (hn : n.toNat < 65) : c ≠ n := by
      rintro rfl
      omega
    simp [isAnnotationToken, hne 64 (by decide), hne 37 (by decide), hne 58 (by decide)]

/-! ## Scanning a text -/

/-- Tokens in front of a scan. -/
def Scan.prepend (ts : List Token) (r : Scan) : Scan := { r with tokens := ts ++ r.tokens }

@[simp] theorem Scan.prepend_nil (r : Scan) : r.prepend [] = r := rfl

@[simp] theorem Scan.prepend_prepend (ts us : List Token) (r : Scan) :
    (r.prepend us).prepend ts = r.prepend (ts ++ us) := by
  simp [Scan.prepend]

/-- The text cannot continue a word. -/
def Delimited (w : JSString) : Prop := ∀ c ∈ w.head?, isIdent c = false

theorem Delimited.nil : Delimited [] := by simp [Delimited]

theorem Delimited.cons {c : UInt16} (h : isIdent c = false) (w : JSString) :
    Delimited (c :: w) := by
  simpa [Delimited] using h

theorem Delimited.append {w v : JSString} (hw : Delimited w) (hv : Delimited v) :
    Delimited (w ++ v) := by
  cases w with
  | nil => exact hv
  | cons c w => exact hw

theorem Delimited.append_right {w : JSString} (hw : Delimited w) (hne : w ≠ []) (v : JSString) :
    Delimited (w ++ v) := by
  cases w with
  | nil => exact absurd rfl hne
  | cons c w => exact hw

/-- The text is scanned as `ts`, whatever follows. -/
def Scans (w : JSString) (ts : List Token) : Prop :=
  ∀ rest, scan (w ++ rest) false = (scan rest false).prepend ts

/-- The text is scanned as `ts` if a delimiter follows. -/
def ScansWord (w : JSString) (ts : List Token) : Prop :=
  ∀ rest, Delimited rest → scan (w ++ rest) false = (scan rest false).prepend ts

theorem Scans.nil : Scans [] [] := fun _ => rfl

theorem Scans.word {w : JSString} {ts : List Token} (h : Scans w ts) : ScansWord w ts :=
  fun rest _ => h rest

theorem Scans.append {w v : JSString} {ts us : List Token} (hw : Scans w ts) (hv : Scans v us) :
    Scans (w ++ v) (ts ++ us) := by
  intro rest
  rw [List.append_assoc, hw, hv, Scan.prepend_prepend]

theorem Scans.append_word {w v : JSString} {ts us : List Token} (hw : Scans w ts)
    (hv : ScansWord v us) : ScansWord (w ++ v) (ts ++ us) := by
  intro rest hr
  rw [List.append_assoc, hw, hv rest hr, Scan.prepend_prepend]

theorem ScansWord.append {w v : JSString} {ts us : List Token} (hw : ScansWord w ts)
    (hd : Delimited v) (hv : ScansWord v us) : ScansWord (w ++ v) (ts ++ us) := by
  intro rest hr
  rw [List.append_assoc, hw _ (hd.append hr), hv rest hr, Scan.prepend_prepend]

/-- A word ends where a delimiter stands. -/
theorem ScansWord.append_scans {w v : JSString} {ts us : List Token} (hw : ScansWord w ts)
    (hd : Delimited v) (hne : v ≠ []) (hv : Scans v us) : Scans (w ++ v) (ts ++ us) := by
  intro rest
  rw [List.append_assoc, hw _ (hd.append_right hne rest), hv, Scan.prepend_prepend]

theorem scans_blank {w : JSString} (h : w.all isWhitespace = true) : Scans w [] := by
  induction w with
  | nil => exact .nil
  | cons c w ih =>
    simp only [List.all_cons, Bool.and_eq_true] at h
    intro rest
    rw [List.cons_append, scan_space h.1]
    exact ih h.2 rest

theorem delimited_blank {w : JSString} (h : w.all isWhitespace = true) : Delimited w := by
  cases w with
  | nil => exact .nil
  | cons c w =>
    simp only [List.all_cons, Bool.and_eq_true] at h
    exact .cons (isIdent_of_isWhitespace h.1) w

/-- One token that is no comment. -/
theorem scan_one {c : UInt16} {s rest : JSString} {t : Token} (hc : isWhitespace c = false)
    (ht : t.t ≠ .Comment) (h : scanToken c s = .ok (t, rest)) :
    scan (c :: s) false = (scan rest false).prepend [t] := by
  rw [scan_token hc h, Scan.cons, if_neg (by simp [ht])]
  rfl

/-! ## Scanning the words -/

private theorem span_append {p : UInt16 → Bool} {s rest : JSString} (hs : s.all p = true)
    (hr : ∀ c ∈ rest.head?, p c = false) :
    (s ++ rest).takeWhile p = s ∧ (s ++ rest).dropWhile p = rest := by
  have hall : ∀ c ∈ s, p c = true := fun c hc => List.all_eq_true.mp hs c hc
  rw [List.takeWhile_append_of_pos hall, List.dropWhile_append_of_pos hall]
  cases rest with
  | nil => simp
  | cons c rest =>
    have hc : p c = false := hr c rfl
    simp [hc]

private theorem delimited_digit {rest : JSString} (h : Delimited rest) :
    ∀ c ∈ rest.head?, isDecimalDigit c = false := by
  intro c hc
  by_contra hd
  have hi := isIdent_of_isDecimalDigit (by simpa using hd)
  simp [h c hc] at hi

private theorem delimited_hex {rest : JSString} (h : Delimited rest) :
    ∀ c ∈ rest.head?, isHexDigit c = false := by
  intro c hc
  by_contra hd
  have hi := isIdent_of_isHexDigit (by simpa using hd)
  simp [h c hc] at hi

theorem scansWord_ident {c : UInt16} {s : JSString} (hc : isIdentStart c = true)
    (hs : s.all isIdent = true) : ScansWord (c :: s) [⟨.Ident, c :: s⟩] := by
  intro rest hr
  obtain ⟨htake, hdrop⟩ := span_append hs hr
  rw [List.cons_append]
  refine scan_one (isWhitespace_of_isIdentStart hc) (by simp) ?_
  rw [scanToken, if_pos hc, htake, hdrop]

theorem scansWord_primName {p : String} (h : IsPrimName p) :
    ScansWord (js p) [⟨.Ident, js p⟩] := by
  obtain ⟨c, s, hc, hs, hp, -⟩ := js_of_isPrimName h
  rw [hp]
  apply scansWord_ident _ hs
  rcases hc with rfl | hc
  · decide
  · simp [isIdentStart, hc]

theorem scansWord_annotationText {w : JSString} (h : IsAnnotationText w) : ScansWord w [⟨.Ident, w⟩] := by
  obtain ⟨c, s, hc, hs, rfl⟩ := h
  apply scansWord_ident _ hs
  rcases hc with rfl | rfl | rfl <;> rfl

theorem scansWord_int {w : JSString} (h : IsDecimal w) : ScansWord w [⟨.Number, w⟩] := by
  obtain ⟨c, s, hc, hs, rfl | rfl⟩ := h
  · intro rest hr
    obtain ⟨htake, hdrop⟩ := span_append hs (delimited_digit hr)
    obtain ⟨hw, hi⟩ := digit_first hc
    have hx : ¬ (c = 48 ∧ (s ++ rest).head? = some 120) := by
      rintro ⟨-, hx⟩
      cases s with
      | nil => exact absurd (hr _ hx) (by decide)
      | cons d s =>
        obtain rfl : d = 120 := by simpa using hx
        simp only [List.all_cons, Bool.and_eq_true] at hs
        exact absurd hs.1 (by decide)
    rw [List.cons_append]
    refine scan_one hw (by simp) ?_
    rw [scanToken, if_neg (by simp [hi]), if_neg hx, if_pos hc, htake, hdrop]
  · intro rest hr
    obtain ⟨htake, hdrop⟩ := span_append (s := c :: s) (by simp [hc, hs]) (delimited_digit hr)
    rw [List.cons_append]
    refine scan_one (by decide) (by simp) ?_
    rw [scanToken, if_neg (by decide), if_neg (by simp), if_neg (by decide), if_pos rfl, htake,
      hdrop]
    rfl

theorem scansWord_bytes {hex : JSString} (h : isHexPairs hex = true) :
    ScansWord (js "0x" ++ hex) [⟨.Bytes, js "0x" ++ hex⟩] := by
  simp only [isHexPairs, Bool.and_eq_true, beq_iff_eq] at h
  intro rest hr
  obtain ⟨htake, hdrop⟩ := span_append h.2 (delimited_hex hr)
  have hj : js "0x" = [48, 120] := by decide
  rw [hj, List.cons_append, List.singleton_append, List.cons_append]
  refine scan_one (by decide) (by simp) ?_
  rw [scanToken, if_neg (by decide), if_pos ⟨rfl, rfl⟩]
  simp only [List.cons_append, List.drop_succ_cons, List.drop_zero, htake, hdrop,
    h.1, ne_eq, not_true_eq_false, if_false]

/-! ## Scanning strings and brackets -/

private theorem scanString_plain {c : UInt16} (h₁ : c ≠ 34) (h₂ : c ≠ 92) (s : JSString) :
    scanString false (c :: s) = (scanString false s).map fun p => (c :: p.1, p.2) := by
  have he : (!false && c == 92) = false := by simpa using h₂
  rw [scanString, if_neg (by simp [h₁]), he]

private theorem scanString_escape (c : UInt16) (s : JSString) :
    scanString false (92 :: c :: s) =
      (scanString false s).map fun p => (92 :: c :: p.1, p.2) := by
  rw [scanString, if_neg (by decide), show (!false && (92 : UInt16) == 92) = true by decide,
    scanString, if_neg (by simp), show (!true && c == 92) = false from rfl]
  cases scanString false s <;> rfl

private theorem scanString_digit {d : ℕ} (hd : d < 16) (s : JSString) :
    scanString false (digitChar d :: s) =
      (scanString false s).map fun p => (digitChar d :: p.1, p.2) := by
  have h := digitChar_toNat (show d < 36 by omega)
  have hne (n : UInt16) (hn : n.toNat < 48 ∨ (57 < n.toNat ∧ n.toNat < 97)) :
      digitChar d ≠ n := by
    rintro rfl
    split at h <;> omega
  exact scanString_plain (hne 34 (by decide)) (hne 92 (by decide)) s

/-- What stands for a unit inside quotes does not end the string. -/
theorem scanString_quoteUnit (lone : Bool) (c : UInt16) (s : JSString) :
    scanString false (quoteUnit lone c ++ s) =
      (scanString false s).map fun p => (quoteUnit lone c ++ p.1, p.2) := by
  unfold quoteUnit
  split_ifs with h1 h2 h3 h4 h5 h6 h7 h8
  · exact scanString_escape _ s
  · exact scanString_escape _ s
  · exact scanString_escape _ s
  · exact scanString_escape _ s
  · exact scanString_escape _ s
  · exact scanString_escape _ s
  · exact scanString_escape _ s
  · -- four digits after the escape
    have hlt : ∀ d ∈ fixedDigits 16 4 c.toNat, d < 16 := fun d hd => fixedDigits_lt (by omega) hd
    have hdigits : ∀ (ds : List ℕ) (s : JSString), (∀ d ∈ ds, d < 16) →
        scanString false (ds.map digitChar ++ s) =
          (scanString false s).map fun p => (ds.map digitChar ++ p.1, p.2) := by
      intro ds s hds
      induction ds with
      | nil => simp
      | cons d ds ih =>
        rw [List.map_cons, List.cons_append, scanString_digit (hds d (by simp)),
          ih fun e he => hds e (by simp [he])]
        simp [Function.comp_def]
    have hj : js "\\u" = [92, 117] := by decide
    rw [unicodeEscape, hj, List.append_assoc, List.cons_append, List.singleton_append,
      scanString_escape, hdigits _ _ hlt]
    simp [Function.comp_def]
  · exact scanString_plain h6 h7 s

theorem scanString_quoteUnits (s rest : JSString) : ∀ before,
    scanString false (quoteUnits before s ++ 34 :: rest) =
      some (quoteUnits before s ++ [34], rest) := by
  induction s with
  | nil => exact fun _ => rfl
  | cons c s ih =>
    intro before
    rw [quoteUnits, List.append_assoc, scanString_quoteUnit, ih]
    simp

theorem scans_string (s : JSString) : Scans (stringify s) [⟨.String, stringify s⟩] := by
  intro rest
  have hs := scanString_quoteUnits s rest 0
  rw [stringify, List.cons_append, List.append_assoc, List.singleton_append]
  refine scan_one (by decide) (by simp) ?_
  rw [scanToken, if_neg (by decide), if_neg (by simp), if_neg (by decide), if_neg (by decide),
    if_pos rfl, hs]

theorem scans_punctuation {c : UInt16} {t : TokenType} (h : punctuation c = some t) :
    Scans [c] [⟨t, [c]⟩] := by
  intro rest
  unfold punctuation at h
  split_ifs at h with h1 h2 h3 h4 h5
  · subst h1
    cases h
    exact scan_one (by decide) (by simp) rfl
  · subst h2
    cases h
    exact scan_one (by decide) (by simp) rfl
  · subst h3
    cases h
    exact scan_one (by decide) (by simp) rfl
  · subst h4
    cases h
    exact scan_one (by decide) (by simp) rfl
  · subst h5
    cases h
    exact scan_one (by decide) (by simp) rfl

/-! ## The tokens of an emitted text -/

/-- The tokens of annotations. -/
def annotTokens (annots : Option (List JSString)) : List Token :=
  (annots.getD []).map fun w => ⟨.Ident, w⟩

mutual

/-- The tokens of `emitExpr`. -/
def exprTokens : Expr → List Token
  | .seq items => ⟨.lbrace, [123]⟩ :: (elemsTokens items ++ [⟨.rbrace, [125]⟩])
  | .string s => [⟨.String, stringify s⟩]
  | .int text => [⟨.Number, text⟩]
  | .bytes hex => [⟨.Bytes, js "0x" ++ hex⟩]
  | .prim p none annots =>
    if (annots.getD []).isEmpty then [⟨.Ident, js p⟩]
    else ⟨.lparen, [40]⟩ :: ⟨.Ident, js p⟩ :: (annotTokens annots ++ [⟨.rparen, [41]⟩])
  | .prim p (some args) annots =>
    if (annots.getD []).isEmpty && args.isEmpty then [⟨.Ident, js p⟩]
    else ⟨.lparen, [40]⟩ :: ⟨.Ident, js p⟩ ::
      (annotTokens annots ++ argsTokens args ++ [⟨.rparen, [41]⟩])

/-- The tokens of `emitArgs`. -/
def argsTokens : List Expr → List Token
  | [] => []
  | a :: as => exprTokens a ++ argsTokens as

/-- The tokens of `emitElem`. -/
def elemTokens : Expr → List Token
  | .prim p none annots => ⟨.Ident, js p⟩ :: annotTokens annots
  | .prim p (some args) annots => ⟨.Ident, js p⟩ :: (annotTokens annots ++ argsTokens args)
  | .seq items => exprTokens (.seq items)
  | .string s => exprTokens (.string s)
  | .int text => exprTokens (.int text)
  | .bytes hex => exprTokens (.bytes hex)

/-- The tokens of `emitElems`. -/
def elemsTokens : List Expr → List Token
  | [] => []
  | [el] => elemTokens el
  | el :: els => elemTokens el ++ ⟨.semicolon, [59]⟩ :: elemsTokens els

end

/-- The layout of a formatter is white space. -/
def Formatter.Blank (f : Formatter) : Prop := f.opt.Blank

section layout

variable {f : Formatter} (hf : f.Blank)

include hf

theorem blank_indent (n : ℕ) : (f.indent n).all isWhitespace = true := by
  rw [Formatter.indent, List.all_flatten]
  simp [List.all_replicate, hf.1]

theorem blank_lf : f.lf.all isWhitespace = true := hf.2

theorem blank_lfsp : f.lfsp.all isWhitespace = true ∧ f.lfsp ≠ [] := by
  unfold Formatter.lfsp
  split_ifs with h
  · decide
  · exact ⟨hf.2, h⟩

end layout

theorem scansWord_annots {annots : Option (List JSString)}
    (h : ∀ w ∈ annots.getD [], IsAnnotationText w) :
    ScansWord (emitAnnots annots) (annotTokens annots) ∧ Delimited (emitAnnots annots) := by
  unfold emitAnnots annotTokens
  generalize annots.getD [] = ws at h
  induction ws with
  | nil => exact ⟨Scans.nil.word, .nil⟩
  | cons w ws ih =>
    obtain ⟨hws, hd⟩ := ih fun v hv => h v (by simp [hv])
    have hspace : Scans [32] [] := scans_blank (by decide)
    refine ⟨?_, .cons (by decide) _⟩
    exact hspace.append_word ((scansWord_annotationText (h w (by simp))).append hd hws)

/-- The emitted texts of an expression are scanned as its tokens, in every layout. -/
private def ScansTo (e : Expr) : Prop :=
  ∀ f : Formatter, f.Blank →
    ScansWord (emitExpr e f) (exprTokens e) ∧ ScansWord (emitElem e f) (elemTokens e)

private theorem scansWord_args {as : List Expr} (h : ∀ a ∈ as, ScansTo a) (multiline : Bool)
    (n : ℕ) {f : Formatter} (hf : f.Blank) :
    ScansWord (emitArgs multiline n as f) (argsTokens as) ∧
      Delimited (emitArgs multiline n as f) := by
  induction as with
  | nil =>
    rw [emitArgs, argsTokens]
    exact ⟨Scans.nil.word, .nil⟩
  | cons a as ih =>
    obtain ⟨has, hd⟩ := ih fun b hb => h b (by simp [hb])
    rw [emitArgs, argsTokens]
    split_ifs
    · obtain ⟨hsp, hne⟩ := blank_lfsp hf
      have ha := (h a (by simp) (f.down n) hf).1
      have hblank : (f.lfsp ++ f.indent n).all isWhitespace = true := by
        rw [List.all_append, hsp, blank_indent hf]
        rfl
      constructor
      · exact (((scans_blank hblank).append_word ha).append hd has)
      · rw [List.append_assoc, List.append_assoc]
        exact (delimited_blank hsp).append_right hne _
    · have ha := (h a (by simp) f hf).1
      have hspace : Scans [32] [] := scans_blank (by decide)
      exact ⟨(hspace.append_word ha).append hd has, .cons (by decide) _⟩

private theorem scansWord_elems {els : List Expr} (h : ∀ e ∈ els, ScansTo e) {f : Formatter}
    (hf : f.Blank) : ScansWord (emitElems els f) (elemsTokens els) := by
  induction els with
  | nil =>
    rw [emitElems, elemsTokens]
    exact Scans.nil.word
  | cons el els ih =>
    have hel := (scans_blank (blank_indent hf 1)).append_word (h el (by simp) f hf).2
    cases els with
    | nil =>
      rw [emitElems, elemsTokens]
      have hlf := blank_lf hf
      simpa using hel.append (delimited_blank hlf) (scans_blank hlf).word
    | cons el' els =>
      rw [emitElems, elemsTokens]
      · have hsep : Scans (59 :: f.lfsp) [⟨.semicolon, [59]⟩] :=
          (scans_punctuation (c := 59) rfl).append (scans_blank (blank_lfsp hf).1)
        have hd : Delimited (59 :: f.lfsp) := .cons (by decide) _
        have hels := ih fun e he => h e (by simp [he])
        simpa using (hel.append_scans hd (by simp) hsep).append_word hels
      · simp
      · simp

private theorem scansTo_prim {p : String} {args : Option (List Expr)}
    {annots : Option (List JSString)} (hp : IsPrimName p)
    (hw : ∀ w ∈ annots.getD [], IsAnnotationText w) (ha : ∀ e ∈ args.getD [], ScansTo e) :
    ScansTo (.prim p args annots) := by
  have hhead := scansWord_primName hp
  obtain ⟨hannots, hd⟩ := scansWord_annots hw
  have hopen : Scans [40] [⟨.lparen, [40]⟩] := scans_punctuation rfl
  have hclose : Scans [41] [⟨.rparen, [41]⟩] := scans_punctuation rfl
  have hclosed {w : JSString} {ts : List Token} (h : ScansWord w ts) :
      ScansWord (40 :: (w ++ [41])) (⟨.lparen, [40]⟩ :: (ts ++ [⟨.rparen, [41]⟩])) :=
    (hopen.append (h.append_scans (.cons (by decide) _) (by simp) hclose)).word
  intro f hf
  cases args with
  | none =>
    rw [emitExpr, exprTokens, emitElem, elemTokens]
    refine ⟨?_, hhead.append hd hannots⟩
    split_ifs
    · exact hhead
    · exact hclosed (hhead.append hd hannots)
  | some args =>
    rw [emitExpr, exprTokens, emitElem, elemTokens]
    obtain ⟨hargs, hd₁⟩ := scansWord_args ha (isMultiline args) 1 hf
    obtain ⟨hargs₂, hd₂⟩ := scansWord_args ha (isMultiline args) 2 hf
    constructor
    · split_ifs
      · exact hhead
      · simpa using hclosed ((hhead.append hd hannots).append hd₁ hargs)
    · simpa using (hhead.append hd hannots).append hd₂ hargs₂

private theorem scansTo_seq {items : List Expr} (h : ∀ e ∈ items, ScansTo e) :
    ScansTo (.seq items) := by
  have hseq {f : Formatter} (hf : f.Blank) :
      ScansWord (emitExpr (.seq items) f) (exprTokens (.seq items)) := by
    rw [emitExpr, exprTokens]
    have hopen : Scans [123] [⟨.lbrace, [123]⟩] := scans_punctuation rfl
    have hclose : Scans [125] [⟨.rbrace, [125]⟩] := scans_punctuation rfl
    have hin := blank_indent hf 0
    have hend : Scans (f.indent 0 ++ [125]) [⟨.rbrace, [125]⟩] := (scans_blank hin).append hclose
    have hd : Delimited (f.indent 0 ++ [125]) :=
      (delimited_blank hin).append (.cons (by decide) _)
    have hitems := (scansWord_elems h hf).append_scans hd (by simp) hend
    simpa using (hopen.append ((scans_blank (blank_lf hf)).append hitems)).word
  intro f hf
  rw [emitElem, elemTokens]
  exact ⟨hseq hf, hseq (f := f.down 1) hf⟩

/-- **An emitted text is scanned as the tokens of its expression**, whatever the layout. -/
theorem scans_emitExpr {e : Expr} (h : Lexical e) {f : Formatter} (hf : f.Blank) :
    ScansWord (emitExpr e f) (exprTokens e) := by
  have key : ScansTo e := by
    induction h with
    | int h =>
      intro f _
      rw [emitElem, elemTokens, emitExpr, exprTokens, emitExpr]
      exact ⟨scansWord_int h, scansWord_int h⟩
    | string s =>
      intro f _
      rw [emitElem, elemTokens, emitExpr, exprTokens, emitExpr]
      exact ⟨(scans_string s).word, (scans_string s).word⟩
    | bytes h =>
      intro f _
      rw [emitElem, elemTokens, emitExpr, exprTokens, emitExpr]
      exact ⟨scansWord_bytes h, scansWord_bytes h⟩
    | seq _ ih => exact scansTo_seq ih
    | prim hp _ hw ih => exact scansTo_prim hp hw ih
  exact (key f hf).1

/-! ## The tokens spell the expression -/

section spells

variable {opt : ParserOptions}
  (hopt : ∀ p args annots, opt.expand p args annots = .ok (.prim p args annots))

/-- Pushing all of a list onto an absent one. -/
private theorem foldl_push {α : Type} (as : List α) (l : Option (List α)) :
    as.foldl push l = if as.isEmpty then l else some (l.getD [] ++ as) := by
  induction as generalizing l with
  | nil => rfl
  | cons a as ih =>
    rw [List.foldl_cons, ih]
    cases as <;> simp [push]

theorem foldl_push_none {α : Type} (as : List α) :
    as.foldl push none = Expr.normOption (some as) := by
  rw [foldl_push]
  cases as <;> rfl

theorem spells_annots {args : Option (List Expr)} {ws : List JSString} {ts : List Token}
    {annots : Option (List JSString)} (h : ∀ w ∈ ws, IsAnnotationText w)
    (hi : Spells opt (.items args annots) ts) :
    Spells opt (.items args (ws.foldl push annots)) (ts ++ ws.map fun w => ⟨.Ident, w⟩) := by
  induction ws generalizing ts annots with
  | nil => simpa using hi
  | cons w ws ih =>
    have hw : isAnnotationToken ⟨.Ident, w⟩ = true := by
      obtain ⟨c, s, hc, -, rfl⟩ := h w (by simp)
      rcases hc with rfl | rfl | rfl <;> rfl
    simpa using ih (fun v hv => h v (by simp [hv])) (hi.items_annot hw)

/-- The first token of an argument is no annotation. -/
theorem exprTokens_head {e : Expr} (h : Lexical e) :
    ∃ t us, exprTokens e = t :: us ∧ isAnnotationToken t = false := by
  cases h with
  | int h => exact ⟨_, [], by rw [exprTokens], rfl⟩
  | string s => exact ⟨_, [], by rw [exprTokens], rfl⟩
  | bytes h => exact ⟨_, [], by rw [exprTokens], rfl⟩
  | seq h => exact ⟨_, _, by rw [exprTokens], rfl⟩
  | @prim p args annots hp _ _ =>
    cases args with
    | none =>
      rw [exprTokens]
      split_ifs
      · exact ⟨_, _, rfl, isAnnotationToken_primName hp⟩
      · exact ⟨_, _, rfl, rfl⟩
    | some args =>
      rw [exprTokens]
      split_ifs
      · exact ⟨_, _, rfl, isAnnotationToken_primName hp⟩
      · exact ⟨_, _, rfl, rfl⟩

theorem spells_args {es : List Expr} {args : Option (List Expr)} {ts : List Token}
    {annots : Option (List JSString)} (hlex : ∀ e ∈ es, Lexical e)
    (h : ∀ e ∈ es, Spells opt (.expr e.norm) (exprTokens e))
    (hi : Spells opt (.items args annots) ts) :
    Spells opt (.items ((es.map Expr.norm).foldl push args) annots) (ts ++ argsTokens es) := by
  induction es generalizing ts args with
  | nil => simpa [argsTokens] using hi
  | cons e es ih =>
    obtain ⟨t, us, heq, ht⟩ := exprTokens_head (hlex e (by simp))
    have he := h e (by simp)
    rw [heq] at he
    have hstep := ih (fun a ha => hlex a (by simp [ha])) (fun a ha => h a (by simp [ha]))
      (hi.items_arg ht he)
    rw [argsTokens, heq]
    simpa using hstep

/-- The items of a primitive. -/
theorem spells_items {args : Option (List Expr)} {annots : Option (List JSString)}
    (hw : ∀ w ∈ annots.getD [], IsAnnotationText w) (hlex : ∀ e ∈ args.getD [], Lexical e)
    (h : ∀ e ∈ args.getD [], Spells opt (.expr e.norm) (exprTokens e)) :
    Spells opt (.items (Expr.normOption (args.map (·.map Expr.norm))) (Expr.normOption annots))
      (annotTokens annots ++ argsTokens (args.getD [])) := by
  have hitems := spells_args hlex h (spells_annots hw .items_nil)
  have hannots : (annots.getD []).foldl push none = Expr.normOption annots := by
    rw [foldl_push_none]
    cases annots <;> rfl
  have hargs : ((args.getD []).map Expr.norm).foldl push none =
      Expr.normOption (args.map (·.map Expr.norm)) := by
    rw [foldl_push_none]
    cases args <;> rfl
  rw [hannots, hargs] at hitems
  exact hitems

theorem exprTokens_prim (p : String) (args : Option (List Expr))
    (annots : Option (List JSString)) :
    exprTokens (.prim p args annots) =
      if (annots.getD []).isEmpty && (args.getD []).isEmpty then [⟨.Ident, js p⟩]
      else ⟨.lparen, [40]⟩ :: ⟨.Ident, js p⟩ ::
        (annotTokens annots ++ argsTokens (args.getD []) ++ [⟨.rparen, [41]⟩]) := by
  cases args <;> simp [exprTokens, argsTokens]

theorem elemTokens_prim (p : String) (args : Option (List Expr))
    (annots : Option (List JSString)) :
    elemTokens (.prim p args annots) =
      ⟨.Ident, js p⟩ :: (annotTokens annots ++ argsTokens (args.getD [])) := by
  cases args <;> simp [elemTokens, argsTokens]

/-- The tokens of an expression spell it where an expression stands, and where an element of a
sequence does. -/
private def SpellsBack (opt : ParserOptions) (e : Expr) : Prop :=
  Spells opt (.expr e.norm) (exprTokens e) ∧
  ∀ as ts, Spells opt (.elems as) ts →
    Spells opt (.body (as ++ [e.norm])) (ts ++ elemTokens e) ∧
    ∀ c, c.t = .semicolon →
      Spells opt (.elems (as ++ [e.norm])) (ts ++ (elemTokens e ++ [c]))

/-- An element that is no primitive. -/
private theorem spellsBack_of_expr {e : Expr} {t : Token} {us : List Token}
    (heq : exprTokens e = t :: us) (helem : elemTokens e = exprTokens e) (ht : t.t ≠ .Ident)
    (h : Spells opt (.expr e.norm) (exprTokens e)) : SpellsBack opt e := by
  refine ⟨h, fun as ts hs => ?_⟩
  rw [heq] at h
  rw [helem, heq]
  exact ⟨.body (hs.elems_other ht h), fun c hc => hs.elems_sep ht h hc⟩

private theorem spells_elems {es as : List Expr} {ts : List Token}
    (h : ∀ e ∈ es, SpellsBack opt e) (hs : Spells opt (.elems as) ts) :
    Spells opt (.body (as ++ es.map Expr.norm)) (ts ++ elemsTokens es) := by
  induction es generalizing as ts with
  | nil =>
    rw [elemsTokens]
    simpa using hs.body
  | cons e es ih =>
    obtain ⟨hbody, helem⟩ := (h e (by simp)).2 as ts hs
    cases es with
    | nil =>
      rw [elemsTokens]
      exact hbody
    | cons e' es =>
      rw [elemsTokens]
      · simpa using ih (fun a ha => h a (by simp [ha])) (helem ⟨.semicolon, [59]⟩ rfl)
      · simp

include hopt

/-- **The tokens of an expression spell it**, up to empty lists. -/
theorem spells_exprTokens {e : Expr} (h : Lexical e) :
    Spells opt (.expr e.norm) (exprTokens e) := by
  have key : SpellsBack opt e := by
    induction h with
    | int h =>
      apply spellsBack_of_expr (by rw [exprTokens]) (by rw [elemTokens]) (by simp)
      rw [exprTokens, Expr.norm]
      exact .literal rfl
    | string s =>
      apply spellsBack_of_expr (by rw [exprTokens]) (by rw [elemTokens]) (by simp)
      rw [exprTokens, Expr.norm]
      exact .literal (by simp [literalExpr, parseString_stringify])
    | bytes h =>
      apply spellsBack_of_expr (by rw [exprTokens]) (by rw [elemTokens]) (by simp)
      rw [exprTokens, Expr.norm]
      exact .literal rfl
    | seq _ ih =>
      apply spellsBack_of_expr (by rw [exprTokens]) (by rw [elemTokens]) (by simp)
      rw [exprTokens, Expr.norm_seq]
      exact .seq rfl (spells_elems ih .elems_nil) rfl
    | @prim p args annots hp ha hw ih =>
      obtain ⟨c, s, -, -, -, hname⟩ := js_of_isPrimName hp
      have hitems := spells_items hw ha fun e he => (ih e he).1
      have he : opt.expand (primName (js p)) (Expr.normOption (args.map (·.map Expr.norm)))
          (Expr.normOption annots) = .ok (Expr.norm (.prim p args annots)) := by
        rw [hname, hopt, Expr.norm_prim]
      constructor
      · rw [exprTokens_prim]
        split_ifs with hempty
        · rw [Bool.and_eq_true, List.isEmpty_iff, List.isEmpty_iff] at hempty
          refine .word rfl ?_
          have hargs : Expr.normOption (args.map (·.map Expr.norm)) = none := by
            rcases args with _ | _ | _ <;> simp_all [Expr.normOption]
          have hannots : Expr.normOption annots = none := by
            rcases annots with _ | _ | _ <;> simp_all [Expr.normOption]
          rw [hname, hopt, Expr.norm_prim, hargs, hannots]
        · exact .list rfl rfl hitems he rfl
      · intro as ts hs
        rw [elemTokens_prim]
        exact ⟨hs.body_prim rfl hitems he, fun c hc => hs.elems_prim rfl hitems he hc⟩
  exact key.1

end spells

/-- **The parser undoes the emitter**: without expansion of macros and global constants, an emitted
text is parsed as the expression it was emitted for, up to empty lists. -/
theorem run_emitMicheline (e : Expr) (opt : FormatOptions) (popt : ParserOptions)
    (he : Lexical e) (hopt : opt.Blank) (hmacros : popt.expandMacros = some false)
    (hconstants : popt.expandGlobalConstant = none) :
    EntryPoint.parseMichelineExpression.run popt (emitMicheline e opt) = .ok (some e.norm) := by
  have hexpand : ∀ p args annots, popt.expand p args annots = .ok (.prim p args annots) := by
    intro p args annots
    rw [ParserOptions.expand, hconstants]
    dsimp only
    rw [ParserOptions.expand.expandOwn, hmacros]
    rfl
  have hscan : scan (emitMicheline e opt) false = ⟨exprTokens e, none⟩ := by
    simpa [emitMicheline, Scan.prepend] using
      scans_emitExpr he (f := ⟨opt, 0⟩) hopt [] .nil
  obtain ⟨t, us, ht, -⟩ := exprTokens_head he
  apply EntryPoint.run_of_wholeInput
  · rw [EntryPoint.WholeInput, hscan]
    exact ⟨rfl, spells_exprTokens hexpand he⟩
  · simp [hscan, ht]

/-- A sequence with an annotated pair, and a string that must be escaped. -/
theorem run_emitMicheline_seq :
    EntryPoint.parseMichelineExpression.run .verbatim
      (emitMicheline
        (.seq [.prim "Pair" (some [.int (js "-1"), .string [34, 10]]) (some [js "%a"])])
        ⟨some (js "  "), some [10]⟩) =
      .ok (some (.seq
        [.prim "Pair" (some [.int (js "-1"), .string [34, 10]]) (some [js "%a"])])) := by
  refine run_emitMicheline _ _ .verbatim (.seq ?_) ⟨by decide, by decide⟩ rfl rfl
  simp only [List.mem_singleton, forall_eq]
  refine .prim ⟨80, [97, 105, 114], .inr (by decide), by decide, by decide⟩ ?_ ?_
  · simp only [Option.getD_some, List.mem_cons, List.not_mem_nil, or_false, forall_eq_or_imp,
      forall_eq]
    exact ⟨.int ⟨49, [], by decide, rfl, .inr (by decide)⟩, .string _⟩
  · simp only [Option.getD_some, List.mem_singleton, forall_eq]
    exact ⟨37, [97], .inr (.inr rfl), by decide, by decide⟩

end MichelCodec
