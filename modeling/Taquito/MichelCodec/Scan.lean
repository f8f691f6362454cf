import Taquito.Js.Numbers
import Taquito.Lib.Reader

/-!
# The scanner of Micheline source text

`scan` is a generator: it yields tokens until the text ends or an error is thrown. A `Scan` is what
it yields and how it stops, so that a parser which stops early never sees an error further on. A
token keeps its type and its text; its offsets are left out, and an error keeps the text from its
offset on.
-/

open Js

namespace MichelCodec

/-- `TokenType`. -/
inductive TokenType where
  | lparen | rparen | lbrace | rbrace | semicolon
  | Comment | Number | String | Bytes | Ident
  deriving DecidableEq, Repr

/-- `Token`. -/
structure Token where
  t : TokenType
  v : JSString
  deriving DecidableEq, Repr

/-- `ScanError`, with the text from its offset on. -/
inductive ScanError where
  /-- `Bytes literal length is expected to be power of two`. -/
  | oddBytes (rest : JSString)
  /-- `Number literal is too short`. -/
  | shortNumber (rest : JSString)
  /-- `Unterminated string literal`. -/
  | unterminatedString
  /-- `Unterminated C style comment`. -/
  | unterminatedComment
  /-- `Invalid character at offset`. -/
  | invalidCharacter (rest : JSString)
  deriving DecidableEq, Repr

/-! ## Character classes -/

/-- `[A-Za-z]`. -/
def isLetter (c : UInt16) : Bool :=
  (65 ≤ c.toNat && c.toNat ≤ 90) || (97 ≤ c.toNat && c.toNat ≤ 122)

/-- `isIdentStart`: `[:@%_A-Za-z]`. -/
def isIdentStart (c : UInt16) : Bool := c == 58 || c == 64 || c == 37 || c == 95 || isLetter c

/-- `isIdent`: `[@%_\.A-Za-z0-9]`. -/
def isIdent (c : UInt16) : Bool :=
  c == 64 || c == 37 || c == 95 || c == 46 || isLetter c || isDecimalDigit c

/-! ## Tokens -/

/-- The body of a string literal up to and including the closing quote, and the text after it. -/
def scanString (esc : Bool) : JSString → Option (JSString × JSString)
  | [] => none
  | c :: s =>
    if !esc && c == 34 then some ([c], s)
    else (scanString (!esc && c == 92) s).map fun p => (c :: p.1, p.2)

/-- The body of a C style comment up to and including its end, and the text after it. -/
def scanComment : JSString → Option (JSString × JSString)
  | 42 :: 47 :: s => some ([42, 47], s)
  | c :: s => (scanComment s).map fun p => (c :: p.1, p.2)
  | [] => none

/-- The brackets and the semicolon. -/
def punctuation (c : UInt16) : Option TokenType :=
  if c = 40 then some .lparen
  else if c = 41 then some .rparen
  else if c = 123 then some .lbrace
  else if c = 125 then some .rbrace
  else if c = 59 then some .semicolon
  else none

/-- One round of the loop of `scan` at a character that is no space: the token, and the text after
it. -/
def scanToken (c : UInt16) (s : JSString) : Except ScanError (Token × JSString) :=
  if isIdentStart c then .ok (⟨.Ident, c :: s.takeWhile isIdent⟩, s.dropWhile isIdent)
  else if c = 48 ∧ s.head? = some 120 then
    let hex := (s.drop 1).takeWhile isHexDigit
    let rest := (s.drop 1).dropWhile isHexDigit
    if hex.length % 2 ≠ 0 then .error (.oddBytes rest)
    else .ok (⟨.Bytes, 48 :: 120 :: hex⟩, rest)
  else if isDecimalDigit c then
    .ok (⟨.Number, c :: s.takeWhile isDecimalDigit⟩, s.dropWhile isDecimalDigit)
  else if c = 45 then
    if (s.takeWhile isDecimalDigit).isEmpty then .error (.shortNumber s)
    else .ok (⟨.Number, c :: s.takeWhile isDecimalDigit⟩, s.dropWhile isDecimalDigit)
  else if c = 34 then
    match scanString false s with
    | some (body, rest) => .ok (⟨.String, c :: body⟩, rest)
    | none => .error .unterminatedString
  else if c = 35 then
    .ok (⟨.Comment, c :: s.takeWhile (· != 10)⟩, s.dropWhile (· != 10))
  else if c = 47 ∧ s.head? = some 42 then
    match scanComment (s.drop 1) with
    | some (body, rest) => .ok (⟨.Comment, c :: 42 :: body⟩, rest)
    | none => .error .unterminatedComment
  else
    match punctuation c with
    | some t => .ok (⟨t, [c]⟩, s)
    | none => .error (.invalidCharacter (c :: s))

/-! ## The generator -/

/-- What a scanner yields, and the error it stops with, if any. -/
structure Scan where
  tokens : List Token
  stop : Option ScanError
  deriving DecidableEq, Repr

/-- The token in front of a scan; comments are yielded on request only. -/
def Scan.cons (scanComments : Bool) (t : Token) (r : Scan) : Scan :=
  if t.t = .Comment ∧ ¬ scanComments then r else { r with tokens := t :: r.tokens }

/-- The loop of `scan`, on at most `fuel` characters. -/
def scanFrom (scanComments : Bool) : ℕ → JSString → Scan
  | _, [] => ⟨[], none⟩
  | 0, _ :: _ => ⟨[], none⟩
  | fuel + 1, c :: s =>
    if isWhitespace c then scanFrom scanComments fuel s
    else
      match scanToken c s with
      | .ok (t, rest) => (scanFrom scanComments fuel rest).cons scanComments t
      | .error e => ⟨[], some e⟩

/-- `scan`. -/
def scan (src : JSString) (scanComments : Bool) : Scan := scanFrom scanComments src.length src

/-! ## Unfolding the loop -/

private theorem scanString_length {esc : Bool} {s body rest : JSString}
    (h : scanString esc s = some (body, rest)) : rest.length < s.length := by
  induction s generalizing esc body with
  | nil => cases h
  | cons c s ih =>
    rw [scanString] at h
    split at h
    · cases h
      simp
    · obtain ⟨p, hp, he⟩ := Option.map_eq_some_iff.mp h
      obtain ⟨-, rfl⟩ := Prod.mk.inj he
      exact (ih hp).trans (Nat.lt_succ_self _)

private theorem scanComment_length {s body rest : JSString}
    (h : scanComment s = some (body, rest)) : rest.length < s.length := by
  induction s generalizing body with
  | nil => cases h
  | cons c s ih =>
    unfold scanComment at h
    split at h
    · next he =>
      obtain ⟨rfl, rfl⟩ := List.cons.inj he
      cases h
      simp
    · next c' s' _ he =>
      obtain ⟨rfl, rfl⟩ := List.cons.inj he
      obtain ⟨p, hp, he⟩ := Option.map_eq_some_iff.mp h
      obtain ⟨-, rfl⟩ := Prod.mk.inj he
      exact (ih hp).trans (Nat.lt_succ_self _)
    · next he => cases he

/-- A token is at least one character. -/
theorem scanToken_length {c : UInt16} {s rest : JSString} {t : Token}
    (h : scanToken c s = .ok (t, rest)) : rest.length ≤ s.length := by
  have hdrop : ∀ (p : UInt16 → Bool) (s : JSString), (s.dropWhile p).length ≤ s.length :=
    fun p s => (List.dropWhile_suffix p).length_le
  have hone : (s.drop 1).length ≤ s.length := by simp
  unfold scanToken at h
  split at h
  · cases h
    exact hdrop _ _
  split at h
  · dsimp only at h
    split at h
    · cases h
    · cases h
      exact (hdrop _ _).trans hone
  split at h
  · cases h
    exact hdrop _ _
  split at h
  · split at h
    · cases h
    · cases h
      exact hdrop _ _
  split at h
  · split at h
    · next body rest' hs =>
      cases h
      exact (scanString_length hs).le
    · cases h
  split at h
  · cases h
    exact hdrop _ _
  split at h
  · split at h
    · next body rest' hs =>
      cases h
      exact (scanComment_length hs).le.trans hone
    · cases h
  · split at h
    · cases h
      exact le_rfl
    · cases h

/-- Fuel for every character is enough. -/
theorem scanFrom_eq (scanComments : Bool) {n : ℕ} {s : JSString} (h : s.length ≤ n) :
    scanFrom scanComments n s = scan s scanComments := by
  have key : ∀ (n m : ℕ) (s : JSString), s.length ≤ n → s.length ≤ m →
      scanFrom scanComments n s = scanFrom scanComments m s := by
    intro n
    induction n with
    | zero =>
      intro m s hn _
      obtain rfl : s = [] := List.eq_nil_of_length_eq_zero (by omega)
      cases m <;> rfl
    | succ n ih =>
      intro m s hn hm
      cases s with
      | nil => cases m <;> rfl
      | cons c s =>
        obtain ⟨m, rfl⟩ : ∃ k, m = k + 1 := ⟨m - 1, by simp at hm; omega⟩
        simp only [List.length_cons, Nat.add_le_add_iff_right] at hn hm
        rw [scanFrom, scanFrom, ih m s hn hm]
        cases ht : scanToken c s with
        | error e => rfl
        | ok p =>
          have hlen := scanToken_length (show scanToken c s = .ok (p.1, p.2) from ht)
          dsimp only
          rw [ih m p.2 (hlen.trans hn) (hlen.trans hm)]
  exact key _ _ _ h le_rfl

@[simp] theorem scan_nil (scanComments : Bool) : scan [] scanComments = ⟨[], none⟩ := rfl

/-- Space is skipped. -/
theorem scan_space {scanComments : Bool} {c : UInt16} (h : isWhitespace c = true) (s : JSString) :
    scan (c :: s) scanComments = scan s scanComments := by
  rw [scan, List.length_cons, scanFrom, if_pos h]
  rfl

/-- A token is yielded. -/
theorem scan_token {scanComments : Bool} {c : UInt16} {s rest : JSString} {t : Token}
    (hc : isWhitespace c = false) (h : scanToken c s = .ok (t, rest)) :
    scan (c :: s) scanComments = (scan rest scanComments).cons scanComments t := by
  rw [scan, List.length_cons, scanFrom, if_neg (by simp [hc]), h]
  dsimp only
  rw [scanFrom_eq scanComments (scanToken_length h)]

end MichelCodec
