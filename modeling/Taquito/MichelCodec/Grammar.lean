import Taquito.MichelCodec.Parser

/-!
# The language of the parser

`Spells` is the grammar of Micheline texts: the token lists that are an expression, the items of a
primitive or the body of a sequence, with the expression they stand for. The parser is sound for it:
what `parseExpr` and its companions consume spells what they return (`sound`).

A phrase is balanced in its brackets, so the tokens after a bracketed expression are found without
parsing (`afterBracket`). The entry points never look at them: they read the whole text exactly when
there are none (`run_wholeInput`).
-/

open Js

namespace MichelCodec

/-! ## The grammar -/

/-- A kind of token list, with what it stands for. -/
inductive Phrase where
  /-- An expression. -/
  | expr (e : Expr)
  /-- The arguments and annotations after the name of a primitive. -/
  | items (args : Option (List Expr)) (annots : Option (List JSString))
  /-- Elements of a sequence after which another one may start. -/
  | elems (es : List Expr)
  /-- All elements of a sequence. -/
  | body (es : List Expr)

/-- The literal a token is. -/
def literalExpr (t : Token) : Option Expr :=
  match t.t with
  | .Number => some (.int t.v)
  | .String => (parseString t.v).map .string
  | .Bytes => some (.bytes (t.v.drop 2))
  | _ => none

variable {opt : ParserOptions}

/-- The token lists of the grammar. A primitive that stands in a sequence without brackets ends at
a semicolon or with the sequence; after another element the semicolon may be left out. -/
inductive Spells (opt : ParserOptions) : Phrase → List Token → Prop
  | literal {t e} (h : literalExpr t = some e) : Spells opt (.expr e) [t]
  | word {t e} (ht : t.t = .Ident) (he : opt.expand (primName t.v) none none = .ok e) :
      Spells opt (.expr e) [t]
  | list {o head c ts args annots e} (ho : o.t = .lparen) (hh : head.t = .Ident)
      (hi : Spells opt (.items args annots) ts)
      (he : opt.expand (primName head.v) args annots = .ok e) (hc : c.t = .rparen) :
      Spells opt (.expr e) (o :: head :: (ts ++ [c]))
  | seq {o c ts es} (ho : o.t = .lbrace) (hb : Spells opt (.body es) ts) (hc : c.t = .rbrace) :
      Spells opt (.expr (.seq es)) (o :: (ts ++ [c]))
  | items_nil : Spells opt (.items none none) []
  | items_annot {t ts args annots} (hi : Spells opt (.items args annots) ts)
      (ht : isAnnotationToken t = true) : Spells opt (.items args (push annots t.v)) (ts ++ [t])
  | items_arg {t ts us args annots e} (hi : Spells opt (.items args annots) ts)
      (ht : isAnnotationToken t = false) (he : Spells opt (.expr e) (t :: us)) :
      Spells opt (.items (push args e) annots) (ts ++ t :: us)
  | elems_nil : Spells opt (.elems []) []
  | elems_prim {head c ts us es args annots e} (hs : Spells opt (.elems es) ts)
      (hh : head.t = .Ident) (hi : Spells opt (.items args annots) us)
      (he : opt.expand (primName head.v) args annots = .ok e) (hc : c.t = .semicolon) :
      Spells opt (.elems (es ++ [e])) (ts ++ head :: (us ++ [c]))
  | elems_other {t ts us es e} (hs : Spells opt (.elems es) ts) (ht : t.t ≠ .Ident)
      (he : Spells opt (.expr e) (t :: us)) : Spells opt (.elems (es ++ [e])) (ts ++ t :: us)
  | elems_sep {t c ts us es e} (hs : Spells opt (.elems es) ts) (ht : t.t ≠ .Ident)
      (he : Spells opt (.expr e) (t :: us)) (hc : c.t = .semicolon) :
      Spells opt (.elems (es ++ [e])) (ts ++ t :: (us ++ [c]))
  | body {ts es} (hs : Spells opt (.elems es) ts) : Spells opt (.body es) ts
  | body_prim {head ts us es args annots e} (hs : Spells opt (.elems es) ts)
      (hh : head.t = .Ident) (hi : Spells opt (.items args annots) us)
      (he : opt.expand (primName head.v) args annots = .ok e) :
      Spells opt (.body (es ++ [e])) (ts ++ head :: us)

/-- A primitive with its items, outside brackets. -/
def SpellsLine (opt : ParserOptions) (e : Expr) (ts : List Token) : Prop :=
  ∃ head us args annots, ts = head :: us ∧ head.t = .Ident ∧ Spells opt (.items args annots) us ∧
    opt.expand (primName head.v) args annots = .ok e

/-- The texts of an entry point, by their tokens: the outermost brackets of a list or a sequence may
be left out where the entry point asks for one. -/
def EntryPoint.Spells (opt : ParserOptions) (e : Expr) (ts : List Token) : EntryPoint → Prop
  | .parseSequence =>
    if ts.head?.map Token.t = some .lbrace then MichelCodec.Spells opt (.expr e) ts
    else ∃ es, e = .seq es ∧ MichelCodec.Spells opt (.body es) ts
  | .parseList =>
    if ts.head?.map Token.t = some .lparen then MichelCodec.Spells opt (.expr e) ts
    else SpellsLine opt e ts
  | .parseMichelineExpression => MichelCodec.Spells opt (.expr e) ts

/-! ## Soundness -/

variable {stop : Option ScanError}

/-- How a loop ends that a bracket opened, or that runs to the end of the text: after `us` comes the
closing bracket, or nothing. -/
def Ends (stop : Option ScanError) (expectBracket : Bool) (closing : TokenType)
    (bs us rest : List Token) : Prop :=
  if expectBracket then ∃ c : Token, c.t = closing ∧ bs = us ++ c :: rest
  else bs = us ∧ rest = [] ∧ stop = none

theorem next_eq_ok {bs rest : List Token} {t : Option Token} (h : next stop bs = .ok (t, rest)) :
    bs = t.toList ++ rest ∧ (t = none → rest = [] ∧ stop = none) := by
  unfold next at h
  split at h
  · cases h
    exact ⟨rfl, by simp⟩
  · split at h
    · cases h
    · cases h
      exact ⟨rfl, fun _ => ⟨rfl, rfl⟩⟩

/-- A semicolon is passed over, and anything else stays. -/
theorem skipSemicolon_eq_ok {n t : Option Token} {bs rest : List Token}
    (h : skipSemicolon stop n bs = .ok (t, rest)) :
    (∃ c, n = some c ∧ c.t = .semicolon ∧ next stop bs = .ok (t, rest)) ∨
      (t = n ∧ rest = bs ∧ ∀ c ∈ n, c.t ≠ .semicolon) := by
  cases n with
  | none =>
    cases h
    exact .inr ⟨rfl, rfl, by simp⟩
  | some c =>
    rw [skipSemicolon] at h
    split at h
    · next hc => exact .inl ⟨c, rfl, hc, h⟩
    · next hc =>
      cases h
      exact .inr ⟨rfl, rfl, by simpa using hc⟩

theorem lift_eq_ok {α : Type} {x : Except ParseError α} {bs rest : List Token} {a : α}
    (h : Reader.lift x bs = .ok (a, rest)) : x = .ok a ∧ bs = rest := by
  cases x with
  | error e => cases h
  | ok b =>
    cases h
    exact ⟨rfl, rfl⟩

theorem Ends.append {br : Bool} {closing : TokenType} {bs us rest : List Token}
    (h : Ends stop br closing bs us rest) (xs : List Token) :
    Ends stop br closing (xs ++ bs) (xs ++ us) rest := by
  cases br with
  | true =>
    obtain ⟨c, hc, rfl⟩ := h
    exact ⟨c, hc, by simp⟩
  | false =>
    obtain ⟨rfl, h⟩ := h
    exact ⟨rfl, h⟩

/-- What the functions of the parser consume spells what they return, for one amount of fuel. -/
structure Sound (opt : ParserOptions) (stop : Option ScanError) (fuel : ℕ) : Prop where
  parseExpr {tok : Token} {bs rest : List Token} {e : Expr} :
    parseExpr opt stop fuel tok bs = .ok (e, rest) →
    ∃ us, bs = us ++ rest ∧ Spells opt (.expr e) (tok :: us)
  parseListExpr {start : Token} {bs rest : List Token} {e : Expr} :
    parseListExpr opt stop fuel start bs = .ok (e, rest) →
    (start.t = .lparen ∧ ∃ us, bs = us ++ rest ∧ Spells opt (.expr e) (start :: us)) ∨
    (start.t = .Ident ∧ rest = [] ∧ stop = none ∧ SpellsLine opt e (start :: bs))
  listLoop {br : Bool} {head : Token} {bs rest ts : List Token} {e : Expr}
    {args : Option (List Expr)} {annots : Option (List JSString)} :
    listLoop opt stop fuel br head args annots bs = .ok (e, rest) →
    Spells opt (.items args annots) ts →
    ∃ us args' annots', Spells opt (.items args' annots') (ts ++ us) ∧
      opt.expand (primName head.v) args' annots' = .ok e ∧ Ends stop br .rparen bs us rest
  parseArgs {bs rest ts : List Token} {args args' : Option (List Expr)}
    {annots annots' : Option (List JSString)} {n : Option Token} :
    parseArgs opt stop fuel args annots bs = .ok ((args', annots', n), rest) →
    Spells opt (.items args annots) ts →
    (∃ us, Spells opt (.items args' annots') (ts ++ us) ∧ bs = us ++ (n.toList ++ rest)) ∧
      (n = none → rest = [] ∧ stop = none) ∧ ∀ t ∈ n, t.t = .rbrace ∨ t.t = .semicolon
  parseSequenceExpr {start : Token} {bs rest : List Token} {es : List Expr} :
    parseSequenceExpr opt stop fuel start bs = .ok (es, rest) →
    (start.t = .lbrace ∧ ∃ us, bs = us ++ rest ∧ Spells opt (.expr (.seq es)) (start :: us)) ∨
    (start.t ≠ .lbrace ∧ rest = [] ∧ stop = none ∧ Spells opt (.body es) (start :: bs))
  seqLoop {br : Bool} {seq es : List Expr} {tok : Option Token} {bs rest ts : List Token} :
    seqLoop opt stop fuel br seq tok bs = .ok (es, rest) →
    (tok = none → bs = [] ∧ stop = none) →
    (Spells opt (.elems seq) ts ∨ (Spells opt (.body seq) ts ∧ ∀ t ∈ tok, t.t = .rbrace)) →
    ∃ us, Spells opt (.body es) (ts ++ us) ∧ Ends stop br .rbrace (tok.toList ++ bs) us rest

/-! One step: every function, given the functions it calls. -/

section step

variable {fuel : ℕ} (ih : Sound opt stop fuel)

include ih

private theorem sound_parseExpr {tok : Token} {bs rest : List Token} {e : Expr}
    (h : parseExpr opt stop (fuel + 1) tok bs = .ok (e, rest)) :
    ∃ us, bs = us ++ rest ∧ Spells opt (.expr e) (tok :: us) := by
  have hlist (ht : tok.t ≠ .Ident) (h : parseListExpr opt stop fuel tok bs = .ok (e, rest)) :
      ∃ us, bs = us ++ rest ∧ Spells opt (.expr e) (tok :: us) := by
    obtain ⟨-, us, rfl, hs⟩ | ⟨hI, -⟩ := ih.parseListExpr h
    · exact ⟨us, rfl, hs⟩
    · exact absurd hI ht
  rw [parseExpr] at h
  cases ht : tok.t with
  | Ident =>
    simp only [ht] at h
    obtain ⟨he, rfl⟩ := lift_eq_ok h
    exact ⟨[], rfl, .word ht he⟩
  | Number =>
    simp only [ht] at h
    cases h
    exact ⟨[], rfl, .literal (by simp [literalExpr, ht])⟩
  | String =>
    simp only [ht] at h
    cases hv : parseString tok.v with
    | none =>
      rw [hv] at h
      cases h
    | some s =>
      rw [hv] at h
      cases h
      exact ⟨[], rfl, .literal (by simp [literalExpr, ht, hv])⟩
  | Bytes =>
    simp only [ht] at h
    cases h
    exact ⟨[], rfl, .literal (by simp [literalExpr, ht])⟩
  | lbrace =>
    simp only [ht, map_eq_pure_bind] at h
    obtain ⟨es, mid, hes, hk⟩ := Reader.bind_eq_ok.mp h
    cases hk
    obtain ⟨-, us, rfl, hs⟩ | ⟨hne, -⟩ := ih.parseSequenceExpr hes
    · exact ⟨us, rfl, hs⟩
    · exact absurd ht hne
  | _ =>
    simp only [ht] at h
    exact hlist (by simp [ht]) h

private theorem sound_parseListExpr {start : Token} {bs rest : List Token} {e : Expr}
    (h : parseListExpr opt stop (fuel + 1) start bs = .ok (e, rest)) :
    (start.t = .lparen ∧ ∃ us, bs = us ++ rest ∧ Spells opt (.expr e) (start :: us)) ∨
    (start.t = .Ident ∧ rest = [] ∧ stop = none ∧ SpellsLine opt e (start :: bs)) := by
  rw [parseListExpr] at h
  split at h
  · next ho =>
    obtain ⟨tok, mid, hn, hk⟩ := Reader.bind_eq_ok.mp h
    clear h
    obtain ⟨rfl, -⟩ := next_eq_ok hn
    cases tok with
    | none => cases hk
    | some head =>
      dsimp only at hk
      split at hk
      · next hh =>
        obtain ⟨us, args, annots, hi, he, c, hc, rfl⟩ := ih.listLoop hk .items_nil
        exact .inl ⟨ho, head :: (us ++ [c]), by simp, .list ho hh hi he hc⟩
      · cases hk
  split at h
  · next hh =>
    obtain ⟨us, args, annots, hi, he, rfl, hend⟩ := ih.listLoop h .items_nil
    exact .inr ⟨hh, hend.1, hend.2, start, bs, args, annots, rfl, hh, hi, he⟩
  · cases h

private theorem sound_listLoop {br : Bool} {head : Token} {bs rest ts : List Token} {e : Expr}
    {args : Option (List Expr)} {annots : Option (List JSString)}
    (h : listLoop opt stop (fuel + 1) br head args annots bs = .ok (e, rest))
    (hi : Spells opt (.items args annots) ts) :
    ∃ us args' annots', Spells opt (.items args' annots') (ts ++ us) ∧
      opt.expand (primName head.v) args' annots' = .ok e ∧ Ends stop br .rparen bs us rest := by
  rw [listLoop] at h
  obtain ⟨tok, mid, hn, hk⟩ := Reader.bind_eq_ok.mp h
  clear h
  obtain ⟨rfl, hend⟩ := next_eq_ok hn
  cases tok with
  | none =>
    cases br with
    | true => cases hk
    | false =>
      obtain ⟨he, rfl⟩ := lift_eq_ok hk
      exact ⟨[], args, annots, by simpa using hi, he, (hend rfl).1, hend rfl⟩
  | some tok =>
    dsimp only at hk
    split at hk
    · next hc =>
      cases br with
      | false => cases hk
      | true =>
        obtain ⟨he, rfl⟩ := lift_eq_ok hk
        exact ⟨[], args, annots, by simpa using hi, he, tok, hc, rfl⟩
    split at hk
    · next ha =>
      obtain ⟨us, args', annots', hi', he, hends⟩ := ih.listLoop hk (hi.items_annot ha)
      exact ⟨tok :: us, args', annots', by simpa using hi', he, hends.append [tok]⟩
    · next ha =>
      obtain ⟨arg, mid', harg, hloop⟩ := Reader.bind_eq_ok.mp hk
      clear hk
      obtain ⟨vs, rfl, hv⟩ := ih.parseExpr harg
      obtain ⟨us, args', annots', hi', he, hends⟩ :=
        ih.listLoop hloop (hi.items_arg (Bool.eq_false_iff.mpr ha) hv)
      exact ⟨tok :: (vs ++ us), args', annots', by simpa using hi', he,
        by simpa using hends.append (tok :: vs)⟩

private theorem sound_parseArgs {bs rest ts : List Token} {args args' : Option (List Expr)}
    {annots annots' : Option (List JSString)} {n : Option Token}
    (h : parseArgs opt stop (fuel + 1) args annots bs = .ok ((args', annots', n), rest))
    (hi : Spells opt (.items args annots) ts) :
    (∃ us, Spells opt (.items args' annots') (ts ++ us) ∧ bs = us ++ (n.toList ++ rest)) ∧
      (n = none → rest = [] ∧ stop = none) ∧ ∀ t ∈ n, t.t = .rbrace ∨ t.t = .semicolon := by
  rw [parseArgs] at h
  obtain ⟨tok, mid, hn, hk⟩ := Reader.bind_eq_ok.mp h
  clear h
  obtain ⟨rfl, hend⟩ := next_eq_ok hn
  cases tok with
  | none =>
    cases hk
    exact ⟨⟨[], by simpa using hi, rfl⟩, hend, by simp⟩
  | some tok =>
    dsimp only at hk
    split at hk
    · next hc =>
      cases hk
      exact ⟨⟨[], by simpa using hi, rfl⟩, by simp, by simpa using hc⟩
    split at hk
    · next ha =>
      obtain ⟨⟨us, hi', rfl⟩, hrest⟩ := ih.parseArgs hk (hi.items_annot ha)
      exact ⟨⟨tok :: us, by simpa using hi', rfl⟩, hrest⟩
    · next ha =>
      obtain ⟨arg, mid', harg, hloop⟩ := Reader.bind_eq_ok.mp hk
      clear hk
      obtain ⟨vs, rfl, hv⟩ := ih.parseExpr harg
      obtain ⟨⟨us, hi', rfl⟩, hrest⟩ :=
        ih.parseArgs hloop (hi.items_arg (Bool.eq_false_iff.mpr ha) hv)
      exact ⟨⟨tok :: (vs ++ us), by simpa using hi', by simp⟩, hrest⟩

private theorem sound_parseSequenceExpr {start : Token} {bs rest : List Token} {es : List Expr}
    (h : parseSequenceExpr opt stop (fuel + 1) start bs = .ok (es, rest)) :
    (start.t = .lbrace ∧ ∃ us, bs = us ++ rest ∧ Spells opt (.expr (.seq es)) (start :: us)) ∨
    (start.t ≠ .lbrace ∧ rest = [] ∧ stop = none ∧ Spells opt (.body es) (start :: bs)) := by
  rw [parseSequenceExpr] at h
  split at h
  · next ho =>
    obtain ⟨tok, mid, hn, hk⟩ := Reader.bind_eq_ok.mp h
    clear h
    obtain ⟨rfl, hend⟩ := next_eq_ok hn
    obtain ⟨us, hb, c, hc, hbs⟩ := ih.seqLoop hk hend (.inl .elems_nil)
    exact .inl ⟨ho, us ++ [c], by simpa using hbs, .seq ho hb hc⟩
  · next ho =>
    obtain ⟨us, hb, rfl, hend⟩ := ih.seqLoop h (by simp) (.inl .elems_nil)
    exact .inr ⟨ho, hend.1, hend.2, by simpa using hb⟩

private theorem sound_seqLoop {br : Bool} {seq es : List Expr} {tok : Option Token}
    {bs rest ts : List Token}
    (h : seqLoop opt stop (fuel + 1) br seq tok bs = .ok (es, rest))
    (htok : tok = none → bs = [] ∧ stop = none)
    (hs : Spells opt (.elems seq) ts ∨ (Spells opt (.body seq) ts ∧ ∀ t ∈ tok, t.t = .rbrace)) :
    ∃ us, Spells opt (.body es) (ts ++ us) ∧ Ends stop br .rbrace (tok.toList ++ bs) us rest := by
  have hbody : Spells opt (.body seq) ts := hs.elim .body And.left
  cases tok with
  | none =>
    rw [seqLoop] at h
    cases br with
    | true => cases h
    | false =>
      cases h
      exact ⟨[], by simpa using hbody, by simpa using (htok rfl).1, htok rfl⟩
  | some tok =>
    rw [seqLoop] at h
    split at h
    · next hc =>
      cases br with
      | false => cases h
      | true =>
        cases h
        exact ⟨[], by simpa using hbody, tok, hc, rfl⟩
    -- another element, so the elements so far are complete
    next hc =>
    have hs : Spells opt (.elems seq) ts := hs.elim id fun h => absurd (h.2 tok rfl) hc
    split at h
    · next hh =>
      obtain ⟨⟨args, annots, n⟩, mid, hargs, hitm⟩ := Reader.bind_eq_ok.mp h
      obtain ⟨itm, mid', he, htok'⟩ := Reader.bind_eq_ok.mp hitm
      obtain ⟨tok', mid'', hskip, hk⟩ := Reader.bind_eq_ok.mp htok'
      clear h hitm htok'
      obtain ⟨⟨vs, hi, rfl⟩, hend, hn⟩ := ih.parseArgs hargs .items_nil
      obtain ⟨hx, rfl⟩ := lift_eq_ok he
      clear he
      obtain ⟨c, rfl, hc, hnext⟩ | ⟨rfl, rfl, hne⟩ := skipSemicolon_eq_ok hskip
      · obtain ⟨rfl, hend'⟩ := next_eq_ok hnext
        obtain ⟨us, hb, hends⟩ := ih.seqLoop hk hend' (.inl (hs.elems_prim hh hi hx hc))
        exact ⟨tok :: (vs ++ c :: us), by simpa using hb,
          by simpa using hends.append (tok :: (vs ++ [c]))⟩
      · have hclose : ∀ t ∈ tok', t.t = .rbrace := fun t ht => (hn t ht).resolve_right (hne t ht)
        obtain ⟨us, hb, hends⟩ := ih.seqLoop hk hend (.inr ⟨hs.body_prim hh hi hx, hclose⟩)
        exact ⟨tok :: (vs ++ us), by simpa using hb, by simpa using hends.append (tok :: vs)⟩
    · next hh =>
      obtain ⟨ex, mid, hex, hn⟩ := Reader.bind_eq_ok.mp h
      obtain ⟨n, mid', hnext, htok'⟩ := Reader.bind_eq_ok.mp hn
      obtain ⟨tok', mid'', hskip, hk⟩ := Reader.bind_eq_ok.mp htok'
      clear h hn htok'
      obtain ⟨vs, rfl, hv⟩ := ih.parseExpr hex
      obtain ⟨rfl, hend⟩ := next_eq_ok hnext
      obtain ⟨c, rfl, hc, hnext'⟩ | ⟨rfl, rfl, -⟩ := skipSemicolon_eq_ok hskip
      · obtain ⟨rfl, hend'⟩ := next_eq_ok hnext'
        obtain ⟨us, hb, hends⟩ := ih.seqLoop hk hend' (.inl (hs.elems_sep hh hv hc))
        exact ⟨tok :: (vs ++ c :: us), by simpa using hb,
          by simpa using hends.append (tok :: (vs ++ [c]))⟩
      · obtain ⟨us, hb, hends⟩ := ih.seqLoop hk hend (.inl (hs.elems_other hh hv))
        exact ⟨tok :: (vs ++ us), by simpa using hb, by simpa using hends.append (tok :: vs)⟩

end step

/-- **The parser is sound for the grammar**, whatever the fuel. -/
theorem sound (opt : ParserOptions) (stop : Option ScanError) : ∀ fuel, Sound opt stop fuel
  | 0 =>
    { parseExpr := fun h => nomatch h
      parseListExpr := fun h => nomatch h
      listLoop := fun h _ => nomatch h
      parseArgs := fun h _ => nomatch h
      parseSequenceExpr := fun h => nomatch h
      seqLoop := fun h _ _ => nomatch h }
  | fuel + 1 =>
    have ih := sound opt stop fuel
    { parseExpr := sound_parseExpr ih
      parseListExpr := sound_parseListExpr ih
      listLoop := sound_listLoop ih
      parseArgs := sound_parseArgs ih
      parseSequenceExpr := sound_parseSequenceExpr ih
      seqLoop := sound_seqLoop ih }

/-! ## Fuel -/

theorem next_ne_outOfFuel {bs : List Token} : next stop bs ≠ .error .outOfFuel := by
  unfold next
  split
  · simp
  · split <;> simp

theorem skipSemicolon_ne_outOfFuel {n : Option Token} {bs : List Token} :
    skipSemicolon stop n bs ≠ .error .outOfFuel := by
  cases n with
  | none => exact nofun
  | some c =>
    rw [skipSemicolon]
    split
    · exact next_ne_outOfFuel
    · exact nofun

theorem expand_ne_outOfFuel {p : String} {args : Option (List Expr)}
    {annots : Option (List JSString)} : opt.expand p args annots ≠ .error .outOfFuel := by
  have hown : ParserOptions.expand.expandOwn opt p args annots ≠ .error .outOfFuel := by
    unfold ParserOptions.expand.expandOwn
    split
    · cases MichelCodec.expandMacros (opt.protocol.getD DefaultProtocol) p args annots <;>
        simp [Except.mapError]
    · simp
  unfold ParserOptions.expand
  split
  · split
    · simp
    · exact hown
  · exact hown

theorem lift_ne_outOfFuel {α : Type} {x : Except ParseError α} (h : x ≠ .error .outOfFuel)
    {bs : List Token} : Reader.lift x bs ≠ .error .outOfFuel := by
  cases x with
  | error e =>
    rintro ⟨⟩
    exact h rfl
  | ok a => exact nofun

theorem next_length {bs rest : List Token} {t : Option Token}
    (h : next stop bs = .ok (t, rest)) : bs.length = (t.toList ++ rest).length :=
  congrArg List.length (next_eq_ok h).1

theorem skipSemicolon_length {n t : Option Token} {bs rest : List Token}
    (h : skipSemicolon stop n bs = .ok (t, rest)) :
    (t.toList ++ rest).length ≤ (n.toList ++ bs).length := by
  obtain ⟨c, rfl, -, hn⟩ | ⟨rfl, rfl, -⟩ := skipSemicolon_eq_ok h
  · simp [next_length hn]
  · exact le_rfl

theorem parseExpr_length {fuel : ℕ} {tok : Token} {bs rest : List Token} {e : Expr}
    (h : parseExpr opt stop fuel tok bs = .ok (e, rest)) : rest.length ≤ bs.length := by
  obtain ⟨us, rfl, -⟩ := (sound opt stop fuel).parseExpr h
  simp

theorem parseArgs_length {fuel : ℕ} {bs rest : List Token} {args : Option (List Expr)}
    {annots : Option (List JSString)} {n : Option Token}
    (h : parseArgs opt stop fuel none none bs = .ok ((args, annots, n), rest)) :
    (n.toList ++ rest).length ≤ bs.length := by
  obtain ⟨⟨us, -, rfl⟩, -⟩ := (sound opt stop fuel).parseArgs h .items_nil
  simp

/-- No function of the parser is cut, when the fuel is enough for the tokens it may ask for. -/
structure Fueled (opt : ParserOptions) (stop : Option ScanError) (fuel : ℕ) : Prop where
  parseExpr {tok : Token} {bs : List Token} : 3 * bs.length + 3 ≤ fuel →
    parseExpr opt stop fuel tok bs ≠ .error .outOfFuel
  parseListExpr {start : Token} {bs : List Token} : 3 * bs.length + 2 ≤ fuel →
    parseListExpr opt stop fuel start bs ≠ .error .outOfFuel
  listLoop {br : Bool} {head : Token} {bs : List Token} {args : Option (List Expr)}
    {annots : Option (List JSString)} : 3 * bs.length + 1 ≤ fuel →
    listLoop opt stop fuel br head args annots bs ≠ .error .outOfFuel
  parseArgs {bs : List Token} {args : Option (List Expr)} {annots : Option (List JSString)} :
    3 * bs.length + 1 ≤ fuel → parseArgs opt stop fuel args annots bs ≠ .error .outOfFuel
  parseSequenceExpr {start : Token} {bs : List Token} :
    3 * (bs.length + if start.t = .lbrace then 0 else 1) + 2 ≤ fuel →
    parseSequenceExpr opt stop fuel start bs ≠ .error .outOfFuel
  seqLoop {br : Bool} {seq : List Expr} {tok : Option Token} {bs : List Token} :
    3 * (tok.toList ++ bs).length + 1 ≤ fuel →
    seqLoop opt stop fuel br seq tok bs ≠ .error .outOfFuel

section step

variable {fuel : ℕ} (ih : Fueled opt stop fuel)

include ih

private theorem fueled_parseExpr {tok : Token} {bs : List Token}
    (hf : 3 * bs.length + 3 ≤ fuel + 1) :
    parseExpr opt stop (fuel + 1) tok bs ≠ .error .outOfFuel := by
  rw [parseExpr]
  cases ht : tok.t with
  | Ident => exact lift_ne_outOfFuel expand_ne_outOfFuel
  | Number => exact nofun
  | String => cases parseString tok.v <;> exact nofun
  | Bytes => exact nofun
  | lbrace =>
    intro h
    simp only [map_eq_pure_bind] at h
    rcases Reader.bind_eq_error.mp h with h | ⟨es, mid, -, h⟩
    · exact ih.parseSequenceExpr (by simp [ht]; omega) h
    · cases h
  | _ => exact ih.parseListExpr (by omega)

private theorem fueled_parseListExpr {start : Token} {bs : List Token}
    (hf : 3 * bs.length + 2 ≤ fuel + 1) :
    parseListExpr opt stop (fuel + 1) start bs ≠ .error .outOfFuel := by
  rw [parseListExpr]
  split_ifs with ho hI
  · intro h
    rcases Reader.bind_eq_error.mp h with h | ⟨tok, mid, hn, h⟩
    · exact next_ne_outOfFuel h
    have hlen := next_length hn
    cases tok with
    | none => cases h
    | some tok =>
      dsimp only at h
      split_ifs at h
      · exact ih.listLoop (by simp at hlen; omega) h
      · cases h
  · exact ih.listLoop (by omega)
  · exact nofun

private theorem fueled_listLoop {br : Bool} {head : Token} {bs : List Token}
    {args : Option (List Expr)} {annots : Option (List JSString)}
    (hf : 3 * bs.length + 1 ≤ fuel + 1) :
    listLoop opt stop (fuel + 1) br head args annots bs ≠ .error .outOfFuel := by
  rw [listLoop]
  intro h
  rcases Reader.bind_eq_error.mp h with h | ⟨tok, mid, hn, h⟩
  · exact next_ne_outOfFuel h
  have hmid := next_length hn
  cases tok with
  | none =>
    dsimp only at h
    split_ifs at h
    · cases h
    · exact lift_ne_outOfFuel expand_ne_outOfFuel h
  | some tok =>
    have hlen : 3 * mid.length + 3 ≤ fuel := by simp at hmid; omega
    dsimp only at h
    split_ifs at h
    · exact lift_ne_outOfFuel expand_ne_outOfFuel h
    · cases h
    · exact ih.listLoop (by omega) h
    · rcases Reader.bind_eq_error.mp h with h | ⟨arg, mid', harg, h⟩
      · exact ih.parseExpr hlen h
      have hle := parseExpr_length harg
      exact ih.listLoop (by omega) h

private theorem fueled_parseArgs {bs : List Token} {args : Option (List Expr)}
    {annots : Option (List JSString)} (hf : 3 * bs.length + 1 ≤ fuel + 1) :
    parseArgs opt stop (fuel + 1) args annots bs ≠ .error .outOfFuel := by
  rw [parseArgs]
  intro h
  rcases Reader.bind_eq_error.mp h with h | ⟨tok, mid, hn, h⟩
  · exact next_ne_outOfFuel h
  have hmid := next_length hn
  cases tok with
  | none => cases h
  | some tok =>
    have hlen : 3 * mid.length + 3 ≤ fuel := by simp at hmid; omega
    dsimp only at h
    split_ifs at h
    · cases h
    · exact ih.parseArgs (by omega) h
    · rcases Reader.bind_eq_error.mp h with h | ⟨arg, mid', harg, h⟩
      · exact ih.parseExpr hlen h
      have hle := parseExpr_length harg
      exact ih.parseArgs (by omega) h

private theorem fueled_parseSequenceExpr {start : Token} {bs : List Token}
    (hf : 3 * (bs.length + if start.t = .lbrace then 0 else 1) + 2 ≤ fuel + 1) :
    parseSequenceExpr opt stop (fuel + 1) start bs ≠ .error .outOfFuel := by
  rw [parseSequenceExpr]
  split_ifs at hf ⊢
  · intro h
    rcases Reader.bind_eq_error.mp h with h | ⟨tok, mid, hn, h⟩
    · exact next_ne_outOfFuel h
    have hlen := next_length hn
    exact ih.seqLoop (by omega) h
  · exact ih.seqLoop (by simp; omega)

private theorem fueled_seqLoop {br : Bool} {seq : List Expr} {tok : Option Token}
    {bs : List Token} (hf : 3 * (tok.toList ++ bs).length + 1 ≤ fuel + 1) :
    seqLoop opt stop (fuel + 1) br seq tok bs ≠ .error .outOfFuel := by
  cases tok with
  | none =>
    rw [seqLoop]
    split_ifs <;> exact nofun
  | some tok =>
    have hlen : 3 * bs.length + 3 ≤ fuel := by simp at hf; omega
    rw [seqLoop]
    split_ifs
    · exact nofun
    · exact nofun
    · intro h
      rcases Reader.bind_eq_error.mp h with h | ⟨⟨args, annots, n⟩, mid, hargs, h⟩
      · exact ih.parseArgs (by omega) h
      rcases Reader.bind_eq_error.mp h with h | ⟨itm, mid', he, h⟩
      · exact lift_ne_outOfFuel expand_ne_outOfFuel h
      rcases Reader.bind_eq_error.mp h with h | ⟨tok', mid'', hs, h⟩
      · exact skipSemicolon_ne_outOfFuel h
      have hargs := parseArgs_length hargs
      have hle := (lift_eq_ok he).2 ▸ skipSemicolon_length hs
      exact ih.seqLoop (by omega) h
    · intro h
      rcases Reader.bind_eq_error.mp h with h | ⟨ex, mid, hex, h⟩
      · exact ih.parseExpr hlen h
      rcases Reader.bind_eq_error.mp h with h | ⟨n, mid', hn, h⟩
      · exact next_ne_outOfFuel h
      rcases Reader.bind_eq_error.mp h with h | ⟨tok', mid'', hs, h⟩
      · exact skipSemicolon_ne_outOfFuel h
      have hex := parseExpr_length hex
      have hn := next_length hn
      have hle := skipSemicolon_length hs
      exact ih.seqLoop (by omega) h

end step

/-- **Fuel for three calls a token is enough.** -/
theorem fueled (opt : ParserOptions) (stop : Option ScanError) : ∀ fuel, Fueled opt stop fuel
  | 0 =>
    { parseExpr := fun h => by omega
      parseListExpr := fun h => by omega
      listLoop := fun h => by omega
      parseArgs := fun h => by omega
      parseSequenceExpr := fun h => by omega
      seqLoop := fun h => by omega }
  | fuel + 1 =>
    have ih := fueled opt stop fuel
    { parseExpr := fueled_parseExpr ih
      parseListExpr := fueled_parseListExpr ih
      listLoop := fueled_listLoop ih
      parseArgs := fueled_parseArgs ih
      parseSequenceExpr := fueled_parseSequenceExpr ih
      seqLoop := fueled_seqLoop ih }

/-- An entry point is never cut. -/
theorem EntryPoint.run_ne_outOfFuel (f : EntryPoint) (opt : ParserOptions) (src : JSString) :
    f.run opt src ≠ .error .outOfFuel := by
  intro h
  rcases Except.bind_eq_error.mp h with h | ⟨⟨tok, bs⟩, hn, h⟩
  · exact next_ne_outOfFuel h
  obtain ⟨htokens, -⟩ := next_eq_ok hn
  cases tok with
  | none => cases h
  | some tok =>
    have hfuel : 3 * (bs.length + 1) + 3 = parseFuel (scan src false).tokens.length := by
      rw [htokens]
      rfl
    have ih := fueled opt (scan src false).stop (parseFuel (scan src false).tokens.length)
    rcases Except.bind_eq_error.mp h with h | ⟨p, -, h⟩
    · cases f with
      | parseSequence =>
        rw [EntryPoint.parse, map_eq_pure_bind] at h
        rcases Reader.bind_eq_error.mp h with h | ⟨es, mid, -, h⟩
        · exact ih.parseSequenceExpr (by split <;> omega) h
        · cases h
      | parseList => exact ih.parseListExpr (by omega) h
      | parseMichelineExpression => exact ih.parseExpr (by omega) h
    · cases h

/-! ## Brackets -/

/-- An opening bracket. -/
def opens (t : Token) : Bool := t.t = .lparen ∨ t.t = .lbrace

/-- A closing bracket. -/
def closes (t : Token) : Bool := t.t = .rparen ∨ t.t = .rbrace

/-- What follows the bracket that closes the outermost of `depth` open ones. -/
def afterBracket : ℕ → List Token → List Token
  | _, [] => []
  | depth, t :: ts =>
    if opens t then afterBracket (depth + 1) ts
    else if closes t then if depth ≤ 1 then ts else afterBracket (depth - 1) ts
    else afterBracket depth ts

/-- The tokens are balanced in their brackets. -/
def Balanced (ts : List Token) : Prop :=
  ∀ depth rest, 0 < depth → afterBracket depth (ts ++ rest) = afterBracket depth rest

theorem Balanced.nil : Balanced [] := fun _ _ _ => rfl

theorem Balanced.append {ts us : List Token} (ht : Balanced ts) (hu : Balanced us) :
    Balanced (ts ++ us) := by
  intro depth rest hd
  rw [List.append_assoc, ht depth _ hd, hu depth _ hd]

theorem Balanced.cons {t : Token} {ts : List Token} (ho : opens t = false) (hc : closes t = false)
    (ht : Balanced ts) : Balanced (t :: ts) := by
  intro depth rest hd
  rw [List.cons_append, afterBracket, if_neg (by simp [ho]), if_neg (by simp [hc]), ht depth _ hd]

theorem Balanced.brackets {o c : Token} {ts : List Token} (ho : opens o = true)
    (hco : opens c = false) (hc : closes c = true) (ht : Balanced ts) :
    Balanced (o :: (ts ++ [c])) := by
  intro depth rest hd
  rw [List.cons_append, afterBracket, if_pos ho, List.append_assoc, ht _ _ (Nat.succ_pos _),
    List.singleton_append, afterBracket, if_neg (by simp [hco]), if_pos hc, if_neg (by omega)]
  rfl

theorem opens_of_isIdent {t : Token} (h : t.t = .Ident) : opens t = false := by simp [opens, h]

theorem closes_of_isIdent {t : Token} (h : t.t = .Ident) : closes t = false := by simp [closes, h]

theorem isIdent_of_isAnnotationToken {t : Token} (h : isAnnotationToken t = true) : t.t = .Ident := by
  simp only [isAnnotationToken, decide_eq_true_eq] at h
  exact h.1

/-- A semicolon is balanced. -/
theorem Balanced.semicolon {c : Token} (hc : c.t = .semicolon) : Balanced [c] :=
  .cons (by simp [opens, hc]) (by simp [closes, hc]) .nil

/-- **Every phrase is balanced.** -/
theorem Spells.balanced {ph : Phrase} {ts : List Token} (h : Spells opt ph ts) : Balanced ts := by
  induction h with
  | @literal t e h =>
    apply Balanced.cons _ _ .nil
    · cases ht : t.t <;> simp_all [opens, literalExpr]
    · cases ht : t.t <;> simp_all [closes, literalExpr]
  | word ht => exact .cons (opens_of_isIdent ht) (closes_of_isIdent ht) .nil
  | list ho hh _ _ hc ih =>
    exact @Balanced.brackets _ _ (_ :: _) (by simp [opens, ho]) (by simp [opens, hc])
      (by simp [closes, hc]) (ih.cons (opens_of_isIdent hh) (closes_of_isIdent hh))
  | seq ho _ hc ih =>
    exact ih.brackets (by simp [opens, ho]) (by simp [opens, hc]) (by simp [closes, hc])
  | items_nil => exact .nil
  | items_annot _ ht ih =>
    have ht := isIdent_of_isAnnotationToken ht
    exact ih.append (.cons (opens_of_isIdent ht) (closes_of_isIdent ht) .nil)
  | items_arg _ _ _ ih ihe => exact ih.append ihe
  | elems_nil => exact .nil
  | elems_prim _ hh _ _ hc ih ihi =>
    exact ih.append ((ihi.append (.semicolon hc)).cons (opens_of_isIdent hh) (closes_of_isIdent hh))
  | elems_other _ _ _ ih ihe => exact ih.append ihe
  | elems_sep _ _ _ hc ih ihe => exact ih.append (ihe.append (.semicolon hc))
  | body _ ih => exact ih
  | body_prim _ hh _ _ ih ihi =>
    exact ih.append (ihi.cons (opens_of_isIdent hh) (closes_of_isIdent hh))

/-- An expression is one token, or ends with the bracket that closes its first one. -/
theorem Spells.expr_end {e : Expr} {t : Token} {us : List Token}
    (h : Spells opt (.expr e) (t :: us)) :
    (opens t = true ∧ ∀ rest, afterBracket 1 (us ++ rest) = rest) ∨ (opens t = false ∧ us = []) := by
  have hclose {ts : List Token} {c : Token} (hts : Balanced ts) (ho : opens c = false)
      (hc : closes c = true) (rest : List Token) :
      afterBracket 1 ((ts ++ [c]) ++ rest) = rest := by
    rw [List.append_assoc, hts 1 _ Nat.one_pos, List.singleton_append, afterBracket,
      if_neg (by simp [ho]), if_pos hc, if_pos le_rfl]
  cases h with
  | literal h =>
    refine .inr ⟨?_, rfl⟩
    cases ht : t.t <;> simp_all [opens, literalExpr]
  | word ht => exact .inr ⟨opens_of_isIdent ht, rfl⟩
  | list ho hh hi _ hc =>
    have hts := hi.balanced.cons (opens_of_isIdent hh) (closes_of_isIdent hh)
    exact .inl ⟨by simp [opens, ho], hclose hts (by simp [opens, hc]) (by simp [closes, hc])⟩
  | seq ho hb hc =>
    exact .inl ⟨by simp [opens, ho],
      hclose hb.balanced (by simp [opens, hc]) (by simp [closes, hc])⟩

/-! ## What an entry point leaves -/

/-- The tokens of a text that an entry point never asks for: what follows a bracketed expression,
and what follows the first token of another one unless brackets may be left out. -/
def EntryPoint.leftover : EntryPoint → List Token → List Token
  | _, [] => []
  | .parseSequence, t :: ts => if t.t = .lbrace then afterBracket 1 ts else []
  | .parseList, t :: ts => if t.t = .lparen then afterBracket 1 ts else []
  | .parseMichelineExpression, t :: ts => if opens t then afterBracket 1 ts else ts

/-- Every token of the text is part of the expression, and the scanner reaches its end. -/
def EntryPoint.WholeInput (f : EntryPoint) (opt : ParserOptions) (src : JSString) (e : Expr) :
    Prop :=
  (scan src false).stop = none ∧ f.Spells opt e (scan src false).tokens

/-- Nothing is left of a text of the grammar. -/
theorem EntryPoint.leftover_of_spells {f : EntryPoint} {e : Expr} {ts : List Token}
    (h : f.Spells opt e ts) : f.leftover ts = [] := by
  cases ts with
  | nil => cases f <;> rfl
  | cons t us =>
    have hexpr (h : MichelCodec.Spells opt (.expr e) (t :: us)) (ht : opens t = true) :
        afterBracket 1 us = [] := by
      obtain ⟨-, hus⟩ | ⟨ht', -⟩ := h.expr_end
      · simpa using hus []
      · simp [ht'] at ht
    cases f with
    | parseSequence =>
      simp only [EntryPoint.Spells, List.head?_cons, Option.map_some, Option.some.injEq] at h
      rw [EntryPoint.leftover]
      split_ifs with ht
      · rw [if_pos ht] at h
        exact hexpr h (by simp [opens, ht])
      · rfl
    | parseList =>
      simp only [EntryPoint.Spells, List.head?_cons, Option.map_some, Option.some.injEq] at h
      rw [EntryPoint.leftover]
      split_ifs with ht
      · rw [if_pos ht] at h
        exact hexpr h (by simp [opens, ht])
      · rfl
    | parseMichelineExpression =>
      rw [EntryPoint.leftover]
      split_ifs with ht
      · exact hexpr h ht
      · obtain ⟨ht', -⟩ | ⟨-, rfl⟩ := Spells.expr_end h
        · exact absurd ht' ht
        · rfl

/-- What an entry point consumes is a text of the grammar, and what it leaves is known beforehand.
-/
theorem EntryPoint.parse_sound {f : EntryPoint} {fuel : ℕ} {tok : Token} {bs rest : List Token}
    {e : Expr} (h : f.parse opt stop fuel tok bs = .ok (e, rest)) :
    ∃ us, bs = us ++ rest ∧ f.Spells opt e (tok :: us) ∧ f.leftover (tok :: bs) = rest := by
  have hs := sound opt stop fuel
  have hexpr {us : List Token} (ht : opens tok = true)
      (h : MichelCodec.Spells opt (.expr e) (tok :: us)) : afterBracket 1 (us ++ rest) = rest := by
    obtain ⟨-, hus⟩ | ⟨ht', -⟩ := h.expr_end
    · exact hus rest
    · simp [ht'] at ht
  cases f with
  | parseSequence =>
    rw [EntryPoint.parse, map_eq_pure_bind] at h
    obtain ⟨es, mid, hes, hk⟩ := Reader.bind_eq_ok.mp h
    cases hk
    obtain ⟨ht, us, rfl, hus⟩ | ⟨ht, rfl, -, hb⟩ := hs.parseSequenceExpr hes
    · refine ⟨us, rfl, ?_, ?_⟩
      · simpa [EntryPoint.Spells, ht] using hus
      · simpa [EntryPoint.leftover, ht] using hexpr (by simp [opens, ht]) hus
    · refine ⟨bs, by simp, ?_, by simp [EntryPoint.leftover, ht]⟩
      simpa [EntryPoint.Spells, ht] using hb
  | parseList =>
    obtain ⟨ht, us, rfl, hus⟩ | ⟨ht, rfl, -, hl⟩ := hs.parseListExpr h
    · refine ⟨us, rfl, ?_, ?_⟩
      · simpa [EntryPoint.Spells, ht] using hus
      · simpa [EntryPoint.leftover, ht] using hexpr (by simp [opens, ht]) hus
    · refine ⟨bs, by simp, ?_, by simp [EntryPoint.leftover, ht]⟩
      simpa [EntryPoint.Spells, ht] using hl
  | parseMichelineExpression =>
    obtain ⟨us, rfl, hus⟩ := hs.parseExpr h
    refine ⟨us, rfl, hus, ?_⟩
    rw [EntryPoint.leftover]
    split_ifs with ht
    · exact hexpr ht hus
    · obtain ⟨ht', -⟩ | ⟨-, rfl⟩ := hus.expr_end
      · exact absurd ht' ht
      · rfl

/-- An entry point that returns an expression parsed the tokens after the first. -/
theorem EntryPoint.run_eq_ok {f : EntryPoint} {src : JSString} {e : Expr}
    (h : f.run opt src = .ok (some e)) :
    ∃ tok bs rest, (scan src false).tokens = tok :: bs ∧
      f.parse opt (scan src false).stop (parseFuel (bs.length + 1)) tok bs = .ok (e, rest) := by
  obtain ⟨⟨tok, bs⟩, hn, hk⟩ := Except.bind_eq_ok.mp h
  clear h
  obtain ⟨htokens, -⟩ := next_eq_ok hn
  cases tok with
  | none => cases hk
  | some tok =>
    obtain ⟨⟨e', rest⟩, hp, hk⟩ := Except.bind_eq_ok.mp hk
    cases hk
    refine ⟨tok, bs, rest, htokens, ?_⟩
    rw [htokens] at hp
    exact hp

/-- With nothing left over, every token is part of the expression. -/
theorem EntryPoint.wholeInput_of_leftover {f : EntryPoint} {src : JSString} {e : Expr}
    (h : f.run opt src = .ok (some e)) (hleft : f.leftover (scan src false).tokens = [])
    (hstop : (scan src false).stop = none) : f.WholeInput opt src e := by
  obtain ⟨tok, bs, rest, htokens, hp⟩ := EntryPoint.run_eq_ok h
  obtain ⟨us, rfl, hs, hrest⟩ := EntryPoint.parse_sound hp
  rw [htokens, hrest] at hleft
  subst hleft
  refine ⟨hstop, ?_⟩
  rw [htokens]
  simpa using hs

/-- **The parser reads the whole text exactly when nothing follows the expression**: no token is
left over, and the scanner reaches the end of the text. -/
theorem run_wholeInput (f : EntryPoint) (opt : ParserOptions) (src : JSString) (e : Expr)
    (h : f.run opt src = .ok (some e)) :
    f.WholeInput opt src e ↔
      f.leftover (scan src false).tokens = [] ∧ (scan src false).stop = none := by
  constructor
  · rintro ⟨hstop, hs⟩
    exact ⟨EntryPoint.leftover_of_spells hs, hstop⟩
  · rintro ⟨hleft, hstop⟩
    exact EntryPoint.wholeInput_of_leftover h hleft hstop

/-- The options that expand nothing. -/
def ParserOptions.verbatim : ParserOptions := ⟨some false, none, none⟩

private theorem scan_pair : scan (js "Pair 1 2") false =
    ⟨[⟨.Ident, js "Pair"⟩, ⟨.Number, js "1"⟩, ⟨.Number, js "2"⟩], none⟩ := by decide

private theorem primName_pair : primName (js "Pair") = "Pair" := by decide

/-- A primitive with its arguments is read to the end where brackets may be left out. -/
theorem run_wholeInput_list :
    EntryPoint.parseList.WholeInput .verbatim (js "Pair 1 2")
      (.prim "Pair" (some [.int (js "1"), .int (js "2")]) none) := by
  refine (run_wholeInput .parseList .verbatim (js "Pair 1 2") _ ?_).mpr ?_
  · rw [EntryPoint.run, scan_pair, ← primName_pair]
    rfl
  · rw [scan_pair]
    decide

/-- The same text is no error of `parseMichelineExpression`, which returns the primitive without its
arguments. -/
theorem run_dropsArguments :
    EntryPoint.parseMichelineExpression.run .verbatim (js "Pair 1 2") =
      .ok (some (.prim "Pair" none none)) ∧
    ¬ EntryPoint.parseMichelineExpression.WholeInput .verbatim (js "Pair 1 2")
      (.prim "Pair" none none) := by
  constructor
  · rw [EntryPoint.run, scan_pair, ← primName_pair]
    rfl
  · rintro ⟨-, hs⟩
    rw [scan_pair] at hs
    exact absurd (EntryPoint.leftover_of_spells hs) (by decide)

end MichelCodec
