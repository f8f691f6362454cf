import Taquito.MichelCodec.Grammar

/-!
# The parser accepts its language

The converse of soundness: on the tokens of a phrase, followed by anything that does not continue
it, the parser returns what the phrase stands for and stops where it ends (`Spells.parsed`). With
soundness this says what each entry point computes on the texts it reads to the end (`run_iff`).
-/

open Js

namespace MichelCodec

variable {opt : ParserOptions} {stop : Option ScanError}

/-! ## Rounds of the loops -/

section rounds

variable {fuel : ℕ} {br : Bool} {head t c : Token} {args : Option (List Expr)}
  {annots : Option (List JSString)} {mid rest : List Token} {e : Expr}

@[simp] theorem next_cons : next stop (t :: rest) = .ok (some t, rest) := rfl

@[simp] theorem next_bind_cons {α : Type} {f : Option Token → Reader Token ParseError α} :
    (next stop >>= f) (t :: rest) = f (some t) rest := rfl

@[simp] theorem next_bind_nil {α : Type} {f : Option Token → Reader Token ParseError α} :
    (next none >>= f) [] = f none [] := rfl

theorem literalExpr_type (h : literalExpr t = some e) :
    t.t = .Number ∨ t.t = .String ∨ t.t = .Bytes := by
  unfold literalExpr at h
  split at h <;> simp_all

theorem parseExpr_literal (h : literalExpr t = some e) :
    parseExpr opt stop (fuel + 1) t rest = .ok (e, rest) := by
  rw [parseExpr]
  rcases literalExpr_type h with ht | ht | ht
  · simp only [literalExpr, ht, Option.some.injEq] at h ⊢
    rw [h]
    rfl
  · simp only [literalExpr, ht, Option.map_eq_some_iff] at h ⊢
    obtain ⟨s, hs, rfl⟩ := h
    rw [hs]
    rfl
  · simp only [literalExpr, ht, Option.some.injEq] at h ⊢
    rw [h]
    rfl

theorem parseExpr_word (ht : t.t = .Ident) (he : opt.expand (primName t.v) none none = .ok e) :
    parseExpr opt stop (fuel + 1) t rest = .ok (e, rest) := by
  rw [parseExpr]
  simp only [ht, he]
  rfl

theorem parseExpr_lparen (ht : t.t = .lparen) :
    parseExpr opt stop (fuel + 1) t = parseListExpr opt stop fuel t := by
  rw [parseExpr]
  simp only [ht]

theorem parseExpr_lbrace (ht : t.t = .lbrace) :
    parseExpr opt stop (fuel + 1) t = Expr.seq <$> parseSequenceExpr opt stop fuel t := by
  rw [parseExpr]
  simp only [ht]

theorem parseListExpr_lparen (ht : t.t = .lparen) (hh : head.t = .Ident) :
    parseListExpr opt stop (fuel + 1) t (head :: rest) =
      listLoop opt stop fuel true head none none rest := by
  rw [parseListExpr, if_pos ht, next_bind_cons]
  simp only [hh, if_true]

theorem parseListExpr_word (hh : head.t = .Ident) :
    parseListExpr opt stop (fuel + 1) head rest =
      listLoop opt stop fuel false head none none rest := by
  rw [parseListExpr, if_neg (by simp [hh]), if_pos hh]

theorem parseSequenceExpr_lbrace (ht : t.t = .lbrace) :
    parseSequenceExpr opt stop (fuel + 1) t rest =
      (next stop >>= seqLoop opt stop fuel true []) rest := by
  rw [parseSequenceExpr, if_pos ht]

theorem parseSequenceExpr_other (ht : t.t ≠ .lbrace) :
    parseSequenceExpr opt stop (fuel + 1) t rest =
      (next stop >>= seqLoop opt stop fuel false []) (t :: rest) := by
  rw [parseSequenceExpr, if_neg ht]
  rfl

theorem listLoop_annot (ht : isAnnotationToken t = true) :
    listLoop opt stop (fuel + 1) br head args annots (t :: rest) =
      listLoop opt stop fuel br head args (push annots t.v) rest := by
  rw [listLoop, next_bind_cons]
  simp [ht, isIdent_of_isAnnotationToken ht]

theorem listLoop_arg (ht : isAnnotationToken t = false) (hp : t.t ≠ .rparen)
    (he : parseExpr opt stop fuel t mid = .ok (e, rest)) :
    listLoop opt stop (fuel + 1) br head args annots (t :: mid) =
      listLoop opt stop fuel br head (push args e) annots rest := by
  rw [listLoop, next_bind_cons]
  simp only [hp, ht, if_false, Bool.false_eq_true]
  rw [Reader.bind_of_ok he]

theorem listLoop_close (hc : c.t = .rparen)
    (he : opt.expand (primName head.v) args annots = .ok e) :
    listLoop opt stop (fuel + 1) true head args annots (c :: rest) = .ok (e, rest) := by
  rw [listLoop, next_bind_cons]
  simp only [hc, if_true, he]
  rfl

theorem listLoop_end (he : opt.expand (primName head.v) args annots = .ok e) :
    listLoop opt none (fuel + 1) false head args annots [] = .ok (e, []) := by
  rw [listLoop, next_bind_nil]
  simp only [he, Bool.false_eq_true, if_false]
  rfl

theorem parseArgs_annot (ht : isAnnotationToken t = true) :
    parseArgs opt stop (fuel + 1) args annots (t :: rest) =
      parseArgs opt stop fuel args (push annots t.v) rest := by
  rw [parseArgs, next_bind_cons]
  simp [ht, isIdent_of_isAnnotationToken ht]

theorem parseArgs_arg (ht : isAnnotationToken t = false) (hb : t.t ≠ .rbrace) (hs : t.t ≠ .semicolon)
    (he : parseExpr opt stop fuel t mid = .ok (e, rest)) :
    parseArgs opt stop (fuel + 1) args annots (t :: mid) =
      parseArgs opt stop fuel (push args e) annots rest := by
  rw [parseArgs, next_bind_cons]
  simp only [hb, hs, ht, if_false, Bool.false_eq_true, or_self]
  rw [Reader.bind_of_ok he]

theorem parseArgs_close (hc : c.t = .rbrace ∨ c.t = .semicolon) :
    parseArgs opt stop (fuel + 1) args annots (c :: rest) = .ok ((args, annots, some c), rest) := by
  rw [parseArgs, next_bind_cons]
  simp only [hc, if_true]
  rfl

theorem parseArgs_end :
    parseArgs opt none (fuel + 1) args annots [] = .ok ((args, annots, none), []) := rfl

variable {seq : List Expr} {n : Option Token}

theorem seqLoop_prim (hh : head.t = .Ident)
    (ha : parseArgs opt stop fuel none none mid = .ok ((args, annots, n), rest))
    (he : opt.expand (primName head.v) args annots = .ok e) :
    seqLoop opt stop (fuel + 1) br seq (some head) mid =
      (skipSemicolon stop n >>= seqLoop opt stop fuel br (seq ++ [e])) rest := by
  rw [seqLoop, if_neg (by simp [hh]), if_pos hh, Reader.bind_of_ok ha]
  dsimp only
  rw [he]
  rfl

theorem seqLoop_other (hb : t.t ≠ .rbrace) (hi : t.t ≠ .Ident)
    (he : parseExpr opt stop fuel t mid = .ok (e, rest)) :
    seqLoop opt stop (fuel + 1) br seq (some t) mid =
      (next stop >>= fun n => skipSemicolon stop n >>= seqLoop opt stop fuel br (seq ++ [e]))
        rest := by
  rw [seqLoop, if_neg hb, if_neg hi, Reader.bind_of_ok he]

theorem seqLoop_close (hc : c.t = .rbrace) :
    seqLoop opt stop (fuel + 1) true seq (some c) rest = .ok (seq, rest) := by
  rw [seqLoop, if_pos hc]
  rfl

theorem seqLoop_end : seqLoop opt stop (fuel + 1) false seq none rest = .ok (seq, rest) := rfl

theorem skipSemicolon_pos {α : Type} {f : Option Token → Reader Token ParseError α}
    (hc : c.t = .semicolon) :
    (skipSemicolon stop (some c) >>= f) rest = (next stop >>= f) rest := by
  rw [Reader.bind_apply, Reader.bind_apply, skipSemicolon, if_pos hc]

theorem skipSemicolon_neg {α : Type} {f : Option Token → Reader Token ParseError α}
    (hn : ∀ c ∈ n, c.t ≠ .semicolon) : (skipSemicolon stop n >>= f) rest = f n rest := by
  cases n with
  | none => rfl
  | some c =>
    rw [Reader.bind_apply, skipSemicolon, if_neg (hn c rfl)]
    rfl

end rounds

/-! ## Completeness -/

/-- What the parser does on the tokens of a phrase. -/
def Parsed (opt : ParserOptions) (stop : Option ScanError) : Phrase → List Token → Prop
  | .expr e, ts => ∃ tok us, ts = tok :: us ∧ tok.t ≠ .semicolon ∧ tok.t ≠ .rbrace ∧
      tok.t ≠ .rparen ∧ ∀ fuel, 3 * us.length + 3 ≤ fuel →
        Reader.Reads (parseExpr opt stop fuel tok) us e
  | .items args annots, ts => ∀ fuel, 3 * ts.length + 1 ≤ fuel →
      ∃ fuel', fuel ≤ fuel' + ts.length ∧
        (∀ br head rest, listLoop opt stop fuel br head none none (ts ++ rest) =
          listLoop opt stop fuel' br head args annots rest) ∧
        ∀ rest, parseArgs opt stop fuel none none (ts ++ rest) =
          parseArgs opt stop fuel' args annots rest
  | .elems es, ts => ∀ fuel, 3 * ts.length + 1 ≤ fuel →
      ∃ fuel', fuel ≤ fuel' + ts.length ∧ ∀ br rest, (∀ t ∈ rest.head?, t.t ≠ .semicolon) →
        (next stop >>= seqLoop opt stop fuel br []) (ts ++ rest) =
          (next stop >>= seqLoop opt stop fuel' br es) rest
  | .body es, ts => ∀ fuel, 3 * ts.length + 2 ≤ fuel →
      (∀ c rest, c.t = .rbrace →
        (next stop >>= seqLoop opt stop fuel true []) (ts ++ c :: rest) = .ok (es, rest)) ∧
      (stop = none → (next stop >>= seqLoop opt stop fuel false []) ts = .ok (es, []))

/-- **Every phrase is parsed as what it stands for.** -/
theorem Spells.parsed (stop : Option ScanError) {ph : Phrase} {ts : List Token}
    (h : Spells opt ph ts) : Parsed opt stop ph ts := by
  induction h with
  | literal h =>
    have ht := literalExpr_type h
    refine ⟨_, [], rfl, by aesop, by aesop, by aesop, fun fuel hf rest => ?_⟩
    obtain ⟨fuel, rfl⟩ : ∃ k, fuel = k + 1 := ⟨fuel - 1, by omega⟩
    exact parseExpr_literal h
  | word ht he =>
    refine ⟨_, [], rfl, by simp [ht], by simp [ht], by simp [ht], fun fuel hf rest => ?_⟩
    obtain ⟨fuel, rfl⟩ : ∃ k, fuel = k + 1 := ⟨fuel - 1, by omega⟩
    exact parseExpr_word ht he
  | @list o head c ts args annots e ho hh _ he hc ih =>
    refine ⟨_, _, rfl, by simp [ho], by simp [ho], by simp [ho], fun fuel hf rest => ?_⟩
    simp only [List.length_cons, List.length_append, List.length_nil] at hf
    obtain ⟨fuel, rfl⟩ : ∃ k, fuel = k + 1 + 1 := ⟨fuel - 2, by omega⟩
    obtain ⟨fuel', hle, hlist, -⟩ := ih fuel (by omega)
    obtain ⟨fuel', rfl⟩ : ∃ k, fuel' = k + 1 := ⟨fuel' - 1, by omega⟩
    rw [parseExpr_lparen ho, List.cons_append, parseListExpr_lparen ho hh, List.append_assoc, hlist]
    exact listLoop_close hc he
  | @seq o c ts es ho _ hc ih =>
    refine ⟨_, _, rfl, by simp [ho], by simp [ho], by simp [ho], fun fuel hf rest => ?_⟩
    simp only [List.length_append, List.length_cons, List.length_nil] at hf
    obtain ⟨fuel, rfl⟩ : ∃ k, fuel = k + 1 + 1 := ⟨fuel - 2, by omega⟩
    have hseq := (ih fuel (by omega)).1 c rest hc
    rw [parseExpr_lbrace ho, map_eq_pure_bind, List.append_assoc]
    refine (Reader.bind_of_ok ?_).trans rfl
    rw [parseSequenceExpr_lbrace ho]
    exact hseq
  | items_nil => exact fun fuel _ => ⟨fuel, by simp, fun _ _ _ => rfl, fun _ => rfl⟩
  | @items_annot t ts args annots _ ht ih =>
    intro fuel hf
    simp only [List.length_append, List.length_cons, List.length_nil] at hf
    obtain ⟨fuel', hle, hlist, hargs⟩ := ih fuel (by omega)
    obtain ⟨fuel', rfl⟩ : ∃ k, fuel' = k + 1 := ⟨fuel' - 1, by omega⟩
    refine ⟨fuel', by simp; omega, fun br head rest => ?_, fun rest => ?_⟩
    · rw [List.append_assoc, hlist]
      exact listLoop_annot ht
    · rw [List.append_assoc, hargs]
      exact parseArgs_annot ht
  | @items_arg t ts us args annots e _ ht _ ih ihe =>
    obtain ⟨_, _, heq, hs, hb, hp, hexpr⟩ := ihe
    obtain ⟨rfl, rfl⟩ := List.cons.inj heq
    intro fuel hf
    simp only [List.length_append, List.length_cons] at hf
    obtain ⟨fuel', hle, hlist, hargs⟩ := ih fuel (by omega)
    obtain ⟨fuel', rfl⟩ : ∃ k, fuel' = k + 1 := ⟨fuel' - 1, by omega⟩
    refine ⟨fuel', by simp; omega, fun br head rest => ?_, fun rest => ?_⟩
    · rw [List.append_assoc, hlist]
      exact listLoop_arg ht hp (hexpr fuel' (by omega) rest)
    · rw [List.append_assoc, hargs]
      exact parseArgs_arg ht hb hs (hexpr fuel' (by omega) rest)
  | elems_nil => exact fun fuel _ => ⟨fuel, by simp, fun _ _ _ => rfl⟩
  | @elems_prim head c ts us es args annots e _ hh _ he hc ih ihi =>
    intro fuel hf
    simp only [List.length_append, List.length_cons, List.length_nil] at hf
    obtain ⟨fuel', hle, hloop⟩ := ih fuel (by omega)
    obtain ⟨fuel', rfl⟩ : ∃ k, fuel' = k + 1 := ⟨fuel' - 1, by omega⟩
    obtain ⟨k, hk, -, hargs⟩ := ihi fuel' (by omega)
    obtain ⟨k, rfl⟩ : ∃ j, k = j + 1 := ⟨k - 1, by omega⟩
    refine ⟨fuel', by simp; omega, fun br rest _ => ?_⟩
    have hend : parseArgs opt stop fuel' none none (us ++ ([c] ++ rest)) =
        .ok ((args, annots, some c), rest) := by
      rw [hargs]
      exact parseArgs_close (.inr hc)
    rw [List.append_assoc, hloop br _ (by simp [hh]), List.cons_append, next_bind_cons,
      List.append_assoc, seqLoop_prim hh hend he]
    exact skipSemicolon_pos hc
  | @elems_other t ts us es e _ ht _ ih ihe =>
    obtain ⟨_, _, heq, hs, hb, -, hexpr⟩ := ihe
    obtain ⟨rfl, rfl⟩ := List.cons.inj heq
    intro fuel hf
    simp only [List.length_append, List.length_cons] at hf
    obtain ⟨fuel', hle, hloop⟩ := ih fuel (by omega)
    obtain ⟨fuel', rfl⟩ : ∃ k, fuel' = k + 1 := ⟨fuel' - 1, by omega⟩
    refine ⟨fuel', by simp; omega, fun br rest hrest => ?_⟩
    rw [List.append_assoc, hloop br _ (by simp [hs]), List.cons_append, next_bind_cons,
      seqLoop_other hb ht (hexpr fuel' (by omega) rest)]
    -- no semicolon follows
    cases rest with
    | nil =>
      cases stop with
      | none => rfl
      | some _ => rfl
    | cons r rest =>
      rw [next_bind_cons, next_bind_cons]
      exact skipSemicolon_neg (by simpa using hrest)
  | @elems_sep t c ts us es e _ ht _ hc ih ihe =>
    obtain ⟨_, _, heq, hs, hb, -, hexpr⟩ := ihe
    obtain ⟨rfl, rfl⟩ := List.cons.inj heq
    intro fuel hf
    simp only [List.length_append, List.length_cons, List.length_nil] at hf
    obtain ⟨fuel', hle, hloop⟩ := ih fuel (by omega)
    obtain ⟨fuel', rfl⟩ : ∃ k, fuel' = k + 1 := ⟨fuel' - 1, by omega⟩
    refine ⟨fuel', by simp; omega, fun br rest _ => ?_⟩
    rw [List.append_assoc, hloop br _ (by simp [hs]), List.cons_append, next_bind_cons,
      List.append_assoc, seqLoop_other hb ht (hexpr fuel' (by omega) ([c] ++ rest)),
      List.singleton_append, next_bind_cons]
    exact skipSemicolon_pos hc
  | @body ts es _ ih =>
    intro fuel hf
    obtain ⟨fuel', hle, hloop⟩ := ih fuel (by omega)
    obtain ⟨fuel', rfl⟩ : ∃ k, fuel' = k + 1 := ⟨fuel' - 1, by omega⟩
    constructor
    · intro c rest hc
      rw [hloop true _ (by simp [hc]), next_bind_cons]
      exact seqLoop_close hc
    · rintro rfl
      have h := hloop false [] (by simp)
      rw [List.append_nil] at h
      rw [h]
      rfl
  | @body_prim head ts us es args annots e _ hh _ he ih ihi =>
    intro fuel hf
    simp only [List.length_append, List.length_cons] at hf
    obtain ⟨fuel', hle, hloop⟩ := ih fuel (by omega)
    obtain ⟨fuel', rfl⟩ : ∃ k, fuel' = k + 1 := ⟨fuel' - 1, by omega⟩
    obtain ⟨k, hk, -, hargs⟩ := ihi fuel' (by omega)
    obtain ⟨k, rfl⟩ : ∃ j, k = j + 1 := ⟨k - 1, by omega⟩
    obtain ⟨fuel', rfl⟩ : ∃ j, fuel' = j + 1 := ⟨fuel' - 1, by omega⟩
    constructor
    · intro c rest hc
      have hend : parseArgs opt stop (fuel' + 1) none none (us ++ c :: rest) =
          .ok ((args, annots, some c), rest) := by
        rw [hargs]
        exact parseArgs_close (.inl hc)
      rw [List.append_assoc, hloop true _ (by simp [hh]), List.cons_append, next_bind_cons,
        seqLoop_prim hh hend he, skipSemicolon_neg (by simp [hc])]
      exact seqLoop_close hc
    · rintro rfl
      have hend : parseArgs opt none (fuel' + 1) none none us = .ok ((args, annots, none), []) := by
        have h := hargs []
        rw [List.append_nil] at h
        rw [h]
        rfl
      rw [hloop false _ (by simp [hh]), next_bind_cons, seqLoop_prim hh hend he]
      rfl

/-! ## The entry points -/

/-- **A text of the grammar is accepted**, and read as what it stands for. -/
theorem EntryPoint.run_of_wholeInput {f : EntryPoint} {src : JSString} {e : Expr}
    (h : f.WholeInput opt src e) (hne : (scan src false).tokens ≠ []) :
    f.run opt src = .ok (some e) := by
  obtain ⟨hstop, hs⟩ := h
  cases htokens : (scan src false).tokens with
  | nil => exact absurd htokens hne
  | cons tok us =>
    rw [htokens] at hs
    suffices hparse : f.parse opt none (3 * (us.length + 1) + 3) tok us = .ok (e, []) by
      rw [EntryPoint.run, htokens, hstop, next_cons, Except.ok_bind]
      dsimp only
      rw [parseFuel, List.length_cons, hparse]
      rfl
    have hexpr (hs : MichelCodec.Spells opt (.expr e) (tok :: us)) (fuel : ℕ)
        (hf : 3 * us.length + 3 ≤ fuel) : parseExpr opt none fuel tok us = .ok (e, []) := by
      obtain ⟨_, _, heq, -, -, -, hreads⟩ := hs.parsed none
      obtain ⟨rfl, rfl⟩ := List.cons.inj heq
      simpa using hreads fuel hf []
    cases f with
    | parseSequence =>
      simp only [EntryPoint.Spells, List.head?_cons, Option.map_some, Option.some.injEq] at hs
      split_ifs at hs with ht
      · have h := hexpr hs (3 * (us.length + 1) + 3 + 1) (by omega)
        rwa [parseExpr_lbrace ht] at h
      · obtain ⟨es, rfl, hb⟩ := hs
        have h := (hb.parsed none (3 * (us.length + 1) + 2) (by simp)).2 rfl
        rw [EntryPoint.parse, map_eq_pure_bind]
        refine (Reader.bind_of_ok ?_).trans rfl
        rw [parseSequenceExpr_other ht]
        exact h
    | parseList =>
      simp only [EntryPoint.Spells, List.head?_cons, Option.map_some, Option.some.injEq] at hs
      split_ifs at hs with ht
      · have h := hexpr hs (3 * (us.length + 1) + 3 + 1) (by omega)
        rwa [parseExpr_lparen ht] at h
      · obtain ⟨_, _, args, annots, heq, hh, hi, he⟩ := hs
        obtain ⟨rfl, rfl⟩ := List.cons.inj heq
        obtain ⟨fuel', hle, hlist, -⟩ := hi.parsed none (3 * (us.length + 1) + 2) (by omega)
        obtain ⟨fuel', rfl⟩ : ∃ k, fuel' = k + 1 := ⟨fuel' - 1, by omega⟩
        have h := hlist false tok []
        rw [List.append_nil] at h
        rw [EntryPoint.parse, parseListExpr_word hh, h]
        exact listLoop_end he
    | parseMichelineExpression => exact hexpr hs _ (by omega)

/-- **What an entry point returns on the texts it reads to the end**: an expression exactly when the
text is not empty and spells it. -/
theorem EntryPoint.run_iff (f : EntryPoint) (opt : ParserOptions) (src : JSString) (e : Expr) :
    (f.run opt src = .ok (some e) ∧
      f.leftover (scan src false).tokens = [] ∧ (scan src false).stop = none) ↔
    (f.WholeInput opt src e ∧ (scan src false).tokens ≠ []) := by
  constructor
  · rintro ⟨h, hleft, hstop⟩
    obtain ⟨tok, bs, rest, htokens, -⟩ := EntryPoint.run_eq_ok h
    exact ⟨EntryPoint.wholeInput_of_leftover h hleft hstop, by simp [htokens]⟩
  · rintro ⟨hw, hne⟩
    exact ⟨EntryPoint.run_of_wholeInput hw hne, EntryPoint.leftover_of_spells hw.2, hw.1⟩

end MichelCodec
