import Taquito.MichelCodec.Expansion

/-!
# Parsing an expression that was parsed

No macro is left in an expression that `parseJSON` returned, and it is returned again when it is
parsed again, unless a number in the code of a macro was too large for `String(n)` to write it as a
numeral (`parseJSON_again_iff`).
-/

open Js

namespace MichelCodec

variable {p : String} {args : Option (List Expr)} {annots : Option (List JSString)}

/-! ## Expressions parsed as JSON -/

/-- The protocol that the options of a parser choose. -/
def ParserOptions.usedProtocol (opt : ParserOptions) : Protocol := opt.protocol.getD DefaultProtocol

/-- A parser that expands macros and no global constants. -/
structure ParserOptions.OnlyMacros (opt : ParserOptions) : Prop where
  macros : opt.expandMacros.getD true = true
  noConstants : opt.expandGlobalConstant = none

variable {opt : ParserOptions}

theorem ParserOptions.OnlyMacros.expand (h : opt.OnlyMacros) :
    opt.expand p args annots =
      (MichelCodec.expandMacros opt.usedProtocol p args annots).mapError .expansion := by
  rw [ParserOptions.expand, h.noConstants]
  show ParserOptions.expand.expandOwn opt p args annots = _
  rw [ParserOptions.expand.expandOwn, if_pos h.macros]
  rfl

theorem mapError_eq_ok {ε ε' α : Type} {f : ε → ε'} {x : Except ε α} {a : α} :
    x.mapError f = .ok a ↔ x = .ok a := by
  cases x with
  | error e => exact ⟨nofun, nofun⟩
  | ok b =>
    show Except.ok b = .ok a ↔ _
    rw [Except.ok.injEq, Except.ok.injEq]

theorem parseJSONs_eq_ok {es es' : List Expr} : parseJSONs opt es = .ok es' ↔
    List.Forall₂ (fun a b => parseJSON opt a = .ok b) es es' := by
  induction es generalizing es' with
  | nil =>
    rw [parseJSONs, List.forall₂_nil_left_iff]
    exact ⟨fun h => (Except.ok.inj h).symm, fun h => h ▸ rfl⟩
  | cons e es ih =>
    rw [parseJSONs, List.forall₂_cons_left_iff, Except.bind_eq_ok]
    constructor
    · rintro ⟨b, hb, h⟩
      obtain ⟨bs, hbs, h⟩ := Except.bind_eq_ok.mp h
      exact ⟨b, bs, hb, ih.mp hbs, (Except.ok.inj h).symm⟩
    · rintro ⟨b, bs, hb, hbs, rfl⟩
      exact ⟨b, hb, Except.bind_eq_ok.mpr ⟨bs, ih.mpr hbs, rfl⟩⟩

theorem parseJSON_seq_eq_ok {items : List Expr} {e : Expr} :
    parseJSON opt (.seq items) = .ok e ↔
      ∃ items', List.Forall₂ (fun a b => parseJSON opt a = .ok b) items items' ∧
        e = .seq items' := by
  rw [parseJSON, Except.bind_eq_ok]
  constructor
  · rintro ⟨items', h, he⟩
    exact ⟨items', parseJSONs_eq_ok.mp h, (Except.ok.inj he).symm⟩
  · rintro ⟨items', h, rfl⟩
    exact ⟨items', parseJSONs_eq_ok.mpr h, rfl⟩

/-- A primitive is parsed by parsing its arguments and expanding it. -/
theorem parseJSON_prim_eq_ok {e : Expr} : parseJSON opt (.prim p args annots) = .ok e ↔
    ∃ args', args'.isSome = args.isSome ∧
      List.Forall₂ (fun a b => parseJSON opt a = .ok b) (args.getD []) (args'.getD []) ∧
      opt.expand p args' annots = .ok e := by
  cases args with
  | none =>
    rw [parseJSON, mapError_eq_ok]
    constructor
    · intro h
      exact ⟨none, rfl, .nil, h⟩
    · rintro ⟨args', hargs, -, h⟩
      rw [Option.isSome_none, Option.isSome_eq_false_iff, Option.isNone_iff_eq_none] at hargs
      rwa [hargs] at h
  | some es =>
    rw [parseJSON, Except.bind_eq_ok]
    constructor
    · rintro ⟨es', hes, h⟩
      exact ⟨some es', rfl, parseJSONs_eq_ok.mp hes, mapError_eq_ok.mp h⟩
    · rintro ⟨args', hargs, hes, h⟩
      obtain ⟨es', rfl⟩ := Option.isSome_iff_exists.mp hargs
      exact ⟨es', parseJSONs_eq_ok.mpr hes, mapError_eq_ok.mpr h⟩

theorem exists_mem_right {α β : Type} {R : α → β → Prop} {as : List α} {bs : List β}
    (h : List.Forall₂ R as bs) {a : α} (ha : a ∈ as) : ∃ b ∈ bs, R a b := by
  induction h with
  | nil => cases ha
  | cons hab _ ih =>
    rcases List.mem_cons.mp ha with rfl | ha
    · exact ⟨_, List.mem_cons_self, hab⟩
    · obtain ⟨b, hb, hR⟩ := ih ha
      exact ⟨b, List.mem_cons_of_mem _ hb, hR⟩

theorem exists_mem_left {α β : Type} {R : α → β → Prop} {as : List α} {bs : List β}
    (h : List.Forall₂ R as bs) {b : β} (hb : b ∈ bs) : ∃ a ∈ as, R a b :=
  exists_mem_right h.flip hb

/-- Parsing leaves literals as they are. -/
theorem parseJSON_int_iff (hopt : opt.OnlyMacros) {e : Expr} {text : JSString} :
    parseJSON opt e = .ok (.int text) ↔ e = .int text ∧ isNumeral text = true := by
  cases e with
  | int text' =>
    rw [parseJSON]
    split
    · next h =>
      rw [Except.ok.injEq, Expr.int.injEq]
      exact ⟨fun he => ⟨he, he ▸ h⟩, fun he => he.1⟩
    · next h =>
      refine iff_of_false nofun fun he => h ?_
      rw [Expr.int.inj he.1]
      exact he.2
  | string s => exact iff_of_false nofun nofun
  | bytes hex =>
    rw [parseJSON]
    split
    · exact iff_of_false nofun nofun
    · exact iff_of_false nofun nofun
  | seq items =>
    rw [parseJSON_seq_eq_ok]
    exact iff_of_false nofun nofun
  | prim p args annots =>
    rw [parseJSON_prim_eq_ok]
    refine iff_of_false ?_ nofun
    rintro ⟨args', -, -, h⟩
    rw [hopt.expand, mapError_eq_ok] at h
    exact isNode_expandMacros _ h

/-- A number that is an argument is still the argument when it was parsed. -/
theorem countArg_parsed (hopt : opt.OnlyMacros) {args args' : Option (List Expr)}
    (hsome : args'.isSome = args.isSome)
    (h : List.Forall₂ (fun a b => parseJSON opt a = .ok b) (args.getD []) (args'.getD [])) :
    countArg args' = countArg args := by
  cases args with
  | none =>
    rw [Option.isSome_none, Option.isSome_eq_false_iff, Option.isNone_iff_eq_none] at hsome
    rw [hsome]
  | some es =>
    obtain ⟨es', rfl⟩ := Option.isSome_iff_exists.mp hsome
    rw [Option.getD_some, Option.getD_some] at h
    rcases h with _ | ⟨hab, _ | ⟨-, -⟩⟩
    · rfl
    · next a b =>
      cases a with
      | int text =>
        rw [parseJSON] at hab
        split at hab
        · rw [← Except.ok.inj hab]
        · cases hab
      | _ =>
        cases b with
        | int text =>
          obtain ⟨ha, -⟩ := (parseJSON_int_iff hopt).mp hab
          cases ha
        | _ => rfl
    · next hab' =>
      have hnone : ∀ (a a' : Expr) (as : List Expr), countArg (some (a :: a' :: as)) = none := by
        intro a a' as
        cases a <;> rfl
      rw [hnone, hnone]

theorem counts_parsed (hopt : opt.OnlyMacros) {args args' : Option (List Expr)}
    (hsome : args'.isSome = args.isSome)
    (h : List.Forall₂ (fun a b => parseJSON opt a = .ok b) (args.getD []) (args'.getD [])) :
    counts opt.usedProtocol p args' = counts opt.usedProtocol p args := by
  rw [counts, counts, countArg_parsed hopt hsome h]

/-! ## What is left to expand -/

/-- A node that parsing leaves as it is. -/
def IsStable (proto : Protocol) : Expr → Prop
  | .int text => isNumeral text = true
  | .bytes hex => isHexPairs hex = true
  | .prim p args annots => IsNoMacro proto p args annots
  | _ => True

/-- A node that is no macro. -/
def IsExpanded (proto : Protocol) : Expr → Prop
  | .prim p args annots => IsNoMacro proto p args annots
  | _ => True

/-- A number that is a numeral. -/
def IsNumeric : Expr → Prop
  | .int text => isNumeral text = true
  | _ => True

/-- A node for the code of which only numbers with a property are computed. -/
def CountsHave (proto : Protocol) (P : Double → Prop) : Expr → Prop
  | .prim p args _ => ∀ n ∈ counts proto p args, P n
  | _ => True

/-- What every node is that is as parsing leaves it is so after parsing. -/
theorem parseJSON_of_stable (hopt : opt.OnlyMacros) {e : Expr}
    (h : e.Everywhere (IsStable opt.usedProtocol)) : parseJSON opt e = .ok e := by
  have hsame : ∀ es : List Expr, (∀ a ∈ es, parseJSON opt a = .ok a) →
      List.Forall₂ (fun a b => parseJSON opt a = .ok b) es es := by
    intro es hes
    exact List.forall₂_same.mpr hes
  induction e with
  | int text =>
    obtain ⟨here, -⟩ := Expr.everywhere_iff.mp h
    exact if_pos here
  | string s => rfl
  | bytes hex =>
    obtain ⟨here, -⟩ := Expr.everywhere_iff.mp h
    exact if_pos here
  | seq items ih =>
    obtain ⟨-, below⟩ := Expr.everywhere_iff.mp h
    exact parseJSON_seq_eq_ok.mpr ⟨items, hsame _ fun a ha => ih a ha (below a ha), rfl⟩
  | prim p args annots ih =>
    obtain ⟨here, below⟩ := Expr.everywhere_iff.mp h
    refine parseJSON_prim_eq_ok.mpr ⟨args, rfl, hsame _ fun a ha => ih a ha (below a ha), ?_⟩
    rw [hopt.expand, mapError_eq_ok]
    exact here

/-- The numbers of an expression that can be parsed are numerals. -/
theorem everywhere_isNumeric (x : Expr) : ∀ {r : Expr}, parseJSON opt x = .ok r →
    x.Everywhere IsNumeric := by
  have hall : ∀ {es es' : List Expr},
      (∀ a ∈ es, ∀ {r : Expr}, parseJSON opt a = .ok r → a.Everywhere IsNumeric) →
      List.Forall₂ (fun a b => parseJSON opt a = .ok b) es es' → ∀ a ∈ es, a.Everywhere IsNumeric := by
    intro es es' ih h a ha
    obtain ⟨b, -, hab⟩ := exists_mem_right h ha
    exact ih a ha hab
  induction x with
  | int text =>
    intro r h
    rw [parseJSON] at h
    split at h
    · next hnumeral => exact .node hnumeral nofun
    · cases h
  | string s => exact fun _ => .node trivial nofun
  | bytes hex => exact fun _ => .node trivial nofun
  | seq items ih =>
    intro r h
    obtain ⟨items', hitems, -⟩ := parseJSON_seq_eq_ok.mp h
    exact .node trivial (hall ih hitems)
  | prim p args annots ih =>
    intro r h
    obtain ⟨args', -, hargs, -⟩ := parseJSON_prim_eq_ok.mp h
    exact .node trivial (hall ih hargs)

section

variable (hopt : opt.OnlyMacros) {P : Expr → Prop} (hseq : ∀ items, P (.seq items))
  (hprim : ∀ p args annots, IsNoMacro opt.usedProtocol p args annots → P (.prim p args annots))
  (hstring : ∀ s, P (.string s)) (hbytes : ∀ hex, isHexPairs hex = true → P (.bytes hex))
  (hint : ∀ text, isNumeral text = true → P (.int text))

include hopt hseq hprim hstring hbytes hint in
/-- **What is left after parsing** has a property if and only if the numbers that were computed have
it, for a property of all instructions, strings and well-formed literals. -/
theorem everywhere_parseJSON_iff (x : Expr) : ∀ {r : Expr}, parseJSON opt x = .ok r →
    (r.Everywhere P ↔ x.Everywhere (CountsHave opt.usedProtocol fun n => P (.int n.text))) := by
  have hall : ∀ {es es' : List Expr}, (∀ a ∈ es, ∀ {r : Expr}, parseJSON opt a = .ok r →
      (r.Everywhere P ↔ a.Everywhere (CountsHave opt.usedProtocol fun n => P (.int n.text)))) →
      List.Forall₂ (fun a b => parseJSON opt a = .ok b) es es' → ((∀ a ∈ es', a.Everywhere P) ↔
        ∀ a ∈ es, a.Everywhere (CountsHave opt.usedProtocol fun n => P (.int n.text))) := by
    intro es es' ih h
    constructor
    · intro hes' a ha
      obtain ⟨b, hb, hab⟩ := exists_mem_right h ha
      exact (ih a ha hab).mp (hes' b hb)
    · intro hes b hb
      obtain ⟨a, ha, hab⟩ := exists_mem_left h hb
      exact (ih a ha hab).mpr (hes a ha)
  induction x with
  | int text =>
    intro r h
    rw [parseJSON] at h
    split at h
    · next hnumeral =>
      rw [← Except.ok.inj h]
      exact iff_of_true (.node (hint text hnumeral) nofun) (.node trivial nofun)
    · cases h
  | string s =>
    intro r h
    rw [← Except.ok.inj h]
    exact iff_of_true (.node (hstring s) nofun) (.node trivial nofun)
  | bytes hex =>
    intro r h
    rw [parseJSON] at h
    split at h
    · next hhex =>
      rw [← Except.ok.inj h]
      exact iff_of_true (.node (hbytes hex hhex) nofun) (.node trivial nofun)
    · cases h
  | seq items ih =>
    intro r h
    obtain ⟨items', hitems, rfl⟩ := parseJSON_seq_eq_ok.mp h
    rw [Expr.everywhere_iff, Expr.everywhere_iff]
    exact and_congr (iff_of_true (hseq _) trivial) (hall ih hitems)
  | prim p args annots ih =>
    intro r h
    obtain ⟨args', hsome, hargs, hr⟩ := parseJSON_prim_eq_ok.mp h
    rw [hopt.expand, mapError_eq_ok] at hr
    have hint' : ∀ text, .int text ∈ args'.getD [] → P (.int text) := by
      intro text htext
      obtain ⟨a, -, hab⟩ := exists_mem_left hargs htext
      exact hint text ((parseJSON_int_iff hopt).mp hab).2
    rw [everywhere_expandMacros_iff hseq (fun q as ws _ => hprim q as ws)
      (fun n => hint _ (isNumeral_natText n)) hr (hprim p args' annots) hint',
      counts_parsed hopt hsome hargs, hall ih hargs, Expr.everywhere_iff, and_comm]
    rfl

end

/-- **Macro expansion reaches a fixpoint** if and only if every number that was computed for the
code of a macro is written as a numeral. No macro is left in any case. -/
theorem parseJSON_again_iff (hopt : opt.OnlyMacros) {x r : Expr} (h : parseJSON opt x = .ok r) :
    r.Everywhere (IsExpanded opt.usedProtocol) ∧
      (parseJSON opt r = .ok r ↔ x.Everywhere (CountsHave opt.usedProtocol Double.IsPlain)) := by
  have hplain : (fun n : Double => isNumeral n.text = true) = Double.IsPlain := by
    funext n
    exact propext (Double.isNumeral_text_iff n)
  rw [← hplain]
  refine ⟨?_, fun hr => ?_, fun hx => ?_⟩
  · refine (everywhere_parseJSON_iff hopt (fun _ => trivial) (fun _ _ _ hp => hp) (fun _ => trivial)
      (fun _ _ => trivial) (fun _ _ => trivial) x h).mpr ?_
    apply Expr.everywhere_of_forall
    intro e
    cases e with
    | prim p args annots => exact fun _ _ => trivial
    | _ => trivial
  · exact (everywhere_parseJSON_iff (P := IsNumeric) hopt (fun _ => trivial) (fun _ _ _ _ => trivial)
      (fun _ => trivial) (fun _ _ => trivial) (fun _ ht => ht) x h).mp (everywhere_isNumeric r hr)
  · exact parseJSON_of_stable hopt ((everywhere_parseJSON_iff (P := IsStable opt.usedProtocol) hopt
      (fun _ => trivial) (fun _ _ _ hp => hp) (fun _ => trivial) (fun _ hb => hb)
      (fun _ ht => ht) x h).mpr hx)

/-- The options of `new Parser()`. -/
def defaultOptions : ParserOptions := ⟨none, none, none⟩

theorem parseJSON_again_FAIL : failCode.Everywhere (IsExpanded defaultOptions.usedProtocol) ∧
    (parseJSON defaultOptions failCode = .ok failCode ↔
      (plain "FAIL").Everywhere (CountsHave defaultOptions.usedProtocol Double.IsPlain)) :=
  parseJSON_again_iff ⟨rfl, rfl⟩ rfl

/-- `CAR 1000000000000000000000` becomes `GET 2e+21`, which is refused. -/
theorem not_parseJSON_again : ∃ r,
    parseJSON defaultOptions (.prim "CAR" (some [.int (js "1000000000000000000000")]) none) = .ok r ∧
      parseJSON defaultOptions r = .error (.malformedInt (js "2e+21")) := by
  have htext : (((Double.parse (js "1000000000000000000000")).scale 2).add 1).text = js "2e+21" := by
    decide +kernel
  have hCAR : ∀ text, defaultOptions.expand "CAR" (some [.int text]) none
      = .ok (.prim "GET" (some [.int (((Double.parse text).scale 2).add 1).text]) none) :=
    fun text => rfl
  have hint : ∀ {text : JSString}, isNumeral text = true →
      parseJSON defaultOptions (.int text) = .ok (.int text) := by
    intro text h
    rw [parseJSON, if_pos h]
  refine ⟨.prim "GET" (some [.int (js "2e+21")]) none, ?_, ?_⟩
  · refine parseJSON_prim_eq_ok.mpr ⟨_, rfl, .cons (hint (by decide)) .nil, ?_⟩
    rw [← htext]
    exact hCAR _
  · have hrefused : parseJSONs defaultOptions [.int (js "2e+21")]
        = .error (.malformedInt (js "2e+21")) := by
      rw [parseJSONs, parseJSON, if_neg (by decide)]
      rfl
    rw [parseJSON, hrefused]
    rfl

end MichelCodec
