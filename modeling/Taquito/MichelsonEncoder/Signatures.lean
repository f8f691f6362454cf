import Taquito.MichelsonEncoder.LabelAgreement
import Taquito.MichelsonEncoder.Positional

/-!
# Signatures

`ParameterSchema.ExtractSignatures` lists the sequences of arguments that `Encode` is said to take:
a signature chooses a leaf of every `or` and fills or leaves out every option. `Choice` is such a
choice, `signature` the sequence that stands for it and `Fits` says which arguments carry out a
signature and what they stand for. `Encode` does not know the choice: it finds the leaf of an `or`
by the label, with positions counted otherwise than in the signature, and takes an option as left
out only if no argument is left. `Clear` says when it makes the same choice, and `encode_fits` that
it encodes the arguments as the signature lists them exactly then.
-/

open Js

namespace MichelsonEncoder

/-- How a signature is made: which leaf of every `or`, and which options are filled. -/
inductive Choice where
  | leaf
  | pair (left right : Choice)
  /-- The leaf on a path through a tree of `or`s. -/
  | alternative (path : List Bool) (choice : Choice)
  | some (choice : Choice)
  | none
  deriving DecidableEq, Repr

namespace Choice

/-- The leaf on a side of the tree. -/
def under (side : Bool) : Choice → Choice
  | alternative path c => alternative (side :: path) c
  | c => alternative [side] c

/-- The signature lists no argument. -/
def isEmpty : Choice → Bool
  | leaf | alternative _ _ => false
  | pair left right => left.isEmpty && right.isEmpty
  | some c => c.isEmpty
  | none => true

end Choice

namespace MType

/-- The choices for a type, in the order of the signatures. -/
def choices : MType → List Choice
  | .pair _ left right =>
    left.choices.flatMap fun l => right.choices.map fun r => .pair l r
  | .or _ left right =>
    (left.choices.map fun c => if left.isOr then c.under false else .alternative [false] c) ++
      right.choices.map fun c => if right.isOr then c.under true else .alternative [true] c
  | .option _ component => component.choices.map .some ++ [.none]
  | _ => [.leaf]

section

variable (host : Host)

/-- The leaf on a path through a tree of `or`s, and its position if the tree has this one. -/
def leafAt : MType → List Bool → ℕ → Option (MType × ℕ)
  | .or _ left _, false :: path, idx => left.leafAt path idx
  | .or _ left right, true :: path, idx => right.leafAt path (idx + left.orCount host idx)
  | .or _ _ _, [], _ => none
  | t, [], idx => some (t, idx)
  | _, _ :: _, _ => none

/-- The leaf that `OrToken.Encode` finds for a label. -/
def findLeaf (label : JSString) : MType → ℕ → Option (List Bool)
  | .or _ left right, idx =>
    if (left.token host idx).named label then some [false]
    else if (right.token host (idx + left.orCount host idx)).named label then some [true]
    else ((left.findLeaf label idx).map (false :: ·)).or
      ((right.findLeaf label (idx + left.orCount host idx)).map (true :: ·))
  | _, _ => none

/-- The signature of a choice. -/
def signature : Choice → MType → ℕ → List Val
  | .pair l r, .pair _ left right, idx =>
    signature l left idx ++ signature r right (idx + left.signatureCount host idx)
  | .alternative path c, t, idx =>
    match t.leafAt host path idx with
    | some (u, idx') => .string (u.token host idx').annot :: signature c u idx'
    | none => []
  | .some c, .option _ component, _ => signature c component 0
  | .leaf, t, idx => (t.token host idx).ExtractSignature.headD []
  | _, _, _ => []

/-- `Some`, unless no argument is listed. -/
def someOf (args : List Val) (e : Encoded) : Encoded :=
  if args.isEmpty then .prim "None" none else .prim "Some" (some [e])

/-- Arguments for a signature, the labels of which count from `sigIdx`: each of its labels, and at
the other places values that the token accepts and that are not `null`. The last index is the value
in which each stands at its place; the tokens of `Encode` count from `idx`. -/
inductive Fits : MType → Choice → ℕ → ℕ → List Val → Encoded → Prop where
  | leaf {t : MType} {idx sigIdx : ℕ} {v : Val} {e : Encoded} (isPair : t.isPair = false)
      (isOr : t.isOr = false) (isOption : ∀ annots c, t ≠ .option annots c)
      (given : v.isNone = false) (accepted : (t.token host idx).EncodeObject v = .ok e) :
      Fits t .leaf idx sigIdx [v] e
  | pair {annots : Annots} {left right : MType} {l r : Choice} {idx sigIdx : ℕ} {as bs : List Val}
      {e e' : Encoded} (isLeft : Fits left l idx sigIdx as e)
      (isRight : Fits right r (idx + left.pairCount host idx)
        (sigIdx + left.signatureCount host sigIdx) bs e') :
      Fits (.pair annots left right) (.pair l r) idx sigIdx (as ++ bs) (.prim "Pair" (some [e, e']))
  | alternative {annots : Annots} {left right u : MType} {path : List Bool} {c : Choice}
      {idx sigIdx idx' sigIdx' : ℕ} {args : List Val} {e : Encoded}
      (at_idx : leafAt host (.or annots left right) path idx = some (u, idx'))
      (at_sigIdx : leafAt host (.or annots left right) path sigIdx = some (u, sigIdx'))
      (isLeaf : Fits u c idx' sigIdx' args e) :
      Fits (.or annots left right) (.alternative path c) idx sigIdx
        (.string (u.token host sigIdx').annot :: args) (chooseEncoded path e)
  | some {annots : Annots} {component : MType} {c : Choice} {idx sigIdx : ℕ} {args : List Val}
      {e : Encoded} (isSome : Fits component c 0 0 args e) :
      Fits (.option annots component) (.some c) idx sigIdx args (someOf args e)
  | none {annots : Annots} {component : MType} {idx sigIdx : ℕ} :
      Fits (.option annots component) .none idx sigIdx [] (.prim "None" none)

/-- `Encode` makes the choice of the signature: every label is that of the leaf that it finds for
it, and no argument stands behind an option that is left out, neither in the signature nor, if
there are `more`, after it. -/
def Clear : Choice → MType → ℕ → ℕ → Bool → Prop
  | .pair l r, .pair _ left right, idx, sigIdx, more =>
    Clear l left idx sigIdx (more || !r.isEmpty) ∧
      Clear r right (idx + left.pairCount host idx) (sigIdx + left.signatureCount host sigIdx) more
  | .alternative path c, t, idx, sigIdx, more =>
    ∃ u idx' sigIdx', t.leafAt host path idx = some (u, idx') ∧
      t.leafAt host path sigIdx = some (u, sigIdx') ∧
      t.findLeaf host (u.token host sigIdx').annot idx = some path ∧ Clear c u idx' sigIdx' more
  | .some c, .option _ component, _, _, more =>
    if c.isEmpty then more = false else Clear c component 0 0 more
  | .none, _, _, _, more => more = false
  | _, _, _, _, _ => True

end

variable {host : Host}

/-! ## Signatures are those of the choices -/

theorem leafAt_nil {t : MType} (h : t.isOr = false) (idx : ℕ) :
    t.leafAt host [] idx = some (t, idx) := by
  cases t with
  | or annots left right => cases h
  | _ => rfl

/-- A choice for an `or` is one of its leaves. -/
theorem exists_alternative {t : MType} (h : t.isOr = true) {c : Choice} (hc : c ∈ t.choices) :
    ∃ path c', c = .alternative path c' := by
  cases t with
  | or annots left right =>
    have hside : ∀ (u : MType) (side : Bool), c ∈ (u.choices.map fun c =>
        if u.isOr then c.under side else .alternative [side] c) →
        ∃ path c', c = .alternative path c' := by
      intro u side hmem
      obtain ⟨c', -, rfl⟩ := List.mem_map.mp hmem
      by_cases hu : u.isOr = true
      · rw [if_pos hu]
        cases c' with
        | alternative path c' => exact ⟨side :: path, c', rfl⟩
        | _ => exact ⟨[side], _, rfl⟩
      · rw [if_neg hu]
        exact ⟨[side], c', rfl⟩
    rw [choices, List.mem_append] at hc
    exact hc.elim (hside left false) (hside right true)
  | _ => cases h

/-- The signatures of an alternative, seen from the `or` around it. -/
theorem alternativeSignature_eq (root : MType) {t : MType} (side : Bool) (idx : ℕ) {idx' : ℕ}
    (hleaf : ∀ path, root.leafAt host (side :: path) idx = t.leafAt host path idx')
    (h : (t.token host idx').ExtractSignature = t.choices.map fun c => signature host c t idx') :
    alternativeSignature (t.token host idx') =
      (t.choices.map fun c => if t.isOr then c.under side else .alternative [side] c).map
        fun c => signature host c root idx := by
  rw [alternativeSignature, h]
  by_cases ht : t.isOr = true
  · rw [if_pos ((kind_token_or t idx').mpr ht), List.map_map]
    apply List.map_congr_left
    intro c hc
    obtain ⟨path, c', rfl⟩ := exists_alternative ht hc
    rw [Function.comp_apply, if_pos ht, Choice.under, signature, signature, hleaf]
  · rw [Bool.not_eq_true] at ht
    rw [if_neg (kind_ne_or ht idx'), List.map_map, List.map_map]
    apply List.map_congr_left
    intro c _
    rw [Function.comp_apply, Function.comp_apply, ht, if_neg Bool.false_ne_true, signature, hleaf,
      leafAt_nil ht]

/-- **`ExtractSignature` lists the signatures of the choices.** -/
theorem extractSignature_eq (t : MType) : ∀ idx : ℕ,
    (t.token host idx).ExtractSignature = t.choices.map fun c => signature host c t idx := by
  induction t with
  | pair annots left right ihl ihr =>
    intro idx
    have hdef : ((MType.pair annots left right).token host idx).ExtractSignature =
      (left.token host idx).ExtractSignature.flatMap fun leftSig =>
        (right.token host (idx + left.signatureCount host idx)).ExtractSignature.map
          fun rightSig => leftSig ++ rightSig := rfl
    rw [hdef, ihl, ihr, choices, List.map_flatMap, List.flatMap_map]
    simp only [List.map_map]
    rfl
  | or annots left right ihl ihr =>
    intro idx
    have hdef : ((MType.or annots left right).token host idx).ExtractSignature =
      alternativeSignature (left.token host idx) ++
        alternativeSignature (right.token host (idx + left.orCount host idx)) := rfl
    have hleft := alternativeSignature_eq (.or annots left right) false idx
      (fun _ => rfl) (ihl idx)
    have hright := alternativeSignature_eq (.or annots left right) true idx
      (fun _ => rfl) (ihr (idx + left.orCount host idx))
    rw [hdef, choices, List.map_append, hleft, hright]
  | option annots component ih =>
    intro idx
    have hdef : ((MType.option annots component).token host idx).ExtractSignature =
      (component.token host 0).ExtractSignature ++ [[]] := rfl
    rw [hdef, ih, choices, List.map_append, List.map_map]
    rfl
  | _ =>
    intro idx
    rfl

/-! ## Arguments -/

/-- Arguments for a signature are as many as it lists. -/
theorem Fits.length {t : MType} {c : Choice} {idx sigIdx : ℕ} {args : List Val} {e : Encoded}
    (h : Fits host t c idx sigIdx args e) :
    args.length = (signature host c t sigIdx).length := by
  induction h with
  | @leaf t idx sigIdx v e hp ho hopt _ _ =>
    cases t with
    | pair annots left right => cases hp
    | or annots left right => cases ho
    | option annots component => exact absurd rfl (hopt _ _)
    | _ => rfl
  | pair hl hr ihl ihr => rw [List.length_append, ihl, ihr, signature, List.length_append]
  | alternative _ hsig _ ih => rw [signature, hsig, List.length_cons, ih, List.length_cons]
  | some _ ih => rw [ih, signature]
  | none => rfl

theorem Fits.isEmpty {t : MType} {c : Choice} {idx sigIdx : ℕ} {args : List Val} {e : Encoded}
    (h : Fits host t c idx sigIdx args e) : args.isEmpty = c.isEmpty := by
  induction h with
  | leaf => rfl
  | @pair annots left right l r idx sigIdx as bs e e' _ _ ihl ihr =>
    rw [Choice.isEmpty, ← ihl, ← ihr]
    cases as with
    | nil => rfl
    | cons a as => rfl
  | alternative => rfl
  | some _ ih => exact ih
  | none => rfl

/-- No argument is `null`. -/
theorem Fits.given {t : MType} {c : Choice} {idx sigIdx : ℕ} {args : List Val} {e : Encoded}
    (h : Fits host t c idx sigIdx args e) : ∀ a ∈ args, a.isNone = false := by
  induction h with
  | leaf _ _ _ hv _ => exact fun a ha => List.mem_singleton.mp ha ▸ hv
  | pair _ _ ihl ihr => exact fun a ha => (List.mem_append.mp ha).elim (ihl a) (ihr a)
  | alternative _ _ _ ih =>
    intro a ha
    rcases List.mem_cons.mp ha with rfl | ha
    · rfl
    · exact ih a ha
  | some _ ih => exact ih
  | none => exact fun a ha => absurd ha List.not_mem_nil

/-! ## The leaf for a label -/

theorem chooseEncoded_ne_null (side : Bool) (path : List Bool) (e : Encoded) :
    chooseEncoded (side :: path) e ≠ .null := Encoded.noConfusion

/-- The result is that of the leaf that is found for the label, or `null`. -/
structure Finds (host : Host) (label : JSString) (args : List Val) (t : MType) (idx : ℕ)
    (result : Except EncoderError (Encoded × List Val)) : Prop where
  nothing : t.findLeaf host label idx = none → result = .ok (.null, args ++ [.string label])
  leaf : ∀ path, t.findLeaf host label idx = some path →
    ∃ side path' u idx', path = side :: path' ∧ t.leafAt host path idx = some (u, idx') ∧
      result = (fun r => (chooseEncoded path r.1, r.2)) <$> (u.token host idx').Encode args

theorem Finds.of_some {label : JSString} {args : List Val} {t u : MType} {idx idx' : ℕ}
    {side : Bool} {path : List Bool} {result : Except EncoderError (Encoded × List Val)}
    (hfind : t.findLeaf host label idx = some (side :: path))
    (hat : t.leafAt host (side :: path) idx = some (u, idx'))
    (hresult : result = (fun r => (chooseEncoded (side :: path) r.1, r.2)) <$>
      (u.token host idx').Encode args) : Finds host label args t idx result where
  nothing h := by
    rw [hfind] at h
    cases h
  leaf path' hpath := by
    rw [hfind, Option.some.injEq] at hpath
    subst hpath
    exact ⟨side, path, u, idx', rfl, hat, hresult⟩

theorem Finds.of_none {label : JSString} {args : List Val} {t : MType} {idx : ℕ}
    {result : Except EncoderError (Encoded × List Val)}
    (hfind : t.findLeaf host label idx = none)
    (hresult : result = .ok (.null, args ++ [.string label])) :
    Finds host label args t idx result where
  nothing _ := hresult
  leaf path hpath := by
    rw [hfind] at hpath
    cases hpath

theorem findLeaf_of_not_or {t : MType} (h : t.isOr = false) (label : JSString) (idx : ℕ) :
    t.findLeaf host label idx = none := by
  cases t with
  | or annots left right => cases h
  | _ => rfl

/-- What is found in an inner `or`. -/
theorem finds_within {label : JSString} {args : List Val} {t : MType} {idx : ℕ}
    (h : t.isOr = true → Finds host label args t idx
      ((t.token host idx).Encode (args ++ [.string label]))) :
    Finds host label args t idx (OrToken.within (t.token host idx) (args ++ [.string label])
      fun t args => t.Encode args) := by
  rw [OrToken.within]
  by_cases ht : t.isOr = true
  · rw [if_pos ((kind_token_or t idx).mpr ht)]
    exact h ht
  · rw [Bool.not_eq_true] at ht
    rw [if_neg (kind_ne_or ht idx)]
    exact .of_none (findLeaf_of_not_or ht label idx) rfl

/-- The alternative with the label itself. -/
theorem leafAt_of_named {t : MType} {idx : ℕ} {label : JSString}
    (h : (t.token host idx).named label) : t.leafAt host [] idx = some (t, idx) := by
  apply leafAt_nil
  rw [← Bool.not_eq_true]
  exact fun ht => h.2 ((kind_token_or t idx).mpr ht)

/-- `Encode` of an `or` encodes the leaf that it finds for the label, or finds nothing. -/
theorem finds_encode (label : JSString) (args : List Val) (t : MType) : t.isOr = true →
    ∀ idx : ℕ, Finds host label args t idx
      ((t.token host idx).Encode (args ++ [.string label])) := by
  induction t using inductLeaves with
  | leaf t ht =>
    intro h
    rw [ht] at h
    cases h
  | or annots left right ihl ihr =>
    intro _ idx
    have hdef : ((MType.or annots left right).token host idx).Encode (args ++ [.string label]) =
        OrToken.search (left.token host) (right.token host) idx label (args ++ [.string label])
          (fun t => t.Encode args) fun t args => t.Encode args := by
      show OrToken.Encode host (left.token host) (right.token host) idx _ = _
      rw [OrToken.Encode, List.getLast?_concat, List.dropLast_concat]
      rfl
    have hleft := finds_within fun h => ihl h idx
    have hright := finds_within fun h => ihr h (idx + left.orCount host idx)
    have htokens : OrToken.tokens (left.token host) (right.token host) idx =
      (left.token host idx, right.token host (idx + left.orCount host idx)) := rfl
    rw [hdef, OrToken.search, htokens]
    dsimp only
    by_cases hl : (left.token host idx).named label
    · rw [if_pos hl]
      have hfind : (MType.or annots left right).findLeaf host label idx = some [false] := by
        rw [findLeaf, if_pos hl]
      exact .of_some hfind (leafAt_of_named hl) rfl
    · by_cases hr : (right.token host (idx + left.orCount host idx)).named label
      · rw [if_neg hl, if_pos hr]
        have hfind : (MType.or annots left right).findLeaf host label idx = some [true] := by
          rw [findLeaf, if_neg hl, if_pos hr]
        exact .of_some hfind (leafAt_of_named hr) rfl
      · rw [if_neg hl, if_neg hr]
        have hfind : (MType.or annots left right).findLeaf host label idx =
            ((left.findLeaf host label idx).map (false :: ·)).or
              ((right.findLeaf host label (idx + left.orCount host idx)).map (true :: ·)) := by
          rw [findLeaf, if_neg hl, if_neg hr]
        cases hfl : left.findLeaf host label idx with
        | some path =>
          obtain ⟨side, path', u, idx', rfl, hat, hresult⟩ := hleft.leaf path hfl
          rw [hfl, Option.map_some, Option.some_or] at hfind
          refine .of_some hfind hat ?_
          rw [hresult]
          cases (u.token host idx').Encode args with
          | error e => rfl
          | ok r => rfl
        | none =>
          rw [hleft.nothing hfl, Except.ok_bind]
          dsimp only
          rw [inject_null]
          dsimp only
          cases hfr : right.findLeaf host label (idx + left.orCount host idx) with
          | some path =>
            obtain ⟨side, path', u, idx', rfl, hat, hresult⟩ := hright.leaf path hfr
            rw [hfl, hfr, Option.map_none, Option.none_or, Option.map_some] at hfind
            refine .of_some hfind hat ?_
            rw [hresult]
            cases (u.token host idx').Encode args with
            | error e => rfl
            | ok r => rfl
          | none =>
            rw [hfl, hfr, Option.map_none, Option.none_or, Option.map_none] at hfind
            rw [hright.nothing hfr]
            exact .of_none hfind rfl

/-- Values of different leaves of a tree are different. -/
theorem path_of_chooseEncoded (t : MType) : ∀ {path path' : List Bool} {idx : ℕ}
    {u u' : MType × ℕ} {e e' : Encoded}, t.leafAt host path idx = some u →
    t.leafAt host path' idx = some u' → chooseEncoded path e = chooseEncoded path' e' →
    path = path' := by
  induction t using inductLeaves with
  | leaf t ht =>
    intro path path' idx u u' e e' h h' _
    have hnil : ∀ {q : List Bool} {v : MType × ℕ}, t.leafAt host q idx = some v → q = [] := by
      intro q v hq
      cases q with
      | nil => rfl
      | cons side q =>
        cases t with
        | or annots left right => cases ht
        | _ => cases hq
    rw [hnil h, hnil h']
  | or annots left right ihl ihr =>
    intro path path' idx u u' e e' h h' he
    match path, path' with
    | [], _ => cases h
    | _ :: _, [] => cases h'
    | side :: path, side' :: path' =>
      obtain ⟨hside, he'⟩ : sideName side = sideName side' ∧
          chooseEncoded path e = chooseEncoded path' e' := by
        simpa [chooseEncoded] using he
      cases side with
      | false =>
        cases side' with
        | false => rw [ihl h h' he']
        | true => exact absurd hside (by decide)
      | true =>
        cases side' with
        | false => exact absurd hside (by decide)
        | true => rw [ihr h h' he']

/-! ## Encoding the arguments of a signature -/

theorem passable_leafAt (t : MType) : ∀ {path : List Bool} {idx idx' : ℕ} {u : MType},
    t.leafAt host path idx = some (u, idx') → t.Passable → u.Passable := by
  induction t using inductLeaves with
  | leaf t ht =>
    intro path idx idx' u h hpass
    cases path with
    | nil =>
      rw [leafAt_nil ht, Option.some.injEq, Prod.mk.injEq] at h
      rw [← h.1]
      exact hpass
    | cons side path =>
      cases t with
      | or annots left right => cases ht
      | _ => cases h
  | or annots left right ihl ihr =>
    intro path idx idx' u h hpass
    match path with
    | [] => cases h
    | false :: path => exact ihl h hpass.1
    | true :: path => exact ihr h hpass.2

/-- Whether `Encode` of a token makes `e` of arguments and leaves the others, or anything else. -/
structure EncodesIff (t : Token) (rest args : List Val) (e : Encoded) (clear : Prop) : Prop where
  encodes : clear → t.Encode (rest ++ args.reverse) = .ok (e, rest)
  differs : ¬clear → ∀ r, t.Encode (rest ++ args.reverse) = .ok r → r.1 ≠ e

/-- An option is taken as left out only if no argument is left. -/
theorem encodesIff_none (annots : Annots) (component : MType) (idx : ℕ) {rest : List Val}
    (hrest : ∀ a ∈ rest, a.isNone = false) :
    EncodesIff ((MType.option annots component).token host idx) rest [] (.prim "None" none)
      ((!rest.isEmpty) = false) := by
  have hEncode : ((MType.option annots component).token host idx).Encode (rest ++ [].reverse) =
      OptionToken.Encode (component.token host 0) rest := by
    rw [List.reverse_nil, List.append_nil]
    rfl
  cases hlast : rest.getLast? with
  | none =>
    obtain rfl := List.getLast?_eq_none_iff.mp hlast
    exact ⟨fun _ => rfl, fun hnot => absurd rfl hnot⟩
  | some a =>
    have hmem : a ∈ rest := List.mem_of_getLast? hlast
    have hne : rest.isEmpty = false := List.isEmpty_eq_false_iff.mpr (List.ne_nil_of_mem hmem)
    refine ⟨fun h => ?_, fun _ r hr => ?_⟩
    · rw [hne] at h
      cases h
    · rw [hEncode, OptionToken.Encode, hlast, Option.getD_some, hrest a hmem,
        if_neg Bool.false_ne_true] at hr
      obtain ⟨⟨val, left⟩, -, hr⟩ := Except.bind_eq_ok.mp hr
      obtain rfl := Except.ok.inj hr
      exact fun h => by simp at h

theorem encode_fits {t : MType} {c : Choice} {idx sigIdx : ℕ} {args : List Val} {e : Encoded}
    (h : Fits host t c idx sigIdx args e) : t.Passable → ∀ rest : List Val,
    (∀ a ∈ rest, a.isNone = false) →
    EncodesIff (t.token host idx) rest args e (Clear host c t idx sigIdx (!rest.isEmpty)) := by
  induction h with
  | @leaf t idx sigIdx v e hp ho hopt hv he =>
    intro hpass rest _
    have hclear : Clear host .leaf t idx sigIdx (!rest.isEmpty) := by
      cases t <;> trivial
    exact ⟨fun _ => encode_concat hp ho hopt hpass he rest, fun hnot => absurd hclear hnot⟩
  | @pair annots left right l r idx sigIdx as bs e e' hl hr ihl ihr =>
    intro hpass rest hrest
    have hright := ihr hpass.2 rest hrest
    have hleft := ihl hpass.1 (rest ++ bs.reverse) fun a ha =>
      (List.mem_append.mp ha).elim (hrest a) fun ha => hr.given a (List.mem_reverse.mp ha)
    have hmore : (!(rest ++ bs.reverse).isEmpty) = (!rest.isEmpty || !r.isEmpty) := by
      rw [← hr.isEmpty]
      cases rest with
      | nil => simp
      | cons a rest => rfl
    have hargs : rest ++ (as ++ bs).reverse = rest ++ bs.reverse ++ as.reverse := by
      rw [List.reverse_append, List.append_assoc]
    have hEncode (args : List Val) : ((MType.pair annots left right).token host idx).Encode args =
      PairToken.Encode (left.token host) (right.token host) idx args := rfl
    have htokens : PairToken.tokens (left.token host) (right.token host) idx =
      (left.token host idx, right.token host (idx + left.pairCount host idx)) := rfl
    rw [hmore] at hleft
    constructor
    · rintro ⟨hcl, hcr⟩
      rw [hEncode, hargs, PairToken.Encode, htokens]
      dsimp only
      rw [hleft.encodes hcl, Except.ok_bind]
      dsimp only
      rw [hright.encodes hcr]
      rfl
    · intro hnot pair hpair
      rw [hEncode, hargs, PairToken.Encode, htokens] at hpair
      dsimp only at hpair
      obtain ⟨⟨el, args⟩, hel, hpair⟩ := Except.bind_eq_ok.mp hpair
      obtain ⟨⟨er, args'⟩, her, hpair⟩ := Except.bind_eq_ok.mp hpair
      obtain rfl := Except.ok.inj hpair
      intro heq
      obtain ⟨rfl, rfl⟩ : el = e ∧ er = e' := by simpa using heq
      by_cases hcl : Clear host l left idx sigIdx (!rest.isEmpty || !r.isEmpty)
      · rw [hleft.encodes hcl] at hel
        obtain ⟨-, rfl⟩ := Prod.mk.inj (Except.ok.inj hel)
        exact hright.differs (fun hcr => hnot ⟨hcl, hcr⟩) _ her rfl
      · exact hleft.differs hcl _ hel rfl
  | @alternative annots left right u path c idx sigIdx idx' sigIdx' args e hat hsig hleaf ih =>
    intro hpass rest hrest
    have hinner := ih (passable_leafAt _ hat hpass) rest hrest
    have hfinds := @finds_encode host (u.token host sigIdx').annot (rest ++ args.reverse)
      (.or annots left right) rfl idx
    have hargs : rest ++ (Val.string (u.token host sigIdx').annot :: args).reverse =
        rest ++ args.reverse ++ [.string (u.token host sigIdx').annot] := by
      rw [List.reverse_cons, List.append_assoc]
    constructor
    · rintro ⟨u', i, j, hat', hsig', hfind, hclear⟩
      obtain ⟨rfl, rfl⟩ := Prod.mk.inj (Option.some.inj (hat.symm.trans hat'))
      obtain ⟨-, rfl⟩ := Prod.mk.inj (Option.some.inj (hsig.symm.trans hsig'))
      obtain ⟨side, path', u', i, -, hat', hresult⟩ := hfinds.leaf path hfind
      obtain ⟨rfl, rfl⟩ := Prod.mk.inj (Option.some.inj (hat.symm.trans hat'))
      rw [hargs, hresult, hinner.encodes hclear]
      rfl
    · intro hnot r hr heq
      rw [hargs] at hr
      cases hfind : (MType.or annots left right).findLeaf host (u.token host sigIdx').annot idx with
      | none =>
        rw [hfinds.nothing hfind] at hr
        rw [← Except.ok.inj hr] at heq
        cases path with
        | nil => cases hat
        | cons side path => exact chooseEncoded_ne_null side path e heq.symm
      | some found =>
        obtain ⟨side, path', u', i, -, hat', hresult⟩ := hfinds.leaf found hfind
        rw [hresult] at hr
        obtain ⟨r', hr', rfl⟩ := Except.map_eq_ok.mp hr
        have hpath := path_of_chooseEncoded _ hat' hat heq
        subst hpath
        obtain ⟨rfl, rfl⟩ := Prod.mk.inj (Option.some.inj (hat.symm.trans hat'))
        have hnotclear : ¬Clear host c u idx' sigIdx' (!rest.isEmpty) := fun hclear =>
          hnot ⟨u, idx', sigIdx', hat, hsig, hfind, hclear⟩
        exact hinner.differs hnotclear r' hr' (chooseEncoded_injective _ heq)
  | @some annots component c idx sigIdx args e hsome ih =>
    intro hpass rest hrest
    have hinner := ih hpass rest hrest
    have hisEmpty := hsome.isEmpty
    rw [someOf, Clear, ← hisEmpty]
    cases args with
    | nil => exact encodesIff_none annots component idx hrest
    | cons a as =>
      have hEncode (args : List Val) :
        ((MType.option annots component).token host idx).Encode args =
          OptionToken.Encode (component.token host 0) args := rfl
      have hlast : (rest ++ (a :: as).reverse).getLast? = some a := by
        rw [List.reverse_cons, ← List.append_assoc, List.getLast?_concat]
      have ha : a.isNone = false := hsome.given a List.mem_cons_self
      rw [List.isEmpty_cons, if_neg Bool.false_ne_true, if_neg Bool.false_ne_true]
      constructor
      · intro hclear
        rw [hEncode, OptionToken.Encode, hlast, Option.getD_some, ha, if_neg Bool.false_ne_true,
          hinner.encodes hclear]
        rfl
      · intro hnot r hr
        rw [hEncode, OptionToken.Encode, hlast, Option.getD_some, ha,
          if_neg Bool.false_ne_true] at hr
        obtain ⟨⟨val, left⟩, hval, hr⟩ := Except.bind_eq_ok.mp hr
        obtain rfl := Except.ok.inj hr
        intro heq
        exact hinner.differs hnot _ hval (by simpa using heq)
  | none =>
    intro hpass rest hrest
    exact encodesIff_none _ _ _ hrest

end MType

/-! ## The main result -/

/-- **The signatures of a parameter are those of the choices for its type, and arguments for one of
them are encoded as it lists them, none left over, if and only if `Encode` makes the same choice.**
-/
theorem ParameterSchema.extractSignatures_iff {root : MType} (hpass : root.Passable) :
    (root.token host 0).ExtractSignature =
        root.choices.map (fun c => MType.signature host c root 0) ∧
      ∀ c ∈ root.choices, ∀ args e, MType.Fits host root c 0 0 args e →
        (ParameterSchema.EncodeWith host root args = .ok (e, []) ↔
          MType.Clear host c root 0 0 false) := by
  refine ⟨MType.extractSignature_eq root 0, fun c _ args e h => ?_⟩
  have hiff := MType.encode_fits h hpass [] fun a ha => absurd ha List.not_mem_nil
  constructor
  · intro hencode
    by_contra hnot
    rw [ParameterSchema.EncodeWith] at hencode
    cases hr : (root.token host 0).Encode args.reverse with
    | error err =>
      rw [hr] at hencode
      cases hencode
    | ok r =>
      rw [hr] at hencode
      obtain rfl : r = (e, []) := Except.ok.inj hencode
      exact hiff.differs hnot (e, []) (by rwa [List.nil_append]) rfl
  · intro hclear
    have hencode := hiff.encodes hclear
    rw [List.nil_append] at hencode
    rw [ParameterSchema.EncodeWith, hencode]
    rfl

/-- `pair (option bool) bool`. -/
def optionAndFlag : MType := .pair none (.option none (.base none .bool)) (.base none .bool)

theorem passable_optionAndFlag : optionAndFlag.Passable :=
  ⟨BaseType.noConfusion, BaseType.noConfusion⟩

/-- Both arguments, for the signature that fills the option. -/
theorem fits_optionAndFlag :
    optionAndFlag.Fits .decimal (.pair (.some .leaf) .leaf) 0 0 [.bool true, .bool true]
      (.prim "Pair" (some [.prim "Some" (some [.prim "True" none]), .prim "True" none])) :=
  .pair (.some (.leaf rfl rfl (fun _ _ => MType.noConfusion) rfl rfl))
    (.leaf rfl rfl (fun _ _ => MType.noConfusion) rfl rfl)

/-- One argument, for the signature that leaves the option out. -/
theorem fits_flag : optionAndFlag.Fits .decimal (.pair .none .leaf) 0 0 [.bool true]
    (.prim "Pair" (some [.prim "None" none, .prim "True" none])) :=
  .pair .none (.leaf rfl rfl (fun _ _ => MType.noConfusion) rfl rfl)

theorem ParameterSchema.extractSignatures_optionAndFlag :
    ParameterSchema.EncodeWith .decimal optionAndFlag [.bool true, .bool true] =
        .ok (.prim "Pair" (some [.prim "Some" (some [.prim "True" none]), .prim "True" none]), []) ↔
      MType.Clear .decimal (.pair (.some .leaf) .leaf) optionAndFlag 0 0 false :=
  (ParameterSchema.extractSignatures_iff passable_optionAndFlag).2 (.pair (.some .leaf) .leaf)
    (by decide) _ _ fits_optionAndFlag

/-- The flag of the signature without the option is taken for the content of the option, and the
flag is encoded as `False`. -/
theorem ParameterSchema.not_extractSignatures :
    optionAndFlag.Passable ∧
      [.string (js "bool")] ∈ (optionAndFlag.token .decimal 0).ExtractSignature ∧
      optionAndFlag.Fits .decimal (.pair .none .leaf) 0 0 [.bool true]
        (.prim "Pair" (some [.prim "None" none, .prim "True" none])) ∧
      ParameterSchema.EncodeWith .decimal optionAndFlag [.bool true] =
        .ok (.prim "Pair" (some [.prim "Some" (some [.prim "True" none]),
          .prim "False" none]), []) := by
  have hsignatures : (optionAndFlag.token .decimal 0).ExtractSignature =
    [[.string (js "bool"), .string (js "bool")], [.string (js "bool")]] := rfl
  refine ⟨passable_optionAndFlag, ?_, fits_flag, rfl⟩
  rw [hsignatures]
  exact List.mem_cons_of_mem _ List.mem_cons_self

end MichelsonEncoder
