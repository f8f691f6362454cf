import Taquito.MichelsonEncoder.Labels

/-!
# Positional arguments

`ParameterSchema.Encode` takes a parameter as a list of positional arguments, which the tokens pop
from the end of one reversed array, and `ParameterSchema.EncodeObject` as one labelled object. A
`Datum` is a value of a type with its choices written out; `args` are its leaves from left to right
and `object` is the object of its labels. The two methods agree on it, and `Encode` pops the
arguments of the datum and no other, unless a `Some` stands around a pair that begins with `null`:
`OptionToken.Encode` looks at the first argument only and takes that `null` for its own.
-/

open Js

namespace MichelsonEncoder

variable {host : Host}

/-! ## The schema of a parameter -/

/-- What `ParameterSchema` throws: a `TokenValidationError` as it is, and an error of its own for
any other. -/
inductive ParameterError where
  | TokenValidationError (name : String)
  | ParameterEncodingError
  deriving DecidableEq, Repr

/-- The `catch` of `Encode` and `EncodeObject`. -/
def ParameterError.ofEncoder : EncoderError → ParameterError
  | .TokenValidationError name => .TokenValidationError name
  | _ => .ParameterEncodingError

/-- `ParameterSchema.Encode`, with the arguments that are left over. -/
def ParameterSchema.EncodeWith (host : Host) (root : MType) (args : List Val) :
    Except ParameterError (Encoded × List Val) :=
  ((root.token host 0).Encode args.reverse).mapError ParameterError.ofEncoder

/-- `ParameterSchema.Encode`. -/
def ParameterSchema.Encode (host : Host) (root : MType) (args : List Val) :
    Except ParameterError Encoded :=
  Prod.fst <$> ParameterSchema.EncodeWith host root args

/-- `ParameterSchema.EncodeObject`. -/
def ParameterSchema.EncodeObject (host : Host) (root : MType) (value : Val) :
    Except ParameterError Encoded :=
  ((root.token host 0).EncodeObject value).mapError ParameterError.ofEncoder

/-! ## Values of a type -/

/-- A value of a type: which side of every `or` and whether there is a content of every option. -/
inductive Datum where
  | leaf (v : Val)
  | pair (left right : Datum)
  | left (d : Datum)
  | right (d : Datum)
  | none
  | some (d : Datum)

namespace Datum

/-- The first argument is `null` or `undefined`. -/
def beginsWithNull : Datum → Bool
  | .leaf v => v.isNone
  | .pair l _ => l.beginsWithNull
  | .left _ | .right _ => false
  | .none => true
  | .some d => d.beginsWithNull

/-- A pair that begins with `null`. -/
def isNullPair : Datum → Bool
  | .pair l _ => l.beginsWithNull
  | _ => false

/-- No `Some` stands around a pair that begins with `null`. -/
def Unambiguous : Datum → Prop
  | .leaf _ | .none => True
  | .pair l r => l.Unambiguous ∧ r.Unambiguous
  | .left d | .right d => d.Unambiguous
  | .some d => d.isNullPair = false ∧ d.Unambiguous

end Datum

namespace MType

variable (host)

/-- A parameter type: operations are not passable, and the classes that are not modelled (lambdas,
sapling transactions) take the last argument for what `EncodeObject` takes. -/
def Passable : MType → Prop
  | .pair _ left right | .or _ left right => left.Passable ∧ right.Passable
  | .option _ component => component.Passable
  | .base _ t => t ≠ .operation
  | .other _ methods => ∀ idx v e, (methods idx).EncodeObject v = .ok e →
      ∀ rest, (methods idx).Encode (rest ++ [v]) = .ok (e, rest)
  | .list _ _ | .set _ _ | .map _ _ _ | .bigMap _ _ _ | .contract _ _ => True

/-- The labels of the components of every pair and those of the leaves of every `or` are distinct.
-/
def DistinctLabels : MType → ℕ → Prop
  | .pair _ left right, idx =>
    ((MType.pair none left right).labels host idx).Nodup ∧ left.DistinctLabels idx ∧
      right.DistinctLabels (idx + left.pairCount host idx)
  | .or annots left right, idx =>
    ((MType.or annots left right).leafLabels host idx).Nodup ∧ left.DistinctLabels idx ∧
      right.DistinctLabels (idx + left.orCount host idx)
  | .option _ component, _ => component.DistinctLabels 0
  | _, _ => True

/-- A value of the type, every leaf of which its token accepts. -/
inductive IsDatum : MType → ℕ → Datum → Prop where
  | leaf {t : MType} {idx : ℕ} {v : Val} {e : Encoded}
      (isPair : t.isPair = false) (isOr : t.isOr = false)
      (isOption : ∀ annots c, t ≠ .option annots c)
      (accepted : (t.token host idx).EncodeObject v = .ok e) : IsDatum t idx (.leaf v)
  | pair {annots : Annots} {left right : MType} {idx : ℕ} {l r : Datum}
      (isLeft : IsDatum left idx l) (isRight : IsDatum right (idx + left.pairCount host idx) r) :
      IsDatum (.pair annots left right) idx (.pair l r)
  | left {annots : Annots} {left right : MType} {idx : ℕ} {d : Datum} (isLeft : IsDatum left idx d) :
      IsDatum (.or annots left right) idx (.left d)
  | right {annots : Annots} {left right : MType} {idx : ℕ} {d : Datum}
      (isRight : IsDatum right (idx + left.orCount host idx) d) :
      IsDatum (.or annots left right) idx (.right d)
  | none {annots : Annots} {component : MType} {idx : ℕ} : IsDatum (.option annots component) idx .none
  | some {annots : Annots} {component : MType} {idx : ℕ} {d : Datum}
      (isSome : IsDatum component 0 d) : IsDatum (.option annots component) idx (.some d)

/-- The arguments of an alternative: those of a leaf stand behind its label. -/
def alternativeArgs (t : Token) (args : List Val) : List Val :=
  if t.kind = .or then args else .string t.annot :: args

/-- The positional arguments of a value. -/
def args : MType → ℕ → Datum → List Val
  | .pair _ left right, idx, .pair l r =>
    left.args idx l ++ right.args (idx + left.pairCount host idx) r
  | .or _ left _, idx, .left d => alternativeArgs (left.token host idx) (left.args idx d)
  | .or _ left right, idx, .right d =>
    alternativeArgs (right.token host (idx + left.orCount host idx))
      (right.args (idx + left.orCount host idx) d)
  | .option _ component, _, .some d => component.args 0 d
  | .option _ _, _, .none => [.null]
  | _, _, .leaf v => [v]
  | _, _, _ => []

/-- The labelled object of a value, as `Execute` builds it. -/
def object : MType → ℕ → Datum → Val
  | .pair _ left right, idx, .pair l r =>
    let right' := right.token host (idx + left.pairCount host idx)
    .object (spread (component (left.token host idx) (left.object idx l)).fields
      (component right' (right.object (idx + left.pairCount host idx) r)).fields)
  | .or _ left _, idx, .left d => alternative (left.token host idx) (left.object idx d)
  | .or _ left right, idx, .right d =>
    alternative (right.token host (idx + left.orCount host idx))
      (right.object (idx + left.orCount host idx) d)
  | .option _ component, _, .some d => component.object 0 d
  | .option _ _, _, .none => .null
  | _, _, .leaf v => v
  | _, _, _ => .undefined

end MType

/-! ## Single arguments -/

theorem pop_concat (rest : List Val) (v : Val) : BaseType.pop (rest ++ [v]) = (v, rest) := by
  rw [BaseType.pop, List.getLast?_concat, List.dropLast_concat]
  rfl

theorem BaseType.encode_concat {t : BaseType} (ht : t ≠ .operation) {v : Val} {e : Encoded}
    (h : t.encodeObject host v = .ok e) (rest : List Val) :
    t.encode host (rest ++ [v]) = .ok (e, rest) := by
  rw [BaseType.encode, pop_concat]
  cases t with
  | operation => exact absurd rfl ht
  | bytes =>
    cases v with
    | string s => simp only [h]; rfl
    | uint8Array octets => simp only [h]; rfl
    | _ => cases h
  | _ => simp only [h]; rfl

theorem encode_concat {t : MType} (hp : t.isPair = false) (ho : t.isOr = false)
    (hopt : ∀ annots c, t ≠ .option annots c) (hpass : t.Passable) {idx : ℕ} {v : Val}
    {e : Encoded}
    (h : (t.token host idx).EncodeObject v = .ok e) (rest : List Val) :
    (t.token host idx).Encode (rest ++ [v]) = .ok (e, rest) := by
  cases t with
  | pair annots left right => cases hp
  | or annots left right => cases ho
  | option annots component => exact absurd rfl (hopt _ _)
  | list annots element =>
    obtain ⟨items, hitems, h⟩ := Except.bind_eq_ok.mp h
    obtain ⟨es, hes, h⟩ := Except.bind_eq_ok.mp h
    cases h
    simp only [MType.token, listToken, pop_concat, hitems, hes, Except.ok_bind]
    rfl
  | set annots element =>
    have h : SetToken.EncodeObject (element.token host 0) v = .ok e := h
    simp only [MType.token, setToken, pop_concat, h, Except.ok_bind]
    rfl
  | map annots key value =>
    obtain ⟨entries, hentries, h⟩ := Except.bind_eq_ok.mp h
    simp only [MType.token, mapToken, pop_concat, hentries, h, Except.ok_bind]
    rfl
  | bigMap annots key value =>
    obtain ⟨entries, hentries, h⟩ := Except.bind_eq_ok.mp h
    simp only [MType.token, bigMapToken, pop_concat, hentries, h, Except.ok_bind]
    rfl
  | contract annots parameter =>
    have h : BaseType.validText "ContractValidationError" (Utils.validateAddress host.b58) v =
      .ok e := h
    simp only [MType.token, contractToken, pop_concat, h, Except.ok_bind]
    rfl
  | base annots t => exact BaseType.encode_concat hpass h rest
  | other annots methods => exact hpass idx v e h rest

/-- The two encodings of a value, and what `Encode` leaves: the arguments in front, if the value is
clear, and otherwise whatever it does it does not encode the value. -/
structure Agrees (t : Token) (args : List Val) (v : Val) (clear : Prop) (e : Encoded) : Prop where
  encodeObject : t.EncodeObject v = .ok e
  encode : clear → ∀ rest, t.Encode (rest ++ args.reverse) = .ok (e, rest)
  differs : ¬ clear → ∀ rest r, t.Encode (rest ++ args.reverse) = .ok r → r.1 ≠ e

namespace MType

/-! ## Pairs -/

/-- The fields that a component adds are those of its labels. -/
theorem keys_component_object (t : MType) : ∀ (idx : ℕ) (d : Datum), IsDatum host t idx d →
    (t.labels host idx).Nodup →
    (component (t.token host idx) (t.object host idx d)).fields.map Prod.fst = t.labels host idx := by
  induction t using inductComponents with
  | single t ht =>
    intro idx d _ _
    rw [fields_component_of_not_plain ht, labels_of_not_plain ht]
    rfl
  | pair annots left right hp ihl ihr =>
    intro idx d hd hnd
    cases hd with
    | leaf hpair => cases hpair
    | pair hl hr =>
      rw [labels_pair _ _ _ _ hp] at hnd ⊢
      have hleft := ihl _ _ hl (List.nodup_append.mp hnd).1
      have hright := ihr _ _ hr (List.nodup_append.mp hnd).2.1
      rw [fields_component_plain _ _ _ hp, object, Val.fields, spread_of_disjoint, List.map_append,
        hleft, hright]
      rw [List.map_append, hleft, hright]
      exact hnd

/-- What the pair around a component encodes it into. -/
def encodeComponent (t : Token) (args : Val) : Except EncoderError Encoded :=
  componentOf t args >>= t.EncodeObject

/-- `EncodeObject` of a pair encodes what it finds of the left component and of the right one. -/
theorem encodeObject_pair_fields (annots : Annots) (left right : MType) (idx : ℕ) (fields : Fields) :
    ((MType.pair annots left right).token host idx).EncodeObject (.object fields) = (do
      let l ← encodeComponent (left.token host idx) (.object fields)
      let r ← encodeComponent (right.token host (idx + left.pairCount host idx)) (.object fields)
      return .prim "Pair" (some [l, r])) := by
  have hdef : ((MType.pair annots left right).token host idx).EncodeObject (.object fields) =
    PairToken.EncodeObject (left.token host) (right.token host) idx (.object fields) := rfl
  rw [hdef, PairToken.EncodeObject]
  simp only [PairToken.tokens, pairCount, encodeComponent, componentOf_eq_ok, Except.ok_bind]

/-- A component is encoded from its own fields, wherever else they stand. -/
def FoundByLabels (host : Host) (t : MType) : Prop :=
  ∀ (idx : ℕ) (d : Datum) (fields : Fields), IsDatum host t idx d → (t.labels host idx).Nodup →
    (∀ x ∈ (component (t.token host idx) (t.object host idx d)).fields,
      lookup x.1 fields = some x.2) →
    encodeComponent (t.token host idx) (.object fields) =
      (t.token host idx).EncodeObject (t.object host idx d)

/-- The fields of a pair are those of the left component and those of the right one. -/
theorem spread_components {left right : MType} {idx : ℕ} {l r : Datum}
    (hl : IsDatum host left idx l) (hr : IsDatum host right (idx + left.pairCount host idx) r)
    (hnd : ((MType.pair none left right).labels host idx).Nodup) :
    ∃ ls rs, ls = (component (left.token host idx) (left.object host idx l)).fields ∧
      rs = (component (right.token host (idx + left.pairCount host idx))
        (right.object host (idx + left.pairCount host idx) r)).fields ∧
      spread ls rs = ls ++ rs ∧ ((ls ++ rs).map Prod.fst).Nodup := by
  rw [labels_pair _ _ _ _ rfl] at hnd
  have hkeys : ((component (left.token host idx) (left.object host idx l)).fields ++
      (component (right.token host (idx + left.pairCount host idx))
        (right.object host (idx + left.pairCount host idx) r)).fields).map Prod.fst =
      left.labels host idx ++ right.labels host (idx + left.pairCount host idx) := by
    rw [List.map_append, keys_component_object _ _ _ hl (List.nodup_append.mp hnd).1,
      keys_component_object _ _ _ hr (List.nodup_append.mp hnd).2.1]
  rw [← hkeys] at hnd
  exact ⟨_, _, rfl, rfl, spread_of_disjoint hnd, hnd⟩

/-- `EncodeObject` of a pair encodes the objects of its components. -/
theorem encodeObject_object_pair {left right : MType} (hleft : FoundByLabels host left)
    (hright : FoundByLabels host right) (annots : Annots) {idx : ℕ} {l r : Datum}
    (hl : IsDatum host left idx l) (hr : IsDatum host right (idx + left.pairCount host idx) r)
    (hnd : ((MType.pair none left right).labels host idx).Nodup) (fields : Fields)
    (hf : ∀ x ∈ ((MType.pair none left right).object host idx (.pair l r)).fields,
      lookup x.1 fields = some x.2) :
    ((MType.pair annots left right).token host idx).EncodeObject (.object fields) = (do
      let el ← (left.token host idx).EncodeObject (left.object host idx l)
      let er ← (right.token host (idx + left.pairCount host idx)).EncodeObject
        (right.object host (idx + left.pairCount host idx) r)
      return .prim "Pair" (some [el, er])) := by
  obtain ⟨ls, rs, hls, hrs, hspread, -⟩ := spread_components hl hr hnd
  rw [object, ← hls, ← hrs, Val.fields, hspread] at hf
  rw [labels_pair _ _ _ _ rfl] at hnd
  rw [encodeObject_pair_fields,
    hleft _ _ fields hl (List.nodup_append.mp hnd).1 fun x hx =>
      hf x (List.mem_append_left _ (hls ▸ hx)),
    hright _ _ fields hr (List.nodup_append.mp hnd).2.1 fun x hx =>
      hf x (List.mem_append_right _ (hrs ▸ hx))]

/-- The object of a pair has the value of each of its labels. -/
theorem lookup_object_pair {left right : MType} {idx : ℕ} {l r : Datum}
    (hl : IsDatum host left idx l) (hr : IsDatum host right (idx + left.pairCount host idx) r)
    (hnd : ((MType.pair none left right).labels host idx).Nodup) :
    ∀ x ∈ ((MType.pair none left right).object host idx (.pair l r)).fields,
      lookup x.1 ((MType.pair none left right).object host idx (.pair l r)).fields = some x.2 := by
  obtain ⟨ls, rs, hls, hrs, hspread, hkeys⟩ := spread_components hl hr hnd
  rw [object, ← hls, ← hrs, Val.fields, hspread]
  exact fun x hx => lookup_of_mem hkeys hx

theorem foundByLabels (t : MType) : FoundByLabels host t := by
  induction t using inductComponents with
  | single t ht =>
    intro idx d fields _ _ hf
    rw [fields_component_of_not_plain ht] at hf
    rw [encodeComponent, componentOf_eq_ok, ht, if_neg Bool.false_ne_true,
      hf _ List.mem_cons_self, Except.ok_bind, Option.getD_some]
  | pair annots left right hp ihl ihr =>
    intro idx d fields hd hnd hf
    cases hd with
    | leaf hpair => cases hpair
    | @pair _ _ _ _ l r hl hr =>
      rw [labels_pair _ _ _ _ hp, ← labels_pair none _ _ _ rfl] at hnd
      rw [fields_component_plain _ _ _ hp] at hf
      have hobject : (MType.pair annots left right).object host idx (.pair l r) =
        .object ((MType.pair none left right).object host idx (.pair l r)).fields := rfl
      rw [encodeComponent, componentOf_eq_ok, isPlainPair, hp, Bool.not_false, if_pos rfl,
        Except.ok_bind, hobject, encodeObject_object_pair ihl ihr annots hl hr hnd fields hf,
        encodeObject_object_pair ihl ihr annots hl hr hnd _ (lookup_object_pair hl hr hnd)]

theorem agrees_pair {annots : Annots} {left right : MType} {idx : ℕ} {l r : Datum}
    (hl : IsDatum host left idx l) (hr : IsDatum host right (idx + left.pairCount host idx) r)
    (hnd : ((MType.pair none left right).labels host idx).Nodup) {el er : Encoded}
    (hel : Agrees (left.token host idx) (left.args host idx l) (left.object host idx l)
      l.Unambiguous el)
    (her : Agrees (right.token host (idx + left.pairCount host idx))
      (right.args host (idx + left.pairCount host idx) r)
      (right.object host (idx + left.pairCount host idx) r) r.Unambiguous er) :
    Agrees ((MType.pair annots left right).token host idx)
      ((MType.pair annots left right).args host idx (.pair l r))
      ((MType.pair annots left right).object host idx (.pair l r)) (Datum.pair l r).Unambiguous
      (.prim "Pair" (some [el, er])) := by
  have hEncode (args : List Val) : ((MType.pair annots left right).token host idx).Encode args =
    PairToken.Encode (left.token host) (right.token host) idx args := rfl
  have hreverse (rest : List Val) :
      rest ++ ((MType.pair annots left right).args host idx (.pair l r)).reverse =
        (rest ++ (right.args host (idx + left.pairCount host idx) r).reverse) ++
          (left.args host idx l).reverse := by
    rw [args, List.reverse_append, List.append_assoc]
  refine ⟨?_, ?_, ?_⟩
  · have hobject : (MType.pair annots left right).object host idx (.pair l r) =
      .object ((MType.pair none left right).object host idx (.pair l r)).fields := rfl
    rw [hobject, encodeObject_object_pair (foundByLabels left) (foundByLabels right) annots hl hr
      hnd _ (lookup_object_pair hl hr hnd), hel.encodeObject, her.encodeObject]
    rfl
  · rintro ⟨hcl, hcr⟩ rest
    have hright := her.encode hcr rest
    rw [pairCount] at hright
    rw [hreverse, hEncode, PairToken.Encode]
    simp only [PairToken.tokens, hel.encode hcl, Except.ok_bind, pairCount, hright]
    rfl
  · intro hclear rest p hp
    rw [hreverse, hEncode, PairToken.Encode] at hp
    obtain ⟨⟨fl, mid⟩, hfl, hp⟩ := Except.bind_eq_ok.mp hp
    obtain ⟨⟨fr, out⟩, hfr, hp⟩ := Except.bind_eq_ok.mp hp
    cases hp
    intro heq
    have heq : fl = el ∧ fr = er := by simpa using heq
    by_cases hcl : l.Unambiguous
    · have hcr : ¬ r.Unambiguous := fun hcr => hclear ⟨hcl, hcr⟩
      have hmid := (hel.encode hcl _).symm.trans hfl
      cases hmid
      exact her.differs hcr _ _ hfr heq.2
    · exact hel.differs hcl _ _ hfl heq.1


/-! ## Alternatives -/

theorem chooseEncoded_injective (path : List Bool) : Function.Injective (chooseEncoded path) := by
  induction path with
  | nil => exact Function.injective_id
  | cons side path ih =>
    intro e e' h
    have h : Encoded.prim (sideName side) (some [chooseEncoded path e]) =
      .prim (sideName side) (some [chooseEncoded path e']) := h
    apply ih
    simpa using h

/-- The leaf of a tree of `or`s that a value chooses: the object is that of its label, the arguments
begin with it, and the token of the leaf agrees on what is left. -/
def AgreesAt (host : Host) (t : MType) (idx : ℕ) (d : Datum) : Prop :=
  ∃ x ∈ t.leaves host idx, ∃ v args e,
    alternative (t.token host idx) (t.object host idx d) = .object [(x.token.annot, v)] ∧
    alternativeArgs (t.token host idx) (t.args host idx d) = .string x.token.annot :: args ∧
    Agrees x.token args v d.Unambiguous e

theorem agreesAt_of_not_or {t : MType} (ht : t.isOr = false) {idx : ℕ} {d : Datum} {e : Encoded}
    (h : Agrees (t.token host idx) (t.args host idx d) (t.object host idx d) d.Unambiguous e) :
    AgreesAt host t idx d := by
  refine ⟨⟨[], t.token host idx⟩, ?_, t.object host idx d, t.args host idx d, e, ?_, ?_, h⟩
  · rw [leaves_of_not_or ht]
    exact List.mem_singleton_self _
  · exact if_neg (kind_ne_or ht idx)
  · exact if_neg (kind_ne_or ht idx)

theorem agreesAt_left (annots : Annots) {left : MType} (right : MType) {idx : ℕ} {d : Datum}
    (h : AgreesAt host left idx d) : AgreesAt host (.or annots left right) idx (.left d) := by
  obtain ⟨x, hx, v, args, e, hobject, hargs, he⟩ := h
  refine ⟨x.under false, ?_, v, args, e, hobject, hargs, he⟩
  exact List.mem_append_left _ (List.mem_map_of_mem hx)

theorem agreesAt_right (annots : Annots) (left : MType) {right : MType} {idx : ℕ} {d : Datum}
    (h : AgreesAt host right (idx + left.orCount host idx) d) :
    AgreesAt host (.or annots left right) idx (.right d) := by
  obtain ⟨x, hx, v, args, e, hobject, hargs, he⟩ := h
  refine ⟨x.under true, ?_, v, args, e, hobject, hargs, he⟩
  exact List.mem_append_right _ (List.mem_map_of_mem hx)

/-- Both methods of an `or` find the leaf by its label. -/
theorem agrees_of_agreesAt {t : MType} {idx : ℕ} {d : Datum} (hlabels : t.DistinctLabels host idx)
    (h : AgreesAt host t idx d) :
    ∃ e, Agrees (t.token host idx) (t.args host idx d) (t.object host idx d) d.Unambiguous e := by
  obtain ⟨x, hx, v, args, e, hobject, hargs, he⟩ := h
  by_cases ht : t.isOr
  · obtain ⟨annots, left, right, rfl⟩ : ∃ a l r, t = .or a l r := by
      cases t <;> simp_all [isOr]
    have hobject : (MType.or annots left right).object host idx d = .object [(x.token.annot, v)] :=
      hobject
    have hargs : (MType.or annots left right).args host idx d = .string x.token.annot :: args :=
      hargs
    have hEncode (rest : List Val) := encode_leaf hlabels.1 hx (rest ++ args.reverse)
    refine ⟨chooseEncoded x.path e, ?_, ?_, ?_⟩
    · rw [hobject, encodeObject_leaf hlabels.1 hx, he.encodeObject]
      rfl
    · intro hclear rest
      rw [hargs, List.reverse_cons, ← List.append_assoc, hEncode, he.encode hclear]
      rfl
    · intro hclear rest r hr
      rw [hargs, List.reverse_cons, ← List.append_assoc, hEncode] at hr
      obtain ⟨r', hr', rfl⟩ := Except.map_eq_ok.mp hr
      exact fun heq => he.differs hclear rest r' hr' (chooseEncoded_injective _ heq)
  · rw [Bool.not_eq_true] at ht
    rw [leaves_of_not_or ht, List.mem_singleton] at hx
    subst hx
    rw [alternative, if_neg (kind_ne_or ht idx)] at hobject
    rw [alternativeArgs, if_neg (kind_ne_or ht idx)] at hargs
    have hv : t.object host idx d = v := by simpa using hobject
    have hargs : t.args host idx d = args := (List.cons.inj hargs).2
    rw [hv, hargs]
    exact ⟨e, he⟩

/-! ## Options -/

theorem beginsWithNull_or {t : MType} {idx : ℕ} {d : Datum} (ht : t.isOr)
    (hd : IsDatum host t idx d) : d.beginsWithNull = false := by
  cases hd with
  | leaf _ ho =>
    rw [ho] at ht
    cases ht
  | pair => cases ht
  | none => cases ht
  | some => cases ht
  | left => rfl
  | right => rfl

theorem alternativeArgs_eq_cons {t : MType} {idx : ℕ} {d : Datum} (hd : IsDatum host t idx d)
    (h : ∃ a as, t.args host idx d = a :: as ∧ a.isNone = d.beginsWithNull) :
    ∃ a as, alternativeArgs (t.token host idx) (t.args host idx d) = a :: as ∧
      a.isNone = false := by
  obtain ⟨a, as, has, ha⟩ := h
  by_cases ht : t.isOr
  · refine ⟨a, as, ?_, ha.trans (beginsWithNull_or ht hd)⟩
    rw [alternativeArgs, if_pos ((kind_token_or t idx).mpr ht), has]
  · rw [Bool.not_eq_true] at ht
    exact ⟨_, _, if_neg (kind_ne_or ht idx), rfl⟩

/-- A value begins with an argument, which is `null` exactly if the value begins with `null`. -/
theorem args_eq_cons {t : MType} {idx : ℕ} {d : Datum} (hd : IsDatum host t idx d) :
    ∃ a as, t.args host idx d = a :: as ∧ a.isNone = d.beginsWithNull := by
  induction hd with
  | @leaf t idx v e hp ho hopt _ =>
    refine ⟨v, [], ?_, rfl⟩
    cases t with
    | pair annots left right => cases hp
    | or annots left right => cases ho
    | option annots component => exact absurd rfl (hopt _ _)
    | _ => rfl
  | pair hl hr ihl ihr =>
    obtain ⟨a, as, has, ha⟩ := ihl
    exact ⟨a, _, by rw [args, has, List.cons_append], ha⟩
  | left hd ih => exact alternativeArgs_eq_cons hd ih
  | right hd ih => exact alternativeArgs_eq_cons hd ih
  | none => exact ⟨.null, [], rfl, rfl⟩
  | some hd ih => exact ih

/-- An `or` around an alternative changes nothing if there is no object of its label. -/
theorem alternative_of_isNone {t : Token} {v : Val} (h : (alternative t v).isNone = true) :
    t.kind = .or ∧ alternative t v = v := by
  by_cases ht : t.kind = .or
  · exact ⟨ht, if_pos ht⟩
  · rw [alternative, if_neg ht] at h
    cases h

/-- A value without an object is its only argument. -/
theorem args_of_isNone {t : MType} {idx : ℕ} {d : Datum} (hd : IsDatum host t idx d)
    (h : (t.object host idx d).isNone = true) :
    t.args host idx d = [t.object host idx d] ∧ d.isNullPair = false ∧ d.Unambiguous := by
  induction hd with
  | @leaf t idx v e hp ho hopt _ =>
    refine ⟨?_, rfl, trivial⟩
    cases t with
    | pair annots left right => cases hp
    | or annots left right => cases ho
    | option annots component => exact absurd rfl (hopt _ _)
    | _ => rfl
  | pair hl hr ihl ihr => cases h
  | left hd ih =>
    obtain ⟨hk, halt⟩ := alternative_of_isNone h
    obtain ⟨hargs, -, hclear⟩ := ih (halt ▸ h)
    refine ⟨?_, rfl, hclear⟩
    rw [args, object, halt, alternativeArgs, if_pos hk, hargs]
  | right hd ih =>
    obtain ⟨hk, halt⟩ := alternative_of_isNone h
    obtain ⟨hargs, -, hclear⟩ := ih (halt ▸ h)
    refine ⟨?_, rfl, hclear⟩
    rw [args, object, halt, alternativeArgs, if_pos hk, hargs]
  | none => exact ⟨rfl, rfl, trivial⟩
  | some hd ih =>
    obtain ⟨hargs, hpair, hclear⟩ := ih h
    exact ⟨hargs, rfl, hpair, hclear⟩

/-- A clear value that begins with `null` has no object, unless it is a pair. -/
theorem isNone_of_beginsWithNull {t : MType} {idx : ℕ} {d : Datum} (hd : IsDatum host t idx d)
    (hpair : d.isNullPair = false) (hclear : d.Unambiguous) (h : d.beginsWithNull = true) :
    (t.object host idx d).isNone = true := by
  induction hd with
  | @leaf t idx v e hp ho hopt _ =>
    cases t with
    | pair annots left right => cases hp
    | or annots left right => cases ho
    | option annots component => exact absurd rfl (hopt _ _)
    | _ => exact h
  | pair hl hr ihl ihr =>
    have hpair' : Datum.beginsWithNull _ = false := hpair
    exact absurd (hpair'.symm.trans h) Bool.false_ne_true
  | left hd ih => cases h
  | right hd ih => cases h
  | none => rfl
  | some hd ih => exact ih hclear.1 hclear.2 h

theorem beginsWithNull_of_isNullPair {d : Datum} (h : d.isNullPair = true) :
    d.beginsWithNull = true := by
  cases d with
  | pair l r => exact h
  | _ => cases h

/-- `OptionToken` encodes a content that begins with `null` as `None`, which is right only for a
content without an object. -/
theorem agrees_some {component : MType} {d : Datum} (annots : Annots) (idx : ℕ)
    (hd : IsDatum host component 0 d) {e : Encoded}
    (he : Agrees (component.token host 0) (component.args host 0 d) (component.object host 0 d)
      d.Unambiguous e) :
    ∃ e, Agrees ((MType.option annots component).token host idx)
      ((MType.option annots component).args host idx (.some d))
      ((MType.option annots component).object host idx (.some d)) (Datum.some d).Unambiguous e := by
  have hEncode (args : List Val) : ((MType.option annots component).token host idx).Encode args =
    OptionToken.Encode (component.token host 0) args := rfl
  have hEncodeObject : ((MType.option annots component).token host idx).EncodeObject
    ((MType.option annots component).object host idx (.some d)) =
    OptionToken.EncodeObject (component.token host 0) (component.object host 0 d) := rfl
  have hargs : (MType.option annots component).args host idx (.some d) =
    component.args host 0 d := rfl
  by_cases hnone : (component.object host 0 d).isNone
  · obtain ⟨hsingle, hclear⟩ := args_of_isNone hd hnone
    refine ⟨.prim "None" none, ?_, fun _ rest => ?_, fun hnot => absurd hclear hnot⟩
    · rw [hEncodeObject, OptionToken.EncodeObject, if_pos hnone]
    · rw [hEncode, hargs, hsingle, List.reverse_singleton, OptionToken.Encode, List.getLast?_concat,
        List.dropLast_concat, Option.getD_some, if_pos hnone]
  · obtain ⟨a, as, has, ha⟩ := args_eq_cons hd
    have hlast (rest : List Val) : (rest ++ (component.args host 0 d).reverse).getLast? = some a := by
      rw [has, List.reverse_cons, ← List.append_assoc, List.getLast?_concat]
    refine ⟨.prim "Some" (some [e]), ?_, ?_, ?_⟩
    · rw [hEncodeObject, OptionToken.EncodeObject, if_neg hnone, he.encodeObject]
      rfl
    · rintro ⟨hpair, hclear⟩ rest
      have hbegin : ¬ a.isNone := fun h =>
        hnone (isNone_of_beginsWithNull hd hpair hclear (ha.symm.trans h))
      rw [hEncode, hargs, OptionToken.Encode, hlast, Option.getD_some, if_neg hbegin,
        he.encode hclear]
      rfl
    · intro hnot rest r hr
      rw [hEncode, hargs, OptionToken.Encode, hlast, Option.getD_some] at hr
      by_cases hbegin : a.isNone
      · rw [if_pos hbegin] at hr
        cases hr
        intro heq
        simp at heq
      · rw [if_neg hbegin] at hr
        obtain ⟨⟨val, left⟩, hval, hr⟩ := Except.bind_eq_ok.mp hr
        cases hr
        have hpair : d.isNullPair = false := by
          by_contra hpair
          rw [Bool.not_eq_false] at hpair
          exact hbegin (ha.trans (beginsWithNull_of_isNullPair hpair))
        have hclear : ¬ d.Unambiguous := fun hclear => hnot ⟨hpair, hclear⟩
        intro heq
        exact he.differs hclear _ _ hval (by simpa using heq)

/-! ## All types -/

theorem args_leaf {t : MType} (hp : t.isPair = false) (ho : t.isOr = false)
    (hopt : ∀ annots c, t ≠ .option annots c) (idx : ℕ) (v : Val) :
    t.args host idx (.leaf v) = [v] ∧ t.object host idx (.leaf v) = v := by
  cases t with
  | pair annots left right => cases hp
  | or annots left right => cases ho
  | option annots component => exact absurd rfl (hopt _ _)
  | _ => exact ⟨rfl, rfl⟩

theorem agreesAt (t : MType) : ∀ (idx : ℕ) (d : Datum), t.Passable → t.DistinctLabels host idx →
    IsDatum host t idx d → AgreesAt host t idx d := by
  induction t with
  | pair annots left right ihl ihr =>
    intro idx d hpass hlabels hd
    cases hd with
    | leaf hpair => cases hpair
    | pair hl hr =>
      obtain ⟨el, hel⟩ := agrees_of_agreesAt hlabels.2.1 (ihl _ _ hpass.1 hlabels.2.1 hl)
      obtain ⟨er, her⟩ := agrees_of_agreesAt hlabels.2.2 (ihr _ _ hpass.2 hlabels.2.2 hr)
      exact agreesAt_of_not_or rfl (agrees_pair hl hr hlabels.1 hel her)
  | or annots left right ihl ihr =>
    intro idx d hpass hlabels hd
    cases hd with
    | leaf _ hor => cases hor
    | left hl => exact agreesAt_left annots right (ihl _ _ hpass.1 hlabels.2.1 hl)
    | right hr => exact agreesAt_right annots left (ihr _ _ hpass.2 hlabels.2.2 hr)
  | option annots component ih =>
    intro idx d hpass hlabels hd
    cases hd with
    | leaf _ _ hoption => exact absurd rfl (hoption _ _)
    | none =>
      apply agreesAt_of_not_or rfl
      refine ⟨rfl, fun _ rest => ?_, fun hnot => absurd trivial hnot⟩
      have hEncode (args : List Val) : ((MType.option annots component).token host idx).Encode args =
        OptionToken.Encode (component.token host 0) args := rfl
      rw [hEncode, args, List.reverse_singleton, OptionToken.Encode, List.getLast?_concat,
        List.dropLast_concat]
      rfl
    | some hd =>
      have hlabels : component.DistinctLabels host 0 := hlabels
      obtain ⟨e, he⟩ := agrees_of_agreesAt hlabels (ih _ _ hpass hlabels hd)
      obtain ⟨e', he'⟩ := agrees_some annots idx hd he
      exact agreesAt_of_not_or rfl he'
  | _ =>
    intro idx d hpass hlabels hd
    cases hd with
    | leaf hp ho hopt he =>
      apply agreesAt_of_not_or ho
      obtain ⟨hargs, hobject⟩ := args_leaf hp ho hopt idx _
      rw [hargs, hobject]
      exact ⟨he, fun _ rest => encode_concat hp ho hopt hpass he rest,
        fun hnot => absurd trivial hnot⟩

theorem agrees {t : MType} {idx : ℕ} {d : Datum} (hpass : t.Passable)
    (hlabels : t.DistinctLabels host idx) (hd : IsDatum host t idx d) :
    ∃ e, Agrees (t.token host idx) (t.args host idx d) (t.object host idx d) d.Unambiguous e :=
  agrees_of_agreesAt hlabels (agreesAt t idx d hpass hlabels hd)

end MType

/-- **Positional arguments and the labelled object of a value are encoded alike, and no argument is
left over, exactly if no `Some` of the value stands around a pair that begins with `null`.** -/
theorem ParameterSchema.encode_eq_encodeObject_iff {root : MType} (hpass : root.Passable)
    (hlabels : root.DistinctLabels host 0) {d : Datum} (hd : root.IsDatum host 0 d) :
    (ParameterSchema.Encode host root (root.args host 0 d) =
        ParameterSchema.EncodeObject host root (root.object host 0 d) ∧
      ∃ e, ParameterSchema.EncodeWith host root (root.args host 0 d) = .ok (e, [])) ↔
      d.Unambiguous := by
  obtain ⟨e, he⟩ := MType.agrees hpass hlabels hd
  have hobject : ParameterSchema.EncodeObject host root (root.object host 0 d) = .ok e := by
    rw [ParameterSchema.EncodeObject, he.encodeObject]
    rfl
  constructor
  · rintro ⟨heq, e', he'⟩
    by_contra hnot
    rw [ParameterSchema.Encode, he', hobject] at heq
    have heq : e' = e := Except.ok.inj heq
    rw [ParameterSchema.EncodeWith] at he'
    cases hr : (root.token host 0).Encode (root.args host 0 d).reverse with
    | error err =>
      rw [hr] at he'
      cases he'
    | ok r =>
      rw [hr] at he'
      obtain rfl : r = (e', []) := Except.ok.inj he'
      exact he.differs hnot [] _ (by rwa [List.nil_append]) heq
  · intro hclear
    have hencode := he.encode hclear []
    rw [List.nil_append] at hencode
    have hwith : ParameterSchema.EncodeWith host root (root.args host 0 d) = .ok (e, []) := by
      rw [ParameterSchema.EncodeWith, hencode]
      rfl
    refine ⟨?_, e, hwith⟩
    rw [ParameterSchema.Encode, hwith, hobject]
    rfl

/-- `option (pair (option bool) bool)`. -/
def flaggedOption : MType :=
  .option none (.pair none (.option none (.base none .bool)) (.base none .bool))

/-- `Some (Pair x True)`, where `x` is the option of a flag. -/
def flagged (d : Datum) : Datum := .some (.pair d (.leaf (.bool true)))

theorem isDatum_flagged_none : flaggedOption.IsDatum .decimal 0 (flagged .none) :=
  .some (.pair .none (.leaf rfl rfl (fun _ _ => MType.noConfusion) rfl))

theorem distinctLabels_flagged : flaggedOption.DistinctLabels .decimal 0 :=
  ⟨by decide, trivial, trivial⟩

theorem passable_flagged : flaggedOption.Passable :=
  ⟨BaseType.noConfusion, BaseType.noConfusion⟩

/-- `Some (Pair (Some True) True)` is clear. -/
theorem ParameterSchema.encode_eq_encodeObject_flagged :
    ParameterSchema.Encode .decimal flaggedOption [.bool true, .bool true] =
      ParameterSchema.EncodeObject .decimal flaggedOption
        (flaggedOption.object .decimal 0 (flagged (.some (.leaf (.bool true))))) :=
  ((ParameterSchema.encode_eq_encodeObject_iff passable_flagged distinctLabels_flagged
    (.some (.pair (.some (.leaf rfl rfl (fun _ _ => MType.noConfusion) rfl))
      (.leaf rfl rfl (fun _ _ => MType.noConfusion) rfl)))).mpr ⟨rfl, ⟨rfl, trivial⟩, trivial⟩).1

/-- The arguments `null, true` of `Some (Pair None True)` are encoded as `None`, and `true` is left
over. -/
theorem ParameterSchema.encode_ne_encodeObject_flagged :
    flaggedOption.Passable ∧ flaggedOption.DistinctLabels .decimal 0 ∧
      flaggedOption.IsDatum .decimal 0 (flagged .none) ∧
      flaggedOption.args .decimal 0 (flagged .none) = [.null, .bool true] ∧
      ParameterSchema.EncodeWith .decimal flaggedOption [.null, .bool true] =
        .ok (.prim "None" none, [.bool true]) ∧
      ParameterSchema.Encode .decimal flaggedOption [.null, .bool true] ≠
        ParameterSchema.EncodeObject .decimal flaggedOption
          (flaggedOption.object .decimal 0 (flagged .none)) := by
  refine ⟨passable_flagged, distinctLabels_flagged, isDatum_flagged_none, rfl, rfl, ?_⟩
  have hobject : ParameterSchema.EncodeObject .decimal flaggedOption
      (flaggedOption.object .decimal 0 (flagged .none)) = .ok (.prim "Some" (some [.prim "Pair"
        (some [.prim "None" none, .prim "True" none])])) := rfl
  have hargs : ParameterSchema.Encode .decimal flaggedOption [.null, .bool true] =
    .ok (.prim "None" none) := rfl
  rw [hobject, hargs]
  intro h
  simp at h

end MichelsonEncoder
