import Taquito.Lib.Loops
import Taquito.Lib.Reader
import Taquito.MichelsonEncoder.Schema

/-!
# Labels

The objects of the encoder have no types: what ties `Execute` to the other methods of a pair or an
`or` are the labels that each of them computes anew. This module reads off which label `Execute`
gives to which component of a flattened pair (`components`) and to which leaf of a tree of `or`s
(`leaves`), and shows that the other methods find the components under them as long as they are
distinct.
-/

open Js

namespace MichelsonEncoder

variable {host : Host}

/-- The fields of `schema` in what `generateSchema` gives. -/
def Token.schemaFields (t : Token) : Fields :=
  ((lookup (js "schema") t.generateSchema.fields).getD .undefined).fields

/-- `Execute` of every component. -/
def executeAll (tokens : List Token) (vals : List (Option Expr)) : Except EncoderError (List Val) :=
  (tokens.zip vals).mapM fun x => x.1.Execute x.2

/-- `EncodeObject` of every component. -/
def encodeAll (tokens : List Token) (values : List Val) : Except EncoderError (List Encoded) :=
  (tokens.zip values).mapM fun x => x.1.EncodeObject x.2

namespace MType

/-! ## Own labels -/

/-- The annotations of the label: an option without `annots` has those of its component. -/
def annots : MType → Annots
  | .option annots component => if annots.isSome then annots else component.annots
  | .pair annots _ _ | .or annots _ _ | .list annots _ | .set annots _ | .map annots _ _
  | .bigMap annots _ _ | .contract annots _ | .base annots _ | .other annots _ => annots

/-- A pair. -/
def isPair : MType → Bool
  | .pair _ _ _ => true
  | _ => false

/-- An `or`. -/
def isOr : MType → Bool
  | .or _ _ _ => true
  | _ => false

/-- A pair without a label. -/
def isPlainPair : MType → Bool
  | .pair annots _ _ => !MichelsonEncoder.hasAnnotations annots
  | _ => false

/-- An `or` without a label. -/
def isPlainOr : MType → Bool
  | .or annots _ _ => !MichelsonEncoder.hasAnnotations annots
  | _ => false

theorem annot_token (t : MType) (idx : ℕ) : (t.token host idx).annot = annot t.annots idx := by
  induction t with
  | option annots component ih =>
    by_cases h : annots.isSome
    · simp [MType.token, optionToken, MType.annots, h]
    · simp [MType.token, optionToken, MType.annots, h, ih]
  | _ => rfl

theorem kind_token_pair (t : MType) (idx : ℕ) : (t.token host idx).kind = .pair ↔ t.isPair := by
  cases t with
  | other annots methods =>
    by_cases h : (methods idx).kind = .ticket <;> simp [MType.token, otherToken, isPair, h]
  | _ => simp [MType.token, pairToken, orToken, optionToken, listToken, setToken, mapToken,
      bigMapToken, contractToken, baseToken, isPair]

theorem kind_token_or (t : MType) (idx : ℕ) : (t.token host idx).kind = .or ↔ t.isOr := by
  cases t with
  | other annots methods =>
    by_cases h : (methods idx).kind = .ticket <;> simp [MType.token, otherToken, isOr, h]
  | _ => simp [MType.token, pairToken, orToken, optionToken, listToken, setToken, mapToken,
      bigMapToken, contractToken, baseToken, isOr]

theorem isPlainPair_token (t : MType) (idx : ℕ) :
    (t.token host idx).isPlainPair = t.isPlainPair := by
  by_cases h : t.isPair
  · obtain ⟨annots, left, right, rfl⟩ : ∃ a l r, t = .pair a l r := by
      cases t <;> simp_all [isPair]
    rfl
  · have hk : (t.token host idx).kind ≠ .pair := fun hk => h ((kind_token_pair t idx).mp hk)
    rw [Token.isPlainPair, decide_eq_false hk, Bool.false_and]
    cases t <;> simp_all [isPair, isPlainPair]

theorem isPlainOr_token (t : MType) (idx : ℕ) : (t.token host idx).isPlainOr = t.isPlainOr := by
  by_cases h : t.isOr
  · obtain ⟨annots, left, right, rfl⟩ : ∃ a l r, t = .or a l r := by
      cases t <;> simp_all [isOr]
    rfl
  · have hk : (t.token host idx).kind ≠ .or := fun hk => h ((kind_token_or t idx).mp hk)
    rw [Token.isPlainOr, decide_eq_false hk, Bool.false_and]
    cases t <;> simp_all [isOr, isPlainOr]

/-! ## Components of a pair -/

variable (host)

/-- What `tokens` and `traversal` of a pair count for the left component. -/
def pairCount (t : MType) (idx : ℕ) : ℕ :=
  if (t.token host idx).kind = .pair then (t.token host idx).keyCount else 1

/-- The components that a type has in the object of the pair around it: its own, if it is a pair
without a label. -/
def components : MType → ℕ → List Token
  | .pair annots left right, idx =>
    if hasAnnotations annots then [(MType.pair annots left right).token host idx]
    else left.components idx ++ right.components (idx + left.pairCount host idx)
  | t, idx => [t.token host idx]

/-- The labels that `Execute` gives to the components. -/
def labels (t : MType) (idx : ℕ) : List JSString := (t.components host idx).map Token.annot

variable {host}

theorem components_pair (annots : Annots) (left right : MType) (idx : ℕ)
    (h : hasAnnotations annots = false) :
    components host (.pair annots left right) idx =
      left.components host idx ++ right.components host (idx + left.pairCount host idx) := by
  rw [components, h]
  rfl

theorem components_of_not_plain {t : MType} (h : t.isPlainPair = false) (idx : ℕ) :
    t.components host idx = [t.token host idx] := by
  cases t with
  | pair annots left right =>
    rw [isPlainPair, Bool.not_eq_false'] at h
    rw [components, if_pos h]
  | _ => rfl

theorem labels_pair (annots : Annots) (left right : MType) (idx : ℕ)
    (h : hasAnnotations annots = false) :
    labels host (.pair annots left right) idx =
      left.labels host idx ++ right.labels host (idx + left.pairCount host idx) := by
  rw [labels, components_pair _ _ _ _ h, List.map_append]
  rfl

theorem labels_of_not_plain {t : MType} (h : t.isPlainPair = false) (idx : ℕ) :
    t.labels host idx = [(t.token host idx).annot] := by
  rw [labels, components_of_not_plain h]
  rfl

@[simp] theorem length_labels (t : MType) (idx : ℕ) :
    (t.labels host idx).length = (t.components host idx).length := List.length_map _

/-- Induction over the components of a flattened pair. -/
theorem inductComponents {P : MType → Prop} (single : ∀ t, t.isPlainPair = false → P t)
    (pair : ∀ annots left right, hasAnnotations annots = false → P left → P right →
      P (.pair annots left right)) (t : MType) : P t := by
  induction t with
  | pair annots left right ihl ihr =>
    by_cases h : hasAnnotations annots
    · exact single _ (by rw [isPlainPair, h]; rfl)
    · exact pair _ _ _ (by rwa [Bool.not_eq_true] at h) ihl ihr
  | _ => exact single _ rfl

/-- The values of the components in a value. -/
def split : MType → Option Expr → Except EncoderError (List (Option Expr))
  | .pair annots left right, val =>
    if hasAnnotations annots then .ok [val]
    else do
      let args ← collapse val
      return (← left.split args.1) ++ (← right.split args.2)
  | _, val => .ok [val]

/-- Encoded components as a pair. -/
def comb : MType → List Encoded → Encoded × List Encoded
  | .pair annots left right, es =>
    if hasAnnotations annots then (es.headD .null, es.tail)
    else
      let (l, es) := left.comb es
      let (r, es) := right.comb es
      (.prim "Pair" (some [l, r]), es)
  | _, es => (es.headD .null, es.tail)

theorem split_of_not_plain {t : MType} (h : t.isPlainPair = false) (val : Option Expr) :
    t.split val = .ok [val] := by
  cases t with
  | pair annots left right =>
    rw [isPlainPair, Bool.not_eq_false'] at h
    rw [split, if_pos h]
  | _ => rfl

theorem comb_of_not_plain {t : MType} (h : t.isPlainPair = false) (es : List Encoded) :
    t.comb es = (es.headD .null, es.tail) := by
  cases t with
  | pair annots left right =>
    rw [isPlainPair, Bool.not_eq_false'] at h
    rw [comb, if_pos h]
  | _ => rfl

theorem executeAll_append {ts us : List Token} {vals vals' : List (Option Expr)}
    (h : ts.length = vals.length) : executeAll (ts ++ us) (vals ++ vals') =
      do return (← executeAll ts vals) ++ (← executeAll us vals') := by
  rw [executeAll, List.zip_append h, List.mapM_append]
  rfl

theorem encodeAll_append {ts us : List Token} {vs ws : List Val} (h : ts.length = vs.length) :
    encodeAll (ts ++ us) (vs ++ ws) = do return (← encodeAll ts vs) ++ (← encodeAll us ws) := by
  rw [encodeAll, List.zip_append h, List.mapM_append]
  rfl

/-- What a component adds to the object of the pair around it. -/
theorem fields_component_of_not_plain {t : MType} (h : t.isPlainPair = false) (idx : ℕ) (v : Val) :
    (component (t.token host idx) v).fields = [((t.token host idx).annot, v)] := by
  rw [component, isPlainPair_token, h]
  rfl

theorem fields_component_plain {annots : Annots} (left right : MType) (idx : ℕ)
    (h : hasAnnotations annots = false) (v : Val) :
    component ((MType.pair annots left right).token host idx) v = v := by
  rw [component, isPlainPair_token, isPlainPair, h]
  rfl

/-- `Execute` of a pair, of the values of its components. -/
theorem execute_pair_eq_ok {annots : Annots} {left right : MType} {idx : ℕ} {val : Option Expr}
    {o : Val} : ((MType.pair annots left right).token host idx).Execute val = .ok o ↔
      ∃ args l r, collapse val = .ok args ∧ (left.token host idx).Execute args.1 = .ok l ∧
        (right.token host (idx + left.pairCount host idx)).Execute args.2 = .ok r ∧
        o = .object (spread (component (left.token host idx) l).fields
          (component (right.token host (idx + left.pairCount host idx)) r).fields) := by
  have hdef : ((MType.pair annots left right).token host idx).Execute val =
      PairToken.Execute (left.token host) (right.token host) idx val := rfl
  rw [hdef, PairToken.Execute]
  constructor
  · intro h
    obtain ⟨args, hargs, h⟩ := Except.bind_eq_ok.mp h
    rw [PairToken.traversal] at h
    obtain ⟨l, hl, h⟩ := Except.bind_eq_ok.mp h
    obtain ⟨r, hr, h⟩ := Except.bind_eq_ok.mp h
    rw [Except.pure_eq_ok, Except.ok.injEq] at h
    exact ⟨args, l, r, hargs, hl, hr, h.symm⟩
  · rintro ⟨args, l, r, hargs, hl, hr, rfl⟩
    simp only [hargs, PairToken.traversal, hl, Except.ok_bind]
    rw [pairCount] at hr
    rw [hr]
    rfl

/-- `Execute` builds the object of the labels of the components and their values. -/
theorem execute_components (t : MType) : ∀ (idx : ℕ) (val : Option Expr) (v : Val),
    (t.labels host idx).Nodup → (t.token host idx).Execute val = .ok v →
    ∃ parts values, t.split val = .ok parts ∧ parts.length = (t.components host idx).length ∧
      executeAll (t.components host idx) parts = .ok values ∧
      values.length = (t.components host idx).length ∧
      (component (t.token host idx) v).fields = (t.labels host idx).zip values := by
  induction t using inductComponents with
  | single t ht =>
    intro idx val v _ h
    refine ⟨[val], [v], split_of_not_plain ht val, ?_, ?_, ?_, ?_⟩
    · rw [components_of_not_plain ht]
      rfl
    · rw [components_of_not_plain ht, executeAll, List.zip_cons_cons, List.zip_nil_left,
        List.mapM_cons, List.mapM_nil, h]
      rfl
    · rw [components_of_not_plain ht]
      rfl
    · rw [labels_of_not_plain ht, fields_component_of_not_plain ht]
      rfl
  | pair annots left right hp ihl ihr =>
    intro idx val o hnd h
    obtain ⟨args, l, r, hargs, hl, hr, rfl⟩ := execute_pair_eq_ok.mp h
    rw [labels_pair _ _ _ _ hp] at hnd
    obtain ⟨lps, lvs, hlsplit, hllen, hlall, hlvlen, hlfields⟩ :=
      ihl _ _ _ (List.nodup_append.mp hnd).1 hl
    obtain ⟨rps, rvs, hrsplit, hrlen, hrall, hrvlen, hrfields⟩ :=
      ihr _ _ _ (List.nodup_append.mp hnd).2.1 hr
    refine ⟨lps ++ rps, lvs ++ rvs, ?_, ?_, ?_, ?_, ?_⟩
    · rw [split, hp, hargs]
      simp [hlsplit, hrsplit]
    · rw [components_pair _ _ _ _ hp, List.length_append, List.length_append, hllen, hrlen]
    · rw [components_pair _ _ _ _ hp, executeAll_append hllen.symm, hlall, hrall]
      rfl
    · rw [components_pair _ _ _ _ hp, List.length_append, List.length_append, hlvlen, hrvlen]
    · have hzip (u : MType) (i : ℕ) (vs : List Val)
          (hlen : vs.length = (u.components host i).length) :
          ((u.labels host i).zip vs).map Prod.fst = u.labels host i := by
        rw [List.map_fst_zip]
        rw [length_labels, hlen]
      rw [fields_component_plain _ _ _ hp, hlfields, hrfields, Val.fields, spread_of_disjoint]
      · rw [labels_pair _ _ _ _ hp, List.zip_append]
        rw [length_labels, hlvlen]
      · rw [List.map_append, hzip _ _ _ hlvlen, hzip _ _ _ hrvlen]
        exact hnd

theorem comb_append (t : MType) : ∀ (idx : ℕ) (es rest : List Encoded),
    es.length = (t.components host idx).length → t.comb (es ++ rest) = ((t.comb es).1, rest) := by
  induction t using inductComponents with
  | single t ht =>
    intro idx es rest hlen
    rw [components_of_not_plain ht] at hlen
    obtain ⟨e, rfl⟩ := List.length_eq_one_iff.mp hlen
    rw [comb_of_not_plain ht, comb_of_not_plain ht]
    rfl
  | pair annots left right hp ihl ihr =>
    intro idx es rest hlen
    rw [components_pair _ _ _ _ hp, List.length_append] at hlen
    have hl : (es.take (left.components host idx).length).length =
        (left.components host idx).length := by
      rw [List.length_take]
      omega
    have hr : (es.drop (left.components host idx).length).length =
        (right.components host (idx + left.pairCount host idx)).length := by
      rw [List.length_drop]
      omega
    rw [← List.take_append_drop (left.components host idx).length es, List.append_assoc]
    simp only [comb, hp, Bool.false_eq_true, if_false, ihl _ _ _ hl, ihr _ _ _ hr]

theorem componentOf_eq_ok (t : MType) (idx : ℕ) (fields : Fields) :
    componentOf (t.token host idx) (.object fields) =
      .ok (if t.isPlainPair then .object fields
        else (lookup (t.token host idx).annot fields).getD .undefined) := by
  rw [componentOf, isPlainPair_token]
  by_cases h : t.isPlainPair
  · rw [if_pos h, if_pos h]
  · rw [if_neg h, if_neg h]
    rfl

/-- `EncodeObject` takes the value of every component from the label that `Execute` gives to it. -/
theorem encodeObject_components (t : MType) : ∀ (idx : ℕ) (fields : Fields) (values : List Val),
    values.length = (t.components host idx).length →
    (∀ x ∈ (t.labels host idx).zip values, lookup x.1 fields = some x.2) →
    (do (t.token host idx).EncodeObject (← componentOf (t.token host idx) (.object fields))) =
      (fun es => (t.comb es).1) <$> encodeAll (t.components host idx) values := by
  induction t using inductComponents with
  | single t ht =>
    intro idx fields values hlen hf
    rw [components_of_not_plain ht] at hlen ⊢
    obtain ⟨v, rfl⟩ := List.length_eq_one_iff.mp hlen
    rw [labels_of_not_plain ht] at hf
    have hv := hf _ List.mem_cons_self
    rw [componentOf_eq_ok, ht, if_neg Bool.false_ne_true, hv, Except.ok_bind, Option.getD_some,
      encodeAll, List.zip_cons_cons, List.zip_nil_left, List.mapM_cons, List.mapM_nil]
    cases (t.token host idx).EncodeObject v with
    | error e => rfl
    | ok e => simp [comb_of_not_plain ht]
  | pair annots left right hp ihl ihr =>
    intro idx fields values hlen hf
    rw [components_pair _ _ _ _ hp, List.length_append] at hlen
    obtain ⟨lvs, rvs, rfl, hlvs⟩ : ∃ lvs rvs, values = lvs ++ rvs ∧
        lvs.length = (left.components host idx).length :=
      ⟨values.take (left.components host idx).length, values.drop _,
        (List.take_append_drop _ _).symm, by rw [List.length_take]; omega⟩
    rw [List.length_append, hlvs, Nat.add_left_cancel_iff] at hlen
    rw [labels_pair _ _ _ _ hp, List.zip_append (by rw [length_labels, hlvs])] at hf
    have hl := ihl idx fields lvs hlvs fun x hx => hf x (List.mem_append_left _ hx)
    have hr := ihr _ fields rvs hlen fun x hx => hf x (List.mem_append_right _ hx)
    have hdef (args : Val) : ((MType.pair annots left right).token host idx).EncodeObject args =
      PairToken.EncodeObject (left.token host) (right.token host) idx args := rfl
    rw [componentOf_eq_ok, Except.ok_bind] at hl hr ⊢
    rw [isPlainPair, hp, Bool.not_false, if_pos rfl, hdef, PairToken.EncodeObject,
      components_pair _ _ _ _ hp, encodeAll_append hlvs.symm]
    simp only [PairToken.tokens, pairCount] at hl hr ⊢
    simp only [componentOf_eq_ok, Except.ok_bind, hl, hr]
    cases hel : encodeAll (left.components host idx) lvs with
    | error e => rfl
    | ok ls =>
      cases her : encodeAll (right.components host (idx + left.pairCount host idx)) rvs with
      | error e =>
        rw [pairCount] at her
        rw [her]
        rfl
      | ok rs =>
        have hls : ls.length = (left.components host idx).length := by
          rw [← (Except.mapM_eq_ok.mp hel).length_eq, List.length_zip, hlvs, min_self]
        rw [pairCount] at her
        simp only [her, Except.ok_bind, Except.pure_eq_ok, map_eq_pure_bind, comb, hp,
          Bool.false_eq_true, if_false, @comb_append host left idx ls rs hls]

/-- The keys of an object that `traversal` of a pair builds are the labels of the components. -/
theorem keys_component (getValue : Token → Val)
    (hpair : ∀ annots left right idx, hasAnnotations annots = false →
      getValue ((MType.pair annots left right).token host idx) =
        Id.run (PairToken.traversal (left.token host) (right.token host) idx
          (fun t => pure (getValue t)) fun t => pure (getValue t)))
    (t : MType) : ∀ idx : ℕ,
    ((component (t.token host idx) (getValue (t.token host idx))).fields.map Prod.fst).Nodup ∧
      ∀ k, k ∈ (component (t.token host idx) (getValue (t.token host idx))).fields.map Prod.fst ↔
        k ∈ t.labels host idx := by
  induction t using inductComponents with
  | single t ht =>
    intro idx
    rw [fields_component_of_not_plain ht, labels_of_not_plain ht]
    exact ⟨List.nodup_singleton _, fun k => Iff.rfl⟩
  | pair annots left right hp ihl ihr =>
    intro idx
    rw [fields_component_plain _ _ _ hp, hpair _ _ _ _ hp]
    have hrun : (Id.run (PairToken.traversal (left.token host) (right.token host) idx
          (fun t => pure (getValue t)) fun t => pure (getValue t))).fields =
        spread (component (left.token host idx) (getValue (left.token host idx))).fields
          (component (right.token host (idx + left.pairCount host idx))
            (getValue (right.token host (idx + left.pairCount host idx)))).fields := rfl
    rw [hrun]
    refine ⟨nodup_keys_spread (ihl idx).1 _, fun k => ?_⟩
    rw [mem_keys_spread, (ihl idx).2, (ihr _).2, labels_pair _ _ _ _ hp, List.mem_append]

/-- The keys of `ExtractSchema` of a pair. -/
theorem extractSchema_keys (annots : Annots) (left right : MType) (idx : ℕ) :
    (((MType.pair annots left right).token host idx).ExtractSchema.fields.map Prod.fst).Nodup ∧
      ∀ k, k ∈ ((MType.pair annots left right).token host idx).ExtractSchema.fields.map Prod.fst ↔
        k ∈ (MType.pair none left right).labels host idx :=
  keys_component Token.ExtractSchema (fun _ _ _ _ _ => rfl) (.pair none left right) idx

/-- The keys of `generateSchema` of a pair. -/
theorem generateSchema_keys (annots : Annots) (left right : MType) (idx : ℕ) (k : JSString) :
    k ∈ ((MType.pair annots left right).token host idx).schemaFields.map Prod.fst ↔
      k ∈ (MType.pair none left right).labels host idx :=
  (keys_component innerSchema (fun _ _ _ _ hp => by
    rw [innerSchema, isPlainPair_token, isPlainPair, hp]; rfl) (.pair none left right) idx).2 k

end MType

/-! ## Leaves of an `or` -/

/-- A leaf of a tree of `or`s: on which side of each it is, and its token. -/
structure Leaf where
  path : List Bool
  token : Token

/-- The leaf, seen from the `or` around its tree. -/
def Leaf.under (side : Bool) (x : Leaf) : Leaf := { x with path := side :: x.path }

/-- The constructor of a side. -/
def sideName (side : Bool) : String := if side then "Right" else "Left"

/-- A value of the leaf on a path. -/
def choose (path : List Bool) (e : Expr) : Expr :=
  path.foldr (fun side e => .prim (sideName side) (some [e]) none) e

/-- An encoded value of the leaf on a path. -/
def chooseEncoded (path : List Bool) (e : Encoded) : Encoded :=
  path.foldr (fun side e => .prim (sideName side) (some [e])) e

namespace MType

variable (host)

/-- What every method of an `or` but `traversal` counts for the left alternative. -/
def orCount (t : MType) (idx : ℕ) : ℕ :=
  if (t.token host idx).kind = .or then (t.token host idx).keyCount else 1

/-- The leaves of a tree of `or`s, with the tokens that `Execute` creates. -/
def leaves : MType → ℕ → List Leaf
  | .or _ left right, idx =>
    (left.leaves idx).map (Leaf.under false) ++
      (right.leaves (idx + left.orCount host idx)).map (Leaf.under true)
  | t, idx => [⟨[], t.token host idx⟩]

/-- The labels that `Execute` gives to the leaves. -/
def leafLabels (t : MType) (idx : ℕ) : List JSString :=
  (t.leaves host idx).map fun x => x.token.annot

variable {host}

theorem leaves_of_not_or {t : MType} (h : t.isOr = false) (idx : ℕ) :
    t.leaves host idx = [⟨[], t.token host idx⟩] := by
  cases t with
  | or annots left right => cases h
  | _ => rfl

theorem leafLabels_or (annots : Annots) (left right : MType) (idx : ℕ) :
    leafLabels host (.or annots left right) idx =
      left.leafLabels host idx ++ right.leafLabels host (idx + left.orCount host idx) := by
  simp only [leafLabels, leaves, List.map_append, List.map_map]
  rfl

theorem leafLabels_of_not_or {t : MType} (h : t.isOr = false) (idx : ℕ) :
    t.leafLabels host idx = [(t.token host idx).annot] := by
  rw [leafLabels, leaves_of_not_or h]
  rfl

/-- Induction over the leaves of a tree of `or`s. -/
theorem inductLeaves {P : MType → Prop} (leaf : ∀ t, t.isOr = false → P t)
    (or : ∀ annots left right, P left → P right → P (.or annots left right)) (t : MType) : P t := by
  induction t with
  | or annots left right ihl ihr => exact or _ _ _ ihl ihr
  | _ => exact leaf _ rfl

/-- `Execute` puts the value of a leaf under its label. -/
theorem execute_leaf (t : MType) : ∀ (idx : ℕ), ∀ x ∈ t.leaves host idx, ∀ e : Expr,
    alternative (t.token host idx) <$> (t.token host idx).Execute (some (choose x.path e)) =
      (fun v => .object [(x.token.annot, v)]) <$> x.token.Execute (some e) := by
  induction t using inductLeaves with
  | leaf t ht =>
    intro idx x hx e
    rw [leaves_of_not_or ht, List.mem_singleton] at hx
    have hk : (t.token host idx).kind ≠ .or := by
      rw [Ne, kind_token_or, ht]
      exact Bool.false_ne_true
    have halt : alternative (t.token host idx) =
        fun v => .object [((t.token host idx).annot, v)] := by
      funext v
      rw [alternative, if_neg hk]
    rw [hx, halt]
    rfl
  | or annots left right ihl ihr =>
    intro idx x hx e
    have hdef (val : Option Expr) : ((MType.or annots left right).token host idx).Execute val =
      OrToken.Execute (left.token host) (right.token host) idx val := rfl
    have halt : alternative ((MType.or annots left right).token host idx) = id := rfl
    rw [leaves, List.mem_append, List.mem_map, List.mem_map] at hx
    rw [halt, id_map, hdef]
    obtain ⟨y, hy, rfl⟩ | ⟨y, hy, rfl⟩ := hx
    · refine Eq.trans ?_ (ihl idx y hy e)
      simp only [OrToken.Execute, OrToken.tokens, choose, Leaf.under, List.foldr_cons, sideName,
        Bool.false_eq_true, if_false, String.reduceEq, if_true, argsOf, Except.ok_bind,
        List.getElem?_cons_zero, map_eq_pure_bind]
    · refine Eq.trans ?_ (ihr _ y hy e)
      simp only [OrToken.Execute, OrToken.tokens, choose, Leaf.under, List.foldr_cons, sideName,
        if_true, argsOf, Except.ok_bind, List.getElem?_cons_zero, map_eq_pure_bind, orCount]

end MType

/-! ## The search for a label -/

theorem inject_null (p : String) : inject p .null = none := rfl

theorem inject_of_ne_null {p : String} {val : Encoded} (h : val ≠ .null) :
    inject p val = some (.prim p (some [val])) := by
  cases val with
  | null => exact absurd rfl h
  | _ => rfl

section search

variable {σ : Type} {left right : ℕ → Token} {idx : ℕ} {label : JSString} {args : σ}
  {direct : Token → Except EncoderError (Encoded × σ)}
  {inner : Token → σ → Except EncoderError (Encoded × σ)}

/-- What the search makes of the alternative that it ends in. -/
def reach (direct : Token → Except EncoderError (Encoded × σ))
    (inner : Token → σ → Except EncoderError (Encoded × σ)) (t : Token) (args : σ) :
    Except EncoderError (Encoded × σ) :=
  if t.kind = .or then inner t args else direct t

/-- The alternative has the label, or is an `or` in which something is found. -/
structure Holds (inner : Token → σ → Except EncoderError (Encoded × σ)) (t : Token)
    (label : JSString) (args : σ) : Prop where
  named : t.kind ≠ .or → t.annot = label
  found : t.kind = .or → ∀ r, inner t args = .ok r → r.1 ≠ .null

/-- The alternative has another label, or is an `or` in which nothing is found. -/
structure Lacks (inner : Token → σ → Except EncoderError (Encoded × σ)) (t : Token)
    (label : JSString) (args : σ) : Prop where
  named : t.kind ≠ .or → t.annot ≠ label
  found : t.kind = .or → inner t args = .ok (.null, args)

theorem Lacks.not_named {t : Token} (h : Lacks inner t label args) : ¬ t.named label :=
  fun hn => h.named hn.2 hn.1

theorem Lacks.within {t : Token} (h : Lacks inner t label args) :
    OrToken.within t args inner = .ok (.null, args) := by
  rw [OrToken.within]
  by_cases hk : t.kind = .or
  · rw [if_pos hk, h.found hk]
  · rw [if_neg hk]

theorem search_left (hl : Holds inner (OrToken.tokens left right idx).1 label args)
    (hr : Lacks inner (OrToken.tokens left right idx).2 label args) :
    OrToken.search left right idx label args direct inner =
      (fun r => (.prim "Left" (some [r.1]), r.2)) <$>
        reach direct inner (OrToken.tokens left right idx).1 args := by
  simp only [OrToken.search, reach]
  by_cases hk : (OrToken.tokens left right idx).1.kind = .or
  · rw [if_neg fun hn => hn.2 hk, if_neg hr.not_named, if_pos hk, OrToken.within, if_pos hk]
    cases h : inner (OrToken.tokens left right idx).1 args with
    | error e => rfl
    | ok r => rw [Except.ok_bind, inject_of_ne_null (hl.found hk r h)]; rfl
  · rw [if_pos ⟨hl.named hk, hk⟩, if_neg hk]
    rfl

theorem search_right (hl : Lacks inner (OrToken.tokens left right idx).1 label args)
    (hr : Holds inner (OrToken.tokens left right idx).2 label args) :
    OrToken.search left right idx label args direct inner =
      (fun r => (.prim "Right" (some [r.1]), r.2)) <$>
        reach direct inner (OrToken.tokens left right idx).2 args := by
  simp only [OrToken.search, reach]
  rw [if_neg hl.not_named]
  by_cases hk : (OrToken.tokens left right idx).2.kind = .or
  · rw [if_neg fun hn => hn.2 hk, if_pos hk, hl.within, Except.ok_bind]
    simp only [inject_null, OrToken.within, if_pos hk]
    cases h : inner (OrToken.tokens left right idx).2 args with
    | error e => rfl
    | ok r => rw [Except.ok_bind, inject_of_ne_null (hr.found hk r h)]; rfl
  · rw [if_pos ⟨hr.named hk, hk⟩, if_neg hk]
    rfl

theorem search_none (hl : Lacks inner (OrToken.tokens left right idx).1 label args)
    (hr : Lacks inner (OrToken.tokens left right idx).2 label args) :
    OrToken.search left right idx label args direct inner = .ok (.null, args) := by
  simp only [OrToken.search]
  rw [if_neg hl.not_named, if_neg hr.not_named, hl.within, Except.ok_bind]
  simp only [inject_null, hr.within, Except.ok_bind]
  rfl

end search

namespace MType

section leaves

variable {σ : Type} {label : JSString} {args : σ}
  {direct : Token → Except EncoderError (Encoded × σ)}
  {inner : Token → σ → Except EncoderError (Encoded × σ)}

theorem kind_ne_or {t : MType} (h : t.isOr = false) (idx : ℕ) : (t.token host idx).kind ≠ .or := by
  rw [Ne, kind_token_or, h]
  exact Bool.false_ne_true

theorem reach_or (annots : Annots) (left right : MType) (idx : ℕ) :
    reach direct inner ((MType.or annots left right).token host idx) args =
      inner ((MType.or annots left right).token host idx) args := if_pos rfl

/-- Where no leaf has the label, nothing is found. -/
theorem search_lacks
    (hor : ∀ annots left right idx, inner ((MType.or annots left right).token host idx) args =
      OrToken.search (left.token host) (right.token host) idx label args direct inner)
    (t : MType) : ∀ idx : ℕ, label ∉ t.leafLabels host idx →
      Lacks inner (t.token host idx) label args := by
  induction t using inductLeaves with
  | leaf t ht =>
    intro idx h
    rw [leafLabels_of_not_or ht, List.mem_singleton] at h
    exact ⟨fun _ => Ne.symm h, fun hk => absurd hk (kind_ne_or ht idx)⟩
  | or annots left right ihl ihr =>
    intro idx h
    rw [leafLabels_or, List.mem_append, not_or] at h
    refine ⟨fun hk => absurd rfl hk, fun _ => ?_⟩
    rw [hor]
    exact search_none (ihl _ h.1) (ihr _ h.2)

/-- The leaf with the label is found. -/
theorem search_leaf
    (hor : ∀ annots left right idx, inner ((MType.or annots left right).token host idx) args =
      OrToken.search (left.token host) (right.token host) idx label args direct inner)
    (t : MType) : ∀ idx : ℕ, (t.leafLabels host idx).Nodup → ∀ x ∈ t.leaves host idx,
      x.token.annot = label → Holds inner (t.token host idx) label args ∧
        reach direct inner (t.token host idx) args =
          (fun r => (chooseEncoded x.path r.1, r.2)) <$> direct x.token := by
  induction t using inductLeaves with
  | leaf t ht =>
    intro idx _ x hx hlabel
    rw [leaves_of_not_or ht, List.mem_singleton] at hx
    subst hx
    refine ⟨⟨fun _ => hlabel, fun hk => absurd hk (kind_ne_or ht idx)⟩, ?_⟩
    rw [reach, if_neg (kind_ne_or ht idx)]
    exact (id_map _).symm
  | or annots left right ihl ihr =>
    intro idx hnd x hx hlabel
    rw [leafLabels_or] at hnd
    have hmem {t : MType} {i : ℕ} {y : Leaf} (hy : y ∈ t.leaves host i)
        (hyl : y.token.annot = label) : label ∈ t.leafLabels host i := by
      rw [← hyl]
      exact List.mem_map_of_mem hy
    -- the search ends on the side of the leaf, as no leaf on the other side has its label
    obtain ⟨p, es, hsearch⟩ : ∃ (side : Bool) (y : Leaf), x = y.under side ∧
        OrToken.search (left.token host) (right.token host) idx label args direct inner =
          (fun r => (.prim (sideName side) (some [r.1]), r.2)) <$>
            (fun r => (chooseEncoded y.path r.1, r.2)) <$> direct y.token := by
      rw [leaves, List.mem_append, List.mem_map, List.mem_map] at hx
      obtain ⟨y, hy, rfl⟩ | ⟨y, hy, rfl⟩ := hx
      · obtain ⟨hholds, hreach⟩ := ihl idx (List.nodup_append.mp hnd).1 y hy hlabel
        have hlacks := search_lacks hor right (idx + left.orCount host idx) fun h =>
          (List.nodup_append.mp hnd).2.2 _ (hmem hy hlabel) _ h rfl
        refine ⟨false, y, rfl, ?_⟩
        rw [← hreach]
        exact search_left hholds hlacks
      · obtain ⟨hholds, hreach⟩ := ihr _ (List.nodup_append.mp hnd).2.1 y hy hlabel
        have hlacks := search_lacks hor left idx fun h =>
          (List.nodup_append.mp hnd).2.2 _ h _ (hmem hy hlabel) rfl
        refine ⟨true, y, rfl, ?_⟩
        rw [← hreach]
        exact search_right hlacks hholds
    obtain ⟨rfl, hsearch⟩ := hsearch
    have hinner : inner ((MType.or annots left right).token host idx) args =
        (fun r => (chooseEncoded (es.under p).path r.1, r.2)) <$> direct (es.under p).token := by
      rw [hor, hsearch, ← comp_map]
      rfl
    refine ⟨⟨fun hk => absurd rfl hk, fun _ r hr => ?_⟩, ?_⟩
    · rw [hinner] at hr
      obtain ⟨r', -, rfl⟩ := Except.map_eq_ok.mp hr
      exact Encoded.noConfusion
    · rw [reach_or, hinner]

end leaves

/-- `EncodeObject` takes the value of a leaf from the label that `Execute` gives to it. -/
theorem encodeObject_leaf {annots : Annots} {left right : MType} {idx : ℕ}
    (hnd : ((MType.or annots left right).leafLabels host idx).Nodup) {x : Leaf}
    (hx : x ∈ (MType.or annots left right).leaves host idx) (v : Val) :
    ((MType.or annots left right).token host idx).EncodeObject (.object [(x.token.annot, v)]) =
      chooseEncoded x.path <$> x.token.EncodeObject v := by
  have hkeys : objectKeys [(x.token.annot, v)] = [x.token.annot] := by
    have h := length_objectKeys [(x.token.annot, v)]
    obtain ⟨k, hk⟩ := List.length_eq_one_iff.mp h
    have hmem : k ∈ objectKeys [(x.token.annot, v)] := by
      rw [hk]
      exact List.mem_cons_self
    rw [mem_objectKeys, List.map_singleton, List.mem_singleton] at hmem
    rw [hk, hmem]
  have hget : Val.get x.token.annot (.object [(x.token.annot, v)]) = .ok v := by
    simp [Val.get, lookup]
  have hsearch (annots : Annots) (left right : MType) (idx : ℕ) :
      ((MType.or annots left right).token host idx).EncodeObject (.object [(x.token.annot, v)]) =
        Prod.fst <$> OrToken.search (left.token host) (right.token host) idx x.token.annot ()
          (fun t => do return (← t.EncodeObject v, ()))
          (fun t _ => do return (← t.EncodeObject (.object [(x.token.annot, v)]), ())) := by
    have hdef : ((MType.or annots left right).token host idx).EncodeObject
      (.object [(x.token.annot, v)]) = OrToken.EncodeObject (left.token host) (right.token host)
        idx (.object [(x.token.annot, v)]) := rfl
    rw [hdef, OrToken.EncodeObject, Val.keys, Except.ok_bind, hkeys]
    simp only [List.head?_cons, Option.getD_some, hget, Except.ok_bind]
  have hleaf := (@search_leaf host _ x.token.annot ()
    (fun t => do return (← t.EncodeObject v, ()))
    (fun t _ => do return (← t.EncodeObject (.object [(x.token.annot, v)]), ()))
    (fun annots left right idx => by
      rw [hsearch annots left right idx]
      generalize OrToken.search (left.token host) (right.token host) idx x.token.annot () _ _ = r
      cases r <;> rfl) (.or annots left right) idx hnd x hx rfl).2
  rw [reach_or] at hleaf
  cases h : ((MType.or annots left right).token host idx).EncodeObject
      (.object [(x.token.annot, v)]) with
  | error e =>
    rw [h] at hleaf
    cases h' : x.token.EncodeObject v <;> simp_all
  | ok r => 
    rw [h] at hleaf
    cases h' : x.token.EncodeObject v <;> simp_all

/-- `Encode` finds the leaf by the label that `Execute` gives to it. -/
theorem encode_leaf {annots : Annots} {left right : MType} {idx : ℕ}
    (hnd : ((MType.or annots left right).leafLabels host idx).Nodup) {x : Leaf}
    (hx : x ∈ (MType.or annots left right).leaves host idx) (args : List Val) :
    ((MType.or annots left right).token host idx).Encode (args ++ [.string x.token.annot]) =
      (fun r => (chooseEncoded x.path r.1, r.2)) <$> x.token.Encode args := by
  have hsearch (annots : Annots) (left right : MType) (idx : ℕ) :
      ((MType.or annots left right).token host idx).Encode (args ++ [.string x.token.annot]) =
        OrToken.search (left.token host) (right.token host) idx x.token.annot
          (args ++ [.string x.token.annot]) (fun t => t.Encode args)
          (fun t args => t.Encode args) := by
    have hdef : ((MType.or annots left right).token host idx).Encode
      (args ++ [.string x.token.annot]) = OrToken.Encode host (left.token host) (right.token host)
        idx (args ++ [.string x.token.annot]) := rfl
    rw [hdef, OrToken.Encode, List.getLast?_concat, List.dropLast_concat]
    rfl
  have hleaf := (search_leaf hsearch (.or annots left right) idx hnd x hx rfl).2
  rwa [reach_or] at hleaf

/-- The signatures of an `or` are those of its leaves, each behind the label of the leaf. -/
theorem alternativeSignature_leaves (t : MType) : ∀ idx : ℕ,
    alternativeSignature (t.token host idx) = (t.leaves host idx).flatMap fun x =>
      x.token.ExtractSignature.map fun sig => .string x.token.annot :: sig := by
  induction t using inductLeaves with
  | leaf t ht =>
    intro idx
    rw [leaves_of_not_or ht, alternativeSignature, if_neg (kind_ne_or ht idx)]
    simp
  | or annots left right ihl ihr =>
    intro idx
    have hdef : alternativeSignature ((MType.or annots left right).token host idx) =
      alternativeSignature (left.token host idx) ++
        alternativeSignature (right.token host (idx + left.orCount host idx)) := rfl
    rw [hdef, ihl, ihr, leaves, List.flatMap_append, List.flatMap_map, List.flatMap_map]
    rfl

/-- An `or` with a label. -/
def isNamedOr (t : MType) : Bool := t.isOr && !t.isPlainOr

/-- No `or` inside the tree of an `or` has a label. -/
def plainInside : MType → Bool
  | .or _ left right =>
    !left.isNamedOr && !right.isNamedOr && left.plainInside && right.plainInside
  | _ => true

/-- The number of leaves. -/
def leafCount : MType → ℕ
  | .or _ left right => left.leafCount + right.leafCount
  | _ => 1

theorem leafCount_pos (t : MType) : 0 < t.leafCount := by
  induction t with
  | or annots left right ihl ihr => exact Nat.add_pos_left ihl _
  | _ => exact Nat.one_pos

theorem leafCount_of_not_or {t : MType} (h : t.isOr = false) : t.leafCount = 1 := by
  cases t with
  | or annots left right => cases h
  | _ => rfl

@[simp] theorem length_leafLabels (t : MType) : ∀ idx : ℕ,
    (t.leafLabels host idx).length = t.leafCount := by
  induction t using inductLeaves with
  | leaf t ht =>
    intro idx
    rw [leafLabels_of_not_or ht, leafCount_of_not_or ht]
    rfl
  | or annots left right ihl ihr =>
    intro idx
    rw [leafLabels_or, List.length_append, ihl, ihr, leafCount]

theorem orCount_of_not_or {t : MType} (h : t.isOr = false) (idx : ℕ) : t.orCount host idx = 1 :=
  if_neg (kind_ne_or h idx)

section schema

variable {getValue : Token → Val}
  (hor : ∀ annots left right idx, hasAnnotations annots = false →
    getValue ((MType.or annots left right).token host idx) =
      OrToken.traversal (left.token host) (right.token host) idx getValue)
include hor

theorem fields_schemaAlternative_or {annots : Annots} {left right : MType} {idx : ℕ}
    (h : hasAnnotations annots = false) :
    (schemaAlternative getValue ((MType.or annots left right).token host idx)).fields =
      (OrToken.traversal (left.token host) (right.token host) idx getValue).fields := by
  rw [schemaAlternative, isPlainOr_token, isPlainOr, h, Bool.not_false, if_pos rfl, hor _ _ _ _ h]

omit hor in
theorem fields_schemaAlternative_of_not_plain {t : MType} (h : t.isPlainOr = false) (idx : ℕ) :
    (schemaAlternative getValue (t.token host idx)).fields =
      [((t.token host idx).annot, getValue (t.token host idx))] := by
  rw [schemaAlternative, isPlainOr_token, h]
  rfl

/-- The keys that `traversal` of an `or` builds are the labels of the leaves, if no inner `or` has a
label. -/
theorem keys_schemaAlternative (t : MType) : ∀ idx : ℕ, t.plainInside → ¬ t.isNamedOr →
    ((schemaAlternative getValue (t.token host idx)).fields.map Prod.fst).Nodup ∧
      ∀ k, k ∈ (schemaAlternative getValue (t.token host idx)).fields.map Prod.fst ↔
        k ∈ t.leafLabels host idx := by
  induction t using inductLeaves with
  | leaf t ht =>
    intro idx _ _
    have hp : t.isPlainOr = false := by
      cases t with
      | or annots left right => cases ht
      | _ => rfl
    rw [fields_schemaAlternative_of_not_plain hp, leafLabels_of_not_or ht]
    exact ⟨List.nodup_singleton _, fun k => Iff.rfl⟩
  | or annots left right ihl ihr =>
    intro idx hin hn
    have hp : hasAnnotations annots = false := by
      simpa [isNamedOr, isOr, isPlainOr] using hn
    simp only [plainInside, Bool.and_eq_true, Bool.not_eq_true'] at hin
    obtain ⟨⟨⟨hnl, hnr⟩, hinl⟩, hinr⟩ := hin
    have hcount : (if (left.token host idx).isPlainOr then (left.token host idx).keyCount else 1) =
        left.orCount host idx := by
      rw [orCount, isPlainOr_token]
      by_cases ho : left.isOr
      · have hpl : left.isPlainOr := by simpa [isNamedOr, ho] using hnl
        rw [if_pos hpl, if_pos ((kind_token_or left idx).mpr ho)]
      · rw [Bool.not_eq_true] at ho
        have hpl : left.isPlainOr = false := by
          cases left with
          | or annots l r => cases ho
          | _ => rfl
        rw [hpl, if_neg (kind_ne_or ho idx)]
        rfl
    obtain ⟨hndl, hmeml⟩ := ihl idx hinl (by rw [hnl]; exact Bool.false_ne_true)
    obtain ⟨-, hmemr⟩ := ihr (idx + left.orCount host idx) hinr
      (by rw [hnr]; exact Bool.false_ne_true)
    rw [fields_schemaAlternative_or hor hp, OrToken.traversal, hcount]
    refine ⟨nodup_keys_spread hndl _, fun k => ?_⟩
    rw [Val.fields, mem_keys_spread, hmeml, hmemr, leafLabels_or, List.mem_append]

theorem length_schemaAlternative_le (t : MType) : ∀ idx : ℕ,
    (schemaAlternative getValue (t.token host idx)).fields.length ≤ t.leafCount := by
  induction t using inductLeaves with
  | leaf t ht =>
    intro idx
    have hp : t.isPlainOr = false := by
      cases t with
      | or annots left right => cases ht
      | _ => rfl
    rw [fields_schemaAlternative_of_not_plain hp, leafCount_of_not_or ht]
    exact le_rfl
  | or annots left right ihl ihr =>
    intro idx
    by_cases hp : hasAnnotations annots
    · have hpl : (MType.or annots left right).isPlainOr = false := by rw [isPlainOr, hp]; rfl
      rw [fields_schemaAlternative_of_not_plain hpl]
      exact leafCount_pos _
    · rw [Bool.not_eq_true] at hp
      rw [fields_schemaAlternative_or hor hp, OrToken.traversal, Val.fields, leafCount]
      exact (length_spread_le _ _).trans (Nat.add_le_add (ihl idx) (ihr _))

end schema

end MType

end MichelsonEncoder
