import Mathlib.Tactic.Tauto
import Taquito.MichelsonEncoder.Labels

/-!
# When the labels agree

Every method of a pair or an `or` counts positions for its labels on its own: `ExtractSignature` of
a pair takes an `or` for what `Execute` takes a pair for, and the schema of an `or` nests an
annotated `or` that `Execute` flattens. `LabelsAgree` says that over a whole tree of types the
labels of `Execute` are distinct, that the other methods use them for the same components, and that
the schemas have them as keys. `WellNumbered` is when this is so: a condition on the shape of the
tree and on which nodes are annotated.
-/

open Js

namespace MichelsonEncoder

/-! ## Agreement -/

/-- The labels of the components of a pair. -/
structure PairAgrees (host : Host) (annots : Annots) (left right : MType) (idx : ℕ) : Prop where
  distinct : ((MType.pair none left right).labels host idx).Nodup
  execute : ∀ val o, ((MType.pair annots left right).token host idx).Execute val = .ok o →
    ∃ parts values, (MType.pair none left right).split val = .ok parts ∧
      executeAll ((MType.pair none left right).components host idx) parts = .ok values ∧
      o = .object (((MType.pair none left right).labels host idx).zip values)
  encodeObject : ∀ values : List Val,
    values.length = ((MType.pair none left right).components host idx).length →
    ((MType.pair annots left right).token host idx).EncodeObject
        (.object (((MType.pair none left right).labels host idx).zip values)) =
      (fun es => ((MType.pair none left right).comb es).1) <$>
        encodeAll ((MType.pair none left right).components host idx) values
  extractSchema : ∀ k ∈ (MType.pair none left right).labels host idx,
    k ∈ objectKeys ((MType.pair annots left right).token host idx).ExtractSchema.fields
  generateSchema : ∀ k ∈ (MType.pair none left right).labels host idx,
    k ∈ objectKeys ((MType.pair annots left right).token host idx).schemaFields

/-- The labels of the leaves of an `or`, which `ExtractSignature` is asked for at an index of its
own. -/
structure OrAgrees (host : Host) (annots : Annots) (left right : MType) (idx sigIdx : ℕ) : Prop where
  distinct : ((MType.or annots left right).leafLabels host idx).Nodup
  execute : ∀ x ∈ (MType.or annots left right).leaves host idx, ∀ e : Expr,
    ((MType.or annots left right).token host idx).Execute (some (choose x.path e)) =
      (fun v => .object [(x.token.annot, v)]) <$> x.token.Execute (some e)
  encodeObject : ∀ x ∈ (MType.or annots left right).leaves host idx, ∀ v : Val,
    ((MType.or annots left right).token host idx).EncodeObject (.object [(x.token.annot, v)]) =
      chooseEncoded x.path <$> x.token.EncodeObject v
  encode : ∀ x ∈ (MType.or annots left right).leaves host idx, ∀ args : List Val,
    ((MType.or annots left right).token host idx).Encode (args ++ [.string x.token.annot]) =
      (fun r => (chooseEncoded x.path r.1, r.2)) <$> x.token.Encode args
  extractSignature : ((MType.or annots left right).token host sigIdx).ExtractSignature =
    (((MType.or annots left right).leaves host idx).zip
      ((MType.or annots left right).leaves host sigIdx)).flatMap fun x =>
        x.2.token.ExtractSignature.map fun sig => .string x.1.token.annot :: sig
  extractSchema : ∀ k ∈ (MType.or annots left right).leafLabels host idx,
    k ∈ objectKeys ((MType.or annots left right).token host idx).ExtractSchema.fields
  generateSchema : ∀ k ∈ (MType.or annots left right).leafLabels host idx,
    k ∈ objectKeys ((MType.or annots left right).token host idx).schemaFields

/-- What `ExtractSignature` of a pair counts for the left component. -/
def MType.signatureCount (host : Host) (t : MType) (idx : ℕ) : ℕ :=
  if (t.token host idx).kind = .or then (t.token host idx).keyCount else 1

/-- The labels agree at every pair and every `or` of a tree, of which `Execute` creates the token at
`idx` and `ExtractSignature` at `sigIdx`. -/
def LabelsAgree (host : Host) : MType → ℕ → ℕ → Prop
  | .pair annots left right, idx, sigIdx =>
    PairAgrees host annots left right idx ∧ LabelsAgree host left idx sigIdx ∧
      LabelsAgree host right (idx + left.pairCount host idx)
        (sigIdx + left.signatureCount host sigIdx)
  | .or annots left right, idx, sigIdx =>
    OrAgrees host annots left right idx sigIdx ∧ LabelsAgree host left idx sigIdx ∧
      LabelsAgree host right (idx + left.orCount host idx) (sigIdx + left.orCount host sigIdx)
  | _, _, _ => True

namespace MType

/-! ## Names and positions -/

/-- The label that annotations give. -/
def nameOf (annots : Annots) : Option JSString := (annots.bind List.head?).map stripAnnot

/-- The labels that annotations give in a tree of pairs and `or`s. -/
def names : MType → List JSString
  | .pair annots left right | .or annots left right =>
    (nameOf annots).toList ++ (left.names ++ right.names)
  | t => (nameOf t.annots).toList

/-- The annotations of a tree are distinct, and none is a number. -/
structure DistinctNames (t : MType) : Prop where
  nodup : t.names.Nodup
  not_number : ∀ x ∈ t.names, ∀ n, x ≠ natText n

/-- The number of components in the object of the pair around a type. -/
def fieldCount : MType → ℕ
  | .pair annots left right =>
    if hasAnnotations annots then 1 else left.fieldCount + right.fieldCount
  | _ => 1

/-- How many positions a type takes as the left component of a pair. -/
def width : MType → ℕ
  | .pair _ left right => left.fieldCount + right.fieldCount
  | _ => 1

/-- The names and positions of the components, from a first position on. -/
def slots : MType → ℕ → List (Option JSString × ℕ)
  | .pair annots left right, n =>
    if hasAnnotations annots then [(nameOf annots, n)]
    else left.slots n ++ right.slots (n + left.width)
  | t, n => [(nameOf t.annots, n)]

/-- The names and positions of the leaves of a tree of `or`s. -/
def leafSlots : MType → ℕ → List (Option JSString × ℕ)
  | .or _ left right, n => left.leafSlots n ++ right.leafSlots (n + left.leafCount)
  | t, n => [(nameOf t.annots, n)]

/-- The positions that stand for a name. -/
def positions (slots : List (Option JSString × ℕ)) : List ℕ :=
  slots.filterMap fun s => if s.1.isNone then some s.2 else none

/-- **When the labels agree.** No two components of a flattened pair without a name have the same
position, no `or` inside an `or` is annotated, and where `ExtractSignature` counts otherwise than
`Execute` all leaves of an `or` are annotated. The numbers are the positions of the two. -/
def WellNumbered : MType → ℕ → ℕ → Prop
  | .pair _ left right, n, m =>
    (positions ((MType.pair none left right).slots 0)).Nodup ∧ left.WellNumbered n m ∧
      right.WellNumbered (n + left.width) (m + left.leafCount)
  | .or annots left right, n, m =>
    (¬ left.isNamedOr ∧ ¬ right.isNamedOr) ∧
      (n = m ∨ positions ((MType.or annots left right).leafSlots 0) = []) ∧
      left.WellNumbered n m ∧ right.WellNumbered (n + left.leafCount) (m + left.leafCount)
  | _, _, _ => True

/-! ### Labels from names and positions -/

theorem stripAnnot_of_forall {s : JSString} (h : ∀ c ∈ s, c ≠ 37 ∧ c ≠ 58) : stripAnnot s = s := by
  induction s with
  | nil => rfl
  | cons c s ih =>
    have hc := h c List.mem_cons_self
    rw [stripAnnot, if_neg (not_or.mpr hc), ih fun d hd => h d (List.mem_cons_of_mem _ hd)]

theorem stripAnnot_natText (n : ℕ) : stripAnnot (natText n) = natText n := by
  apply stripAnnot_of_forall
  intro c hc
  obtain ⟨d, hd, rfl⟩ := numberText_digits (by omega) hc
  have hv := digitChar_toNat (show d < 36 by omega)
  rw [if_pos hd] at hv
  constructor <;>
  · intro he
    rw [he] at hv
    simp at hv
    omega

/-- The label of a name and a position. -/
def slotLabel (idx : ℕ) (s : Option JSString × ℕ) : JSString := s.1.getD (natText (idx + s.2))

theorem annot_eq (annots : Annots) (idx : ℕ) :
    annot annots idx = slotLabel idx (nameOf annots, 0) := by
  rw [annot, slotLabel, nameOf, Nat.add_zero]
  cases annots.bind List.head? with
  | none => exact stripAnnot_natText idx
  | some a => rfl

theorem slots_pair (annots : Annots) (left right : MType) (n : ℕ)
    (h : hasAnnotations annots = false) :
    (MType.pair annots left right).slots n = left.slots n ++ right.slots (n + left.width) := by
  rw [slots, h]
  rfl

theorem slots_of_not_plain {t : MType} (h : t.isPlainPair = false) (n : ℕ) :
    t.slots n = [(nameOf t.annots, n)] := by
  cases t with
  | pair annots left right =>
    rw [isPlainPair, Bool.not_eq_false'] at h
    rw [slots, if_pos h]
    rfl
  | _ => rfl

theorem leafSlots_of_not_or {t : MType} (h : t.isOr = false) (n : ℕ) :
    t.leafSlots n = [(nameOf t.annots, n)] := by
  cases t with
  | or annots left right => cases h
  | _ => rfl

theorem slots_add (t : MType) : ∀ n k : ℕ,
    t.slots (n + k) = (t.slots k).map fun s => (s.1, n + s.2) := by
  induction t using inductComponents with
  | single t ht =>
    intro n k
    rw [slots_of_not_plain ht, slots_of_not_plain ht]
    rfl
  | pair annots left right hp ihl ihr =>
    intro n k
    rw [slots_pair _ _ _ _ hp, slots_pair _ _ _ _ hp, List.map_append, ihl, Nat.add_assoc, ihr]

theorem leafSlots_add (t : MType) : ∀ n k : ℕ,
    t.leafSlots (n + k) = (t.leafSlots k).map fun s => (s.1, n + s.2) := by
  induction t using inductLeaves with
  | leaf t ht =>
    intro n k
    rw [leafSlots_of_not_or ht, leafSlots_of_not_or ht]
    rfl
  | or annots left right ihl ihr =>
    intro n k
    rw [leafSlots, leafSlots, List.map_append, ihl, Nat.add_assoc, ihr]

theorem map_slotLabel_add (idx n : ℕ) (slots : List (Option JSString × ℕ)) :
    (slots.map fun s => (s.1, n + s.2)).map (slotLabel idx) = slots.map (slotLabel (idx + n)) := by
  rw [List.map_map]
  refine congrArg (slots.map ·) ?_
  funext s
  rw [Function.comp_apply, slotLabel, slotLabel, Nat.add_assoc]

theorem length_slots (t : MType) : ∀ n : ℕ, (t.slots n).length = t.fieldCount := by
  induction t using inductComponents with
  | single t ht =>
    intro n
    rw [slots_of_not_plain ht]
    cases t with
    | pair annots left right =>
      rw [isPlainPair, Bool.not_eq_false'] at ht
      rw [fieldCount, if_pos ht]
      rfl
    | _ => rfl
  | pair annots left right hp ihl ihr =>
    intro n
    rw [slots_pair _ _ _ _ hp, List.length_append, ihl, ihr, fieldCount, hp]
    rfl

theorem names_leaf {t : MType} (hp : t.isPair = false) (ho : t.isOr = false) :
    t.names = (nameOf t.annots).toList := by
  cases t with
  | pair annots left right => cases hp
  | or annots left right => cases ho
  | _ => rfl

theorem nameOf_toList_sublist (t : MType) : (nameOf t.annots).toList.Sublist t.names := by
  cases t with
  | pair annots left right => exact List.sublist_append_left _ _
  | or annots left right => exact List.sublist_append_left _ _
  | _ => exact List.Sublist.refl _

theorem names_slots_sublist (t : MType) : ∀ n : ℕ,
    ((t.slots n).filterMap Prod.fst).Sublist t.names := by
  induction t using inductComponents with
  | single t ht =>
    intro n
    rw [slots_of_not_plain ht]
    refine List.Sublist.trans ?_ (nameOf_toList_sublist t)
    cases nameOf t.annots <;> exact List.Sublist.refl _
  | pair annots left right hp ihl ihr =>
    intro n
    rw [slots_pair _ _ _ _ hp, List.filterMap_append]
    exact ((ihl n).append (ihr _)).trans (List.sublist_append_right _ _)

theorem names_leafSlots_sublist (t : MType) : ∀ n : ℕ,
    ((t.leafSlots n).filterMap Prod.fst).Sublist t.names := by
  induction t using inductLeaves with
  | leaf t ht =>
    intro n
    rw [leafSlots_of_not_or ht]
    refine List.Sublist.trans ?_ (nameOf_toList_sublist t)
    cases nameOf t.annots <;> exact List.Sublist.refl _
  | or annots left right ihl ihr =>
    intro n
    rw [leafSlots, List.filterMap_append]
    exact ((ihl n).append (ihr _)).trans (List.sublist_append_right _ _)

/-- Labels are distinct if the positions that stand for a name are. -/
theorem nodup_slotLabels {slots : List (Option JSString × ℕ)} (idx : ℕ)
    (hnd : (slots.filterMap Prod.fst).Nodup)
    (hnum : ∀ x ∈ slots.filterMap Prod.fst, ∀ n, x ≠ natText n) :
    (slots.map (slotLabel idx)).Nodup ↔ (positions slots).Nodup := by
  induction slots with
  | nil => simp [positions]
  | cons s slots ih =>
    obtain ⟨name, n⟩ := s
    cases name with
    | some x =>
      have hcons : ((some x, n) :: slots).filterMap Prod.fst = x :: slots.filterMap Prod.fst := rfl
      rw [hcons] at hnd hnum
      rw [List.nodup_cons] at hnd
      have hx : slotLabel idx (some x, n) ∉ slots.map (slotLabel idx) := by
        rw [List.mem_map]
        rintro ⟨⟨name, k⟩, hmem, heq⟩
        cases name with
        | some y =>
          have hxy : y = x := heq
          exact hnd.1 (List.mem_filterMap.mpr ⟨_, hmem, congrArg some hxy⟩)
        | none => exact hnum x List.mem_cons_self _ heq.symm
      have hpos : positions ((some x, n) :: slots) = positions slots := rfl
      rw [List.map_cons, List.nodup_cons, hpos,
        ih hnd.2 fun y hy => hnum y (List.mem_cons_of_mem _ hy)]
      exact and_iff_right hx
    | none =>
      have hcons : ((none, n) :: slots).filterMap Prod.fst = slots.filterMap Prod.fst := rfl
      rw [hcons] at hnd hnum
      have hpos : positions ((none, n) :: slots) = n :: positions slots := rfl
      have hn : slotLabel idx (none, n) ∈ slots.map (slotLabel idx) ↔ n ∈ positions slots := by
        rw [List.mem_map, positions, List.mem_filterMap]
        constructor
        · rintro ⟨⟨name, k⟩, hmem, heq⟩
          cases name with
          | some y =>
            exact absurd heq (hnum y (List.mem_filterMap.mpr ⟨_, hmem, rfl⟩) _)
          | none =>
            have hk := BigNumber.natText_injective heq
            refine ⟨_, hmem, ?_⟩
            have hkn : k = n := Nat.add_left_cancel hk
            exact congrArg some hkn
        · rintro ⟨⟨name, k⟩, hmem, heq⟩
          cases name with
          | some y => cases heq
          | none =>
            have hkn : k = n := Option.some.inj heq
            exact ⟨_, hmem, by rw [hkn]⟩
      rw [List.map_cons, List.nodup_cons, hpos, List.nodup_cons, hn, ih hnd hnum]

theorem DistinctNames.left {annots : Annots} {left right : MType}
    (h : DistinctNames (.pair annots left right)) : DistinctNames left where
  nodup := h.nodup.sublist ((List.sublist_append_left _ _).trans (List.sublist_append_right _ _))
  not_number x hx := h.not_number x (List.mem_append_right _ (List.mem_append_left _ hx))

theorem DistinctNames.right {annots : Annots} {left right : MType}
    (h : DistinctNames (.pair annots left right)) : DistinctNames right where
  nodup := h.nodup.sublist ((List.sublist_append_right _ _).trans (List.sublist_append_right _ _))
  not_number x hx := h.not_number x (List.mem_append_right _ (List.mem_append_right _ hx))

theorem DistinctNames.plain {annots : Annots} {left right : MType}
    (h : DistinctNames (.pair annots left right)) : DistinctNames (.pair none left right) where
  nodup := h.nodup.sublist (List.sublist_append_right _ _)
  not_number x hx := h.not_number x (List.mem_append_right _ hx)

/-- The names of a pair and of an `or` are the same. -/
theorem DistinctNames.ofOr {annots : Annots} {left right : MType}
    (h : DistinctNames (.or annots left right)) : DistinctNames (.pair annots left right) :=
  ⟨h.nodup, h.not_number⟩

theorem DistinctNames.nodup_slots {t : MType} (h : t.DistinctNames) (idx n : ℕ) :
    ((t.slots n).map (slotLabel idx)).Nodup ↔ (positions (t.slots n)).Nodup :=
  nodup_slotLabels idx (h.nodup.sublist (names_slots_sublist t n))
    fun x hx => h.not_number x ((names_slots_sublist t n).subset hx)

/-- The positions of leaves follow one another. -/
theorem leafSlots_bounds (t : MType) : ∀ n : ℕ, ∀ s ∈ t.leafSlots n,
    n ≤ s.2 ∧ s.2 < n + t.leafCount := by
  induction t using inductLeaves with
  | leaf t ht =>
    intro n s hs
    rw [leafSlots_of_not_or ht, List.mem_singleton] at hs
    rw [hs, leafCount_of_not_or ht]
    exact ⟨le_rfl, Nat.lt_succ_self n⟩
  | or annots left right ihl ihr =>
    intro n s hs
    have hleft := left.leafCount_pos
    rw [leafSlots, List.mem_append] at hs
    rw [leafCount]
    obtain hs | hs := hs
    · have h := ihl n s hs
      omega
    · have h := ihr _ s hs
      omega

theorem mem_positions {slots : List (Option JSString × ℕ)} {n : ℕ} :
    n ∈ positions slots ↔ (none, n) ∈ slots := by
  rw [positions, List.mem_filterMap]
  constructor
  · rintro ⟨⟨name, k⟩, hmem, heq⟩
    cases name with
    | some x => cases heq
    | none =>
      have hk : k = n := Option.some.inj heq
      rwa [hk] at hmem
  · exact fun h => ⟨_, h, rfl⟩

theorem nodup_leafPositions (t : MType) : ∀ n : ℕ, (positions (t.leafSlots n)).Nodup := by
  induction t using inductLeaves with
  | leaf t ht =>
    intro n
    rw [leafSlots_of_not_or ht]
    cases nameOf t.annots
    · exact List.nodup_singleton n
    · exact List.nodup_nil
  | or annots left right ihl ihr =>
    intro n
    rw [leafSlots, positions, List.filterMap_append]
    refine List.nodup_append.mpr ⟨ihl n, ihr _, ?_⟩
    rintro a ha b hb rfl
    have hl := leafSlots_bounds left n _ (mem_positions.mp ha)
    have hr := leafSlots_bounds right _ _ (mem_positions.mp hb)
    omega

theorem WellNumbered.plainInside (t : MType) : ∀ n m : ℕ, t.WellNumbered n m → t.plainInside := by
  induction t with
  | or annots left right ihl ihr =>
    rintro n m ⟨⟨hl, hr⟩, -, hwl, hwr⟩
    rw [MType.plainInside, ihl _ _ hwl, ihr _ _ hwr]
    simp [hl, hr]
  | _ => exact fun _ _ _ => rfl

/-! ### The labels and counts of well numbered types -/

variable {host : Host}

/-- The labels of a type, and what is counted for it, as its shape determines them. -/
structure Regular (host : Host) (t : MType) : Prop where
  labels : ∀ idx, t.labels host idx = (t.slots 0).map (slotLabel idx)
  pairCount : ∀ idx, t.pairCount host idx = t.width
  leafLabels : ∀ idx, t.leafLabels host idx = (t.leafSlots 0).map (slotLabel idx)
  orCount : ∀ idx, t.orCount host idx = t.leafCount

theorem labels_single {t : MType} (h : t.isPlainPair = false) (idx : ℕ) :
    t.labels host idx = (t.slots 0).map (slotLabel idx) := by
  rw [labels_of_not_plain h, slots_of_not_plain h, annot_token, annot_eq]
  rfl

theorem leafLabels_single {t : MType} (h : t.isOr = false) (idx : ℕ) :
    t.leafLabels host idx = (t.leafSlots 0).map (slotLabel idx) := by
  rw [leafLabels_of_not_or h, leafSlots_of_not_or h, annot_token, annot_eq]
  rfl

theorem pairCount_of_not_pair {t : MType} (h : t.isPair = false) (idx : ℕ) :
    t.pairCount host idx = 1 := by
  have hk : (t.token host idx).kind ≠ .pair := by
    rw [Ne, kind_token_pair, h]
    exact Bool.false_ne_true
  exact if_neg hk

theorem Regular.labels_pair {left right : MType} (hl : Regular host left) (hr : Regular host right)
    (idx : ℕ) : (MType.pair none left right).labels host idx =
      ((MType.pair none left right).slots 0).map (slotLabel idx) := by
  rw [MType.labels_pair _ _ _ _ rfl, slots_pair _ _ _ _ rfl, List.map_append, hl.pairCount,
    hl.labels, hr.labels, Nat.zero_add]
  have h := slots_add right left.width 0
  rw [Nat.add_zero] at h
  rw [h, map_slotLabel_add]

theorem Regular.leafLabels_or {annots : Annots} {left right : MType} (hl : Regular host left)
    (hr : Regular host right) (idx : ℕ) : (MType.or annots left right).leafLabels host idx =
      ((MType.or annots left right).leafSlots 0).map (slotLabel idx) := by
  rw [MType.leafLabels_or, leafSlots, List.map_append, hl.orCount, hl.leafLabels, hr.leafLabels,
    Nat.zero_add]
  have h := leafSlots_add right left.leafCount 0
  rw [Nat.add_zero] at h
  rw [h, map_slotLabel_add]

theorem DistinctNames.nodup_leafLabels {annots : Annots} {left right : MType}
    (h : DistinctNames (.or annots left right)) (hl : Regular host left) (hr : Regular host right)
    (idx : ℕ) : ((MType.or annots left right).leafLabels host idx).Nodup := by
  rw [hl.leafLabels_or hr]
  exact (nodup_slotLabels idx (h.nodup.sublist (names_leafSlots_sublist _ 0))
    fun x hx => h.not_number x ((names_leafSlots_sublist _ 0).subset hx)).mpr
    (nodup_leafPositions _ 0)

/-- Keys that are those of a list without repetitions are as many. -/
theorem length_of_keys {fields : Fields} {labels : List JSString}
    (hkeys : (fields.map Prod.fst).Nodup) (hlabels : labels.Nodup)
    (h : ∀ k, k ∈ fields.map Prod.fst ↔ k ∈ labels) : fields.length = labels.length := by
  rw [← List.length_map (f := Prod.fst)]
  exact ((List.perm_ext_iff_of_nodup hkeys hlabels).mpr h).length_eq

theorem regular (t : MType) : ∀ n m : ℕ, t.WellNumbered n m → t.DistinctNames →
    Regular host t := by
  induction t with
  | pair annots left right ihl ihr =>
    rintro n m ⟨hpos, hwl, hwr⟩ hd
    have hl := ihl _ _ hwl hd.left
    have hr := ihr _ _ hwr hd.right
    refine ⟨fun idx => ?_, fun idx => ?_, leafLabels_single rfl, orCount_of_not_or rfl⟩
    · by_cases ha : hasAnnotations annots
      · exact labels_single (by rw [isPlainPair, ha]; rfl) idx
      · have hplain := hl.labels_pair hr idx
        rw [Bool.not_eq_true] at ha
        rw [MType.labels_pair _ _ _ _ rfl, slots_pair _ _ _ _ rfl] at hplain
        rw [MType.labels_pair _ _ _ _ ha, slots_pair _ _ _ _ ha, hplain]
    · obtain ⟨hnd, hkeys⟩ := @extractSchema_keys host annots left right idx
      have hlabels := (hd.plain.nodup_slots idx 0).mpr hpos
      rw [← hl.labels_pair hr idx] at hlabels
      have hlen := length_of_keys hnd hlabels hkeys
      rw [hl.labels_pair hr idx, List.length_map, length_slots] at hlen
      have hcount : (MType.pair annots left right).pairCount host idx =
        (objectKeys ((MType.pair annots left right).token host idx).ExtractSchema.fields).length :=
          rfl
      rw [hcount, length_objectKeys, hlen]
      rfl
  | or annots left right ihl ihr =>
    intro n m hw hd
    obtain ⟨-, -, hwl, hwr⟩ := id hw
    have hl := ihl _ _ hwl hd.ofOr.left
    have hr := ihr _ _ hwr hd.ofOr.right
    refine ⟨labels_single rfl, pairCount_of_not_pair rfl, hl.leafLabels_or hr, fun idx => ?_⟩
    have hin : (MType.or none left right).plainInside := hw.plainInside _ _ _
    obtain ⟨hnd, hkeys⟩ := @keys_schemaAlternative host Token.ExtractSchema
      (fun _ _ _ _ _ => rfl) (.or none left right) idx hin (by simp [isNamedOr, isPlainOr, hasAnnotations])
    have hlen := length_of_keys hnd (hd.nodup_leafLabels hl hr idx) hkeys
    rw [length_leafLabels] at hlen
    have hcount : (MType.or annots left right).orCount host idx =
      (objectKeys ((MType.or annots left right).token host idx).ExtractSchema.fields).length := rfl
    rw [hcount, length_objectKeys]
    exact hlen
  | _ => exact fun _ _ _ _ => ⟨labels_single rfl, pairCount_of_not_pair rfl, leafLabels_single rfl,
      orCount_of_not_or rfl⟩

end MType

/-! ## When labels agree -/

variable {host : Host}

open MType

theorem pairAgrees_of_nodup {annots : Annots} {left right : MType} {idx : ℕ}
    (h : ((MType.pair none left right).labels host idx).Nodup) :
    PairAgrees host annots left right idx where
  distinct := h
  execute val o ho := by
    obtain ⟨args, l, r, hargs, hl, hr, rfl⟩ := execute_pair_eq_ok.mp ho
    obtain ⟨parts, values, hsplit, -, hall, -, hfields⟩ := execute_components (.pair none left right)
      idx val _ h (execute_pair_eq_ok.mpr ⟨args, l, r, hargs, hl, hr, rfl⟩)
    rw [fields_component_plain _ _ _ rfl] at hfields
    exact ⟨parts, values, hsplit, hall, congrArg Val.object hfields⟩
  encodeObject values hlen := by
    have hzip : (((MType.pair none left right).labels host idx).zip values).map Prod.fst =
        (MType.pair none left right).labels host idx := by
      rw [List.map_fst_zip]
      rw [length_labels, hlen]
    have hc := @encodeObject_components host (.pair none left right) idx
      (((MType.pair none left right).labels host idx).zip values) values hlen fun x hx =>
        lookup_of_mem (by rw [hzip]; exact h) hx
    rwa [componentOf_eq_ok, Except.ok_bind] at hc
  extractSchema k hk := mem_objectKeys.mpr (((extractSchema_keys annots left right idx).2 k).mpr hk)
  generateSchema k hk := mem_objectKeys.mpr ((generateSchema_keys annots left right idx k).mpr hk)

/-- Signatures behind the labels of one tree are behind those of another exactly if the labels are
equal. -/
theorem signatures_eq_iff {xs ys : List Leaf} (hlen : xs.length = ys.length)
    (hne : ∀ y ∈ ys, y.token.ExtractSignature ≠ []) :
    (ys.flatMap fun y => y.token.ExtractSignature.map fun sig => .string y.token.annot :: sig) =
      ((xs.zip ys).flatMap fun x =>
        x.2.token.ExtractSignature.map fun sig => Val.string x.1.token.annot :: sig) ↔
      xs.map (fun x => x.token.annot) = ys.map fun y => y.token.annot := by
  induction xs generalizing ys with
  | nil =>
    rw [List.length_nil, eq_comm, List.length_eq_zero_iff] at hlen
    rw [hlen]
    exact iff_of_true rfl rfl
  | cons x xs ih =>
    cases ys with
    | nil => cases hlen
    | cons y ys =>
      rw [List.length_cons, List.length_cons, Nat.add_right_cancel_iff] at hlen
      rw [List.flatMap_cons, List.zip_cons_cons, List.flatMap_cons, List.map_cons, List.map_cons,
        List.cons.injEq, ← ih hlen fun z hz => hne z (List.mem_cons_of_mem _ hz)]
      constructor
      · intro h
        obtain ⟨hhead, htail⟩ := List.append_inj h (by rw [List.length_map, List.length_map])
        refine ⟨?_, htail⟩
        obtain ⟨sig, sigs, hsigs⟩ := List.exists_cons_of_ne_nil (hne y List.mem_cons_self)
        rw [hsigs, List.map_cons, List.map_cons, List.cons.injEq, List.cons.injEq] at hhead
        exact (Val.string.inj hhead.1.1).symm
      · rintro ⟨hlabel, htail⟩
        rw [htail, hlabel]

theorem extractSignature_ne_nil (t : MType) : ∀ idx : ℕ,
    (t.token host idx).ExtractSignature ≠ [] := by
  induction t with
  | pair annots left right ihl ihr =>
    intro idx
    have hdef : ((MType.pair annots left right).token host idx).ExtractSignature =
      (left.token host idx).ExtractSignature.flatMap fun leftSig =>
        (right.token host (idx + left.signatureCount host idx)).ExtractSignature.map
          fun rightSig => leftSig ++ rightSig := rfl
    obtain ⟨l, ls, hls⟩ := List.exists_cons_of_ne_nil (ihl idx)
    obtain ⟨r, rs, hrs⟩ := List.exists_cons_of_ne_nil (ihr (idx + left.signatureCount host idx))
    rw [hdef, hls, hrs]
    exact List.cons_ne_nil _ _
  | or annots left right ihl ihr =>
    intro idx
    have hdef : ((MType.or annots left right).token host idx).ExtractSignature =
      alternativeSignature (left.token host idx) ++
        alternativeSignature (right.token host (idx + left.orCount host idx)) := rfl
    have hleft : alternativeSignature (left.token host idx) ≠ [] := by
      rw [alternativeSignature]
      by_cases hk : (left.token host idx).kind = .or
      · rw [if_pos hk]
        exact ihl idx
      · rw [if_neg hk]
        exact fun h => ihl idx (List.map_eq_nil_iff.mp h)
    rw [hdef]
    exact List.append_ne_nil_of_left_ne_nil hleft _
  | option annots component ih =>
    intro idx
    exact List.append_ne_nil_of_right_ne_nil _ (List.cons_ne_nil _ _)
  | _ => exact fun _ => List.cons_ne_nil _ _

theorem leaves_signature_ne_nil (t : MType) : ∀ idx : ℕ, ∀ x ∈ t.leaves host idx,
    x.token.ExtractSignature ≠ [] := by
  induction t using inductLeaves with
  | leaf t ht =>
    intro idx x hx
    rw [leaves_of_not_or ht, List.mem_singleton] at hx
    rw [hx]
    exact extractSignature_ne_nil t idx
  | or annots left right ihl ihr =>
    intro idx x hx
    rw [leaves, List.mem_append, List.mem_map, List.mem_map] at hx
    obtain ⟨y, hy, rfl⟩ | ⟨y, hy, rfl⟩ := hx
    · exact ihl _ y hy
    · exact ihr _ y hy

/-- The signature of an `or` has the labels of the leaves at its own index. -/
theorem extractSignature_iff {annots : Annots} {left right : MType} {idx sigIdx : ℕ} :
    ((MType.or annots left right).token host sigIdx).ExtractSignature =
      (((MType.or annots left right).leaves host idx).zip
        ((MType.or annots left right).leaves host sigIdx)).flatMap (fun x =>
          x.2.token.ExtractSignature.map fun sig => .string x.1.token.annot :: sig) ↔
      (MType.or annots left right).leafLabels host idx =
        (MType.or annots left right).leafLabels host sigIdx := by
  have hdef : ((MType.or annots left right).token host sigIdx).ExtractSignature =
    alternativeSignature ((MType.or annots left right).token host sigIdx) := rfl
  have hlen : ((MType.or annots left right).leaves host idx).length =
      ((MType.or annots left right).leaves host sigIdx).length := by
    have h₁ := @length_leafLabels host (.or annots left right) idx
    have h₂ := @length_leafLabels host (.or annots left right) sigIdx
    rw [leafLabels, List.length_map] at h₁ h₂
    rw [h₁, h₂]
  rw [hdef, alternativeSignature_leaves]
  exact signatures_eq_iff hlen (leaves_signature_ne_nil _ _)

theorem orAgrees_of {annots : Annots} {left right : MType} {idx sigIdx : ℕ}
    (hnd : ((MType.or annots left right).leafLabels host idx).Nodup)
    (hin : (MType.or annots left right).plainInside)
    (hsig : (MType.or annots left right).leafLabels host idx =
      (MType.or annots left right).leafLabels host sigIdx) :
    OrAgrees host annots left right idx sigIdx where
  distinct := hnd
  execute x hx e := by
    have h := execute_leaf (.or annots left right) idx x hx e
    have halt : alternative ((MType.or annots left right).token host idx) = id := rfl
    rwa [halt, id_map] at h
  encodeObject _ hx v := encodeObject_leaf hnd hx v
  encode _ hx args := encode_leaf hnd hx args
  extractSignature := extractSignature_iff.mpr hsig
  extractSchema k hk := mem_objectKeys.mpr <|
    ((@keys_schemaAlternative _ Token.ExtractSchema (fun _ _ _ _ _ => rfl)
      (.or none left right) idx hin (by simp [isNamedOr, isPlainOr, hasAnnotations])).2 k).mpr hk
  generateSchema k hk := mem_objectKeys.mpr <|
    ((@keys_schemaAlternative _ innerAlternatives (fun _ _ _ _ hp => by
      rw [innerAlternatives, isPlainOr_token, isPlainOr, hp]; rfl)
      (.or none left right) idx hin (by simp [isNamedOr, isPlainOr, hasAnnotations])).2 k).mpr hk

/-- If the labels of the leaves are keys of the schema, no `or` directly inside is annotated: the
schema would have too few keys. -/
theorem not_isNamedOr_of_keys {annots : Annots} {left right : MType} {idx : ℕ}
    (hnd : ((MType.or annots left right).leafLabels host idx).Nodup)
    (hkeys : ∀ k ∈ (MType.or annots left right).leafLabels host idx,
      k ∈ objectKeys ((MType.or annots left right).token host idx).ExtractSchema.fields) :
    ¬ left.isNamedOr ∧ ¬ right.isNamedOr := by
  have hschema : ((MType.or annots left right).token host idx).ExtractSchema.fields =
    (OrToken.traversal (left.token host) (right.token host) idx Token.ExtractSchema).fields := rfl
  have hle := (hnd.subperm fun k hk => mem_objectKeys.mp (hkeys k hk)).length_le
  rw [length_leafLabels, List.length_map, hschema, OrToken.traversal, Val.fields, leafCount] at hle
  have hbound := @length_schemaAlternative_le host Token.ExtractSchema
    (fun _ _ _ _ _ => rfl)
  have hone (t : MType) (ht : t.isNamedOr) (i : ℕ) :
      (schemaAlternative Token.ExtractSchema (t.token host i)).fields.length = 1 ∧
        2 ≤ t.leafCount := by
    simp only [isNamedOr, Bool.and_eq_true, Bool.not_eq_true'] at ht
    refine ⟨by rw [fields_schemaAlternative_of_not_plain ht.2]; rfl, ?_⟩
    cases t with
    | or a l r => exact Nat.add_le_add l.leafCount_pos r.leafCount_pos
    | _ => cases ht.1
  have hspread := (length_spread_le _ _).trans' hle
  constructor
  · intro h
    obtain ⟨h₁, h₂⟩ := hone left h idx
    have h₃ := hbound right
      (idx + if (left.token host idx).isPlainOr then (left.token host idx).keyCount else 1)
    omega
  · intro h
    obtain ⟨h₁, h₂⟩ := hone right h
      (idx + if (left.token host idx).isPlainOr then (left.token host idx).keyCount else 1)
    have h₃ := hbound left idx
    omega

/-- Two counts give the leaves of an `or` the same labels only if every leaf has a name. -/
theorem map_slotLabel_eq_iff {slots : List (Option JSString × ℕ)} {n m : ℕ} :
    slots.map (slotLabel n) = slots.map (slotLabel m) ↔ n = m ∨ positions slots = [] := by
  rw [List.map_inj_left]
  constructor
  · intro h
    by_cases hpos : positions slots = []
    · exact Or.inr hpos
    · obtain ⟨k, ks, hks⟩ := List.exists_cons_of_ne_nil hpos
      have hk : k ∈ positions slots := by
        rw [hks]
        exact List.mem_cons_self
      have heq := BigNumber.natText_injective (h _ (mem_positions.mp hk))
      exact Or.inl (Nat.add_right_cancel heq)
  · rintro (rfl | hpos) ⟨name, k⟩ hs
    · rfl
    · cases name with
      | some x => rfl
      | none =>
        have hk := mem_positions.mpr hs
        rw [hpos] at hk
        cases hk

/-- The labels of a tree agree at two indices exactly if it is well numbered from there. -/
theorem labelsAgree_iff_wellNumbered (t : MType) : ∀ idx sigIdx : ℕ, t.DistinctNames →
    (LabelsAgree host t idx sigIdx ↔ t.WellNumbered idx sigIdx) := by
  induction t with
  | pair annots left right ihl ihr =>
    intro idx sigIdx hd
    rw [LabelsAgree, WellNumbered, ihl _ _ hd.left]
    have hsig : left.signatureCount host sigIdx = left.orCount host sigIdx := rfl
    constructor
    · rintro ⟨hp, hwl, hr⟩
      have hrl := @regular host left _ _ hwl hd.left
      rw [hrl.pairCount, hsig, hrl.orCount, ihr _ _ hd.right] at hr
      have hrr := @regular host right _ _ hr hd.right
      have hlabels := hp.distinct
      rw [hrl.labels_pair hrr] at hlabels
      exact ⟨(hd.plain.nodup_slots idx 0).mp hlabels, hwl, hr⟩
    · rintro ⟨hpos, hwl, hwr⟩
      have hrl := @regular host left _ _ hwl hd.left
      have hrr := @regular host right _ _ hwr hd.right
      rw [hrl.pairCount, hsig, hrl.orCount, ihr _ _ hd.right]
      refine ⟨pairAgrees_of_nodup ?_, hwl, hwr⟩
      rw [hrl.labels_pair hrr]
      exact (hd.plain.nodup_slots idx 0).mpr hpos
  | or annots left right ihl ihr =>
    intro idx sigIdx hd
    rw [LabelsAgree, ihl _ _ hd.ofOr.left]
    constructor
    · rintro ⟨ho, hwl, hr⟩
      have hrl := @regular host left _ _ hwl hd.ofOr.left
      rw [hrl.orCount, hrl.orCount, ihr _ _ hd.ofOr.right] at hr
      have hrr := @regular host right _ _ hr hd.ofOr.right
      have hsig := extractSignature_iff.mp ho.extractSignature
      rw [hrl.leafLabels_or hrr, hrl.leafLabels_or hrr, map_slotLabel_eq_iff] at hsig
      exact ⟨not_isNamedOr_of_keys ho.distinct ho.extractSchema, hsig, hwl, hr⟩
    · intro hw
      obtain ⟨-, hsig, hwl, hwr⟩ := id hw
      have hrl := @regular host left _ _ hwl hd.ofOr.left
      have hrr := @regular host right _ _ hwr hd.ofOr.right
      rw [hrl.orCount, hrl.orCount, ihr _ _ hd.ofOr.right]
      refine ⟨orAgrees_of (hd.nodup_leafLabels hrl hrr idx) (hw.plainInside _ _ _) ?_, hwl, hwr⟩
      rw [hrl.leafLabels_or hrr, hrl.leafLabels_or hrr, map_slotLabel_eq_iff]
      exact hsig
  | _ => exact fun _ _ _ => Iff.rfl

/-- Only the difference of the two counts matters. -/
theorem wellNumbered_add (t : MType) : ∀ n m k : ℕ,
    t.WellNumbered (n + k) (m + k) ↔ t.WellNumbered n m := by
  induction t with
  | pair annots left right ihl ihr =>
    intro n m k
    rw [WellNumbered, WellNumbered, ihl, Nat.add_right_comm n, Nat.add_right_comm m, ihr]
  | or annots left right ihl ihr =>
    intro n m k
    rw [WellNumbered, WellNumbered, ihl, Nat.add_right_comm n, Nat.add_right_comm m, ihr,
      Nat.add_left_inj]
  | _ => exact fun _ _ _ => Iff.rfl

/-- **The labels of a tree of pairs and `or`s with distinct annotations agree exactly if it is well
numbered.** -/
theorem labelsAgree_iff (host : Host) (t : MType) (h : t.DistinctNames) (idx : ℕ) :
    LabelsAgree host t idx idx ↔ t.WellNumbered 0 0 := by
  rw [labelsAgree_iff_wellNumbered t idx idx h]
  have hadd := wellNumbered_add t 0 0 idx
  rwa [Nat.zero_add] at hadd

/-- A text that is no decimal numeral is no number. -/
theorem ne_natText {x : JSString} (h : decimalValue x = none) (n : ℕ) : x ≠ natText n := by
  rintro rfl
  rw [decimalValue_natText] at h
  cases h

/-- An annotated `or` in a pair. -/
def orInPair : MType :=
  .pair none (.base none .nat) (.or (some [js "%x"]) (.base none .nat) (.base none .nat))

theorem labelsAgree_orInPair : LabelsAgree .decimal orInPair 0 0 :=
  (labelsAgree_iff .decimal orInPair ⟨by decide, fun x hx => by
    have hx' : x = js "x" := List.mem_singleton.mp hx
    rw [hx']
    exact ne_natText (by decide)⟩ 0).mpr
    ⟨by decide, trivial, ⟨by decide, by decide⟩, Or.inl rfl, trivial, trivial⟩

/-- A pair of two components, the left of which is an annotated pair. -/
def innerPair : MType :=
  .pair none (.pair (some [js "%x"]) (.base none .nat) (.base none .nat)) (.base none .nat)

/-- The same as the left component of a pair. -/
def nestedPair : MType := .pair none innerPair (.base none .nat)

/-- The second and the third component of the object are both put under the label `2`. -/
theorem labels_nestedPair : nestedPair.DistinctNames ∧
    nestedPair.labels .decimal 0 = [js "x", js "2", js "2"] ∧
    ¬ LabelsAgree .decimal nestedPair 0 0 := by
  have hnames : nestedPair.DistinctNames := by
    refine ⟨by decide, fun x hx => ?_⟩
    have hx' : x = js "x" := List.mem_singleton.mp hx
    rw [hx']
    exact ne_natText (by decide)
  have hinner : Regular .decimal innerPair := regular innerPair 0 0
    ⟨by decide, ⟨by decide, trivial, trivial⟩, trivial⟩ hnames.left
  have hright : Regular .decimal (.base none .nat) := regular _ 0 0 trivial hnames.right
  have hlabels : nestedPair.labels .decimal 0 = [js "x", js "2", js "2"] := by
    rw [nestedPair, hinner.labels_pair hright]
    decide
  refine ⟨hnames, hlabels, fun h => ?_⟩
  have hnd := h.1.distinct
  rw [nestedPair] at hlabels
  rw [hlabels] at hnd
  exact absurd hnd (by decide)

end MichelsonEncoder
