import Taquito.MichelsonEncoder.Labels

/-!
# A root annotation of a storage

The annotation of the root of a storage type names no part of the storage. `Schema` drops what an
older decoder put under that name by looking at the object that it has decoded: if the root is an
annotated pair or `or` and the object has one key, its only value is returned. A pair of two
different labels has more keys, but what an `or` decodes to always has one key, the label of the
alternative.
-/

open Js

namespace MichelsonEncoder

/-- A type with a field annotation put on its root. -/
def annotateRoot (name : JSString) : Expr → Expr
  | .prim p args annots => .prim p args (some (name :: annots.getD []))
  | .seq items => .prim "pair" (some items) (some [name])
  | e => e

section

variable (host : Host) (others : String → Option (List Expr) → Option (ℕ → Token))
  (same : Encoded → Expr → Prop)

/-- `Encode` undoes `Execute` at a value, up to `same`. -/
def Undoes (type val : Expr) : Prop :=
  ∃ obj encoded, Schema.Execute others host type val = .ok obj ∧
    Schema.Encode others host type obj = .ok encoded ∧ same encoded val

/-- A schema says the same of a value with another type in place of its own. -/
structure Transparent (type type' val : Expr) : Prop where
  execute : Schema.Execute others host type' val = Schema.Execute others host type val
  extractSchema : Schema.ExtractSchema others host type' = Schema.ExtractSchema others host type
  generateSchema : Schema.generateSchema others host type' = Schema.generateSchema others host type
  undoes : Undoes host others same type val → Undoes host others same type' val

end

namespace MType

/-- A pair or an `or`. -/
def HasComponents (t : MType) : Prop := t.isPair = true ∨ t.isOr = true

/-- The type with other annotations, if it is a pair or an `or`. -/
def withRoot (annots : Annots) : MType → MType
  | .pair _ left right => .pair annots left right
  | .or _ left right => .or annots left right
  | t => t

/-- The labels of the components of a pair, whatever its own annotations are. -/
def rootLabels (host : Host) : MType → List JSString
  | .pair _ left right => (MType.pair none left right).labels host 0
  | _ => []

/-- Two components have different labels. -/
def Labelled (host : Host) (t : MType) : Prop :=
  ∃ a ∈ t.rootLabels host, ∃ b ∈ t.rootLabels host, a ≠ b

variable {host : Host}

/-! ## Keys -/

/-- The keys of what `Execute` builds for a component are the labels. -/
theorem execute_keys (t : MType) : ∀ (idx : ℕ) (val : Option Expr) (v : Val),
    (t.token host idx).Execute val = .ok v →
    ((component (t.token host idx) v).fields.map Prod.fst).Nodup ∧
      ∀ k, k ∈ (component (t.token host idx) v).fields.map Prod.fst ↔ k ∈ t.labels host idx := by
  induction t using inductComponents with
  | single t ht =>
    intro idx val v h
    rw [fields_component_of_not_plain ht, labels_of_not_plain ht]
    exact ⟨List.nodup_singleton _, fun k => Iff.rfl⟩
  | pair annots left right hp ihl ihr =>
    intro idx val v h
    obtain ⟨args, l, r, hargs, hl, hr, rfl⟩ := execute_pair_eq_ok.mp h
    rw [fields_component_plain _ _ _ hp]
    refine ⟨nodup_keys_spread (ihl _ _ _ hl).1 _, fun k => ?_⟩
    rw [Val.fields, mem_keys_spread, (ihl _ _ _ hl).2, (ihr _ _ _ hr).2, labels_pair _ _ _ _ hp,
      List.mem_append]

/-- What an `or` decodes to has one key. -/
theorem execute_or (t : MType) : ∀ (idx : ℕ) (val : Option Expr) (v : Val),
    (t.token host idx).Execute val = .ok v →
    ∃ field, alternative (t.token host idx) v = .object [field] := by
  induction t using inductLeaves with
  | leaf t ht =>
    intro idx val v h
    have hkind : (t.token host idx).kind ≠ .or := fun hkind => by
      rw [kind_token_or, ht] at hkind
      exact Bool.false_ne_true hkind
    exact ⟨((t.token host idx).annot, v), if_neg hkind⟩
  | or annots left right ihl ihr =>
    intro idx val v h
    have hdef : ((MType.or annots left right).token host idx).Execute val =
      OrToken.Execute (left.token host) (right.token host) idx val := rfl
    have halt : alternative ((MType.or annots left right).token host idx) v = v := rfl
    rw [halt]
    rw [hdef, OrToken.Execute] at h
    obtain _ | e := val
    · cases h
    cases e with
    | prim p args _ =>
      dsimp only [OrToken.tokens] at h
      by_cases hright : p = "Right"
      · rw [if_pos hright] at h
        obtain ⟨args, -, h⟩ := Except.bind_eq_ok.mp h
        obtain ⟨r, hr, h⟩ := Except.bind_eq_ok.mp h
        rw [Except.pure_eq_ok, Except.ok.injEq] at h
        rw [← h]
        exact ihr _ _ _ hr
      · by_cases hleft : p = "Left"
        · rw [if_neg hright, if_pos hleft] at h
          obtain ⟨args, -, h⟩ := Except.bind_eq_ok.mp h
          obtain ⟨l, hl, h⟩ := Except.bind_eq_ok.mp h
          rw [Except.pure_eq_ok, Except.ok.injEq] at h
          rw [← h]
          exact ihl _ _ _ hl
        · rw [if_neg hright, if_neg hleft] at h
          cases h
    | _ => cases h

theorem execute_or_eq_ok {annots : Annots} {left right : MType} {val : Option Expr} {v : Val}
    (h : ((MType.or annots left right).token host 0).Execute val = .ok v) :
    ∃ field, v = .object [field] :=
  execute_or (.or annots left right) 0 val v h

/-- Fields with different keys are all the same one exactly when there is one. -/
theorem one_field_iff {fields : Fields} {labels : List JSString} (hne : labels ≠ [])
    (hnd : (fields.map Prod.fst).Nodup) (hkeys : ∀ k, k ∈ fields.map Prod.fst ↔ k ∈ labels) :
    (∃ field, fields = [field]) ↔ ¬ ∃ a ∈ labels, ∃ b ∈ labels, a ≠ b := by
  constructor
  · rintro ⟨field, rfl⟩ ⟨a, ha, b, hb, hab⟩
    rw [← hkeys, List.map_singleton, List.mem_singleton] at ha hb
    exact hab (ha.trans hb.symm)
  · intro hsame
    match fields, hnd, hkeys with
    | [], _, hkeys =>
      obtain ⟨a, ha⟩ := List.exists_mem_of_ne_nil labels hne
      exact absurd ((hkeys a).mpr ha) List.not_mem_nil
    | [field], _, _ => exact ⟨field, rfl⟩
    | x :: y :: rest, hnd, hkeys =>
      have hx : x.1 ∈ labels := (hkeys _).mp List.mem_cons_self
      have hy : y.1 ∈ labels := (hkeys _).mp (List.mem_cons_of_mem _ List.mem_cons_self)
      have hxy : x.1 ≠ y.1 := fun heq => by
        rw [List.map_cons, List.map_cons, heq] at hnd
        exact (List.nodup_cons.mp hnd).1 List.mem_cons_self
      exact absurd ⟨x.1, hx, y.1, hy, hxy⟩ hsame

theorem labels_ne_nil (t : MType) : ∀ idx : ℕ, t.labels host idx ≠ [] := by
  induction t using inductComponents with
  | single t ht =>
    intro idx
    rw [labels_of_not_plain ht]
    exact List.cons_ne_nil _ _
  | pair annots left right hp ihl _ =>
    intro idx
    rw [labels_pair _ _ _ _ hp]
    exact List.append_ne_nil_of_left_ne_nil (ihl idx) _

/-! ## What is dropped -/

/-- A value is no member of itself. -/
theorem ne_object_self (k : JSString) (v : Val) : v ≠ .object [(k, v)] := by
  intro h
  have hsize := congrArg sizeOf h
  simp only [Val.object.sizeOf_spec, List.cons.sizeOf_spec, Prod.mk.sizeOf_spec] at hsize
  omega

/-- Under an annotation exactly the objects with one field are replaced. -/
theorem removeTopLevelAnnotation_eq_iff {root : Token} (hkind : root.kind = .pair ∨ root.kind = .or)
    (hannots : root.hasAnnotations = true) (fields : Fields) :
    removeTopLevelAnnotation root (.object fields) = .object fields ↔ ¬ ∃ field, fields = [field] := by
  unfold removeTopLevelAnnotation
  rw [if_pos ⟨hkind, hannots⟩]
  match fields with
  | [] => exact iff_of_true rfl fun ⟨_, h⟩ => List.cons_ne_nil _ _ h.symm
  | [(k, v)] => exact iff_of_false (ne_object_self k v) fun h => h ⟨_, rfl⟩
  | x :: y :: rest =>
    refine iff_of_true rfl ?_
    rintro ⟨field, h⟩
    exact List.cons_ne_nil _ _ (List.tail_eq_of_cons_eq h)

theorem removeTopLevelAnnotation_of_not {root : Token} (hannots : root.hasAnnotations = false)
    (obj : Val) : removeTopLevelAnnotation root obj = obj := by
  unfold removeTopLevelAnnotation
  rw [if_neg]
  rintro ⟨-, h⟩
  rw [hannots] at h
  exact Bool.false_ne_true h

/-! ## The two types -/

section

variable {others : String → Option (List Expr) → Option (ℕ → Token)}

/-- The annotations of a pair are those of its root only. -/
theorem createPair_withRoot (annots annots' : Annots) (items : List Expr) :
    createPair others annots' items = (createPair others annots items).map (withRoot annots') := by
  match items with
  | [] | [_] => rfl
  | [left, right] =>
    rw [createPair, createPair]
    cases createToken others left with
    | none => rfl
    | some l => cases createToken others right <;> rfl
  | left :: second :: third :: args =>
    have hsplit : ∀ annots, createPair others annots (left :: second :: third :: args) =
        (createToken others left).bind fun l =>
          (createPair others none (second :: third :: args)).bind fun r =>
            some (.pair annots l r) := fun _ => rfl
    rw [hsplit, hsplit]
    cases createToken others left with
    | none => rfl
    | some l => cases createPair others none (second :: third :: args) <;> rfl

theorem componentType_or_withRoot (annots annots' : Annots) (ts : List MType) :
    componentType "or" annots' ts = (componentType "or" annots ts).map (withRoot annots') := by
  match ts with
  | [] | [_] | [_, _] | _ :: _ :: _ :: _ => rfl

theorem or_of_componentType {p : String} {annots : Annots} {ts : List MType} {t : MType}
    (h : componentType p annots ts = some t) (ht : t.HasComponents) : p = "or" := by
  match ts with
  | [] | _ :: _ :: _ :: _ => cases h
  | [u] =>
    unfold componentType at h
    split_ifs at h
    all_goals
      cases h
      rcases ht with ht | ht <;> exact absurd ht Bool.false_ne_true
  | [u, v] =>
    by_contra hp
    unfold componentType at h
    dsimp only at h
    rw [if_neg hp] at h
    split_ifs at h
    all_goals
      cases h
      rcases ht with ht | ht <;> exact absurd ht Bool.false_ne_true

/-- `createToken` of an expression with other annotations. -/
theorem createToken_withAnnots {p : String} {args : Option (List Expr)} {annots : Annots} {t : MType}
    (h : createToken others (.prim p args annots) = some t) (ht : t.HasComponents)
    (annots' : Annots) :
    createToken others (.prim p args annots') = some (t.withRoot annots') := by
  have hleaf : ∀ args', ((BaseType.ofPrim p).map (.base annots)).or
      ((others p args').map (.other annots)) ≠ some t := by
    intro args' hsome
    rcases Option.or_eq_some_iff.mp hsome with hbase | ⟨-, hother⟩
    · obtain ⟨b, -, rfl⟩ := Option.map_eq_some_iff.mp hbase
      rcases ht with ht | ht <;> exact absurd ht Bool.false_ne_true
    · obtain ⟨methods, -, rfl⟩ := Option.map_eq_some_iff.mp hother
      rcases ht with ht | ht <;> exact absurd ht Bool.false_ne_true
  match args with
  | none => exact absurd h (hleaf none)
  | some args =>
    rw [createToken] at h ⊢
    by_cases hpair : p = "pair"
    · rw [if_pos hpair] at h ⊢
      rw [createPair_withRoot annots, h]
      rfl
    · rw [if_neg hpair] at h ⊢
      by_cases hmem : p ∈ ["or", "option", "list", "set", "map", "big_map", "contract"]
      · rw [if_pos hmem] at h ⊢
        obtain ⟨ts, hts, h⟩ := Option.bind_eq_some_iff.mp h
        have hor := or_of_componentType h ht
        rw [hor] at h ⊢
        rw [hts, Option.bind_some, componentType_or_withRoot annots, h]
        rfl
      · rw [if_neg hmem] at h
        exact absurd h (hleaf (some args))

/-- `createToken` of a type with a field annotation put on its root. -/
theorem createToken_annotateRoot {type : Expr} {t : MType} (h : createToken others type = some t)
    (ht : t.HasComponents) (name : JSString) :
    ∃ annots, createToken others (annotateRoot name type) = some (t.withRoot (some (name :: annots))) := by
  match type with
  | .int _ | .string _ | .bytes _ => cases h
  | .seq items =>
    refine ⟨[], ?_⟩
    rw [createToken] at h
    rw [annotateRoot, createToken, if_pos rfl, createPair_withRoot none, h]
    rfl
  | .prim p args annots => exact ⟨annots.getD [], createToken_withAnnots h ht _⟩

/-! ## Transparency -/

theorem kind_of_hasComponents {t : MType} (ht : t.HasComponents) (idx : ℕ) :
    (t.token host idx).kind = .pair ∨ (t.token host idx).kind = .or :=
  ht.imp (kind_token_pair t idx).mpr (kind_token_or t idx).mpr

/-- Only the label of a token depends on the annotations of the root. -/
theorem token_withRoot {t : MType} (ht : t.HasComponents) (annots : Annots) (idx : ℕ) :
    (t.withRoot annots).token host idx =
      { t.token host idx with
        annot := annot annots idx
        hasAnnotations := MichelsonEncoder.hasAnnotations annots } := by
  match t with
  | .pair _ _ _ | .or _ _ _ => rfl
  | .option _ _ | .list _ _ | .set _ _ | .map _ _ _ | .bigMap _ _ _ | .contract _ _ | .base _ _
  | .other _ _ => rcases ht with ht | ht <;> exact absurd ht Bool.false_ne_true

/-- What a root decodes to is an object, of one field unless the labels differ. -/
theorem execute_fields {t : MType} (ht : t.HasComponents) {val : Option Expr} {obj : Val}
    (h : (t.token host 0).Execute val = .ok obj) :
    ∃ fields, obj = .object fields ∧ ((∃ field, fields = [field]) ↔ ¬ t.Labelled host) := by
  match t with
  | .pair annots left right =>
    have hexecute : ((MType.pair none left right).token host 0).Execute val = .ok obj := h
    obtain ⟨hnd, hkeys⟩ := execute_keys (.pair none left right) 0 val obj hexecute
    rw [fields_component_plain _ _ _ rfl] at hnd hkeys
    obtain ⟨args, l, r, -, -, -, rfl⟩ := execute_pair_eq_ok.mp h
    exact ⟨_, rfl, one_field_iff (labels_ne_nil _ 0) hnd hkeys⟩
  | .or annots left right =>
    obtain ⟨field, rfl⟩ := execute_or_eq_ok h
    refine ⟨[field], rfl, iff_of_true ⟨field, rfl⟩ ?_⟩
    rintro ⟨a, ha, -⟩
    exact absurd ha List.not_mem_nil
  | .option _ _ | .list _ _ | .set _ _ | .map _ _ _ | .bigMap _ _ _ | .contract _ _ | .base _ _
  | .other _ _ => rcases ht with ht | ht <;> exact absurd ht Bool.false_ne_true

/-- The schema of a pair of different labels has more than one field. -/
theorem extractSchema_fields {annots : Annots} {left right : MType}
    (h : (MType.pair annots left right).Labelled host) :
    ∃ fields, ((MType.pair annots left right).token host 0).ExtractSchema = .object fields ∧
      ¬ ∃ field, fields = [field] := by
  obtain ⟨hnd, hkeys⟩ := @extractSchema_keys host annots left right 0
  have hone := one_field_iff (labels_ne_nil (.pair none left right) 0) hnd hkeys
  exact ⟨_, rfl, fun hfield => hone.mp hfield h⟩

end

end MType

section

variable {host : Host} {others : String → Option (List Expr) → Option (ℕ → Token)}
  {same : Encoded → Expr → Prop}

/-- What the schemas of a type make of its token. -/
theorem Schema.execute_eq {type val : Expr} {t : MType} {obj : Val}
    (htype : createToken others type = some t) (hval : (t.token host 0).Execute (some val) = .ok obj) :
    Schema.Execute others host type val = .ok ( removeTopLevelAnnotation (t.token host 0) obj) := by
  rw [Schema.Execute, htype]
  dsimp only
  rw [hval]
  rfl

theorem Schema.extractSchema_eq {type : Expr} {t : MType} (htype : createToken others type = some t) :
    Schema.ExtractSchema others host type =
      .ok ( removeTopLevelAnnotation (t.token host 0) (t.token host 0).ExtractSchema) := by
  rw [Schema.ExtractSchema, htype]

theorem Schema.generateSchema_eq {type : Expr} {t : MType} (htype : createToken others type = some t) :
    Schema.generateSchema others host type =
      .ok ( removeTopLevelAnnotation (t.token host 0) (t.token host 0).generateSchema) := by
  rw [Schema.generateSchema, htype]

/-- `Encode` looks at `EncodeObject` of the root only. -/
theorem Schema.encode_congr {type type' : Expr} {t t' : MType}
    (htype : createToken others type = some t) (htype' : createToken others type' = some t')
    (h : (t'.token host 0).EncodeObject = (t.token host 0).EncodeObject) (value : Val) :
    Schema.Encode others host type' value = Schema.Encode others host type value := by
  rw [Schema.Encode, Schema.Encode, htype, htype']
  dsimp only
  rw [h]

/-- `generateSchema` of a pair or an `or` has two fields. -/
theorem MType.generateSchema_fields {t : MType} (ht : t.HasComponents) :
    ∃ x y, (t.token host 0).generateSchema = .object [x, y] := by
  match t with
  | .pair _ _ _ | .or _ _ _ => exact ⟨_, _, rfl⟩
  | .option _ _ | .list _ _ | .set _ _ | .map _ _ _ | .bigMap _ _ _ | .contract _ _ | .base _ _
  | .other _ _ => rcases ht with ht | ht <;> exact absurd ht Bool.false_ne_true

theorem MType.hasAnnotations_token {t : MType} (ht : t.HasComponents) :
    (t.token host 0).hasAnnotations = hasAnnotations t.annots := by
  match t with
  | .pair _ _ _ | .or _ _ _ => rfl
  | .option _ _ | .list _ _ | .set _ _ | .map _ _ _ | .bigMap _ _ _ | .contract _ _ | .base _ _
  | .other _ _ => rcases ht with ht | ht <;> exact absurd ht Bool.false_ne_true

/-- Only the pairs have labels of their own. -/
theorem MType.Labelled.exists_pair {t : MType} (h : t.Labelled host) :
    ∃ annots left right, t = .pair annots left right := by
  obtain ⟨a, ha, -⟩ := h
  match t, ha with
  | .pair annots left right, _ => exact ⟨annots, left, right, rfl⟩

/-- **A root annotation is transparent for the pairs of two different labels, and no `or`.** -/
theorem transparent_iff {type val : Expr} {t : MType} {obj : Val} {name : JSString}
    (htype : createToken others type = some t) (ht : t.HasComponents)
    (hval : (t.token host 0).Execute (some val) = .ok obj) :
    Transparent host others same type (annotateRoot name type) val ↔
      hasAnnotations t.annots = true ∨ t.Labelled host := by
  obtain ⟨annots, htype'⟩ := MType.createToken_annotateRoot htype ht name
  obtain ⟨fields, rfl, hfields⟩ := MType.execute_fields ht hval
  have hroot := @MType.token_withRoot host t ht (some (name :: annots)) 0
  generalize ht' : t.withRoot (some (name :: annots)) = t' at htype' hroot
  have hkind : (t'.token host 0).kind = (t.token host 0).kind := by rw [hroot]
  have hannotated : (t'.token host 0).hasAnnotations = true := by rw [hroot]; rfl
  have hval' : (t'.token host 0).Execute (some val) = .ok (.object fields) := by rw [hroot]; exact hval
  have hextract : (t'.token host 0).ExtractSchema = (t.token host 0).ExtractSchema := by rw [hroot]
  have hgenerate : (t'.token host 0).generateSchema = (t.token host 0).generateSchema := by
    rw [hroot]
  have hencode : (t'.token host 0).EncodeObject = (t.token host 0).EncodeObject := by rw [hroot]
  have hkept := fun fields => MType.removeTopLevelAnnotation_eq_iff
    (hkind.symm ▸ MType.kind_of_hasComponents ht 0) hannotated fields
  have hundoes : Schema.Execute others host (annotateRoot name type) val =
      Schema.Execute others host type val → Undoes host others same type val →
        Undoes host others same (annotateRoot name type) val := by
    rintro hexecute ⟨obj, encoded, hobj, hencoded, hsame⟩
    exact ⟨obj, encoded, hexecute.trans hobj,
      (Schema.encode_congr htype htype' hencode obj).trans hencoded, hsame⟩
  by_cases hown : hasAnnotations t.annots = true
  · -- both types are annotated, and the object is treated alike
    have hboth : ∀ obj, removeTopLevelAnnotation (t'.token host 0) obj =
        removeTopLevelAnnotation (t.token host 0) obj := by
      intro obj
      unfold removeTopLevelAnnotation
      rw [hkind, hannotated, MType.hasAnnotations_token ht, hown]
    have hexecute : Schema.Execute others host (annotateRoot name type) val =
        Schema.Execute others host type val := by
      rw [Schema.execute_eq htype' hval', Schema.execute_eq htype hval, hboth]
    refine iff_of_true ⟨hexecute, ?_, ?_, hundoes hexecute⟩ (.inl hown)
    · rw [Schema.extractSchema_eq htype', Schema.extractSchema_eq htype, hboth, hextract]
    · rw [Schema.generateSchema_eq htype', Schema.generateSchema_eq htype, hboth, hgenerate]
  · -- nothing is dropped for the type itself
    have hnone : ∀ obj, removeTopLevelAnnotation (t.token host 0) obj = obj :=
      MType.removeTopLevelAnnotation_of_not (by
        rw [MType.hasAnnotations_token ht]
        exact Bool.not_eq_true _ ▸ hown)
    rw [or_iff_right hown]
    constructor
    · intro htransparent
      have hexecute := htransparent.execute
      rw [Schema.execute_eq htype' hval', Schema.execute_eq htype hval, hnone, Except.ok.injEq,
        hkept, hfields, not_not] at hexecute
      exact hexecute
    · intro hlabelled
      have hexecute : Schema.Execute others host (annotateRoot name type) val =
          Schema.Execute others host type val := by
        rw [Schema.execute_eq htype' hval', Schema.execute_eq htype hval, hnone, Except.ok.injEq,
          hkept, hfields, not_not]
        exact hlabelled
      refine ⟨hexecute, ?_, ?_, hundoes hexecute⟩
      · obtain ⟨a, left, right, rfl⟩ := hlabelled.exists_pair
        obtain ⟨schema, hschema, hmany⟩ := MType.extractSchema_fields hlabelled
        rw [Schema.extractSchema_eq htype', Schema.extractSchema_eq htype, hnone, hextract, hschema,
          Except.ok.injEq, hkept]
        exact hmany
      · obtain ⟨x, y, hschema⟩ := @MType.generateSchema_fields host t ht
        rw [Schema.generateSchema_eq htype', Schema.generateSchema_eq htype, hnone, hgenerate,
          hschema, Except.ok.injEq, hkept]
        rintro ⟨field, h⟩
        exact List.cons_ne_nil _ _ (List.tail_eq_of_cons_eq h)

end

/-- `Encode` gives a value back as it was. -/
def IsEncoded (encoded : Encoded) (val : Expr) : Prop := encoded = Encoded.ofExpr val

/-- A flag. -/
def flag (name : Annots) : Expr := .prim "bool" none name

/-- A pair of flags has the labels `0` and `1`. -/
theorem transparent_flags :
    Transparent .decimal (fun _ _ => none) IsEncoded (.prim "pair" (some [flag none, flag none]) none)
      (annotateRoot (js "%storage") (.prim "pair" (some [flag none, flag none]) none))
      (.prim "Pair" (some [.prim "True" none none, .prim "False" none none]) none) :=
  (@transparent_iff .decimal (fun _ _ => none) IsEncoded _ _ (.pair none (.base none .bool) (.base none .bool)) _ _
    rfl (.inl rfl) rfl).mpr
    (.inr ⟨js "0", by decide, js "1", by decide, by decide⟩)

/-- The label of an alternative is dropped under an annotation. -/
theorem not_transparent_alternatives :
    ¬ Transparent .decimal (fun _ _ => none) IsEncoded
      (.prim "or" (some [flag (some [js "%a"]), flag (some [js "%b"])]) none)
      (annotateRoot (js "%storage")
        (.prim "or" (some [flag (some [js "%a"]), flag (some [js "%b"])]) none))
      (.prim "Left" (some [.prim "True" none none]) none) := by
  intro h
  have hexecute : (.ok (.bool true) : Except EncoderError Val) =
      .ok (.object [(js "a", .bool true)]) := h.execute
  exact Val.noConfusion (Except.ok.inj hexecute)

end MichelsonEncoder
