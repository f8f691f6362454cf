import Taquito.MichelCodec.Binary

/-!
# Packing and the annotations of types

What is written of data at a type does not depend on the annotations inside the type: the transforms
of the two types are the same up to annotations (`Transform.plain`), at every node. Only the errors,
which show the type, differ, so the statements are about what is written.
-/

open Js

mutual

/-- A type without annotations. -/
def Expr.plain : Expr → Expr
  | .seq items => .seq (plains items)
  | .prim p none _ => .prim p none none
  | .prim p (some args) _ => .prim p (some (plains args)) none
  | e => e

/-- `plain` of every member. -/
def plains : List Expr → List Expr
  | [] => []
  | e :: es => e.plain :: plains es

end

theorem plains_eq_map (es : List Expr) : plains es = es.map Expr.plain := by
  induction es with
  | nil => rfl
  | cons e es ih => rw [plains, ih, List.map_cons]

theorem Expr.plain_seq (items : List Expr) : (Expr.seq items).plain = .seq (items.map Expr.plain) := by
  rw [Expr.plain, plains_eq_map]

theorem Expr.plain_prim (p : String) (args : Option (List Expr)) (annots : Option (List JSString)) :
    (Expr.prim p args annots).plain = .prim p (args.map (·.map Expr.plain)) none := by
  cases args with
  | none => rfl
  | some args => rw [Expr.plain, plains_eq_map, Option.map_some]

theorem Expr.plain_plain (e : Expr) : e.plain.plain = e.plain := by
  induction e with
  | int _ | string _ | bytes _ => rfl
  | seq items ih =>
    rw [Expr.plain_seq, Expr.plain_seq, List.map_map]
    congr 1
    exact List.map_congr_left ih
  | prim p args annots ih =>
    rw [Expr.plain_prim, Expr.plain_prim, Option.map_map]
    cases args with
    | none => rfl
    | some args =>
      rw [Option.map_some, Option.map_some, Function.comp_apply, List.map_map]
      congr 2
      exact List.map_congr_left ih

theorem Except.toOption_bind {ε α β : Type} (x : Except ε α) (f : α → Except ε β) :
    (x >>= f).toOption = x.toOption.bind fun a => (f a).toOption := by
  cases x <;> rfl

theorem Except.toOption_map {ε α β : Type} (x : Except ε α) (f : α → β) :
    (x.map f).toOption = x.toOption.map f := by
  cases x <;> rfl

namespace MichelCodec

/-! ## Transforms -/

/-- The transform of the type without annotations. -/
def Transform.plain : Transform → Transform
  | .passThrough => .passThrough
  | .typed t => .typed t.plain
  | .elt t => .elt t.plain

/-- The transforms of the types without annotations. -/
def Supply.plain : Supply → Supply
  | .list items => .list (items.map (·.map Transform.plain))
  | .forever item => .forever (item.map Transform.plain)

theorem Transform.plain_plain (tf : Transform) : tf.plain.plain = tf.plain := by
  match tf with
  | .passThrough => rfl
  | .typed t | .elt t => rw [Transform.plain, Transform.plain, Expr.plain_plain]

theorem Supply.plain_plain (supply : Supply) : supply.plain.plain = supply.plain := by
  have hmap : ∀ x : Except MichelError Transform,
      (x.map Transform.plain).map Transform.plain = x.map Transform.plain := by
    intro x
    cases x with
    | error e => rfl
    | ok tf => exact congrArg Except.ok tf.plain_plain
  match supply with
  | .list items =>
    rw [Supply.plain, Supply.plain, List.map_map]
    congr 1
    exact List.map_congr_left fun x _ => hmap x
  | .forever x => exact congrArg Supply.forever (hmap x)

theorem next_plain (supply : Supply) :
    supply.plain.next = supply.next.map fun r => (r.1.plain, r.2.plain) := by
  match supply with
  | .list [] => rfl
  | .list (x :: xs) => cases x <;> rfl
  | .forever x => cases x <;> rfl

theorem typedTransform_plain (t : Option Expr) :
    typedTransform (t.map Expr.plain) = (typedTransform t).map Transform.plain := by
  cases t <;> rfl

theorem typedArg_plain (args : Option (List Expr)) (i : ℕ) :
    typedArg (args.map (·.map Expr.plain)) i = (typedArg args i).map Transform.plain := by
  cases args with
  | none => rfl
  | some args =>
    rw [Option.map_some, typedArg, typedArg, List.getElem?_map]
    exact typedTransform_plain args[i]?

theorem typedArgs_plain (args : Option (List Expr)) :
    typedArgs (args.map (·.map Expr.plain)) = (typedArgs args).plain := by
  cases args with
  | none => rfl
  | some args =>
    rw [Option.map_some, typedArgs, typedArgs, Supply.plain, List.map_map, List.map_map]
    rfl

theorem combArgs_plain (t : Expr) : combArgs t.plain = (combArgs t).map (·.map Expr.plain) := by
  match t with
  | .seq items =>
    rw [Expr.plain_seq]
    rfl
  | .prim p none annots => rfl
  | .prim p (some args) annots =>
    rw [Expr.plain_prim]
    rfl
  | .int _ | .string _ | .bytes _ => rfl

/-- The two members that a comb is split into. -/
def splitComb (id : String) : List Expr → List (Option Expr)
  | [a, b] => [some a, some b]
  | args => [args.head?, some (.prim id (some args.tail) none)]

theorem unpackComb_fst (id : String) (v : Expr) :
    (unpackComb id v).map Prod.fst = (combArgs v).map (splitComb id) := by
  rw [unpackComb]
  cases combArgs v with
  | error e => rfl
  | ok args =>
    rw [Except.ok_bind]
    split
    · rfl
    · next h =>
      show Except.ok _ = Except.ok (splitComb id _)
      rw [splitComb]
      exact fun a b hab => h a b hab
    · next h _ =>
      show Except.ok _ = Except.ok (splitComb id _)
      rw [splitComb]
      exact fun a b hab => h a b hab

theorem splitComb_plain (args : List Expr) :
    splitComb "pair" (args.map Expr.plain) = (splitComb "pair" args).map (Option.map Expr.plain) := by
  match args with
  | [] | [_] | [_, _] => rfl
  | a :: b :: c :: args =>
    show [some a.plain, some (.prim "pair" (some ((b :: c :: args).map Expr.plain)) none)]
      = [some a.plain, some (Expr.prim "pair" (some (b :: c :: args)) none).plain]
    rw [Expr.plain_prim]
    rfl

theorem unpackComb_plain (t : Expr) :
    (unpackComb "pair" t.plain).map Prod.fst
      = ((unpackComb "pair" t).map Prod.fst).map (List.map (Option.map Expr.plain)) := by
  rw [unpackComb_fst, unpackComb_fst, combArgs_plain]
  cases combArgs t with
  | error e => rfl
  | ok args =>
    show Except.ok (splitComb "pair" (args.map Expr.plain)) = Except.ok _
    rw [splitComb_plain]

/-! ## Nodes -/

theorem writeLeaf_plain (t t' d : Expr) (expected base58 : String)
    (encode : JSString → Except MichelError (Option Bytes)) :
    (writeLeaf t d expected base58 encode).toOption
      = (writeLeaf t' d expected base58 encode).toOption := by
  match d with
  | .string s =>
    rw [writeLeaf, writeLeaf, Except.toOption_bind, Except.toOption_bind]
    congr 1
    funext r
    cases r <;> rfl
  | .bytes _ | .int _ | .seq _ | .prim _ _ _ => rfl

theorem writeTimestamp_plain (host : Host) (t t' d : Expr) :
    (writeTimestamp host t d).toOption = (writeTimestamp host t' d).toOption := by
  match d with
  | .string s =>
    rw [writeTimestamp, writeTimestamp]
    split <;> rfl
  | .bytes _ | .int _ | .seq _ | .prim _ _ _ => rfl

/-- What is written of a pair, of which only an error shows the type. -/
theorem writePair_toOption (t d : Expr) :
    (writePair t d).toOption = if isPairData d then
      (assertDataListIfAny d).toOption.bind fun _ =>
        ((unpackComb "pair" t).map Prod.fst).toOption.bind fun tc =>
          ((unpackComb "Pair" d).toOption.bind fun dc =>
            (combMembers dc.1).toOption.map fun members =>
              Expr.prim "Pair" (some members) dc.2).map (·, .list (tc.map typedTransform))
    else none := by
  unfold writePair
  by_cases hd : isPairData d = true
  · rw [if_pos hd, if_neg (by rw [hd]; exact Bool.false_ne_true)]
    cases assertDataListIfAny d with
    | error e => rfl
    | ok u =>
      cases unpackComb "pair" t with
      | error e => rfl
      | ok tc =>
        cases unpackComb "Pair" d with
        | error e => rfl
        | ok dc =>
          cases hm : combMembers dc.1 with
          | error e => simp [hm, Except.toOption]
          | ok members =>
            simp [hm, Except.toOption]
            rfl
  · rw [if_neg hd, if_pos (by rw [Bool.not_eq_true] at hd; rw [hd]; rfl)]
    rfl

theorem writePair_plain (t d : Expr) :
    (writePair t.plain d).toOption
      = (writePair t d).toOption.map fun r => (r.1, r.2.plain) := by
  rw [writePair_toOption, writePair_toOption, unpackComb_plain, Except.toOption_map]
  split
  · cases (assertDataListIfAny d).toOption with
    | none => rfl
    | some u =>
      cases ((unpackComb "pair" t).map Prod.fst).toOption with
      | none => rfl
      | some tc =>
        have hsupply : Supply.list ((tc.map (Option.map Expr.plain)).map typedTransform)
            = (Supply.list (tc.map typedTransform)).plain := by
          rw [Supply.plain, List.map_map, List.map_map]
          congr 1
          apply List.map_congr_left
          intro t' _
          exact typedTransform_plain t'
        rw [Option.map_some, Option.bind_some, Option.bind_some, Option.bind_some, Option.bind_some,
          Option.map_map, hsupply]
        rfl
  · rfl

/-- What a node becomes, and the transforms of its children up to annotations. -/
def written (x : Except MichelError (Expr × Supply)) : Option (Expr × Supply) :=
  x.toOption.map fun r => (r.1, r.2.plain)

theorem written_leaf {x x' : Except MichelError Expr} (h : x.toOption = x'.toOption) :
    written (x.map (·, .list [])) = written (x'.map (·, .list [])) := by
  rw [written, written, Except.toOption_map, Except.toOption_map, h]

theorem written_ite {c : Prop} [Decidable c] {x x' y y' : Except MichelError (Expr × Supply)}
    (hx : written x = written x') (hy : written y = written y') :
    written (if c then x else y) = written (if c then x' else y') := by
  split
  · exact hx
  · exact hy

/-- Transforms that are the same up to annotations. -/
theorem written_ok {d : Expr} {supply supply' : Supply} (h : supply.plain = supply'.plain) :
    written (.ok (d, supply)) = written (.ok (d, supply')) :=
  congrArg (fun s => some (d, s)) h

theorem written_mismatch (t t' d : Expr) (expected : String) :
    written (mismatch t d expected) = written (mismatch t' d expected) := rfl

theorem written_pair (t d : Expr) : written (writePair t.plain d) = written (writePair t d) := by
  rw [written, written, writePair_plain, Option.map_map]
  congr 1
  funext r
  exact Prod.ext rfl r.2.plain_plain

/-- A list of transforms of arguments. -/
theorem plain_typedArgs (args : Option (List Expr)) (is : List ℕ) :
    (Supply.list (is.map (typedArg (args.map (·.map Expr.plain))))).plain
      = (Supply.list (is.map (typedArg args))).plain := by
  rw [← Supply.plain_plain (.list (is.map (typedArg args)))]
  congr 1
  rw [Supply.plain, List.map_map]
  congr 1
  exact List.map_congr_left fun i _ => typedArg_plain args i

theorem writeTyped_plain (host : Host) (t d : Expr) :
    written (writeTyped host t.plain d) = written (writeTyped host t d) := by
  match t with
  | .int _ | .string _ | .bytes _ => rfl
  | .seq items =>
    have hseq := written_pair (.seq items) d
    rw [Expr.plain_seq] at hseq ⊢
    exact hseq
  | .prim p args annots =>
    have hprim := written_pair (.prim p args annots) d
    have hleaf : ∀ expected base58 encode,
        written ((writeLeaf (Expr.prim p args annots).plain d expected base58 encode).map (·, .list []))
          = written ((writeLeaf (.prim p args annots) d expected base58 encode).map (·, .list [])) :=
      fun _ _ _ => written_leaf (writeLeaf_plain _ _ _ _ _ _)
    have helt : (Expr.prim p args annots).plain.plain = (Expr.prim p args annots).plain :=
      Expr.plain_plain _
    rw [Expr.plain_prim] at hprim hleaf helt ⊢
    unfold writeTyped
    refine written_ite hprim (written_ite ?_ (written_ite ?_ (written_ite ?_ (written_ite ?_
      (written_ite (hleaf _ _ _) (written_ite (hleaf _ _ _) (written_ite (hleaf _ _ _)
      (written_ite (hleaf _ _ _) (written_ite (hleaf _ _ _) (written_ite ?_ rfl))))))))))
    · -- alternatives
      match d with
      | .prim q _ _ =>
        exact written_ite (written_ok (plain_typedArgs args [if q = "Left" then 0 else 1])) rfl
      | .int _ | .string _ | .bytes _ | .seq _ => rfl
    · -- options
      match d with
      | .prim q _ _ =>
        refine written_ite (written_ok ?_) rfl
        split
        · exact plain_typedArgs args [0]
        · rfl
      | .int _ | .string _ | .bytes _ | .seq _ => rfl
    · -- lists and sets
      match d with
      | .seq items =>
        have hitems := plain_typedArgs args (items.map fun _ => 0)
        rw [List.map_map, List.map_map] at hitems
        exact written_ok hitems
      | .int _ | .string _ | .bytes _ | .prim _ _ _ => rfl
    · -- maps
      match d with
      | .seq items =>
        apply written_ok
        rw [Supply.plain, Supply.plain, List.map_map, List.map_map]
        congr 1
        apply List.map_congr_left
        intro _ _
        show Except.ok (Transform.elt _) = Except.ok (Transform.elt _)
        rw [helt, Expr.plain_prim]
      | .int _ | .string _ | .bytes _ | .prim _ _ _ => rfl
    · exact written_leaf (writeTimestamp_plain host _ _ d)

theorem writeTransform_plain (host : Host) (tf : Transform) (d : Expr) :
    written (writeTransform host tf.plain d) = written (writeTransform host tf d) := by
  match tf with
  | .passThrough => rfl
  | .typed t => exact writeTyped_plain host t d
  | .elt t =>
    match d, t with
    | .prim q dargs dannots, .prim p args annots =>
      show written ((eltSupply (Expr.prim p args annots).plain (.prim q dargs dannots)).map _)
        = written ((eltSupply (.prim p args annots) (.prim q dargs dannots)).map _)
      rw [Expr.plain_prim, eltSupply, eltSupply, typedArgs_plain]
      split
      · exact written_ok (typedArgs args).plain_plain
      · rfl
    | .prim _ _ _, .seq _ | .prim _ _ _, .int _ | .prim _ _ _, .string _ | .prim _ _ _, .bytes _ => rfl
    | .int _, _ | .string _, _ | .bytes _, _ | .seq _, _ => rfl

/-! ## Packing -/

/-- What is written of children does not depend on annotations if what is written of each does not.
-/
theorem writeChildren_plain {write : Transform → Expr → Except MichelError Bytes}
    (hwrite : ∀ tf d, (write tf.plain d).toOption = (write tf d).toOption) (items : List Expr) :
    ∀ {supply supply' : Supply}, supply.plain = supply'.plain →
      (writeChildren write supply items).toOption = (writeChildren write supply' items).toOption := by
  induction items with
  | nil => exact fun _ => rfl
  | cons v vs ih =>
    intro supply supply' h
    have hnext : supply.next.map (fun r => (r.1.plain, r.2.plain))
        = supply'.next.map fun r => (r.1.plain, r.2.plain) := by
      rw [← next_plain, ← next_plain, h]
    rw [writeChildren, writeChildren, Except.toOption_bind, Except.toOption_bind]
    cases hs : supply.next with
    | error e =>
      cases hs' : supply'.next with
      | error e' => rfl
      | ok r' =>
        rw [hs, hs'] at hnext
        cases hnext
    | ok r =>
      cases hs' : supply'.next with
      | error e' =>
        rw [hs, hs'] at hnext
        cases hnext
      | ok r' =>
        rw [hs, hs'] at hnext
        obtain ⟨htf, hrest⟩ := Prod.mk.inj (Except.ok.inj hnext)
        have hv : (write r.1 v).toOption = (write r'.1 v).toOption := by
          rw [← hwrite r.1, ← hwrite r'.1, htf]
        show ((write r.1 v) >>= _).toOption = ((write r'.1 v) >>= _).toOption
        rw [Except.toOption_bind, Except.toOption_bind, hv]
        congr 1
        funext bytes
        rw [Except.toOption_bind, Except.toOption_bind, ih hrest]

theorem writeNode_plain {write : Transform → Expr → Except MichelError Bytes}
    (hwrite : ∀ tf d, (write tf.plain d).toOption = (write tf d).toOption) (e : Expr)
    {supply supply' : Supply} (h : supply.plain = supply'.plain) :
    (writeNode write e supply).toOption = (writeNode write e supply').toOption := by
  match e with
  | .int _ | .string _ | .bytes _ => rfl
  | .seq items =>
    rw [writeNode, writeNode, Except.toOption_bind, Except.toOption_bind,
      writeChildren_plain hwrite items h]
  | .prim p args annots =>
    rw [writeNode, writeNode]
    split
    · rfl
    · rw [Except.toOption_bind, Except.toOption_bind, writeChildren_plain hwrite _ h]

/-- One round of `writeExpr`. -/
theorem writeExpr_succ {host : Host} {fuel : ℕ} {tf tf' : Transform} {d : Expr}
    (hwrite : ∀ tf d,
      (writeExpr host fuel tf.plain d).toOption = (writeExpr host fuel tf d).toOption)
    (h : written (writeTransform host tf d) = written (writeTransform host tf' d)) :
    (writeExpr host (fuel + 1) tf d).toOption = (writeExpr host (fuel + 1) tf' d).toOption := by
  rw [writeExpr, writeExpr, Except.toOption_bind, Except.toOption_bind]
  rw [written, written] at h
  cases hr : (writeTransform host tf d).toOption with
  | none =>
    rw [hr, Option.map_none] at h
    rw [Option.map_eq_none_iff.mp h.symm]
  | some r =>
    rw [hr, Option.map_some] at h
    obtain ⟨r', hr', heq⟩ := Option.map_eq_some_iff.mp h.symm
    obtain ⟨he, hsupply⟩ := Prod.mk.inj heq
    rw [hr', Option.bind_some, Option.bind_some]
    show (writeNode (writeExpr host fuel) r.1 r.2).toOption
      = (writeNode (writeExpr host fuel) r'.1 r'.2).toOption
    rw [← he]
    exact writeNode_plain hwrite r'.1 hsupply.symm

theorem writeExpr_plain (host : Host) (fuel : ℕ) :
    ∀ tf d, (writeExpr host fuel tf.plain d).toOption = (writeExpr host fuel tf d).toOption := by
  induction fuel with
  | zero => exact fun _ _ => rfl
  | succ fuel ih => exact fun tf d => writeExpr_succ ih (writeTransform_plain host tf d)

/-- **Packing does not read the annotations of the type.** -/
theorem packData_plain (host : Host) (d t : Expr) :
    (packData host d (some t.plain)).toOption = (packData host d (some t)).toOption := by
  rw [packData, packData, Except.toOption_bind, Except.toOption_bind]
  congr 1
  exact writeExpr_plain host d.weight (.typed t) d

/-- Nor whether a comb is an array. -/
theorem packData_seq (host : Host) (d : Expr) (items : List Expr) :
    (packData host d (some (.prim "pair" (some items) none))).toOption
      = (packData host d (some (.seq items))).toOption := by
  have hpair : written (writePair (.prim "pair" (some items) none) d)
      = written (writePair (.seq items) d) := by
    rw [written, written, writePair_toOption, writePair_toOption, unpackComb_fst, unpackComb_fst]
    rfl
  rw [packData, packData, Except.toOption_bind, Except.toOption_bind]
  congr 1
  match d.weight with
  | 0 => rfl
  | fuel + 1 => exact writeExpr_succ (writeExpr_plain host fuel) hpair

end MichelCodec
