import Taquito.MichelCodec.Annotations
import Taquito.MichelCodec.Decoding
import Taquito.MichelCodec.Writing

/-!
# The codec without its octets

`packData` and `unpackData` each do two things at once: they move between an expression and its
node, transforming it on the way, and between the node and its octets. `writeTree` and `readTree`
are the first of the two alone. `writeExpr` lays out what `writeTree` makes (`writeExpr_eq`), and
on the layout of a node `readExpr` does what `readTree` does (`readExpr_wire`), failures included.
-/

open BigEndian Varint Js Micheline Reader

namespace MichelCodec

/-! ## Reading -/

/-- The annotations of a node, as the decoder splits them. -/
def annotWords (annots : Option Bytes) : Option (List JSString) :=
  if (annots.getD []).length ≠ 0 then some (splitWords (textDecode (annots.getD []))) else none

mutual

/-- `readExpr`, of the layout of a node. -/
def readTree (host : Host) : Node → Transform → Except MichelError Expr
  | .int z, tf => readResult host tf (.int (intText z))
  | .string text, tf => readResult host tf (.string (textDecode text))
  | .bytes content, tf => readResult host tf (.bytes (hexBytes content))
  | .seq items, tf => do
    let res ← readTrees host items (.forever (.ok .passThrough))
    let it ← readSupply tf (.seq res)
    let res ← readTrees host items it
    let _ ← readSupply tf (.seq res)
    readResult host tf (.seq res)
  | .prim code args annots, tf =>
    match primitives[code.toNat]? with
    | none => .error (.error (js "Unknown primitive tag: " ++ natText code.toNat))
    | some prim => do
      let res ← readTrees host args (.forever (.ok .passThrough))
      let it ← readSupply tf (.prim prim (argsField args.length res) none)
      let res ← readTrees host args it
      let _ ← readSupply tf (.prim prim (argsField args.length res) none)
      readResult host tf (.prim prim (argsField args.length res) (annotWords annots))

/-- Children, each with the next transform. -/
def readTrees (host : Host) : List Node → Supply → Except MichelError (List Expr)
  | [], _ => .ok []
  | n :: ns, args => do
    let (tf, args) ← args.next
    let e ← readTree host n tf
    let es ← readTrees host ns args
    return e :: es

end

/-- Two passes, on an input that is the layout of the children. -/
theorem twoPasses_computes {body : Supply → Reader UInt8 MichelError (List Expr)}
    {args : List Expr → Except MichelError Supply} {u : Bytes}
    {x : Supply → Except MichelError (List Expr)} (h : ∀ s, Computes (body s) u (x s)) :
    Computes (twoPasses body args) u (do
      let res ← x (.forever (.ok .passThrough))
      let it ← args res
      let res ← x it
      let _ ← args res
      return res) := by
  intro rest
  rw [twoPasses, h]
  cases x (.forever (.ok .passThrough)) with
  | error e => rfl
  | ok res =>
    simp only [Except.map, Except.ok_bind]
    cases args res with
    | error e => rfl
    | ok it =>
      simp only [Except.ok_bind, h it rest]
      cases x it with
      | error e => rfl
      | ok res =>
        simp only [Except.map, Except.ok_bind]
        cases args res <;> rfl

theorem readBytes_reads (u : Bytes) : Reads (readBytes u.length) u u := take_reads rfl

theorem readUint32_reads {n : ℕ} (h : n < 2 ^ 32) : Reads readUint32 (beBytes 4 n) n := by
  have hlen : (beBytes 4 n).length = 4 := by simp
  have h4 : Reads (readBytes 4) (beBytes 4 n) (beBytes 4 n) := hlen ▸ readBytes_reads _
  refine h4.bind_pure ?_
  rw [beValue_beBytes (by simpa using h)]
  exact Reads.pure _

section

variable {host : Host} {read : Transform → Reader UInt8 MichelError Expr}

theorem readTimes_computes {ns : List Node}
    (h : ∀ n ∈ ns, ∀ tf, Computes (read tf) (wire n) (readTree host n tf)) :
    ∀ s, Computes (readTimes read ns.length s) (wires ns) (readTrees host ns s) := by
  induction ns with
  | nil => exact fun s rest => rfl
  | cons n ns ih =>
    intro s
    have hns := ih fun m hm => h m (List.mem_cons_of_mem _ hm)
    rw [List.length_cons, readTimes, wires, readTrees, ← List.nil_append (wire n ++ wires ns)]
    refine (Computes.lift s.next).bind fun a _ => ?_
    refine (h n List.mem_cons_self _).bind fun e _ => ?_
    exact (hns _).bind_nil fun es _ => Computes.lift (.ok (e :: es))

theorem readWhile_eq {ns : List Node}
    (h : ∀ n ∈ ns, ∀ tf, Computes (read tf) (wire n) (readTree host n tf)) :
    ∀ {fuel : ℕ} (s : Supply), (wires ns).length ≤ fuel →
      readWhile read fuel s (wires ns) = readTrees host ns s := by
  induction ns with
  | nil => intro fuel s _; cases fuel <;> rfl
  | cons n ns ih =>
    intro fuel s hf
    obtain ⟨b, bs, hb⟩ := List.exists_cons_of_ne_nil (wire_ne_nil n)
    rw [wires, List.length_append, hb, List.length_cons] at hf
    obtain ⟨k, rfl⟩ : ∃ k, fuel = k + 1 := ⟨fuel - 1, by omega⟩
    have hns (s : Supply) := ih (fun m hm => h m (List.mem_cons_of_mem _ hm)) s
      (show (wires ns).length ≤ k by omega)
    have hread (tf : Transform) := h n List.mem_cons_self tf (wires ns)
    rw [wires, readTrees]
    rw [hb, List.cons_append] at hread ⊢
    rw [readWhile]
    cases s.next with
    | error e => rfl
    | ok a =>
      simp only [Except.ok_bind, hread]
      cases readTree host n a.1 with
      | error e => rfl
      | ok e =>
        simp only [Except.map, Except.ok_bind, hns]

theorem readItems_computes {ns : List Node}
    (h : ∀ n ∈ ns, ∀ tf, Computes (read tf) (wire n) (readTree host n tf)) (s : Supply) :
    Computes (readItems read (wires ns).length s) (wires ns) (readTrees host ns s) := by
  intro rest
  rw [readItems, bind_of_ok (readBytes_reads _ _), readWhile_eq h s le_rfl]
  rfl

end

theorem readSegment_computes {α : Type} {u : Bytes} (h : u.length < 2 ^ 32)
    {f : Bytes → Reader UInt8 MichelError α} {y : Except MichelError α} (hf : Computes (f u) [] y) :
    Computes (do let length ← readUint32; let bytes ← readBytes length; f bytes) (lengthPrefixed u)
      y := by
  refine (readUint32_reads h).bind_computes (v := u) ?_
  have hbytes := (readBytes_reads u).bind_computes hf
  rwa [List.append_nil] at hbytes

theorem readArguments_computes {host : Host} {read : Transform → Reader UInt8 MichelError Expr}
    {ns : List Node} (h : ∀ n ∈ ns, ∀ tf, Computes (read tf) (wire n) (readTree host n tf))
    (hl : 3 ≤ ns.length → (wires ns).length < 2 ^ 32) (s : Supply) :
    Computes (readArguments read (min ns.length 3) s)
      (if ns.length < 3 then wires ns else lengthPrefixed (wires ns)) (readTrees host ns s) := by
  by_cases h3 : ns.length < 3
  · rw [readArguments, if_pos (by omega), if_pos h3, Nat.min_eq_left (by omega)]
    exact readTimes_computes h s
  · rw [readArguments, if_neg (by omega), if_neg h3]
    exact (readUint32_reads (hl (by omega))).bind_computes (readItems_computes h s)

theorem readAnnotations_reads {annots : Option Bytes} (h : (annots.getD []).length < 2 ^ 32)
    (args : ℕ) : Reads (readAnnotations (annots.isSome || decide (3 ≤ args)))
      (if args < 3 then annots.elim [] lengthPrefixed else lengthPrefixed (annots.getD []))
      (annotWords annots) := by
  have hpresent : Reads (readAnnotations true) (lengthPrefixed (annots.getD []))
      (annotWords annots) := by
    rw [readAnnotations, if_pos rfl, annotWords]
    refine (readUint32_reads h).bind ?_
    by_cases hne : (annots.getD []).length ≠ 0
    · rw [if_pos hne, if_pos hne]
      exact (readBytes_reads _).bind_pure (Reads.pure _)
    · rw [if_neg hne, if_neg hne, List.eq_nil_of_length_eq_zero (not_ne_iff.mp hne)]
      exact Reads.pure _
  cases annots with
  | some text =>
    have harg : (if args < 3 then (some text).elim [] lengthPrefixed
        else lengthPrefixed ((some text).getD [])) = lengthPrefixed text := ite_self _
    rw [harg]
    exact hpresent
  | none =>
    by_cases h3 : args < 3
    · rw [if_pos h3, decide_eq_false (by omega)]
      exact Reads.pure _
    · rw [if_neg h3, decide_eq_true (by omega)]
      exact hpresent

/-- A primitive after its tag, from what its arguments are read as. -/
theorem readPrim_computes {host : Host} {read : Transform → Reader UInt8 MichelError Expr}
    {code : UInt8} {args : List Node} {annots : Option Bytes}
    (h : ∀ n ∈ args, ∀ tf, Computes (read tf) (wire n) (readTree host n tf))
    (hargs : 3 ≤ args.length → (wires args).length < 2 ^ 32)
    (hannots : (annots.getD []).length < 2 ^ 32) {tag : UInt8}
    (hcount : (tag.toNat - 3) / 2 = min args.length 3)
    (hpresent : ((tag.toNat - 3) % 2 == 1 || min args.length 3 == 3) =
      (annots.isSome || decide (3 ≤ args.length))) (tf : Transform) :
    Computes (readPrim host read tag tf)
      (code :: ((if args.length < 3 then wires args else lengthPrefixed (wires args)) ++
        if args.length < 3 then annots.elim [] lengthPrefixed else lengthPrefixed (annots.getD [])))
      (readTree host (.prim code args annots) tf) := by
  have hcode : Reads readUint8 [code] code := fun _ => rfl
  have hfield (es : List Expr) : argsField (min args.length 3) es = argsField args.length es := by
    rw [argsField, argsField]
    congr 1
    simp
  rw [readPrim, readTree]
  refine hcode.bind_computes ?_
  cases primitives[code.toNat]? with
  | none => exact fun rest => rfl
  | some prim =>
    simp only [hcount, hpresent, hfield]
    have hread := (@twoPasses_computes _
      (fun res => readSupply tf (.prim prim (argsField args.length res) none)) _ _
      fun s => readArguments_computes h hargs s).bind fun res _ =>
        (readAnnotations_reads hannots args.length).bind_computes
          (f := fun words => lift (readResult host tf (.prim prim (argsField args.length res) words)))
          (Computes.lift _)
    simp only [bind_assoc, pure_bind, List.append_nil] at hread
    exact hread

/-- The tag of a primitive. -/
theorem tag_cases {args : List Node} {annots : Option Bytes} {tag : UInt8}
    (htag : tag = if args.length < 3 then primTag args.length annots.isSome else 9) :
    3 ≤ tag.toNat ∧ tag.toNat ≤ 9 ∧ (tag.toNat - 3) / 2 = min args.length 3 ∧
      ((tag.toNat - 3) % 2 == 1 || min args.length 3 == 3) =
        (annots.isSome || decide (3 ≤ args.length)) := by
  by_cases h3 : args.length < 3
  · rw [if_pos h3] at htag
    have hb := Bool.toNat_le annots.isSome
    have hnat : tag.toNat = 3 + 2 * args.length + annots.isSome.toNat := by
      rw [htag, primTag, UInt8.toNat_ofNat']
      omega
    refine ⟨by omega, by omega, by omega, ?_⟩
    rw [decide_eq_false (by omega), Bool.or_false]
    have hmin : (min args.length 3 == 3) = false := by
      rw [beq_eq_false_iff_ne]
      omega
    rw [hmin, Bool.or_false]
    cases h : annots.isSome
    · rw [h, Bool.toNat_false] at hnat
      rw [beq_eq_false_iff_ne]
      omega
    · rw [h, Bool.toNat_true] at hnat
      rw [beq_iff_eq]
      omega
  · rw [if_neg h3] at htag
    rw [htag, Nat.min_eq_right (by omega), decide_eq_true (by omega), Bool.or_true]
    exact ⟨by decide, by decide, by decide, by decide⟩

/-- **On the layout of a node `readExpr` does what `readTree` does.** -/
theorem readExpr_wire (host : Host) {n : Node} (hfit : Micheline.Fits n) :
    ∀ {fuel : ℕ}, depth n ≤ fuel → ∀ tf, Computes (readExpr host fuel tf) (wire n)
      (readTree host n tf) := by
  have hbyte (b : UInt8) : Reads readUint8 [b] b := fun _ => rfl
  induction n with
  | int z =>
    intro fuel hf tf
    obtain ⟨k, rfl⟩ := Nat.exists_eq_add_of_le' (show 1 ≤ fuel from (depth_pos _).trans_le hf)
    refine (hbyte 0).bind_computes (v := intBytes z) ?_
    rw [if_pos rfl]
    have hchunk : Reads (chunk boundsErr) (intBytes z) (intBytes z) :=
      chunk_reads (intBytes_chunk z)
    have hread := hchunk.bind_computes
      (f := fun buf => lift (readResult host tf (.int (intText (intOfOctets buf)))))
      (Computes.lift _)
    rw [List.append_nil, intOfOctets_eq (intBytes_chunk z).ne_nil, intValue_intBytes] at hread
    exact hread
  | string text =>
    intro fuel hf tf
    obtain ⟨k, rfl⟩ := Nat.exists_eq_add_of_le' (show 1 ≤ fuel from (depth_pos _).trans_le hf)
    refine (hbyte 1).bind_computes (v := lengthPrefixed text) ?_
    exact readSegment_computes hfit (Computes.lift (readResult host tf (.string (textDecode text))))
  | bytes content =>
    intro fuel hf tf
    obtain ⟨k, rfl⟩ := Nat.exists_eq_add_of_le' (show 1 ≤ fuel from (depth_pos _).trans_le hf)
    refine (hbyte 10).bind_computes (v := lengthPrefixed content) ?_
    exact readSegment_computes hfit (Computes.lift (readResult host tf (.bytes (hexBytes content))))
  | seq items ih =>
    intro fuel hf tf
    obtain ⟨k, rfl⟩ := Nat.exists_eq_add_of_le' (show 1 ≤ fuel from (depth_pos _).trans_le hf)
    rw [depth] at hf
    rw [Micheline.Fits, fitsAll_iff] at hfit
    have hitems : ∀ n ∈ items, ∀ tf, Computes (readExpr host k tf) (wire n) (readTree host n tf) :=
      fun n hn => ih n hn (hfit.1 n hn) ((depth_le_depths hn).trans (by omega))
    refine (hbyte 2).bind_computes (v := lengthPrefixed (wires items)) ?_
    refine (readUint32_reads hfit.2).bind_computes (v := wires items) ?_
    have hread := (@twoPasses_computes _ (fun res => readSupply tf (.seq res)) _ _
      fun s => readItems_computes hitems s).bind_nil fun res _ =>
        Computes.lift (readResult host tf (.seq res))
    simp only [bind_assoc, pure_bind] at hread
    exact hread
  | prim code args annots ih =>
    intro fuel hf tf
    obtain ⟨k, rfl⟩ := Nat.exists_eq_add_of_le' (show 1 ≤ fuel from (depth_pos _).trans_le hf)
    rw [depth] at hf
    rw [Micheline.Fits, fitsAll_iff] at hfit
    obtain ⟨hfits, hargs, hannots⟩ := hfit
    have hall : ∀ n ∈ args, ∀ tf, Computes (readExpr host k tf) (wire n) (readTree host n tf) :=
      fun n hn => ih n hn (hfits n hn) ((depth_le_depths hn).trans (by omega))
    obtain ⟨tag, htag⟩ : ∃ tag, tag = if args.length < 3 then primTag args.length annots.isSome
      else 9 := ⟨_, rfl⟩
    obtain ⟨hge, hle, hcount, hpresent⟩ := tag_cases htag
    have hwire : wire (.prim code args annots) = [tag] ++
        (code :: ((if args.length < 3 then wires args else lengthPrefixed (wires args)) ++
        if args.length < 3 then annots.elim [] lengthPrefixed
          else lengthPrefixed (annots.getD []))) := by
      rw [wire, htag]
      by_cases h3 : args.length < 3
      · simp only [if_pos h3, List.singleton_append]
      · simp only [if_neg h3, List.singleton_append]
    have hne (b : UInt8) (hb : b.toNat < 3 ∨ 9 < b.toNat) : tag ≠ b := by
      rintro rfl
      omega
    have h9 : ¬ 9 < tag := by
      rw [UInt8.lt_iff_toNat_lt]
      exact Nat.not_lt.mpr hle
    rw [hwire]
    refine (hbyte tag).bind_computes ?_
    rw [if_neg (hne 0 (by decide)), if_neg (hne 1 (by decide)), if_neg (hne 10 (by decide)),
      if_neg (hne 2 (by decide)), if_neg h9]
    exact readPrim_computes hall hargs hannots hcount hpresent tf

/-- `unpackData`, of the layout of a node behind the magic number. -/
theorem unpackData_wire (host : Host) {n : Node} (hfit : Micheline.Fits n) (t : Option Expr) :
    unpackData host (5 :: wire n) t = (do
      let ex ← readTree host n (transformOf t)
      assertMichelsonData ex
      return ex) := by
  have hread := @readExpr_wire host n hfit (5 :: wire n).length
    ((depth_le_length n).trans (Nat.le_succ _)) (transformOf t) []
  rw [List.append_nil] at hread
  have hmagic : readUint8 (5 :: wire n) = .ok (5, wire n) := rfl
  rw [unpackData, hmagic, Except.ok_bind]
  simp only [hread, ne_eq, not_true_eq_false, if_false]
  cases readTree host n (transformOf t) <;> rfl

/-! ## Writing -/

section

variable (write : Transform → Expr → Except MichelError Node)

/-- The nodes of children, each with the next transform. -/
def writeTrees : Supply → List Expr → Except MichelError (List Node)
  | _, [] => .ok []
  | args, v :: vs => do
    let (tf, args) ← args.next
    let n ← write tf v
    let ns ← writeTrees args vs
    return n :: ns

/-- The node of a transformed expression. -/
def nodeTree (e : Expr) (supply : Supply) : Except MichelError Node :=
  match e with
  | .seq items => do
    let ns ← writeTrees write supply items
    return .seq ns
  | .string s => .ok (.string (utf8Encode s))
  | .int text =>
    match bigInt text with
    | some val => .ok (.int val)
    | none => .error (.syntaxError text)
  | .bytes hex => do
    let bytes ← parseHex hex
    return .bytes (bytes.map octet)
  | .prim p args annots =>
    match primTags p with
    | none => .error (.typeError (js "Can't encode primary: " ++ js p))
    | some prim => do
      let ns ← writeTrees write supply (args.getD [])
      return .prim (UInt8.ofNat prim) ns (annotBytes annots)

end

/-- The node that `writeExpr` lays out. -/
def writeTree (host : Host) : ℕ → Transform → Expr → Except MichelError Node
  | 0, _, _ => .error .outOfFuel
  | fuel + 1, tf, expr => do
    let (e, supply) ← writeTransform host tf expr
    nodeTree (writeTree host fuel) e supply

section

variable {write : Transform → Expr → Except MichelError Node}

theorem length_writeTrees {s : Supply} {es : List Expr} {ns : List Node}
    (h : writeTrees write s es = .ok ns) : ns.length = es.length := by
  induction es generalizing s ns with
  | nil =>
    cases h
    rfl
  | cons e es ih =>
    obtain ⟨⟨tf, s'⟩, -, h⟩ := Except.bind_eq_ok.mp h
    obtain ⟨n, -, h⟩ := Except.bind_eq_ok.mp h
    obtain ⟨ms, hms, h⟩ := Except.bind_eq_ok.mp h
    cases h
    rw [List.length_cons, List.length_cons, ih hms]

theorem writeChildren_eq_map (s : Supply) (es : List Expr) :
    writeChildren (fun tf e => wire <$> write tf e) s es = wires <$> writeTrees write s es := by
  induction es generalizing s with
  | nil => rfl
  | cons e es ih =>
    rw [writeChildren, writeTrees]
    cases s.next with
    | error err => rfl
    | ok p =>
      simp only [Except.ok_bind]
      cases write p.1 e with
      | error err => rfl
      | ok n =>
        simp only [map_eq_pure_bind, Except.ok_bind, Except.pure_eq_ok] at ih ⊢
        rw [ih]
        cases writeTrees write p.2 es <;> rfl

theorem writeNode_eq_map (e : Expr) (s : Supply) :
    writeNode (fun tf e => wire <$> write tf e) e s = wire <$> nodeTree write e s := by
  cases e with
  | seq items =>
    rw [writeNode, nodeTree, writeChildren_eq_map]
    cases writeTrees write s items <;> rfl
  | string text => rfl
  | int text =>
    rw [nodeTree]
    cases h : bigInt text with
    | none => simp only [writeNode, h]; rfl
    | some z => exact writeNode_int h
  | bytes hex =>
    rw [writeNode, nodeTree]
    cases parseHex hex with
    | error err => rfl
    | ok xs =>
      have hlen : (xs.map octet).length = xs.length := List.length_map _
      simp only [Except.ok_bind, Except.pure_eq_ok, map_eq_pure_bind, wire, lengthPrefixed, hlen]
      rfl
  | prim p args annots =>
    rw [writeNode, nodeTree]
    cases primTags p with
    | none => rfl
    | some code =>
      dsimp only
      rw [writeChildren_eq_map]
      cases h : writeTrees write s (args.getD []) with
      | error err => rfl
      | ok ns =>
        have hlen := length_writeTrees h
        simp only [map_eq_pure_bind, Except.ok_bind, Except.pure_eq_ok, writeAnnots_eq, ← hlen, wire]
        by_cases h3 : ns.length < 3
        · simp only [if_pos h3, tagOf_eq h3]
        · simp only [if_neg h3, tagOf, lengthPrefixed, writeUint32, List.append_assoc]

end

theorem writeExpr_eq (host : Host) (fuel : ℕ) (tf : Transform) (e : Expr) :
    writeExpr host fuel tf e = wire <$> writeTree host fuel tf e := by
  induction fuel generalizing tf e with
  | zero => rfl
  | succ fuel ih =>
    have hwrite : writeExpr host fuel = fun tf e => wire <$> writeTree host fuel tf e := by
      funext tf e
      exact ih tf e
    rw [writeExpr, writeTree, hwrite]
    cases writeTransform host tf e with
    | error err => rfl
    | ok p => exact writeNode_eq_map p.1 p.2

theorem packData_eq (host : Host) (d : Expr) (t : Option Expr) :
    packData host d t = (fun n => 5 :: wire n) <$> writeTree host d.weight (transformOf t) d := by
  rw [packData, writeExpr_eq]
  cases writeTree host d.weight (transformOf t) d <;> rfl

/-! ## The bound on the nesting -/

/-- The children of a transformed node weigh less than the node. -/
def Lighter (d e : Expr) : Prop := ∀ c ∈ e.children, c.weight < d.weight

theorem Lighter.refl (d : Expr) : Lighter d d := fun _ => Expr.weight_lt_of_mem_children

theorem Lighter.of_literal {d e : Expr} (h : e.children = []) : Lighter d e := by
  intro c hc
  rw [h] at hc
  cases hc

theorem map_pair_eq_ok {α β : Type} {x : Except MichelError α} {b b' : β} {a : α}
    (h : x.map (·, b) = .ok (a, b')) : x = .ok a := by
  obtain ⟨a', ha', heq⟩ := Except.map_eq_ok.mp h
  cases heq
  exact ha'

theorem lighter_writeLeaf {t d e : Expr} {expected base58 : String}
    {encode : JSString → Except MichelError (Option Bytes)}
    (h : writeLeaf t d expected base58 encode = .ok e) : Lighter d e := by
  cases d with
  | string s =>
    obtain ⟨o, -, h⟩ := Except.bind_eq_ok.mp h
    cases o with
    | none => cases h
    | some bytes =>
      cases h
      exact .of_literal rfl
  | bytes hex =>
    cases h
    exact .of_literal rfl
  | _ => cases h

theorem lighter_writeTimestamp {host : Host} {t d e : Expr} (h : writeTimestamp host t d = .ok e) :
    Lighter d e := by
  cases d with
  | string s =>
    rw [writeTimestamp] at h
    rcases hp : parseDate host s with _ | _ | ms
    · simp [hp, mismatch] at h
    · rw [hp] at h
      cases h
      exact .of_literal rfl
    · rw [hp] at h
      cases h
      exact .of_literal rfl
  | int text =>
    cases h
    exact .of_literal rfl
  | _ => cases h

theorem combArgs_eq_children {v : Expr} {args : List Expr} (h : combArgs v = .ok args) :
    args = v.children := by
  cases v with
  | seq items =>
    cases h
    rfl
  | prim p o annots =>
    cases o with
    | none => cases h
    | some args' =>
      cases h
      rfl
  | _ => cases h

theorem combMembers_eq {os : List (Option Expr)} {es : List Expr} (h : combMembers os = .ok es) :
    os = es.map some := by
  induction os generalizing es with
  | nil =>
    cases h
    rfl
  | cons o os ih =>
    cases o with
    | none => cases h
    | some e =>
      obtain ⟨es', hes, h⟩ := Except.bind_eq_ok.mp h
      cases h
      rw [ih hes, List.map_cons]

/-- Whatever `x` transforms `d` into is lighter. -/
def Lightens (d : Expr) (x : Except MichelError (Expr × Supply)) : Prop :=
  ∀ r, x = .ok r → Lighter d r.1

theorem Lightens.refl (d : Expr) (s : Supply) : Lightens d (.ok (d, s)) := by
  rintro r h
  cases h
  exact .refl d

theorem Lightens.mismatch (t d : Expr) (expected : String) : Lightens d (mismatch t d expected) := by
  rintro r h
  cases h

theorem Lightens.ite {c : Prop} [Decidable c] {d : Expr} {x y : Except MichelError (Expr × Supply)}
    (hx : Lightens d x) (hy : Lightens d y) : Lightens d (if c then x else y) := by
  split
  · exact hx
  · exact hy

theorem Lightens.leaf {d : Expr} {x : Except MichelError Expr} (h : ∀ e, x = .ok e → Lighter d e) :
    Lightens d (x.map (·, .list [])) := by
  rintro r hr
  obtain ⟨e, he, rfl⟩ := Except.map_eq_ok.mp hr
  exact h e he

theorem Lightens.supply {d : Expr} (x : Except MichelError Supply) : Lightens d (x.map (d, ·)) := by
  rintro r hr
  obtain ⟨s, -, rfl⟩ := Except.map_eq_ok.mp hr
  exact .refl d

theorem Except.toOption_eq_some {ε α : Type} {x : Except ε α} {a : α} (h : x.toOption = some a) :
    x = .ok a := by
  cases x with
  | error e => cases h
  | ok b => exact congrArg Except.ok (Option.some.inj h)

/-- The members of a comb are its arguments, or the first of them and a pair of the others. -/
theorem lighter_splitComb {d : Expr} {members : List Expr} {annots : Option (List JSString)}
    (h : splitComb "Pair" d.children = members.map some) :
    Lighter d (.prim "Pair" (some members) annots) := by
  intro c hc
  have hc : c ∈ members := hc
  have hmem : some c ∈ splitComb "Pair" d.children := by
    rw [h]
    exact List.mem_map_of_mem hc
  have hweight : d.weight = Expr.weights d.children + 1 ∨ d.children = [] := by
    cases d with
    | seq items => exact .inl (by rw [Expr.weight]; rfl)
    | prim p args annots => exact .inl (Expr.weight_prim p args annots)
    | _ => exact .inr rfl
  -- the two arguments of a pair are its members; longer ones are cut behind the first
  have hcut (a : Expr) (es : List Expr) (hargs : d.children = a :: es)
      (hmem : c = a ∨ c = .prim "Pair" (some es) none) : c.weight < d.weight := by
    rw [hargs] at hweight
    obtain hweight | hweight := hweight
    · have := Expr.weight_pos a
      rw [hweight, Expr.weights]
      obtain rfl | rfl := hmem
      · omega
      · rw [Expr.weight_prim, Option.getD_some]
        omega
    · exact absurd hweight (List.cons_ne_nil _ _)
  rcases hargs : d.children with _ | ⟨a, _ | ⟨b, _ | ⟨e, es⟩⟩⟩
  · rw [hargs] at h
    cases members <;> cases h
  · refine hcut a [] hargs ?_
    rw [hargs] at hmem
    simpa [splitComb] using hmem
  · rw [hargs] at hmem
    exact Expr.weight_lt_of_mem_children (by rw [hargs]; simpa [splitComb] using hmem)
  · refine hcut a (b :: e :: es) hargs ?_
    rw [hargs] at hmem
    simpa [splitComb] using hmem

theorem Lightens.pair (t d : Expr) : Lightens d (writePair t d) := by
  rintro ⟨e, s⟩ h
  have h : (writePair t d).toOption = some (e, s) := by rw [h]; rfl
  rw [writePair_toOption] at h
  split at h
  · obtain ⟨-, -, h⟩ := Option.bind_eq_some_iff.mp h
    obtain ⟨tc, -, h⟩ := Option.bind_eq_some_iff.mp h
    obtain ⟨e', hdata, heq⟩ := Option.map_eq_some_iff.mp h
    obtain ⟨dc, hdc, hdata⟩ := Option.bind_eq_some_iff.mp hdata
    obtain ⟨members, hmembers, rfl⟩ := Option.map_eq_some_iff.mp hdata
    cases heq
    have hsome := combMembers_eq (Except.toOption_eq_some hmembers)
    have hfst := unpackComb_fst "Pair" d
    rw [Except.toOption_eq_some hdc] at hfst
    obtain ⟨args, hargs, hsplit⟩ := Except.map_eq_ok.mp hfst.symm
    rw [hsome, combArgs_eq_children hargs] at hsplit
    exact lighter_splitComb hsplit
  · cases h

theorem lightens_writeTyped (host : Host) (t d : Expr) : Lightens d (writeTyped host t d) := by
  cases t with
  | seq items => exact .pair _ d
  | prim p args annots =>
    unfold writeTyped
    refine .ite (.pair _ d) (.ite ?_ (.ite ?_ (.ite ?_ (.ite ?_ (.ite ?_ (.ite ?_ (.ite ?_
      (.ite ?_ (.ite ?_ (.ite ?_ (.supply _)))))))))))
    · cases d with
      | prim q args' annots' => exact .ite (.refl _ _) (.mismatch _ _ _)
      | _ => exact .mismatch _ _ _
    · cases d with
      | prim q args' annots' => exact .ite (.refl _ _) (.mismatch _ _ _)
      | _ => exact .mismatch _ _ _
    · cases d with
      | seq items => exact .refl _ _
      | _ => exact .mismatch _ _ _
    · cases d with
      | seq items => exact .refl _ _
      | _ => exact .mismatch _ _ _
    all_goals first
      | exact .leaf fun e => lighter_writeLeaf
      | exact .leaf fun e => lighter_writeTimestamp
  | _ =>
    unfold writeTyped
    exact .supply _

theorem lightens_writeTransform (host : Host) (tf : Transform) (d : Expr) :
    Lightens d (writeTransform host tf d) := by
  cases tf with
  | passThrough => exact .supply _
  | typed t => exact lightens_writeTyped host t d
  | elt t => exact .supply _


section

variable {write write' : Transform → Expr → Except MichelError Node}

theorem writeTrees_congr {es : List Expr} (h : ∀ e ∈ es, ∀ tf, write tf e = write' tf e)
    (s : Supply) : writeTrees write s es = writeTrees write' s es := by
  induction es generalizing s with
  | nil => rfl
  | cons e es ih =>
    rw [writeTrees, writeTrees]
    cases s.next with
    | error err => rfl
    | ok p =>
      simp only [Except.ok_bind]
      rw [h e List.mem_cons_self, ih fun c hc => h c (List.mem_cons_of_mem _ hc)]

theorem nodeTree_congr {e : Expr} (h : ∀ c ∈ e.children, ∀ tf, write tf c = write' tf c)
    (s : Supply) : nodeTree write e s = nodeTree write' e s := by
  cases e with
  | seq items =>
    have hitems : ∀ c ∈ items, ∀ tf, write tf c = write' tf c := h
    rw [nodeTree, nodeTree, writeTrees_congr hitems]
  | prim p args annots =>
    have hargs : ∀ c ∈ args.getD [], ∀ tf, write tf c = write' tf c := h
    rw [nodeTree, nodeTree, writeTrees_congr hargs]
  | _ => rfl

end

/-- Any bound on the nesting that is no less than the weight is as good. -/
theorem writeTree_of_weight (host : Host) : ∀ {fuel fuel' : ℕ} {tf : Transform} {e : Expr},
    e.weight ≤ fuel → e.weight ≤ fuel' → writeTree host fuel tf e = writeTree host fuel' tf e := by
  intro fuel
  induction fuel with
  | zero =>
    intro fuel' tf e h
    have := e.weight_pos
    omega
  | succ fuel ih =>
    intro fuel' tf e h h'
    obtain ⟨k, rfl⟩ := Expr.exists_succ_of_weight h'
    rw [writeTree, writeTree]
    cases hwritten : writeTransform host tf e with
    | error err => rfl
    | ok r =>
      refine nodeTree_congr (fun c hc tf' => ?_) r.2
      have hlt := lightens_writeTransform host tf e r hwritten c hc
      exact ih (by omega) (by omega)

end MichelCodec
