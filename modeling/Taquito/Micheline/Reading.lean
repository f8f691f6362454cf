import Taquito.Micheline.Wire

/-!
# A reader of the binary form

`readNode` reads the binary form of Micheline the way the format defines it, and is explicit about
what the two decoders of the repository leave open. An input it rejects is malformed for every
decoder. An input it calls irregular uses one of the redundancies of the format that the decoders
treat differently:

* a tag above `10`, or tag `9` on a primitive that no encoder writes with it;
* `LAMBDA`, `LAMBDA_REC` or `view` under a tag that their encoder does not choose, or with trailing
  annotations;
* an announced annotation text that is empty, starts with a space, or holds an octet `x2` followed
  by an octet `0y` (the text `20` of a space, read across two octets).

The strict reader also stops at a `PUSH`, whose data `michel-codec` rewrites, and at a text that
starts with a byte order mark, which only one of the two text decoders drops.

`readNode_wire` says that it reads a regular node back from its layout.
-/

open BigEndian Varint Js Reader

namespace Micheline

/-- Why the reader stops. -/
inductive ReadError where
  | reject
  | irregular
  | outOfFuel
  deriving DecidableEq, Repr

/-- An octet `x2` followed by an octet `0y`. -/
def misaligned : Bytes → Bool
  | b :: c :: bs => (b.toNat % 16 = 2 && c.toNat / 16 = 0) || misaligned (c :: bs)
  | _ => false

/-- The text starts with a byte order mark. -/
def startsWithBom (text : Bytes) : Bool := [0xEF, 0xBB, 0xBF].isPrefixOf text

/-- The annotation texts the decoders agree on. -/
def regularAnnots (strict : Bool) (text : Bytes) : Bool :=
  !text.isEmpty && !misaligned text && !(strict && startsWithBom text)

/-! ## The reader -/

/-- One octet. -/
def readByte : Reader UInt8 ReadError UInt8
  | [] => .error .reject
  | b :: bs => .ok (b, bs)

/-- A length on four octets, and as many octets. -/
def readSegment : Reader UInt8 ReadError Bytes := do
  let len ← take 4 fun _ => .reject
  take (beValue len) fun _ => .reject

section

variable (strict : Bool) (r : Reader UInt8 ReadError Node)

/-- The nodes that fill a segment. -/
def readNodes : Reader UInt8 ReadError (List Node) := do
  let seg ← readSegment
  lift (readAll r .outOfFuel seg.length seg)

/-- The annotations of a node that announces some. -/
def readAnnots (hasAnnot : Bool) : Reader UInt8 ReadError (Option Bytes) :=
  if hasAnnot then do
    let text ← readSegment
    if regularAnnots strict text then pure (some text) else fail .irregular
  else pure none

/-- Tags `3` to `8`: up to two arguments, one after the other. -/
def readNarrow (code : UInt8) (p : String) (args : ℕ) (hasAnnot : Bool) :
    Reader UInt8 ReadError Node :=
  if (isLambda p && args != 0) || (p == "view" && (args != 0 || hasAnnot)) then fail .irregular
  else do
    let args ← times r args
    let annots ← readAnnots strict hasAnnot
    return .prim code args annots

/-- Tag `9` on a pair: any number of arguments in a segment, then the annotations. -/
def readComb (code : UInt8) : Reader UInt8 ReadError Node := do
  let args ← readNodes r
  let text ← readSegment
  if text.isEmpty then return .prim code args none
  else if regularAnnots strict text && text.head? != some 0x20 then
    return .prim code args (some text)
  else fail .irregular

/-- Tag `9` on a primitive whose decoder ignores the two lengths: exactly `k` arguments, and no
annotations. -/
def readFramed (code : UInt8) (k : ℕ) : Reader UInt8 ReadError Node := fun bs =>
  match (do let seg ← readSegment; let text ← readSegment; pure (seg, text)) bs with
  | .ok ((seg, []), rest) =>
    match readAll r .outOfFuel seg.length seg with
    | .ok args => if args.length = k then .ok (.prim code args none, rest) else .error .irregular
    | .error _ => .error .irregular
  | _ => .error .irregular

/-- A primitive, after its tag. -/
def readPrim (tag : UInt8) : Reader UInt8 ReadError Node := do
  let code ← readByte
  match MichelCodec.primitives[code.toNat]? with
  | none => fail .reject
  | some p =>
    if (strict && p == "PUSH") || 10 < tag then fail .irregular
    else if tag ≠ 9 then
      readNarrow strict r code p ((tag.toNat - 3) / 2) ((tag.toNat - 3) % 2 == 1)
    else if isPair p then readComb strict r code
    else if isLambda p then readFramed r code 3
    else if p == "view" then readFramed r code 4
    else fail .irregular

end

/-- A node, after its tag. -/
def nodeBody (strict : Bool) (r : Reader UInt8 ReadError Node) (tag : UInt8) :
    Reader UInt8 ReadError Node :=
  if tag = 10 then do
    let content ← readSegment
    return .bytes content
  else if tag = 1 then do
    let text ← readSegment
    if strict && startsWithBom text then fail .irregular else return .string text
  else if tag = 0 then do
    let c ← chunk .reject
    return .int (intValue c)
  else if tag = 2 then do
    let items ← readNodes r
    return .seq items
  else readPrim strict r tag

/-- One node. -/
def readNode (strict : Bool) : ℕ → Reader UInt8 ReadError Node
  | 0 => fail .outOfFuel
  | fuel + 1 => do
    let tag ← readByte
    nodeBody strict (readNode strict fuel) tag

/-! ## Locality -/

theorem local_readByte : Local readByte := by
  intro bs b rest h
  cases bs with
  | nil => cases h
  | cons c bs =>
    cases h
    exact ⟨[b], rfl, fun _ => rfl⟩

theorem readByte_reads (b : UInt8) : Reads readByte [b] b := fun _ => rfl

theorem local_readSegment : Local readSegment :=
  (Local.take _ _).bind fun _ => Local.take _ _

theorem readSegment_reads {bs : Bytes} (h : bs.length < 2 ^ 32) :
    Reads readSegment (lengthPrefixed bs) bs := by
  refine (take_reads (u := beBytes 4 bs.length) (by simp)).bind ?_
  rw [beValue_beBytes (by simpa using h)]
  exact take_reads rfl

section

variable {strict : Bool} {r : Reader UInt8 ReadError Node}

theorem local_readNodes (r : Reader UInt8 ReadError Node) : Local (readNodes r) :=
  local_readSegment.bind fun _ => Local.lift _

theorem local_readAnnots (strict hasAnnot : Bool) : Local (readAnnots strict hasAnnot) :=
  .ite (local_readSegment.bind fun _ => .ite (.pure _) (.fail _)) (.pure _)

theorem local_readNarrow (hr : Local r) (code : UInt8) (p : String) (args : ℕ) (hasAnnot : Bool) :
    Local (readNarrow strict r code p args hasAnnot) :=
  .ite (.fail _) ((hr.times _).bind fun _ => (local_readAnnots _ _).bind fun _ => .pure _)

theorem local_readComb (strict : Bool) (r : Reader UInt8 ReadError Node) (code : UInt8) :
    Local (readComb strict r code) :=
  (local_readNodes r).bind fun _ => local_readSegment.bind fun _ =>
    .ite (.pure _) (.ite (.pure _) (.fail _))

private theorem local_framing :
    Local (do let seg ← readSegment; let text ← readSegment; pure (seg, text)) :=
  local_readSegment.bind fun _ => local_readSegment.bind fun _ => .pure _

/-- A framed node, taken apart. -/
theorem readFramed_eq_ok {code : UInt8} {k : ℕ} {bs rest : Bytes} {n : Node}
    (h : readFramed r code k bs = .ok (n, rest)) :
    ∃ seg args, (do let seg ← readSegment; let text ← readSegment; pure (seg, text)) bs =
        .ok ((seg, ([] : Bytes)), rest) ∧
      readAll r .outOfFuel seg.length seg = .ok args ∧ args.length = k ∧
      n = .prim code args none := by
  unfold readFramed at h
  split at h
  · next seg rest' hseg =>
    split at h
    · next args hargs =>
      split at h
      · next hk =>
        cases h
        exact ⟨seg, args, hseg, hargs, hk, rfl⟩
      · cases h
    · cases h
  · cases h

theorem readFramed_ne_reject {code : UInt8} {k : ℕ} {bs : Bytes} {e : ReadError}
    (h : readFramed r code k bs = .error e) : e ≠ .reject := by
  unfold readFramed at h
  split at h
  · split at h
    · split at h <;> cases h
      simp
    · cases h
      simp
  · cases h
    simp

theorem local_readFramed (r : Reader UInt8 ReadError Node) (code : UInt8) (k : ℕ) :
    Local (readFramed r code k) := by
  intro bs n rest h
  obtain ⟨seg, args, hseg, hargs, hk, rfl⟩ := readFramed_eq_ok h
  obtain ⟨used, rfl, hused⟩ := local_framing _ _ _ hseg
  refine ⟨used, rfl, fun more => ?_⟩
  have := hused more
  unfold readFramed
  rw [this]
  simp [hargs, hk]

theorem local_readPrim (hr : Local r) (tag : UInt8) : Local (readPrim strict r tag) := by
  refine local_readByte.bind fun code => ?_
  cases MichelCodec.primitives[code.toNat]? with
  | none => exact .fail _
  | some p =>
    exact .ite (.fail _) (.ite (local_readNarrow hr _ _ _ _) (.ite (local_readComb _ _ _)
      (.ite (local_readFramed _ _ _) (.ite (local_readFramed _ _ _) (.fail _)))))

end

theorem local_readNode (strict : Bool) : ∀ fuel, Local (readNode strict fuel)
  | 0 => Local.fail _
  | fuel + 1 => by
    refine local_readByte.bind fun tag => ?_
    exact .ite (local_readSegment.bind fun _ => .pure _)
      (.ite (local_readSegment.bind fun _ => .ite (.fail _) (.pure _))
      (.ite (local_chunk.bind fun _ => .pure _) (.ite ((local_readNodes _).bind fun _ => .pure _)
      (local_readPrim (local_readNode strict fuel) tag))))

/-- Reading a node always advances. -/
theorem readNode_advances {strict : Bool} {fuel : ℕ} {bs rest : Bytes} {n : Node}
    (h : readNode strict fuel bs = .ok (n, rest)) : rest.length < bs.length := by
  cases fuel with
  | zero => cases h
  | succ fuel =>
    obtain ⟨tag, mid, htag, h⟩ := bind_eq_ok.mp h
    have hle : rest.length ≤ mid.length := by
      refine Local.length_le ?_ h
      exact .ite (local_readSegment.bind fun _ => .pure _)
        (.ite (local_readSegment.bind fun _ => .ite (.fail _) (.pure _))
        (.ite (local_chunk.bind fun _ => .pure _) (.ite ((local_readNodes _).bind fun _ => .pure _)
        (local_readPrim (local_readNode strict fuel) tag))))
    cases bs with
    | nil => cases htag
    | cons b bs =>
      cases htag
      simp only [List.length_cons]
      omega

/-! ## Fuel -/

private theorem agree_take (n k : ℕ) : Agree ReadError.outOfFuel n
    (take k fun _ => ReadError.reject : Reader UInt8 ReadError Bytes) (take k fun _ => .reject) := by
  refine .of_eq fun bs h => ?_
  unfold take at h
  split at h <;> cases h

private theorem agree_readByte (n : ℕ) : Agree ReadError.outOfFuel n readByte readByte := by
  refine .of_eq fun bs h => ?_
  cases bs <;> cases h

private theorem agree_readSegment (n : ℕ) : Agree ReadError.outOfFuel n readSegment readSegment :=
  (agree_take n 4).bind (Local.take _ _) fun _ => agree_take n _

private theorem agree_fail (n : ℕ) {α : Type} {e : ReadError} (h : e ≠ .outOfFuel) :
    Agree ReadError.outOfFuel n (fail e : Reader UInt8 ReadError α) (fail e) :=
  .of_eq fun _ he => h (Except.error.inj he)

private theorem length_le_of_readSegment {bs seg rest : Bytes}
    (h : readSegment bs = .ok (seg, rest)) : seg.length ≤ bs.length := by
  obtain ⟨len, mid, hlen, htake⟩ := bind_eq_ok.mp h
  obtain ⟨rfl, -⟩ := take_eq_ok hlen
  obtain ⟨rfl, -⟩ := take_eq_ok htake
  simp only [List.length_append]
  omega

section

variable {strict : Bool} {r r' : Reader UInt8 ReadError Node} {n : ℕ}

private theorem agree_readNodes (h : Agree ReadError.outOfFuel n r r')
    (hadv : ∀ bs a rest, r bs = .ok (a, rest) → rest.length < bs.length) :
    Agree ReadError.outOfFuel n (readNodes r) (readNodes r') := by
  refine (agree_readSegment n).bind_of local_readSegment (P := fun seg => seg.length ≤ n)
    (fun bs seg rest hbs hseg => (length_le_of_readSegment hseg).trans hbs) fun seg hseg bs _ => ?_
  obtain ⟨heq, hne⟩ := h.readAll hadv hseg (le_refl seg.length)
  unfold Reader.lift
  rw [← heq]
  refine ⟨rfl, fun he => hne ?_⟩
  cases hx : readAll r .outOfFuel seg.length seg with
  | error e =>
    rw [hx] at he
    rw [Except.error.inj he]
  | ok l =>
    rw [hx] at he
    cases he

private theorem agree_readAnnots (n : ℕ) (strict hasAnnot : Bool) :
    Agree ReadError.outOfFuel n (readAnnots strict hasAnnot) (readAnnots strict hasAnnot) :=
  .ite ((agree_readSegment n).bind local_readSegment fun _ =>
    .ite (.pure _) (agree_fail n (by simp))) (.pure _)

private theorem agree_readFramed (h : Agree ReadError.outOfFuel n r r')
    (hadv : ∀ bs a rest, r bs = .ok (a, rest) → rest.length < bs.length) (code : UInt8) (k : ℕ) :
    Agree ReadError.outOfFuel n (readFramed r code k) (readFramed r' code k) := by
  intro bs hbs
  have heq : readFramed r code k bs = readFramed r' code k bs := by
    unfold readFramed
    cases hframe : (do let seg ← readSegment; let text ← readSegment; pure (seg, text)) bs with
    | error e => rfl
    | ok p =>
      obtain ⟨⟨seg, text⟩, rest⟩ := p
      obtain ⟨seg', mid, hseg, hpair⟩ := bind_eq_ok.mp hframe
      obtain ⟨text', rest', -, hpure⟩ := bind_eq_ok.mp hpair
      cases hpure
      have hle := (length_le_of_readSegment hseg).trans hbs
      cases text with
      | nil => dsimp only; rw [(h.readAll hadv hle (le_refl seg.length)).1]
      | cons b text => rfl
  refine ⟨heq, fun he => ?_⟩
  unfold readFramed at he
  split at he
  · split at he
    · split at he <;> cases he
    · cases he
  · cases he

private theorem agree_readPrim (h : Agree ReadError.outOfFuel n r r') (hr : Local r)
    (hadv : ∀ bs a rest, r bs = .ok (a, rest) → rest.length < bs.length) (tag : UInt8) :
    Agree ReadError.outOfFuel n (readPrim strict r tag) (readPrim strict r' tag) := by
  refine (agree_readByte n).bind local_readByte fun code => ?_
  cases MichelCodec.primitives[code.toNat]? with
  | none => exact agree_fail n (by simp)
  | some p =>
    have hirr : ∀ {α : Type}, Agree ReadError.outOfFuel n (fail .irregular : Reader UInt8 ReadError α)
        (fail .irregular) := agree_fail n (by simp)
    refine .ite hirr (.ite (.ite hirr ?_) (.ite ?_ (.ite ?_ (.ite ?_ hirr))))
    · exact (h.times hr _).bind (hr.times _) fun _ =>
        (agree_readAnnots n strict _).bind (local_readAnnots strict _) fun _ => .pure _
    · exact (agree_readNodes h hadv).bind (local_readNodes r) fun _ =>
        (agree_readSegment n).bind local_readSegment fun _ =>
          .ite (.pure _) (.ite (.pure _) hirr)
    · exact agree_readFramed h hadv code 3
    · exact agree_readFramed h hadv code 4

end

/-- On inputs shorter than the fuel, more fuel changes nothing. -/
theorem agree_readNode (strict : Bool) : ∀ (n : ℕ) {fuel fuel' : ℕ}, n < fuel → n < fuel' →
    Agree ReadError.outOfFuel n (readNode strict fuel) (readNode strict fuel')
  | n, 0, _, h, _ => by omega
  | n, _ + 1, 0, _, h => by omega
  | 0, fuel + 1, fuel' + 1, _, _ => by
    intro bs hbs
    obtain rfl : bs = [] := List.eq_nil_of_length_eq_zero (by omega)
    exact ⟨rfl, fun h => by cases h⟩
  | n + 1, fuel + 1, fuel' + 1, hf, hf' => by
    intro bs hbs
    cases bs with
    | nil => exact ⟨rfl, fun h => by cases h⟩
    | cons tag bs =>
      have ih := agree_readNode strict n (show n < fuel by omega) (show n < fuel' by omega)
      have hadv : ∀ bs a rest, readNode strict fuel bs = .ok (a, rest) → rest.length < bs.length :=
        fun _ _ _ => readNode_advances
      have hbody : Agree ReadError.outOfFuel n (nodeBody strict (readNode strict fuel) tag)
          (nodeBody strict (readNode strict fuel') tag) := by
        refine .ite ?_ (.ite ?_ (.ite ?_ (.ite ?_ ?_)))
        · exact (agree_readSegment n).bind local_readSegment fun _ => .pure _
        · exact (agree_readSegment n).bind local_readSegment fun _ =>
            .ite (agree_fail n (by simp)) (.pure _)
        · exact Agree.bind (.of_eq fun _ => chunk_ne_error (by simp)) local_chunk fun _ => .pure _
        · exact (agree_readNodes ih hadv).bind (local_readNodes _) fun _ => .pure _
        · exact agree_readPrim ih (local_readNode strict fuel) hadv tag
      exact hbody bs (by simpa using hbs)

/-- Fuel above the length of the input is enough. -/
theorem readNode_ne_outOfFuel {strict : Bool} {fuel : ℕ} {bs : Bytes} (h : bs.length < fuel) :
    readNode strict fuel bs ≠ .error .outOfFuel :=
  (agree_readNode strict bs.length h h bs le_rfl).2

/-! ## Regular nodes -/

/-- The arguments and annotations the decoders agree on for a primitive. -/
def RegularPrim (strict : Bool) (p : String) (args : ℕ) (annots : Option Bytes) : Prop :=
  if args < 3 then
    (isLambda p = true → args = 0) ∧ (p = "view" → args = 0 ∧ annots = none) ∧
      ∀ t, annots = some t → regularAnnots strict t = true
  else
    (isPair p = true ∧ ∀ t, annots = some t →
        regularAnnots strict t = true ∧ t.head? ≠ some 0x20) ∨
      (isLambda p = true ∧ args = 3 ∧ annots = none) ∨ (p = "view" ∧ args = 4 ∧ annots = none)

mutual

/-- Nodes whose layout every decoder reads in the same way. -/
def Regular (strict : Bool) : Node → Prop
  | .int _ => True
  | .string text => strict = true → startsWithBom text = false
  | .bytes _ => True
  | .seq items => RegularAll strict items
  | .prim code args annots =>
    (∃ p, MichelCodec.primitives[code.toNat]? = some p ∧ (strict = true → p ≠ "PUSH") ∧
      RegularPrim strict p args.length annots) ∧ RegularAll strict args

/-- `Regular`, of every node. -/
def RegularAll (strict : Bool) : List Node → Prop
  | [] => True
  | n :: ns => Regular strict n ∧ RegularAll strict ns

end

theorem regularAll_iff (strict : Bool) (ns : List Node) :
    RegularAll strict ns ↔ ∀ n ∈ ns, Regular strict n := by
  induction ns with
  | nil => simp [RegularAll]
  | cons n ns ih => simp [RegularAll, ih]

theorem readsMany_wires {r : Reader UInt8 ReadError Node} {ns : List Node}
    (h : ∀ n ∈ ns, Reads r (wire n) n) : ReadsMany r (wires ns) ns := by
  induction ns with
  | nil => exact .nil
  | cons n ns ih =>
    exact .cons (wire_ne_nil n) (h n (by simp)) (ih fun m hm => h m (by simp [hm]))

private theorem readNodes_wires {r : Reader UInt8 ReadError Node} {ns : List Node}
    (h : ∀ n ∈ ns, Reads r (wire n) n) (hl : (wires ns).length < 2 ^ 32) :
    Reads (readNodes r) (lengthPrefixed (wires ns)) ns := by
  refine (readSegment_reads hl).bind_pure (lift_reads ?_)
  have hm := readsMany_wires h
  exact readAll_of_readsMany hm hm.length_le

private theorem readFramed_wires {r : Reader UInt8 ReadError Node} {ns : List Node} {code : UInt8}
    (h : ∀ n ∈ ns, Reads r (wire n) n) (hl : (wires ns).length < 2 ^ 32) :
    Reads (readFramed r code ns.length) (lengthPrefixed (wires ns) ++ lengthPrefixed [])
      (.prim code ns none) := by
  have hm := readsMany_wires h
  have hargs : readAll r ReadError.outOfFuel (wires ns).length (wires ns) = .ok ns :=
    readAll_of_readsMany hm hm.length_le
  have hframe : Reads (do let seg ← readSegment; let text ← readSegment; pure (seg, text))
      (lengthPrefixed (wires ns) ++ lengthPrefixed []) (wires ns, ([] : Bytes)) :=
    (readSegment_reads hl).bind ((readSegment_reads (by simp)).bind_pure (Reads.pure _))
  intro rest
  unfold readFramed
  rw [hframe rest]
  simp [hargs]

private theorem readAnnots_wire {strict : Bool} {annots : Option Bytes}
    (hl : (annots.getD []).length < 2 ^ 32)
    (h : ∀ t, annots = some t → regularAnnots strict t = true) :
    Reads (readAnnots strict annots.isSome) (annots.elim [] lengthPrefixed) annots := by
  cases annots with
  | none => exact Reads.pure _
  | some t =>
    refine (readSegment_reads (by simpa using hl)).bind_pure ?_
    rw [if_pos (h t rfl)]
    exact Reads.pure _

private theorem primTag_toNat {args : ℕ} (h : args < 3) (annots : Bool) :
    (primTag args annots).toNat = 3 + 2 * args + annots.toNat := by
  have := Bool.toNat_le annots
  simp [primTag]
  omega

private theorem exists_succ {n : Node} {fuel : ℕ} (h : depth n ≤ fuel) : ∃ k, fuel = k + 1 :=
  ⟨fuel - 1, by have := depth_pos n; omega⟩

/-- **The reader reads a regular node back from its layout**, and nothing after it. -/
theorem readNode_wire {strict : Bool} {n : Node} (hfit : Fits n) (hreg : Regular strict n) :
    ∀ {fuel : ℕ}, depth n ≤ fuel → Reads (readNode strict fuel) (wire n) n := by
  induction n with
  | int z =>
    intro fuel hf
    obtain ⟨fuel, rfl⟩ := exists_succ hf
    refine (readByte_reads 0).bind (v := intBytes z) ?_
    refine (chunk_reads (intBytes_chunk z)).bind_pure ?_
    rw [intValue_intBytes]
    exact Reads.pure _
  | string text =>
    intro fuel hf
    obtain ⟨fuel, rfl⟩ := exists_succ hf
    refine (readByte_reads 1).bind (v := lengthPrefixed text) ?_
    refine (readSegment_reads hfit).bind_pure ?_
    rw [if_neg]
    · exact Reads.pure _
    · rw [Bool.and_eq_true, not_and, Bool.not_eq_true]
      exact hreg
  | bytes content =>
    intro fuel hf
    obtain ⟨fuel, rfl⟩ := exists_succ hf
    refine (readByte_reads 10).bind (v := lengthPrefixed content) ?_
    exact (readSegment_reads hfit).bind_pure (Reads.pure _)
  | seq items ih =>
    intro fuel hf
    obtain ⟨fuel, rfl⟩ := exists_succ hf
    rw [depth] at hf
    rw [Fits, fitsAll_iff] at hfit
    rw [Regular, regularAll_iff] at hreg
    refine (readByte_reads 2).bind (v := lengthPrefixed (wires items)) ?_
    refine (readNodes_wires (fun n hn => ?_) hfit.2).bind_pure (Reads.pure _)
    exact ih n hn (hfit.1 n hn) (hreg n hn) ((depth_le_depths hn).trans (by omega))
  | prim code args annots ih =>
    intro fuel hf
    obtain ⟨fuel, rfl⟩ := exists_succ hf
    rw [depth] at hf
    rw [Fits, fitsAll_iff] at hfit
    rw [Regular, regularAll_iff] at hreg
    obtain ⟨hfits, hargs, hann⟩ := hfit
    obtain ⟨⟨p, hp, hpush, hshape⟩, hregs⟩ := hreg
    have hmem : ∀ n ∈ args, Reads (readNode strict fuel) (wire n) n := fun n hn =>
      ih n hn (hfits n hn) (hregs n hn) ((depth_le_depths hn).trans (by omega))
    have hnp : (strict && p == "PUSH") = false := by
      cases strict
      · rfl
      · simpa using hpush rfl
    rw [wire]
    unfold RegularPrim at hshape
    by_cases h3 : args.length < 3
    · rw [if_pos h3] at hshape ⊢
      obtain ⟨hlam, hview, hwords⟩ := hshape
      have htag := primTag_toNat h3 annots.isSome
      have hb := Bool.toNat_le annots.isSome
      have hne : ∀ k : UInt8, k.toNat < 3 ∨ k.toNat = 10 ∨ k.toNat = 9 →
          primTag args.length annots.isSome ≠ k := fun k hk he => by
        rw [he] at htag
        omega
      have hlt : decide (10 < primTag args.length annots.isSome) = false := by
        rw [decide_eq_false_iff_not, UInt8.lt_iff_toNat_lt, htag]
        simp
        omega
      have hcount : ((primTag args.length annots.isSome).toNat - 3) / 2 = args.length := by omega
      have hflag : (((primTag args.length annots.isSome).toNat - 3) % 2 == 1) = annots.isSome := by
        cases h : annots.isSome <;> rw [h] at htag hb <;> simp at htag hb ⊢ <;> omega
      have hcond : ((isLambda p && args.length != 0) ||
          (p == "view" && (args.length != 0 || annots.isSome))) = false := by
        rw [Bool.or_eq_false_iff]
        constructor
        · cases hl : isLambda p
          · rfl
          · simp [hlam hl]
        · by_cases hv : p = "view"
          · simp [hview hv]
          · simp [hv]
      refine (readByte_reads _).bind (v := code :: (wires args ++ annots.elim [] lengthPrefixed)) ?_
      rw [nodeBody, if_neg (hne 10 (by decide)), if_neg (hne 1 (by decide)), if_neg (hne 0 (by decide)),
        if_neg (hne 2 (by decide))]
      refine (readByte_reads code).bind (v := wires args ++ annots.elim [] lengthPrefixed) ?_
      simp only [hp, hnp]
      rw [hlt, Bool.or_self, if_neg Bool.false_ne_true, if_pos (hne 9 (by decide)), hcount, hflag, readNarrow, hcond,
        if_neg Bool.false_ne_true]
      refine (readsMany_wires hmem).times.bind ?_
      exact (readAnnots_wire hann hwords).bind_pure (Reads.pure (Node.prim code args annots))
    · rw [if_neg h3] at hshape ⊢
      have hargs := hargs (by omega)
      refine (readByte_reads _).bind (v := code :: (lengthPrefixed (wires args) ++ lengthPrefixed (annots.getD [])))
        ?_
      rw [nodeBody, if_neg (by decide), if_neg (by decide), if_neg (by decide), if_neg (by decide)]
      refine (readByte_reads code).bind (v := lengthPrefixed (wires args) ++ lengthPrefixed (annots.getD [])) ?_
      simp only [hp, hnp]
      rw [if_neg (by decide), if_neg (by decide)]
      rcases hshape with ⟨hpair, hwords⟩ | ⟨hlam, hk, rfl⟩ | ⟨rfl, hk, rfl⟩
      · rw [if_pos hpair]
        refine (readNodes_wires hmem hargs).bind ((readSegment_reads hann).bind_pure ?_)
        cases annots with
        | none => exact Reads.pure _
        | some t =>
          obtain ⟨hr, hh⟩ := hwords t rfl
          have hempty : t.isEmpty = false := by
            simp only [regularAnnots, Bool.and_eq_true, Bool.not_eq_true'] at hr
            exact hr.1.1
          simp only [Option.getD_some, hempty, Bool.false_eq_true, if_false, hr, Bool.true_and]
          rw [if_pos (by simpa using hh)]
          exact Reads.pure _
      · have hnpair : isPair p = false := by
          simp only [isLambda, Bool.or_eq_true, beq_iff_eq] at hlam
          rcases hlam with rfl | rfl <;> rfl
        rw [hnpair, hlam, if_neg Bool.false_ne_true, if_pos rfl, ← hk]
        exact readFramed_wires hmem hargs
      · rw [if_neg (by decide), if_neg (by decide), if_pos (by decide), ← hk]
        exact readFramed_wires hmem hargs

/-! ## Following the reader -/

/-- Malformed for every decoder. -/
def Strict (e : ReadError) : Prop := e = .reject

/-- The expression of a node, up to empty lists. -/
def IsExpr (n : Node) (e : Expr) : Prop := e.norm = expr n

/-- The octets of a number are found whatever the error for an input that ends inside it. -/
theorem follows_chunk {ε : Type} {thrown : ε → Prop} {e : ε} (ht : thrown e) :
    Follows Strict thrown (fun c c' => c = c' ∧ c ≠ []) (chunk ReadError.reject) (chunk e) := by
  refine fun bs => ⟨fun c rest he => ?_, fun _ he _ => ?_⟩
  · obtain ⟨hc, rfl⟩ := chunk_eq_ok he
    exact ⟨c, chunk_reads hc rest, rfl, hc.ne_nil⟩
  · cases h : chunk e bs with
    | error e' =>
      have he' : e' = e := by
        by_contra hne
        exact chunk_ne_error (Ne.symm hne) h
      exact ⟨e', rfl, he' ▸ ht⟩
    | ok p =>
      obtain ⟨hc, rfl⟩ := chunk_eq_ok (show chunk e bs = .ok (p.1, p.2) from h)
      rw [chunk_reads hc p.2] at he
      cases he

theorem misaligned_of_regular {strict : Bool} {t : Bytes} (h : regularAnnots strict t = true) :
    misaligned t = false ∧ t ≠ [] := by
  simp only [regularAnnots, Bool.and_eq_true, Bool.not_eq_true'] at h
  exact ⟨h.1.2, by simpa using h.1.1⟩

theorem norm_eq_exprs {args : List Expr} {ns : List Node}
    (h : List.Forall₂ IsExpr ns args) : args.map Expr.norm = exprs ns := by
  rw [exprs_eq_map]
  induction h with
  | nil => rfl
  | cons h _ ih => rw [List.map_cons, List.map_cons, ih, h]

theorem normOption_args {args : List Expr} {ns : List Node}
    (h : List.Forall₂ IsExpr ns args) :
    Expr.normOption (some (args.map Expr.norm)) =
      if ns.length = 0 then none else some (exprs ns) := by
  have hmap := norm_eq_exprs h
  cases h with
  | nil => rfl
  | cons h t => simp [← hmap, Expr.normOption]

theorem normOption_words {t : Option Bytes} :
    Expr.normOption (t.map fun t => splitWords (utf8Decode t)) =
      t.map fun t => splitWords (utf8Decode t) := by
  cases t with
  | none => rfl
  | some t =>
    obtain ⟨w, ws, h⟩ := List.exists_cons_of_ne_nil (List.splitOn_ne_nil (0x20 : UInt16) (utf8Decode t))
    simp [splitWords, h, Expr.normOption]

/-- A primitive expression is that of a node when its name, arguments and words are. -/
theorem isExpr_prim {code : UInt8} {p : String} {args : List Expr} {ns : List Node}
    {t : Option Bytes} {o : Option (List Expr)} (hp : MichelCodec.primitives[code.toNat]? = some p)
    (h : List.Forall₂ IsExpr ns args) (ho : o = some args ∨ (o = none ∧ args = [])) :
    IsExpr (.prim code ns t) (.prim p o (t.map fun t => splitWords (utf8Decode t))) := by
  have hname : MichelCodec.primitives.getD code.toNat "" = p := by
    rw [List.getD_eq_getElem?_getD, hp]
    rfl
  have hargs := normOption_args h
  rw [IsExpr, Expr.norm_prim, normOption_words, expr, hname]
  congr 1
  rcases ho with rfl | ⟨rfl, rfl⟩
  · exact hargs
  · cases h
    rfl

end Micheline
