import Taquito.MichelCodec.Binary
import Taquito.Micheline.Reading

/-!
# What `readExpr` reads without a type

Below anything but a `PUSH` the second pass has the transforms of the first, so it reads the same
children (`twoPasses_eq`), and `readExpr` follows the strict reader of the format
(`follows_readExpr`): it reads what that reader reads, and rejects what that reader rejects.
-/

open BigEndian Varint Js Micheline Reader

namespace MichelCodec

/-! ## One pass -/

/-- Where every node gets the same transforms, the second pass repeats the first. -/
theorem twoPasses_eq {body : Supply → Reader UInt8 MichelError (List Expr)}
    {args : List Expr → Except MichelError Supply}
    (h : ∀ res, args res = .ok (.forever (.ok .passThrough))) :
    twoPasses body args = body (.forever (.ok .passThrough)) := by
  funext bs
  unfold twoPasses
  cases hb : body (.forever (.ok .passThrough)) bs with
  | error e => rfl
  | ok p => simp [h, hb]

section

variable {read : Transform → Reader UInt8 MichelError Expr} {tf : Transform}

theorem readWhile_forever (fuel : ℕ) (bs : Bytes) :
    readWhile read fuel (.forever (.ok tf)) bs = readAll (read tf) .outOfFuel fuel bs := by
  induction fuel generalizing bs with
  | zero => cases bs <;> rfl
  | succ fuel ih =>
    cases bs with
    | nil => rfl
    | cons b bs => simp [readWhile, readAll, Supply.next, Except.map, ih]

theorem readTimes_forever (n : ℕ) :
    readTimes read n (.forever (.ok tf)) = times (read tf) n := by
  induction n with
  | zero => rfl
  | succ n ih =>
    funext bs
    rw [readTimes, times, bind_apply]
    simp [lift, Supply.next, Except.map, ih]

end

/-- The sum over the octets is the value of the numeral. -/
theorem intOfOctets_eq {buf : Bytes} (h : buf ≠ []) : intOfOctets buf = intValue buf := by
  obtain ⟨b, bs, rfl⟩ := List.exists_cons_of_ne_nil h
  have hfold : bs.foldr (fun (byte : UInt8) val => val * 128 + byte.toNat % 128) 0 = natValue bs := by
    clear h
    induction bs with
    | nil => rfl
    | cons c bs ih => rw [List.foldr_cons, ih, natValue, Nat.add_comm, Nat.mul_comm]
  have hsign : (b.toNat % 128 / 64 = 1) ↔ 64 ≤ b.toNat % 128 := by omega
  simp only [intOfOctets, List.tail_cons, List.headD_cons, hfold, hsign, intValue, signedValue,
    decide_eq_true_eq]
  rw [Nat.add_comm, Nat.mul_comm]

/-! ## Following the reader of the format -/

/-- What the decoder throws: not the bound of the model. -/
def Thrown (e : MichelError) : Prop := e ≠ .outOfFuel

theorem follows_readUint8 : Follows Strict Thrown Eq readByte readUint8 := by
  intro bs
  cases bs with
  | nil => exact ⟨fun a rest he => (by cases he), fun e _ _ => ⟨_, rfl, by simp [Thrown, boundsErr]⟩⟩
  | cons b bs => exact ⟨fun a rest he => (by cases he; exact ⟨_, rfl, rfl⟩), fun e he => (by cases he)⟩

theorem follows_readBytes (n : ℕ) :
    Follows Strict Thrown (fun u v => u = v ∧ u.length = n) (take n fun _ => ReadError.reject)
      (readBytes n) := by
  intro bs
  refine ⟨fun u rest he => ?_, fun e he _ => ?_⟩
  · obtain ⟨rfl, hn⟩ := take_eq_ok he
    exact ⟨u, take_reads hn rest, rfl, hn⟩
  · unfold take at he
    split at he
    · next hlt => exact ⟨_, if_pos hlt, by simp [Thrown, boundsErr]⟩
    · cases he

/-- A length, and what is done with the octets it announces. -/
theorem follows_segment {α β : Type} {S : α → β → Prop} {f : Bytes → Reader UInt8 ReadError α}
    {g : ℕ → Reader UInt8 MichelError β}
    (h : ∀ len, Follows Strict Thrown S (take len (fun _ => ReadError.reject) >>= f) (g len)) :
    Follows Strict Thrown S (readSegment >>= f) (readUint32 >>= g) := by
  have hseg : (readSegment >>= f) =
      (take 4 fun _ => ReadError.reject) >>= fun len => take (beValue len) (fun _ => .reject) >>= f := by
    rw [readSegment, bind_assoc]
  have hlen : (readUint32 >>= g) = readBytes 4 >>= fun len => g (beValue len) := by
    rw [readUint32, bind_assoc]
    simp only [pure_bind]
  rw [hseg, hlen]
  refine (follows_readBytes 4).bind fun len len' he => ?_
  rw [← he.1]
  exact h _

section

variable {strict : Bool} {r : Reader UInt8 ReadError Node} {d : Reader UInt8 MichelError Expr}
  {read : Transform → Reader UInt8 MichelError Expr}

theorem follows_readItems (h : Follows Strict Thrown IsExpr r (read .passThrough)) (len : ℕ) :
    Follows Strict Thrown (List.Forall₂ IsExpr)
      (take len (fun _ => ReadError.reject) >>= fun seg => lift (readAll r .outOfFuel seg.length seg))
      (readItems read len (.forever (.ok .passThrough))) := by
  refine (follows_readBytes len).bind fun seg seg' he => ?_
  obtain ⟨rfl, -⟩ := he
  rw [readWhile_forever]
  have hspent : ¬ Strict .outOfFuel := by simp [Strict]
  exact Follows.lift (h.readAll hspent seg.length seg).1 (h.readAll hspent seg.length seg).2

private theorem textDecode_eq {t : Bytes} (h : startsWithBom t = false) :
    textDecode t = utf8Decode t := by
  unfold textDecode
  split
  · simp [startsWithBom] at h
  · rfl

private theorem not_bom {t : Bytes} (h : regularAnnots true t = true) :
    textDecode t = utf8Decode t := by
  refine textDecode_eq ?_
  simp only [regularAnnots, Bool.true_and, Bool.and_eq_true, Bool.not_eq_true'] at h
  exact h.2

/-- The annotations of tags `3` to `8`. -/
theorem follows_readAnnotations (hasAnnot : Bool) :
    Follows Strict Thrown (fun t words => words = t.map fun t => splitWords (utf8Decode t))
      (readAnnots true hasAnnot) (readAnnotations hasAnnot) := by
  unfold readAnnots readAnnotations
  cases hasAnnot with
  | false => exact .pure rfl
  | true =>
    rw [if_pos rfl, if_pos rfl]
    refine follows_segment fun len => ?_
    split
    · refine (follows_readBytes len).bind fun t t' he => ?_
      obtain ⟨rfl, -⟩ := he
      split
      · next hreg => exact .pure (by rw [not_bom hreg]; rfl)
      · exact .fail _ (by simp [Strict])
    · next hlen =>
      obtain rfl : len = 0 := by simpa using hlen
      have htake : (take 0 fun _ => ReadError.reject : Reader UInt8 ReadError Bytes) = pure [] := by
        funext bs
        simp [take]
      rw [htake, pure_bind, if_neg (by simp [regularAnnots])]
      exact .fail _ (by simp [Strict])

/-- The annotations of tag `9`: none if the announced length is zero. -/
theorem follows_combAnnotations {β γ : Type} {S : β → γ → Prop}
    {f : Bytes → Reader UInt8 ReadError β} {g : Option (List JSString) → Reader UInt8 MichelError γ}
    (hnil : Follows Strict Thrown S (f []) (g none))
    (hcons : ∀ t, t ≠ [] → Follows Strict Thrown S (f t) (g (some (splitWords (textDecode t))))) :
    Follows Strict Thrown S (readSegment >>= f) (readAnnotations true >>= g) := by
  unfold readAnnotations
  rw [if_pos rfl, bind_assoc]
  refine follows_segment fun len => ?_
  split
  · next hlen =>
    rw [bind_assoc]
    refine (follows_readBytes len).bind fun t t' he => ?_
    obtain ⟨rfl, hl⟩ := he
    rw [pure_bind]
    exact hcons t fun hn => hlen (by rw [← hl, hn]; rfl)
  · next hlen =>
    obtain rfl : len = 0 := by simpa using hlen
    have htake : (take 0 fun _ => ReadError.reject : Reader UInt8 ReadError Bytes) = pure [] := by
      funext bs
      simp [take]
    rw [htake, pure_bind, pure_bind]
    exact hnil

/-- The arguments of tag `9`. -/
theorem follows_readArguments (h : Follows Strict Thrown IsExpr r (read .passThrough)) :
    Follows Strict Thrown (List.Forall₂ IsExpr) (readNodes r)
      (readArguments read 3 (.forever (.ok .passThrough))) := by
  rw [readArguments, if_neg (by omega)]
  exact follows_segment (follows_readItems h)

private theorem argsField_cases {n : ℕ} {args : List Expr} {ns : List Node}
    (h : List.Forall₂ IsExpr ns args) (hn : n = 0 → ns = []) :
    argsField n args = some args ∨ (argsField n args = none ∧ args = []) := by
  by_cases hz : n = 0
  · right
    rw [hn hz] at h
    cases h
    simp [argsField, hz]
  · left
    simp [argsField, hz]

/-- A framed node, for a decoder that reads every primitive of tag `9` in the same way. -/
private theorem follows_framed (h : Follows Strict Thrown IsExpr r (read .passThrough)) {code : UInt8}
    {p : String} (hp : primitives[code.toNat]? = some p) (k : ℕ) :
    Follows Strict Thrown IsExpr (readFramed r code k) (do
      let args ← readArguments read 3 (.forever (.ok .passThrough))
      let annots ← readAnnotations true
      lift (.ok (.prim p (some args) annots))) := by
  intro bs
  refine ⟨fun n rest he => ?_, fun e he hs => absurd hs (readFramed_ne_reject he)⟩
  obtain ⟨seg, args, hseg, hargs, -, rfl⟩ := readFramed_eq_ok he
  -- the same input, read by a reader of the general form
  have hgeneral : Follows Strict Thrown IsExpr (do
        let ns ← readNodes r
        let text ← readSegment
        if text = [] then return .prim code ns none else fail .irregular) (do
      let args ← readArguments read 3 (.forever (.ok .passThrough))
      let annots ← readAnnotations true
      lift (.ok (.prim p (some args) annots))) := by
    refine (follows_readArguments h).bind fun ns es hes => ?_
    refine follows_combAnnotations ?_ fun t ht => ?_
    · rw [if_pos rfl]
      exact .pure (isExpr_prim (t := none) hp hes (.inl rfl))
    · rw [if_neg ht]
      exact .fail _ (by simp [Strict])
  refine (hgeneral bs).1 _ _ ?_
  obtain ⟨seg', mid, hread, hrest⟩ := bind_eq_ok.mp hseg
  obtain ⟨text, rest', htext, hpure⟩ := bind_eq_ok.mp hrest
  simp only [pure_apply, Except.ok.injEq, Prod.mk.injEq] at hpure
  obtain ⟨⟨rfl, rfl⟩, rfl⟩ := hpure
  have hnodes : readNodes r bs = .ok (args, mid) := by
    rw [readNodes, bind_of_ok hread, hargs]
    rfl
  rw [bind_of_ok hnodes, bind_of_ok htext]
  rfl

end

/-- A primitive that is no `PUSH`, after its code. -/
private theorem primBody_eq (host : Host) (read : Transform → Reader UInt8 MichelError Expr)
    {p : String} (hpush : p ≠ "PUSH") (argn : ℕ) (present : Bool) :
    (do
      let args ← twoPasses (readArguments read argn) fun res =>
        readSupply .passThrough (.prim p (argsField argn res) none)
      let annots ← readAnnotations present
      lift (readResult host .passThrough (.prim p (argsField argn args) annots)) :
        Reader UInt8 MichelError Expr) =
    (do
      let args ← readArguments read argn (.forever (.ok .passThrough))
      let annots ← readAnnotations present
      lift (.ok (.prim p (argsField argn args) annots))) := by
  rw [twoPasses_eq]
  · rfl
  · intro res
    rw [readSupply, passThroughSupply, if_neg hpush]
    rfl

private theorem lift_ok (e : Expr) :
    (lift (.ok e) : Reader UInt8 MichelError Expr) = pure e := rfl

section

variable {r : Reader UInt8 ReadError Node} {read : Transform → Reader UInt8 MichelError Expr}

/-- Tags `3` to `8`. -/
private theorem follows_narrow (h : Follows Strict Thrown IsExpr r (read .passThrough)) {code : UInt8}
    {p : String} (hp : primitives[code.toNat]? = some p) {argn : ℕ} (hlt : argn < 3)
    (hasAnnot : Bool) :
    Follows Strict Thrown IsExpr (readNarrow true r code p argn hasAnnot) (do
      let args ← readArguments read argn (.forever (.ok .passThrough))
      let annots ← readAnnotations hasAnnot
      lift (.ok (.prim p (argsField argn args) annots))) := by
  unfold readNarrow readArguments
  rw [if_pos hlt, readTimes_forever]
  split
  · exact .fail _ (by simp [Strict])
  · -- the number of arguments read is `argn`
    have htimes : Follows Strict Thrown (fun ns es => List.Forall₂ IsExpr ns es ∧ ns.length = argn)
        (times r argn) (times (read .passThrough) argn) := by
      intro bs
      refine ⟨fun ns rest he => ?_, ((h.times argn) bs).2⟩
      obtain ⟨es, hes, hrel⟩ := ((h.times argn) bs).1 ns rest he
      exact ⟨es, hes, hrel, times_length he⟩
    refine htimes.bind fun ns es hes => ?_
    refine (follows_readAnnotations hasAnnot).bind fun t words hw => ?_
    subst hw
    refine .pure (isExpr_prim hp hes.1 (argsField_cases hes.1 fun hz => ?_))
    exact List.eq_nil_of_length_eq_zero (hes.2.trans hz)

/-- Tag `9` on a pair. -/
private theorem follows_comb (h : Follows Strict Thrown IsExpr r (read .passThrough)) {code : UInt8}
    {p : String} (hp : primitives[code.toNat]? = some p) :
    Follows Strict Thrown IsExpr (readComb true r code) (do
      let args ← readArguments read 3 (.forever (.ok .passThrough))
      let annots ← readAnnotations true
      lift (.ok (.prim p (some args) annots))) := by
  refine (follows_readArguments h).bind fun ns es hes => ?_
  refine follows_combAnnotations ?_ fun t ht => ?_
  · exact .pure (isExpr_prim (t := none) hp hes (.inl rfl))
  · rw [if_neg (by simpa using ht)]
    split
    · next hreg =>
      rw [Bool.and_eq_true] at hreg
      rw [not_bom hreg.1]
      exact .pure (isExpr_prim (t := some t) hp hes (.inl rfl))
    · exact .fail _ (by simp [Strict])

theorem follows_readPrim (host : Host) (h : Follows Strict Thrown IsExpr r (read .passThrough)) {tag : UInt8}
    (htag : 3 ≤ tag.toNat) (h9 : tag.toNat ≤ 9) :
    Follows Strict Thrown IsExpr (Micheline.readPrim true r tag) (readPrim host read tag .passThrough) := by
  refine follows_readUint8.bind fun code code' he => ?_
  subst he
  cases hp : primitives[code.toNat]? with
  | none => exact .fail_fail (by simp [Thrown])
  | some p =>
    dsimp only
    split
    · exact .fail _ (by simp [Strict])
    next hirr =>
    have hpush : p ≠ "PUSH" := by
      rintro rfl
      simp at hirr
    rw [primBody_eq host read hpush]
    split
    · next hne =>
      have hlt : (tag.toNat - 3) / 2 < 3 := by
        have : tag.toNat ≠ 9 := fun he => hne (UInt8.toNat_inj.mp he)
        omega
      have hpresent : ((tag.toNat - 3) % 2 == 1 || (tag.toNat - 3) / 2 == 3) =
          ((tag.toNat - 3) % 2 == 1) := by
        rw [Bool.or_eq_left_iff_imp]
        intro h3
        rw [beq_iff_eq] at h3
        omega
      rw [hpresent]
      exact follows_narrow h hp hlt _
    · next hnine =>
      obtain rfl : tag = 9 := by simpa using hnine
      have hargs : ((9 : UInt8).toNat - 3) / 2 = 3 := rfl
      have hpresent : (((9 : UInt8).toNat - 3) % 2 == 1 || ((9 : UInt8).toNat - 3) / 2 == 3) = true :=
        rfl
      have hfield : ∀ args, argsField 3 args = some args := fun _ => rfl
      rw [hpresent, hargs]
      simp only [hfield]
      split
      · exact follows_comb h hp
      split
      · exact follows_framed h hp 3
      split
      · exact follows_framed h hp 4
      · exact .fail _ (by simp [Strict])

end

/-- A sequence, after its tag. -/
private theorem sequence_eq (host : Host) (read : Transform → Reader UInt8 MichelError Expr) :
    (do
      let length ← readUint32
      let res ← twoPasses (readItems read length) fun res => readSupply .passThrough (.seq res)
      lift (readResult host .passThrough (.seq res)) : Reader UInt8 MichelError Expr) =
    (do
      let res ← readArguments read 3 (.forever (.ok .passThrough))
      return .seq res) := by
  have hpass : ∀ length, twoPasses (readItems read length)
      (fun res => readSupply .passThrough (.seq res)) =
        readItems read length (.forever (.ok .passThrough)) := fun length =>
    twoPasses_eq fun _ => rfl
  simp only [hpass, readArguments, if_neg (show ¬ 3 < 3 by omega), bind_assoc]
  rfl

/-- **The decoder follows the strict reader of the format.** -/
theorem follows_readExpr (host : Host) (fuel : ℕ) :
    Follows Strict Thrown IsExpr (readNode true fuel) (readExpr host fuel .passThrough) := by
  induction fuel with
  | zero => exact .fail _ (by simp [Strict])
  | succ fuel ih =>
    refine follows_readUint8.bind fun tag tag' he => ?_
    subst he
    unfold nodeBody
    by_cases h10 : tag = 10
    · subst h10
      refine follows_segment fun len => ?_
      refine (follows_readBytes len).bind fun t t' he => ?_
      obtain ⟨rfl, -⟩ := he
      exact .pure rfl
    by_cases h1 : tag = 1
    · subst h1
      refine follows_segment fun len => ?_
      refine (follows_readBytes len).bind fun t t' he => ?_
      obtain ⟨rfl, -⟩ := he
      split
      · exact .fail _ (by simp [Strict])
      · next hbom =>
        refine .pure ?_
        rw [IsExpr, textDecode_eq (by simpa using hbom)]
        rfl
    by_cases h0 : tag = 0
    · subst h0
      refine (follows_chunk (by simp [Thrown, boundsErr])).bind fun c c' hc => .pure ?_
      obtain ⟨rfl, hne⟩ := hc
      rw [intOfOctets_eq hne]
      rfl
    by_cases h2 : tag = 2
    · subst h2
      rw [if_neg h10, if_neg h1, if_neg h0, if_pos rfl, if_neg h0, if_neg h1, if_neg h10, if_pos rfl,
        sequence_eq]
      refine (follows_readArguments ih).bind fun ns es hes => .pure ?_
      rw [IsExpr, Expr.norm_seq, expr, norm_eq_exprs hes]
    have hn0 : tag.toNat ≠ 0 := fun he => h0 (UInt8.toNat_inj.mp he)
    have hn1 : tag.toNat ≠ 1 := fun he => h1 (UInt8.toNat_inj.mp he)
    have hn2 : tag.toNat ≠ 2 := fun he => h2 (UInt8.toNat_inj.mp he)
    rw [if_neg h10, if_neg h1, if_neg h0, if_neg h2, if_neg h0, if_neg h1, if_neg h10, if_neg h2]
    split
    · next hbig =>
      -- a tag the format does not have: the reader rejects it or calls it irregular
      rw [UInt8.lt_iff_toNat_lt] at hbig
      refine .fail_right (fun bs n rest he => ?_) (by simp [Thrown])
      obtain ⟨code, mid, -, he⟩ := bind_eq_ok.mp he
      cases hp : primitives[code.toNat]? with
      | none => simp [hp] at he
      | some p =>
        have hlt : (10 : UInt8) < tag := by
          rw [UInt8.lt_iff_toNat_lt]
          have : tag.toNat ≠ 10 := fun he => h10 (UInt8.toNat_inj.mp he)
          have : (10 : UInt8).toNat = 10 := rfl
          have : (9 : UInt8).toNat = 9 := rfl
          omega
        simp [hp, hlt] at he
    · next hbig =>
      rw [UInt8.lt_iff_toNat_lt] at hbig
      exact follows_readPrim host ih (by omega) (by simpa using hbig)

end MichelCodec
