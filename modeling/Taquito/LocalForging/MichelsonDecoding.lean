import Taquito.LocalForging.MichelsonCodec
import Taquito.Micheline.Reading

/-!
# What the Micheline decoder of the forger returns

`valueDecoder` follows the reader of the binary form (`follows_readNode`): where that reader returns
a node, the decoder returns the node's expression and leaves the same octets, and what the reader
rejects the decoder rejects. The decoder is local (`local_valueDecode`), and the fuel of
`valueDecode` is always enough (`valueDecode_ne_outOfFuel`).
-/

open BigEndian Varint Js Micheline Reader

namespace LocalForging

/-! ## Integers -/

private theorem binaryDigits_eq {k x : ℕ} (hk : k = 6 ∨ k = 7) (hx : x < 256) :
    binaryDigits k x = (fixedDigits 2 k x).map digitChar := by
  have hlen : (leadingDigits 2 x).length ≤ 8 :=
    (leadingDigits_length_le (by decide) (by decide)).mpr hx
  have height := @replicate_leadingDigits 2 (by decide) 8 x (by decide) hx
  have hsplit : fixedDigits 2 8 x = fixedDigits 2 (8 - k) (x / 2 ^ k) ++ fixedDigits 2 k x := by
    rw [← fixedDigits_add, show 8 - k + k = 8 by omega]
  have hdrop : fixedDigits 2 k x = (fixedDigits 2 8 x).drop (8 - k) := by
    rw [hsplit, List.drop_left' (fixedDigits_length 2 (8 - k) _)]
  have hfixed : fixedDigits 2 k x = List.replicate (k - ((leadingDigits 2 x).length -
      ((leadingDigits 2 x).length - k))) 0 ++
      (leadingDigits 2 x).drop ((leadingDigits 2 x).length - k) := by
    rw [hdrop, ← height, List.drop_append, List.drop_replicate, List.length_replicate]
    congr 2 <;> omega
  rw [hfixed, binaryDigits, padStart, numberText]
  simp only [List.length_map, List.length_drop, List.map_append, List.map_replicate, List.map_drop]

private theorem ofDigitsBE_append (b : ℕ) (l m : List ℕ) :
    ofDigitsBE b (l ++ m) = ofDigitsBE b l * b ^ m.length + ofDigitsBE b m := by
  induction m using List.reverseRecOn with
  | nil => simp
  | append_singleton m d ih =>
    rw [← List.append_assoc, ofDigitsBE_concat, ofDigitsBE_concat, ih, List.length_append,
      List.length_singleton, pow_succ]
    ring

private theorem ofDigitsBE_groups (cs : Bytes) :
    ofDigitsBE 2 (cs.map fun x => fixedDigits 2 7 x.toNat).reverse.flatten = natValue cs := by
  induction cs with
  | nil => rfl
  | cons c cs ih =>
    rw [List.map_cons, List.reverse_cons, List.flatten_append, ofDigitsBE_append, ih, natValue,
      List.flatten_singleton, ofDigitsBE_fixedDigits, fixedDigits_length]
    omega

/-- The text of binary digits is the text of the chunk's integer. -/
theorem chunkInt_eq {cs : Bytes} (h : cs ≠ []) : chunkInt cs = .int (intText (intValue cs)) := by
  obtain ⟨c, cs, rfl⟩ := List.exists_cons_of_ne_nil h
  have hlt := c.toNat_lt
  have hgroups : (cs.map fun x => binaryDigits 7 x.toNat) =
      cs.map fun x => (fixedDigits 2 7 x.toNat).map digitChar := by
    refine List.map_congr_left fun x _ => ?_
    exact binaryDigits_eq (.inr rfl) x.toNat_lt
  have hflat : (binaryDigits 6 (c.toNat % 128) ::
      cs.map fun x => binaryDigits 7 x.toNat).reverse.flatten =
      ((cs.map fun x => fixedDigits 2 7 x.toNat).reverse.flatten ++
        fixedDigits 2 6 (c.toNat % 128)).map digitChar := by
    rw [hgroups, binaryDigits_eq (.inl rfl) (by omega), List.reverse_cons, List.flatten_append,
      List.flatten_singleton, List.map_append, List.map_flatten, List.map_reverse, List.map_map]
    rfl
  have hdigits : ∀ d ∈ (cs.map fun x => fixedDigits 2 7 x.toNat).reverse.flatten ++
      fixedDigits 2 6 (c.toNat % 128), d < 2 := by
    intro d hd
    rcases List.mem_append.mp hd with hd | hd
    · obtain ⟨l, hl, hd⟩ := List.mem_flatten.mp hd
      obtain ⟨x, -, rfl⟩ := List.mem_map.mp (List.mem_reverse.mp hl)
      exact fixedDigits_lt (by omega) hd
    · exact fixedDigits_lt (by omega) hd
  have hne : (cs.map fun x => fixedDigits 2 7 x.toNat).reverse.flatten ++
      fixedDigits 2 6 (c.toNat % 128) ≠ [] := by
    intro he
    have := congrArg List.length he
    simp at this
  have hval : ofDigitsBE 2 ((cs.map fun x => fixedDigits 2 7 x.toNat).reverse.flatten ++
      fixedDigits 2 6 (c.toNat % 128)) = c.toNat % 64 + 64 * natValue cs := by
    rw [ofDigitsBE_append, ofDigitsBE_groups, ofDigitsBE_fixedDigits, fixedDigits_length]
    omega
  simp only [chunkInt, hflat]
  rw [digitsValue_map (by omega) hne hdigits, hval]
  simp only [Option.getD_some, intValue, signedValue, decide_eq_true_eq]

/-! ## Annotations -/

private theorem hexByte_space {b : UInt8} :
    digitChar (b.toNat / 16) = 50 ∧ digitChar (b.toNat % 16) = 48 ↔ b = 0x20 := by
  have key : ∀ i j : Fin 16, (digitChar i.val = 50 ∧ digitChar j.val = 48) ↔
      (i.val = 2 ∧ j.val = 0) := by decide
  have hb := b.toNat_lt
  rw [← UInt8.toNat_inj]
  refine (key ⟨b.toNat / 16, by omega⟩ ⟨b.toNat % 16, by omega⟩).trans ?_
  show b.toNat / 16 = 2 ∧ b.toNat % 16 = 0 ↔ b.toNat = 32
  omega

private theorem hexDigits_space {b c : UInt8} :
    digitChar (b.toNat % 16) = 50 ∧ digitChar (c.toNat / 16) = 48 ↔
      b.toNat % 16 = 2 ∧ c.toNat / 16 = 0 := by
  have key : ∀ i j : Fin 16, (digitChar i.val = 50 ∧ digitChar j.val = 48) ↔
      (i.val = 2 ∧ j.val = 0) := by decide
  have hc := c.toNat_lt
  exact key ⟨b.toNat % 16, by omega⟩ ⟨c.toNat / 16, by omega⟩

private theorem splitOn_cons {b : UInt8} {t : Bytes} :
    (b :: t).splitOn 0x20 =
      if b = 0x20 then [] :: t.splitOn 0x20 else (t.splitOn 0x20).modifyHead (b :: ·) := by
  rw [List.splitOn_cons_eq_if_modifyHead]
  simp

private theorem modifyHead_map_toHex (b : UInt8) (l : List Bytes) :
    ((l.map toHex).modifyHead (digitChar (b.toNat % 16) :: ·)).modifyHead
      (digitChar (b.toNat / 16) :: ·) = (l.modifyHead (b :: ·)).map toHex := by
  cases l with
  | nil => rfl
  | cons x l => simp [hexByte]

/-- Cutting the hexadecimal text at `20` is cutting the octets at a space. -/
theorem split20_toHex : ∀ {t : Bytes}, misaligned t = false →
    split20 (toHex t) = (t.splitOn 0x20).map toHex
  | [], _ => by simp [split20, toHex]
  | b :: t, h => by
    have ht : misaligned t = false := by
      cases t with
      | nil => rfl
      | cons c t =>
        rw [misaligned, Bool.or_eq_false_iff] at h
        exact h.2
    have ih := split20_toHex ht
    rw [splitOn_cons, toHex_cons, hexByte, List.cons_append, List.cons_append, List.nil_append,
      split20]
    by_cases hb : b = 0x20
    · rw [if_pos (hexByte_space.mpr hb), if_pos hb, ih]
      rfl
    · rw [if_neg (mt hexByte_space.mp hb), if_neg hb, ← modifyHead_map_toHex, ← ih]
      congr 1
      cases t with
      | nil => rfl
      | cons c t =>
        have hcut : ¬ (digitChar (b.toNat % 16) = 50 ∧ digitChar (c.toNat / 16) = 48) := by
          rw [misaligned, Bool.or_eq_false_iff] at h
          rw [hexDigits_space]
          simpa using h.1
        rw [toHex_cons, hexByte, List.cons_append, List.cons_append, List.nil_append, split20,
          if_neg hcut]

private theorem intercalate_cons_cons (w v : Bytes) (ws : List Bytes) :
    List.intercalate [0x20] (w :: v :: ws) = w ++ 0x20 :: List.intercalate [0x20] (v :: ws) := by
  simp [List.intercalate]

private theorem utf8Decode_intercalate : ∀ {ws : List Bytes}, ws ≠ [] →
    utf8Decode (List.intercalate [0x20] ws) = joinWords (ws.map utf8Decode)
  | [], h => absurd rfl h
  | [w], _ => by simp [List.intercalate, joinWords]
  | w :: v :: ws, _ => by
    rw [intercalate_cons_cons, utf8Decode_space, utf8Decode_intercalate (by simp)]
    simp only [List.map_cons]
    rw [joinWords_cons_cons]

private theorem not_mem_of_mem_splitOn {t w : Bytes} (h : w ∈ t.splitOn 0x20) : (0x20 : UInt8) ∉ w := by
  induction t generalizing w with
  | nil =>
    rw [List.splitOn_nil, List.mem_singleton] at h
    simp [h]
  | cons b t ih =>
    rw [splitOn_cons] at h
    split at h
    · rcases List.mem_cons.mp h with rfl | h
      · simp
      · exact ih h
    · next hb =>
      cases hs : t.splitOn 0x20 with
      | nil => simp [hs] at h
      | cons x l =>
        rw [hs, List.modifyHead_cons] at h
        rcases List.mem_cons.mp h with rfl | h
        · have := ih (w := x) (by simp [hs])
          simp only [List.mem_cons, not_or]
          exact ⟨fun he => hb he.symm, this⟩
        · exact ih (by simp [hs, h])

/-- The words of a decoded text are the decoded words. -/
theorem splitWords_utf8Decode (t : Bytes) :
    splitWords (utf8Decode t) = (t.splitOn 0x20).map utf8Decode := by
  have hne : t.splitOn (0x20 : UInt8) ≠ [] := List.splitOn_ne_nil _ _
  have hdec : utf8Decode t = joinWords ((t.splitOn 0x20).map utf8Decode) := by
    rw [← utf8Decode_intercalate hne, List.intercalate_splitOn]
  rw [hdec, splitWords_joinWords (by simp)]
  intro w hw
  obtain ⟨x, hx, rfl⟩ := List.mem_map.mp hw
  exact fun hm => not_mem_of_mem_splitOn hx (space_mem_utf8Decode hm)

/-- **The forger's way of cutting annotations**, octets first, gives the words of the text. -/
theorem decodeWords_eq {t : Bytes} (h : misaligned t = false) :
    (split20 (toHex t)).map (fun x => utf8Decode (bufferFromHex x)) = splitWords (utf8Decode t) := by
  rw [split20_toHex h, List.map_map, splitWords_utf8Decode]
  simp [Function.comp_def]

/-- The first word is empty when the text is, or starts with a space. -/
theorem head_splitWords {t : Bytes} (h : (splitWords (utf8Decode t)).head? = some []) :
    t = [] ∨ t.head? = some 0x20 := by
  cases t with
  | nil => exact .inl rfl
  | cons b t =>
    right
    by_cases hb : b = 0x20
    · rw [hb]
      rfl
    · obtain ⟨x, l, hx⟩ := List.exists_cons_of_ne_nil (List.splitOn_ne_nil (0x20 : UInt8) t)
      rw [splitWords_utf8Decode, splitOn_cons, if_neg hb, hx] at h
      have hnil : utf8Decode (b :: x) = [] := by simpa using h
      simpa using (utf8Run_eq_nil hnil).2

/-! ## Following the reader of the format -/

/-- What the decoder throws: not the bound of the model. -/
def Thrown (e : ForgeError) : Prop := e ≠ .outOfFuel

theorem follows_consumeByte : Follows Strict Thrown Eq readByte consumeByte := by
  intro bs
  cases bs with
  | nil => exact ⟨fun a rest he => (by cases he), fun e _ _ => ⟨_, rfl, by simp [Thrown, notEnough]⟩⟩
  | cons b bs => exact ⟨fun a rest he => (by cases he; exact ⟨_, rfl, rfl⟩), fun e he => (by cases he)⟩

theorem follows_consume {n m : ℕ} (h : n = m) :
    Follows Strict Thrown (fun u v => u = v ∧ u.length = n) (take n fun _ => ReadError.reject)
      (consume m) := by
  subst h
  intro bs
  refine ⟨fun u rest he => ?_, fun e he _ => ?_⟩
  · obtain ⟨rfl, hn⟩ := take_eq_ok he
    exact ⟨u, take_reads hn rest, rfl, hn⟩
  · unfold take at he
    split at he
    · next hlt => exact ⟨_, if_pos hlt, by simp [Thrown, notEnough]⟩
    · cases he

theorem follows_extractRequiredLen :
    Follows Strict Thrown Eq readSegment (extractRequiredLen 4) := by
  refine (follows_consume rfl).bind fun len len' h => ?_
  obtain ⟨rfl, hlen⟩ := h
  have hne : len ≠ [] := by
    rintro rfl
    simp at hlen
  refine (follows_consume ?_).mono fun _ _ h => h.1
  rw [parseInt_toHex hne]
  rfl

section

variable {strict : Bool} {r : Reader UInt8 ReadError Node} {d : Decoder Expr}

theorem follows_segmentDecoder (h : Follows Strict Thrown IsExpr r d) :
    Follows Strict Thrown (List.Forall₂ IsExpr) (readNodes r) (segmentDecoder d) := by
  refine follows_extractRequiredLen.bind fun seg seg' he => ?_
  subst he
  have hspent : ¬ Strict .outOfFuel := by simp [Strict]
  exact Follows.lift (h.readAll hspent seg.length seg).1 (h.readAll hspent seg.length seg).2

theorem follows_decodeAnnots :
    Follows Strict Thrown (fun t words => misaligned t = false → words = splitWords (utf8Decode t))
      readSegment decodeAnnots := by
  rw [← bind_pure readSegment]
  exact follows_extractRequiredLen.bind fun t t' he => .pure fun hm => by rw [← he, decodeWords_eq hm]

theorem follows_annotsDecoder (hasAnnot : Bool) :
    Follows Strict Thrown (fun t words => words = t.map fun t => splitWords (utf8Decode t))
      (readAnnots strict hasAnnot) (annotsDecoder hasAnnot) := by
  unfold readAnnots annotsDecoder
  cases hasAnnot with
  | false => exact .pure rfl
  | true =>
    rw [if_pos rfl, if_pos rfl, map_eq_pure_bind]
    refine follows_decodeAnnots.bind fun t words hw => ?_
    split
    · next hreg => exact .pure (by rw [hw (misaligned_of_regular hreg).1]; rfl)
    · exact .fail _ (by simp [Strict])

theorem follows_argsDecoder (h : Follows Strict Thrown IsExpr r d) {code : UInt8} {p : String}
    (hp : MichelCodec.primitives[code.toNat]? = some p) (args : ℕ) (hasAnnot : Bool) :
    Follows Strict Thrown IsExpr (readNarrow strict r code p args hasAnnot)
      (argsDecoder d p args hasAnnot) := by
  unfold readNarrow
  split
  · exact .fail _ (by simp [Strict])
  · next hcond =>
    have hframed : (isLambda p && decide (0 < args)) = false := by
      simp only [Bool.or_eq_true, Bool.and_eq_true, not_or, not_and, bne_iff_ne] at hcond
      cases hl : isLambda p
      · rfl
      · have := hcond.1 hl
        simp only [ne_eq, not_not] at this
        simp [this]
    unfold argsDecoder
    simp only [hframed, skipLength, Bool.false_eq_true, if_false, pure_bind]
    refine (h.times args).bind fun ns es hes => ?_
    refine (follows_annotsDecoder hasAnnot).bind fun t words hw => .pure ?_
    subst hw
    refine isExpr_prim hp hes ?_
    cases es with
    | nil => exact .inr ⟨rfl, rfl⟩
    | cons e es => exact .inl rfl

theorem follows_combDecoder (h : Follows Strict Thrown IsExpr r d) {code : UInt8} {p : String}
    (hp : MichelCodec.primitives[code.toNat]? = some p) :
    Follows Strict Thrown IsExpr (readComb strict r code) (combDecoder d p false) := by
  refine (follows_segmentDecoder h).bind fun ns es hes => ?_
  refine follows_decodeAnnots.bind fun t words hw => ?_
  split
  · next hempty =>
    obtain rfl : t = [] := by simpa using hempty
    rw [hw rfl]
    exact .pure (isExpr_prim (t := none) hp hes (.inl rfl))
  · next hempty =>
    split
    · next hreg =>
      rw [Bool.and_eq_true, bne_iff_ne] at hreg
      obtain ⟨hreg, hhead⟩ := hreg
      rw [hw (misaligned_of_regular hreg).1]
      have hne : (splitWords (utf8Decode t)).head? ≠ some [] := fun he =>
        (head_splitWords he).elim (misaligned_of_regular hreg).2 hhead
      rw [if_pos hne]
      exact .pure (isExpr_prim (t := some t) hp hes (.inl rfl))
    · exact .fail _ (by simp [Strict])

/-- `primViewDecoder` and the `LAMBDA` path of `primDecoder` on a node of the expected shape: they
pass over the lengths, and the arguments are those of the announced segment. -/
private theorem framed_ok (hr : Local r)
    (hadv : ∀ bs a rest, r bs = .ok (a, rest) → rest.length < bs.length)
    (h : Follows Strict Thrown IsExpr r d) {code : UInt8} {k : ℕ} {bs rest : Bytes} {n : Node}
    (hn : readFramed r code k bs = .ok (n, rest)) :
    ∃ ns es, n = .prim code ns none ∧ ns.length = k ∧ List.Forall₂ IsExpr ns es ∧
      (do let _ ← consume 4; let es ← times d k; let _ ← consume 4; pure es) bs =
        .ok (es, rest) := by
  obtain ⟨seg, ns, hframe, hns, hk, rfl⟩ := readFramed_eq_ok hn
  obtain ⟨seg', mid, hseg, hpair⟩ := bind_eq_ok.mp hframe
  obtain ⟨text, rest', htext, hpure⟩ := bind_eq_ok.mp hpair
  cases hpure
  obtain ⟨len, mid₁, hlen, htake⟩ := bind_eq_ok.mp hseg
  obtain ⟨len', mid₂, hlen', htake'⟩ := bind_eq_ok.mp htext
  obtain ⟨rfl, h4⟩ := take_eq_ok hlen
  obtain ⟨rfl, -⟩ := take_eq_ok htake
  obtain ⟨rfl, h4'⟩ := take_eq_ok hlen'
  obtain ⟨rfl, -⟩ := take_eq_ok htake'
  have hmany := readsMany_of_readAll hr hadv hns
  subst hk
  obtain ⟨es, hes, hR⟩ := ((h.times ns.length) (seg ++ (len' ++ mid₂))).1 _ _
    (hmany.times (len' ++ mid₂))
  refine ⟨ns, es, rfl, rfl, hR, ?_⟩
  have h₁ : consume 4 (len ++ (seg ++ (len' ++ mid₂))) = .ok (len, seg ++ (len' ++ mid₂)) :=
    take_reads h4 _
  have h₂ : consume 4 (len' ++ mid₂) = .ok (len', mid₂) := take_reads h4' _
  rw [bind_of_ok h₁, bind_of_ok hes, bind_of_ok h₂]
  rfl

theorem follows_primViewDecoder (hr : Local r)
    (hadv : ∀ bs a rest, r bs = .ok (a, rest) → rest.length < bs.length)
    (h : Follows Strict Thrown IsExpr r d) {code : UInt8} {p : String}
    (hp : MichelCodec.primitives[code.toNat]? = some p) :
    Follows Strict Thrown IsExpr (readFramed r code 4) (primViewDecoder d p) := by
  refine fun bs => ⟨fun n rest hn => ?_, fun e he hs => ?_⟩
  · obtain ⟨ns, es, rfl, hk, hes, hrun⟩ := framed_ok hr hadv h hn
    refine ⟨.prim p (some es) none, ?_, isExpr_prim (t := none) hp hes (.inl rfl)⟩
    have : primViewDecoder d p = (do
        let es ← (do let _ ← consume 4; let es ← times d 4; let _ ← consume 4; pure es)
        pure (.prim p (some es) none)) := by simp [primViewDecoder]
    rw [this, bind_of_ok hrun]
    rfl
  · exact absurd (hs : e = .reject) (readFramed_ne_reject he)

theorem follows_lambdaDecoder (hr : Local r)
    (hadv : ∀ bs a rest, r bs = .ok (a, rest) → rest.length < bs.length)
    (h : Follows Strict Thrown IsExpr r d) {code : UInt8} {p : String}
    (hp : MichelCodec.primitives[code.toNat]? = some p) (hl : isLambda p = true) :
    Follows Strict Thrown IsExpr (readFramed r code 3) (argsDecoder d p 3 false) := by
  refine fun bs => ⟨fun n rest hn => ?_, fun e he hs => ?_⟩
  · obtain ⟨ns, es, rfl, hk, hes, hrun⟩ := framed_ok hr hadv h hn
    refine ⟨.prim p (some es) none, ?_, isExpr_prim (t := none) hp hes (.inl rfl)⟩
    have : argsDecoder d p 3 false = (do
        let es ← (do let _ ← consume 4; let es ← times d 3; let _ ← consume 4; pure es)
        pure (.prim p (if es.isEmpty then none else some es) none)) := by
      simp [argsDecoder, annotsDecoder, skipLength, hl]
    have hne : es.isEmpty = false := by
      have hlen := hes.length_eq
      rw [hk] at hlen
      cases es with
      | nil => simp at hlen
      | cons e es => rfl
    rw [this, bind_of_ok hrun, hne]
    rfl
  · exact absurd (hs : e = .reject) (readFramed_ne_reject he)

theorem follows_primDecoder (hr : Local r)
    (hadv : ∀ bs a rest, r bs = .ok (a, rest) → rest.length < bs.length)
    (h : Follows Strict Thrown IsExpr r d) {tag : UInt8} (htag : 3 ≤ tag.toNat) (h10 : tag ≠ 10) :
    Follows Strict Thrown IsExpr (readPrim strict r tag) (primDecoder d tag) := by
  refine follows_consumeByte.bind fun code code' he => ?_
  subst he
  rw [padStart_byte]
  dsimp only
  rw [opMappingGet_hexByte]
  cases hp : MichelCodec.primitives[code.toNat]? with
  | none => exact .fail_fail (by simp [Thrown])
  | some p =>
    dsimp only
    split
    · exact .fail _ (by simp [Strict])
    next hirr =>
    rw [Bool.or_eq_true, not_or, decide_eq_true_eq, UInt8.lt_iff_toNat_lt] at hirr
    have hle : tag.toNat ≤ 10 := Nat.not_lt.mp hirr.2
    split
    · next h9 =>
      have hargs : ¬ (2 < (tag.toNat - 3) / 2) := by
        have h₁ : tag.toNat ≠ 9 := fun he => h9 (UInt8.toNat_inj.mp he)
        have h₂ : tag.toNat ≠ 10 := fun he => h10 (UInt8.toNat_inj.mp he)
        omega
      by_cases hv : p = "view"
      · subst hv
        unfold readNarrow
        split
        · exact .fail _ (by simp [Strict])
        · next hcond =>
          simp only [beq_self_eq_true, Bool.true_and, Bool.or_eq_true, bne_iff_ne, not_or,
            not_not] at hcond
          obtain ⟨-, h0, hann⟩ := hcond
          rw [Bool.not_eq_true] at hann
          rw [if_pos (by decide : ("view" == "view") = true), if_neg (by simpa using h0), h0, hann]
          exact .pure (isExpr_prim (t := none) hp .nil (.inr ⟨rfl, rfl⟩))
      · rw [if_neg (by simpa using hv), if_neg (by simp [hargs])]
        exact follows_argsDecoder h hp _ _
    · next h9 =>
      obtain rfl : tag = 9 := by simpa using h9
      have hargs : ((9 : UInt8).toNat - 3) / 2 = 3 := rfl
      have hflag : (((9 : UInt8).toNat - 3) % 2 == 1) = false := rfl
      rw [hargs, hflag]
      split
      · next hpair =>
        have hv : ¬ (p == "view") = true := fun hv => by
          rw [beq_iff_eq.mp hv] at hpair
          exact absurd hpair (by decide)
        rw [if_neg hv, if_pos (by simp [hpair])]
        exact follows_combDecoder h hp
      · next hpair =>
        split
        · next hlam =>
          have hv : ¬ (p == "view") = true := fun hv => by
            rw [beq_iff_eq.mp hv] at hlam
            exact absurd hlam (by decide)
          rw [if_neg hv, if_neg (by simp [hpair])]
          exact follows_lambdaDecoder hr hadv h hp hlam
        · split
          · rw [if_pos (by decide)]
            exact follows_primViewDecoder hr hadv h hp
          · exact .fail _ (by simp [Strict])

end

/-- **The decoder follows the reader of the format**, strict or not. -/
theorem follows_readNode (strict : Bool) (fuel : ℕ) :
    Follows Strict Thrown IsExpr (readNode strict fuel) (valueDecoder fuel) := by
  induction fuel with
  | zero => exact .fail _ (by simp [Strict])
  | succ fuel ih =>
    refine follows_consumeByte.bind fun tag tag' he => ?_
    subst he
    unfold nodeBody
    split
    · exact follows_extractRequiredLen.bind fun t t' he => .pure (by rw [he]; rfl)
    split
    · refine follows_extractRequiredLen.bind fun t t' he => ?_
      split
      · exact .fail _ (by simp [Strict])
      · exact .pure (by rw [he]; rfl)
    split
    · refine (follows_chunk (by simp [Thrown, notEnough])).bind fun c c' hc => .pure ?_
      obtain ⟨rfl, hne⟩ := hc
      rw [chunkInt_eq hne]
      rfl
    split
    · refine (follows_segmentDecoder ih).bind fun ns es hes => .pure ?_
      rw [IsExpr, Expr.norm_seq, expr, norm_eq_exprs hes]
    · next h10 h1 h0 h2 =>
      refine follows_primDecoder (local_readNode strict fuel)
        (fun _ _ _ => readNode_advances) ih ?_ h10
      have : tag.toNat ≠ 0 := fun he => h0 (UInt8.toNat_inj.mp he)
      have : tag.toNat ≠ 1 := fun he => h1 (UInt8.toNat_inj.mp he)
      have : tag.toNat ≠ 2 := fun he => h2 (UInt8.toNat_inj.mp he)
      omega

/-! ## Locality and fuel -/

theorem local_extractRequiredLen (k : ℕ) : Local (extractRequiredLen k) :=
  (local_consume _).bind fun _ => local_consume _

theorem local_decodeAnnots : Local decodeAnnots :=
  (local_extractRequiredLen 4).bind fun _ => .pure _

section

variable {d d' : Decoder Expr}

theorem local_segmentDecoder (d : Decoder Expr) : Local (segmentDecoder d) :=
  (local_extractRequiredLen 4).bind fun _ => Local.lift _

theorem local_annotsDecoder (hasAnnot : Bool) : Local (annotsDecoder hasAnnot) :=
  .ite (local_decodeAnnots.map _) (.pure _)

theorem local_primViewDecoder (hd : Local d) (p : String) : Local (primViewDecoder d p) :=
  (local_consume _).bind fun _ => (hd.times _).bind fun _ => (local_consume _).bind fun _ => .pure _

theorem local_combDecoder (d : Decoder Expr) (p : String) (hasAnnot : Bool) :
    Local (combDecoder d p hasAnnot) :=
  (local_segmentDecoder d).bind fun _ => local_decodeAnnots.bind fun _ =>
    .ite (.pure _) ((local_annotsDecoder _).bind fun _ => .pure _)

theorem local_skipLength (framed : Bool) : Local (skipLength framed) :=
  .ite (local_consume _) (.pure _)

theorem local_argsDecoder (hd : Local d) (p : String) (n : ℕ) (hasAnnot : Bool) :
    Local (argsDecoder d p n hasAnnot) :=
  (local_skipLength _).bind fun _ => (hd.times _).bind fun _ => (local_skipLength _).bind fun _ =>
    (local_annotsDecoder _).bind fun _ => .pure _

theorem local_primDecoder (hd : Local d) (preamble : UInt8) : Local (primDecoder d preamble) := by
  refine local_consumeByte.bind fun code => ?_
  dsimp only
  cases opMappingGet (padStart 2 (digitChar 0) (numberText 16 code.toNat)) with
  | none => exact .fail _
  | some p =>
    exact .ite (.ite (local_primViewDecoder hd _) (.pure _))
      (.ite (local_combDecoder _ _ _) (local_argsDecoder hd _ _ _))

/-- The part of the decoder after its first octet. -/
private theorem local_valueBody (hd : Local d) (preamble : UInt8) :
    Local (if preamble = 0x0a then bytesDecoder
      else if preamble = 0x01 then stringDecoder
      else if preamble = 0x00 then intDecoder
      else if preamble = 0x02 then do
        let results ← segmentDecoder d
        return .seq results
      else primDecoder d preamble) :=
  .ite ((local_extractRequiredLen _).bind fun _ => .pure _)
    (.ite ((local_extractRequiredLen _).bind fun _ => .pure _)
    (.ite (local_chunk.bind fun _ => .pure _)
    (.ite ((local_segmentDecoder _).bind fun _ => .pure _) (local_primDecoder hd preamble))))

theorem local_valueDecoder : ∀ fuel, Local (valueDecoder fuel)
  | 0 => Local.fail _
  | fuel + 1 => local_consumeByte.bind fun b => local_valueBody (local_valueDecoder fuel) b

theorem valueDecoder_advances {fuel : ℕ} {bs rest : Bytes} {e : Expr}
    (h : valueDecoder fuel bs = .ok (e, rest)) : rest.length < bs.length := by
  cases fuel with
  | zero => cases h
  | succ fuel =>
    obtain ⟨b, mid, hb, h⟩ := bind_eq_ok.mp h
    have hle := (local_valueBody (local_valueDecoder fuel) b).length_le h
    cases bs with
    | nil => cases hb
    | cons c bs =>
      cases hb
      simp only [List.length_cons]
      omega

private theorem agree_consume (n k : ℕ) : Agree ForgeError.outOfFuel n (consume k) (consume k) := by
  refine .of_eq fun bs h => ?_
  unfold consume take at h
  split at h <;> cases h

private theorem agree_consumeByte (n : ℕ) :
    Agree ForgeError.outOfFuel n consumeByte consumeByte := by
  refine .of_eq fun bs h => ?_
  cases bs <;> cases h

private theorem agree_extractRequiredLen (n k : ℕ) :
    Agree ForgeError.outOfFuel n (extractRequiredLen k) (extractRequiredLen k) :=
  (agree_consume n _).bind (local_consume _) fun _ => agree_consume n _

private theorem agree_decodeAnnots (n : ℕ) :
    Agree ForgeError.outOfFuel n decodeAnnots decodeAnnots :=
  (agree_extractRequiredLen n 4).bind (local_extractRequiredLen 4) fun _ => .pure _

private theorem agree_annotsDecoder (n : ℕ) (hasAnnot : Bool) :
    Agree ForgeError.outOfFuel n (annotsDecoder hasAnnot) (annotsDecoder hasAnnot) := by
  refine .ite ?_ (.pure _)
  rw [map_eq_pure_bind]
  exact (agree_decodeAnnots n).bind local_decodeAnnots fun _ => .pure _

private theorem agree_segmentDecoder {n : ℕ} (h : Agree ForgeError.outOfFuel n d d')
    (hadv : ∀ bs a rest, d bs = .ok (a, rest) → rest.length < bs.length) :
    Agree ForgeError.outOfFuel n (segmentDecoder d) (segmentDecoder d') := by
  refine (agree_extractRequiredLen n 4).bind_of (local_extractRequiredLen 4)
    (P := fun seg => seg.length ≤ n) (fun bs seg rest hbs hseg => ?_) fun seg hseg bs _ => ?_
  · obtain ⟨len, mid, hlen, htake⟩ := bind_eq_ok.mp hseg
    obtain ⟨rfl, -⟩ := take_eq_ok hlen
    obtain ⟨rfl, -⟩ := take_eq_ok htake
    simp only [List.length_append] at hbs
    omega
  · obtain ⟨heq, hne⟩ := h.readAll hadv hseg (le_refl seg.length)
    unfold Reader.lift
    rw [← heq]
    refine ⟨rfl, fun he => hne ?_⟩
    cases hx : readAll d .outOfFuel seg.length seg with
    | error e => rw [hx] at he; rw [Except.error.inj he]
    | ok l => rw [hx] at he; cases he

private theorem agree_primDecoder {n : ℕ} (h : Agree ForgeError.outOfFuel n d d') (hd : Local d)
    (hadv : ∀ bs a rest, d bs = .ok (a, rest) → rest.length < bs.length) (preamble : UInt8) :
    Agree ForgeError.outOfFuel n (primDecoder d preamble) (primDecoder d' preamble) := by
  refine (agree_consumeByte n).bind local_consumeByte fun code => ?_
  dsimp only
  cases opMappingGet (padStart 2 (digitChar 0) (numberText 16 code.toNat)) with
  | none => exact .of_eq fun _ he => by cases he
  | some p =>
    refine .ite (.ite ?_ (.pure _)) (.ite ?_ ?_)
    · exact (agree_consume n 4).bind (local_consume 4) fun _ => (h.times hd 4).bind (hd.times 4)
        fun _ => (agree_consume n 4).bind (local_consume 4) fun _ => .pure _
    · exact (agree_segmentDecoder h hadv).bind (local_segmentDecoder d) fun _ =>
        (agree_decodeAnnots n).bind local_decodeAnnots fun _ =>
          .ite (.pure _) ((agree_annotsDecoder n _).bind (local_annotsDecoder _) fun _ => .pure _)
    · have hskip : ∀ c, Agree ForgeError.outOfFuel n (skipLength c) (skipLength c) := fun c =>
        .ite (agree_consume n 4) (.pure _)
      exact (hskip _).bind (local_skipLength _) fun _ => (h.times hd _).bind (hd.times _) fun _ =>
        (hskip _).bind (local_skipLength _) fun _ =>
          (agree_annotsDecoder n _).bind (local_annotsDecoder _) fun _ => .pure _

end

/-- Beyond one unit for every octet, fuel changes nothing, and no decoder runs out of it. -/
theorem agree_valueDecoder : ∀ (n : ℕ) {fuel fuel' : ℕ}, n < fuel → n < fuel' →
    Agree ForgeError.outOfFuel n (valueDecoder fuel) (valueDecoder fuel')
  | n, 0, _, h, _ => by omega
  | n, _ + 1, 0, _, h => by omega
  | 0, fuel + 1, fuel' + 1, _, _ => by
    intro bs hbs
    obtain rfl : bs = [] := List.eq_nil_of_length_eq_zero (by omega)
    exact ⟨rfl, fun h => by cases h⟩
  | n + 1, fuel + 1, fuel' + 1, hf, hf' => by
    intro bs hbs
    cases bs with
    | nil => exact ⟨rfl, fun h => by cases h⟩
    | cons b bs =>
      have ih := agree_valueDecoder n (show n < fuel by omega) (show n < fuel' by omega)
      have hadv : ∀ bs a rest, valueDecoder fuel bs = .ok (a, rest) → rest.length < bs.length :=
        fun _ _ _ => valueDecoder_advances
      have hbody : Agree ForgeError.outOfFuel n
          (if b = 0x0a then bytesDecoder
            else if b = 0x01 then stringDecoder
            else if b = 0x00 then intDecoder
            else if b = 0x02 then do
              let results ← segmentDecoder (valueDecoder fuel)
              return .seq results
            else primDecoder (valueDecoder fuel) b)
          (if b = 0x0a then bytesDecoder
            else if b = 0x01 then stringDecoder
            else if b = 0x00 then intDecoder
            else if b = 0x02 then do
              let results ← segmentDecoder (valueDecoder fuel')
              return .seq results
            else primDecoder (valueDecoder fuel') b) := by
        refine .ite ?_ (.ite ?_ (.ite ?_ (.ite ?_ ?_)))
        · exact (agree_extractRequiredLen n 4).bind (local_extractRequiredLen 4) fun _ => .pure _
        · exact (agree_extractRequiredLen n 4).bind (local_extractRequiredLen 4) fun _ => .pure _
        · exact Agree.bind (.of_eq fun _ => chunk_ne_error (by simp [notEnough])) local_chunk
            fun _ => .pure _
        · exact (agree_segmentDecoder ih hadv).bind (local_segmentDecoder _) fun _ => .pure _
        · exact agree_primDecoder ih (local_valueDecoder fuel) hadv b
      exact hbody bs (by simp at hbs; omega)

/-- The fuel of `valueDecode` is enough. -/
theorem valueDecode_ne_outOfFuel (bs : Bytes) : valueDecode bs ≠ .error .outOfFuel :=
  (agree_valueDecoder bs.length (Nat.lt_succ_self _) (Nat.lt_succ_self _) bs le_rfl).2

theorem valueDecode_eq {fuel : ℕ} {bs : Bytes} (h : bs.length < fuel) :
    valueDecode bs = valueDecoder fuel bs :=
  (agree_valueDecoder bs.length (Nat.lt_succ_self _) h bs le_rfl).1

/-- **Decoding a value depends only on the octets it consumes.** -/
theorem local_valueDecode : Local valueDecode := by
  intro bs e rest h
  obtain ⟨used, rfl, hused⟩ := local_valueDecoder _ _ _ _ h
  refine ⟨used, rfl, fun more => ?_⟩
  have hrun : valueDecode used = .ok (e, []) := by
    rw [valueDecode_eq (show used.length < (used ++ rest).length + 1 by simp)]
    exact hused.run
  rw [valueDecode_eq (show used.length < (used ++ more).length + 1 by simp)] at hrun
  exact (local_valueDecoder _).append hrun more

end LocalForging
