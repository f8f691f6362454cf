import Mathlib.Data.List.Forall2
import Taquito.LocalForging.Codecs
import Taquito.Micheline.Wire

/-!
# Splitting length-prefixed segments

On an array from its start, `stripLengthPrefixFromBytes` accepts exactly the concatenations of
segments behind their lengths, and returns these segments (`stripLengthPrefixFromBytes_eq_ok`). A
round passes over the segment by slicing the array from its start, so at another offset the next
round starts too early: the segments come out only when there are none
(`stripLengthPrefixFromBytes_iff`). The messages of a rollup are split from the start of an array.
-/

open Js BigEndian Micheline Reader

namespace LocalForging

/-! ## The loop -/

/-- Segments behind their lengths, laid end to end. -/
def framed (segments : List Bytes) : Bytes := (segments.map lengthPrefixed).flatten

@[simp] theorem framed_nil : framed [] = [] := rfl

@[simp] theorem framed_cons (s : Bytes) (segments : List Bytes) :
    framed (s :: segments) = lengthPrefixed s ++ framed segments := rfl

theorem length_le_framed (segments : List Bytes) : segments.length ≤ (framed segments).length := by
  induction segments with
  | nil => exact Nat.le_refl 0
  | cons s segments ih =>
    rw [framed_cons, List.length_append, lengthPrefixed_length, List.length_cons]
    omega

/-- Segments whose lengths fit their prefixes. -/
def Framable (segments : List Bytes) : Prop := ∀ s ∈ segments, s.length < 2 ^ 32

theorem prefixValue {len : Bytes} (h : len.length = 4) :
    ((parseInt 16 (toHex len)).getD 0).toNat = beValue len := by
  rw [parseInt_toHex (List.ne_nil_of_length_eq_add_one h)]
  rfl

/-- One round, from any offset: the segment is read where the consumer stands, and the array goes on
behind as many octets of its own. -/
theorem stripLengthPrefixLoop_succ {c : Uint8ArrayConsumer} {s rest : Bytes}
    (hs : s.length < 2 ^ 32) (h : c.remaining = lengthPrefixed s ++ rest) (fuel : ℕ)
    (ret : List Bytes) : stripLengthPrefixLoop 4 (fuel + 1) c ret =
      stripLengthPrefixLoop 4 fuel ⟨c.arr.drop (s.length + 4), 0⟩ (ret ++ [s]) := by
  have hvalue : beValue (beBytes 4 s.length) = s.length := beValue_beBytes (by simpa using hs)
  have hlength : c.length ≠ 0 := by
    have := congrArg List.length h
    rw [Uint8ArrayConsumer.remaining, List.length_drop, List.length_append,
      lengthPrefixed_length] at this
    unfold Uint8ArrayConsumer.length
    omega
  have hlen : c.consume 4 = .ok (beBytes 4 s.length, ⟨c.arr, c.offset + 4⟩) := by
    unfold Uint8ArrayConsumer.consume
    rw [← Uint8ArrayConsumer.remaining, h, lengthPrefixed, List.append_assoc,
      List.take_left' (by simp)]
    exact if_neg (by simp)
  have hitem : Uint8ArrayConsumer.consume ⟨c.arr, c.offset + 4⟩ s.length =
      .ok (s, ⟨c.arr, c.offset + 4 + s.length⟩) := by
    unfold Uint8ArrayConsumer.consume
    dsimp only
    rw [← List.drop_drop, ← Uint8ArrayConsumer.remaining, h, lengthPrefixed, List.append_assoc,
      List.drop_left' (by simp), List.take_left]
    exact if_neg (by simp)
  rw [stripLengthPrefixLoop, if_neg hlength, hlen, Except.ok_bind]
  dsimp only
  rw [prefixValue (by simp), hvalue, hitem, Except.ok_bind]
  rfl

/-- From the start of an array, the segments come out. -/
theorem stripLengthPrefixLoop_framed {segments : List Bytes} (h : Framable segments) :
    ∀ {fuel : ℕ} {ret : List Bytes}, segments.length < fuel →
      stripLengthPrefixLoop 4 fuel ⟨framed segments, 0⟩ ret = .ok (ret ++ segments) := by
  induction segments with
  | nil =>
    intro fuel ret hfuel
    obtain ⟨k, rfl⟩ := Nat.exists_eq_add_of_le' hfuel
    rw [List.append_nil]
    rfl
  | cons s segments ih =>
    intro fuel ret hfuel
    obtain ⟨k, rfl⟩ := Nat.exists_eq_add_of_le' (Nat.lt_of_le_of_lt (Nat.zero_le _) hfuel)
    have hremaining : Uint8ArrayConsumer.remaining ⟨framed (s :: segments), 0⟩ =
        lengthPrefixed s ++ framed segments := rfl
    rw [stripLengthPrefixLoop_succ (h s List.mem_cons_self) hremaining]
    have hdrop : (framed (s :: segments)).drop (s.length + 4) = framed segments :=
      List.drop_left' (lengthPrefixed_length s)
    rw [List.length_cons] at hfuel
    rw [hdrop, ih (fun t ht => h t (List.mem_cons_of_mem _ ht)) (by omega), List.append_assoc]
    rfl

/-- Whatever comes out from the start of an array is what the array is made of. -/
theorem framed_of_stripLengthPrefixLoop {fuel : ℕ} : ∀ {bs : Bytes} {ret out : List Bytes},
    stripLengthPrefixLoop 4 fuel ⟨bs, 0⟩ ret = .ok out →
      ∃ segments, out = ret ++ segments ∧ bs = framed segments ∧ Framable segments := by
  induction fuel with
  | zero => exact fun h => by cases h
  | succ fuel ih =>
    intro bs ret out h
    rw [stripLengthPrefixLoop] at h
    by_cases hlength : Uint8ArrayConsumer.length ⟨bs, 0⟩ = 0
    · rw [if_pos hlength] at h
      have hnil : bs = [] := by
        apply List.length_eq_zero_iff.mp
        unfold Uint8ArrayConsumer.length at hlength
        dsimp only at hlength
        omega
      obtain rfl := Except.ok.inj h
      exact ⟨[], (List.append_nil _).symm, hnil, fun _ hs => absurd hs List.not_mem_nil⟩
    · rw [if_neg hlength] at h
      obtain ⟨⟨len, c₁⟩, hlen, h⟩ := Except.bind_eq_ok.mp h
      obtain ⟨⟨item, c₂⟩, hitem, h⟩ := Except.bind_eq_ok.mp h
      obtain ⟨hrest, hlen4, rfl⟩ := Uint8ArrayConsumer.consume_eq_ok hlen
      obtain ⟨hrest', hvalue, rfl⟩ := Uint8ArrayConsumer.consume_eq_ok hitem
      dsimp only at h hvalue
      rw [prefixValue hlen4] at h hvalue
      rw [Uint8ArrayConsumer.remaining_zero, hrest', ← List.append_assoc, prefixValue hlen4] at hrest
      have hprefix : len = beBytes 4 item.length := by
        rw [hvalue, ← hlen4, beBytes_beValue]
      -- the octets of this round are the first of the array, since it started at its start
      have hdrop : bs.drop (beValue len + 4) =
          Uint8ArrayConsumer.remaining ⟨bs, 0 + 4 + beValue len⟩ := by
        rw [Nat.zero_add, Nat.add_comm]
        rfl
      obtain ⟨segments, hout, hbs, hfits⟩ := ih h
      dsimp only at hbs
      refine ⟨item :: segments, ?_, ?_, ?_⟩
      · rw [hout, List.append_assoc, List.singleton_append]
      · rw [framed_cons, ← hbs, hdrop, lengthPrefixed, ← hprefix]
        exact hrest
      · intro t ht
        rcases List.mem_cons.mp ht with rfl | ht
        · have hlt := beValue_lt len
          rw [hlen4] at hlt
          rw [hvalue]
          simpa using hlt
        · exact hfits t ht

/-- **Splitting from the start**: the segments come out exactly where the array is made of them. -/
theorem stripLengthPrefixFromBytes_eq_ok {bs : Bytes} {segments : List Bytes} :
    stripLengthPrefixFromBytes 4 ⟨bs, 0⟩ = .ok segments ↔
      bs = framed segments ∧ Framable segments := by
  constructor
  · intro h
    obtain ⟨out, rfl, hbs, hfits⟩ := framed_of_stripLengthPrefixLoop h
    exact ⟨hbs, hfits⟩
  · rintro ⟨rfl, hfits⟩
    exact stripLengthPrefixLoop_framed hfits (Nat.lt_succ_of_le (length_le_framed segments))

/-- The loop ends by itself: a round makes the array shorter by its length prefix. -/
theorem stripLengthPrefixFromBytes_ne_outOfFuel (c : Uint8ArrayConsumer) :
    stripLengthPrefixFromBytes 4 c ≠ .error .outOfFuel := by
  have hconsume (c : Uint8ArrayConsumer) (count : ℕ) : c.consume count ≠ .error .outOfFuel := by
    unfold Uint8ArrayConsumer.consume
    dsimp only
    split
    · exact fun h => by cases h
    · exact fun h => by cases h
  have key (fuel : ℕ) : ∀ (c : Uint8ArrayConsumer) (ret : List Bytes), c.arr.length < fuel →
      stripLengthPrefixLoop 4 fuel c ret ≠ .error .outOfFuel := by
    induction fuel with
    | zero => exact fun c ret hlt => absurd hlt (Nat.not_lt_zero _)
    | succ fuel ih =>
      intro c ret hlt h
      rw [stripLengthPrefixLoop] at h
      by_cases hlength : c.length = 0
      · rw [if_pos hlength] at h
        cases h
      · rw [if_neg hlength] at h
        rcases Except.bind_eq_error.mp h with h | ⟨⟨len, c₁⟩, hlen, h⟩
        · exact hconsume _ _ h
        rcases Except.bind_eq_error.mp h with h | ⟨⟨item, c₂⟩, hitem, h⟩
        · exact hconsume _ _ h
        obtain ⟨hrest, hlen4, rfl⟩ := Uint8ArrayConsumer.consume_eq_ok hlen
        obtain ⟨-, -, rfl⟩ := Uint8ArrayConsumer.consume_eq_ok hitem
        refine ih _ _ ?_ h
        have hle := congrArg List.length hrest
        rw [Uint8ArrayConsumer.remaining, List.length_drop, List.length_append, hlen4] at hle
        dsimp only [Uint8ArrayConsumer.slice]
        rw [List.length_drop]
        omega
  exact key _ c [] (Nat.lt_succ_self _)

/-- From any offset, the segments that are left come out where the offset is one of the ends. -/
theorem stripLengthPrefixFromBytes_iff {c : Uint8ArrayConsumer} {segments : List Bytes}
    (hfits : Framable segments) (h : c.remaining = framed segments) :
    stripLengthPrefixFromBytes 4 c = .ok segments ↔ c.offset = 0 ∨ c.offset = c.arr.length := by
  obtain ⟨arr, offset⟩ := c
  dsimp only
  by_cases hzero : offset = 0
  · subst hzero
    exact iff_of_true (stripLengthPrefixFromBytes_eq_ok.mpr ⟨h, hfits⟩) (.inl rfl)
  rw [or_iff_right hzero]
  cases segments with
  | nil =>
    have hle : arr.length ≤ offset := List.drop_eq_nil_iff.mp h
    constructor
    · intro hok
      by_contra hne
      -- behind the end of the array, the length is negative and there is nothing to consume
      have hlength : Uint8ArrayConsumer.length ⟨arr, offset⟩ ≠ 0 := by
        unfold Uint8ArrayConsumer.length
        dsimp only
        omega
      unfold stripLengthPrefixFromBytes at hok
      rw [stripLengthPrefixLoop, if_neg hlength] at hok
      obtain ⟨⟨len, c₁⟩, hlen, -⟩ := Except.bind_eq_ok.mp hok
      obtain ⟨hrest, hlen4, -⟩ := Uint8ArrayConsumer.consume_eq_ok hlen
      rw [h] at hrest
      rw [(List.append_eq_nil_iff.mp hrest.symm).1] at hlen4
      cases hlen4
    · intro he
      unfold stripLengthPrefixFromBytes
      rw [stripLengthPrefixLoop, if_pos]
      unfold Uint8ArrayConsumer.length
      dsimp only
      omega
  | cons s segments =>
    rw [framed_cons] at h
    have hleft := congrArg List.length h
    rw [Uint8ArrayConsumer.remaining, List.length_drop, List.length_append,
      lengthPrefixed_length] at hleft
    refine iff_of_false (fun hok => ?_) (by dsimp only at hleft; omega)
    unfold stripLengthPrefixFromBytes at hok
    rw [stripLengthPrefixLoop_succ (hfits s List.mem_cons_self) h] at hok
    -- what is left for the next rounds has as many octets too many as the offset
    obtain ⟨out, hout, hbs, -⟩ := framed_of_stripLengthPrefixLoop hok
    obtain rfl := (List.cons.inj hout).2
    have hnext := congrArg List.length hbs
    rw [List.length_drop] at hnext
    dsimp only at hleft hnext
    omega

/-! ## Messages -/

theorem extractRequiredLen_reads {s : Bytes} (h : s.length < 2 ^ 32) :
    Reads (extractRequiredLen 4) (lengthPrefixed s) s := by
  have hlen : Reads (consume 4) (beBytes 4 s.length) (beBytes 4 s.length) := take_reads (by simp)
  refine hlen.bind ?_
  rw [prefixValue (by simp), beValue_beBytes (by simpa using h)]
  exact take_reads rfl

/-- Octets behind their length, written. -/
theorem paddedBytesEncoder_of_hexOf {s : JSString} {bs : Bytes} (h : HexOf s bs)
    (hlt : bs.length < 2 ^ 32) :
    ∃ hex, paddedBytesEncoder s = .ok hex ∧ HexOf hex (lengthPrefixed bs) := by
  have hpad := h.pad_eq (k := 4) (by omega) (by simpa using hlt)
  refine ⟨toHex (beBytes 4 bs.length) ++ s, ?_, (hexOf_toHex _).append h⟩
  rw [paddedBytesEncoder, show (8 : ℕ) = 2 * 4 from rfl, hpad]
  rfl

theorem paddedBytesEncoder_refuses {s : JSString} {bs : Bytes} (h : HexOf s bs)
    (hle : 2 ^ 32 ≤ bs.length) : ∃ message, paddedBytesEncoder s = .error (.error message) := by
  obtain ⟨message, hpad⟩ := h.pad_eq_error (k := 4) (by omega) (by simpa using hle)
  refine ⟨message, ?_⟩
  rw [paddedBytesEncoder, show (8 : ℕ) = 2 * 4 from rfl, hpad]
  rfl

/-- The messages of a rollup, written one after the other. -/
theorem smartRollupMessages_of_hexOf {val : List JSString} {segments : List Bytes}
    (h : List.Forall₂ HexOf val segments) :
    (Framable segments → ∃ hex, smartRollupMessages val = .ok hex ∧ HexOf hex (framed segments)) ∧
      (¬Framable segments → ∃ message, smartRollupMessages val = .error (.error message)) := by
  induction h with
  | nil =>
    refine ⟨fun _ => ⟨[], rfl, hexOf_toHex []⟩, fun hn => absurd ?_ hn⟩
    exact fun s hs => absurd hs List.not_mem_nil
  | @cons m s val segments hm _ ih =>
    rcases Nat.lt_or_ge s.length (2 ^ 32) with hlt | hge
    · obtain ⟨hex, hhex, hof⟩ := paddedBytesEncoder_of_hexOf hm hlt
      constructor
      · intro hfits
        obtain ⟨rest, hrest, hofs⟩ := ih.1 fun t ht => hfits t (List.mem_cons_of_mem _ ht)
        refine ⟨hex ++ rest, ?_, hof.append hofs⟩
        rw [smartRollupMessages, hhex, hrest]
        rfl
      · intro hn
        have hrest : ¬Framable segments := by
          intro hfits
          refine hn fun t ht => ?_
          rcases List.mem_cons.mp ht with rfl | ht
          · exact hlt
          · exact hfits t ht
        obtain ⟨message, hmessage⟩ := ih.2 hrest
        refine ⟨message, ?_⟩
        rw [smartRollupMessages, hhex, hmessage]
        rfl
    · refine ⟨fun hfits => ?_, fun _ => ?_⟩
      · exact absurd (hfits s List.mem_cons_self) (Nat.not_lt.mpr hge)
      · obtain ⟨message, hmessage⟩ := paddedBytesEncoder_refuses hm hge
        refine ⟨message, ?_⟩
        rw [smartRollupMessages, hmessage]
        rfl

theorem framable_of_length {segments : List Bytes} (h : (framed segments).length < 2 ^ 32) :
    Framable segments := by
  induction segments with
  | nil => exact fun s hs => absurd hs List.not_mem_nil
  | cons s segments ih =>
    rw [framed_cons, List.length_append, lengthPrefixed_length] at h
    intro t ht
    rcases List.mem_cons.mp ht with rfl | ht
    · omega
    · exact ih (by omega) t ht

theorem smartRollupMessageDecoder_reads {segments : List Bytes}
    (h : (framed segments).length < 2 ^ 32) :
    Reads smartRollupMessageDecoder (lengthPrefixed (framed segments)) (segments.map toHex) := by
  have hstrip : stripLengthPrefixFromBytes 4 ⟨framed segments, 0⟩ = .ok segments :=
    stripLengthPrefixFromBytes_eq_ok.mpr ⟨rfl, framable_of_length h⟩
  refine (extractRequiredLen_reads h).bind_pure ?_
  exact (lift_reads hstrip).bind_pure (Reads.pure _)

/-- A list of messages that is written and read back, whatever follows. -/
def MessagesInverted (val : List JSString) : Prop :=
  ∃ hex bytes, smartRollupMessageEncoder val = .ok hex ∧ HexOf hex bytes ∧
    Reads smartRollupMessageDecoder bytes val

/-- The octets of the messages, each behind its length. -/
def messagesLength (val : List JSString) : ℕ := (val.map fun m => m.length / 2 + 4).sum

private theorem forall₂_hexOf {val : List JSString} (h : ∀ m ∈ val, isHexPairs m = true) :
    List.Forall₂ HexOf val (val.map bufferFromHex) := by
  rw [List.forall₂_map_right_iff, List.forall₂_same]
  exact fun m hm => ⟨h m hm, rfl⟩

theorem framed_length {val : List JSString} {segments : List Bytes}
    (h : List.Forall₂ HexOf val segments) : (framed segments).length = messagesLength val := by
  induction h with
  | nil => rfl
  | cons hm _ ih =>
    rw [framed_cons, List.length_append, lengthPrefixed_length, ih, messagesLength, messagesLength,
      List.map_cons, List.sum_cons, hm.length, Nat.mul_div_cancel_left _ Nat.two_pos]

/-- Texts that are read back as they are. -/
private theorem map_toHex_eq_iff {val : List JSString} (h : ∀ m ∈ val, isHexPairs m = true) :
    (val.map bufferFromHex).map toHex = val ↔ ∀ m ∈ val, ∀ c ∈ m, isLowerHexDigit c = true := by
  rw [List.map_map]
  constructor
  · intro hval m hm c hc
    rw [← hval] at hm
    obtain ⟨m', -, rfl⟩ := List.mem_map.mp hm
    exact isLowerHexDigit_of_mem_toHex hc
  · intro hlower
    have hid : ∀ m ∈ val, (toHex ∘ bufferFromHex) m = id m := by
      intro m hm
      have heven : m.length % 2 = 0 := by
        have hpairs := h m hm
        rw [isHexPairs, Bool.and_eq_true, beq_iff_eq] at hpairs
        exact hpairs.1
      obtain ⟨bs, rfl⟩ := exists_toHex heven (hlower m hm)
      exact congrArg toHex (bufferFromHex_toHex bs)
    rw [List.map_congr_left hid, List.map_id]

/-- The messages are read back where they are lower-case and their octets, with the lengths before
them, can be counted. -/
theorem messagesInverted_iff {val : List JSString} (h : ∀ m ∈ val, isHexPairs m = true) :
    MessagesInverted val ↔
      (∀ m ∈ val, ∀ c ∈ m, isLowerHexDigit c = true) ∧ messagesLength val < 2 ^ 32 := by
  have hforall := forall₂_hexOf h
  rw [← map_toHex_eq_iff h, ← framed_length hforall]
  generalize val.map bufferFromHex = segments at hforall ⊢
  constructor
  · rintro ⟨hex, bytes, hencode, hof, hread⟩
    obtain ⟨message, hmessage, hpadded⟩ := Except.bind_eq_ok.mp hencode
    have hfits : Framable segments := by
      by_contra hn
      obtain ⟨e, he⟩ := (smartRollupMessages_of_hexOf hforall).2 hn
      rw [he] at hmessage
      cases hmessage
    obtain ⟨message', hmessage', hof'⟩ := (smartRollupMessages_of_hexOf hforall).1 hfits
    obtain rfl := Except.ok.inj (hmessage.symm.trans hmessage')
    have hlt : (framed segments).length < 2 ^ 32 := by
      by_contra hge
      obtain ⟨e, he⟩ := paddedBytesEncoder_refuses hof' (Nat.not_lt.mp hge)
      rw [he] at hpadded
      cases hpadded
    obtain ⟨hex', hhex', hof''⟩ := paddedBytesEncoder_of_hexOf hof' hlt
    obtain rfl := Except.ok.inj (hpadded.symm.trans hhex')
    obtain rfl := hof.2.symm.trans hof''.2
    have hunique := (smartRollupMessageDecoder_reads hlt).unique hread (s := []) (t := []) rfl
    exact ⟨hunique.1, hlt⟩
  · rintro ⟨hval, hlt⟩
    obtain ⟨message, hmessage, hof⟩ :=
      (smartRollupMessages_of_hexOf hforall).1 (framable_of_length hlt)
    obtain ⟨hex, hhex, hof'⟩ := paddedBytesEncoder_of_hexOf hof hlt
    have hread := smartRollupMessageDecoder_reads hlt
    rw [hval] at hread
    refine ⟨hex, lengthPrefixed (framed segments), ?_, hof', hread⟩
    rw [smartRollupMessageEncoder, hmessage]
    exact hhex

/-! ## Segments and messages -/

/-- **Length-prefixed segments** come out of a consumer exactly from the ends of its array, and the
messages of a rollup are read back exactly where they are lower-case and can be counted. -/
theorem segments_iff (c : Uint8ArrayConsumer) (segments : List Bytes) (val : List JSString) :
    (Framable segments → c.remaining = framed segments →
      (stripLengthPrefixFromBytes 4 c = .ok segments ↔ c.offset = 0 ∨ c.offset = c.arr.length)) ∧
      ((∀ m ∈ val, isHexPairs m = true) →
        (MessagesInverted val ↔
          (∀ m ∈ val, ∀ c ∈ m, isLowerHexDigit c = true) ∧ messagesLength val < 2 ^ 32)) :=
  ⟨fun hfits h => stripLengthPrefixFromBytes_iff hfits h, fun h => messagesInverted_iff h⟩

theorem segments_iff_example :
    stripLengthPrefixFromBytes 4 ⟨[0, 0, 0, 0, 0, 0, 0, 2, 7, 8], 0⟩ = .ok [[], [7, 8]] ∧
      MessagesInverted [js "00ff", []] := by
  have hfits : Framable [[], [7, 8]] := by
    intro s hs
    rcases List.mem_cons.mp hs with rfl | hs
    · exact Nat.two_pow_pos 32
    · obtain rfl := List.mem_singleton.mp hs
      exact (by decide : (2 : ℕ) < 2 ^ 32)
  have hpairs : ∀ m ∈ [js "00ff", []], isHexPairs m = true :=
    List.all_eq_true.mp (by decide)
  have hlower : [js "00ff", []].all (fun m => m.all isLowerHexDigit) = true := by decide
  have hboth := segments_iff ⟨[0, 0, 0, 0, 0, 0, 0, 2, 7, 8], 0⟩ [[], [7, 8]] [js "00ff", []]
  refine ⟨(hboth.1 hfits rfl).mpr (.inl rfl), ?_⟩
  refine (hboth.2 hpairs).mpr ⟨fun m hm => ?_, by decide⟩
  exact List.all_eq_true.mp (List.all_eq_true.mp hlower m hm)

/-- Behind an octet that is already consumed, the round after `00000001 07` starts at the 7. -/
theorem not_stripLengthPrefixFromBytes :
    Uint8ArrayConsumer.remaining ⟨[9, 0, 0, 0, 1, 7], 1⟩ = framed [[7]] ∧
      stripLengthPrefixFromBytes 4 ⟨[9, 0, 0, 0, 1, 7], 1⟩ ≠ .ok [[7]] := by
  refine ⟨rfl, fun h => ?_⟩
  have herror : stripLengthPrefixFromBytes 4 ⟨[9, 0, 0, 0, 1, 7], 1⟩ = .error (notEnough 4 1) := rfl
  rw [herror] at h
  cases h

end LocalForging
