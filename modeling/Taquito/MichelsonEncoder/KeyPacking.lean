import Taquito.MichelCodec.Identifiers
import Taquito.MichelsonEncoder.BigMapKeys

/-!
# When a big-map key is found

The packed literal of `ToBigMapKey` is that of `EncodeObject` for most types, since `ToBigMapKey`
makes the same literal (`BaseType.keyAgrees`). It is not where it writes a value by another path:
numerals are not normalised, the octets of `bytes` are not converted, an address is decoded by hand,
and a timestamp given as a number is taken for a text.
-/

open Js MichelCodec Varint

namespace MichelsonEncoder

/-! ## What is packed of a literal -/

section packing

variable (h : MichelCodec.Host)

theorem packData_of_transform {h : MichelCodec.Host} {d t e : Expr} {supply : Supply} {fuel : ℕ}
    (hweight : d.weight = fuel + 1) (ht : writeTyped h t d = .ok (e, supply)) :
    (packData h d (some t)).toOption
      = (writeNode (writeExpr h fuel) e supply).toOption.map (5 :: ·) := by
  have hexpr : writeExpr h (fuel + 1) (.typed t) d = writeNode (writeExpr h fuel) e supply := by
    rw [writeExpr]
    show writeTyped h t d >>= _ = _
    rw [ht]
    rfl
  rw [packData, hweight]
  show (writeExpr h (fuel + 1) (.typed t) d >>= _).toOption = _
  rw [hexpr]
  cases writeNode (writeExpr h fuel) e supply <;> rfl

theorem packData_of_error {h : MichelCodec.Host} {d t : Expr} {error : MichelError}
    (ht : writeTyped h t d = .error error) : (packData h d (some t)).toOption = none := by
  obtain ⟨fuel, hfuel⟩ := Expr.exists_succ_of_weight (le_refl d.weight)
  have hexpr : writeExpr h (fuel + 1) (.typed t) d = .error error := by
    rw [writeExpr]
    show writeTyped h t d >>= _ = _
    rw [ht]
    rfl
  rw [packData, hfuel]
  show (writeExpr h (fuel + 1) (.typed t) d >>= _).toOption = _
  rw [hexpr]
  rfl

/-- The types whose literals may be numerals. -/
theorem packData_int {p : String} (hp : p ∈ ["int", "nat", "mutez", "timestamp"]) (text : JSString) :
    (packData h (.int text) (some (plainType p))).toOption
      = (bigInt text).map fun z => 5 :: 0 :: intBytes z := by
  have hnode : ∀ supply, (writeNode (writeExpr h 0) (.int text) supply).toOption.map (5 :: ·)
      = (bigInt text).map fun z => 5 :: 0 :: intBytes z := by
    intro supply
    rw [writeNode]
    cases bigInt text with
    | none => rfl
    | some z =>
      rw [Option.map_some, ← writeInt_eq]
      rfl
  simp only [List.mem_cons, List.not_mem_nil, or_false] at hp
  rcases hp with rfl | rfl | rfl | rfl
  · rw [packData_of_transform rfl rfl, hnode]
  · rw [packData_of_transform rfl rfl, hnode]
  · rw [packData_of_transform rfl rfl, hnode]
  · rw [packData_of_transform rfl rfl, hnode]

theorem packData_bytes (hex : JSString) :
    (packData h (.bytes hex) (some (plainType "bytes"))).toOption
      = (parseHex hex).toOption.map fun xs => 5 :: 10 :: (writeUint32 xs.length ++ xs.map octet) := by
  rw [packData_of_transform rfl rfl, writeNode]
  cases parseHex hex <;> rfl

/-- Octets as a literal. -/
theorem packData_toHex (octets : Bytes) :
    (packData h (.bytes (toHex octets)) (some (plainType "bytes"))).toOption
      = some (5 :: 10 :: (writeUint32 octets.length ++ octets)) := by
  obtain ⟨xs, hxs, hmap⟩ := parseHex_eq (isHexPairs_toHex octets)
  have hlength := congrArg List.length hmap
  rw [bufferFromHex_toHex] at hmap hlength
  rw [List.length_map] at hlength
  rw [packData_bytes, hxs, ← hmap, List.length_map]
  rfl

/-- Octets are known from what is packed. -/
theorem packData_toHex_injective {octets octets' : Bytes}
    (heq : (packData h (.bytes (toHex octets)) (some (plainType "bytes"))).toOption
      = (packData h (.bytes (toHex octets')) (some (plainType "bytes"))).toOption) :
    octets = octets' := by
  rw [packData_toHex, packData_toHex] at heq
  have hlist := List.tail_eq_of_cons_eq (List.tail_eq_of_cons_eq (Option.some.inj heq))
  have hlength : ∀ n, (writeUint32 n).length = 4 := fun n => BigEndian.beBytes_length 4 n
  exact (List.append_inj hlist (by rw [hlength, hlength])).2

/-- An address is written as octets. -/
theorem packData_address (text : JSString) :
    (packData h (.string text) (some (plainType "address"))).toOption
      = ((addressBytes h text).toOption.bind id).bind fun octets =>
          (packData h (.bytes (toHex octets)) (some (plainType "bytes"))).toOption := by
  show ((writeLeaf _ _ _ _ _).map _ >>= _ >>= _ : Except MichelError Bytes).toOption = _
  rw [writeLeaf]
  cases addressBytes h text with
  | error => rfl
  | ok octets => cases octets <;> rfl

/-- A text at a timestamp is read as a date. -/
theorem packData_date (text : JSString) :
    (packData h (.string text) (some (plainType "timestamp"))).toOption
      = ((parseDate h text).bind id).map fun ms => 5 :: 0 :: intBytes (ms / 1000) := by
  have htyped : writeTyped h (plainType "timestamp") (.string text)
      = (writeTimestamp h (plainType "timestamp") (.string text)).map (·, .list []) := rfl
  rw [writeTimestamp] at htyped
  rcases hdate : parseDate h text with _ | _ | ms
  · rw [hdate] at htyped
    exact packData_of_error htyped
  · rw [hdate] at htyped
    rw [packData_of_transform rfl htyped]
    rfl
  · rw [hdate] at htyped
    rw [packData_of_transform rfl htyped, writeNode, bigInt_of_decimal (decimalValue_intText _)]
    show some (5 :: 0 :: writeInt (ms / 1000)) = _
    rw [writeInt_eq]
    rfl

theorem written_else {c : Prop} [Decidable c] (hc : ¬c) {x x' y y' : Except MichelError (Expr × Supply)}
    (hy : written y = written y') :
    written (if c then x else y) = written (if c then x' else y') := by
  rw [if_neg hc, if_neg hc, hy]

/-- The components of a type that should have none are not read. -/
theorem packData_plainType {p : String} (hp : p ∉ ["pair", "or", "option", "list", "set", "map"])
    (d : Expr) (args : Option (List Expr)) (annots : Annots) :
    (packData h d (some (.prim p args annots))).toOption
      = (packData h d (some (plainType p))).toOption := by
  have hwritten : written (writeTyped h (.prim p args annots) d)
      = written (writeTyped h (plainType p) d) := by
    simp only [List.mem_cons, List.not_mem_nil, or_false, not_or] at hp
    obtain ⟨hpair, hor, hoption, hlist, hset, hmap⟩ := hp
    have hleaf : ∀ expected base58 encode,
        written ((writeLeaf (.prim p args annots) d expected base58 encode).map (·, .list []))
          = written ((writeLeaf (plainType p) d expected base58 encode).map (·, .list [])) :=
      fun _ _ _ => written_leaf (writeLeaf_plain _ _ _ _ _ _)
    unfold plainType at hleaf ⊢
    unfold writeTyped
    refine written_else hpair (written_else hor (written_else hoption
      (written_else (not_or.mpr ⟨hlist, hset⟩) (written_else hmap ?_))))
    exact written_ite (hleaf _ _ _) (written_ite (hleaf _ _ _) (written_ite (hleaf _ _ _)
      (written_ite (hleaf _ _ _) (written_ite (hleaf _ _ _)
      (written_ite (written_leaf (writeTimestamp_plain h _ _ d)) rfl)))))
  rw [packData, packData, Except.toOption_bind, Except.toOption_bind]
  congr 1
  obtain ⟨fuel, hfuel⟩ := Expr.exists_succ_of_weight (le_refl d.weight)
  rw [hfuel]
  exact writeExpr_succ (writeExpr_plain h fuel) hwritten

end packing

/-! ## Keys that are packed alike -/

/-- The integer that a number is. -/
def integerOf : BigNumber → Option ℤ
  | .finite q => if q.den = 1 then some q.num else none
  | _ => none

/-- The prefixes of the kinds of addresses that the codec writes. -/
def codecPrefixes : List Utils.Prefix := [.TZ1, .TZ2, .TZ3, .KT1]

/-- An address of a kind that the codec writes as octets. -/
def CodecAddress (b58 : Base58Check) (s : JSString) : Prop :=
  ∃ p ∈ codecPrefixes, ∃ hash : Bytes, hash.length = 20 ∧
    b58.decode s = some (p.bytes ++ hash)

/-- The seconds that the codec reads from a number as a date. -/
def dateSeconds (host : Host) (k : Val) : Option ℤ :=
  ((parseDate host.codec (dateText host k)).bind id).map (· / 1000)

/-- The keys whose literals are packed alike. A numeral is one for `BigInt` as it stands; octets are
hexadecimal digits without `0x`; an address is of a kind that the codec knows and names no
entrypoint, or neither; a number is a timestamp that the codec reads from it. -/
def BaseType.KeyAgrees (host : Host) (t : BaseType) (k : Val) : Prop :=
  match t, k with
  | .int, k | .nat, k => bigInt (k.text host) = integerOf (toBigNumber host k)
  | .bytes, .string s => ¬(js "0x").isPrefixOf s
  | .bytes, .uint8Array octets => octets = [] ∨ ∃ b : UInt8, octets = [b] ∧ b < 10
  | .address, .string s => CodecAddress host.b58 (Utils.withoutEntrypoint s) ↔ 37 ∉ s
  | .timestamp, .number z => bigInt ((Val.number z).text host) = dateSeconds host (.number z)
  | .timestamp, .double n => bigInt ((Val.double n).text host) = dateSeconds host (.double n)
  | .tx_rollup_l2_address, _ => False
  | _, _ => True

/-- The keys of a type that are packed alike. -/
def MType.KeyAgrees (host : Host) (t : MType) (k : Val) : Prop :=
  match t with
  | .base _ t => t.KeyAgrees host k
  | _ => True

section agreement

variable {host : Host}

theorem digitsValue_eq_none {r : ℕ} {s : JSString} {c : UInt16} (hc : c ∈ s)
    (hdigit : digitValue c = none) : digitsValue r s = none := by
  have hmap : s.mapM (radixValue r) = none := by
    induction s with
    | nil => cases hc
    | cons d s ih =>
      rw [List.mapM_cons]
      rcases List.mem_cons.mp hc with rfl | hc
      · rw [radixValue, hdigit]
        rfl
      · rw [ih hc]
        cases radixValue r d <;> rfl
  rw [digitsValue, hmap]
  split <;> rfl

theorem mem_dropWhile {p : UInt16 → Bool} {s : JSString} {c : UInt16} (hc : c ∈ s) (hp : p c = false) :
    c ∈ s.dropWhile p := by
  rw [← @List.takeWhile_append_dropWhile _ p s, List.mem_append] at hc
  refine hc.resolve_left ?_
  intro htake
  rw [List.mem_takeWhile_imp htake] at hp
  cases hp

/-- A text with a point is no integer. -/
theorem bigInt_eq_none_of_point {s : JSString} (hs : (46 : UInt16) ∈ s) : bigInt s = none := by
  have hpoint : digitValue 46 = none := by decide
  have hspace : isWhitespace 46 = false := by decide
  have htrim : (46 : UInt16) ∈ ((s.dropWhile isWhitespace).reverse.dropWhile isWhitespace).reverse :=
    List.mem_reverse.mpr (mem_dropWhile (List.mem_reverse.mpr (mem_dropWhile hs hspace)) hspace)
  unfold bigInt
  dsimp only
  generalize ((s.dropWhile isWhitespace).reverse.dropWhile isWhitespace).reverse = t at htrim
  have hradix : ∀ (c d : UInt16) (u : JSString) (r : ℕ), t = c :: d :: u → c ≠ 46 → d ≠ 46 →
      digitsValue r u = none := by
    intro c d u r ht hc hd
    rw [ht, List.mem_cons, List.mem_cons] at htrim
    exact digitsValue_eq_none ((htrim.resolve_left hc.symm).resolve_left hd.symm) hpoint
  split
  · cases htrim
  · rw [hradix _ _ _ _ rfl (by decide) (by decide)]
    rfl
  · rw [hradix _ _ _ _ rfl (by decide) (by decide)]
    rfl
  · rw [hradix _ _ _ _ rfl (by decide) (by decide)]
    rfl
  · rw [hradix _ _ _ _ rfl (by decide) (by decide)]
    rfl
  · rw [hradix _ _ _ _ rfl (by decide) (by decide)]
    rfl
  · rw [hradix _ _ _ _ rfl (by decide) (by decide)]
    rfl
  · have hsign : (46 : UInt16) ∈ (splitSign t).2 := by
      unfold splitSign
      split
      · exact (List.mem_cons.mp htrim).resolve_left (by decide)
      · exact (List.mem_cons.mp htrim).resolve_left (by decide)
      · exact htrim
    rw [digitsValue_eq_none hsign hpoint]
    rfl

theorem bigInt_toText (hlib : host.lib.Lawful) (n : BigNumber) :
    bigInt (n.toText host.lib 10) = integerOf n := by
  match n with
  | .nan =>
    show bigInt (js "NaN") = none
    decide
  | .infinity true =>
    show bigInt (js "-Infinity") = none
    decide
  | .infinity false =>
    show bigInt (js "Infinity") = none
    decide
  | .finite q =>
    by_cases hq : q.den = 1
    · have htext : (BigNumber.finite q).toText host.lib 10 = intText q.num := by
        rw [BigNumber.toText, if_pos hq, intText]
        split <;> rfl
      rw [integerOf, if_pos hq, htext, bigInt_of_decimal (decimalValue_intText _)]
    · rw [integerOf, if_neg hq, BigNumber.toText, if_neg hq]
      exact bigInt_eq_none_of_point (hlib.point_mem 10 q hq)

theorem length_misreadOctets : ∀ octets : Bytes, 2 * (misreadOctets octets).length ≤ octets.length + 1
  | [] => Nat.le_succ _
  | [_] => le_refl _
  | a :: b :: octets => by
    have ih := length_misreadOctets octets
    rw [misreadOctets, List.length_cons, List.length_cons, List.length_cons]
    omega

/-- Octets are misread as they are only if they are no more than a digit. -/
theorem misreadOctets_eq_iff (octets : Bytes) :
    misreadOctets octets = octets ↔ octets = [] ∨ ∃ b : UInt8, octets = [b] ∧ b < 10 := by
  have hdigit : ∀ i : Fin 256, octet ((parseInt 16 (natText (UInt8.ofFin i).toNat)).getD 0)
      = UInt8.ofFin i ↔ UInt8.ofFin i < 10 := by decide +kernel
  match octets with
  | [] => exact iff_of_true rfl (Or.inl rfl)
  | [b] =>
    have hb := hdigit b.toFin
    rw [UInt8.ofFin_toFin] at hb
    rw [misreadOctets, List.cons.injEq, hb]
    constructor
    · rintro ⟨hlt, -⟩
      exact Or.inr ⟨b, rfl, hlt⟩
    · rintro (hnil | ⟨b', heq, hlt⟩)
      · cases hnil
      · obtain ⟨rfl, -⟩ := List.cons.inj heq
        exact ⟨hlt, rfl⟩
  | a :: b :: octets =>
    refine iff_of_false ?_ ?_
    · intro heq
      have hlength := length_misreadOctets (a :: b :: octets)
      rw [heq, List.length_cons, List.length_cons] at hlength
      omega
    · rintro (hnil | ⟨b', heq, -⟩)
      · cases hnil
      · cases heq

/-- Numerals are packed alike if they are one integer, or none. -/
theorem packed_int_iff {p : String} (hp : p ∈ ["int", "nat", "mutez", "timestamp"]) {h : MichelCodec.Host}
    {x : Option ℤ} (text : JSString) :
    x.map (fun z => 5 :: 0 :: intBytes z) = (packData h (.int text) (some (plainType p))).toOption
      ↔ x = bigInt text := by
  rw [packData_int h hp]
  refine ⟨fun heq => ?_, fun heq => by rw [heq]⟩
  apply Option.map_injective _ heq
  intro z z' hz
  have hbytes := List.tail_eq_of_cons_eq (List.tail_eq_of_cons_eq hz)
  rw [← intValue_intBytes z, hbytes, intValue_intBytes]

theorem literalOf_of_ne {e : Encoded} {p : String} (hp : p ≠ "timestamp") (args : Option (List Expr))
    (annots : Annots) : e.literalOf host (.prim p args annots) = e.literal host := by
  unfold Encoded.literalOf
  split
  · next heq => exact absurd (Expr.prim.inj heq).1 hp
  · rfl

/-- A literal of a type without components is packed at its name. -/
theorem packEncoded_plainType (t : BaseType) (e : Encoded) (args : Option (List Expr))
    (annots : Annots) :
    packEncoded host e (.prim t.prim args annots) = packEncoded host e (plainType t.prim) := by
  have hliteral : e.literalOf host (.prim t.prim args annots)
      = e.literalOf host (plainType t.prim) := by
    by_cases hp : t.prim = "timestamp"
    · rw [hp]
      cases e <;> rfl
    · rw [plainType, literalOf_of_ne hp, literalOf_of_ne hp]
  rw [packEncoded, packEncoded, hliteral]
  congr 1
  funext d
  exact packData_plainType _ (by cases t <;> decide) d args annots

/-- `EncodeObject` writes the number that a value is. -/
theorem encodeObject_numeral {t : BaseType} (ht : t = .int ∨ t = .nat) {k : Val} {e : Encoded}
    (he : t.encodeObject host k = .ok e) :
    e = .int ((BaseType.toBigNumber host k).toText host.lib 10) := by
  rcases ht with rfl | rfl
  · rw [BaseType.encodeObject] at he
    cases hn : BaseType.toBigNumber host k <;> rw [hn] at he <;> cases he <;> rfl
  · rw [BaseType.encodeObject] at he
    rcases hn : BaseType.toBigNumber host k with _ | neg | q
    · rw [hn] at he
      cases he
    · rw [hn] at he
      cases neg <;> cases he
      rfl
    · rw [hn] at he
      dsimp only at he
      split at he
      · cases he
      · cases he
        rfl

theorem agrees_int (hlib : host.lib.Lawful) {t : BaseType} (ht : t = .int ∨ t = .nat) {k : Val}
    {e : Encoded} (he : t.encodeObject host k = .ok e) :
    packEncoded host (.int (k.text host)) (plainType t.prim) = packEncoded host e (plainType t.prim)
      ↔ bigInt (k.text host) = integerOf (BaseType.toBigNumber host k) := by
  have hp : t.prim ∈ ["int", "nat", "mutez", "timestamp"] := by
    rcases ht with rfl | rfl <;> decide
  obtain rfl := encodeObject_numeral ht he
  have hpack : ∀ text, packEncoded host (.int text) (plainType t.prim)
      = (packData host.codec (.int text) (some (plainType t.prim))).toOption := by
    intro text
    rfl
  rw [hpack, hpack, packData_int _ hp, packed_int_iff hp, bigInt_toText hlib]

/-- A literal of octets is packed as it stands. -/
theorem packEncoded_bytes (v : Val) :
    packEncoded host (.bytes v) (plainType "bytes")
      = ((Encoded.bytes v).literal host).bind fun d =>
          (packData host.codec d (some (plainType "bytes"))).toOption := by
  rw [packEncoded, plainType, literalOf_of_ne (by decide)]

theorem packEncoded_hex (s : JSString) :
    packEncoded host (.bytes (.string s)) (plainType "bytes")
      = (packData host.codec (.bytes s) (some (plainType "bytes"))).toOption := by
  have hliteral : (Encoded.bytes (.string s)).literal host = some (.bytes s) := by
    rw [Encoded.literal, Val.text]
    exact fun octets h => Val.noConfusion h
  rw [packEncoded_bytes, hliteral, Option.bind_some]

/-- Octets. -/
theorem agrees_bytes {k : Val} {e : Encoded} (he : BaseType.bytes.encodeObject host k = .ok e) :
    packEncoded host (.bytes k) (plainType "bytes") = packEncoded host e (plainType "bytes")
      ↔ BaseType.bytes.KeyAgrees host k := by
  match k with
  | .string s =>
    have hs : isHexPairs (Utils.stripHexPrefix s) = true ∧ e = .bytes (.string (Utils.stripHexPrefix s)) := by
      rw [BaseType.encodeObject, BaseType.validHex] at he
      split at he
      · next hhex =>
        cases he
        exact ⟨hhex, rfl⟩
      · cases he
    obtain ⟨hhex, rfl⟩ := hs
    show _ ↔ ¬(js "0x").isPrefixOf s = true
    by_cases hprefix : (js "0x").isPrefixOf s = true
    · -- The `0x` is no hexadecimal digit.
      obtain ⟨u, rfl⟩ := List.isPrefixOf_iff_prefix.mp hprefix
      refine iff_of_false ?_ (not_not.mpr hprefix)
      have hleft : packEncoded host (.bytes (.string (js "0x" ++ u))) (plainType "bytes") = none := by
        rw [packEncoded_hex, packData_bytes]
        rfl
      have hright : (packEncoded host (.bytes (.string (Utils.stripHexPrefix (js "0x" ++ u))))
          (plainType "bytes")).isSome := by
        obtain ⟨xs, hxs, _⟩ := parseHex_eq hhex
        rw [packEncoded_hex, packData_bytes, hxs]
        rfl
      intro heq
      rw [← heq, hleft] at hright
      cases hright
    · rw [Utils.stripHexPrefix, if_neg hprefix]
      exact iff_of_true rfl hprefix
  | .uint8Array octets =>
    cases he
    rw [packEncoded_bytes, packEncoded_bytes]
    show _ ↔ octets = [] ∨ ∃ b : UInt8, octets = [b] ∧ b < 10
    rw [← misreadOctets_eq_iff]
    exact ⟨packData_toHex_injective host.codec, congrArg fun o =>
      (packData host.codec (.bytes (toHex o)) (some (plainType "bytes"))).toOption⟩
  | .undefined | .null | .bool _ | .number _ | .double _ | .bigNumber _ | .unit | .array _ | .object _
  | .map _ => cases he

/-- Timestamps. -/
theorem agrees_timestamp {k : Val} {e : Encoded}
    (he : BaseType.timestamp.encodeObject host k = .ok e) :
    packEncoded host (.string k) (plainType "timestamp") = packEncoded host e (plainType "timestamp")
      ↔ BaseType.timestamp.KeyAgrees host k := by
  have hdate : packEncoded host (.string k) (plainType "timestamp")
      = (dateSeconds host k).map fun z => 5 :: 0 :: intBytes z := by
    show (packData host.codec (.string (dateText host k)) (some (plainType "timestamp"))).toOption = _
    rw [packData_date, dateSeconds, Option.map_map]
    rfl
  have hnumber : packEncoded host (.string k) (plainType "timestamp")
      = packEncoded host (.int (k.text host)) (plainType "timestamp")
        ↔ bigInt (k.text host) = dateSeconds host k := by
    rw [hdate, eq_comm (a := bigInt _)]
    exact packed_int_iff (by decide) _
  match k with
  | .number z =>
    cases he
    exact hnumber
  | .double n =>
    cases he
    exact hnumber
  | .undefined | .null | .bool _ | .string _ | .bigNumber _ | .uint8Array _ | .unit | .array _
  | .object _ | .map _ =>
    cases he
    exact iff_of_true rfl trivial

/-! ### Addresses -/

/-- What stands before the first `%`. -/
theorem headD_splitOn (s : JSString) : (s.splitOn 37).headD [] = Utils.withoutEntrypoint s := by
  induction s with
  | nil => rfl
  | cons c s ih =>
    rw [List.splitOn_cons_eq_if_modifyHead, Utils.withoutEntrypoint, List.takeWhile_cons]
    by_cases hc : c = 37
    · rw [if_pos (beq_iff_eq.mpr hc), hc]
      rfl
    · obtain ⟨w, ws, hws⟩ := List.exists_cons_of_ne_nil (List.splitOn_ne_nil (37 : UInt16) s)
      rw [if_neg (by simpa using hc), decide_eq_true hc, if_pos rfl]
      rw [hws] at ih ⊢
      exact congrArg (c :: ·) ih

/-- The octets of a valid address. -/
theorem decode_of_valid {b58 : Base58Check} {s : JSString} {prefixes : List Utils.Prefix}
    (h : Utils.validatePrefixedValue b58 s prefixes = .VALID) :
    ∃ p ∈ prefixes, ∃ bs, b58.decode (Utils.withoutEntrypoint s) = some bs ∧
      (bs.drop p.bytes.length).length = p.payload := by
  rw [Utils.validatePrefixedValue] at h
  split at h
  · cases h
  · next p hp =>
    dsimp only at h
    split at h
    · cases h
    · split at h
      · cases h
      · next bs hbs =>
        split at h
        · cases h
        · next hlength => exact ⟨p, List.mem_of_find?_eq_some hp, bs, hbs, not_not.mp hlength⟩

/-- The octets that both ways write of an address: a tag and the hash. -/
def addressTag : Utils.Prefix → Bytes × Bytes
  | .TZ1 => ([0, 0], [])
  | .TZ2 => ([0, 1], [])
  | .TZ3 => ([0, 2], [])
  | _ => ([1], [0])

/-- What the codec reads of the octets of an address. -/
theorem addressBytes_of_decode {s : JSString} {bs : Bytes}
    (hdecode : host.b58.decode (Utils.withoutEntrypoint s) = some bs) (hlength : 20 ≤ bs.length) :
    addressBytes host.codec s
      = match matchTezosID (bs.map some) (publicKeyHashTypes ++ [.ContractHash]) with
        | none => .ok none
        | some id => (writeAddress id.1 id.2 (s.splitOn 37)[1]?).map some := by
  have hbase58 : decodeBase58Check host.codec.b58 ((s.splitOn 37).headD []) = .ok (bs.map some) := by
    have hdecode' : host.codec.b58.decode (Utils.withoutEntrypoint s) = some bs := hdecode
    rw [headD_splitOn]
    exact decodeBase58Check_eq_ok hdecode' (by omega)
  rw [addressBytes, checkDecodeTezosID, hbase58]
  dsimp only [bind, Except.bind, pure, Except.pure]
  rcases hid : matchTezosID (bs.map some) (publicKeyHashTypes ++ [.ContractHash])
    with _ | ⟨type, hash⟩
  · rw [hid]
  · rw [hid]
    dsimp only
    cases writeAddress type hash (s.splitOn 37)[1]? <;> rfl

/-- The kind that the codec has for a prefix. -/
def codecType : Utils.Prefix → TezosIDType
  | .TZ1 => .ED25519PublicKeyHash
  | .TZ2 => .SECP256K1PublicKeyHash
  | .TZ3 => .P256PublicKeyHash
  | _ => .ContractHash

theorem length_codecPrefix : ∀ p ∈ codecPrefixes, p.bytes.length = 3 := by decide

/-- The kinds are told apart by their prefixes. -/
theorem matchTezosID_codec {p : Utils.Prefix} (hp : p ∈ codecPrefixes) {hash : Bytes}
    (hlength : hash.length = 20) :
    matchTezosID ((p.bytes ++ hash).map some) (publicKeyHashTypes ++ [.ContractHash])
      = some (codecType p, hash) := by
  have hsize : (p.bytes ++ hash).length = 3 + 20 := by
    rw [List.length_append, length_codecPrefix p hp, hlength]
  rw [matchTezosID_map]
  simp only [codecPrefixes, List.mem_cons, List.not_mem_nil, or_false] at hp
  rcases hp with rfl | rfl | rfl | rfl <;>
    simp only [publicKeyHashTypes, List.cons_append, List.nil_append, List.find?_cons, hsize] <;>
    rfl

/-- What the codec knows is an address of one of its kinds. -/
theorem codec_of_matchTezosID {bs : Bytes} {id : TezosIDType × Bytes}
    (h : matchTezosID (bs.map some) (publicKeyHashTypes ++ [.ContractHash]) = some id) :
    ∃ p ∈ codecPrefixes, ∃ hash : Bytes, hash.length = 20 ∧ bs = p.bytes ++ hash := by
  rw [matchTezosID_map] at h
  obtain ⟨type, hfind, -⟩ := Option.map_eq_some_iff.mp h
  have hmem := List.mem_of_find?_eq_some hfind
  have hfits : bs.length = (tezosPrefix type).1 + (tezosPrefix type).2.length ∧
      bs.take (tezosPrefix type).2.length = (tezosPrefix type).2 := by
    simpa only [decide_eq_true_eq] using List.find?_some hfind
  obtain ⟨hlength, htake⟩ := hfits
  have hsplit := List.take_append_drop (tezosPrefix type).2.length bs
  have hdrop : (bs.drop (tezosPrefix type).2.length).length = (tezosPrefix type).1 := by
    rw [List.length_drop]
    omega
  rw [htake] at hsplit
  simp only [publicKeyHashTypes, List.cons_append, List.nil_append, List.mem_cons,
    List.not_mem_nil, or_false] at hmem
  rcases hmem with rfl | rfl | rfl | rfl
  · exact ⟨.TZ1, by decide, _, hdrop, hsplit.symm⟩
  · exact ⟨.TZ2, by decide, _, hdrop, hsplit.symm⟩
  · exact ⟨.TZ3, by decide, _, hdrop, hsplit.symm⟩
  · exact ⟨.KT1, by decide, _, hdrop, hsplit.symm⟩

/-- The codec writes an address of a kind that it knows. -/
theorem addressBytes_codec {s : JSString} {p : Utils.Prefix} {hash : Bytes}
    (hp : p ∈ codecPrefixes) (hlength : hash.length = 20)
    (hdecode : host.b58.decode (Utils.withoutEntrypoint s) = some (p.bytes ++ hash)) :
    addressBytes host.codec s = .ok (some ((addressTag p).1 ++ hash ++ (addressTag p).2
      ++ writeEntryPoint (s.splitOn 37)[1]?)) := by
  rw [addressBytes_of_decode hdecode (by rw [List.length_append]; omega),
    matchTezosID_codec hp hlength]
  simp only [codecPrefixes, List.mem_cons, List.not_mem_nil, or_false] at hp
  rcases hp with rfl | rfl | rfl | rfl
  · show Except.ok (some (0 :: 0 :: hash ++ _)) = .ok (some (0 :: 0 :: hash ++ [] ++ _))
    rw [List.append_nil]
  · show Except.ok (some (0 :: 1 :: hash ++ _)) = .ok (some (0 :: 1 :: hash ++ [] ++ _))
    rw [List.append_nil]
  · show Except.ok (some (0 :: 2 :: hash ++ _)) = .ok (some (0 :: 2 :: hash ++ [] ++ _))
    rw [List.append_nil]
  · rfl

/-- And no other. -/
theorem addressBytes_other {s : JSString} {bs : Bytes}
    (hdecode : host.b58.decode (Utils.withoutEntrypoint s) = some bs) (hlength : 20 ≤ bs.length)
    (hcodec : ¬CodecAddress host.b58 (Utils.withoutEntrypoint s)) :
    addressBytes host.codec s = .ok none := by
  rw [addressBytes_of_decode hdecode hlength]
  cases hid : matchTezosID (bs.map some) (publicKeyHashTypes ++ [.ContractHash]) with
  | none => rfl
  | some id =>
    obtain ⟨p, hp, hash, hhash, rfl⟩ := codec_of_matchTezosID hid
    exact absurd ⟨p, hp, hash, hhash, hdecode⟩ hcodec

/-- `b58decode` of an address of a kind that the codec knows gives the same octets. -/
theorem b58decode_codec {s : JSString} {p : Utils.Prefix} {hash : Bytes} (hp : p ∈ codecPrefixes)
    (hlength : hash.length = 20) (hdecode : host.b58.decode s = some (p.bytes ++ hash)) :
    Utils.b58decode host.b58 s
      = some (toHex ((addressTag p).1 ++ hash ++ (addressTag p).2)) := by
  have hsize := length_codecPrefix p hp
  have htake : (p.bytes ++ hash).take 3 = p.bytes := by rw [← hsize, List.take_left]
  have hdrop : (p.bytes ++ hash).drop 3 = hash := by rw [← hsize, List.drop_left]
  rw [Utils.b58decode, hdecode, Option.map_some, htake, hdrop]
  simp only [codecPrefixes, List.mem_cons, List.not_mem_nil, or_false] at hp
  rcases hp with rfl | rfl | rfl | rfl
  · rw [if_pos rfl, addressTag, List.append_nil, toHex_append]
    rfl
  · rw [if_neg (by decide), if_pos rfl, addressTag, List.append_nil, toHex_append]
    rfl
  · rw [if_neg (by decide), if_neg (by decide), if_pos rfl, addressTag, List.append_nil, toHex_append]
    rfl
  · have hhash : ((Utils.Prefix.KT1.bytes ++ hash).take 42).drop 3 = hash := by
      show hash.take 39 = hash
      rw [List.take_of_length_le (by omega)]
    have hrollup : ¬(Utils.Prefix.KT1.bytes ++ hash).take 4 = Utils.Prefix.TXR1.bytes := by
      intro heq
      cases List.head_eq_of_cons_eq heq
    show _ = some (toHex ([1] ++ hash ++ [0]))
    rw [if_neg (by decide), if_neg (by decide), if_neg (by decide), if_neg hrollup, hhash,
      toHex_append, toHex_append]
    rfl

/-- `b58decode` gives octets of whatever is decoded. -/
theorem b58decode_toHex {s : JSString} {bs : Bytes} (hdecode : host.b58.decode s = some bs) :
    ∃ octets, Utils.b58decode host.b58 s = some (toHex octets) := by
  rw [Utils.b58decode, hdecode, Option.map_some]
  by_cases htz1 : bs.take 3 = Utils.Prefix.TZ1.bytes
  · rw [if_pos htz1]
    exact ⟨[0, 0] ++ bs.drop 3, rfl⟩
  · by_cases htz2 : bs.take 3 = Utils.Prefix.TZ2.bytes
    · rw [if_neg htz1, if_pos htz2]
      exact ⟨[0, 1] ++ bs.drop 3, rfl⟩
    · by_cases htz3 : bs.take 3 = Utils.Prefix.TZ3.bytes
      · rw [if_neg htz1, if_neg htz2, if_pos htz3]
        exact ⟨[0, 2] ++ bs.drop 3, rfl⟩
      · rw [if_neg htz1, if_neg htz2, if_neg htz3]
        by_cases htxr1 : bs.take 4 = Utils.Prefix.TXR1.bytes
        · rw [if_pos htxr1]
          exact ⟨[2] ++ bs.drop 4 ++ [0], by rw [toHex_append]; rfl⟩
        · rw [if_neg htxr1]
          exact ⟨[1] ++ (bs.take 42).drop 3 ++ [0], by rw [toHex_append]; rfl⟩

/-- The literal that `b58decode` gives. -/
theorem packed_decodedBytes (decode : JSString → Option JSString) (s : JSString) :
    ((decodedBytes decode (.string s)).toOption.bind fun r => packEncoded host r.1 r.2)
      = (decode s).bind fun hex =>
          (packData host.codec (.bytes hex) (some (plainType "bytes"))).toOption := by
  rw [decodedBytes]
  cases decode s with
  | none => rfl
  | some hex => exact packEncoded_hex hex

/-- Addresses. -/
theorem agrees_address (hb58 : host.b58.Alphanumeric) {k : Val} {e : Encoded}
    (he : BaseType.address.encodeObject host k = .ok e) :
    ((BaseType.address.toBigMapKey host k).toOption.bind fun r => packEncoded host r.1 r.2)
        = packEncoded host e (plainType "address")
      ↔ BaseType.address.KeyAgrees host k := by
  obtain ⟨s, rfl, hvalid, rfl⟩ := validText_ok he
  obtain ⟨q, hq, bs, hdecode, hpayload⟩ := decode_of_valid hvalid
  have hlength : 20 ≤ bs.length := by
    have htwenty : ∀ p ∈ Utils.implicitPrefixes ++ Utils.contractPrefixes,
        Utils.Prefix.payload p = 20 := by decide
    rw [htwenty q hq, List.length_drop] at hpayload
    omega
  rw [BaseType.toBigMapKey, packed_decodedBytes]
  have hright : packEncoded host (.string (.string s)) (plainType "address")
      = ((addressBytes host.codec s).toOption.bind id).bind fun octets =>
          (packData host.codec (.bytes (toHex octets)) (some (plainType "bytes"))).toOption :=
    packData_address host.codec s
  rw [hright]
  show _ ↔ (CodecAddress host.b58 (Utils.withoutEntrypoint s) ↔ 37 ∉ s)
  by_cases hentry : (37 : UInt16) ∈ s
  · -- With an entrypoint, `b58decode` throws.
    have hthrows : host.b58.decode s = none := by
      by_contra hsome
      obtain ⟨bs', hbs'⟩ := Option.ne_none_iff_exists'.mp hsome
      exact absurd (hb58 hbs' 37 hentry) (by decide)
    rw [Utils.b58decode, hthrows, Option.map_none, Option.bind_none,
      iff_false_right (not_not.mpr hentry)]
    by_cases hcodec : CodecAddress host.b58 (Utils.withoutEntrypoint s)
    · obtain ⟨p, hp, hash, hhash, hhash58⟩ := hcodec
      rw [addressBytes_codec hp hhash hhash58]
      refine iff_of_false ?_ (not_not.mpr ⟨p, hp, hash, hhash, hhash58⟩)
      show ¬none = (packData _ _ _).toOption
      rw [packData_toHex]
      exact Option.some_ne_none _ ∘ Eq.symm
    · rw [addressBytes_other hdecode hlength hcodec]
      exact iff_of_true rfl hcodec
  · have hbase : Utils.withoutEntrypoint s = s := by
      refine List.takeWhile_eq_self_iff.mpr ?_
      intro c hc
      refine decide_eq_true ?_
      rintro rfl
      exact hentry hc
    have hsplit : s.splitOn 37 = [s] := by
      apply List.splitOnP_eq_singleton
      intro c hc
      apply beq_false_of_ne
      rintro rfl
      exact hentry hc
    rw [iff_true_right hentry]
    by_cases hcodec : CodecAddress host.b58 (Utils.withoutEntrypoint s)
    · obtain ⟨p, hp, hash, hhash, hhash58⟩ := hcodec
      rw [addressBytes_codec hp hhash hhash58, hsplit]
      rw [hbase] at hhash58
      rw [b58decode_codec hp hhash hhash58]
      refine iff_of_true ?_ ⟨p, hp, hash, hhash, hbase.symm ▸ hhash58⟩
      show _ = (packData _ (.bytes (toHex (_ ++ []))) _).toOption
      rw [List.append_nil]
      rfl
    · rw [addressBytes_other hdecode hlength hcodec]
      refine iff_of_false ?_ hcodec
      rw [hbase] at hdecode
      obtain ⟨octets, hoctets⟩ := b58decode_toHex hdecode
      rw [hoctets, Option.bind_some, packData_toHex]
      exact Option.some_ne_none _

/-- An address of a rollup account is packed as a text at its type, and as octets of `bytes`. -/
theorem not_agrees_l2Address {k : Val} {e : Encoded}
    (he : BaseType.tx_rollup_l2_address.encodeObject host k = .ok e) :
    ((BaseType.tx_rollup_l2_address.toBigMapKey host k).toOption.bind fun r =>
        packEncoded host r.1 r.2)
      ≠ packEncoded host e (plainType "tx_rollup_l2_address") := by
  obtain ⟨s, rfl, -, rfl⟩ := validText_ok he
  have hright : packEncoded host (.string (.string s)) (plainType "tx_rollup_l2_address")
      = some (5 :: 1 :: (writeUint32 (utf8Encode s).length ++ utf8Encode s)) := rfl
  rw [BaseType.toBigMapKey, packed_decodedBytes, hright]
  cases hdecode : host.b58.decode s with
  | none =>
    rw [Utils.b58decodeL2Address, hdecode]
    exact (Option.some_ne_none _).symm
  | some bs =>
    rw [Utils.b58decodeL2Address, hdecode, Option.map_some, Option.bind_some, packData_toHex]
    intro heq
    cases List.head_eq_of_cons_eq (List.tail_eq_of_cons_eq (Option.some.inj heq))

/-- Keys of a type without components. -/
theorem BaseType.packed_iff (hlib : host.lib.Lawful) (hb58 : host.b58.Alphanumeric) {t : BaseType}
    (ht : t.comparable) {k : Val} {e : Encoded} (he : t.encodeObject host k = .ok e) :
    ((t.toBigMapKey host k).toOption.bind fun r => packEncoded host r.1 r.2)
        = packEncoded host e (plainType t.prim)
      ↔ t.KeyAgrees host k := by
  cases t with
  | int => exact agrees_int hlib (Or.inl rfl) he
  | nat => exact agrees_int hlib (Or.inr rfl) he
  | bytes => exact agrees_bytes he
  | timestamp => exact agrees_timestamp he
  | address => exact agrees_address hb58 he
  | tx_rollup_l2_address => exact iff_of_false (not_agrees_l2Address he) id
  | string | bool | unit =>
    cases he
    exact iff_of_true rfl trivial
  | mutez =>
    rw [BaseType.encodeObject] at he
    split at he
    · cases he
    · cases he
      exact iff_of_true rfl trivial
  | key | key_hash | signature | chain_id =>
    obtain ⟨s, rfl, -, rfl⟩ := validText_ok he
    exact iff_of_true rfl trivial
  | operation | never | bls12_381_fr | bls12_381_g1 | bls12_381_g2 | chest | chest_key => cases ht

end agreement

/-! ## The types of keys -/

section types

variable {others : String → Option (List Expr) → Option (ℕ → Token)}

theorem createPair_kind {annots : Annots} {items : List Expr} {t : MType}
    (h : createPair others annots items = some t) : ∃ left right, t = .pair annots left right := by
  match items with
  | [] => cases h
  | [_] => cases h
  | [left, right] =>
    rw [createPair] at h
    obtain ⟨l, -, h⟩ := Option.bind_eq_some_iff.mp h
    obtain ⟨r, -, h⟩ := Option.bind_eq_some_iff.mp h
    cases h
    exact ⟨l, r, rfl⟩
  | left :: second :: third :: args =>
    rw [createPair] at h
    · obtain ⟨l, -, h⟩ := Option.bind_eq_some_iff.mp h
      obtain ⟨r, -, h⟩ := Option.bind_eq_some_iff.mp h
      cases h
      exact ⟨l, r, rfl⟩
    · exact List.cons_ne_nil _ _
    · intro x hx
      cases (List.cons.inj hx).2

theorem BaseType.prim_of_ofPrim {p : String} {t : BaseType} (h : BaseType.ofPrim p = some t) :
    t.prim = p := by
  simpa using List.find?_some h

theorem componentType_ne_base {p : String} {annots : Annots} {ts : List MType} {t : MType}
    (h : componentType p annots ts = some t) (annots' : Annots) (b : BaseType) :
    t ≠ .base annots' b := by
  rintro rfl
  unfold componentType at h
  split at h
  · split_ifs at h <;> cases h
  · split_ifs at h <;> cases h
  · cases h

/-- The name of the type that a token was made of. -/
theorem createToken_prim {p : String} {args : Option (List Expr)} {annots : Annots} {t : MType}
    (h : createToken others (.prim p args annots) = some t) :
    (∃ b, b.prim = p ∧ t = .base annots b) ∨ (∃ methods, t = .other annots methods) ∨
      p ∈ ["pair", "or", "option", "list", "set", "map", "big_map", "contract"] ∧
        ∀ annots b, t ≠ .base annots b := by
  have hleaf : ∀ args', ((BaseType.ofPrim p).map (.base annots)).or
      ((others p args').map (.other annots)) = some t →
      (∃ b, b.prim = p ∧ t = .base annots b) ∨ ∃ methods, t = .other annots methods := by
    intro args' h
    cases hb : BaseType.ofPrim p with
    | some b =>
      rw [hb] at h
      cases h
      exact Or.inl ⟨b, BaseType.prim_of_ofPrim hb, rfl⟩
    | none =>
      rw [hb] at h
      obtain ⟨methods, -, rfl⟩ := Option.map_eq_some_iff.mp h
      exact Or.inr ⟨methods, rfl⟩
  match args with
  | none =>
    rw [createToken] at h
    exact (hleaf none h).imp_right Or.inl
  | some args =>
    rw [createToken] at h
    by_cases hpair : p = "pair"
    · rw [if_pos hpair] at h
      obtain ⟨left, right, rfl⟩ := createPair_kind h
      exact Or.inr (Or.inr ⟨hpair ▸ List.mem_cons_self, fun _ _ => MType.noConfusion⟩)
    · rw [if_neg hpair] at h
      by_cases hmem : p ∈ ["or", "option", "list", "set", "map", "big_map", "contract"]
      · rw [if_pos hmem] at h
        obtain ⟨ts, -, ht⟩ := Option.bind_eq_some_iff.mp h
        exact Or.inr (Or.inr ⟨List.mem_cons_of_mem _ hmem, componentType_ne_base ht⟩)
      · rw [if_neg hmem] at h
        exact (hleaf (some args) h).imp_right Or.inl

/-- The token of a type without components. -/
theorem createToken_base {type : Expr} {annots : Annots} {b : BaseType}
    (h : createToken others type = some (.base annots b)) :
    ∃ args annots', type = .prim b.prim args annots' := by
  match type with
  | .seq items =>
    rw [createToken] at h
    obtain ⟨left, right, heq⟩ := createPair_kind h
    cases heq
  | .prim p args annots' =>
    rcases createToken_prim h with ⟨b', hb', heq⟩ | ⟨methods, heq⟩ | ⟨-, hne⟩
    · cases heq
      exact ⟨args, annots, by rw [hb']⟩
    · cases heq
    · exact absurd rfl (hne annots b)
  | .int _ => cases h
  | .string _ => cases h
  | .bytes _ => cases h

/-- A literal is packed alike at a type with components and at this type without annotations. -/
theorem packEncoded_typeWithoutAnnotations {host : Host} {type : Expr} {t : MType}
    (h : createToken others type = some t) (hbase : ∀ annots b, t ≠ .base annots b)
    (hother : ∀ annots methods, t ≠ .other annots methods) (e : Encoded) :
    packEncoded host e (typeWithoutAnnotations type) = packEncoded host e type := by
  match type with
  | .seq items =>
    rw [typeWithoutAnnotations, Expr.plain_prim, packEncoded, packEncoded,
      literalOf_of_ne (by decide)]
    have hseq : e.literalOf host (.seq items) = e.literal host := by
      cases e <;> rfl
    rw [hseq]
    congr 1
    funext d
    have hplain := packData_plain host.codec d (.prim "pair" (some items) none)
    rw [Expr.plain_prim] at hplain
    rw [hplain, packData_seq]
  | .prim p args annots =>
    have hp : p ≠ "timestamp" := by
      rintro rfl
      rcases createToken_prim h with ⟨b, -, heq⟩ | ⟨methods, heq⟩ | ⟨hmem, -⟩
      · exact hbase annots b heq
      · exact hother annots methods heq
      · exact absurd hmem (by decide)
    have hplain := fun d => packData_plain host.codec d (.prim p args annots)
    rw [Expr.plain_prim] at hplain
    rw [typeWithoutAnnotations, Expr.plain_prim, packEncoded, packEncoded, literalOf_of_ne hp,
      literalOf_of_ne hp]
    congr 1
    funext d
    exact hplain d
    exact fun _ => Expr.noConfusion
  | .int _ => cases h
  | .string _ => cases h
  | .bytes _ => cases h

/-- **The key that is looked up is the one that was stored** exactly where the two literals agree.
-/
theorem packedBigMapKey_eq_iff {host : Host} (hlib : host.lib.Lawful) (hb58 : host.b58.Alphanumeric)
    {type : Expr} {t : MType} (ht : createToken others type = some t)
    (hcomparable : (t.token host 0).comparable = true) {k : Val} {e : Encoded}
    (he : (t.token host 0).EncodeObject k = .ok e) :
    packedBigMapKey others host type k = packEncoded host e type ↔ t.KeyAgrees host k := by
  have hcomponents : (∀ annots b, t ≠ .base annots b) → (∀ annots methods, t ≠ .other annots methods) →
      toBigMapKey others host type k = .ok (e, typeWithoutAnnotations type) →
      packedBigMapKey others host type k = packEncoded host e type := by
    intro hbase hother hkey
    rw [packedBigMapKey, hkey]
    exact packEncoded_typeWithoutAnnotations ht hbase hother e
  cases t with
  | base annots b =>
    obtain ⟨args, annots', rfl⟩ := createToken_base ht
    rw [packedBigMapKey, toBigMapKey, ht, packEncoded_plainType]
    exact BaseType.packed_iff hlib hb58 hcomparable he
  | pair annots left right | or annots left right | option annots component =>
    refine iff_of_true (hcomponents (fun _ _ => MType.noConfusion) (fun _ _ => MType.noConfusion) ?_)
      trivial
    rw [toBigMapKey, ht]
    show Except.map _ _ = _
    rw [he]
    rfl
  | list | set | map | bigMap | contract | other => cases hcomparable

/-- At a concrete key: a negative integer in a text. -/
theorem packedBigMapKey_negative :
    packedBigMapKey (fun _ _ => none) .decimal (plainType "int") (.string (js "-5"))
        = packEncoded .decimal (.int (js "-5")) (plainType "int")
      ↔ (MType.base none .int).KeyAgrees .decimal (.string (js "-5")) :=
  packedBigMapKey_eq_iff BigNumberLib.lawful_decimal Base58Check.alphanumeric_hex rfl rfl rfl

/-- Octets written with `0x` are accepted by `EncodeObject`, and `ToBigMapKey` makes a literal of
them that cannot be packed. -/
theorem packedBigMapKey_hexPrefix :
    createToken (fun _ _ => none) (plainType "bytes") = some (.base none .bytes) ∧
      ((MType.base none .bytes).token .decimal 0).EncodeObject (.string (js "0x00"))
        = .ok (.bytes (.string (js "00"))) ∧
      packedBigMapKey (fun _ _ => none) .decimal (plainType "bytes") (.string (js "0x00")) = none ∧
      packEncoded .decimal (.bytes (.string (js "00"))) (plainType "bytes")
        = some [5, 10, 0, 0, 0, 1, 0] := by
  exact ⟨rfl, rfl, rfl, rfl⟩

end types

end MichelsonEncoder
