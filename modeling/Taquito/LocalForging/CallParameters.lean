import Taquito.LocalForging.Segments

/-!
# The parameters of a call

`entrypointEncoder` writes one of six reserved names as a tag below 6, and any other name behind the
tag `ff` and one octet of length. It looks the name up with `in`, which also finds what every object
inherits; it limits the UTF-16 units of the name and not its octets; and `parametersEncoder` takes
every `Unit` for `default` as no parameters, whatever the annotations of that node.
`parametersCodec_iff` says that these are the only names and values that are not read back.
-/

open Js BigEndian Micheline Reader

namespace LocalForging

/-! ## Text after octets -/

/-- Hexadecimal text that starts with the text of octets. -/
theorem hexOf_append_iff {used : Bytes} {s : JSString} {bs : Bytes} :
    HexOf (toHex used ++ s) bs ↔ ∃ tail, bs = used ++ tail ∧ HexOf s tail := by
  constructor
  · rintro ⟨hpairs, hbytes⟩
    refine ⟨bufferFromHex s, by rw [← hbytes, bufferFromHex_toHex_append], ?_, rfl⟩
    rw [isHexPairs, Bool.and_eq_true, beq_iff_eq, List.all_eq_true] at hpairs ⊢
    rw [List.length_append, toHex_length] at hpairs
    exact ⟨by omega, fun c hc => hpairs.2 c (List.mem_append_right _ hc)⟩
  · rintro ⟨tail, rfl, htail⟩
    exact (hexOf_toHex used).append htail

/-- A text that is no hexadecimal text cannot be put before another one. -/
theorem not_hexOf_append {s t : JSString} {c : UInt16} (hc : c ∈ s) (hdigit : isHexDigit c = false)
    {bs : Bytes} : ¬HexOf (s ++ t) bs := by
  intro h
  have hpairs := h.1
  rw [isHexPairs, Bool.and_eq_true, List.all_eq_true] at hpairs
  have := hpairs.2 c (List.mem_append_left _ hc)
  rw [hdigit] at this
  cases this

/-! ## Names -/

/-- A reserved name is one octet. -/
theorem entrypointMapping_reads {entry : JSString × JSString} (h : entry ∈ entrypointMapping) :
    ∃ tag, entry.1 = toHex [tag] ∧ Reads entrypointDecoder [tag] entry.2 := by
  simp only [entrypointMapping, List.mem_cons, List.not_mem_nil, or_false] at h
  rcases h with rfl | rfl | rfl | rfl | rfl | rfl
  · exact ⟨0, rfl, fun rest => rfl⟩
  · exact ⟨1, rfl, fun rest => rfl⟩
  · exact ⟨2, rfl, fun rest => rfl⟩
  · exact ⟨3, rfl, fun rest => rfl⟩
  · exact ⟨4, rfl, fun rest => rfl⟩
  · exact ⟨5, rfl, fun rest => rfl⟩

/-- How a name is found: reserved, inherited by every object, or free. -/
inductive EntrypointKind (entrypoint : JSString) : Prop
  | reserved (tag : UInt8) : entrypointMappingReverse entrypoint = some (toHex [tag]) →
      Reads entrypointDecoder [tag] entrypoint → entrypoint ∉ objectPrototype →
      wellFormed entrypoint = true → (utf8Encode entrypoint).length ≤ ENTRYPOINT_MAX_LENGTH →
      EntrypointKind entrypoint
  | inherited : entrypoint ∈ objectPrototype →
      entrypointMappingReverse entrypoint = some (objectPrototypeText entrypoint) →
      EntrypointKind entrypoint
  | free : entrypoint ∉ objectPrototype → entrypointMappingReverse entrypoint = none →
      EntrypointKind entrypoint

theorem entrypointKind (entrypoint : JSString) : EntrypointKind entrypoint := by
  have hreserved : (entrypointMapping.all fun entry =>
      !objectPrototype.contains entry.2 && wellFormed entry.2 &&
        (utf8Encode entry.2).length ≤ ENTRYPOINT_MAX_LENGTH) = true := by decide
  cases hfind : entrypointMapping.find? fun entry => entry.2 = entrypoint with
  | some entry =>
    have hmem := List.mem_of_find?_eq_some hfind
    obtain rfl : entry.2 = entrypoint := by simpa using List.find?_some hfind
    obtain ⟨tag, htag, hread⟩ := entrypointMapping_reads hmem
    have hentry := List.all_eq_true.mp hreserved entry hmem
    simp only [Bool.and_eq_true, Bool.not_eq_true', List.contains_eq_mem,
      decide_eq_false_iff_not, decide_eq_true_eq] at hentry
    refine .reserved tag ?_ hread hentry.1.1 hentry.1.2 hentry.2
    rw [entrypointMappingReverse, hfind, ← htag]
  | none =>
    by_cases hmem : entrypoint ∈ objectPrototype
    · refine .inherited hmem ?_
      rw [entrypointMappingReverse, hfind]
      exact if_pos (List.contains_iff_mem.mpr hmem)
    · refine .free hmem ?_
      rw [entrypointMappingReverse, hfind]
      exact if_neg fun h => hmem (List.contains_iff_mem.mp h)

/-- The text that is written for an inherited name is no hexadecimal text. -/
theorem objectPrototypeText_spec {entrypoint : JSString} (h : entrypoint ∈ objectPrototype) :
    (∃ c ∈ objectPrototypeText entrypoint, isHexDigit c = false) ∧
      (utf8Encode entrypoint).length ≤ ENTRYPOINT_MAX_LENGTH := by
  have hall : (objectPrototype.all fun e => (objectPrototypeText e).any (fun c => !isHexDigit c) &&
      (utf8Encode e).length ≤ ENTRYPOINT_MAX_LENGTH) = true := by decide
  have hentry := List.all_eq_true.mp hall entrypoint h
  rw [Bool.and_eq_true, List.any_eq_true, decide_eq_true_eq] at hentry
  obtain ⟨⟨c, hc, hdigit⟩, hlength⟩ := hentry
  exact ⟨⟨c, hc, by simpa using hdigit⟩, hlength⟩

/-- The octets of a free name. -/
def freeName (entrypoint : JSString) : Bytes :=
  0xff :: UInt8.ofNat (utf8Encode entrypoint).length :: utf8Encode entrypoint

variable {big : BigNumberLib}

theorem entrypointEncoder_free {entrypoint : JSString}
    (hlookup : entrypointMappingReverse entrypoint = none)
    (hlength : entrypoint.length ≤ ENTRYPOINT_MAX_LENGTH) :
    entrypointEncoder big entrypoint = .ok (toHex (freeName entrypoint)) := by
  have hutf8 := (utf8Encode_length entrypoint).2
  rw [ENTRYPOINT_MAX_LENGTH] at hlength
  have hpad : pad (toHex (utf8Encode entrypoint)).length 8 =
      .ok (toHex (beBytes 4 (utf8Encode entrypoint).length)) := by
    rw [toHex_length]
    exact pad_two_mul (k := 4) (by omega) (by omega)
  -- only the last octet of the length is kept
  have hbytes : beBytes 4 (utf8Encode entrypoint).length =
      [0, 0, 0, UInt8.ofNat (utf8Encode entrypoint).length] := by
    simp only [beBytes, fixedDigits, List.nil_append, List.cons_append, List.map_cons, List.map_nil]
    rw [Nat.div_eq_of_lt (show (utf8Encode entrypoint).length < 256 by omega),
      Nat.mod_eq_of_lt (show (utf8Encode entrypoint).length < 256 by omega)]
    rfl
  unfold entrypointEncoder
  rw [hlookup]
  dsimp only
  rw [if_neg (by rw [ENTRYPOINT_MAX_LENGTH]; omega), valueEncoder, stringEncoder, hpad, hbytes]
  rfl

theorem entrypointEncoder_oversized {entrypoint : JSString}
    (hlookup : entrypointMappingReverse entrypoint = none)
    (hlength : ENTRYPOINT_MAX_LENGTH < entrypoint.length) :
    entrypointEncoder big entrypoint = .error (.oversizedEntryPoint entrypoint) := by
  unfold entrypointEncoder
  rw [hlookup]
  exact if_pos hlength

/-- The name that is read where a free name is written. -/
def freeNameRead (entrypoint : JSString) : Except ForgeError JSString :=
  let read := utf8Decode (utf8Encode entrypoint)
  if read.length > ENTRYPOINT_MAX_LENGTH then .error (.oversizedEntryPoint read) else .ok read

theorem entrypointDecoder_free {entrypoint : JSString}
    (hlength : (utf8Encode entrypoint).length < 256) :
    Computes entrypointDecoder (freeName entrypoint) (freeNameRead entrypoint) := by
  unfold freeName freeNameRead
  generalize utf8Encode entrypoint = u at hlength ⊢
  have htag : Reads consumeByte [0xff] 0xff := consumeByte_reads 0xff
  have hlen : Reads (consume 1) [UInt8.ofNat u.length] [UInt8.ofNat u.length] := take_reads rfl
  have hvalue : ((parseInt 16 (toHex [UInt8.ofNat u.length])).getD 0).toNat = u.length := by
    rw [parseInt_toHex (List.cons_ne_nil _ _)]
    show beValue [UInt8.ofNat u.length] = u.length
    have hbyte : beBytes 1 u.length = [UInt8.ofNat u.length] := by
      rw [beBytes, fixedDigits, fixedDigits, Nat.mod_eq_of_lt hlength]
      rfl
    rw [← hbyte, beValue_beBytes (by simpa using hlength)]
  have hentry : Reads (extractRequiredLen 1) (UInt8.ofNat u.length :: u) u := by
    refine hlen.bind (v := u) ?_
    rw [hvalue]
    exact take_reads rfl
  have hpad : pad (2 * (0xff : UInt8).toNat) 2 = .ok (js "ff") := rfl
  refine htag.bind_computes (v := UInt8.ofNat u.length :: u) ?_
  refine (lift_reads hpad).bind_computes (v := UInt8.ofNat u.length :: u) ?_
  have hrest := hentry.bind_computes (v := [])
    (f := fun entry => (if (utf8Decode entry).length > ENTRYPOINT_MAX_LENGTH then
      Reader.fail (.oversizedEntryPoint (utf8Decode entry))
      else pure (utf8Decode entry) : Decoder JSString))
    (y := if (utf8Decode u).length > ENTRYPOINT_MAX_LENGTH then
      .error (.oversizedEntryPoint (utf8Decode u)) else .ok (utf8Decode u)) ?_
  · rw [List.append_nil] at hrest
    exact hrest
  · by_cases hlong : (utf8Decode u).length > ENTRYPOINT_MAX_LENGTH
    · rw [if_pos hlong, if_pos hlong]
      exact Computes.fail _
    · rw [if_neg hlong, if_neg hlong]
      exact (Reads.pure _).computes

/-- A free name is read back where it has an encoding. -/
theorem entrypointDecoder_free_reads_iff {entrypoint : JSString}
    (hlength : (utf8Encode entrypoint).length ≤ ENTRYPOINT_MAX_LENGTH) :
    Reads entrypointDecoder (freeName entrypoint) entrypoint ↔ wellFormed entrypoint = true := by
  rw [ENTRYPOINT_MAX_LENGTH] at hlength
  have hread := @entrypointDecoder_free entrypoint (by omega)
  constructor
  · intro h
    have hok := (hread []).symm.trans (h [])
    unfold freeNameRead at hok
    dsimp only at hok
    split at hok
    · cases hok
    · rw [← (Prod.mk.inj (Except.ok.inj hok)).1]
      exact wellFormed_utf8Decode _
  · intro hwell
    have hunits := (utf8Encode_length entrypoint).1
    unfold freeNameRead at hread
    rw [utf8Decode_utf8Encode hwell] at hread
    dsimp only at hread
    rw [if_neg (by rw [ENTRYPOINT_MAX_LENGTH]; omega)] at hread
    exact fun rest => hread rest

/-! ## Parameters -/

/-- `default` with the value `Unit` and nothing below or beside it, which is what no parameters
stand for. -/
def Parameters.isPlainDefault (val : Parameters) : Bool :=
  val.entrypoint = js "default" && match val.value with
    | .prim p none none => p == "Unit"
    | _ => false

/-- What is to be read where these parameters are written. -/
def Parameters.decoded (val : Parameters) : Option Parameters :=
  if val.isPlainDefault then none else some val

/-- The codec on parameters: those with a name of at most 31 octets are read back, whatever follows,
and those with a longer name are refused. -/
structure ParametersCodec (big : BigNumberLib) (val : Parameters) : Prop where
  inverted : (utf8Encode val.entrypoint).length ≤ 31 → ∃ hex bytes,
    parametersEncoder big (some val) = .ok hex ∧ HexOf hex bytes ∧
      Reads parametersDecoder bytes val.decoded
  refused : 31 < (utf8Encode val.entrypoint).length → ∃ e,
    parametersEncoder big (some val) = .error e

section value

variable {val : Parameters} {vhex : JSString} {vbytes : Bytes}

theorem parametersEncoder_of_code {code : JSString} (hunit : val.isDefaultUnit = false)
    (hcode : entrypointEncoder big val.entrypoint = .ok code)
    (hencode : valueEncoder big val.value = .ok vhex) :
    parametersEncoder big (some val) =
      .ok (js "ff" ++ code ++ padStart 8 (digitChar 0) (halvesText vhex.length) ++ vhex) := by
  rw [parametersEncoder, if_neg (by rw [hunit]; exact Bool.false_ne_true), hcode, hencode]
  rfl

/-- Parameters whose name is written as octets and read back. -/
theorem parametersCodec_reads {name : Bytes} (hunit : val.isDefaultUnit = false)
    (hcode : entrypointEncoder big val.entrypoint = .ok (toHex name))
    (hencode : valueEncoder big val.value = .ok vhex) (hof : HexOf vhex vbytes)
    (hdecode : valueDecode vbytes = .ok (val.value, [])) (hlt : vbytes.length < 2 ^ 32)
    (hname : Reads entrypointDecoder name val.entrypoint) :
    ∃ hex bytes, parametersEncoder big (some val) = .ok hex ∧ HexOf hex bytes ∧
      Reads parametersDecoder bytes (some val) := by
  have hlength : padStart 8 (digitChar 0) (halvesText vhex.length) =
      toHex (beBytes 4 vbytes.length) := by
    rw [hof.length, halvesText_two_mul]
    exact padStart_hexText (k := 4) (by omega) (by simpa using hlt)
  refine ⟨_, [0xff] ++ (name ++ lengthPrefixed vbytes), parametersEncoder_of_code hunit hcode hencode,
    ?_, ?_⟩
  · rw [hlength, List.append_assoc, List.append_assoc, show js "ff" = toHex [0xff] from rfl]
    exact (hexOf_toHex _).append ((hexOf_toHex _).append ((hexOf_toHex _).append hof))
  · have hvalue : segmentValue vbytes = .ok val.value := by
      rw [segmentValue, hdecode]
      rfl
    refine (consumeByte_reads 0xff).bind ?_
    refine hname.bind ?_
    refine (extractRequiredLen_reads hlt).bind_pure ?_
    exact (lift_reads hvalue).bind_pure (Reads.pure _)

/-- Parameters that are read back: so is the name, and the octets of the value can be counted. -/
theorem of_parametersCodec_reads {name : Bytes} {x : Except ForgeError JSString} {hex : JSString}
    {bytes : Bytes} (hunit : val.isDefaultUnit = false)
    (hcode : entrypointEncoder big val.entrypoint = .ok (toHex name))
    (hencode : valueEncoder big val.value = .ok vhex) (hof : HexOf vhex vbytes)
    (hname : Computes entrypointDecoder name x)
    (hhex : parametersEncoder big (some val) = .ok hex) (hbytes : HexOf hex bytes)
    (hread : Reads parametersDecoder bytes (some val)) :
    x = .ok val.entrypoint ∧ vbytes.length < 2 ^ 32 := by
  obtain rfl := Except.ok.inj (hhex.symm.trans (parametersEncoder_of_code hunit hcode hencode))
  rw [List.append_assoc, show js "ff" = toHex [0xff] from rfl, ← toHex_append] at hbytes
  obtain ⟨tail, rfl, htail⟩ := hexOf_append_iff.mp hbytes
  have hrun := hread.run
  have hpreamble : consumeByte ([0xff] ++ name ++ tail) = .ok (0xff, name ++ tail) := rfl
  unfold parametersDecoder at hrun
  rw [bind_of_ok hpreamble, if_neg (by decide)] at hrun
  obtain ⟨read, mid, hentry, hrun⟩ := bind_eq_ok.mp hrun
  obtain ⟨params, mid', hparams, hrun⟩ := bind_eq_ok.mp hrun
  obtain ⟨value, mid'', hvalue, hrun⟩ := bind_eq_ok.mp hrun
  obtain ⟨hresult, rfl⟩ := Prod.mk.inj (Except.ok.inj hrun)
  rw [hname tail] at hentry
  obtain ⟨e, rfl, he⟩ := Except.map_eq_ok.mp hentry
  obtain ⟨rfl, rfl⟩ := Prod.mk.inj he
  obtain rfl : mid' = [] := by
    obtain ⟨v, -, hv⟩ := Except.map_eq_ok.mp hvalue
    exact (Prod.mk.inj hv).2
  refine ⟨congrArg Except.ok (congrArg Parameters.entrypoint (Option.some.inj hresult)), ?_⟩
  -- the four octets before the value count all that is left
  obtain ⟨len, body, hlen, hbody⟩ := bind_eq_ok.mp hparams
  obtain ⟨rfl, hlen4⟩ := take_eq_ok hlen
  obtain ⟨rfl, hbody4⟩ := take_eq_ok hbody
  have hlt := beValue_lt len
  rw [prefixValue hlen4] at hbody4
  rw [hlen4] at hlt
  have hlength := htail.length
  rw [List.append_nil, List.length_append, List.length_append, hof.length, halvesText_two_mul,
    padStart, List.length_append, List.length_replicate, hlen4, hbody4] at hlength
  by_contra hge
  have hwide := (numberText_hex_length_le (k := 4) (n := vbytes.length) (by omega)).not.mpr
    (by omega)
  omega

/-- Parameters with a short name that are written and read back. -/
theorem spec_of_inverted {hex : JSString} {bytes : Bytes} (hunit : val.isDefaultUnit = false)
    (hencode : valueEncoder big val.value = .ok vhex) (hof : HexOf vhex vbytes)
    (hshort : (utf8Encode val.entrypoint).length ≤ ENTRYPOINT_MAX_LENGTH)
    (hhex : parametersEncoder big (some val) = .ok hex) (hbytes : HexOf hex bytes)
    (hread : Reads parametersDecoder bytes (some val)) :
    val.entrypoint ∉ objectPrototype ∧ wellFormed val.entrypoint = true ∧
      vbytes.length < 2 ^ 32 := by
  rcases entrypointKind val.entrypoint with ⟨tag, hcode, hname, hnot, hwell, -⟩ | ⟨hmem, hcode⟩ |
    ⟨hnot, hlookup⟩
  · have hcode' : entrypointEncoder big val.entrypoint = .ok (toHex [tag]) := by
      rw [entrypointEncoder, hcode]
    have hspec := of_parametersCodec_reads hunit hcode' hencode hof hname.computes hhex hbytes hread
    exact ⟨hnot, hwell, hspec.2⟩
  · -- the text of a function is no hexadecimal text
    obtain ⟨c, hc, hdigit⟩ := (objectPrototypeText_spec hmem).1
    have hcode' : entrypointEncoder big val.entrypoint =
        .ok (objectPrototypeText val.entrypoint) := by
      rw [entrypointEncoder, hcode]
    obtain rfl := Except.ok.inj (hhex.symm.trans (parametersEncoder_of_code hunit hcode' hencode))
    rw [List.append_assoc] at hbytes
    exact absurd hbytes (not_hexOf_append (List.mem_append_right _ hc) hdigit)
  · have hunits := (utf8Encode_length val.entrypoint).1
    have hcode := @entrypointEncoder_free big val.entrypoint hlookup (by omega)
    rw [ENTRYPOINT_MAX_LENGTH] at hshort
    have hname := @entrypointDecoder_free val.entrypoint (by omega)
    obtain ⟨hok, hlt⟩ := of_parametersCodec_reads hunit hcode hencode hof hname hhex hbytes hread
    rw [hok] at hname
    exact ⟨hnot, (entrypointDecoder_free_reads_iff hshort).mp fun rest => hname rest, hlt⟩

end value

/-- A name that is refused is too long, in units. -/
theorem entrypointEncoder_eq_error {entrypoint : JSString} {e : ForgeError}
    (h : entrypointEncoder big entrypoint = .error e) :
    ENTRYPOINT_MAX_LENGTH < entrypoint.length := by
  by_contra hle
  rcases entrypointKind entrypoint with ⟨tag, hcode, -, -, -, -⟩ | ⟨-, hcode⟩ | ⟨-, hlookup⟩
  · rw [entrypointEncoder, hcode] at h
    cases h
  · rw [entrypointEncoder, hcode] at h
    cases h
  · rw [entrypointEncoder_free hlookup (Nat.not_lt.mp hle)] at h
    cases h

theorem Parameters.isDefaultUnit_of_plain {val : Parameters} (h : val.isPlainDefault = true) :
    val.isDefaultUnit = true ∧ val.value = .prim "Unit" none none := by
  obtain ⟨entrypoint, value⟩ := val
  rw [isPlainDefault, Bool.and_eq_true] at h
  obtain ⟨hname, hvalue⟩ := h
  dsimp only at hvalue
  split at hvalue
  · obtain rfl := beq_iff_eq.mp hvalue
    rw [isDefaultUnit, Bool.and_eq_true]
    exact ⟨⟨hname, rfl⟩, rfl⟩
  · cases hvalue

/-- **The codec of parameters**, with a value that its own codec reads back as all that it wrote:
a name of at most 31 octets is read back exactly where no object inherits a property of that name,
its surrogates are paired, a `Unit` for `default` has no arguments and annotations, and the octets
of the value can be counted; a longer name is refused exactly where its units are too many, too. -/
theorem parametersCodec_iff {val : Parameters} {vhex : JSString} {vbytes : Bytes}
    (hencode : valueEncoder big val.value = .ok vhex) (hof : HexOf vhex vbytes)
    (hdecode : valueDecode vbytes = .ok (val.value, [])) :
    ParametersCodec big val ↔
      ((utf8Encode val.entrypoint).length ≤ 31 →
        val.entrypoint ∉ objectPrototype ∧ wellFormed val.entrypoint = true ∧
          (val.isDefaultUnit = true → val.isPlainDefault = true) ∧ vbytes.length < 2 ^ 32) ∧
      (31 < (utf8Encode val.entrypoint).length → 31 < val.entrypoint.length) := by
  have hspec := @entrypointKind val.entrypoint
  by_cases hunit : val.isDefaultUnit = true
  · -- written as no parameters at all
    have hname : val.entrypoint = js "default" := by
      rw [Parameters.isDefaultUnit, Bool.and_eq_true] at hunit
      exact of_decide_eq_true hunit.1
    have hshort : (utf8Encode val.entrypoint).length ≤ 31 := by
      rw [hname]
      decide
    have hhex : parametersEncoder big (some val) = .ok (js "00") := if_pos hunit
    have hread : Reads parametersDecoder [0] none := fun rest => rfl
    constructor
    · intro h
      obtain ⟨hex, bytes, hhex', hbytes, hread'⟩ := h.inverted hshort
      obtain rfl := Except.ok.inj (hhex.symm.trans hhex')
      obtain rfl : [0] = bytes := hbytes.2
      have hplain : val.isPlainDefault = true := by
        by_contra hplain
        have hdecoded := (hread.unique hread' (s := []) (t := []) rfl).1
        rw [Parameters.decoded, if_neg hplain] at hdecoded
        cases hdecoded
      have hlt : vbytes.length < 2 ^ 32 := by
        rw [(Parameters.isDefaultUnit_of_plain hplain).2] at hencode
        obtain rfl : js "030b" = vhex := Except.ok.inj hencode
        have hlength : 4 = 2 * vbytes.length := hof.length
        omega
      refine ⟨fun _ => ⟨?_, ?_, fun _ => hplain, hlt⟩, fun hlong => absurd hshort (by omega)⟩
      · rw [hname]
        decide
      · rw [hname]
        decide
    · intro h
      have hplain := (h.1 hshort).2.2.1 hunit
      refine ⟨fun _ => ⟨js "00", [0], hhex, hexOf_toHex [0], ?_⟩, fun hlong => absurd hshort (by omega)⟩
      rw [Parameters.decoded, if_pos hplain]
      exact hread
  · have hdecoded : val.decoded = some val :=
      if_neg fun hplain => hunit (Parameters.isDefaultUnit_of_plain hplain).1
    rw [Bool.not_eq_true] at hunit
    constructor
    · intro h
      refine ⟨fun hshort => ?_, fun hlong => ?_⟩
      · obtain ⟨hex, bytes, hhex, hbytes, hread⟩ := h.inverted hshort
        rw [hdecoded] at hread
        obtain ⟨hnot, hwell, hlt⟩ := spec_of_inverted hunit hencode hof hshort hhex hbytes hread
        refine ⟨hnot, hwell, fun h => ?_, hlt⟩
        rw [hunit] at h
        cases h
      · obtain ⟨e, he⟩ := h.refused hlong
        rw [parametersEncoder, if_neg (by rw [hunit]; exact Bool.false_ne_true), hencode] at he
        rcases Except.bind_eq_error.mp he with he | ⟨code, -, he⟩
        · exact entrypointEncoder_eq_error he
        · cases he
    · rintro ⟨hshort', hlong'⟩
      refine ⟨fun hshort => ?_, fun hlong => ?_⟩
      · obtain ⟨hnot, hwell, -, hlt⟩ := hshort' hshort
        rw [hdecoded]
        rcases hspec with ⟨tag, hcode, hread, -, -, -⟩ | ⟨hmem, -⟩ | ⟨-, hlookup⟩
        · refine @parametersCodec_reads _ _ _ _ [tag] hunit ?_ hencode hof hdecode hlt hread
          rw [entrypointEncoder, hcode]
        · exact absurd hmem hnot
        · have hunits := (utf8Encode_length val.entrypoint).1
          exact parametersCodec_reads hunit
            (entrypointEncoder_free hlookup (by rw [ENTRYPOINT_MAX_LENGTH]; omega)) hencode hof
            hdecode hlt ((entrypointDecoder_free_reads_iff hshort).mpr hwell)
      · rcases hspec with ⟨tag, -, -, -, -, hle⟩ | ⟨hmem, -⟩ | ⟨-, hlookup⟩
        · exact absurd hle (Nat.not_le.mpr hlong)
        · exact absurd (objectPrototypeText_spec hmem).2 (Nat.not_le.mpr hlong)
        · refine ⟨.oversizedEntryPoint val.entrypoint, ?_⟩
          rw [parametersEncoder, if_neg (by rw [hunit]; exact Bool.false_ne_true),
            entrypointEncoder_oversized hlookup (hlong' hlong)]
          rfl

theorem parametersCodec_iff_string : ParametersCodec .decimal ⟨js "mint", .string (js "hi")⟩ :=
  have hof : HexOf (js "01000000026869") [1, 0, 0, 0, 2, 0x68, 0x69] := ⟨by decide, rfl⟩
  (parametersCodec_iff rfl hof rfl).mpr
    ⟨fun _ => ⟨by decide, by decide, fun h => h, by decide⟩, fun h => absurd h (by decide)⟩

/-- An entrypoint by the name of a property that every object inherits is not written as octets. -/
theorem not_parametersCodec :
    (valueEncoder .decimal (.prim "Unit" none none) = .ok (js "030b") ∧
      HexOf (js "030b") [3, 0x0b] ∧ valueDecode [3, 0x0b] = .ok (.prim "Unit" none none, [])) ∧
      ¬ParametersCodec .decimal ⟨js "toString", .prim "Unit" none none⟩ := by
  refine ⟨⟨rfl, ⟨by decide, rfl⟩, rfl⟩, fun h => ?_⟩
  obtain ⟨hex, bytes, hhex, hbytes, -⟩ := h.inverted (by decide)
  have hcode : entrypointEncoder .decimal (js "toString") =
      .ok (objectPrototypeText (js "toString")) := rfl
  obtain rfl := Except.ok.inj (hhex.symm.trans (parametersEncoder_of_code rfl hcode rfl))
  have hmem : (0x75 : UInt16) ∈ objectPrototypeText (js "toString") := by decide
  rw [List.append_assoc] at hbytes
  exact not_hexOf_append (List.mem_append_right _ hmem) (by decide) hbytes

end LocalForging
