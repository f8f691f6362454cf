import Taquito.Host.Bs58check
import Taquito.LocalForging.Batches
import Taquito.MichelCodec.HexParsing
import Taquito.Utils.Letters

/-!
# Forging and parsing groups of operations

`parse` undoes `forge` on a group of canonical operations with proposals at the end at most
(`parse_forge`). Two groups on one branch, whatever their fields, that are forged and parsed are
forged and parsed together, unless the first ends with proposals (`parse_forge_append`).

The forger puts its text in lower case and `parse` does so again, so both go through the octets that
the text stands for (`parse_toLowerCase`).
-/

open Js BigEndian Reader

namespace LocalForging

open OperationKind Utils

variable {lib : Libraries}

/-! ## Text in lower case -/

/-- A function that puts hexadecimal text in lower case, and makes no hexadecimal text of another
one. -/
structure LowerCases (toLowerCase : JSString → JSString) : Prop where
  digits : ∀ {s : JSString}, (∀ c ∈ s, isHexDigit c = true) →
    toLowerCase s = MichelCodec.toLowerCase s
  reflects : ∀ {s : JSString}, (∀ c ∈ toLowerCase s, isHexDigit c = true) →
    ∀ c ∈ s, isHexDigit c = true

theorem toLowerCase_of_hexOf : ∀ {s : JSString} {bs : Bytes}, HexOf s bs →
    MichelCodec.toLowerCase s = toHex bs
  | [], bs, h => by
    obtain rfl : bs = [] := h.2.symm
    rfl
  | [_], bs, h => by
    have := h.1
    simp [isHexPairs] at this
  | c :: d :: s, bs, h => by
    obtain ⟨hpairs, rfl⟩ := h
    have hall := hpairs
    rw [isHexPairs, Bool.and_eq_true, beq_iff_eq, List.all_cons, List.all_cons, Bool.and_eq_true,
      Bool.and_eq_true] at hall
    obtain ⟨hlength, hc, hd, hs⟩ := hall
    obtain ⟨x, hx⟩ := Option.isSome_iff_exists.mp hc
    obtain ⟨y, hy⟩ := Option.isSome_iff_exists.mp hd
    obtain ⟨hx16, hxc⟩ := MichelCodec.digitChar_of_radixValue hx
    obtain ⟨hy16, hyd⟩ := MichelCodec.digitChar_of_radixValue hy
    have htail : HexOf s (bufferFromHex s) := by
      refine ⟨?_, rfl⟩
      rw [isHexPairs, Bool.and_eq_true, beq_iff_eq]
      rw [List.length_cons, List.length_cons] at hlength
      exact ⟨by omega, hs⟩
    have hbyte : (UInt8.ofNat (16 * x + y)).toNat = 16 * x + y := by
      simp
      omega
    have hhigh : (16 * x + y) / 16 = x := by omega
    have hlow : (16 * x + y) % 16 = y := by omega
    rw [bufferFromHex, hx, hy, toHex_cons, hexByte, hbyte, hhigh, hlow, hxc, hyd,
      ← toLowerCase_of_hexOf htail]
    rfl

theorem parse_toLowerCase (hlower : LowerCases lib.toLowerCase) {s : JSString} {p : ForgeParams} :
    parse lib (lib.toLowerCase s) = .ok p ↔
      ∃ bytes, HexOf s bytes ∧ managerDecoder lib bytes = .ok p := by
  have hagain : ∀ {t : JSString} {bs : Bytes}, HexOf t bs → lib.toLowerCase t = toHex bs := by
    intro t bs ht
    have hdigits := ht.1
    rw [isHexPairs, Bool.and_eq_true, List.all_eq_true] at hdigits
    rw [hlower.digits hdigits.2, toLowerCase_of_hexOf ht]
  constructor
  · intro h
    unfold parse at h
    dsimp only at h
    split at h
    · next hlow =>
      rw [Bool.and_eq_true, beq_iff_eq, List.all_eq_true] at hlow
      have hdigits : ∀ c ∈ s, isHexDigit c = true :=
        hlower.reflects (hlower.reflects fun c hc => isHexDigit_of_isLowerHexDigit (hlow.2 c hc))
      have hlength : (lib.toLowerCase (lib.toLowerCase s)).length = s.length := by
        rw [hlower.digits (hlower.reflects fun c hc => isHexDigit_of_isLowerHexDigit (hlow.2 c hc)),
          hlower.digits hdigits, MichelCodec.toLowerCase, MichelCodec.toLowerCase, List.length_map,
          List.length_map]
      have hof : HexOf s (bufferFromHex s) := by
        refine ⟨?_, rfl⟩
        rw [isHexPairs, Bool.and_eq_true, beq_iff_eq, List.all_eq_true]
        exact ⟨hlength ▸ hlow.1, hdigits⟩
      rw [hagain hof, hagain (hexOf_toHex _), bufferFromHex_toHex] at h
      exact ⟨_, hof, h⟩
    · cases h
  · rintro ⟨bytes, hof, h⟩
    have heven : ((toHex bytes).length % 2 == 0 && (toHex bytes).all isLowerHexDigit) = true := by
      rw [Bool.and_eq_true, beq_iff_eq, List.all_eq_true, toHex_length]
      exact ⟨by omega, fun c hc => isLowerHexDigit_of_mem_toHex hc⟩
    unfold parse
    dsimp only
    rw [hagain hof, hagain (hexOf_toHex _), if_pos heven, bufferFromHex_toHex]
    exact h

/-! ## The parts of what is forged -/

/-- What is written for a group: its branch and its operations. -/
structure Forged (lib : Libraries) (params : ForgeParams) (head body hex : JSString) : Prop where
  valid : validateBlock lib.b58 params.branch = .VALID
  checked : ∃ units, params.contents.mapM checkContents = .ok units
  branch : prefixEncoder lib.b58 .B params.branch = .ok head
  contents : contentsEncoder lib params.contents = .ok body
  lower : hex = lib.toLowerCase (head ++ body)

theorem forge_eq_ok_iff {params : ForgeParams} {hex : JSString} :
    forge lib params = .ok hex ↔ ∃ head body, Forged lib params head body hex := by
  constructor
  · intro h
    unfold forge at h
    split at h
    · cases h
    · next hvalid =>
      obtain ⟨units, hunits, h⟩ := Except.bind_eq_ok.mp h
      obtain ⟨forged, hforged, h⟩ := Except.bind_eq_ok.mp h
      obtain ⟨head, hbranch, hforged⟩ := Except.bind_eq_ok.mp hforged
      obtain ⟨body, hcontents, hforged⟩ := Except.bind_eq_ok.mp hforged
      cases h
      cases hforged
      exact ⟨head, body, not_not.mp hvalid, ⟨units, hunits⟩, hbranch, hcontents, rfl⟩
  · rintro ⟨head, body, h⟩
    obtain ⟨units, hunits⟩ := h.checked
    rw [forge, if_neg (not_not.mpr h.valid), hunits, Except.ok_bind, managerEncoder, h.branch,
      Except.ok_bind, h.contents, h.lower]
    rfl

/-- The octets of a branch are those that its decoder takes. -/
theorem branch_reads (halpha : lib.b58.Alphanumeric) {branch head : JSString}
    (hvalid : validateBlock lib.b58 branch = .VALID)
    (hencode : prefixEncoder lib.b58 .B branch = .ok head) : ∃ bytes branch', head = toHex bytes ∧
      Reads (prefixDecoder lib.b58 .B) bytes branch' := by
  unfold prefixEncoder at hencode
  cases hdecode : lib.b58.decode branch with
  | none =>
    rw [hdecode] at hencode
    cases hencode
  | some bs =>
    rw [hdecode] at hencode
    cases hencode
    obtain ⟨p, hp, bs', hvalidAs⟩ := (validatePrefixedValue_eq_valid (by decide)).mp hvalid
    obtain rfl := List.mem_singleton.mp hp
    have hwhole : Utils.withoutEntrypoint branch = branch := by
      apply List.takeWhile_eq_self_iff.mpr
      intro c hc
      have hsome := halpha hdecode c hc
      apply decide_eq_true
      rintro rfl
      exact absurd hsome (by decide)
    have hdecoded := hvalidAs.decoded
    rw [hwhole, hdecode] at hdecoded
    obtain rfl := Option.some.inj hdecoded
    have hlength : (bs.drop Prefix.B.bytes.length).length = Prefix.B.payload := by
      rw [List.length_drop, hvalidAs.length, Nat.add_sub_cancel_left]
    exact ⟨_, _, rfl, Identifier.prefixDecoder_reads hlength⟩

theorem contentsEncoder_append {xs ys : List OperationContents} {t : JSString} :
    contentsEncoder lib (xs ++ ys) = .ok t ↔ ∃ u v, contentsEncoder lib xs = .ok u ∧
      contentsEncoder lib ys = .ok v ∧ t = u ++ v := by
  simp only [contentsEncoder, List.mapM_append]
  constructor
  · intro h
    obtain ⟨texts, htexts, h⟩ := Except.bind_eq_ok.mp h
    obtain ⟨us, hus, htexts⟩ := Except.bind_eq_ok.mp htexts
    obtain ⟨vs, hvs, htexts⟩ := Except.bind_eq_ok.mp htexts
    cases htexts
    cases h
    refine ⟨us.flatten, vs.flatten, ?_, ?_, List.flatten_append⟩
    · rw [hus]
      rfl
    · rw [hvs]
      rfl
  · rintro ⟨u, v, hu, hv, rfl⟩
    obtain ⟨us, hus, hu⟩ := Except.bind_eq_ok.mp hu
    obtain ⟨vs, hvs, hv⟩ := Except.bind_eq_ok.mp hv
    cases hu
    cases hv
    rw [hus, hvs]
    exact congrArg Except.ok List.flatten_append

/-- **Groups are parsed as they are laid end to end**: two groups on one branch that are forged and
parsed are forged and parsed together, unless the first ends with proposals and the second has an
operation. -/
theorem parse_forge_append (halpha : lib.b58.Alphanumeric) (hlower : LowerCases lib.toLowerCase)
    {branch : JSString} {xs ys : List OperationContents} {hx hy : JSString} {px py : ForgeParams}
    (hforgex : forge lib ⟨branch, xs⟩ = .ok hx) (hforgey : forge lib ⟨branch, ys⟩ = .ok hy)
    (hparsex : parse lib hx = .ok px) (hparsey : parse lib hy = .ok py) :
    (∃ hex, forge lib ⟨branch, xs ++ ys⟩ = .ok hex ∧
        parse lib hex = .ok ⟨px.branch, px.contents ++ py.contents⟩) ↔
      py.contents = [] ∨ ∀ op ∈ px.contents, op.isProposals = false := by
  obtain ⟨head, u, hu⟩ := forge_eq_ok_iff.mp hforgex
  obtain ⟨head', v, hv⟩ := forge_eq_ok_iff.mp hforgey
  obtain rfl := Except.ok.inj (hu.branch.symm.trans hv.branch)
  obtain ⟨b, branch', rfl, hb⟩ := branch_reads halpha hu.valid hu.branch
  have hread : ∀ bytes, managerDecoder lib (b ++ bytes) =
      (readAll (operationDecoder lib) .outOfFuel bytes.length bytes).map (⟨branch', ·⟩) := by
    intro bytes
    rw [managerDecoder, hb, Except.ok_bind]
    dsimp only
    cases readAll (operationDecoder lib) .outOfFuel bytes.length bytes <;> rfl
  rw [hu.lower, parse_toLowerCase hlower] at hparsex
  rw [hv.lower, parse_toLowerCase hlower] at hparsey
  obtain ⟨bytes, hof, hparsex⟩ := hparsex
  obtain ⟨bytes', hof', hparsey⟩ := hparsey
  obtain ⟨us, rfl, hus⟩ := hexOf_append_iff.mp hof
  obtain ⟨vs, rfl, hvs⟩ := hexOf_append_iff.mp hof'
  rw [hread] at hparsex hparsey
  obtain ⟨as, has, rfl⟩ := Except.map_eq_ok.mp hparsex
  obtain ⟨bs, hbs, rfl⟩ := Except.map_eq_ok.mp hparsey
  rw [← readAll_append_iff has hbs]
  have hboth : contentsEncoder lib (xs ++ ys) = .ok (u ++ v) :=
    contentsEncoder_append.mpr ⟨u, v, hu.contents, hv.contents, rfl⟩
  have hbothOf : HexOf (toHex b ++ (u ++ v)) (b ++ (us ++ vs)) :=
    hexOf_append_iff.mpr ⟨us ++ vs, rfl, hus.append hvs⟩
  constructor
  · rintro ⟨hex, hforge, hparse⟩
    obtain ⟨head'', t, ht⟩ := forge_eq_ok_iff.mp hforge
    obtain rfl := Except.ok.inj (ht.branch.symm.trans hu.branch)
    obtain rfl := Except.ok.inj (ht.contents.symm.trans hboth)
    rw [ht.lower, parse_toLowerCase hlower] at hparse
    obtain ⟨bytes, hof, hparse⟩ := hparse
    obtain rfl : bytes = b ++ (us ++ vs) := hof.2.symm.trans hbothOf.2
    rw [hread] at hparse
    obtain ⟨cs, hcs, heq⟩ := Except.map_eq_ok.mp hparse
    obtain ⟨-, rfl⟩ := ForgeParams.mk.inj heq
    exact hcs
  · intro hcs
    refine ⟨_, forge_eq_ok_iff.mpr ⟨toHex b, u ++ v, hu.valid, ?_, hu.branch, hboth, rfl⟩, ?_⟩
    · obtain ⟨cx, hcx⟩ := hu.checked
      obtain ⟨cy, hcy⟩ := hv.checked
      refine ⟨cx ++ cy, ?_⟩
      rw [List.mapM_append, hcx, hcy]
      rfl
    · refine (parse_toLowerCase hlower).mpr ⟨_, hbothOf, ?_⟩
      rw [hread, hcs]
      rfl

/-! ## Canonical groups -/

/-- Every field is canonical. -/
def FieldsCanonical (lib : Libraries) : (schema : Schema) → Fields schema → Prop
  | [], _ => True
  | field :: schema, (value, values) =>
    field.2.Canonical lib value ∧ FieldsCanonical lib schema values

/-- What is to be read where the fields are written. -/
def decodedFields : (schema : Schema) → Fields schema → Fields schema
  | [], values => values
  | field :: schema, (value, values) => (field.2.decoded value, decodedFields schema values)

namespace OperationContents

/-- An operation of a known kind with canonical fields. -/
def Canonical (lib : Libraries) : OperationContents → Prop
  | .known kind fields => FieldsCanonical lib kind.schema fields
  | .other _ => False

/-- What is to be read where the operation is written. -/
def decoded : OperationContents → OperationContents
  | .known kind fields => .known kind (decodedFields kind.schema fields)
  | .other kind => .other kind

end OperationContents

theorem schemaEncoder_cons {field : String × CODEC} {schema : Schema} {value : Option field.2.Value}
    {values : Fields schema} {hex hexs : JSString} (h : field.2.encoder lib value = .ok hex)
    (hs : schemaEncoder lib schema values = .ok hexs) :
    schemaEncoder lib (field :: schema) (value, values) = .ok (hex ++ hexs) := by
  rw [schemaEncoder, h, Except.ok_bind, hs]
  rfl

theorem schemaDecoder_cons {field : String × CODEC} {schema : Schema} {value : Option field.2.Value}
    {values : Fields schema} {bs mid rest : Bytes}
    (h : field.2.decoder lib bs = .ok (value, mid))
    (hs : schemaDecoder lib schema mid = .ok (values, rest)) :
    schemaDecoder lib (field :: schema) bs = .ok ((value, values), rest) := by
  rw [schemaDecoder, bind_of_ok h, bind_of_ok hs]
  rfl

theorem schema_reads (hlib : lib.Lawful) {schema : Schema}
    (hschema : ∀ field ∈ schema, field.2 ≠ .PROPOSAL_ARR) {fields : Fields schema}
    (h : FieldsCanonical lib schema fields) : ∃ hex bytes,
      schemaEncoder lib schema fields = .ok hex ∧ HexOf hex bytes ∧
        Reads (schemaDecoder lib schema) bytes (decodedFields schema fields) := by
  induction schema with
  | nil => exact ⟨[], [], rfl, hexOf_toHex [], Reads.pure ()⟩
  | cons field schema ih =>
    obtain ⟨value, values⟩ := fields
    obtain ⟨hex, bytes, hencode, hof, hread⟩ :=
      CODEC.inverted hlib (hschema field List.mem_cons_self) h.1
    obtain ⟨hexs, bytess, hencodes, hofs, hreads⟩ :=
      ih (fun f hf => hschema f (List.mem_cons_of_mem _ hf)) h.2
    refine ⟨hex ++ hexs, bytes ++ bytess, schemaEncoder_cons hencode hencodes, hof.append hofs, ?_⟩
    exact hread.bind (hreads.bind_pure (Reads.pure _))

/-- The fields that may be missing. -/
def mayBeMissing : CODEC → Bool
  | .DELEGATE | .PARAMETERS | .BURN_LIMIT | .DEPOSITS_LIMIT => true
  | _ => false

theorem optional_eq (kind : OperationKind) :
    (kind.schema.filter fun field => mayBeMissing field.2).map Prod.fst = kind.optional.toList := by
  cases kind <;> rfl

theorem missing_sublist {schema : Schema} {fields : Fields schema}
    (h : FieldsCanonical lib schema fields) : (validateMissingProperty schema fields).Sublist
      ((schema.filter fun field => mayBeMissing field.2).map Prod.fst) := by
  induction schema with
  | nil => exact List.Sublist.refl []
  | cons field schema ih =>
    obtain ⟨value, values⟩ := fields
    have htail := ih h.2
    rw [validateMissingProperty, List.filter_cons]
    cases value with
    | some value =>
      have hsome : ¬ (some value : Option field.2.Value).isNone = true := Bool.false_ne_true
      rw [if_neg hsome]
      split
      · exact htail.trans (List.sublist_cons_self _ _)
      · exact htail
    | none =>
      have hmay : mayBeMissing field.2 = true := by
        obtain ⟨name, c⟩ := field
        have hnone := h.1
        cases c <;> first | rfl | exact False.elim hnone
      rw [if_pos hmay]
      exact htail.cons_cons _

/-- Nothing that has to be there is missing. -/
theorem checkContents_of_canonical {op : OperationContents} (h : op.Canonical lib) :
    checkContents op = .ok () := by
  cases op with
  | other kind => exact False.elim h
  | known kind fields =>
    have hsub := missing_sublist h
    rw [optional_eq] at hsub
    rw [checkContents]
    cases hoptional : kind.optional with
    | none =>
      rw [hoptional] at hsub
      rw [List.sublist_nil.mp hsub]
    | some field =>
      rw [hoptional] at hsub
      rcases List.sublist_singleton.mp hsub with hnil | hone
      · rw [hnil]
      · rw [hone]
        exact if_pos rfl

theorem operation_reads (hlib : lib.Lawful) {op : OperationContents} (h : op.Canonical lib)
    (hprop : op.isProposals = false) : ∃ hex bytes, operationEncoder lib op = .ok hex ∧
      HexOf hex bytes ∧ bytes ≠ [] ∧ Reads (operationDecoder lib) bytes op.decoded := by
  cases op with
  | other kind => exact False.elim h
  | known kind fields =>
    have hkind : kind ≠ .proposals := by
      rintro rfl
      cases hprop
    obtain ⟨hex, bytes, hencode, hof, hread⟩ := schema_reads hlib (schema_of_ne hkind) h
    refine ⟨toHex [kind.tag] ++ hex, [kind.tag] ++ bytes, ?_, (hexOf_toHex _).append hof,
      List.cons_ne_nil _ _, ?_⟩
    · rw [operationEncoder, kindMappingReverse_eq, Except.ok_bind, hencode]
      rfl
    · refine (consumeByte_reads kind.tag).bind ?_
      rw [kindMapping_lookup]
      exact hread.bind_pure (Reads.pure _)

/-- Proposals are read back where nothing follows. -/
theorem operation_read_proposals (hlib : lib.Lawful) {op : OperationContents} (h : op.Canonical lib)
    (hprop : op.isProposals = true) : ∃ hex bytes, operationEncoder lib op = .ok hex ∧
      HexOf hex bytes ∧ bytes ≠ [] ∧ operationDecoder lib bytes = .ok (op.decoded, []) := by
  cases op with
  | other kind => exact False.elim h
  | known kind fields =>
    obtain rfl : kind = .proposals := by
      cases kind <;> first | rfl | cases hprop
    obtain ⟨source, period, list, nothing⟩ := fields
    obtain ⟨hsource, hperiod, hlist, -⟩ := h
    obtain ⟨hex, bytes, hencode, hof, hread⟩ :=
      CODEC.inverted hlib (c := .identifier .PKH) (by decide) hsource
    obtain ⟨hex₁, bytes₁, hencode₁, hof₁, hread₁⟩ :=
      CODEC.inverted hlib (c := .INT32) (by decide) hperiod
    cases list with
    | none => exact False.elim hlist
    | some list =>
      obtain ⟨hex₂, bytes₂, hencode₂, hof₂, hread₂⟩ := proposals_read hlib.b58 hlist
      have hencode₂' : CODEC.PROPOSAL_ARR.encoder lib (some list) = .ok hex₂ := hencode₂
      have hread₂' : CODEC.PROPOSAL_ARR.decoder lib bytes₂ = .ok (some list, []) := by
        have hmap : (proposalsDecoder lib.b58 >>= fun l => pure (some l)) bytes₂ =
            .ok (some list, []) := by
          rw [bind_of_ok hread₂]
          rfl
        exact hmap
      have hschema : schemaEncoder lib ProposalsSchema (source, period, some list, nothing) =
          .ok (hex ++ (hex₁ ++ (hex₂ ++ []))) :=
        schemaEncoder_cons hencode (schemaEncoder_cons hencode₁ (schemaEncoder_cons hencode₂' rfl))
      refine ⟨toHex [OperationKind.proposals.tag] ++ (hex ++ (hex₁ ++ (hex₂ ++ []))),
        [OperationKind.proposals.tag] ++ (bytes ++ (bytes₁ ++ bytes₂)), ?_, ?_,
        List.cons_ne_nil _ _, ?_⟩
      · have htag := kindMappingReverse_eq .proposals
        show (do
          let tag ← OperationKind.proposals.kindMappingReverse
          let fields ← schemaEncoder lib ProposalsSchema (source, period, some list, nothing)
          return tag ++ fields) = _
        rw [htag, Except.ok_bind, hschema]
        rfl
      · rw [List.append_nil]
        exact (hexOf_toHex _).append (hof.append (hof₁.append hof₂))
      · have hfields : schemaDecoder lib ProposalsSchema (bytes ++ (bytes₁ ++ bytes₂)) =
            .ok ((CODEC.decoded _ source, CODEC.decoded _ period, some list, nothing), []) :=
          schemaDecoder_cons (hread _) (schemaDecoder_cons (hread₁ _)
            (schemaDecoder_cons hread₂' rfl))
        rw [operationDecoder, bind_of_ok (consumeByte_reads _ _), kindMapping_lookup]
        exact (bind_of_ok hfields).trans rfl

/-- Proposals are at the end at most. -/
def ProposalsLast (contents : List OperationContents) : Prop :=
  ∀ op ∈ contents.dropLast, op.isProposals = false

/-- The octets of canonical operations are read back as these operations. -/
theorem contents_read (hlib : lib.Lawful) {contents : List OperationContents}
    (h : ∀ op ∈ contents, op.Canonical lib) (hlast : ProposalsLast contents) : ∃ hex bytes,
      contentsEncoder lib contents = .ok hex ∧ HexOf hex bytes ∧
        readAll (operationDecoder lib) .outOfFuel bytes.length bytes =
          .ok (contents.map OperationContents.decoded) := by
  induction contents with
  | nil => exact ⟨[], [], rfl, hexOf_toHex [], rfl⟩
  | cons op contents ih =>
    have hop := h op List.mem_cons_self
    have hcontents := fun o ho => h o (List.mem_cons_of_mem op ho)
    have hone : ∀ {hex : JSString}, operationEncoder lib op = .ok hex →
        contentsEncoder lib [op] = .ok hex := by
      intro hex hencode
      rw [contentsEncoder, List.mapM_cons, hencode]
      show Except.ok [hex].flatten = Except.ok hex
      rw [List.flatten_cons, List.flatten_nil, List.append_nil]
    cases hprop : op.isProposals with
    | false =>
      have hlast' : ProposalsLast contents := by
        intro o ho
        refine hlast o ?_
        rw [List.dropLast_cons_of_ne_nil]
        · exact List.mem_cons_of_mem _ ho
        · rintro rfl
          cases ho
      obtain ⟨hex, bytes, hencode, hof, hne, hread⟩ := operation_reads hlib hop hprop
      obtain ⟨hexs, bytess, hencodes, hofs, hreads⟩ := ih hcontents hlast'
      refine ⟨hex ++ hexs, bytes ++ bytess, ?_, hof.append hofs, ?_⟩
      · have hboth : contentsEncoder lib ([op] ++ contents) = .ok (hex ++ hexs) :=
          contentsEncoder_append.mpr ⟨hex, hexs, hone hencode, hencodes, rfl⟩
        exact hboth
      · have hmany : ReadsMany (operationDecoder lib) bytes [op.decoded] := by
          have := ReadsMany.cons hne hread .nil
          rwa [List.append_nil] at this
        have happend := readAll_append ForgeError.outOfFuel hmany bytess bytess.length
        rw [hreads] at happend
        refine readAll_mono happend ?_
        have hpos := List.length_pos_of_ne_nil hne
        rw [List.length_append, List.length_singleton]
        omega
    | true =>
      obtain rfl : contents = [] := by
        by_contra hne
        have hmem : op ∈ (op :: contents).dropLast := by
          rw [List.dropLast_cons_of_ne_nil hne]
          exact List.mem_cons_self
        rw [hlast op hmem] at hprop
        cases hprop
      obtain ⟨hex, bytes, hencode, hof, hne, hread⟩ := operation_read_proposals hlib hop hprop
      refine ⟨hex, bytes, hone hencode, hof, ?_⟩
      obtain ⟨b, bytes, rfl⟩ := List.exists_cons_of_ne_nil hne
      rw [List.length_cons, readAll, hread]
      cases bytes.length <;> rfl

theorem checked_of_canonical {contents : List OperationContents}
    (h : ∀ op ∈ contents, op.Canonical lib) :
    ∃ units, contents.mapM checkContents = .ok units := by
  induction contents with
  | nil => exact ⟨[], rfl⟩
  | cons op contents ih =>
    obtain ⟨units, hunits⟩ := ih fun o ho => h o (List.mem_cons_of_mem _ ho)
    refine ⟨() :: units, ?_⟩
    rw [List.mapM_cons, checkContents_of_canonical (h op List.mem_cons_self), hunits]
    rfl

/-- What is parsed of a group with a known branch. -/
theorem parse_of_contents (hlower : LowerCases lib.toLowerCase) {branch : JSString} {b : Bytes}
    (hb : Reads (prefixDecoder lib.b58 .B) b branch) {body : JSString} {us : Bytes}
    (hof : HexOf body us) {ops : List OperationContents}
    (hread : readAll (operationDecoder lib) .outOfFuel us.length us = .ok ops) :
    parse lib (lib.toLowerCase (toHex b ++ body)) = .ok ⟨branch, ops⟩ := by
  refine (parse_toLowerCase hlower).mpr ⟨b ++ us, (hexOf_toHex b).append hof, ?_⟩
  rw [managerDecoder, hb, Except.ok_bind]
  dsimp only
  rw [hread]
  rfl

/-- What is written for a canonical group, and read back from its octets. -/
theorem forged_of_canonical (hlib : lib.Lawful) {branch : JSString}
    {contents : List OperationContents} (hvalid : validateBlock lib.b58 branch = .VALID)
    (hbranch : Identifier.BRANCH.Canonical lib.b58 branch)
    (hcontents : ∀ op ∈ contents, op.Canonical lib) (hlast : ProposalsLast contents) :
    ∃ b body us, Forged lib ⟨branch, contents⟩ (toHex b) body (lib.toLowerCase (toHex b ++ body)) ∧
      Reads (prefixDecoder lib.b58 .B) b branch ∧ HexOf body us ∧
        readAll (operationDecoder lib) .outOfFuel us.length us =
          .ok (contents.map OperationContents.decoded) := by
  obtain ⟨p, payload, hchosen, -, hlength, hdecode⟩ := hbranch
  obtain rfl : Prefix.B = p := Option.some.inj hchosen
  obtain ⟨body, us, hbody, hof, hread⟩ := contents_read hlib hcontents hlast
  have hhead : prefixEncoder lib.b58 .B branch = .ok (toHex payload) := by
    rw [prefixEncoder, hdecode]
    exact congrArg (fun bs => Except.ok (toHex bs)) List.drop_left
  have hreads : Reads (prefixDecoder lib.b58 .B) payload branch :=
    hlib.b58.encode_decode hdecode ▸ Identifier.prefixDecoder_reads hlength
  exact ⟨payload, body, us, ⟨hvalid, checked_of_canonical hcontents, hhead, hbody, rfl⟩, hreads,
    hof, hread⟩

/-- **A canonical group is read back as it is**: every operation with its own fields, in the same
order, and nothing for the parameters that nothing stands for. -/
theorem parse_forge (hlib : lib.Lawful) (hlower : LowerCases lib.toLowerCase) {branch : JSString}
    {contents : List OperationContents} (hvalid : validateBlock lib.b58 branch = .VALID)
    (hbranch : Identifier.BRANCH.Canonical lib.b58 branch)
    (hcontents : ∀ op ∈ contents, op.Canonical lib) (hlast : ProposalsLast contents) :
    ∃ hex, forge lib ⟨branch, contents⟩ = .ok hex ∧
      parse lib hex = .ok ⟨branch, contents.map OperationContents.decoded⟩ := by
  obtain ⟨b, body, us, hforged, hreads, hof, hread⟩ :=
    forged_of_canonical hlib hvalid hbranch hcontents hlast
  exact ⟨_, forge_eq_ok_iff.mpr ⟨_, _, hforged⟩, parse_of_contents hlower hreads hof hread⟩

theorem lowerCases_toLowerCase : LowerCases MichelCodec.toLowerCase where
  digits _ := rfl
  reflects := by
    intro s h c hc
    have hlower := h _ (List.mem_map_of_mem hc)
    split at hlower
    · next hupper =>
      have hall : ∀ k : Fin 26, isHexDigit (UInt16.ofNat (65 + k) + 32) = true →
          isHexDigit (UInt16.ofNat (65 + k)) = true := by decide
      have hk := hall ⟨c.toNat - 65, by omega⟩
      have hc' : UInt16.ofNat (65 + (c.toNat - 65)) = c := by
        rw [Nat.add_sub_cancel' hupper.1, UInt16.ofNat_toNat]
      rw [hc'] at hk
      exact hk hlower
    · exact hlower

/-! ## A group of two operations -/

/-- The libraries themselves, `toLowerCase` on ASCII characters. -/
def plainLibraries : Libraries := ⟨Bs58check.bs58check, .decimal, MichelCodec.toLowerCase⟩

theorem lawful_plainLibraries : plainLibraries.Lawful :=
  ⟨Bs58check.lawful_bs58check, BigNumberLib.lawful_decimal⟩

/-- A branch. -/
def plainBranch : JSString := Bs58check.bs58check.encode (Prefix.B.bytes ++ List.replicate 32 7)

theorem plainBranch_valid : validateBlock plainLibraries.b58 plainBranch = .VALID :=
  validatePrefixedValue_encode Bs58check.lawful_bs58check Bs58check.alphanumeric_bs58check
    lettered_bs58check (by decide) (List.mem_singleton.mpr rfl) (by decide) rfl

theorem plainBranch_canonical : Identifier.BRANCH.Canonical plainLibraries.b58 plainBranch :=
  ⟨.B, List.replicate 32 7, rfl, by decide, rfl, Bs58check.lawful_bs58check.decode_encode _⟩

/-- The revelation of a nonce. -/
def revelation (level : ℤ) : OperationContents :=
  .known .seed_nonce_revelation
    (some (.number (.finite level)), some (toHex (List.replicate 32 9)), ())

theorem revelation_canonical {level : ℤ} (hlow : 0 ≤ level) (hhigh : level < 2 ^ 31) :
    (revelation level).Canonical plainLibraries := by
  refine ⟨⟨level, by omega, hhigh, rfl⟩, ⟨by rw [toHex_length, List.length_replicate], ?_⟩, trivial⟩
  exact fun c hc => isLowerHexDigit_of_mem_toHex hc

theorem decoded_revelation (level : ℤ) : (revelation level).decoded = revelation level := rfl

theorem parse_forge_revelations : ∃ hex,
    forge plainLibraries ⟨plainBranch, [revelation 5, revelation 6]⟩ = .ok hex ∧
      parse plainLibraries hex = .ok ⟨plainBranch, [revelation 5, revelation 6]⟩ := by
  have hcontents : ∀ op ∈ [revelation 5, revelation 6], op.Canonical plainLibraries := by
    intro op hop
    simp only [List.mem_cons, List.not_mem_nil, or_false] at hop
    rcases hop with rfl | rfl
    · exact revelation_canonical (by omega) (by omega)
    · exact revelation_canonical (by omega) (by omega)
  have hlast : ProposalsLast [revelation 5, revelation 6] := by
    intro op hop
    obtain rfl := List.mem_singleton.mp hop
    rfl
  have h := parse_forge lawful_plainLibraries lowerCases_toLowerCase plainBranch_valid
    plainBranch_canonical hcontents hlast
  simpa only [List.map_cons, List.map_nil, decoded_revelation] using h

theorem parse_forge_append_revelations : ∃ hex,
    forge plainLibraries ⟨plainBranch, [revelation 5] ++ [revelation 6]⟩ = .ok hex ∧
      parse plainLibraries hex = .ok ⟨plainBranch, [revelation 5] ++ [revelation 6]⟩ := by
  have hone : ∀ level : ℤ, 0 ≤ level → level < 2 ^ 31 → ∃ hex,
      forge plainLibraries ⟨plainBranch, [revelation level]⟩ = .ok hex ∧
        parse plainLibraries hex = .ok ⟨plainBranch, [revelation level]⟩ := by
    intro level hlow hhigh
    have hcontents : ∀ op ∈ [revelation level], op.Canonical plainLibraries := by
      intro op hop
      obtain rfl := List.mem_singleton.mp hop
      exact revelation_canonical hlow hhigh
    have hlast : ProposalsLast [revelation level] := by
      intro op hop
      cases hop
    obtain ⟨b, body, us, hforged, hreads, hof, hread⟩ := forged_of_canonical lawful_plainLibraries
      plainBranch_valid plainBranch_canonical hcontents hlast
    exact ⟨_, forge_eq_ok_iff.mpr ⟨_, _, hforged⟩,
      parse_of_contents lowerCases_toLowerCase hreads hof hread⟩
  obtain ⟨hx, hforgex, hparsex⟩ := hone 5 (by omega) (by omega)
  obtain ⟨hy, hforgey, hparsey⟩ := hone 6 (by omega) (by omega)
  have halpha : plainLibraries.b58.Alphanumeric := Bs58check.alphanumeric_bs58check
  have hplain : ∀ op ∈ [revelation 5], op.isProposals = false := by
    intro op hop
    obtain rfl := List.mem_singleton.mp hop
    rfl
  have h := (parse_forge_append halpha lowerCases_toLowerCase hforgex hforgey hparsex hparsey).mpr
    (.inr hplain)
  dsimp only at h
  exact h

end LocalForging
