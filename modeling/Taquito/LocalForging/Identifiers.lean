import Taquito.Host.Bs58check
import Taquito.LocalForging.Utils
import Taquito.Utils.Validators

/-!
# Base58 identifiers

The codecs of the forger for branches, keys, hashes and addresses. An encoder chooses a prefix by
the first letters of the text, or without looking at it, decodes the text and cuts off as many
octets as the prefix has, without comparing them; a decoder reads a tag and a fixed number of
octets and puts the prefix in front of them. So what a codec encodes is what its decoder reads back
if and only if the octets of the text are the chosen prefix and as many octets as it asks for
(`identifier_faithful_iff`).
-/

open Js Reader

namespace LocalForging

open Utils (Prefix)
open Bs58check (bs58check lawful_bs58check)

variable (b58 : Base58Check)

/-! ## Codecs of a prefix -/

/-- `prefixEncoder`. -/
def prefixEncoder (p : Prefix) (str : JSString) : Except ForgeError JSString :=
  match b58.decode str with
  | none => .error (.invalidBase58 str)
  | some bs => .ok (toHex (bs.drop p.bytes.length))

/-- `prefixDecoder`. -/
def prefixDecoder (pre : Prefix) : Decoder JSString := do
  let val ← consume pre.payload
  return b58.encode (pre.bytes ++ val)

/-- `val.toString()` of a consumer. -/
def consumerText : JSString := js "[object Object]"

/-! ## Encoders -/

/-- `pkhEncoder`. -/
def pkhEncoder (val : JSString) : Except ForgeError JSString :=
  let pubkeyPrefix := val.take 3
  if pubkeyPrefix = Prefix.TZ1.text then do return js "00" ++ (← prefixEncoder b58 .TZ1 val)
  else if pubkeyPrefix = Prefix.TZ2.text then do return js "01" ++ (← prefixEncoder b58 .TZ2 val)
  else if pubkeyPrefix = Prefix.TZ3.text then do return js "02" ++ (← prefixEncoder b58 .TZ3 val)
  else if pubkeyPrefix = Prefix.TZ4.text then do return js "03" ++ (← prefixEncoder b58 .TZ4 val)
  else .error (.invalidKeyHash val)

/-- `publicKeyEncoder`. -/
def publicKeyEncoder (val : JSString) : Except ForgeError JSString :=
  let pubkeyPrefix := val.take 4
  if pubkeyPrefix = Prefix.EDPK.text then do return js "00" ++ (← prefixEncoder b58 .EDPK val)
  else if pubkeyPrefix = Prefix.SPPK.text then do return js "01" ++ (← prefixEncoder b58 .SPPK val)
  else if pubkeyPrefix = Prefix.P2PK.text then do return js "02" ++ (← prefixEncoder b58 .P2PK val)
  else .error (.invalidPublicKey val)

/-- `addressEncoder`. -/
def addressEncoder (val : JSString) : Except ForgeError JSString :=
  let pubkeyPrefix := val.take 3
  if pubkeyPrefix = Prefix.TZ1.text ∨ pubkeyPrefix = Prefix.TZ2.text ∨
      pubkeyPrefix = Prefix.TZ3.text ∨ pubkeyPrefix = Prefix.TZ4.text then do
    return js "00" ++ (← pkhEncoder b58 val)
  else if pubkeyPrefix = Prefix.KT1.text then do
    return js "01" ++ (← prefixEncoder b58 .KT1 val) ++ js "00"
  else .error (.invalidAddress val)

/-- `smartRollupAddressEncoder`. -/
def smartRollupAddressEncoder (val : JSString) : Except ForgeError JSString :=
  if val.take 3 ≠ Prefix.SR1.text then .error (.invalidSmartRollupAddress val)
  else prefixEncoder b58 .SR1 val

/-- `smartContractAddressEncoder`. -/
def smartContractAddressEncoder (val : JSString) : Except ForgeError JSString :=
  if val.take 3 = Prefix.KT1.text then do
    return js "01" ++ (← prefixEncoder b58 .KT1 val) ++ js "00"
  else .error (.invalidContractAddress val)

/-- `smartRollupContractAddressEncoder`. -/
def smartRollupContractAddressEncoder (val : JSString) : Except ForgeError JSString :=
  if val.take 4 = Prefix.SRC1.text then prefixEncoder b58 .SRC1 val
  else .error (.invalidSmartRollupContractAddress val)

/-! ## Decoders -/

/-- `pkhDecoder`. -/
def pkhDecoder : Decoder JSString := do
  let tag ← consumeByte
  if tag = 0x00 then prefixDecoder b58 .TZ1
  else if tag = 0x01 then prefixDecoder b58 .TZ2
  else if tag = 0x02 then prefixDecoder b58 .TZ3
  else Reader.fail (.error (js "invalid pkh prefix: " ++ natText tag.toNat))

/-- `publicKeyDecoder`. -/
def publicKeyDecoder : Decoder JSString := do
  let preamble ← consumeByte
  if preamble = 0x00 then prefixDecoder b58 .EDPK
  else if preamble = 0x01 then prefixDecoder b58 .SPPK
  else if preamble = 0x02 then prefixDecoder b58 .P2PK
  else Reader.fail (.invalidPublicKey consumerText)

/-- The address of a contract and the octet after it. -/
def contractDecoder : Decoder JSString := do
  let address ← prefixDecoder b58 .KT1
  let _ ← consume 1
  return address

/-- `addressDecoder`. -/
def addressDecoder : Decoder JSString := do
  let preamble ← consumeByte
  if preamble = 0x00 then pkhDecoder b58
  else if preamble = 0x01 then contractDecoder b58
  else Reader.fail (.invalidAddress consumerText)

/-- `smartRollupAddressDecoder`. -/
def smartRollupAddressDecoder : Decoder JSString := do
  let address ← prefixDecoder b58 .SR1
  if address.take 3 ≠ Prefix.SR1.text then Reader.fail (.invalidAddress address)
  else return address

/-- `smartContractAddressDecoder`. -/
def smartContractAddressDecoder : Decoder JSString := do
  let preamble ← consumeByte
  if preamble = 0x01 then contractDecoder b58
  else Reader.fail (.invalidContractAddress consumerText)

/-- `smartRollupCommitmentHashDecoder`. -/
def smartRollupCommitmentHashDecoder : Decoder JSString := do
  let address ← prefixDecoder b58 .SRC1
  if address.take 4 ≠ Prefix.SRC1.text then
    Reader.fail (.invalidSmartRollupContractAddress address)
  else return address

/-! ## The tables -/

/-- The codecs of identifiers. -/
inductive Identifier where
  | TZ1
  | BRANCH
  | PUBLIC_KEY
  | PKH
  | PROPOSAL
  | ADDRESS
  | SMART_ROLLUP_ADDRESS
  | SMART_CONTRACT_ADDRESS
  | SMART_ROLLUP_COMMITMENT_HASH
  | BLOCK_PAYLOAD_HASH
  | TX_ROLLUP_ID
  deriving DecidableEq, Repr

namespace Identifier

/-- `encoders`, of these codecs. -/
def encoder : Identifier → JSString → Except ForgeError JSString
  | TZ1 => prefixEncoder b58 .TZ1
  | BRANCH => prefixEncoder b58 .B
  | PUBLIC_KEY => publicKeyEncoder b58
  | PKH => pkhEncoder b58
  | PROPOSAL => prefixEncoder b58 .P
  | ADDRESS => addressEncoder b58
  | SMART_ROLLUP_ADDRESS => smartRollupAddressEncoder b58
  | SMART_CONTRACT_ADDRESS => smartContractAddressEncoder b58
  | SMART_ROLLUP_COMMITMENT_HASH => smartRollupContractAddressEncoder b58
  | BLOCK_PAYLOAD_HASH => prefixEncoder b58 .VH
  | TX_ROLLUP_ID => prefixEncoder b58 .TXR1

/-- `decoders`, of these codecs. -/
def decoder : Identifier → Decoder JSString
  | TZ1 => prefixDecoder b58 .TZ1
  | BRANCH => prefixDecoder b58 .B
  | PUBLIC_KEY => publicKeyDecoder b58
  | PKH => pkhDecoder b58
  | PROPOSAL => prefixDecoder b58 .P
  | ADDRESS => addressDecoder b58
  | SMART_ROLLUP_ADDRESS => smartRollupAddressDecoder b58
  | SMART_CONTRACT_ADDRESS => smartContractAddressDecoder b58
  | SMART_ROLLUP_COMMITMENT_HASH => smartRollupCommitmentHashDecoder b58
  | BLOCK_PAYLOAD_HASH => prefixDecoder b58 .VH
  | TX_ROLLUP_ID => prefixDecoder b58 .TXR1

/-! ## The form of what is encoded -/

/-- The prefix that an encoder chooses for a text. -/
def chosen (codec : Identifier) (s : JSString) : Option Prefix :=
  match codec with
  | TZ1 => some .TZ1
  | BRANCH => some .B
  | PUBLIC_KEY => [Prefix.EDPK, .SPPK, .P2PK].find? fun p => s.take 4 = p.text
  | PKH => [Prefix.TZ1, .TZ2, .TZ3, .TZ4].find? fun p => s.take 3 = p.text
  | PROPOSAL => some .P
  | ADDRESS => [Prefix.TZ1, .TZ2, .TZ3, .TZ4, .KT1].find? fun p => s.take 3 = p.text
  | SMART_ROLLUP_ADDRESS => [Prefix.SR1].find? fun p => s.take 3 = p.text
  | SMART_CONTRACT_ADDRESS => [Prefix.KT1].find? fun p => s.take 3 = p.text
  | SMART_ROLLUP_COMMITMENT_HASH => [Prefix.SRC1].find? fun p => s.take 4 = p.text
  | BLOCK_PAYLOAD_HASH => some .VH
  | TX_ROLLUP_ID => some .TXR1

/-- The octet for an implicit account or a key. -/
def tag : Prefix → UInt8
  | .TZ2 | .SPPK => 1
  | .TZ3 | .P2PK => 2
  | .TZ4 => 3
  | _ => 0

/-- The octets in front of the payload. -/
def leading (codec : Identifier) (p : Prefix) : Bytes :=
  match codec with
  | PUBLIC_KEY | PKH => [tag p]
  | ADDRESS => if p = .KT1 then [1] else [0, tag p]
  | SMART_CONTRACT_ADDRESS => [1]
  | _ => []

/-- The octets after the payload. -/
def trailing (codec : Identifier) (p : Prefix) : Bytes :=
  match codec with
  | ADDRESS => if p = .KT1 then [0] else []
  | SMART_CONTRACT_ADDRESS => [0]
  | _ => []

variable {b58} {codec : Identifier} {s : JSString} {p : Prefix}

theorem mem_and_text_of_find {ps : List Prefix} {n : ℕ}
    (h : ps.find? (fun p => s.take n = p.text) = some p) : p ∈ ps ∧ s.take n = p.text :=
  ⟨List.mem_of_find?_eq_some h, by simpa using List.find?_some h⟩

theorem pkhEncoder_of_text (hp : p ∈ [Prefix.TZ1, .TZ2, .TZ3, .TZ4]) (h : s.take 3 = p.text) :
    pkhEncoder b58 s = (do return toHex [tag p] ++ (← prefixEncoder b58 p s)) := by
  simp only [List.mem_cons, List.not_mem_nil, or_false] at hp
  rw [pkhEncoder, h]
  rcases hp with rfl | rfl | rfl | rfl <;> rfl

/-- An encoder writes the octets that are left of the text between those of its kind. -/
theorem encoder_of_chosen (h : codec.chosen s = some p) : codec.encoder b58 s = (do
    return toHex (codec.leading p) ++ (← prefixEncoder b58 p s) ++ toHex (codec.trailing p)) := by
  have hplain : ∀ q, prefixEncoder b58 q s = (do
      return toHex [] ++ (← prefixEncoder b58 q s) ++ toHex [] : Except ForgeError JSString) := by
    intro q
    cases prefixEncoder b58 q s with
    | error e => rfl
    | ok text =>
      show Except.ok text = .ok ([] ++ text ++ [])
      rw [List.nil_append, List.append_nil]
  have hleading : ∀ bs, (do return toHex bs ++ (← prefixEncoder b58 p s) : Except ForgeError JSString)
      = (do return toHex bs ++ (← prefixEncoder b58 p s) ++ toHex []) := by
    intro bs
    cases prefixEncoder b58 p s with
    | error e => rfl
    | ok text =>
      show Except.ok _ = Except.ok _
      rw [show toHex [] = [] from rfl, List.append_nil]
  cases codec with
  | TZ1 | BRANCH | PROPOSAL | BLOCK_PAYLOAD_HASH | TX_ROLLUP_ID =>
    cases h
    exact hplain _
  | PUBLIC_KEY =>
    obtain ⟨hp, htext⟩ := mem_and_text_of_find h
    simp only [List.mem_cons, List.not_mem_nil, or_false] at hp
    refine Eq.trans ?_ (hleading _)
    show publicKeyEncoder b58 s = _
    rw [publicKeyEncoder, htext]
    rcases hp with rfl | rfl | rfl <;> rfl
  | PKH =>
    obtain ⟨hp, htext⟩ := mem_and_text_of_find h
    exact (pkhEncoder_of_text hp htext).trans (hleading _)
  | ADDRESS =>
    obtain ⟨hp, htext⟩ := mem_and_text_of_find h
    show addressEncoder b58 s = _
    by_cases hKT1 : p = .KT1
    · subst hKT1
      rw [addressEncoder, htext]
      rfl
    · have hpkh : p ∈ [Prefix.TZ1, .TZ2, .TZ3, .TZ4] := by
        simp only [List.mem_cons, List.not_mem_nil, or_false] at hp ⊢
        tauto
      have hencoder : addressEncoder b58 s = (do return js "00" ++ (← pkhEncoder b58 s)) := by
        simp only [List.mem_cons, List.not_mem_nil, or_false] at hpkh
        rw [addressEncoder, htext]
        rcases hpkh with rfl | rfl | rfl | rfl <;> rfl
      rw [hencoder, pkhEncoder_of_text hpkh htext, leading, if_neg hKT1, trailing, if_neg hKT1]
      cases prefixEncoder b58 p s with
      | error e => rfl
      | ok text =>
        show Except.ok (js "00" ++ (toHex [tag p] ++ text)) = .ok (toHex (0 :: [tag p]) ++ text ++ [])
        rw [List.append_nil, ← List.append_assoc]
        rfl
  | SMART_ROLLUP_ADDRESS =>
    obtain ⟨hp, htext⟩ := mem_and_text_of_find h
    rw [List.mem_singleton] at hp
    subst hp
    refine Eq.trans ?_ (hplain _)
    exact if_neg (not_not.mpr htext)
  | SMART_CONTRACT_ADDRESS =>
    obtain ⟨hp, htext⟩ := mem_and_text_of_find h
    rw [List.mem_singleton] at hp
    subst hp
    exact if_pos htext
  | SMART_ROLLUP_COMMITMENT_HASH =>
    obtain ⟨hp, htext⟩ := mem_and_text_of_find h
    rw [List.mem_singleton] at hp
    subst hp
    refine Eq.trans ?_ (hplain _)
    exact if_pos htext

/-- An encoder that chooses no prefix refuses the text. -/
theorem encoder_of_none (h : codec.chosen s = none) : ∃ e, codec.encoder b58 s = .error e := by
  cases codec with
  | TZ1 | BRANCH | PROPOSAL | BLOCK_PAYLOAD_HASH | TX_ROLLUP_ID => cases h
  | PUBLIC_KEY =>
    simp only [chosen, List.find?_eq_none, List.forall_mem_cons, List.not_mem_nil, false_implies,
      implies_true, and_true, decide_eq_true_eq] at h
    refine ⟨.invalidPublicKey s, ?_⟩
    show publicKeyEncoder b58 s = _
    rw [publicKeyEncoder, if_neg h.1, if_neg h.2.1, if_neg h.2.2]
  | PKH =>
    simp only [chosen, List.find?_eq_none, List.forall_mem_cons, List.not_mem_nil, false_implies,
      implies_true, and_true, decide_eq_true_eq] at h
    refine ⟨.invalidKeyHash s, ?_⟩
    show pkhEncoder b58 s = _
    rw [pkhEncoder, if_neg h.1, if_neg h.2.1, if_neg h.2.2.1, if_neg h.2.2.2]
  | ADDRESS =>
    simp only [chosen, List.find?_eq_none, List.forall_mem_cons, List.not_mem_nil, false_implies,
      implies_true, and_true, decide_eq_true_eq] at h
    obtain ⟨h1, h2, h3, h4, h5⟩ := h
    refine ⟨.invalidAddress s, ?_⟩
    show addressEncoder b58 s = _
    rw [addressEncoder, if_neg (not_or.mpr ⟨h1, not_or.mpr ⟨h2, not_or.mpr ⟨h3, h4⟩⟩⟩), if_neg h5]
  | SMART_ROLLUP_ADDRESS =>
    simp only [chosen, List.find?_eq_none, List.forall_mem_singleton, decide_eq_true_eq] at h
    exact ⟨_, if_pos h⟩
  | SMART_CONTRACT_ADDRESS =>
    simp only [chosen, List.find?_eq_none, List.forall_mem_singleton, decide_eq_true_eq] at h
    exact ⟨_, if_neg h⟩
  | SMART_ROLLUP_COMMITMENT_HASH =>
    simp only [chosen, List.find?_eq_none, List.forall_mem_singleton, decide_eq_true_eq] at h
    exact ⟨_, if_neg h⟩

/-! ## What the decoders read -/

theorem prefixDecoder_reads {u : Bytes} (h : u.length = p.payload) :
    Reads (prefixDecoder b58 p) u (b58.encode (p.bytes ++ u)) :=
  (take_reads h).bind_pure (Reads.pure _)

theorem prefixDecoder_eq_ok {bs rest : Bytes} (h : prefixDecoder b58 p bs = .ok (s, rest)) :
    ∃ u, bs = u ++ rest ∧ u.length = p.payload ∧ b58.encode (p.bytes ++ u) = s := by
  obtain ⟨u, mid, hu, hs⟩ := bind_eq_ok.mp h
  obtain ⟨rfl, hlen⟩ := take_eq_ok hu
  cases hs
  exact ⟨u, rfl, hlen, rfl⟩

/-- The decoder behind the leading octets. -/
def bodyDecoder (b58 : Base58Check) (codec : Identifier) (p : Prefix) : Decoder JSString :=
  match codec with
  | ADDRESS => if p = .KT1 then contractDecoder b58 else prefixDecoder b58 p
  | SMART_CONTRACT_ADDRESS => contractDecoder b58
  | SMART_ROLLUP_ADDRESS => smartRollupAddressDecoder b58
  | SMART_ROLLUP_COMMITMENT_HASH => smartRollupCommitmentHashDecoder b58
  | _ => prefixDecoder b58 p

/-- A decoder goes by the leading octets. -/
theorem decoder_leading (h : codec.chosen s = some p) (hp : p ≠ .TZ4) (bs : Bytes) :
    codec.decoder b58 (codec.leading p ++ bs) = codec.bodyDecoder b58 p bs := by
  cases codec with
  | TZ1 | BRANCH | PROPOSAL | BLOCK_PAYLOAD_HASH | TX_ROLLUP_ID =>
    cases h
    rfl
  | PUBLIC_KEY =>
    have hmem := (mem_and_text_of_find h).1
    simp only [List.mem_cons, List.not_mem_nil, or_false] at hmem
    rcases hmem with rfl | rfl | rfl <;> rfl
  | PKH =>
    have hmem := (mem_and_text_of_find h).1
    simp only [List.mem_cons, List.not_mem_nil, or_false] at hmem
    rcases hmem with rfl | rfl | rfl | rfl
    · rfl
    · rfl
    · rfl
    · exact absurd rfl hp
  | ADDRESS =>
    have hmem := (mem_and_text_of_find h).1
    simp only [List.mem_cons, List.not_mem_nil, or_false] at hmem
    rcases hmem with rfl | rfl | rfl | rfl | rfl
    · rfl
    · rfl
    · rfl
    · exact absurd rfl hp
    · rfl
  | SMART_ROLLUP_ADDRESS | SMART_CONTRACT_ADDRESS | SMART_ROLLUP_COMMITMENT_HASH => rfl

/-- No decoder knows the fourth kind of implicit account. -/
theorem decoder_leading_TZ4 (h : codec.chosen s = some .TZ4) (bs : Bytes) :
    ∃ e, codec.decoder b58 (codec.leading .TZ4 ++ bs) = .error e := by
  cases codec with
  | PKH | ADDRESS => exact ⟨_, rfl⟩
  | TZ1 | BRANCH | PROPOSAL | BLOCK_PAYLOAD_HASH | TX_ROLLUP_ID => cases h
  | PUBLIC_KEY | SMART_ROLLUP_ADDRESS | SMART_CONTRACT_ADDRESS | SMART_ROLLUP_COMMITMENT_HASH =>
    exact absurd (mem_and_text_of_find h).1 (by decide)

/-- What a decoder reads up to the end of its input. -/
theorem bodyDecoder_eq_ok {u : Bytes} (h : codec.chosen s = some p)
    (hread : codec.bodyDecoder b58 p (u ++ codec.trailing p) = .ok (s, [])) :
    u.length = p.payload ∧ b58.encode (p.bytes ++ u) = s := by
  have hplain : prefixDecoder b58 p (u ++ []) = .ok (s, []) →
      u.length = p.payload ∧ b58.encode (p.bytes ++ u) = s := by
    intro hread
    obtain ⟨v, hv, hlen, hs⟩ := prefixDecoder_eq_ok hread
    rw [List.append_nil, List.append_nil] at hv
    subst hv
    exact ⟨hlen, hs⟩
  have hcontract : p = .KT1 → contractDecoder b58 (u ++ [0]) = .ok (s, []) →
      u.length = p.payload ∧ b58.encode (p.bytes ++ u) = s := by
    rintro rfl hread
    obtain ⟨t, mid, ht, hread⟩ := bind_eq_ok.mp hread
    have hrest : (consume 1 >>= fun _ => pure t) mid = .ok (s, []) := hread
    obtain ⟨last, mid', hlast, hpure⟩ := bind_eq_ok.mp hrest
    obtain ⟨v, hv, hlen, hs⟩ := prefixDecoder_eq_ok ht
    obtain ⟨rfl, hone⟩ := take_eq_ok hlast
    obtain ⟨rfl, rfl⟩ : t = s ∧ mid' = [] := by simpa using hpure
    -- the octet after the address is the only one that is left
    rw [List.append_nil] at hv
    obtain ⟨rfl, -⟩ := List.append_inj' hv (by rw [hone]; rfl)
    exact ⟨hlen, hs⟩
  cases codec with
  | TZ1 | BRANCH | PROPOSAL | BLOCK_PAYLOAD_HASH | TX_ROLLUP_ID | PUBLIC_KEY | PKH =>
    exact hplain hread
  | ADDRESS =>
    by_cases hKT1 : p = .KT1
    · rw [bodyDecoder, if_pos hKT1, trailing, if_pos hKT1] at hread
      exact hcontract hKT1 hread
    · rw [bodyDecoder, if_neg hKT1, trailing, if_neg hKT1] at hread
      exact hplain hread
  | SMART_CONTRACT_ADDRESS =>
    exact hcontract (List.mem_singleton.mp (mem_and_text_of_find h).1) hread
  | SMART_ROLLUP_ADDRESS | SMART_ROLLUP_COMMITMENT_HASH =>
    obtain rfl := List.mem_singleton.mp (mem_and_text_of_find h).1
    obtain ⟨t, mid, ht, hread⟩ := bind_eq_ok.mp hread
    split at hread
    · cases hread
    · cases hread
      exact hplain ht

/-- A text of the chosen prefix is read behind its leading octets. -/
theorem bodyDecoder_reads {u : Bytes} (h : codec.chosen s = some p) (hlen : u.length = p.payload)
    (hs : b58.encode (p.bytes ++ u) = s) :
    Reads (codec.bodyDecoder b58 p) (u ++ codec.trailing p) s := by
  have hplain : Reads (prefixDecoder b58 p) u s := hs ▸ prefixDecoder_reads hlen
  have hplain' : Reads (prefixDecoder b58 p) (u ++ []) s := by
    rw [List.append_nil]
    exact hplain
  have hcontract : p = .KT1 → Reads (contractDecoder b58) (u ++ [0]) s := by
    rintro rfl
    have hlast : Reads (consume 1) [0] [0] := take_reads rfl
    exact hplain.bind (hlast.bind_pure (Reads.pure s))
  cases codec with
  | TZ1 | BRANCH | PROPOSAL | BLOCK_PAYLOAD_HASH | TX_ROLLUP_ID | PUBLIC_KEY | PKH => exact hplain'
  | ADDRESS =>
    by_cases hKT1 : p = .KT1
    · rw [bodyDecoder, if_pos hKT1, trailing, if_pos hKT1]
      exact hcontract hKT1
    · rw [bodyDecoder, if_neg hKT1, trailing, if_neg hKT1]
      exact hplain'
  | SMART_CONTRACT_ADDRESS => exact hcontract (List.mem_singleton.mp (mem_and_text_of_find h).1)
  | SMART_ROLLUP_ADDRESS | SMART_ROLLUP_COMMITMENT_HASH =>
    obtain ⟨hmem, htext⟩ := mem_and_text_of_find h
    obtain rfl := List.mem_singleton.mp hmem
    refine hplain'.bind_pure ?_
    rw [if_neg (not_not.mpr htext)]
    exact Reads.pure s

/-! ## Faithful encoding -/

/-- What a codec encodes has the length that its decoder consumes, and is decoded to the text. -/
def Faithful (b58 : Base58Check) (codec : Identifier) (s : JSString) : Prop :=
  ∀ hex, codec.encoder b58 s = .ok hex →
    ∃ bytes, HexOf hex bytes ∧ Reads (codec.decoder b58) bytes s

/-- The octets of the text are a prefix other than that of the fourth kind of implicit account, with
a payload of its length. -/
def IsOfPrefix (b58 : Base58Check) (p : Prefix) (s : JSString) : Prop :=
  ∀ bs, b58.decode s = some bs →
    p ≠ .TZ4 ∧ ∃ payload : Bytes, bs = p.bytes ++ payload ∧ payload.length = p.payload

/-- The octets of what is encoded. -/
theorem encoder_eq_ok {hex : JSString} (h : codec.chosen s = some p)
    (hencode : codec.encoder b58 s = .ok hex) : ∃ bs, b58.decode s = some bs ∧
      HexOf hex (codec.leading p ++ (bs.drop p.bytes.length ++ codec.trailing p)) := by
  rw [encoder_of_chosen h] at hencode
  obtain ⟨text, htext, hencode⟩ := Except.bind_eq_ok.mp hencode
  cases hencode
  unfold prefixEncoder at htext
  cases hdecode : b58.decode s with
  | none =>
    rw [hdecode] at htext
    cases htext
  | some bs =>
    rw [hdecode] at htext
    cases htext
    refine ⟨bs, rfl, ?_⟩
    rw [← List.append_assoc]
    exact ((hexOf_toHex _).append (hexOf_toHex _)).append (hexOf_toHex _)

/-- **A codec is faithful to a text exactly if the text is of the prefix that it chooses.** -/
theorem identifier_faithful_iff (hb : b58.Lawful) : codec.Faithful b58 s ↔
    ∀ p, codec.chosen s = some p → IsOfPrefix b58 p s := by
  constructor
  · intro h p hp bs hbs
    have hencode : codec.encoder b58 s = .ok (toHex (codec.leading p) ++
        toHex (bs.drop p.bytes.length) ++ toHex (codec.trailing p)) := by
      rw [encoder_of_chosen hp, prefixEncoder, hbs]
      rfl
    obtain ⟨bytes, hhex, hreads⟩ := h _ hencode
    obtain ⟨bs', hbs', hhex'⟩ := encoder_eq_ok hp hencode
    obtain rfl : bs = bs' := Option.some.inj (hbs.symm.trans hbs')
    obtain rfl := hhex.2.symm.trans hhex'.2
    by_cases hTZ4 : p = .TZ4
    · subst hTZ4
      obtain ⟨e, he⟩ := decoder_leading_TZ4 hp _
      cases he.symm.trans hreads.run
    · have hrun := hreads.run
      rw [decoder_leading hp hTZ4] at hrun
      obtain ⟨hlen, hs⟩ := bodyDecoder_eq_ok hp hrun
      refine ⟨hTZ4, _, ?_, hlen⟩
      apply Option.some.inj
      rw [← hbs, ← hs, hb.decode_encode]
  · intro h hex hencode
    cases hchosen : codec.chosen s with
    | none =>
      obtain ⟨e, he⟩ := @encoder_of_none b58 codec s hchosen
      rw [he] at hencode
      cases hencode
    | some p =>
      obtain ⟨bs, hbs, hhex⟩ := encoder_eq_ok hchosen hencode
      obtain ⟨hTZ4, payload, rfl, hlen⟩ := h p hchosen bs hbs
      rw [List.drop_left] at hhex
      refine ⟨_, hhex, fun rest => ?_⟩
      rw [List.append_assoc, decoder_leading hchosen hTZ4]
      exact bodyDecoder_reads hchosen hlen (hb.encode_decode hbs) rest

theorem identifier_faithful_iff_branch : Faithful bs58check BRANCH
    (js "BLzyjjHKEKMULtvkpSHxuZxx6ei6fpntH2BTkYZiLgs8zLVstvX") := by
  apply (identifier_faithful_iff lawful_bs58check).mpr
  intro p hp bs hbs
  obtain rfl : Prefix.B = p := Option.some.inj hp
  have hdecode : bs58check.decode (js "BLzyjjHKEKMULtvkpSHxuZxx6ei6fpntH2BTkYZiLgs8zLVstvX") = some
      (Prefix.B.bytes ++ bufferFromHex
        (js "a99b946c97ada0f42c1bdeae0383db7893351232a832d00d0cd716eb6f66e561")) := by
    decide +kernel
  obtain rfl := Option.some.inj (hdecode.symm.trans hbs)
  exact ⟨by decide, _, rfl, by decide⟩

/-- A proposal is encoded as a branch, and decoded as another text. -/
theorem not_identifier_faithful : ¬ Faithful bs58check BRANCH
    (js "PsFLorenaUUuikDWvMDr6fGBRG8kt3e3D3fHoXK1j1BFRxeSH4i") := by
  intro h
  obtain ⟨bytes, hhex, hreads⟩ := h
    (js "4596285c6871691e25196c6a8d26d90a3ac91375731e3926103c517a13a0ba56") (by decide +kernel)
  obtain rfl := hhex.2
  have hread : BRANCH.decoder bs58check (bufferFromHex
      (js "4596285c6871691e25196c6a8d26d90a3ac91375731e3926103c517a13a0ba56")) =
      .ok (js "BLEvq8nqsMYDHvsjsZ69Nj2YvbpBkgUYv1B2ZW3jwvgCsQp62rG", []) := by
    decide +kernel
  rw [hreads.run] at hread
  exact absurd hread (by decide)

end Identifier

end LocalForging
