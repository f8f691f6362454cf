import Taquito.Host.Bs58check
import Taquito.Lib.Reader
import Taquito.Signer.Signing
import Taquito.Utils.Letters

/-!
# What is signed is verified

For a secret key of any of the three curves, in any of its texts, `verifySignature` accepts both
forms of a signature of the signer under the signer's public key (`sign_verified`). The two
packages meet in the layout of octets: the compressed public key, the halves of a signature, and
the prefixes, which the validators find by the first letters.
-/

open Js BigEndian Utils

/-! ## Layouts -/

namespace Signer

theorem lt_pow_octets {n : ℕ} (hn : n < 2 ^ 256) : n < 256 ^ 32 := by
  have hpow : (256 : ℕ) ^ 32 = 2 ^ 256 := by norm_num
  omega

theorem getLast?_leadingDigits {b : ℕ} (hb : 1 < b) (n : ℕ) :
    (leadingDigits b n).getLast? = some (n % b) := by
  unfold leadingDigits
  split
  · next hn =>
    rw [hn, Nat.zero_mod]
    rfl
  · next hn => rw [List.getLast?_reverse, Nat.digits_def' hb (Nat.pos_of_ne_zero hn), List.head?_cons]

/-- The octets of a number of 256 bits, padded on the left. -/
theorem padded_toArray {n : ℕ} (hn : n < 2 ^ 256) :
    let padded := List.replicate 32 0 ++ toArray n
    padded.drop (padded.length - 32) = fixedDigits 256 32 n := by
  have h256 := lt_pow_octets hn
  have hlen : (toArray n).length ≤ 32 := (leadingDigits_length_le (by omega) (by omega)).mpr h256
  have hpad := replicate_leadingDigits (b := 256) (by omega) (by omega) h256
  simp only [List.length_append, List.length_replicate, Nat.add_sub_cancel_left]
  rw [← hpad, List.drop_append_of_le_length (by rw [List.length_replicate]; exact hlen),
    List.drop_replicate]
  rfl

/-- The octet that gives the parity is the last one. -/
theorem parityByte_mod {n : ℕ} (hn : n < 2 ^ 256) :
    (if (toArray n).length < 32 then (toArray n).getLast! else (toArray n)[31]!) % 2 = n % 2 := by
  have h256 := lt_pow_octets hn
  have hlen : (toArray n).length ≤ 32 := (leadingDigits_length_le (by omega) (by omega)).mpr h256
  have hlast : (toArray n).getLast? = some (n % 256) := getLast?_leadingDigits (by omega) n
  have hmod : n % 256 % 2 = n % 2 := Nat.mod_mod_of_dvd n (by norm_num)
  split
  · rw [List.getLast!_eq_getLast?_getD, hlast, Option.getD_some, hmod]
  · next hshort =>
    rw [List.getLast?_eq_getElem?, show (toArray n).length - 1 = 31 by omega] at hlast
    rw [List.getElem!_eq_getElem?_getD, hlast, Option.getD_some, hmod]

/-- The public key is the compressed form of its point. -/
theorem compressedKey_eq {point : CurvePoint} (hx : point.x < 2 ^ 256) (hy : point.y < 2 ^ 256) :
    compressedKey point = UInt8.ofNat (2 + point.y % 2) :: beBytes 32 point.x := by
  have hparity := parityByte_mod hy
  have hpadded := padded_toArray hx
  unfold compressedKey
  simp only at hpadded ⊢
  rw [List.map_cons, hpadded, beBytes, hparity]
  congr 2
  rcases Nat.mod_two_eq_zero_or_one point.y with h | h <;> rw [h] <;> rfl

/-- The hexadecimal text of a number of 256 bits. -/
theorem toHexString64_eq {n : ℕ} (hn : n < 2 ^ 256) : toHexString64 n = toHex (beBytes 32 n) := by
  have h256 := lt_pow_octets hn
  have hle : (numberText 16 n).length ≤ 64 := (numberText_hex_length_le (by omega)).mpr h256
  have hpos : 0 < (numberText 16 n).length := List.length_pos_of_ne_nil (numberText_ne_nil _ _)
  have hwidth : 64 * (((numberText 16 n).length + 63) / 64) = 2 * 32 := by omega
  show padStart (64 * (((numberText 16 n).length + 63) / 64)) (digitChar 0) (numberText 16 n) = _
  rw [hwidth, padStart_hexText (by omega) h256]

end Signer

namespace Utils

/-! ## Reading back -/

/-- The regular expression splits the text of 64 octets in the middle. -/
theorem hexMatches_toHex {r s : Bytes} (hr : r.length = 32) (hs : s.length = 32) :
    hexMatches (toHex (r ++ s)).length (toHex (r ++ s)) = [toHex r, toHex s] := by
  have hr64 : (toHex r).length = 64 := by rw [toHex_length, hr]
  have hs64 : (toHex s).length = 64 := by rw [toHex_length, hs]
  have hdigits : ∀ bs : Bytes, (toHex bs).all isHexDigit = true := by
    intro bs
    apply List.all_eq_true.mpr
    intro c hc
    exact isHexDigit_of_isLowerHexDigit (isLowerHexDigit_of_mem_toHex hc)
  -- one match takes 64 places, and only two are there
  have hstep : ∀ (n : ℕ) (u v : JSString), u.length = 64 → u.all isHexDigit = true →
      hexMatches (n + 1) (u ++ v) = u :: hexMatches n v := by
    intro n u v hu hall
    rw [hexMatches, if_neg (by rw [List.length_append]; omega), List.take_left' hu,
      List.drop_left' hu, if_pos hall]
  have hlen : (toHex (r ++ s)).length = 126 + 1 + 1 := by
    rw [toHex_append, List.length_append, hr64, hs64]
  rw [hlen, toHex_append, hstep _ _ _ hr64 (hdigits r), ← List.append_nil (toHex s),
    hstep _ _ _ hs64 (hdigits s), List.append_nil]
  rfl

/-! ## Prefixes -/

variable {b58 : Base58Check} {p : Prefix} {payload : Bytes}

theorem prefixOfText_text {prefixes : List Prefix} (hapart : Apart prefixes) (hp : p ∈ prefixes) :
    prefixOfText prefixes p.text = some p := by
  have hsome : (prefixOfText prefixes p.text).isSome = true := by
    apply List.find?_isSome.mpr
    exact ⟨p, hp, decide_eq_true rfl⟩
  obtain ⟨q, hq⟩ := Option.isSome_iff_exists.mp hsome
  have htext : q.text = p.text := by simpa using List.find?_some hq
  rw [hq, hapart q (List.mem_of_find?_eq_some hq) p hp (by rw [htext])]

theorem validatePkAndExtractPrefix_encode (hb : b58.Lawful) (halpha : b58.Alphanumeric)
    (hl : Lettered b58) (hp : p ∈ pkPrefixes) (hlength : payload.length = p.payload) :
    validatePkAndExtractPrefix b58 (Utils.b58cencode b58 payload p.bytes) = .ok p := by
  have hvalid : validatePublicKey b58 (b58.encode (p.bytes ++ payload)) = .VALID :=
    validatePrefixedValue_encode hb halpha hl (by decide) hp (by rintro rfl; exact absurd hp (by decide))
      hlength
  obtain ⟨rest, hrest⟩ := hl p hlength
  have htake : (b58.encode (p.bytes ++ payload)).take 4 = p.text := by
    rw [← hrest]
    simp only [pkPrefixes, List.mem_cons, List.not_mem_nil, or_false] at hp
    rcases hp with rfl | rfl | rfl | rfl <;> rfl
  rw [validatePkAndExtractPrefix, Utils.b58cencode, if_neg (ne_nil_of_valid b58 hvalid)]
  simp only [hvalid, htake, @prefixOfText_text p pkPrefixes (by decide) hp]

theorem validateSigAndExtractPrefix_encode (hb : b58.Lawful) (halpha : b58.Alphanumeric)
    (hl : Lettered b58) (hp : p ∈ sigPrefixes) (hlength : payload.length = p.payload) :
    validateSigAndExtractPrefix b58 (Utils.b58cencode b58 payload p.bytes) = .ok p := by
  have hvalid : validateSignature b58 (b58.encode (p.bytes ++ payload)) = .VALID :=
    validatePrefixedValue_encode hb halpha hl (by decide) hp (by rintro rfl; exact absurd hp (by decide))
      hlength
  obtain ⟨rest, hrest⟩ := hl p hlength
  have htake : (if (js "sig").isPrefixOf (b58.encode (p.bytes ++ payload)) then
      (b58.encode (p.bytes ++ payload)).take 3 else (b58.encode (p.bytes ++ payload)).take 5)
      = p.text := by
    rw [← hrest]
    simp only [sigPrefixes, List.mem_cons, List.not_mem_nil, or_false] at hp
    rcases hp with rfl | rfl | rfl | rfl <;> rfl
  rw [validateSigAndExtractPrefix, Utils.b58cencode]
  simp only [hvalid, htake, @prefixOfText_text p sigPrefixes (by decide) hp]

theorem b58cdecode_b58cencode (hb : b58.Lawful) (payload : Bytes) (pre : Bytes) :
    b58cdecode b58 (Utils.b58cencode b58 payload pre) pre = .ok payload := by
  rw [b58cdecode, Utils.b58cencode, hb.decode_encode]
  simp only [List.drop_left]

end Utils

namespace Signer

/-! ## Secret keys -/

/-- The curve of a key. -/
inductive KeyCurve where
  | ed25519
  | ecdsa (curve : CurveName)
  deriving DecidableEq, Repr

/-- The forms of a secret key: in clear, of Ed25519 by its seed or whole, and encrypted. -/
inductive SecretForm : KeyCurve → Type where
  | seed : SecretForm .ed25519
  | whole : SecretForm .ed25519
  | plain (curve : CurveName) : SecretForm (.ecdsa curve)
  | encrypted (curve : KeyCurve) : SecretForm curve
  deriving DecidableEq

namespace SecretForm

/-- The letters of a form. -/
def letters : {curve : KeyCurve} → SecretForm curve → JSString
  | _, seed => js "edsk"
  | _, whole => js "edsk"
  | _, plain .secp256k1 => js "spsk"
  | _, plain .p256 => js "p2sk"
  | _, encrypted .ed25519 => js "edesk"
  | _, encrypted (.ecdsa .secp256k1) => js "spesk"
  | _, encrypted (.ecdsa .p256) => js "p2esk"

/-- The octets of a form: those of its letters in `prefix`, and of `edsk2` for a seed. -/
def octets : {curve : KeyCurve} → SecretForm curve → Bytes
  | _, seed => [13, 15, 58, 7]
  | _, whole => [43, 246, 78, 7]
  | _, plain .secp256k1 => [17, 162, 224, 201]
  | _, plain .p256 => [16, 81, 238, 189]
  | _, encrypted .ed25519 => [7, 90, 60, 179, 41]
  | _, encrypted (.ecdsa .secp256k1) => [0x09, 0xed, 0xf1, 0xae, 0x96]
  | _, encrypted (.ecdsa .p256) => [0x09, 0x30, 0x39, 0x73, 0xab]

/-- How many octets follow: an encrypted key has eight of salt and sixteen of authentication. -/
def payload : {curve : KeyCurve} → SecretForm curve → ℕ
  | _, seed => 32
  | _, whole => 64
  | _, plain _ => 32
  | _, encrypted _ => 56

/-- The form is the encrypted one. -/
def isEncrypted : {curve : KeyCurve} → SecretForm curve → Bool
  | _, encrypted _ => true
  | _, _ => false

end SecretForm

/-- The texts of a secret key begin with the letters of its form. -/
def SecretLettered (b58 : Base58Check) : Prop :=
  ∀ {curve : KeyCurve} (form : SecretForm curve) {payload : Bytes},
    payload.length = form.payload → form.letters <+: b58.encode (form.octets ++ payload)

variable (b58 : Base58Check) (crypto : CryptoLibraries)

/-- The octets of a secret key of a curve. -/
inductive IsSecret : KeyCurve → Bytes → Prop where
  | seed {seed : Bytes} (length : seed.length = 32) : IsSecret .ed25519 seed
  | whole {seed secretKey publicKey : Bytes} (length : seed.length = 32)
      (pair : crypto.nacl.fromSeed seed = some (secretKey, publicKey)) : IsSecret .ed25519 secretKey
  | ecdsa {curve : CurveName} {key : Bytes} (key_isPrivate : (curve.curve crypto).IsPrivate key) :
      IsSecret (.ecdsa curve) key

/-- The octets that a passphrase gives for the payload of a form. -/
def Opens {curve : KeyCurve} (form : SecretForm curve) (passphrase : JSString)
    (payload secret : Bytes) : Prop :=
  if form.isEncrypted then
    passphrase ≠ [] ∧ InMemorySigner.decryptWith crypto passphrase payload = some secret
  else payload = secret

/-- The text of a secret key of a curve, with its passphrase if it is encrypted. -/
structure IsSecretKey (curve : KeyCurve) (key passphrase : JSString) : Prop where
  exists_form : ∃ (form : SecretForm curve) (payload secret : Bytes),
    payload.length = form.payload ∧ key = b58.encode (form.octets ++ payload) ∧
      Opens crypto form passphrase payload secret ∧ IsSecret crypto curve secret

variable {b58} {crypto} {curve : KeyCurve}

/-- A constructor cuts the prefix off and decrypts. -/
theorem secretOctets_text (hb : b58.Lawful) (hl : SecretLettered b58) (form : SecretForm curve)
    {payload : Bytes} (hlength : payload.length = form.payload) (decrypt : Decrypt) :
    secretOctets b58 (b58.encode (form.octets ++ payload)) form.isEncrypted decrypt
      = (decrypt payload).elim (.error .typeError) .ok := by
  obtain ⟨rest, hrest⟩ := hl form hlength
  have hlookup : ∃ pre, secretPrefixes.lookup ((b58.encode (form.octets ++ payload)).take
      (if form.isEncrypted then 5 else 4)) = some pre ∧ pre.length = form.octets.length := by
    rw [← hrest]
    cases form with
    | seed | whole => exact ⟨_, rfl, rfl⟩
    | plain curve => cases curve <;> exact ⟨_, rfl, rfl⟩
    | encrypted curve => rcases curve with _ | (_ | _) <;> exact ⟨_, rfl, rfl⟩
  obtain ⟨pre, hpre, hlen⟩ := hlookup
  have hdecode : b58cdecode b58 (b58.encode (form.octets ++ payload)) pre = .ok payload := by
    rw [b58cdecode, hb.decode_encode]
    simp only [hlen, List.drop_left]
  unfold secretOctets
  simp only [hpre, hdecode, Except.mapError, Except.ok_bind]
  cases decrypt payload <;> rfl

theorem secretOctets_encode (hb : b58.Lawful) (hl : SecretLettered b58) (form : SecretForm curve)
    {payload secret : Bytes} (hlength : payload.length = form.payload) {decrypt : Decrypt}
    (hsecret : decrypt payload = some secret) :
    secretOctets b58 (b58.encode (form.octets ++ payload)) form.isEncrypted decrypt
      = .ok secret := by
  rw [secretOctets_text hb hl form hlength, hsecret]
  rfl

/-- The constructor of the key of a curve. -/
def newKey (b58 : Base58Check) (crypto : CryptoLibraries) : KeyCurve → JSString → Bool → Decrypt →
    Except SignerError InMemorySigner
  | .ed25519, key, encrypted, decrypt => do
    return .tz1 (← Tz1.new b58 crypto key encrypted decrypt)
  | .ecdsa curve, key, encrypted, decrypt => do
    return .ec curve (← ECKey.new b58 crypto curve key encrypted decrypt)

/-- The letters of a form lead to the constructor of its curve. -/
theorem new_encode (form : SecretForm curve) {key passphrase : JSString}
    (hletters : form.letters <+: key) (hpass : form.isEncrypted = true → passphrase ≠ []) :
    InMemorySigner.new b58 crypto key passphrase = newKey b58 crypto curve key form.isEncrypted
      (if form.isEncrypted then InMemorySigner.decryptWith crypto passphrase else some) := by
  obtain ⟨rest, rfl⟩ := hletters
  have hencrypted : InMemorySigner.isEncrypted (form.letters ++ rest) = form.isEncrypted := by
    cases form with
    | seed | whole => rfl
    | plain curve => cases curve <;> rfl
    | encrypted curve => rcases curve with _ | (_ | _) <;> rfl
  have hguard : (form.isEncrypted && passphrase.isEmpty) = false := by
    cases hform : form.isEncrypted with
    | false => rfl
    | true => simpa using hpass hform
  unfold InMemorySigner.new
  simp only [hencrypted, hguard, Bool.false_eq_true, if_false]
  cases form with
  | seed | whole => rfl
  | plain curve => cases curve <;> rfl
  | encrypted curve => rcases curve with _ | (_ | _) <;> rfl

/-! ## Signers -/

/-- A signer with the key of a curve: its public key belongs to its secret key. -/
inductive Holds (crypto : CryptoLibraries) : KeyCurve → InMemorySigner → Prop where
  | tz1 {seed secretKey publicKey : Bytes} (length : seed.length = 32)
      (pair : crypto.nacl.fromSeed seed = some (secretKey, publicKey)) :
      Holds crypto .ed25519 (.tz1 { key := secretKey, publicKey := publicKey })
  | ec {curve : CurveName} {key : Bytes} {point : CurvePoint}
      (key_isPrivate : (curve.curve crypto).IsPrivate key)
      (hpoint : (curve.curve crypto).getPublic key = some point) :
      Holds crypto (.ecdsa curve) (.ec curve { key := key, publicKey := compressedKey point })

theorem lawful_curve (hc : crypto.Lawful) (curve : CurveName) : (curve.curve crypto).Lawful := by
  cases curve with
  | secp256k1 => exact hc.secp256k1
  | p256 => exact hc.p256

/-- A secret key of Ed25519 ends in its public key. -/
theorem pair_of_fromSeed (hc : crypto.Lawful) {seed secretKey publicKey : Bytes}
    (hlength : seed.length = 32) (hpair : crypto.nacl.fromSeed seed = some (secretKey, publicKey)) :
    publicKey.length = 32 ∧ secretKey = seed ++ publicKey := by
  obtain ⟨publicKey', hlength', hpair'⟩ := hc.nacl.exists_pair hlength
  rw [hpair, Option.some.injEq, Prod.mk.injEq] at hpair'
  obtain ⟨hsecret, rfl⟩ := hpair'
  exact ⟨hlength', hsecret⟩

theorem tz1New_of_secret (hc : crypto.Lawful) {key : JSString} {encrypted : Bool}
    {decrypt : Decrypt} {secret : Bytes} (hsecret : IsSecret crypto .ed25519 secret)
    (hoctets : secretOctets b58 key encrypted decrypt = .ok secret) :
    ∃ self, Tz1.new b58 crypto key encrypted decrypt = .ok self ∧
      Holds crypto .ed25519 (.tz1 self) := by
  cases hsecret with
  | seed hlength =>
    obtain ⟨publicKey, -, hpair⟩ := hc.nacl.exists_pair hlength
    refine ⟨_, ?_, .tz1 hlength hpair⟩
    rw [Tz1.new, hoctets, Except.ok_bind, if_pos (by omega)]
    simp only [hpair]
  | @whole seed _ publicKey hlength hpair =>
    obtain ⟨hpublic, rfl⟩ := pair_of_fromSeed hc hlength hpair
    refine ⟨_, ?_, .tz1 hlength hpair⟩
    rw [Tz1.new, hoctets, Except.ok_bind, if_neg (by rw [List.length_append]; omega),
      List.drop_left' hlength]

theorem ecKeyNew_of_secret (hc : crypto.Lawful) {curve : CurveName} {key : JSString}
    {encrypted : Bool} {decrypt : Decrypt} {secret : Bytes}
    (hsecret : IsSecret crypto (.ecdsa curve) secret)
    (hoctets : secretOctets b58 key encrypted decrypt = .ok secret) :
    ∃ self, ECKey.new b58 crypto curve key encrypted decrypt = .ok self ∧
      Holds crypto (.ecdsa curve) (.ec curve self) := by
  cases hsecret with
  | ecdsa hprivate =>
    obtain ⟨point, hpoint, -⟩ := (lawful_curve hc curve).exists_public hprivate
    refine ⟨_, ?_, .ec hprivate hpoint⟩
    rw [ECKey.new, hoctets, Except.ok_bind]
    simp only [hpoint]

/-- A secret key makes a signer. -/
theorem exists_signer (hb : b58.Lawful) (hl : SecretLettered b58) (hc : crypto.Lawful)
    {key passphrase : JSString} (hkey : IsSecretKey b58 crypto curve key passphrase) :
    ∃ signer, InMemorySigner.new b58 crypto key passphrase = .ok signer ∧
      Holds crypto curve signer := by
  obtain ⟨form, payload, secret, hlength, rfl, hopens, hsecret⟩ := hkey.exists_form
  have hpass : form.isEncrypted = true → passphrase ≠ [] := by
    intro hform
    rw [Opens, if_pos hform] at hopens
    exact hopens.1
  have hdecrypt : (if form.isEncrypted then InMemorySigner.decryptWith crypto passphrase else some)
      payload = some secret := by
    unfold Opens at hopens
    cases hform : form.isEncrypted with
    | true =>
      rw [if_pos hform] at hopens
      exact hopens.2
    | false =>
      rw [if_neg (by rw [hform]; decide)] at hopens
      exact congrArg some hopens
  have hoctets := secretOctets_encode hb hl form hlength hdecrypt
  rw [new_encode form (hl form hlength) hpass]
  cases curve with
  | ed25519 =>
    obtain ⟨self, hself, hholds⟩ := tz1New_of_secret hc hsecret hoctets
    refine ⟨_, ?_, hholds⟩
    rw [newKey, hself]
    rfl
  | ecdsa curve =>
    obtain ⟨self, hself, hholds⟩ := ecKeyNew_of_secret hc hsecret hoctets
    refine ⟨_, ?_, hholds⟩
    rw [newKey, hself]
    rfl

/-! ## Signatures -/

/-- The kind of the public key of a curve. -/
def KeyCurve.pk : KeyCurve → Prefix
  | .ed25519 => .EDPK
  | .ecdsa curve => curve.pk

/-- The kind of the signatures of a curve. -/
def KeyCurve.sig : KeyCurve → Prefix
  | .ed25519 => .EDSIG
  | .ecdsa curve => curve.sig

/-- The octets of the public key of a signer. -/
def InMemorySigner.publicOctets : InMemorySigner → Bytes
  | .tz1 key => key.publicKey
  | .ec _ key => key.publicKey

theorem publicKey_eq {signer : InMemorySigner} (h : Holds crypto curve signer) :
    signer.publicKey b58 = Utils.b58cencode b58 signer.publicOctets curve.pk.bytes := by
  cases h <;> rfl

theorem publicKeyHash_eq {signer : InMemorySigner} (h : Holds crypto curve signer) :
    signer.publicKeyHash b58 crypto = Utils.b58cencode b58
      (crypto.blake2b signer.publicOctets (pkhPrefix curve.pk).payload)
      (pkhPrefix curve.pk).bytes := by
  cases h with
  | tz1 _ _ => rfl
  | @ec curve _ _ _ _ => cases curve <;> rfl

theorem publicOctets_length (hc : crypto.Lawful) {signer : InMemorySigner}
    (h : Holds crypto curve signer) : signer.publicOctets.length = curve.pk.payload := by
  cases h with
  | tz1 hlength hpair => exact (pair_of_fromSeed hc hlength hpair).1
  | @ec curve key point hprivate hpoint =>
    obtain ⟨point', hpoint', hx, hy, -⟩ := (lawful_curve hc curve).exists_public hprivate
    obtain rfl := Option.some.inj (hpoint.symm.trans hpoint')
    show (compressedKey point).length = curve.pk.payload
    rw [compressedKey_eq hx hy, List.length_cons, beBytes_length]
    cases curve <;> rfl

/-- How a signature is checked, once everything is decoded. -/
def checkSignature (crypto : CryptoLibraries) (curve : KeyCurve)
    (signature bytesHash publicKey : Bytes) : Except UtilsError Bool :=
  match curve with
  | .ed25519 => .ok (verifyEdSignature crypto signature bytesHash publicKey)
  | .ecdsa curve => verifyCurveSignature (curve.curve crypto) signature bytesHash publicKey

/-- `verifySignature` of texts with their prefixes. -/
theorem verifySignature_encode (hb : b58.Lawful) (halpha : b58.Alphanumeric) (hl : Lettered b58)
    {q : Prefix} {publicKey signature : Bytes} {message : JSString}
    (hpublic : publicKey.length = curve.pk.payload) (hq : q ∈ sigPrefixes)
    (hsignature : signature.length = q.payload) (hne : message ≠ [])
    (hpairs : isHexPairs message = true) :
    verifySignature b58 crypto message (Utils.b58cencode b58 publicKey curve.pk.bytes)
        (Utils.b58cencode b58 signature q.bytes)
      = checkSignature crypto curve signature (crypto.blake2b (bufferFromHex message) 32)
          publicKey := by
  have hpk : curve.pk ∈ pkPrefixes := by rcases curve with _ | (_ | _) <;> decide
  have hmessage : validateMessageNotEmpty message = .ok message := if_neg hne
  rw [verifySignature, validatePkAndExtractPrefix_encode hb halpha hl hpk hpublic, Except.ok_bind,
    validateSigAndExtractPrefix_encode hb halpha hl hq hsignature, Except.ok_bind,
    b58cdecode_b58cencode hb, Except.ok_bind, b58cdecode_b58cencode hb, Except.ok_bind, hmessage,
    Except.ok_bind, hex2buf_eq_ok hne hpairs, Except.ok_bind]
  rcases curve with _ | (_ | _) <;> rfl

/-- A signature in its two texts. -/
structure IsSignature (b58 : Base58Check) (curve : KeyCurve) (bytes : JSString)
    (signature : Bytes) (signed : Signed) : Prop where
  length : signature.length = 64
  sig : signed.sig = Utils.b58cencode b58 signature Prefix.SIG.bytes
  prefixSig : signed.prefixSig = Utils.b58cencode b58 signature curve.sig.bytes
  sbytes : signed.sbytes = bytes ++ toHex signature

/-- What a signer signs is accepted under its public key. -/
theorem exists_signed (hc : crypto.Lawful) {signer : InMemorySigner}
    (h : Holds crypto curve signer) {bytes : JSString} (hne : bytes ≠ [])
    (hpairs : isHexPairs bytes = true) (watermark : Option Bytes) :
    ∃ signed signature, signer.sign b58 crypto bytes watermark = .ok signed ∧
      IsSignature b58 curve bytes signature signed ∧
      checkSignature crypto curve signature
        (crypto.blake2b (InMemorySigner.watermarked watermark (bufferFromHex bytes)) 32) signer.publicOctets
        = .ok true := by
  have hbytes : (hex2buf bytes).mapError SignerError.utils = .ok (bufferFromHex bytes) := by
    rw [hex2buf_eq_ok hne hpairs]
    rfl
  cases h with
  | @tz1 seed secretKey publicKey hlength hpair =>
    obtain ⟨signature, hsignature, hdetached, hverify⟩ := hc.nacl.exists_signature
      (crypto.blake2b (InMemorySigner.watermarked watermark (bufferFromHex bytes)) 32) hpair
    refine ⟨{ bytes := bytes, sig := _, prefixSig := _, sbytes := _ }, signature, ?_,
      ⟨hsignature, rfl, rfl, rfl⟩, ?_⟩
    · rw [InMemorySigner.sign, hbytes, Except.ok_bind]
      simp only [Tz1.sign, hdetached]
      rfl
    · show Except.ok ((crypto.nacl.verify _ signature publicKey).getD false) = _
      rw [hverify]
      rfl
  | @ec curve key point hprivate hpoint =>
    obtain ⟨r, s, hsign, hr, hs, hverify⟩ := (lawful_curve hc curve).exists_signature
      (crypto.blake2b (InMemorySigner.watermarked watermark (bufferFromHex bytes)) 32) hprivate
    obtain ⟨point', hpoint', hx, hy, hdecode⟩ := (lawful_curve hc curve).exists_public hprivate
    obtain rfl := Option.some.inj (hpoint.symm.trans hpoint')
    refine ⟨{ bytes := bytes, sig := _, prefixSig := _, sbytes := _ },
      beBytes 32 r ++ beBytes 32 s, ?_, ⟨?_, rfl, rfl, rfl⟩, ?_⟩
    · rw [InMemorySigner.sign, hbytes, Except.ok_bind]
      simp only [ECKey.sign, hsign, toHexString64_eq hr, toHexString64_eq hs, ← toHex_append,
        bufferFromHex_toHex]
      rfl
    · rw [List.length_append, beBytes_length, beBytes_length]
    · show verifyCurveSignature _ _ _ (compressedKey point) = _
      rw [compressedKey_eq hx hy, verifyCurveSignature, hdecode]
      show Except.ok (verifySpOrP2Sig _ _ _ point) = _
      unfold verifySpOrP2Sig
      simp only [hexMatches_toHex (beBytes_length 32 r) (beBytes_length 32 s), bufferFromHex_toHex,
        beValue_beBytes (lt_pow_octets hr), beValue_beBytes (lt_pow_octets hs), hverify hpoint]
      rfl

/-- A watermark in front of a message, as text. -/
def watermarkedText (watermark : Option Bytes) (bytes : JSString) : JSString :=
  toHex (watermark.getD []) ++ bytes

/-- What the signer and the verification agree on. -/
structure Agree (b58 : Base58Check) (crypto : CryptoLibraries) (curve : KeyCurve)
    (signer : InMemorySigner) (bytes : JSString) (watermark : Option Bytes) (signed : Signed) :
    Prop where
  sig : verifySignature b58 crypto (watermarkedText watermark bytes) (signer.publicKey b58)
    signed.sig = .ok true
  prefixSig : verifySignature b58 crypto (watermarkedText watermark bytes) (signer.publicKey b58)
    signed.prefixSig = .ok true
  exists_signature : ∃ signature, IsSignature b58 curve bytes signature signed
  pkh : getPkhfromPk b58 crypto (signer.publicKey b58) = .ok (signer.publicKeyHash b58 crypto)

/-- **Signing and verification agree**, for every secret key, message and watermark. -/
theorem sign_verified (hb : b58.Lawful) (halpha : b58.Alphanumeric) (hl : Lettered b58)
    (hls : SecretLettered b58) (hc : crypto.Lawful) {key passphrase bytes : JSString}
    (hkey : IsSecretKey b58 crypto curve key passphrase) (hne : bytes ≠ [])
    (hpairs : isHexPairs bytes = true) (watermark : Option Bytes) :
    ∃ signer signed, InMemorySigner.new b58 crypto key passphrase = .ok signer ∧
      signer.sign b58 crypto bytes watermark = .ok signed ∧
      Agree b58 crypto curve signer bytes watermark signed := by
  obtain ⟨signer, hsigner, hholds⟩ := exists_signer hb hls hc hkey
  obtain ⟨signed, signature, hsigned, hform, hcheck⟩ :=
    @exists_signed b58 crypto curve hc signer hholds bytes hne hpairs watermark
  have hpublic := publicOctets_length hc hholds
  have hpk : curve.pk ∈ pkPrefixes := by rcases curve with _ | (_ | _) <;> decide
  have htext : watermarkedText watermark bytes ≠ [] := by
    intro hnil
    exact hne (List.append_eq_nil_iff.mp hnil).2
  have htextPairs : isHexPairs (watermarkedText watermark bytes) = true :=
    isHexPairs_append (isHexPairs_toHex _) hpairs
  have hoctets : bufferFromHex (watermarkedText watermark bytes) =
      InMemorySigner.watermarked watermark (bufferFromHex bytes) := by
    rw [watermarkedText, bufferFromHex_toHex_append]
    cases watermark <;> rfl
  have hverify : ∀ q ∈ sigPrefixes, verifySignature b58 crypto (watermarkedText watermark bytes)
      (signer.publicKey b58) (Utils.b58cencode b58 signature q.bytes) = .ok true := by
    intro q hq
    have hlength : signature.length = q.payload := by
      rw [hform.length]
      simp only [sigPrefixes, List.mem_cons, List.not_mem_nil, or_false] at hq
      rcases hq with rfl | rfl | rfl | rfl <;> rfl
    rw [publicKey_eq hholds, verifySignature_encode hb halpha hl hpublic hq hlength htext htextPairs,
      hoctets, hcheck]
  refine ⟨signer, signed, hsigner, hsigned, ?_, ?_, ⟨signature, hform⟩, ?_⟩
  · rw [hform.sig]
    exact hverify .SIG (by decide)
  · rw [hform.prefixSig]
    exact hverify curve.sig (by rcases curve with _ | (_ | _) <;> decide)
  · rw [publicKey_eq hholds, publicKeyHash_eq hholds, getPkhfromPk,
      validatePkAndExtractPrefix_encode hb halpha hl hpk hpublic, Except.ok_bind,
      b58cdecode_b58cencode hb, Except.ok_bind]
    rfl

/-! ## A key whose `y` is short -/

theorem secretLettered_bs58check : SecretLettered Bs58check.bs58check := by
  intro curve form payload hlength
  have hbegins : Bs58check.BeginsWith form.octets form.payload form.letters := by
    cases form with
    | seed | whole => decide
    | plain curve => cases curve <;> decide
    | encrypted curve => rcases curve with _ | (_ | _) <;> decide
  exact Bs58check.prefix_encode hbegins hlength

/-- The secret key of a test of the repository. -/
def testKey : Bytes :=
  bufferFromHex (js "53412bdf4aba4f8c9d4bf99414fad482f1d4ff96c79ed3084f3bf4aec163a2b3")

/-- Its public key. -/
def testPoint : CurvePoint where
  x := 0x3093b6d5aca3e61482f1e66a07860411b5aadcdfc9ee541f8e869d122468ddfa
  y := 0x00de72f695711029623a635fec757a2fe215c765859fecf68bd3d7e166f4defd

/-- Its signature of `031234`. -/
def testSignature : ℕ × ℕ :=
  (0xb3a0c12af598923f724debffa1ddb04f69a6862fab008f306b65356f5f85cd64,
    0x2e69b5eedd8131d0c9a51a6be6172b335e80f3373176ad0225e092ae12aed611)

/-- A curve that knows this key and this signature. -/
def testCurve : EllipticCurve where
  order := 0xFFFFFFFFFFFFFFFFFFFFFFFFFFFFFFFEBAAEDCE6AF48A03BBFD25E8CD0364141
  getPublic _ := some testPoint
  sign _ _ := some testSignature
  keyFromPublic _ := some testPoint
  verify point _ r s := some (point = testPoint ∧ (r, s) = testSignature)

theorem lawful_testCurve : testCurve.Lawful where
  exists_public _ := ⟨testPoint, rfl, by decide, by decide, rfl⟩
  exists_signature _ _ := ⟨_, _, rfl, by decide, by decide, fun hpoint => by
    obtain rfl := Option.some.inj hpoint
    exact congrArg some (decide_eq_true ⟨rfl, rfl⟩)⟩

/-- Libraries with the hash of `031234` and that of the public key. -/
def testCrypto : CryptoLibraries where
  blake2b input outlen :=
    if input = [0x03, 0x12, 0x34] ∧ outlen = 32 then
      bufferFromHex (js "0ca34c8b7618c620b0bb3d45d91b98852df7cadae6d0cda161fcebb731dbeeb3")
    else if input = compressedKey testPoint ∧ outlen = 20 then
      bufferFromHex (js "ce3baee7c4392867b471121d7d4d7e06255cdb4e")
    else List.replicate outlen 0
  nacl :=
    { fromSeed := fun seed =>
        if seed.length = 32 then some (seed ++ List.replicate 32 0, List.replicate 32 0) else none
      detached := fun _ _ => some (List.replicate 64 0)
      verify := fun _ signature _ => some (signature = List.replicate 64 0) }
  secp256k1 := testCurve
  p256 := testCurve
  pbkdf2Sync _ _ := List.replicate 32 0
  secretboxOpen _ _ _ := none

theorem lawful_testCrypto : testCrypto.Lawful where
  nacl :=
    { exists_pair := fun hlength => ⟨List.replicate 32 0, List.length_replicate, if_pos hlength⟩
      exists_signature := fun _ _ =>
        ⟨List.replicate 64 0, List.length_replicate, rfl, by simp [testCrypto]⟩ }
  secp256k1 := lawful_testCurve
  p256 := lawful_testCurve

theorem sign_verified_testKey :
    ∃ signer signed, InMemorySigner.new Bs58check.bs58check testCrypto
        (js "spsk24EJohZHJkZnWEzj3w9wE7BFARpFmq5WAo9oTtqjdJ2t4pyoB3") [] = .ok signer ∧
      signer.sign Bs58check.bs58check testCrypto (js "1234") (some [3]) = .ok signed ∧
      Agree Bs58check.bs58check testCrypto (.ecdsa .secp256k1) signer (js "1234") (some [3])
        signed := by
  have hprivate : testCurve.IsPrivate testKey :=
    ⟨by decide, by decide, by decide⟩
  refine sign_verified Bs58check.lawful_bs58check Bs58check.alphanumeric_bs58check
    lettered_bs58check secretLettered_bs58check lawful_testCrypto ⟨?_⟩ (by decide) (by decide) _
  exact ⟨.plain .secp256k1, testKey, testKey, by decide +kernel, by decide +kernel, rfl,
    .ecdsa hprivate⟩

end Signer
