import Taquito.Signer.SigningAgreement

/-!
# Secret keys that are exported

`secretKey()` writes the key of a signer in clear, and a signer can be made of that text again. An
elliptic curve gives its octets back. For Ed25519 the text is written from the seed alone, while a
whole key brought its public half with it: the two agree when that half belongs to the seed. The
octets that decryption gives flow through the same statements (`new_encrypted`), and so does its
failure, which a method is called on before it is looked at.
-/

open Js Utils

namespace Signer

/-- `nacl.secretbox.open` takes the sixteen octets of authentication off. -/
def Unboxes (crypto : CryptoLibraries) : Prop :=
  ∀ {box nonce key message : Bytes}, crypto.secretboxOpen box nonce key = some message →
    box.length = message.length + 16

/-- The text of a secret key in a form. -/
def SecretForm.text (b58 : Base58Check) {curve : KeyCurve} (form : SecretForm curve)
    (payload : Bytes) : JSString :=
  b58.encode (form.octets ++ payload)

/-- The form in clear of what an encrypted key holds. -/
def KeyCurve.clear : (curve : KeyCurve) → SecretForm curve
  | .ed25519 => .seed
  | .ecdsa curve => .plain curve

variable (b58 : Base58Check) (crypto : CryptoLibraries)

/-- What a caller sees of two signers is the same. -/
structure SameKeys (signer signer' : InMemorySigner) : Prop where
  publicKey : signer'.publicKey b58 = signer.publicKey b58
  publicKeyHash : signer'.publicKeyHash b58 crypto = signer.publicKeyHash b58 crypto
  secretKey : signer'.secretKey b58 crypto = signer.secretKey b58 crypto

/-- A secret key survives its import and export: the signer of the exported text is the same to a
caller, an encrypted key is the key that it holds, and one that is not decrypted is not valid. -/
structure Survives {curve : KeyCurve} (form : SecretForm curve) (payload : Bytes)
    (passphrase : JSString) : Prop where
  reimported : ∀ signer,
    InMemorySigner.new b58 crypto (form.text b58 payload) passphrase = .ok signer →
      ∃ key signer', signer.secretKey b58 crypto = .ok key ∧
        InMemorySigner.new b58 crypto key [] = .ok signer' ∧ SameKeys b58 crypto signer signer'
  decrypted : form.isEncrypted = true → passphrase ≠ [] → ∀ secret,
    InMemorySigner.decryptWith crypto passphrase payload = some secret → ∀ other,
      InMemorySigner.new b58 crypto (form.text b58 payload) passphrase =
        InMemorySigner.new b58 crypto (curve.clear.text b58 secret) other
  refused : form.isEncrypted = true → passphrase ≠ [] →
    InMemorySigner.decryptWith crypto passphrase payload = none →
      ∃ key errorDetail, InMemorySigner.new b58 crypto (form.text b58 payload) passphrase =
        .error (.InvalidKeyError key errorDetail)

/-- A whole key is that of its seed, and an encrypted one is opened by its passphrase, if there is
one. -/
def Intact : {curve : KeyCurve} → SecretForm curve → Bytes → JSString → Prop
  | _, .whole, payload, _ =>
    crypto.nacl.fromSeed (payload.take 32) = some (payload, payload.drop 32)
  | _, .encrypted _, payload, passphrase =>
    passphrase ≠ [] → InMemorySigner.decryptWith crypto passphrase payload ≠ none
  | _, _, _, _ => True

variable {b58} {crypto} {curve : KeyCurve}

/-! ## The constructors -/

/-- What a constructor makes of the octets of a key. -/
def ofSecret (crypto : CryptoLibraries) : KeyCurve → Bytes → Except SignerError InMemorySigner
  | .ed25519, octets =>
    if octets.length ≠ 64 then
      match crypto.nacl.fromSeed octets with
      | none => .error .badSize
      | some (secretKey, publicKey) => .ok (.tz1 { key := secretKey, publicKey := publicKey })
    else .ok (.tz1 { key := octets, publicKey := octets.drop 32 })
  | .ecdsa curve, octets =>
    match (curve.curve crypto).getPublic octets with
    | none => .error .noPoint
    | some point => .ok (.ec curve { key := octets, publicKey := compressedKey point })

theorem newKey_eq (key : JSString) (encrypted : Bool) (decrypt : Decrypt) :
    newKey b58 crypto curve key encrypted decrypt =
      (secretOctets b58 key encrypted decrypt >>= ofSecret crypto curve) := by
  cases curve with
  | ed25519 =>
    rw [newKey]
    unfold Tz1.new
    cases secretOctets b58 key encrypted decrypt with
    | error e => rfl
    | ok octets =>
      simp only [Except.ok_bind, ofSecret]
      by_cases hlength : octets.length ≠ 64
      · rw [if_pos hlength, if_pos hlength]
        cases crypto.nacl.fromSeed octets <;> rfl
      · rw [if_neg hlength, if_neg hlength]
        rfl
  | ecdsa curve =>
    rw [newKey]
    unfold ECKey.new
    cases secretOctets b58 key encrypted decrypt with
    | error e => rfl
    | ok octets =>
      simp only [Except.ok_bind, ofSecret]
      cases (curve.curve crypto).getPublic octets <;> rfl

/-- The constructor on a key in clear: the passphrase is not looked at. -/
theorem new_clear (hb : b58.Lawful) (hl : SecretLettered b58) {form : SecretForm curve}
    (hclear : form.isEncrypted = false) {payload : Bytes} (hlength : payload.length = form.payload)
    (passphrase : JSString) :
    InMemorySigner.new b58 crypto (form.text b58 payload) passphrase
      = ofSecret crypto curve payload := by
  have hletters : form.letters <+: form.text b58 payload := hl form hlength
  rw [new_encode form hletters (by rw [hclear]; simp), newKey_eq, SecretForm.text,
    secretOctets_text hb hl form hlength, hclear]
  rfl

/-- The constructor on an encrypted key with a passphrase. -/
theorem new_encrypted (hb : b58.Lawful) (hl : SecretLettered b58) {form : SecretForm curve}
    (hencrypted : form.isEncrypted = true) {payload : Bytes}
    (hlength : payload.length = form.payload) {passphrase : JSString} (hpass : passphrase ≠ []) :
    InMemorySigner.new b58 crypto (form.text b58 payload) passphrase
      = (InMemorySigner.decryptWith crypto passphrase payload).elim (.error .typeError)
          (ofSecret crypto curve) := by
  have hletters : form.letters <+: form.text b58 payload := hl form hlength
  rw [new_encode form hletters fun _ => hpass, newKey_eq, SecretForm.text,
    secretOctets_text hb hl form hlength, hencrypted]
  simp only [if_true]
  cases InMemorySigner.decryptWith crypto passphrase payload <;> rfl

/-- An encrypted key without a passphrase is not decrypted. -/
theorem new_noPassphrase (hl : SecretLettered b58) {form : SecretForm curve}
    (hencrypted : form.isEncrypted = true) {payload : Bytes}
    (hlength : payload.length = form.payload) (signer : InMemorySigner) :
    InMemorySigner.new b58 crypto (form.text b58 payload) [] ≠ .ok signer := by
  obtain ⟨rest, hrest⟩ := hl form hlength
  have hform : InMemorySigner.isEncrypted (form.text b58 payload) = true := by
    rw [SecretForm.text, ← hrest]
    cases form with
    | encrypted curve => rcases curve with _ | (_ | _) <;> rfl
    | seed | whole | plain curve => exact absurd hencrypted (by simp [SecretForm.isEncrypted])
  unfold InMemorySigner.new
  rw [hform]
  intro h
  cases h

/-! ## Export -/

/-- What decryption gives has the length of a key in clear. -/
theorem length_of_decryptWith (hu : Unboxes crypto) {payload secret : Bytes}
    (hlength : payload.length = 56) {passphrase : JSString}
    (hsecret : InMemorySigner.decryptWith crypto passphrase payload = some secret) :
    secret.length = 32 := by
  have hbox : (payload.drop 8).length = secret.length + 16 := hu hsecret
  rw [List.length_drop] at hbox
  omega

theorem clear_isEncrypted (curve : KeyCurve) : curve.clear.isEncrypted = false := by
  cases curve <;> rfl

theorem clear_payload (curve : KeyCurve) : curve.clear.payload = 32 := by
  cases curve <;> rfl

/-- A whole key is imported with the public half it has. -/
theorem ofSecret_whole {payload : Bytes} (hlength : payload.length = 64) :
    ofSecret crypto .ed25519 payload =
      .ok (.tz1 { key := payload, publicKey := payload.drop 32 }) :=
  if_neg (by omega)

/-- **A key that begins with a seed is exported as the whole key of that seed**, and its import
gives the public key of the seed. -/
theorem reimport_tz1 (hb : b58.Lawful) (hl : SecretLettered b58) (hn : crypto.nacl.Lawful)
    {key : Bytes} (hkey : 32 ≤ key.length) :
    ∃ half, half.length = 32 ∧
      crypto.nacl.fromSeed (key.take 32) = some (key.take 32 ++ half, half) ∧
      (∀ publicKey, (InMemorySigner.tz1 { key := key, publicKey := publicKey }).secretKey b58 crypto
        = .ok (SecretForm.whole.text b58 (key.take 32 ++ half))) ∧
      InMemorySigner.new b58 crypto (SecretForm.whole.text b58 (key.take 32 ++ half)) []
        = .ok (.tz1 { key := key.take 32 ++ half, publicKey := half }) := by
  have hseed : (key.take 32).length = 32 := by
    rw [List.length_take]
    omega
  obtain ⟨half, hhalf, hpair⟩ := hn.exists_pair hseed
  have hwhole : (key.take 32 ++ half).length = 64 := by
    rw [List.length_append, hseed, hhalf]
  refine ⟨half, hhalf, hpair, fun publicKey => ?_, ?_⟩
  · show Tz1.secretKey b58 crypto _ = _
    unfold Tz1.secretKey
    simp only [hpair]
    rfl
  · rw [new_clear hb hl rfl hwhole, ofSecret_whole hwhole, List.drop_left' hseed]

/-- The signer of a key in clear is made again of what it exports. -/
theorem reimport_clear (hb : b58.Lawful) (hl : SecretLettered b58) (hn : crypto.nacl.Lawful)
    {secret : Bytes} (hlength : secret.length = 32) {signer : InMemorySigner}
    (hsigner : ofSecret crypto curve secret = .ok signer) :
    ∃ key signer', signer.secretKey b58 crypto = .ok key ∧
      InMemorySigner.new b58 crypto key [] = .ok signer' ∧ SameKeys b58 crypto signer signer' := by
  cases curve with
  | ed25519 =>
    obtain ⟨half, -, hpair, hexport, himport⟩ := reimport_tz1 hb hl hn hlength.ge
    rw [List.take_of_length_le hlength.le] at hpair hexport himport
    simp only [ofSecret, hpair] at hsigner
    rw [if_pos (by omega)] at hsigner
    obtain rfl := Except.ok.inj hsigner
    -- the seed of the whole key is the seed
    have hwhole : 32 ≤ (secret ++ half).length := by
      rw [List.length_append]
      omega
    obtain ⟨half', -, hpair', hexport', -⟩ := reimport_tz1 hb hl hn hwhole
    rw [List.take_left' hlength] at hpair' hexport'
    obtain rfl : half = half' := (Prod.mk.inj (Option.some.inj (hpair.symm.trans hpair'))).2
    exact ⟨_, _, hexport' _, himport, rfl, rfl, rfl⟩
  | ecdsa curve =>
    unfold ofSecret at hsigner
    simp only at hsigner
    cases hpoint : (curve.curve crypto).getPublic secret with
    | none =>
      rw [hpoint] at hsigner
      cases hsigner
    | some point =>
      rw [hpoint] at hsigner
      obtain rfl := Except.ok.inj hsigner
      refine ⟨(SecretForm.plain curve).text b58 secret, _, ?_, ?_, rfl, rfl, rfl⟩
      · cases curve <;> rfl
      · rw [new_clear hb hl rfl hlength]
        unfold ofSecret
        simp only [hpoint]

/-! ## Survival -/

/-- A key in clear survives when what it exports is the same signer. -/
theorem survives_clear_iff (hb : b58.Lawful) (hl : SecretLettered b58) {form : SecretForm curve}
    (hclear : form.isEncrypted = false) {payload : Bytes} (hlength : payload.length = form.payload)
    (passphrase : JSString) :
    Survives b58 crypto form payload passphrase ↔
      ∀ signer, ofSecret crypto curve payload = .ok signer → ∃ key signer',
        signer.secretKey b58 crypto = .ok key ∧
        InMemorySigner.new b58 crypto key [] = .ok signer' ∧
        SameKeys b58 crypto signer signer' := by
  have hnew := @new_clear b58 crypto curve hb hl form hclear payload hlength passphrase
  have habsurd : form.isEncrypted ≠ true := by
    rw [hclear]
    exact Bool.false_ne_true
  constructor
  · intro h signer hsigner
    exact h.reimported signer (hnew.trans hsigner)
  · intro h
    refine ⟨fun signer hsigner => h signer (hnew.symm.trans hsigner), ?_, ?_⟩
    · exact fun hform => absurd hform habsurd
    · exact fun hform => absurd hform habsurd

theorem publicKey_injective (hb : b58.Lawful) {key publicKey publicKey' : Bytes} {key' : Bytes}
    (h : (InMemorySigner.tz1 ⟨key, publicKey⟩).publicKey b58 =
      (InMemorySigner.tz1 ⟨key', publicKey'⟩).publicKey b58) : publicKey = publicKey' := by
  have hoctets : b58cdecode b58 ((InMemorySigner.tz1 ⟨key, publicKey⟩).publicKey b58)
      Prefix.EDPK.bytes = .ok publicKey := b58cdecode_b58cencode hb publicKey _
  have hoctets' : b58cdecode b58 ((InMemorySigner.tz1 ⟨key', publicKey'⟩).publicKey b58)
      Prefix.EDPK.bytes = .ok publicKey' := b58cdecode_b58cencode hb publicKey' _
  rw [h, hoctets'] at hoctets
  exact (Except.ok.inj hoctets).symm

/-- A whole key survives exactly when it is the key of its seed. -/
theorem survives_whole_iff (hb : b58.Lawful) (hl : SecretLettered b58) (hn : crypto.nacl.Lawful)
    {payload : Bytes} (hlength : payload.length = 64) (passphrase : JSString) :
    Survives b58 crypto .whole payload passphrase ↔
      crypto.nacl.fromSeed (payload.take 32) = some (payload, payload.drop 32) := by
  obtain ⟨half, -, hpair, hexport, himport⟩ :=
    @reimport_tz1 b58 crypto hb hl hn payload (by omega)
  rw [survives_clear_iff hb hl rfl hlength, ofSecret_whole hlength, hpair]
  constructor
  · intro h
    obtain ⟨key, signer', hkey, hsigner', hsame⟩ := h _ rfl
    obtain rfl := Except.ok.inj ((hexport _).symm.trans hkey)
    obtain rfl := Except.ok.inj (himport.symm.trans hsigner')
    obtain rfl : half = payload.drop 32 := publicKey_injective hb hsame.publicKey
    rw [List.take_append_drop]
  · intro h signer hsigner
    obtain rfl := Except.ok.inj hsigner
    obtain ⟨hkey, rfl⟩ := Prod.mk.inj (Option.some.inj h)
    rw [hkey] at hexport himport
    exact ⟨_, _, hexport _, himport, rfl, rfl, rfl⟩

/-- An encrypted key survives exactly when its passphrase, if there is one, opens it. -/
theorem survives_encrypted_iff (hb : b58.Lawful) (hl : SecretLettered b58)
    (hn : crypto.nacl.Lawful) (hu : Unboxes crypto) {payload : Bytes}
    (hlength : payload.length = 56) (passphrase : JSString) :
    Survives b58 crypto (.encrypted curve) payload passphrase ↔
      (passphrase ≠ [] → InMemorySigner.decryptWith crypto passphrase payload ≠ none) := by
  constructor
  · intro h hpass hnone
    obtain ⟨key, errorDetail, herror⟩ := h.refused rfl hpass hnone
    rw [new_encrypted hb hl rfl hlength hpass, hnone] at herror
    cases herror
  · intro h
    refine ⟨?_, ?_, fun _ hpass hnone => absurd hnone (h hpass)⟩
    · intro signer hsigner
      have hpass : passphrase ≠ [] := by
        rintro rfl
        exact new_noPassphrase hl rfl hlength signer hsigner
      rw [new_encrypted hb hl rfl hlength hpass] at hsigner
      obtain ⟨secret, hsecret⟩ := Option.ne_none_iff_exists'.mp (h hpass)
      rw [hsecret] at hsigner
      exact reimport_clear hb hl hn (length_of_decryptWith hu hlength hsecret) hsigner
    · intro _ hpass secret hsecret other
      have hclear : secret.length = curve.clear.payload := by
        rw [clear_payload]
        exact length_of_decryptWith hu hlength hsecret
      rw [new_encrypted hb hl rfl hlength hpass, hsecret,
        new_clear hb hl (clear_isEncrypted curve) hclear]
      rfl

/-- **A secret key survives exactly when it is intact**: for every form, payload and passphrase. -/
theorem survives_iff (hb : b58.Lawful) (hl : SecretLettered b58) (hn : crypto.nacl.Lawful)
    (hu : Unboxes crypto) {form : SecretForm curve} {payload : Bytes}
    (hlength : payload.length = form.payload) (passphrase : JSString) :
    Survives b58 crypto form payload passphrase ↔ Intact crypto form payload passphrase := by
  cases form with
  | whole => exact survives_whole_iff hb hl hn hlength passphrase
  | encrypted => exact survives_encrypted_iff hb hl hn hu hlength passphrase
  | seed =>
    rw [survives_clear_iff hb hl rfl hlength]
    exact iff_of_true (fun _ => reimport_clear hb hl hn hlength) trivial
  | plain =>
    rw [survives_clear_iff hb hl rfl hlength]
    exact iff_of_true (fun _ => reimport_clear hb hl hn hlength) trivial

/-! ## An encrypted key of the tests -/

/-- What follows the prefix of the key `p2esk2TF…`. -/
def testEncrypted : Bytes :=
  bufferFromHex (js "e52fc24e6528891e970ad820d4790ba150a03d1eb291d3f4") ++
    bufferFromHex (js "958a75a7ba61e66fac47f7ddfa1e73f32b8021aaf392b62f845d6e6844c26d76")

/-- What `test1234` opens it to. -/
def testSecret : Bytes :=
  bufferFromHex (js "37a6ff1868a581d09c60377239a95601dc73cd659ecf5d3cee14461c8b8efc9e")

/-- The encryption key of `test1234`. -/
def testEncryptionKey : Bytes :=
  bufferFromHex (js "1c4f429f4619668bb22df427c3ec7c5559fe8897a508b5907e94dff65d74b9f8")

/-- The public key of the seed of zeros. -/
def zeroPublicKey : Bytes :=
  bufferFromHex (js "3b6a27bcceb6a42d62a3a8d02a6f0d73653215771de243a63ac048a18b59da29")

/-- Libraries that know this key with the passphrases `test1234` and `test`, and the seed of zeros.
-/
def testLibraries : CryptoLibraries where
  blake2b input outlen :=
    if outlen = 20 ∧ input.length = 33 then
      bufferFromHex (js "e57a81394a9c8e5443733ed5ac14aaf5394ef541")
    else List.replicate outlen 0
  nacl :=
    { fromSeed := fun seed =>
        if seed.length = 32 then some (seed ++ zeroPublicKey, zeroPublicKey) else none
      detached := fun _ _ => some (List.replicate 64 0)
      verify := fun _ signature _ => some (signature = List.replicate 64 0) }
  secp256k1 := testCurve
  p256 :=
    { testCurve with
      getPublic := fun _ => some
        { x := 0xbbf2d7534de588191c35db4b3d05671c54ee0e571a9de270435e629a6c803e1d
          y := 0x312fc493b4a57697a8e7ccf814157b0a23b642da53637a8ca1d1b94b2e1d6f4c } }
  pbkdf2Sync passphrase _ :=
    if passphrase = js "test1234" then testEncryptionKey
    else bufferFromHex (js "be00bb7d2b169c65c3119d14d7f187ee07bdfec75f500c49eaaf5b58180da0fa")
  secretboxOpen box _ key :=
    if box = testEncrypted.drop 8 ∧ key = testEncryptionKey then some testSecret else none

theorem lawful_testLibraries : testLibraries.nacl.Lawful where
  exists_pair hlength := ⟨zeroPublicKey, by decide, if_pos hlength⟩
  exists_signature _ _ := ⟨List.replicate 64 0, List.length_replicate, rfl, by simp [testLibraries]⟩

theorem unboxes_testLibraries : Unboxes testLibraries := by
  intro box nonce key message h
  change (if box = testEncrypted.drop 8 ∧ key = testEncryptionKey then some testSecret else none) =
    some message at h
  by_cases hbox : box = testEncrypted.drop 8 ∧ key = testEncryptionKey
  · rw [if_pos hbox] at h
    obtain rfl := Option.some.inj h
    rw [hbox.1]
    decide
  · rw [if_neg hbox] at h
    cases h

/-- The encrypted key of the tests survives under its passphrase. -/
theorem survives_iff_test1234 :
    Intact testLibraries (.encrypted (.ecdsa .p256)) testEncrypted (js "test1234") ∧
      Survives Bs58check.bs58check testLibraries (.encrypted (.ecdsa .p256)) testEncrypted
        (js "test1234") := by
  have hintact : Intact testLibraries (.encrypted (.ecdsa .p256)) testEncrypted
      (js "test1234") := by
    intro _ hnone
    have hopen : InMemorySigner.decryptWith testLibraries (js "test1234") testEncrypted =
        some testSecret := by decide
    rw [hopen] at hnone
    cases hnone
  exact ⟨hintact, (survives_iff Bs58check.lawful_bs58check secretLettered_bs58check
    lawful_testLibraries unboxes_testLibraries (by decide) _).mpr hintact⟩

/-- The passphrase `test` does not open it, and what is thrown is no `InvalidKeyError`; a whole key
of the seed of zeros with a public half of zeros exports another public key. -/
theorem not_survives_test :
    (SecretForm.encrypted (.ecdsa .p256)).text Bs58check.bs58check testEncrypted =
        js "p2esk2TFqgNcoT4u99ut5doGTUFNwo9x4nNvkpM6YMLqXrt4SbFdQnqL" ++
          js "M3hoAXLMB2uZYazj6LZGvcoYzk16H6Et" ∧
      ¬Survives Bs58check.bs58check testLibraries (.encrypted (.ecdsa .p256)) testEncrypted
        (js "test") ∧
      SecretForm.whole.text Bs58check.bs58check (List.replicate 64 0) =
        js "edskRc1n1hXn5XCoj1T93VUvgeTKnbNgWwaWMeiFSDgidfryadeoE598" ++
          js "yctqThA2Kb1ePuhY99JUMTK2cPf1ngJLADLPDnpQvH" ∧
      ¬Survives Bs58check.bs58check testLibraries .whole (List.replicate 64 0) [] := by
  refine ⟨by decide +kernel, ?_, by decide +kernel, ?_⟩
  · rw [survives_encrypted_iff Bs58check.lawful_bs58check secretLettered_bs58check
      lawful_testLibraries unboxes_testLibraries (by decide)]
    intro h
    exact h (by decide) (by decide)
  · rw [survives_whole_iff Bs58check.lawful_bs58check secretLettered_bs58check
      lawful_testLibraries List.length_replicate]
    decide

end Signer
