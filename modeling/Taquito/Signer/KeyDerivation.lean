import Taquito.Signer.Slip10

/-!
# The derived keys are those of SLIP-0010

Ed25519 keys are kept as bytes, and every step agrees with the standard. An ECDSA key is kept as a
number, whose bytes `derive` and `generateSecretKey` take without padding: the data of a hardened
step begin with them, and so do the bytes of a secret key. They agree with the standard just where
the number fills 32 bytes.
-/

open Js BigEndian

namespace Signer

open Slip10

/-! ## The bytes of a number -/

/-- A leading byte other than zero bounds the value from below. -/
theorem le_beValue_cons (b : UInt8) (hb : b ≠ 0) (bs : Bytes) :
    256 ^ bs.length ≤ beValue (b :: bs) := by
  induction bs using List.reverseRecOn with
  | nil =>
    have hpos : b.toNat ≠ 0 := fun h => hb (UInt8.toNat_inj.mp h)
    rw [List.length_nil, pow_zero, beValue]
    simpa [ofDigitsBE] using Nat.one_le_iff_ne_zero.mpr hpos
  | append_singleton bs d ih =>
    have hvalue : beValue (b :: (bs ++ [d])) = beValue (b :: bs) * 256 + d.toNat := by
      rw [beValue, beValue, ← List.cons_append, List.map_append]
      exact ofDigitsBE_concat 256 _ _
    rw [hvalue, List.length_append, List.length_singleton, pow_succ]
    exact (Nat.mul_le_mul_right 256 ih).trans (Nat.le_add_right _ _)

section bytes

variable {libs : Libraries} (hl : libs.Lawful)

include hl

/-- A number below a power of 256 has no more bytes than that. -/
theorem length_toArray_le {n k : ℕ} (hn : n ≠ 0) (h : n < 256 ^ k) :
    (libs.toArray n).length ≤ k := by
  have hhead := hl.head_toArray n hn
  have hvalue := hl.beValue_toArray n
  cases hbs : libs.toArray n with
  | nil => exact Nat.zero_le k
  | cons b bs =>
    rw [hbs] at hhead hvalue
    have hle := le_beValue_cons b (fun hb => hhead (by rw [hb, List.head?_cons])) bs
    rw [hvalue] at hle
    exact (Nat.pow_lt_pow_iff_right (by omega : 1 < 256)).mp (hle.trans_lt h)

/-- A number of 32 bytes is written as it is serialised. -/
theorem toArray_eq_ser256 {n : ℕ} (h : 256 ^ 31 ≤ n) (hlt : n < 256 ^ 32) :
    libs.toArray n = ser256 n := by
  have hn : n ≠ 0 := by
    rintro rfl
    omega
  have hvalue := hl.beValue_toArray n
  have hlength : (libs.toArray n).length = 32 := by
    refine le_antisymm (length_toArray_le hl hn hlt) ?_
    by_contra hshort
    have hle : 256 ^ (libs.toArray n).length ≤ 256 ^ 31 :=
      Nat.pow_le_pow_right (by omega) (by omega)
    have hbound := beValue_lt (libs.toArray n)
    rw [hvalue] at hbound
    omega
  have hbytes := beBytes_beValue (libs.toArray n)
  rw [hvalue, hlength] at hbytes
  exact hbytes.symm

/-- The bytes of a shorter number do not begin as it is serialised. -/
theorem head_toArray_ne_ser256 {n : ℕ} (hn : n ≠ 0) (h : n < 256 ^ 31) (rest : Bytes) :
    (libs.toArray n ++ rest).head? ≠ (ser256 n).head? := by
  have hser : (ser256 n).head? = some 0 := by
    have hsplit := fixedDigits_add 256 1 31 n
    rw [Nat.div_eq_of_lt h] at hsplit
    rw [ser256, beBytes, show 32 = 1 + 31 from rfl, hsplit]
    rfl
  rw [hser]
  cases hbs : libs.toArray n with
  | nil =>
    have hvalue := hl.beValue_toArray n
    rw [hbs] at hvalue
    exact absurd hvalue.symm hn
  | cons b bs =>
    have hhead := hl.head_toArray n hn
    rwa [hbs] at hhead

/-! ## Typed arrays -/

omit hl in
theorem length_set {data src : Bytes} {offset : ℕ} (h : offset + src.length ≤ data.length) :
    (set data src offset).length = data.length := by
  rw [set, List.length_append, List.length_append, List.length_take, List.length_drop]
  omega

/-- The data of a retry are those of the standard. -/
theorem set_retry {data sum : Bytes} {i : UInt32} (hlength : data.length = 37)
    (htail : data.drop 33 = ser32 i) (call : HmacCall) (hsum : libs.hmacSha512 call = sum) :
    set (set data (sum.drop 32) 1) [1] 0 = 0x01 :: sum.drop 32 ++ ser32 i := by
  have hchain : (sum.drop 32).length = 32 := by
    rw [List.length_drop, ← hsum, hl.length_hmacSha512]
  have htake : (data.take 1).length = 1 := by
    rw [List.length_take, hlength]
    rfl
  rw [set, set, hchain, htail, List.append_assoc]
  simp [htake]

end bytes

/-! ## ECDSA -/

/-- A key as an extended key. -/
def ECDSA.PrivateKey.extended (key : ECDSA.PrivateKey) : ExtendedKey := ⟨key.priv, key.chainCode⟩

/-- The group of an ECDSA curve. -/
def ecdsaGroup (libs : Libraries) (curve : CurveName) : Group :=
  ⟨libs.order curve, libs.encodeCompressed curve⟩

/-- The ECDSA curves of the standard. -/
def ecdsaCurve (libs : Libraries) (curve : CurveName) : Curve where
  key := match curve with
    | .p256 => utf8Encode (js "Nist256p1 seed")
    | .secp256k1 => utf8Encode (js "Bitcoin seed")
  group := some (ecdsaGroup libs curve)

section ecdsa

variable {libs : Libraries} (hl : libs.Lawful) (curve : CurveName)

/-- The master key is that of the standard. -/
theorem fromSeedLoop_extended (seed : Bytes) (retries : ℕ) :
    (ECDSA.fromSeedLoop libs curve seed retries >>= fun key => return key.extended)
      = master libs.hmacSha512 (ecdsaCurve libs curve) seed retries := by
  have hkey : (ecdsaCurve libs curve).key = utf8Encode (ECDSA.seedKey curve) := by
    cases curve <;> rfl
  have hgroup : (ecdsaCurve libs curve).group
      = some ⟨libs.order curve, libs.encodeCompressed curve⟩ := rfl
  induction retries generalizing seed with
  | zero =>
    rw [ECDSA.fromSeedLoop, master, hkey, hgroup, Traced.bind_assoc]
    apply Traced.bind_eq_bind_iff.mpr
    intro sum _
    by_cases hd : beValue (sum.take 32) = 0 ∨ beValue (sum.take 32) ≥ libs.order curve
    · simp [hd, parse256]
    · simp [hd, parse256, ECDSA.PrivateKey.extended]
  | succ retries ih =>
    rw [ECDSA.fromSeedLoop, master, hkey, hgroup, Traced.bind_assoc]
    apply Traced.bind_eq_bind_iff.mpr
    intro sum _
    by_cases hd : beValue (sum.take 32) = 0 ∨ beValue (sum.take 32) ≥ libs.order curve
    · simp [hd, parse256, ← ih sum]
    · simp [hd, parse256, ECDSA.PrivateKey.extended]

/-- A round of the standard on an ECDSA curve. -/
theorem childOf_ecdsa (parent : ExtendedKey) (i : UInt32) (data : Bytes) (retries : ℕ) :
    childOf libs.hmacSha512 (ecdsaCurve libs curve) parent i data retries
      = Traced.ask libs.hmacSha512 ⟨parent.c, data⟩ >>= fun I =>
        if parse256 (I.take 32) ≥ (ecdsaGroup libs curve).n
            ∨ (parse256 (I.take 32) + parent.k) % (ecdsaGroup libs curve).n = 0 then
          match retries with
          | 0 => Traced.stop .outOfRetries
          | retries + 1 =>
            childOf libs.hmacSha512 (ecdsaCurve libs curve) parent i
              (0x01 :: I.drop 32 ++ ser32 i) retries
        else return ⟨(parse256 (I.take 32) + parent.k) % (ecdsaGroup libs curve).n, I.drop 32⟩ := by
  have hgroup : (ecdsaCurve libs curve).group = some (ecdsaGroup libs curve) := rfl
  cases retries <;> rw [childOf, hgroup]

include hl

/-- A child of the same data is that of the standard, retries included. -/
theorem deriveLoop_extended (key : ECDSA.PrivateKey) (i : UInt32) (data : Bytes)
    (hlength : data.length = 37) (htail : data.drop 33 = ser32 i) (retries : ℕ) :
    (ECDSA.deriveLoop libs curve key data retries >>= fun child => return child.extended)
      = childOf libs.hmacSha512 (ecdsaCurve libs curve) key.extended i data retries := by
  -- The code keeps what the standard does not retry.
  have hneg : ∀ d, ¬(beValue d < libs.order curve ∧ (beValue d + key.priv) % libs.order curve ≠ 0)
      ↔ parse256 d ≥ (ecdsaGroup libs curve).n
        ∨ (parse256 d + key.extended.k) % (ecdsaGroup libs curve).n = 0 := by
    intro d
    rw [not_and_or, not_lt, not_not]
    rfl
  induction retries generalizing data with
  | zero =>
    rw [ECDSA.deriveLoop, childOf_ecdsa, Traced.bind_assoc]
    apply Traced.bind_eq_bind_iff.mpr
    intro sum _
    by_cases hd : beValue (sum.take 32) < libs.order curve
        ∧ (beValue (sum.take 32) + key.priv) % libs.order curve ≠ 0
    · have hd' := (hneg _).not.mp (not_not.mpr hd)
      dsimp only
      rw [if_pos hd, if_neg hd']
      rfl
    · dsimp only
      rw [if_neg hd, if_pos ((hneg _).mp hd)]
      rfl
  | succ retries ih =>
    rw [ECDSA.deriveLoop, childOf_ecdsa, Traced.bind_assoc]
    apply Traced.bind_eq_bind_iff.mpr
    intro sum hsum
    by_cases hd : beValue (sum.take 32) < libs.order curve
        ∧ (beValue (sum.take 32) + key.priv) % libs.order curve ≠ 0
    · have hd' := (hneg _).not.mp (not_not.mpr hd)
      dsimp only
      rw [if_pos hd, if_neg hd']
      rfl
    · have hretry := set_retry hl hlength htail _ (Except.ok.inj hsum)
      have hchain : (sum.drop 32).length = 32 := by
        rw [List.length_drop, ← Except.ok.inj hsum, hl.length_hmacSha512]
      have hser : (ser32 i).length = 4 := beBytes_length 4 _
      dsimp only
      rw [if_neg hd, if_pos ((hneg _).mp hd), hretry]
      apply ih
      · simp [hchain, hser]
      · simp [hchain]

/-! ## The data of a step -/

omit hl in
/-- The index is written behind the first 33 bytes. -/
theorem set_index {data : Bytes} (hlength : data.length = 37) (i : UInt32) :
    set data (uint32Bytes i) 33 = data.take 33 ++ ser32 i := by
  have hser : (uint32Bytes i).length = 4 := beBytes_length 4 _
  rw [set, hser, List.drop_eq_nil_of_le hlength.le, List.append_nil]
  rfl

/-- The data of a step that is not hardened are those of the standard. -/
theorem deriveData_soft (key : ECDSA.PrivateKey) {i : UInt32} (hi : isHard i = false) :
    ECDSA.deriveData libs curve key i = libs.encodeCompressed curve key.priv ++ ser32 i := by
  have hlength := hl.length_encodeCompressed curve key.priv
  have hset : (set (List.replicate 37 0) (libs.encodeCompressed curve key.priv) 0).length = 37 := by
    rw [length_set (by rw [hlength, List.length_replicate]; omega), List.length_replicate]
  rw [ECDSA.deriveData, hi, if_neg Bool.false_ne_true, set_index hset, set, List.take_zero, List.nil_append, List.take_left' hlength]

omit hl in
/-- Those of a hardened step begin with the bytes of the private key. -/
theorem deriveData_hard (key : ECDSA.PrivateKey) {i : UInt32} (hi : isHard i = true)
    (hlength : (libs.toArray key.priv).length ≤ 32) :
    ECDSA.deriveData libs curve key i
      = 0x00 :: (libs.toArray key.priv
        ++ List.replicate (32 - (libs.toArray key.priv).length) 0) ++ ser32 i := by
  have hset : (set (List.replicate 37 0) (libs.toArray key.priv) 1).length = 37 := by
    rw [length_set (by rw [List.length_replicate]; omega), List.length_replicate]
  have hle : (0x00 :: libs.toArray key.priv).length ≤ 33 := by
    rw [List.length_cons]
    omega
  have hmin : min (33 - (0x00 :: libs.toArray key.priv).length)
      (37 - (1 + (libs.toArray key.priv).length)) = 32 - (libs.toArray key.priv).length := by
    rw [List.length_cons]
    omega
  have hfront : (List.replicate 37 (0x00 : UInt8)).take 1 ++ libs.toArray key.priv
      = 0x00 :: libs.toArray key.priv := rfl
  rw [ECDSA.deriveData, hi, if_pos rfl, set_index hset, set, hfront, List.drop_replicate,
    List.take_append, List.take_of_length_le hle, List.take_replicate, hmin]
  rfl

/-- The private key of an ECDSA curve. -/
structure IsPrivate (libs : Libraries) (curve : CurveName) (k : ℕ) : Prop where
  ne_zero : k ≠ 0
  lt_order : k < libs.order curve

/-- The data of a step, as the standard has them. -/
def stepData (libs : Libraries) (curve : CurveName) (parent : ExtendedKey) (i : UInt32) : Bytes :=
  if isHard i then 0x00 :: ser256 parent.k ++ ser32 i
  else libs.encodeCompressed curve parent.k ++ ser32 i

/-- The data agree with the standard unless the step is hardened and the key has a leading zero. -/
theorem deriveData_eq_iff (key : ECDSA.PrivateKey) (i : UInt32)
    (hkey : IsPrivate libs curve key.priv) :
    ECDSA.deriveData libs curve key i = stepData libs curve key.extended i
      ↔ (isHard i = true → 256 ^ 31 ≤ key.priv) := by
  have hlt : key.priv < 256 ^ 32 := hkey.lt_order.trans (hl.order_bits curve).2
  have hlength := length_toArray_le hl hkey.ne_zero hlt
  rw [stepData]
  cases hi : isHard i with
  | false =>
    rw [deriveData_soft hl curve key hi, if_neg Bool.false_ne_true]
    simp [ECDSA.PrivateKey.extended]
  | true =>
    rw [deriveData_hard curve key hi hlength, if_pos rfl]
    constructor
    · intro heq _
      by_contra hshort
      have hcons := List.append_cancel_right heq
      have hbytes := (List.cons.inj hcons).2
      exact head_toArray_ne_ser256 hl hkey.ne_zero (not_le.mp hshort) _
        (congrArg List.head? hbytes)
    · intro hlong
      have hbytes := toArray_eq_ser256 hl (hlong rfl) hlt
      rw [hbytes, ser256, beBytes_length, Nat.sub_self, List.replicate_zero, List.append_nil]
      rfl

/-! ## Along a path -/

omit hl in
/-- A child of the standard on an ECDSA curve. -/
theorem CKDpriv_ecdsa (retries : ℕ) (parent : ExtendedKey) (i : UInt32) :
    CKDpriv libs.hmacSha512 (ecdsaCurve libs curve) retries parent i
      = childOf libs.hmacSha512 (ecdsaCurve libs curve) parent i (stepData libs curve parent i)
        retries := by
  have hdata : childData (ecdsaCurve libs curve) parent i = some (stepData libs curve parent i) := by
    rw [childData, stepData]
    cases isHard i <;> rfl
  rw [CKDpriv, hdata]

/-- A step with the data of the standard leads to its child. -/
theorem derive_extended {retries : ℕ} {key : ECDSA.PrivateKey} {i : UInt32}
    (hdata : ECDSA.deriveData libs curve key i = stepData libs curve key.extended i) :
    (key.derive libs retries curve i >>= fun child => return child.extended)
      = CKDpriv libs.hmacSha512 (ecdsaCurve libs curve) retries key.extended i := by
  have hser : (ser32 i).length = 4 := beBytes_length 4 _
  have hfront : ∃ front : Bytes, front.length = 33
      ∧ stepData libs curve key.extended i = front ++ ser32 i := by
    rw [stepData]
    cases isHard i with
    | false => exact ⟨_, hl.length_encodeCompressed _ _, rfl⟩
    | true => exact ⟨0x00 :: ser256 key.extended.k, by simp [ser256], rfl⟩
  obtain ⟨front, hlength, hfront⟩ := hfront
  rw [CKDpriv_ecdsa, ECDSA.PrivateKey.derive, hdata]
  apply deriveLoop_extended hl
  · rw [hfront, List.length_append, hlength, hser]
  · rw [hfront, ← hlength, List.drop_left]

omit hl in
/-- A step with other data is another computation, whatever follows. -/
theorem derive_bind_ne {retries : ℕ} {key : ECDSA.PrivateKey} {i : UInt32}
    (hdata : ECDSA.deriveData libs curve key i ≠ stepData libs curve key.extended i)
    {α : Type} (f : ECDSA.PrivateKey → Hmac α) (g : ExtendedKey → Hmac α) :
    (key.derive libs retries curve i >>= f)
      ≠ (CKDpriv libs.hmacSha512 (ecdsaCurve libs curve) retries key.extended i >>= g) := by
  rw [CKDpriv_ecdsa, ECDSA.PrivateKey.derive, childOf_ecdsa]
  have hcall : (⟨key.chainCode, ECDSA.deriveData libs curve key i⟩ : HmacCall)
      ≠ ⟨key.extended.c, stepData libs curve key.extended i⟩ := by
    intro h
    exact hdata (HmacCall.mk.inj h).2
  cases retries <;>
  · rw [ECDSA.deriveLoop, hmac]
    exact Traced.ask_bind_bind_ne hcall _ _ _ _

omit hl in
/-- A master key is a private key. -/
theorem isPrivate_of_master {seed : Bytes} {retries : ℕ} {key : ExtendedKey}
    (h : (master libs.hmacSha512 (ecdsaCurve libs curve) seed retries).result = .ok key) :
    IsPrivate libs curve key.k := by
  have hgroup : (ecdsaCurve libs curve).group = some (ecdsaGroup libs curve) := rfl
  have hkept : ∀ I : Bytes, ¬(some (ecdsaGroup libs curve)).any
      (fun group => parse256 (I.take 32) = 0 ∨ parse256 (I.take 32) ≥ group.n) = true →
      IsPrivate libs curve (parse256 (I.take 32)) := by
    intro I hd
    rw [Option.any_some, decide_eq_true_iff, not_or, not_le] at hd
    exact ⟨hd.1, hd.2⟩
  induction retries generalizing seed with
  | zero =>
    rw [master, hgroup] at h
    obtain ⟨I, _, h⟩ := Traced.bind_result_eq_ok.mp h
    dsimp only at h
    split at h
    · cases h
    · next hd =>
      cases h
      exact hkept I hd
  | succ retries ih =>
    rw [master, hgroup] at h
    obtain ⟨I, _, h⟩ := Traced.bind_result_eq_ok.mp h
    dsimp only at h
    split at h
    · exact ih h
    · next hd =>
      cases h
      exact hkept I hd

/-- A child of a private key is a private key. -/
theorem isPrivate_of_childOf {parent : ExtendedKey} {i : UInt32} {data : Bytes} {retries : ℕ}
    {child : ExtendedKey}
    (h : (childOf libs.hmacSha512 (ecdsaCurve libs curve) parent i data retries).result
      = .ok child) :
    IsPrivate libs curve child.k := by
  have hpos : 0 < (ecdsaGroup libs curve).n := by
    have hbits := (hl.order_bits curve).1
    show 0 < libs.order curve
    omega
  induction retries generalizing data with
  | zero =>
    rw [childOf_ecdsa] at h
    obtain ⟨I, _, h⟩ := Traced.bind_result_eq_ok.mp h
    split at h
    · cases h
    · next hd =>
      cases h
      exact ⟨fun hzero => hd (Or.inr hzero), Nat.mod_lt _ hpos⟩
  | succ retries ih =>
    rw [childOf_ecdsa] at h
    obtain ⟨I, _, h⟩ := Traced.bind_result_eq_ok.mp h
    split at h
    · exact ih h
    · next hd =>
      cases h
      exact ⟨fun hzero => hd (Or.inr hzero), Nat.mod_lt _ hpos⟩

omit hl in
/-- The keys from which a path takes a hardened step fill 32 bytes. -/
def LongSteps (libs : Libraries) (curve : CurveName) (retries : ℕ) (parent : ExtendedKey) :
    List UInt32 → Prop
  | [] => True
  | i :: path => (isHard i = true → 256 ^ 31 ≤ parent.k)
    ∧ ∀ child, (CKDpriv libs.hmacSha512 (ecdsaCurve libs curve) retries parent i).result = .ok child →
      LongSteps libs curve retries child path

/-- **A path agrees with the standard just where its hardened steps start from long keys.** -/
theorem derivePath_extended_iff {retries : ℕ} {key : ECDSA.PrivateKey}
    (hkey : IsPrivate libs curve key.priv) (path : List UInt32) :
    (key.derivePath libs retries curve path >>= fun key => return key.extended)
        = descend libs.hmacSha512 (ecdsaCurve libs curve) retries key.extended path
      ↔ LongSteps libs curve retries key.extended path := by
  induction path generalizing key with
  | nil =>
    rw [ECDSA.PrivateKey.derivePath, descend, LongSteps]
    exact iff_of_true rfl trivial
  | cons i path ih =>
    rw [ECDSA.PrivateKey.derivePath, descend, LongSteps, Traced.bind_assoc]
    by_cases hdata : ECDSA.deriveData libs curve key i = stepData libs curve key.extended i
    · have hlong := (deriveData_eq_iff hl curve key i hkey).mp hdata
      -- The rest of the path as a continuation of the extended key.
      have hrest : (key.derive libs retries curve i >>= fun child =>
            child.derivePath libs retries curve path >>= fun key => return key.extended)
          = CKDpriv libs.hmacSha512 (ecdsaCurve libs curve) retries key.extended i >>= fun child =>
            (⟨child.k, child.c⟩ : ECDSA.PrivateKey).derivePath libs retries curve path
              >>= fun key => return key.extended := by
        rw [← derive_extended hl curve hdata, Traced.bind_assoc]
        rfl
      rw [hrest, Traced.bind_eq_bind_iff]
      constructor
      · intro h
        refine ⟨hlong, ?_⟩
        intro child hchild
        have hprivate := hchild
        rw [CKDpriv_ecdsa] at hprivate
        exact (@ih ⟨child.k, child.c⟩ (isPrivate_of_childOf hl curve hprivate)).mp (h child hchild)
      · rintro ⟨_, h⟩ child hchild
        have hprivate := hchild
        rw [CKDpriv_ecdsa] at hprivate
        exact (@ih ⟨child.k, child.c⟩ (isPrivate_of_childOf hl curve hprivate)).mpr (h child hchild)
    · refine iff_of_false (derive_bind_ne curve hdata _ _) ?_
      rintro ⟨hlong, _⟩
      exact hdata ((deriveData_eq_iff hl curve key i hkey).mpr hlong)

/-- The keys along a path of a private key are private keys. -/
theorem isPrivate_of_descend {retries : ℕ} {parent : ExtendedKey} (hparent : IsPrivate libs curve parent.k)
    {path : List UInt32} {last : ExtendedKey}
    (h : (descend libs.hmacSha512 (ecdsaCurve libs curve) retries parent path).result = .ok last) :
    IsPrivate libs curve last.k := by
  induction path generalizing parent with
  | nil =>
    rw [descend] at h
    cases h
    exact hparent
  | cons i path ih =>
    rw [descend] at h
    obtain ⟨child, hchild, h⟩ := Traced.bind_result_eq_ok.mp h
    rw [CKDpriv_ecdsa] at hchild
    exact ih (isPrivate_of_childOf hl curve hchild) h

end ecdsa

/-! ## Ed25519 -/

/-- A key as an extended key. -/
def Ed25519.PrivateKey.extended (key : Ed25519.PrivateKey) : ExtendedKey :=
  ⟨beValue key.seed, key.chainCode⟩

/-- Ed25519 of the standard. -/
def ed25519Curve : Curve where
  key := utf8Encode (js "ed25519 seed")
  group := none

section ed25519

variable {libs : Libraries} (hl : libs.Lawful)

include hl

/-- The seed of the key of a sum is its first half. -/
theorem seed_ofSum {call : HmacCall} {sum : Bytes} (hsum : libs.hmacSha512 call = sum) :
    (Ed25519.PrivateKey.ofSum libs sum).seed = sum.take 32 ∧ (sum.take 32).length = 32 := by
  have hlength : (sum.take 32).length = 32 := by
    rw [List.length_take, ← hsum, hl.length_hmacSha512]
    rfl
  exact ⟨hl.take_secretKeyFromSeed _ hlength, hlength⟩

omit hl in
/-- A key of 32 bytes is the serialised number. -/
theorem seed_eq_ser256 {key : Ed25519.PrivateKey} (hlength : key.seed.length = 32) :
    key.seed = ser256 key.extended.k := by
  have hbytes := beBytes_beValue key.seed
  rw [hlength] at hbytes
  exact hbytes.symm

omit hl in
/-- The data of a step are those of the standard. -/
theorem ed25519_data {key : Ed25519.PrivateKey} (hlength : key.seed.length = 32) (i : UInt32) :
    set (set (List.replicate 37 0) key.seed 1) (uint32Bytes i) 33
      = 0x00 :: ser256 key.extended.k ++ ser32 i := by
  have hset : (set (List.replicate 37 0) key.seed 1).length = 37 := by
    rw [length_set (by rw [hlength, List.length_replicate]; omega), List.length_replicate]
  have hfront : (List.replicate 37 (0x00 : UInt8)).take 1 ++ key.seed = 0x00 :: key.seed := rfl
  have htake : (0x00 :: key.seed).length = 33 := by rw [List.length_cons, hlength]
  rw [set_index hset, set, hfront, List.take_left' htake, seed_eq_ser256 hlength]

/-- **A path agrees with the standard**, and so does what follows it. -/
theorem ed25519_derivePath {retries : ℕ} {key : Ed25519.PrivateKey} (hlength : key.seed.length = 32)
    (path : List UInt32) {α : Type} {f : Ed25519.PrivateKey → Hmac α} {g : ExtendedKey → Hmac α}
    (hfg : ∀ key : Ed25519.PrivateKey, key.seed.length = 32 → f key = g key.extended) :
    (key.derivePath libs path >>= f)
      = (descend libs.hmacSha512 ed25519Curve retries key.extended path >>= g) := by
  induction path generalizing key with
  | nil => exact hfg key hlength
  | cons i path ih =>
    rw [Ed25519.PrivateKey.derivePath, descend, Traced.bind_assoc, Traced.bind_assoc,
      Ed25519.PrivateKey.derive, CKDpriv, childData]
    cases hi : isHard i with
    | false => rfl
    | true =>
      rw [Bool.not_true, if_neg Bool.false_ne_true, if_pos rfl, Traced.bind_assoc,
        ed25519_data hlength]
      dsimp only
      rw [childOf, Traced.bind_assoc]
      apply Traced.bind_eq_bind_iff.mpr
      intro sum hsum
      obtain ⟨hseed, hlength⟩ := seed_ofSum hl (Except.ok.inj hsum)
      have hrest := @ih (Ed25519.PrivateKey.ofSum libs sum) (by rw [hseed, hlength])
      have hextended : (Ed25519.PrivateKey.ofSum libs sum).extended
          = ⟨parse256 (sum.take 32), sum.drop 32⟩ := by
        rw [Ed25519.PrivateKey.extended, hseed]
        rfl
      rw [hextended] at hrest
      exact hrest

end ed25519

/-! ## Texts of paths -/

/-- The text of a path. -/
def pathText (path : List UInt32) : JSString :=
  [47].intercalate (path.map fun index => natText index.toNat)

/-- The numeral of an index is read as that index. -/
theorem pathIndex_natText (index : UInt32) : pathIndex (natText index.toNat) = index := by
  have hlast : ¬(natText index.toNat).getLast? ∈ [some (39 : UInt16), some 104, some 72] := by
    intro h
    have hdigit : ∀ c ∈ natText index.toNat, c ≠ 39 ∧ c ≠ 104 ∧ c ≠ 72 := by
      intro c hc
      obtain ⟨d, hd, rfl⟩ := numberText_digits (by omega) hc
      have hall : ∀ d : Fin 10, digitChar d.val ≠ 39 ∧ digitChar d.val ≠ 104
          ∧ digitChar d.val ≠ 72 := by decide
      exact hall ⟨d, hd⟩
    cases hl : (natText index.toNat).getLast? with
    | none => simp [hl] at h
    | some c =>
      have hc := hdigit c (List.mem_of_getLast? hl)
      simp [hl, hc] at h
  have hlt : index.toNat < 2 ^ 32 := index.toNat_lt
  have hparse : parseIndex (natText index.toNat) = some (index.toNat : ℤ) := by
    have hsign := Int.sign_mul_natAbs (index.toNat : ℤ)
    rw [Int.natAbs_natCast] at hsign
    rw [parseIndex, parseInt_of_decimal (decimalValue_natText _), Option.map_some, Int.natAbs_natCast,
      nearestDouble_of_lt (by omega), hsign]
  have huint : toUint32 (index.toNat : ℤ) = index := by
    rw [toUint32]
    have hmod : ((index.toNat : ℤ) % 2 ^ 32).toNat = index.toNat := by omega
    rw [hmod, UInt32.ofNat_toNat]
  rw [pathIndex]
  simp [hlast, hparse, huint]

/-- **Every path has a text.** -/
theorem fromString_pathText (path : List UInt32) : Path.fromString (pathText path) = .ok path := by
  have hdigit : ∀ index : UInt32, ∀ c ∈ natText index.toNat, c ≠ 47 ∧ c ≠ 109 := by
    intro index c hc
    obtain ⟨d, hd, rfl⟩ := numberText_digits (by omega) hc
    have hall : ∀ d : Fin 10, digitChar d.val ≠ 47 ∧ digitChar d.val ≠ 109 := by decide
    exact hall ⟨d, hd⟩
  cases hpath : path with
  | nil => rfl
  | cons index rest =>
    rw [← hpath]
    have hne : path ≠ [] := by simp [hpath]
    have hsplit : splitSlash (pathText path) = path.map fun index => natText index.toNat := by
      refine List.splitOn_intercalate 47 ?_ ?_
      · intro part hpart hslash
        obtain ⟨index, _, rfl⟩ := List.mem_map.mp hpart
        exact (hdigit index 47 hslash).1 rfl
      · simpa using hne
    have hlength : ¬(pathText path).length = 0 := by
      intro h
      rw [List.length_eq_zero_iff.mp h] at hsplit
      rw [hpath] at hsplit
      exact numberText_ne_nil 10 index.toNat (List.cons.inj hsplit).1.symm
    have hm : ¬(path.map fun index => natText index.toNat).head? = some (js "m") := by
      rw [hpath, List.map_cons, List.head?_cons, Option.some.injEq]
      intro h
      have hmem : (109 : UInt16) ∈ natText index.toNat := by
        rw [h]
        decide
      exact (hdigit index 109 hmem).2 rfl
    rw [Path.fromString, if_neg hlength, hsplit]
    dsimp only
    rw [if_neg hm]
    clear hsplit hlength hm hne hpath
    induction path with
    | nil => rfl
    | cons index path ih =>
      have hpart : ¬(natText index.toNat).length = 0 := fun h =>
        numberText_ne_nil 10 index.toNat (List.length_eq_zero_iff.mp h)
      rw [List.map_cons, List.mapM_cons, ih, if_neg hpart, pathIndex_natText]
      rfl

/-! ## The claim of the standard -/

/-- The curves of a derivation. -/
inductive DerivationCurve where
  | ed25519
  | ecdsa (curve : CurveName)

/-- Its name in `generateSecretKey`. -/
def DerivationCurve.name : DerivationCurve → Curves
  | .ed25519 => .ed25519
  | .ecdsa .secp256k1 => .secp256k1
  | .ecdsa .p256 => .p256

/-- Its curve in the standard. -/
def DerivationCurve.standard (libs : Libraries) : DerivationCurve → Curve
  | .ed25519 => ed25519Curve
  | .ecdsa curve => ecdsaCurve libs curve

/-- The prefix of its secret keys. -/
def DerivationCurve.pref : DerivationCurve → Bytes
  | .ed25519 => edsk2
  | .ecdsa .secp256k1 => spsk
  | .ecdsa .p256 => p2sk

/-- `PrivateKey.fromSeed(seed).derivePath(path)`, as an extended key. -/
def DerivationCurve.derivePath (libs : Libraries) (retries : ℕ) (seed : Bytes)
    (path : List UInt32) : DerivationCurve → Hmac ExtendedKey
  | .ed25519 => do
    let key ← Ed25519.PrivateKey.fromSeed libs seed
    let key ← key.derivePath libs path
    return key.extended
  | .ecdsa curve => do
    let key ← ECDSA.PrivateKey.fromSeed libs retries seed curve
    let key ← key.derivePath libs retries curve path
    return key.extended

/-- The derivation asks what the standard asks and comes to its key, and the secret key encodes the
32 bytes of that. -/
structure Agrees (libs : Libraries) (curve : DerivationCurve) (seed : Bytes) (path : List UInt32) :
    Prop where
  derived : ∀ retries, curve.derivePath libs retries seed path
    = derive libs.hmacSha512 (curve.standard libs) retries seed path
  secretKey : ∀ retries text, Path.fromString text = .ok path →
    generateSecretKey libs retries seed text curve.name = (do
      let key ← derive libs.hmacSha512 (curve.standard libs) retries seed path
      return b58cencode libs (ser256 key.k) curve.pref)

/-- No key from which the path takes a hardened step begins with a zero byte, nor does the last. -/
def NoLeadingZero (libs : Libraries) (curve : CurveName) (seed : Bytes) (path : List UInt32) : Prop :=
  ∀ retries key, (master libs.hmacSha512 (ecdsaCurve libs curve) seed retries).result = .ok key →
    LongSteps libs curve retries key path
      ∧ ∀ last, (descend libs.hmacSha512 (ecdsaCurve libs curve) retries key path).result = .ok last →
        256 ^ 31 ≤ last.k

section agreement

variable {libs : Libraries} (hl : libs.Lawful) {seed : Bytes} (hmin : 16 ≤ seed.length)
  (hmax : seed.length ≤ 64)

include hl hmin hmax

/-- The master key of an accepted seed. -/
theorem fromSeed_eq (retries : ℕ) (curve : CurveName) :
    ECDSA.PrivateKey.fromSeed libs retries seed curve
      = ECDSA.fromSeedLoop libs curve seed retries := by
  have hseed : ¬(seed.length < minSeedSize ∨ seed.length > maxSeedSize) := by
    rw [minSeedSize, maxSeedSize]
    omega
  have hsize : (libs.order curve).size = 256 := by
    obtain ⟨hge, hlt⟩ := hl.order_bits curve
    refine le_antisymm (Nat.size_le.mpr hlt) ?_
    exact Nat.lt_size.mpr hge
  rw [ECDSA.PrivateKey.fromSeed, if_neg hseed, if_neg (not_not.mpr hsize)]

/-- A derivation on an ECDSA curve, from the master key of the standard. -/
theorem ecdsa_derivation (retries : ℕ) (curve : CurveName) {α : Type}
    (f : ECDSA.PrivateKey → Hmac α) :
    (ECDSA.PrivateKey.fromSeed libs retries seed curve >>= f)
      = master libs.hmacSha512 (ecdsaCurve libs curve) seed retries >>= fun key => f ⟨key.k, key.c⟩ := by
  rw [fromSeed_eq hl hmin hmax, ← fromSeedLoop_extended, Traced.bind_assoc]
  rfl

/-- The derived key is that of the standard just where the hardened steps start from long keys. -/
theorem derived_iff (curve : CurveName) (path : List UInt32) (retries : ℕ) :
    (DerivationCurve.ecdsa curve).derivePath libs retries seed path
        = derive libs.hmacSha512 (ecdsaCurve libs curve) retries seed path
      ↔ ∀ key, (master libs.hmacSha512 (ecdsaCurve libs curve) seed retries).result = .ok key →
        LongSteps libs curve retries key path := by
  rw [DerivationCurve.derivePath, derive, ecdsa_derivation hl hmin hmax, Traced.bind_eq_bind_iff]
  refine forall_congr' fun key => forall_congr' fun hkey => ?_
  exact @derivePath_extended_iff libs hl curve retries ⟨key.k, key.c⟩
    (isPrivate_of_master curve hkey) path

omit hmin hmax in
/-- The secret key encodes the key of the standard, where the derived key is that, just where the
last key is long. -/
theorem ecdsaSecretKey_iff (curve : CurveName) (path : List UInt32) (pref : Bytes) (retries : ℕ)
    (hderived : (DerivationCurve.ecdsa curve).derivePath libs retries seed path
      = derive libs.hmacSha512 (ecdsaCurve libs curve) retries seed path) :
    ecdsaSecretKey libs retries seed path curve pref = (do
        let key ← derive libs.hmacSha512 (ecdsaCurve libs curve) retries seed path
        return b58cencode libs (ser256 key.k) pref)
      ↔ ∀ key, (master libs.hmacSha512 (ecdsaCurve libs curve) seed retries).result = .ok key →
        ∀ last, (descend libs.hmacSha512 (ecdsaCurve libs curve) retries key path).result = .ok last →
          256 ^ 31 ≤ last.k := by
  have hcode : ecdsaSecretKey libs retries seed path curve pref = (do
      let key ← (DerivationCurve.ecdsa curve).derivePath libs retries seed path
      return b58cencode libs (libs.toArray key.k) pref) := by
    rw [DerivationCurve.derivePath, Traced.bind_assoc, ecdsaSecretKey]
    simp only [Traced.bind_assoc]
    rfl
  rw [hcode, hderived, derive, Traced.bind_assoc, Traced.bind_assoc, Traced.bind_eq_bind_iff]
  refine forall_congr' fun key => forall_congr' fun hkey => ?_
  rw [Traced.bind_eq_bind_iff]
  refine forall_congr' fun last => forall_congr' fun hlast => ?_
  have hprivate := isPrivate_of_descend hl curve (isPrivate_of_master curve hkey) hlast
  have hlt : last.k < 256 ^ 32 := hprivate.lt_order.trans (hl.order_bits curve).2
  constructor
  · intro heq
    by_contra hshort
    have htext : b58cencode libs (libs.toArray last.k) pref = b58cencode libs (ser256 last.k) pref :=
      Except.ok.inj (congrArg Traced.result heq)
    have hdecoded := hl.b58.decode_encode (pref ++ libs.toArray last.k)
    rw [show libs.b58.encode (pref ++ libs.toArray last.k)
      = libs.b58.encode (pref ++ ser256 last.k) from htext, hl.b58.decode_encode] at hdecoded
    have hbytes := List.append_cancel_left (Option.some.inj hdecoded)
    have hhead := head_toArray_ne_ser256 hl hprivate.ne_zero (not_le.mp hshort) []
    rw [List.append_nil, ← hbytes] at hhead
    exact hhead rfl
  · intro hlong
    rw [toArray_eq_ser256 hl hlong hlt]

/-- Ed25519 agrees with the standard on every path. -/
theorem ed25519_agrees (path : List UInt32) : Agrees libs .ed25519 seed path := by
  have hseed : ¬(seed.length < minSeedSize ∨ seed.length > maxSeedSize) := by
    rw [minSeedSize, maxSeedSize]
    omega
  have hrun : ∀ (retries : ℕ) {α : Type} {f : Ed25519.PrivateKey → Hmac α} {g : ExtendedKey → Hmac α},
      (∀ key : Ed25519.PrivateKey, key.seed.length = 32 → f key = g key.extended) →
      (Ed25519.PrivateKey.fromSeed libs seed >>= fun key => key.derivePath libs path >>= f)
        = (derive libs.hmacSha512 ed25519Curve retries seed path >>= g) := by
    intro retries α f g hfg
    have hmaster : master libs.hmacSha512 ed25519Curve seed retries
        = Traced.ask libs.hmacSha512 ⟨utf8Encode (js "ed25519 seed"), seed⟩ >>= fun I =>
          return ⟨parse256 (I.take 32), I.drop 32⟩ := by
      cases retries <;> rw [master] <;> rfl
    rw [Ed25519.PrivateKey.fromSeed, if_neg hseed, derive, hmaster]
    simp only [Traced.bind_assoc]
    apply Traced.bind_eq_bind_iff.mpr
    intro sum hsum
    obtain ⟨hsumSeed, hlength⟩ := seed_ofSum hl (Except.ok.inj hsum)
    have hpath := @ed25519_derivePath libs hl retries (Ed25519.PrivateKey.ofSum libs sum)
      (by rw [hsumSeed, hlength]) path α f g hfg
    have hextended : (Ed25519.PrivateKey.ofSum libs sum).extended
        = ⟨parse256 (sum.take 32), sum.drop 32⟩ := by
      rw [Ed25519.PrivateKey.extended, hsumSeed]
      rfl
    rw [hextended] at hpath
    exact hpath
  refine ⟨?_, ?_⟩
  · intro retries
    have h := @hrun retries _ (fun key => return key.extended) (fun key => return key)
      fun _ _ => rfl
    rw [Traced.bind_pure] at h
    exact h
  · intro retries text htext
    rw [generateSecretKey, htext]
    apply hrun
    intro key hlength
    have htake : key.seed.take 32 = key.seed := List.take_of_length_le hlength.le
    rw [htake, seed_eq_ser256 hlength]
    rfl

/-- **A derivation agrees with SLIP-0010 just where, on an ECDSA curve, no key from which the path
takes a hardened step begins with a zero byte, nor does the last.** -/
theorem agrees_iff (curve : DerivationCurve) (path : List UInt32) :
    Agrees libs curve seed path
      ↔ ∀ name, curve = .ecdsa name → NoLeadingZero libs name seed path := by
  cases curve with
  | ed25519 =>
    refine iff_of_true (ed25519_agrees hl hmin hmax path) ?_
    intro name hname
    cases hname
  | ecdsa name =>
    have hgenerate : ∀ retries text, Path.fromString text = .ok path →
        generateSecretKey libs retries seed text (DerivationCurve.ecdsa name).name
          = ecdsaSecretKey libs retries seed path name (DerivationCurve.ecdsa name).pref := by
      intro retries text htext
      rw [generateSecretKey, htext]
      cases name <;> rfl
    have hsecret := @ecdsaSecretKey_iff libs hl seed name path (DerivationCurve.ecdsa name).pref
    constructor
    · rintro ⟨hderived, hkey⟩ _ hname retries key hmaster
      cases hname
      have hderived := hderived retries
      have hkey := hkey retries _ (fromString_pathText path)
      rw [hgenerate retries _ (fromString_pathText path)] at hkey
      exact ⟨(derived_iff hl hmin hmax name path retries).mp hderived key hmaster,
        (hsecret retries hderived).mp hkey key hmaster⟩
    · intro h
      have hderived : ∀ retries, (DerivationCurve.ecdsa name).derivePath libs retries seed path
          = derive libs.hmacSha512 (ecdsaCurve libs name) retries seed path := by
        intro retries
        apply (derived_iff hl hmin hmax name path retries).mpr
        intro key hmaster
        exact (h name rfl retries key hmaster).1
      refine ⟨hderived, ?_⟩
      intro retries text htext
      rw [hgenerate retries text htext]
      apply (hsecret retries (hderived retries)).mpr
      intro key hmaster
      exact (h name rfl retries key hmaster).2

end agreement

/-! ## Seeds -/

/-- The bytes of a number. -/
def minimalBytes (n : ℕ) : Bytes := beBytes (n.log2 / 8 + 1) n

theorem beValue_minimalBytes (n : ℕ) : beValue (minimalBytes n) = n := by
  apply beValue_beBytes
  calc n < 2 ^ (n.log2 + 1) := Nat.lt_log2_self
    _ ≤ 2 ^ (8 * (n.log2 / 8 + 1)) := Nat.pow_le_pow_right (by omega) (by omega)
    _ = 256 ^ (n.log2 / 8 + 1) := pow_mul 2 8 _

theorem head_minimalBytes {n : ℕ} (hn : n ≠ 0) : (minimalBytes n).head? ≠ some 0 := by
  intro hhead
  cases hbs : minimalBytes n with
  | nil =>
    have hvalue := beValue_minimalBytes n
    rw [hbs] at hvalue
    exact hn hvalue.symm
  | cons b bs =>
    rw [hbs, List.head?_cons, Option.some.injEq] at hhead
    have hlength := beBytes_length (n.log2 / 8 + 1) n
    have hvalue := beValue_minimalBytes n
    rw [← minimalBytes, hbs, List.length_cons, Nat.add_right_cancel_iff] at hlength
    rw [hbs, hhead] at hvalue
    -- Without the zero the number is too small for its logarithm.
    have hlt : n < 2 ^ n.log2 := by
      calc n = beValue bs := by
            rw [← hvalue]
            simp [beValue, ofDigitsBE]
        _ < 256 ^ bs.length := beValue_lt bs
        _ = (2 ^ 8) ^ (n.log2 / 8) := by rw [hlength, show 256 = 2 ^ 8 from rfl]
        _ = 2 ^ (8 * (n.log2 / 8)) := (pow_mul 2 8 _).symm
        _ ≤ 2 ^ n.log2 := Nat.pow_le_pow_right (by omega) (by omega)
    exact absurd (Nat.log2_self_le hn) (not_le.mpr hlt)

/-- Sums of HMAC-SHA512. -/
def digests : List (HmacCall × Bytes) :=
  [(⟨utf8Encode (js "Bitcoin seed"), bufferFromHex (js "000102030405060708090a0b0c0d0e0f")⟩,
      bufferFromHex (js "e8f32e723decf4051aefac8e2c93c9c5b214313817cdb01a1494b917c8436b35"
        ++ js "873dff81c02f525623fd1fe5167eac3a55a049de3d314bb42ee227ffed37d508")),
    (⟨utf8Encode (js "Bitcoin seed"), bufferFromHex (js "000102030405060708090a0b0c0d0eee")⟩,
      bufferFromHex (js "00c45c3834a9d7037df7f96e740debd2ec934b2d71a2457c9730ae0c0630ce1a"
        ++ js "b3ac0a5461f3aa11d46b3290294bf8eb6d2f278af25359526807ccdc28d4501d")),
    (⟨bufferFromHex (js "b3ac0a5461f3aa11d46b3290294bf8eb6d2f278af25359526807ccdc28d4501d"),
        bufferFromHex (js "0000c45c3834a9d7037df7f96e740debd2ec934b2d71a2457c9730ae0c0630ce1a8000002c")⟩,
      bufferFromHex (js "f8d3b398369878265681507b34d73d92d667ed96528bcc43b570620f8668649f"
        ++ js "8f7260d26bb5350ec987c4e4dd7c09e9065934c3209afa6b33cf8d0bf86d9c10")),
    (⟨bufferFromHex (js "b3ac0a5461f3aa11d46b3290294bf8eb6d2f278af25359526807ccdc28d4501d"),
        bufferFromHex (js "00c45c3834a9d7037df7f96e740debd2ec934b2d71a2457c9730ae0c0630ce1a008000002c")⟩,
      bufferFromHex (js "443fd99ef981bfa5e96ca3eec9c5e4f07b7143e600de61eb31ba8f4226b515fe"
        ++ js "ca4fd6cd29baf98dcf8edabc6b6cbb28d9ba1cb681ed1405ba236fcc6702996f"))]

/-- Libraries with these sums, and the orders of the curves. -/
def sampleLibraries : Libraries where
  hmacSha512 call := (digests.lookup call).getD (List.replicate 64 0)
  toArray := minimalBytes
  order
    | .secp256k1 => 0xFFFFFFFFFFFFFFFFFFFFFFFFFFFFFFFEBAAEDCE6AF48A03BBFD25E8CD0364141
    | .p256 => 0xFFFFFFFF00000000FFFFFFFFFFFFFFFFBCE6FAADA7179E84F3B9CAC2FC632551
  encodeCompressed _ priv := 0x02 :: beBytes 32 priv
  secretKeyFromSeed seed := seed ++ List.replicate 32 0
  b58 := Base58Check.hex

theorem lawful_sampleLibraries : sampleLibraries.Lawful where
  length_hmacSha512 call := by
    have hall : ∀ entry ∈ digests, entry.2.length = 64 := by decide
    show ((digests.lookup call).getD (List.replicate 64 0)).length = 64
    cases hlookup : digests.lookup call with
    | none => rw [Option.getD_none, List.length_replicate]
    | some sum =>
      obtain ⟨before, after, hdigests, _⟩ := List.lookup_eq_some_iff.mp hlookup
      exact hall (call, sum) (by rw [hdigests]; simp)
  beValue_toArray := beValue_minimalBytes
  head_toArray _ hn := head_minimalBytes hn
  order_bits curve := by cases curve <;> decide
  length_encodeCompressed _ _ := by simp [sampleLibraries]
  take_secretKeyFromSeed seed hlength := List.take_left' hlength
  b58 := Base58Check.lawful_hex

/-- The seed of a test of the repository, whose master key is long. -/
theorem agrees_iff_testSeed :
    Agrees sampleLibraries (.ecdsa .secp256k1)
      (bufferFromHex (js "000102030405060708090a0b0c0d0e0f")) [] := by
  apply (agrees_iff lawful_sampleLibraries (by decide) (by decide) _ _).mpr
  intro name hname retries key hkey
  cases hname
  have hkept := master_of_kept sampleLibraries.hmacSha512 (ecdsaCurve sampleLibraries .secp256k1)
    (S := bufferFromHex (js "000102030405060708090a0b0c0d0e0f")) retries (by decide)
  rw [hkept] at hkey
  refine ⟨trivial, ?_⟩
  intro last hlast
  cases hlast
  cases hkey
  decide

/-- A seed whose master key begins with a zero byte: the hardened child is another key than that of
the standard. -/
theorem not_agrees_shortSeed :
    ((DerivationCurve.ecdsa .secp256k1).derivePath sampleLibraries 0
        (bufferFromHex (js "000102030405060708090a0b0c0d0eee")) [0x8000002c]).result.toOption.map
          (fun key => key.k)
        = some 0x450435d72e2b96a967649d5d3dd3d0c368048f137280a767c8eb3d4e2ce5e418
      ∧ (derive sampleLibraries.hmacSha512 (ecdsaCurve sampleLibraries .secp256k1) 0
        (bufferFromHex (js "000102030405060708090a0b0c0d0eee")) [0x8000002c]).result.toOption.map
          (fun key => key.k)
        = some 0xf9980fd06b424f29d47949e9a8e52965c2fb38c3c42e11c04ca1101b8c9932b9 := by
  decide +kernel

end Signer
