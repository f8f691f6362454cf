import Taquito.Signer.Derivation

/-!
# SLIP-0010

The derivation that the standard defines, over abstract curves: the master key of a seed and the
children of a key, with the retries where half of a sum is no key.
-/

open BigEndian

namespace Signer.Slip10

/-- The group of a curve: its order, and the serialised public point of a private key. -/
structure Group where
  n : ℕ
  serP : ℕ → Bytes

/-- A curve: the key of its master sum, and its group unless it is Ed25519. -/
structure Curve where
  key : Bytes
  group : Option Group

/-- An extended private key. -/
@[ext]
structure ExtendedKey where
  k : ℕ
  c : Bytes

/-- `ser₂₅₆`. -/
def ser256 (p : ℕ) : Bytes := beBytes 32 p

/-- `ser₃₂`. -/
def ser32 (i : UInt32) : Bytes := beBytes 4 i.toNat

/-- `parse₂₅₆`. -/
def parse256 (p : Bytes) : ℕ := beValue p

variable (hmacSha512 : HmacCall → Bytes) (curve : Curve)

/-- The master key of a seed. -/
def master (S : Bytes) (retries : ℕ) : Hmac ExtendedKey := do
  let I ← Traced.ask hmacSha512 ⟨curve.key, S⟩
  let IL := parse256 (I.take 32)
  if curve.group.any fun group => IL = 0 ∨ IL ≥ group.n then
    match retries with
    | 0 => Traced.stop .outOfRetries
    | retries + 1 => master I retries
  else return ⟨IL, I.drop 32⟩

/-- A sum that is kept is the master key. -/
theorem master_of_kept {S : Bytes} (retries : ℕ)
    (hkept : (curve.group.any fun group =>
      parse256 ((hmacSha512 ⟨curve.key, S⟩).take 32) = 0
        ∨ parse256 ((hmacSha512 ⟨curve.key, S⟩).take 32) ≥ group.n) = false) :
    master hmacSha512 curve S retries
      = ⟨[⟨curve.key, S⟩], .ok ⟨parse256 ((hmacSha512 ⟨curve.key, S⟩).take 32),
        (hmacSha512 ⟨curve.key, S⟩).drop 32⟩⟩ := by
  cases retries <;>
  · rw [master, Traced.ask_bind]
    dsimp only
    rw [if_neg (by rw [hkept]; exact Bool.false_ne_true)]
    rfl

/-- The child key of the sum of some data. -/
def childOf (parent : ExtendedKey) (i : UInt32) (data : Bytes) (retries : ℕ) : Hmac ExtendedKey := do
  let I ← Traced.ask hmacSha512 ⟨parent.c, data⟩
  let IL := parse256 (I.take 32)
  match curve.group with
  | none => return ⟨IL, I.drop 32⟩
  | some group =>
    if IL ≥ group.n ∨ (IL + parent.k) % group.n = 0 then
      match retries with
      | 0 => Traced.stop .outOfRetries
      | retries + 1 => childOf parent i (0x01 :: I.drop 32 ++ ser32 i) retries
    else return ⟨(IL + parent.k) % group.n, I.drop 32⟩

/-- The data of the child of an index; there is none where an index of Ed25519 is not hardened. -/
def childData (parent : ExtendedKey) (i : UInt32) : Option Bytes :=
  if isHard i then some (0x00 :: ser256 parent.k ++ ser32 i)
  else curve.group.map fun group => group.serP parent.k ++ ser32 i

/-- `CKDpriv`. -/
def CKDpriv (retries : ℕ) (parent : ExtendedKey) (i : UInt32) : Hmac ExtendedKey :=
  match childData curve parent i with
  | none => Traced.stop .InvalidDerivationPathError
  | some data => childOf hmacSha512 curve parent i data retries

/-- The key at the end of a path. -/
def descend (retries : ℕ) (parent : ExtendedKey) : List UInt32 → Hmac ExtendedKey
  | [] => return parent
  | i :: path => do
    let child ← CKDpriv hmacSha512 curve retries parent i
    descend retries child path

/-- The key of a seed and a path. -/
def derive (retries : ℕ) (seed : Bytes) (path : List UInt32) : Hmac ExtendedKey := do
  let key ← master hmacSha512 curve seed retries
  descend hmacSha512 curve retries key path

end Signer.Slip10
