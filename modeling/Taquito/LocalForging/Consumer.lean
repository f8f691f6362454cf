import Taquito.LocalForging.MichelsonCodec

/-!
# The consumer as an object

`Uint8ArrayConsumer` is an array with an offset. The decoders only move the offset forward, which is
why they are readers of the octets that are left (`consume_remaining`);
`stripLengthPrefixFromBytes` also slices the array, from its start and not from the offset.
-/

open Js Micheline

namespace LocalForging

/-- `Uint8ArrayConsumer`. -/
structure Uint8ArrayConsumer where
  arr : Bytes
  offset : ℕ
  deriving DecidableEq, Repr

namespace Uint8ArrayConsumer

/-- `consume(count)`, with the consumer that it leaves behind. -/
def consume (c : Uint8ArrayConsumer) (count : ℕ) :
    Except ForgeError (Bytes × Uint8ArrayConsumer) :=
  let subArr := (c.arr.drop c.offset).take count
  if subArr.length ≠ count then .error (notEnough count subArr.length)
  else .ok (subArr, ⟨c.arr, c.offset + count⟩)

/-- `length()`: negative for an offset behind the end of the array. -/
def length (c : Uint8ArrayConsumer) : ℤ := c.arr.length - c.offset

/-- `slice(start)`: of the array, and not of the octets that are left. -/
def slice (c : Uint8ArrayConsumer) (start : ℕ) : Uint8ArrayConsumer := ⟨c.arr.drop start, 0⟩

/-- The octets that are left. -/
def remaining (c : Uint8ArrayConsumer) : Bytes := c.arr.drop c.offset

@[simp] theorem remaining_zero (bs : Bytes) : remaining ⟨bs, 0⟩ = bs := rfl

/-- **A consumer is what it has left**: `consume` is the reader `LocalForging.consume` of it. -/
theorem consume_remaining (c : Uint8ArrayConsumer) (count : ℕ) :
    LocalForging.consume count c.remaining =
      (c.consume count).map fun p => (p.1, p.2.remaining) := by
  unfold LocalForging.consume Reader.take consume remaining
  dsimp only
  rw [List.length_take]
  by_cases hshort : (c.arr.drop c.offset).length < count
  · rw [if_pos hshort, if_pos (by omega), min_eq_right hshort.le]
    rfl
  · rw [if_neg hshort, if_neg (by omega), List.drop_drop]
    rfl

theorem consume_eq_ok {c c' : Uint8ArrayConsumer} {count : ℕ} {bs : Bytes}
    (h : c.consume count = .ok (bs, c')) :
    c.remaining = bs ++ c'.remaining ∧ bs.length = count ∧ c' = ⟨c.arr, c.offset + count⟩ := by
  have hread := consume_remaining c count
  rw [h] at hread
  obtain ⟨hrest, hlength⟩ := Reader.take_eq_ok hread
  refine ⟨hrest, hlength, ?_⟩
  unfold consume at h
  dsimp only at h
  split at h
  · cases h
  · exact (Prod.mk.inj (Except.ok.inj h)).2.symm

end Uint8ArrayConsumer

/-- The loop of `stripLengthPrefixFromBytes`: `ret` is what it has so far. -/
def stripLengthPrefixLoop (bytesLength : ℕ) :
    ℕ → Uint8ArrayConsumer → List Bytes → Except ForgeError (List Bytes)
  | 0, _, _ => .error .outOfFuel
  | fuel + 1, values, ret =>
    if values.length = 0 then .ok ret
    else do
      let (len, values) ← values.consume bytesLength
      let valueLen := ((parseInt 16 (toHex len)).getD 0).toNat
      let (item, values) ← values.consume valueLen
      stripLengthPrefixLoop bytesLength fuel (values.slice (valueLen + bytesLength)) (ret ++ [item])

/-- `stripLengthPrefixFromBytes(value, bytesLength)`: a round makes the array shorter by the length
prefix at least. -/
def stripLengthPrefixFromBytes (bytesLength : ℕ) (value : Uint8ArrayConsumer) :
    Except ForgeError (List Bytes) :=
  stripLengthPrefixLoop bytesLength (value.arr.length + 1) value []

end LocalForging
