import Taquito.Ledger.Utils
import Taquito.Lib.Loops

/-!
# Derivation paths

`Path.fromString` of the signer and `transformPathToBuffer` of the signer for the Ledger read the
numbers of a path with `parseInt`, which takes the digits at the beginning of a text. `Denotes` is
the grammar of the paths, `ReadsPath` the claim that the first reads just these and that the second
agrees with it, and `readsPath_iff` says for which texts this is so.

`fromString` throws for an empty component only: its test for `NaN` comes after `>>> 0`, which
makes a number of it. `transformPathToBuffer` knows one of the three marks, and counts the
components in one byte.
-/

open Js BigEndian Signer

namespace Ledger

/-! ## The paths -/

/-- A component of a path: a decimal numeral below `2 ^ 31`, which one of the marks may follow. -/
inductive Component (marks : List UInt16) : JSString → UInt32 → Prop where
  | normal {ds : JSString} {v : ℕ} (h : digitsValue 10 ds = some v) (hv : v < 2 ^ 31) :
    Component marks ds (UInt32.ofNat v)
  | hardened {ds : JSString} {v : ℕ} {mark : UInt16} (h : digitsValue 10 ds = some v)
    (hv : v < 2 ^ 31) (hmark : mark ∈ marks) :
    Component marks (ds ++ [mark]) (UInt32.ofNat (v + 2 ^ 31))

/-- The marks of a hardened component: `'`, `h` and `H`. -/
def hardeningMarks : List UInt16 := [39, 104, 72]

/-- Components with `/` between them. -/
def joined (parts : List JSString) : JSString := [47].intercalate parts

/-- The indices that a path denotes. -/
inductive Denotes : JSString → List UInt32 → Prop where
  | empty : Denotes [] []
  | root : Denotes (js "m") []
  | relative {parts : List JSString} {path : List UInt32} (hne : parts ≠ [])
    (h : List.Forall₂ (Component hardeningMarks) parts path) : Denotes (joined parts) path
  | absolute {parts : List JSString} {path : List UInt32} (hne : parts ≠ [])
    (h : List.Forall₂ (Component hardeningMarks) parts path) :
    Denotes (js "m/" ++ joined parts) path

/-- A buffer that encodes indices: their number, and four bytes for each. -/
def Encodes (buffer : Bytes) (path : List UInt32) : Prop :=
  ∃ count : UInt8, buffer = count :: path.flatMap uint32Bytes ∧ count.toNat = path.length

/-- **A path is read as what it denotes**, it is rejected if it denotes nothing, and what is read is
encoded for the device. -/
structure ReadsPath (s : JSString) : Prop where
  reads : ∀ path, Path.fromString s = .ok path ↔ Denotes s path
  encodes : ∀ path, Path.fromString s = .ok path →
    ∃ buffer, transformPathToBuffer s = .ok buffer ∧ Encodes buffer path

/-- The components of a path. -/
def components (s : JSString) : List JSString :=
  if (splitSlash s).head? = some (js "m") then (splitSlash s).drop 1 else splitSlash s

/-! ## Components -/

section component

variable {ds p : JSString} {v : ℕ} {marks : List UInt16} {i : UInt32}

theorem isDecimalDigit_mark {mark : UInt16} (h : mark ∈ hardeningMarks) :
    isDecimalDigit mark = false := by
  simp only [hardeningMarks, List.mem_cons, List.not_mem_nil, or_false] at h
  obtain rfl | rfl | rfl := h <;> decide

/-- The numeral before a mark is read. -/
theorem parseIndex_append {rest : JSString} (h : digitsValue 10 ds = some v) (hv : v < 2 ^ 31)
    (hrest : ∀ c ∈ rest.head?, isDecimalDigit c = false) :
    parseIndex (ds ++ rest) = some (v : ℤ) := by
  have hsign := Int.sign_mul_natAbs (v : ℤ)
  rw [Int.natAbs_natCast] at hsign
  rw [parseIndex, parseInt_append h hrest, Option.map_some, Int.natAbs_natCast,
    nearestDouble_of_lt (by omega), hsign]

theorem parseIndex_numeral (h : digitsValue 10 ds = some v) (hv : v < 2 ^ 31) :
    parseIndex ds = some (v : ℤ) := by
  have hread := @parseIndex_append ds v [] h hv fun _ hc => by cases hc
  rwa [List.append_nil] at hread

theorem getLast?_numeral_ne (h : digitsValue 10 ds = some v) {mark : UInt16}
    (hmark : isDecimalDigit mark = false) : ds.getLast? ≠ some mark := by
  intro hlast
  have hdigit := (digits_of_digitsValue h).2 mark (List.mem_of_getLast? hlast)
  rw [hmark] at hdigit
  cases hdigit

theorem toUint32_natCast (v : ℕ) : toUint32 (v : ℤ) = UInt32.ofNat v := by
  apply UInt32.toNat_inj.mp
  rw [toUint32, UInt32.toNat_ofNat', UInt32.toNat_ofNat']
  omega

theorem ofNat_or_hard (hv : v < 2 ^ 31) : UInt32.ofNat v ||| Hard = UInt32.ofNat (v + 2 ^ 31) := by
  apply UInt32.toNat_inj.mp
  have hhard : Hard.toNat = 2 ^ 31 := rfl
  have hor := Nat.two_pow_add_eq_or_of_lt hv 1
  rw [Nat.mul_one] at hor
  rw [UInt32.toNat_or, UInt32.toNat_ofNat', UInt32.toNat_ofNat', hhard,
    Nat.mod_eq_of_lt (by omega), Nat.mod_eq_of_lt (by omega), Nat.lor_comm, ← hor, Nat.add_comm]

theorem pathIndex_numeral (h : digitsValue 10 ds = some v) (hv : v < 2 ^ 31) :
    pathIndex ds = UInt32.ofNat v := by
  have hlast : ds.getLast? ∉ [some (39 : UInt16), some 104, some 72] := by
    simp only [List.mem_cons, List.not_mem_nil, or_false, not_or]
    exact ⟨getLast?_numeral_ne h (by decide), getLast?_numeral_ne h (by decide),
      getLast?_numeral_ne h (by decide)⟩
  rw [pathIndex]
  simp only [hlast, if_false]
  rw [parseIndex_numeral h hv, Option.getD_some, toUint32_natCast]
  exact UInt32.or_zero

theorem pathIndex_marked {mark : UInt16} (h : digitsValue 10 ds = some v) (hv : v < 2 ^ 31)
    (hmark : mark ∈ hardeningMarks) : pathIndex (ds ++ [mark]) = UInt32.ofNat (v + 2 ^ 31) := by
  have hlast : (ds ++ [mark]).getLast? ∈ [some (39 : UInt16), some 104, some 72] := by
    rw [List.getLast?_concat]
    simp only [hardeningMarks, List.mem_cons, List.not_mem_nil, or_false] at hmark
    simpa using hmark
  rw [pathIndex]
  simp only [hlast, if_true]
  rw [List.dropLast_concat, parseIndex_numeral h hv, Option.getD_some, toUint32_natCast,
    ofNat_or_hard hv]

theorem Component.mono {marks' : List UInt16} (h : Component marks p i)
    (hmarks : ∀ mark ∈ marks, mark ∈ marks') : Component marks' p i := by
  cases h with
  | normal h hv => exact .normal h hv
  | hardened h hv hmark => exact .hardened h hv (hmarks _ hmark)

/-- A component is read as the index that it denotes. -/
theorem Component.pathIndex_eq (h : Component hardeningMarks p i) : pathIndex p = i := by
  cases h with
  | normal h hv => exact pathIndex_numeral h hv
  | hardened h hv hmark => exact pathIndex_marked h hv hmark

theorem Component.ne_nil (h : Component marks p i) : p ≠ [] := by
  cases h with
  | normal h _ => exact (digits_of_digitsValue h).1
  | hardened _ _ _ => exact List.concat_ne_nil _ _

/-- A component consists of digits and marks. -/
theorem Component.digit_or_mark (h : Component marks p i) {c : UInt16} (hc : c ∈ p) :
    isDecimalDigit c = true ∨ c ∈ marks := by
  cases h with
  | normal h _ => exact Or.inl ((digits_of_digitsValue h).2 c hc)
  | hardened h _ hmark =>
    obtain hc | hc := List.mem_append.mp hc
    · exact Or.inl ((digits_of_digitsValue h).2 c hc)
    · rw [List.mem_singleton.mp hc]
      exact Or.inr hmark

theorem Component.not_mem_slash (h : Component hardeningMarks p i) : 47 ∉ p := by
  intro hc
  exact absurd (h.digit_or_mark hc) (by decide)

theorem Component.ne_m (h : Component hardeningMarks p i) : p ≠ js "m" := by
  rintro rfl
  exact absurd (h.digit_or_mark (c := 109) (by decide)) (by decide)

end component

/-! ## Components for the device -/

section device

variable {ds p : JSString} {v : ℕ} {i : UInt32}

/-- The index that a component is encoded as for the device. -/
def ledgerIndex (p : JSString) : UInt32 := toUint32 ((elementIndex p).getD 0)

theorem elementIndex_numeral (h : digitsValue 10 ds = some v) (hv : v < 2 ^ 31) :
    elementIndex ds = some (v : ℤ) := by
  rw [elementIndex, parseIndex_numeral h hv, Option.map_some,
    if_neg fun hlast => getLast?_numeral_ne h (by decide) hlast.2]

theorem elementIndex_marked {mark : UInt16} (h : digitsValue 10 ds = some v) (hv : v < 2 ^ 31)
    (hmark : mark ∈ hardeningMarks) :
    elementIndex (ds ++ [mark]) = some (if mark = 39 then (v : ℤ) + 2 ^ 31 else (v : ℤ)) := by
  have hlength : (ds ++ [mark]).length > 1 := by
    have hpos := List.length_pos_of_ne_nil (digits_of_digitsValue h).1
    rw [List.length_append, List.length_singleton]
    omega
  rw [elementIndex, parseIndex_append h hv fun c hc => ?_, Option.map_some, List.getLast?_concat]
  · by_cases hm : mark = 39
    · rw [if_pos hm, if_pos ⟨hlength, congrArg some hm⟩]
    · rw [if_neg hm, if_neg fun h => hm (Option.some.inj h.2)]
  · rw [← Option.some.inj hc]
    exact isDecimalDigit_mark hmark

/-- A component is written as its index for the device. -/
theorem Component.write (h : Component hardeningMarks p i) :
    ∃ z, elementIndex p = some z ∧ writeUInt32BE z = .ok (uint32Bytes (ledgerIndex p)) := by
  have hwrite : ∀ z : ℤ, elementIndex p = some z → 0 ≤ z → z < 2 ^ 32 →
      ∃ z, elementIndex p = some z ∧ writeUInt32BE z = .ok (uint32Bytes (ledgerIndex p)) := by
    intro z hz hnonneg hlt
    refine ⟨z, hz, ?_⟩
    obtain ⟨n, rfl⟩ := Int.eq_ofNat_of_zero_le hnonneg
    rw [writeUInt32BE, if_pos ⟨hnonneg, hlt⟩, uint32Bytes, ledgerIndex, hz, Option.getD_some,
      toUint32_natCast, UInt32.toNat_ofNat', Int.toNat_natCast, Nat.mod_eq_of_lt (by omega)]
  cases h with
  | normal h hv => exact hwrite _ (elementIndex_numeral h hv) (by omega) (by omega)
  | hardened h hv hmark =>
    refine hwrite _ (elementIndex_marked h hv hmark) ?_ ?_
    · split <;> omega
    · split <;> omega

/-- The device is sent the index that a component denotes exactly if the component has no other mark
than `'`. -/
theorem Component.ledgerIndex_eq_iff (h : Component hardeningMarks p i) :
    ledgerIndex p = i ↔ ∃ j, Component [39] p j := by
  cases h with
  | normal h hv =>
    refine iff_of_true ?_ ⟨_, .normal h hv⟩
    rw [ledgerIndex, elementIndex_numeral h hv, Option.getD_some, toUint32_natCast]
  | @hardened ds v mark h hv hmark =>
    rw [ledgerIndex, elementIndex_marked h hv hmark, Option.getD_some]
    by_cases hm : mark = 39
    · refine iff_of_true ?_ ⟨_, .hardened h hv (List.mem_singleton.mpr hm)⟩
      rw [if_pos hm]
      exact toUint32_natCast (v + 2 ^ 31)
    · rw [if_neg hm, toUint32_natCast]
      refine iff_of_false (fun heq => ?_) ?_
      · have hnat := congrArg UInt32.toNat heq
        rw [UInt32.toNat_ofNat', UInt32.toNat_ofNat'] at hnat
        omega
      · rintro ⟨j, hj⟩
        obtain hdigit | hmark' := hj.digit_or_mark (List.mem_append_right ds List.mem_cons_self)
        · rw [isDecimalDigit_mark hmark] at hdigit
          cases hdigit
        · exact hm (List.mem_singleton.mp hmark')

/-- Four bytes tell the index. -/
theorem uint32Bytes_inj {i j : UInt32} (h : uint32Bytes i = uint32Bytes j) : i = j := by
  have hvalue := congrArg beValue h
  have hlt (j : UInt32) : j.toNat < 256 ^ 4 := j.toNat_lt
  rw [uint32Bytes, uint32Bytes, beValue_beBytes (hlt i), beValue_beBytes (hlt j)] at hvalue
  exact UInt32.toNat_inj.mp hvalue

theorem flatMap_uint32Bytes_inj {path path' : List UInt32}
    (h : path.flatMap uint32Bytes = path'.flatMap uint32Bytes) : path = path' := by
  have hlength (j : UInt32) : (uint32Bytes j).length = 4 := beBytes_length _ _
  induction path generalizing path' with
  | nil =>
    cases path' with
    | nil => rfl
    | cons j path' =>
      have hl := congrArg List.length h
      rw [List.flatMap_nil, List.flatMap_cons, List.length_append, hlength, List.length_nil] at hl
      omega
  | cons i path ih =>
    cases path' with
    | nil =>
      have hl := congrArg List.length h
      rw [List.flatMap_nil, List.flatMap_cons, List.length_append, hlength, List.length_nil] at hl
      omega
    | cons j path' =>
      rw [List.flatMap_cons, List.flatMap_cons] at h
      obtain ⟨hij, hpath⟩ := List.append_inj h ((hlength i).trans (hlength j).symm)
      rw [uint32Bytes_inj hij, ih hpath]

end device

/-! ## Paths -/

theorem splitSlash_joined {parts : List JSString} (hne : parts ≠ []) (h : ∀ p ∈ parts, 47 ∉ p) :
    splitSlash (joined parts) = parts := List.splitOn_intercalate 47 h hne

theorem joined_splitSlash (s : JSString) : joined (splitSlash s) = s := List.intercalate_splitOn 47

/-- `m` stands before the components. -/
theorem joined_cons_m {parts : List JSString} (hne : parts ≠ []) :
    joined (js "m" :: parts) = js "m/" ++ joined parts := List.intercalate_cons_of_ne_nil hne

section components

variable {parts : List JSString} {path : List UInt32} {marks : List UInt16}

theorem component_of_mem (h : List.Forall₂ (Component marks) parts path) {p : JSString}
    (hp : p ∈ parts) : ∃ i, Component marks p i := by
  induction h with
  | nil => cases hp
  | cons h _ ih =>
    obtain rfl | hp := List.mem_cons.mp hp
    · exact ⟨_, h⟩
    · exact ih hp

theorem components_joined (hne : parts ≠ [])
    (h : List.Forall₂ (Component hardeningMarks) parts path) :
    components (joined parts) = parts := by
  have hsplit : splitSlash (joined parts) = parts := by
    refine splitSlash_joined hne fun p hp => ?_
    obtain ⟨i, hi⟩ := component_of_mem h hp
    exact hi.not_mem_slash
  rw [components, hsplit, if_neg]
  intro hm
  obtain ⟨i, hi⟩ := component_of_mem h (List.mem_of_mem_head? hm)
  exact hi.ne_m rfl

theorem components_absolute (hne : parts ≠ [])
    (h : List.Forall₂ (Component hardeningMarks) parts path) :
    components (js "m/" ++ joined parts) = parts := by
  have hsplit : splitSlash (js "m/" ++ joined parts) = js "m" :: parts := by
    rw [← joined_cons_m hne]
    refine splitSlash_joined (List.cons_ne_nil _ _) (List.forall_mem_cons.mpr ⟨by decide, ?_⟩)
    intro p hp
    obtain ⟨i, hi⟩ := component_of_mem h hp
    exact hi.not_mem_slash
  rw [components, hsplit]
  rfl

end components

/-- A path denotes the indices of its components. -/
theorem denotes_iff {s : JSString} {path : List UInt32} (hs : s ≠ []) :
    Denotes s path ↔ List.Forall₂ (Component hardeningMarks) (components s) path := by
  constructor
  · intro h
    cases h with
    | empty => exact absurd rfl hs
    | root => exact .nil
    | relative hne h => rwa [components_joined hne h]
    | absolute hne h => rwa [components_absolute hne h]
  · intro h
    have hjoined := joined_splitSlash s
    by_cases hm : (splitSlash s).head? = some (js "m")
    · obtain ⟨rest, hrest⟩ := List.head?_eq_some_iff.mp hm
      have hcomponents : components s = rest := by
        rw [components, if_pos hm, hrest]
        rfl
      rw [hcomponents] at h
      rw [← hjoined, hrest]
      by_cases hne : rest = []
      · rw [hne] at h ⊢
        obtain rfl := List.forall₂_nil_left_iff.mp h
        exact .root
      · rw [joined_cons_m hne]
        exact .absolute hne h
    · rw [components, if_neg hm] at h
      rw [← hjoined]
      refine .relative (fun hnil => hs ?_) h
      rw [← hjoined, hnil]
      rfl

theorem denotes_nil_iff {path : List UInt32} : Denotes [] path ↔ path = [] := by
  constructor
  · intro h
    have hcomponents : ∀ {s : JSString}, Denotes s path → s = [] → path = [] := by
      intro s h hs
      cases h with
      | empty => rfl
      | root => rfl
      | @relative parts path hne h =>
        have hc := components_joined hne h
        rw [hs] at hc
        rw [← hc] at h
        obtain ⟨i, hi⟩ := component_of_mem h (p := []) (by decide)
        exact absurd rfl hi.ne_nil
      | absolute hne h => cases hs
    exact hcomponents h rfl
  · rintro rfl
    exact .empty

/-- What `Path.fromString` reads. -/
theorem fromString_eq {s : JSString} (hs : s ≠ []) :
    Path.fromString s = (components s).mapM fun p =>
      if p.length = 0 then .error .InvalidDerivationPathError else .ok (pathIndex p) := by
  have hlength : ¬ s.length = 0 := fun h => hs (List.eq_nil_of_length_eq_zero h)
  rw [Path.fromString, if_neg hlength, components]

theorem fromString_eq_ok_iff {s : JSString} (hs : s ≠ []) {path : List UInt32} :
    Path.fromString s = .ok path ↔ [] ∉ components s ∧ path = (components s).map pathIndex := by
  rw [fromString_eq hs, Except.mapM_eq_ok]
  induction components s generalizing path with
  | nil =>
    rw [List.forall₂_nil_left_iff]
    exact (and_iff_right List.not_mem_nil).symm
  | cons p ps ih =>
    rw [List.forall₂_cons_left_iff, List.mem_cons, not_or, List.map_cons]
    constructor
    · rintro ⟨i, rest, hi, hrest, rfl⟩
      obtain ⟨hps, rfl⟩ := ih.mp hrest
      by_cases hp : p.length = 0
      · rw [if_pos hp] at hi
        cases hi
      · rw [if_neg hp] at hi
        refine ⟨⟨fun hnil => hp ?_, hps⟩, ?_⟩
        · rw [← hnil]
          rfl
        · rw [Except.ok.inj hi]
    · rintro ⟨⟨hp, hps⟩, rfl⟩
      refine ⟨pathIndex p, _, if_neg fun h => hp ?_, ih.mpr ⟨hps, rfl⟩, rfl⟩
      exact (List.eq_nil_of_length_eq_zero h).symm

/-- What is sent to the device for a path all of whose components denote an index. -/
theorem transformPathToBuffer_eq {s : JSString}
    (h : ∀ p ∈ components s, ∃ i, Component hardeningMarks p i) :
    transformPathToBuffer s = .ok (UInt8.ofNat (components s).length ::
      ((components s).map ledgerIndex).flatMap uint32Bytes) := by
  -- `m` is not a number, so it is left out.
  have hfilter : (splitSlash s).filterMap elementIndex = (components s).filterMap elementIndex := by
    by_cases hm : (splitSlash s).head? = some (js "m")
    · obtain ⟨rest, hrest⟩ := List.head?_eq_some_iff.mp hm
      rw [components, if_pos hm, hrest]
      rfl
    · rw [components, if_neg hm]
  have hloop : ∀ ps : List JSString, (∀ p ∈ ps, ∃ i, Component hardeningMarks p i) →
      ∃ zs, ps.filterMap elementIndex = zs ∧ zs.length = ps.length ∧
        zs.mapM writeUInt32BE = .ok ((ps.map ledgerIndex).map uint32Bytes) := by
    intro ps
    induction ps with
    | nil => exact fun _ => ⟨[], rfl, rfl, rfl⟩
    | cons p ps ih =>
      intro h
      obtain ⟨zs, hzs, hlength, hloop⟩ := ih fun q hq => h q (List.mem_cons_of_mem _ hq)
      obtain ⟨i, hi⟩ := h p List.mem_cons_self
      obtain ⟨z, hz, hwrite⟩ := hi.write
      refine ⟨z :: zs, ?_, congrArg (· + 1) hlength, ?_⟩
      · rw [List.filterMap_cons_some hz, hzs]
      · rw [List.mapM_cons, hwrite, Except.ok_bind, hloop]
        rfl
  obtain ⟨zs, hzs, hlength, hloop⟩ := hloop (components s) h
  rw [transformPathToBuffer]
  simp only [hfilter, hzs, hloop, Except.ok_bind, hlength]
  rfl

/-- **A path is read as it must be exactly** if it is empty, or has an empty component, or has fewer
than 256 components, which are decimal numerals below `2 ^ 31` with no other mark than `'`. -/
theorem readsPath_iff (s : JSString) :
    ReadsPath s ↔ s = [] ∨ [] ∈ components s ∨
      (components s).length < 256 ∧ ∀ p ∈ components s, ∃ i, Component [39] p i := by
  by_cases hs : s = []
  · refine iff_of_true ?_ (Or.inl hs)
    rw [hs]
    refine ⟨fun path => ?_, fun path hpath => ?_⟩
    · rw [denotes_nil_iff]
      exact ⟨fun h => (Except.ok.inj h).symm, fun h => by rw [h]; rfl⟩
    · rw [← Except.ok.inj hpath]
      exact ⟨[0], rfl, 0, rfl, rfl⟩
  by_cases hempty : [] ∈ components s
  · refine iff_of_true ⟨fun path => ?_, fun path hpath => ?_⟩ (Or.inr (Or.inl hempty))
    · rw [denotes_iff hs, fromString_eq_ok_iff hs]
      refine iff_of_false (fun h => h.1 hempty) fun h => ?_
      obtain ⟨i, hi⟩ := component_of_mem h hempty
      exact hi.ne_nil rfl
    · exact absurd hempty ((fromString_eq_ok_iff hs).mp hpath).1
  have hread : Path.fromString s = .ok ((components s).map pathIndex) :=
    (fromString_eq_ok_iff hs).mpr ⟨hempty, rfl⟩
  rw [or_iff_right hs, or_iff_right hempty]
  constructor
  · intro h
    have hdenotes := (denotes_iff hs).mp ((h.reads _).mp hread)
    have hcomponents : ∀ p ∈ components s, ∃ i, Component hardeningMarks p i :=
      fun p hp => component_of_mem hdenotes hp
    obtain ⟨buffer, hbuffer, count, rfl, hcount⟩ := h.encodes _ hread
    rw [transformPathToBuffer_eq hcomponents] at hbuffer
    obtain ⟨rfl, hpath⟩ := List.cons.inj (Except.ok.inj hbuffer)
    rw [List.length_map] at hcount
    refine ⟨hcount ▸ UInt8.toNat_lt _, fun p hp => ?_⟩
    obtain ⟨i, hi⟩ := hcomponents p hp
    have hindex := List.map_inj_left.mp (flatMap_uint32Bytes_inj hpath) p hp
    exact hi.ledgerIndex_eq_iff.mp (hindex.trans hi.pathIndex_eq)
  · rintro ⟨hlength, hmarks⟩
    have hcomponents : ∀ p ∈ components s, Component hardeningMarks p (pathIndex p) := by
      intro p hp
      obtain ⟨i, hi⟩ := hmarks p hp
      have hi : Component hardeningMarks p i := hi.mono fun mark hmark =>
        List.mem_cons.mpr (.inl (List.mem_singleton.mp hmark))
      rwa [hi.pathIndex_eq]
    refine ⟨fun path => ?_, fun path hpath => ?_⟩
    · have hforall : List.Forall₂ (Component hardeningMarks) (components s)
          ((components s).map pathIndex) := by
        rw [List.forall₂_map_right_iff, List.forall₂_same]
        exact hcomponents
      rw [hread, denotes_iff hs, Except.ok.injEq]
      constructor
      · rintro rfl
        exact hforall
      · intro h
        have hmap : List.Forall₂ (· = ·) ((components s).map pathIndex) path :=
          List.forall₂_map_left_iff.mpr (h.imp fun p i hi => hi.pathIndex_eq)
        rwa [List.forall₂_eq_eq_eq] at hmap
    · obtain rfl := Except.ok.inj (hread.symm.trans hpath)
      have hindex : (components s).map ledgerIndex = (components s).map pathIndex :=
        List.map_congr_left fun p hp => (hcomponents p hp).ledgerIndex_eq_iff.mpr (hmarks p hp)
      refine ⟨_, transformPathToBuffer_eq fun p hp => ⟨_, hcomponents p hp⟩,
        UInt8.ofNat (components s).length, ?_, ?_⟩
      · rw [hindex]
      · rw [UInt8.toNat_ofNat', List.length_map, Nat.mod_eq_of_lt (by omega)]

/-- What is no number is read as zero. -/
theorem not_readsPath_word : ¬ ReadsPath (js "m/44'/account") := by
  intro h
  have hread : Path.fromString (js "m/44'/account") = .ok [Hard ||| 44, 0] := by decide
  have hdenotes := (denotes_iff (by decide)).mp ((h.reads _).mp hread)
  obtain ⟨i, hi⟩ := component_of_mem hdenotes (p := js "account") (by decide)
  exact absurd (hi.digit_or_mark (c := 97) (by decide)) (by decide)

end Ledger
