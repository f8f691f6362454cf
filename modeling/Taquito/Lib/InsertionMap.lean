import Mathlib.Data.Setoid.Basic

/-!
# Maps that keep the order of insertion

A map whose keys are compared by an equivalence and whose iteration follows the order in which they
were put in: a key that is already there keeps its place when its value is replaced, and a new one
goes to the end. The entries carry the proof that no two keys are equivalent.

A map over texts of keys, compared by equality, is an image of the map over the keys themselves when
the texts are equal exactly for equivalent keys (`ImageOf`); the operations keep this.
-/

/-- A map with its entries in the order of insertion. -/
structure InsertionMap {α : Type} (s : Setoid α) (β : Type) where
  entries : List (α × β)
  distinct : entries.Pairwise fun e e' => ¬ s.r e.1 e'.1

/-- Keys that are compared by equality. -/
def discrete (α : Type) : Setoid α := ⟨Eq, eq_equivalence⟩

instance discreteDecidable {α : Type} [DecidableEq α] : DecidableRel (discrete α).r :=
  fun a b => inferInstanceAs (Decidable (a = b))

namespace InsertionMap

variable {α β : Type} {s : Setoid α}

/-- The keys in the order of insertion. -/
def keys (m : InsertionMap s β) : List α := m.entries.map Prod.fst

/-- The number of entries. -/
def size (m : InsertionMap s β) : ℕ := m.entries.length

/-- The map without entries. -/
def empty : InsertionMap s β := ⟨[], List.Pairwise.nil⟩

variable [DecidableRel s.r]

/-- The entries with a key set. -/
def setIn (s : Setoid α) [DecidableRel s.r] (k : α) (v : β) : List (α × β) → List (α × β)
  | [] => [(k, v)]
  | e :: es => if s.r e.1 k then (k, v) :: es else e :: setIn s k v es

theorem mem_setIn {k : α} {v : β} {es : List (α × β)} {e : α × β} (h : e ∈ setIn s k v es) :
    e = (k, v) ∨ e ∈ es := by
  induction es with
  | nil => exact .inl (List.mem_singleton.mp h)
  | cons e' es ih =>
    rw [setIn] at h
    split at h
    · exact (List.mem_cons.mp h).imp_right (List.mem_cons_of_mem _)
    · obtain rfl | h := List.mem_cons.mp h
      · exact .inr List.mem_cons_self
      · exact (ih h).imp_right (List.mem_cons_of_mem _)

theorem distinct_setIn {k : α} {v : β} {es : List (α × β)}
    (h : es.Pairwise fun e e' => ¬ s.r e.1 e'.1) :
    (setIn s k v es).Pairwise fun e e' => ¬ s.r e.1 e'.1 := by
  induction es with
  | nil => exact List.pairwise_singleton _ _
  | cons e es ih =>
    rw [List.pairwise_cons] at h
    rw [setIn]
    split
    · next heq =>
      exact List.pairwise_cons.mpr ⟨fun e' he' hr => h.1 e' he' (s.trans heq hr), h.2⟩
    · next hne =>
      refine List.pairwise_cons.mpr ⟨fun e' he' => ?_, ih h.2⟩
      obtain rfl | he' := mem_setIn he'
      · exact hne
      · exact h.1 e' he'

/-- The map with a key set. -/
def set (k : α) (v : β) (m : InsertionMap s β) : InsertionMap s β :=
  ⟨setIn s k v m.entries, distinct_setIn m.distinct⟩

/-- The map without a key. -/
def delete (k : α) (m : InsertionMap s β) : InsertionMap s β :=
  ⟨m.entries.filter fun e => ¬ s.r e.1 k, m.distinct.filter _⟩

/-- The value of a key. -/
def get (k : α) (m : InsertionMap s β) : Option β :=
  (m.entries.find? fun e => s.r e.1 k).map Prod.snd

/-- Whether a key is there. -/
def has (k : α) (m : InsertionMap s β) : Bool := m.entries.any fun e => s.r e.1 k

/-! ## What a key has -/

theorem get_empty (k : α) : (empty : InsertionMap s β).get k = none := rfl

/-- A key that is set has its value, and the others keep theirs. -/
theorem get_set (k k' : α) (v : β) (m : InsertionMap s β) :
    (m.set k v).get k' = if s.r k k' then some v else m.get k' := by
  show ((setIn s k v m.entries).find? fun e => s.r e.1 k').map Prod.snd =
    if s.r k k' then some v else (m.entries.find? fun e => s.r e.1 k').map Prod.snd
  induction m.entries with
  | nil =>
    by_cases h : s.r k k' <;> simp [setIn, h]
  | cons e es ih =>
    by_cases hk : s.r e.1 k
    · rw [setIn, if_pos hk]
      by_cases h : s.r k k'
      · simp [h]
      · have he : ¬ s.r e.1 k' := fun he => h (s.trans (s.symm hk) he)
        simp [h, he]
    · rw [setIn, if_neg hk]
      by_cases he : s.r e.1 k'
      · have h : ¬ s.r k k' := fun h => hk (s.trans he (s.symm h))
        simp [he, h]
      · simpa [he] using ih

/-- A key that is deleted has no value, and the others keep theirs. -/
theorem get_delete (k k' : α) (m : InsertionMap s β) :
    (m.delete k).get k' = if s.r k k' then none else m.get k' := by
  rw [get, get, delete, List.find?_filter]
  by_cases h : s.r k k'
  · rw [if_pos h, Option.map_eq_none_iff, List.find?_eq_none]
    intro e _ he
    have he : ¬ s.r e.1 k ∧ s.r e.1 k' := by simpa using he
    exact he.1 (s.trans he.2 (s.symm h))
  · rw [if_neg h]
    congr 2
    funext e
    by_cases he : s.r e.1 k'
    · have hk : ¬ s.r e.1 k := fun hk => h (s.trans (s.symm hk) he)
      simp [he, hk]
    · simp [he]

theorem has_eq (k : α) (m : InsertionMap s β) : m.has k = (m.get k).isSome := by
  rw [has, get, Option.isSome_map, Bool.eq_iff_iff, List.find?_isSome, List.any_eq_true]

/-- An entry is found under its key. -/
theorem find?_entries {m : InsertionMap s β} {e : α × β} (h : e ∈ m.entries) :
    m.entries.find? (fun e' => s.r e'.1 e.1) = some e := by
  obtain ⟨entries, hdistinct⟩ := m
  show entries.find? _ = _
  have h : e ∈ entries := h
  induction entries with
  | nil => cases h
  | cons e' es ih =>
    rw [List.pairwise_cons] at hdistinct
    obtain rfl | h := List.mem_cons.mp h
    · exact List.find?_cons_of_pos (decide_eq_true (s.refl e.1))
    · rw [List.find?_cons, decide_eq_false (hdistinct.1 e h)]
      exact ih hdistinct.2 h h

/-! ## Images -/

section image

variable {τ γ : Type} [DecidableEq τ] {text : α → τ}

/-- The entries of a map over texts are those of another, with the texts of their keys and what a
function takes from them. -/
def ImageOf (text : α → τ) (f : α × β → γ) (m : InsertionMap s β)
    (image : InsertionMap (discrete τ) γ) : Prop :=
  image.entries = m.entries.map fun e => (text e.1, f e)

variable {f : α × β → γ} {m : InsertionMap s β} {image : InsertionMap (discrete τ) γ}

omit [DecidableRel s.r] [DecidableEq τ] in
theorem imageOf_empty : ImageOf text f (empty : InsertionMap s β) empty := rfl

omit [DecidableRel s.r] [DecidableEq τ] in
theorem ImageOf.size_eq (h : ImageOf text f m image) : image.size = m.size := by
  rw [size, h, List.length_map, size]

omit [DecidableRel s.r] [DecidableEq τ] in
theorem ImageOf.keys_eq (h : ImageOf text f m image) : image.keys = m.keys.map text := by
  rw [keys, h, keys, List.map_map, List.map_map]
  rfl

variable (htext : ∀ k k', text k = text k' ↔ s.r k k')
include htext

theorem ImageOf.set (h : ImageOf text f m image) (k : α) (v : β) :
    ImageOf text f (m.set k v) (image.set (text k) (f (k, v))) := by
  show setIn (discrete τ) (text k) (f (k, v)) image.entries =
    (setIn s k v m.entries).map fun e => (text e.1, f e)
  rw [h]
  induction m.entries with
  | nil => rfl
  | cons e es ih =>
    have hkey : (discrete τ).r (text e.1) (text k) ↔ s.r e.1 k := htext e.1 k
    rw [List.map_cons, setIn, setIn]
    by_cases hk : s.r e.1 k
    · rw [if_pos (hkey.mpr hk), if_pos hk, List.map_cons]
    · rw [if_neg (mt hkey.mp hk), if_neg hk, List.map_cons, ih]

theorem ImageOf.delete (h : ImageOf text f m image) (k : α) :
    ImageOf text f (m.delete k) (image.delete (text k)) := by
  show image.entries.filter _ = (m.entries.filter _).map _
  rw [h, List.filter_map]
  congr 1
  apply List.filter_congr
  intro e _
  exact decide_eq_decide.mpr (not_congr (htext e.1 k))

theorem ImageOf.get (h : ImageOf text f m image) (k : α) :
    image.get (text k) = (m.entries.find? fun e => s.r e.1 k).map f := by
  have hkeys : (fun e : τ × γ => decide ((discrete τ).r e.1 (text k))) ∘
      (fun e : α × β => (text e.1, f e)) = fun e => decide (s.r e.1 k) := by
    funext e
    exact decide_eq_decide.mpr (htext e.1 k)
  rw [InsertionMap.get, h, List.find?_map, hkeys, Option.map_map]
  rfl

end image

end InsertionMap
