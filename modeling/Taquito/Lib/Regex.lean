import Mathlib.Data.List.Basic

/-!
# Backtracking regular expressions

Regular expressions as backtracking engines run them: an expression has, at a place of the text, a
list of matches in the order in which they are tried, and the first of them that lets the rest of
the expression match counts. An alternative tries its left side first; a repetition is greedy.
`search` looks for the leftmost place with a match.

`findSome?_splits` says which match of a repetition and what follows it counts: the one with the
longest run.
-/

/-- A regular expression. -/
inductive Regex (α : Type) where
  | empty
  | chars (p : α → Bool)
  | seq (r t : Regex α)
  | alt (r t : Regex α)
  /-- Any number of characters, as many as possible first. -/
  | many (p : α → Bool)
  | group (n : ℕ) (r : Regex α)
  /-- The end of the text. -/
  | finish

namespace Regex

/-- A match: what the groups hold, the text, and what follows it. -/
structure Match (α : Type) where
  groups : List (ℕ × List α)
  text : List α
  rest : List α

variable {α : Type}

/-- A match and one of what follows it. -/
def Match.append (m m' : Match α) : Match α := ⟨m.groups ++ m'.groups, m.text ++ m'.text, m'.rest⟩

/-- What a group holds; `none` where it took no part. -/
def Match.get (m : Match α) (n : ℕ) : Option (List α) := m.groups.lookup n

/-- The cuts of a text behind a run of characters, the longest run first. -/
@[simp] def splits (p : α → Bool) : List α → List (List α × List α)
  | [] => [([], [])]
  | c :: s => (if p c then (splits p s).map fun x => (c :: x.1, x.2) else []) ++ [([], c :: s)]

/-- The matches at the start of a text, in the order in which they are tried. -/
@[simp] def results : Regex α → List α → List (Match α)
  | empty, s => [⟨[], [], s⟩]
  | chars p, s =>
    match s with
    | [] => []
    | c :: s => if p c then [⟨[], [c], s⟩] else []
  | seq r t, s => (results r s).flatMap fun m => (results t m.rest).map m.append
  | alt r t, s => results r s ++ results t s
  | many p, s => (splits p s).map fun x => ⟨[], x.1, x.2⟩
  | group n r, s => (results r s).map fun m => { m with groups := (n, m.text) :: m.groups }
  | finish, s => if s.isEmpty then [⟨[], [], []⟩] else []

/-- The match at the start of a text. -/
def first (r : Regex α) (s : List α) : Option (Match α) := (results r s).head?

/-- The leftmost match. -/
def search (r : Regex α) : List α → Option (Match α)
  | [] => first r []
  | c :: s => (first r (c :: s)).or (search r s)

/-- A word, character by character. -/
def word [BEq α] (w : List α) : Regex α := w.foldr (fun c => seq (chars (· == c))) empty

/-- `r?`. -/
def opt (r : Regex α) : Regex α := alt r empty

/-- `p+`. -/
def plus (p : α → Bool) : Regex α := seq (chars p) (many p)

/-- `p{n}`. -/
def times (p : α → Bool) : ℕ → Regex α
  | 0 => empty
  | n + 1 => seq (chars p) (times p n)

/-! ## What a match is -/

theorem mem_splits {p : α → Bool} {s : List α} {x : List α × List α} :
    x ∈ splits p s ↔ s = x.1 ++ x.2 ∧ ∀ c ∈ x.1, p c := by
  induction s generalizing x with
  | nil =>
    obtain ⟨a, b⟩ := x
    simp only [splits, List.mem_singleton, Prod.mk.injEq]
    constructor
    · rintro ⟨rfl, rfl⟩
      exact ⟨rfl, fun _ hc => absurd hc List.not_mem_nil⟩
    · intro h
      exact List.append_eq_nil_iff.mp h.1.symm
  | cons c s ih =>
    obtain ⟨a, b⟩ := x
    rw [splits, List.mem_append, List.mem_singleton]
    constructor
    · rintro (h | h)
      · by_cases hp : p c = true
        · rw [if_pos hp] at h
          obtain ⟨⟨a', b'⟩, hmem, he⟩ := List.mem_map.mp h
          obtain ⟨rfl, rfl⟩ := Prod.mk.inj he
          obtain ⟨rfl, hall⟩ := ih.mp hmem
          exact ⟨rfl, List.forall_mem_cons.mpr ⟨hp, hall⟩⟩
        · rw [if_neg hp] at h
          exact absurd h List.not_mem_nil
      · obtain ⟨rfl, rfl⟩ := Prod.mk.inj h
        exact ⟨rfl, fun _ hc => absurd hc List.not_mem_nil⟩
    · rintro ⟨h, hall⟩
      match a with
      | [] => exact Or.inr (by rw [Prod.mk.injEq]; exact ⟨rfl, h.symm⟩)
      | d :: a =>
        obtain ⟨rfl, hs⟩ := List.cons.inj h
        obtain ⟨hp, hall⟩ := List.forall_mem_cons.mp hall
        rw [if_pos hp]
        exact Or.inl (List.mem_map.mpr ⟨(a, b), ih.mpr ⟨hs, hall⟩, rfl⟩)

theorem mem_results_chars {p : α → Bool} {s : List α} {m : Match α} :
    m ∈ results (chars p) s ↔ ∃ c, p c = true ∧ s = c :: m.rest ∧ m = ⟨[], [c], m.rest⟩ := by
  match s with
  | [] => simp [results]
  | d :: s =>
    rw [results]
    constructor
    · intro h
      by_cases hp : p d = true
      · rw [if_pos hp, List.mem_singleton] at h
        subst h
        exact ⟨d, hp, rfl, rfl⟩
      · rw [if_neg hp] at h
        exact absurd h List.not_mem_nil
    · rintro ⟨c, hp, hs, hm⟩
      obtain ⟨rfl, hrest⟩ := List.cons.inj hs
      rw [if_pos hp, List.mem_singleton, hm, hrest]

theorem mem_results_seq {r t : Regex α} {s : List α} {m : Match α} :
    m ∈ results (seq r t) s ↔
      ∃ a ∈ results r s, ∃ b ∈ results t a.rest, m = a.append b := by
  rw [results, List.mem_flatMap]
  simp only [List.mem_map, eq_comm]

theorem mem_results_word [BEq α] [LawfulBEq α] {w s : List α} {m : Match α} :
    m ∈ results (word w) s ↔ s = w ++ m.rest ∧ m = ⟨[], w, m.rest⟩ := by
  induction w generalizing s m with
  | nil =>
    rw [show word ([] : List α) = empty from rfl, results, List.mem_singleton]
    constructor
    · rintro rfl
      exact ⟨rfl, rfl⟩
    · rintro ⟨hs, hm⟩
      rw [hm, hs, List.nil_append]
  | cons c w ih =>
    rw [show word (c :: w) = seq (chars (· == c)) (word w) from rfl, mem_results_seq]
    constructor
    · rintro ⟨a, ha, b, hb, rfl⟩
      obtain ⟨d, hd, hs, hm⟩ := mem_results_chars.mp ha
      obtain ⟨hrest, hb⟩ := ih.mp hb
      obtain rfl := eq_of_beq hd
      rw [hs, hm, hb]
      exact ⟨congrArg (d :: ·) hrest, rfl⟩
    · rintro ⟨hs, hm⟩
      refine ⟨⟨[], [c], w ++ m.rest⟩, mem_results_chars.mpr ⟨c, beq_self_eq_true c, hs, rfl⟩,
        ⟨[], w, m.rest⟩, ih.mpr ⟨rfl, rfl⟩, hm⟩

theorem mem_results_alt {r t : Regex α} {s : List α} {m : Match α} :
    m ∈ results (alt r t) s ↔ m ∈ results r s ∨ m ∈ results t s := by
  rw [results, List.mem_append]

theorem mem_results_opt {r : Regex α} {s : List α} {m : Match α} :
    m ∈ results (opt r) s ↔ m ∈ results r s ∨ m = ⟨[], [], s⟩ := by
  rw [opt, mem_results_alt, results, List.mem_singleton]

theorem mem_results_many {p : α → Bool} {s : List α} {m : Match α} :
    m ∈ results (many p) s ↔ s = m.text ++ m.rest ∧ (∀ c ∈ m.text, p c) ∧ m.groups = [] := by
  obtain ⟨groups, text, rest⟩ := m
  rw [results, List.mem_map]
  constructor
  · rintro ⟨x, hx, he⟩
    obtain ⟨rfl, rfl, rfl⟩ := Match.mk.inj he
    exact ⟨(mem_splits.mp hx).1, (mem_splits.mp hx).2, rfl⟩
  · rintro ⟨hs, hall, hgroups⟩
    refine ⟨(text, rest), mem_splits.mpr ⟨hs, hall⟩, ?_⟩
    rw [Match.mk.injEq]
    exact ⟨hgroups.symm, rfl, rfl⟩

theorem mem_results_plus {p : α → Bool} {s : List α} {m : Match α} :
    m ∈ results (plus p) s ↔
      s = m.text ++ m.rest ∧ m.text ≠ [] ∧ (∀ c ∈ m.text, p c) ∧ m.groups = [] := by
  rw [plus, mem_results_seq]
  constructor
  · rintro ⟨a, ha, b, hb, rfl⟩
    obtain ⟨c, hp, hs, hm⟩ := mem_results_chars.mp ha
    obtain ⟨hrest, hall, hgroups⟩ := mem_results_many.mp hb
    rw [hm, Match.append, hgroups]
    exact ⟨by rw [hs, hrest]; rfl, List.cons_ne_nil c b.text,
      List.forall_mem_cons.mpr ⟨hp, hall⟩, rfl⟩
  · obtain ⟨groups, text, rest⟩ := m
    rintro ⟨hs, hne, hall, hgroups⟩
    obtain ⟨c, text, rfl⟩ := List.exists_cons_of_ne_nil hne
    obtain ⟨hp, hall⟩ := List.forall_mem_cons.mp hall
    refine ⟨⟨[], [c], text ++ rest⟩, mem_results_chars.mpr ⟨c, hp, hs, rfl⟩,
      ⟨[], text, rest⟩, mem_results_many.mpr ⟨rfl, hall, rfl⟩, ?_⟩
    rw [Match.append, Match.mk.injEq]
    exact ⟨hgroups, rfl, rfl⟩

theorem mem_results_times {p : α → Bool} {n : ℕ} {s : List α} {m : Match α} :
    m ∈ results (times p n) s ↔
      s = m.text ++ m.rest ∧ m.text.length = n ∧ (∀ c ∈ m.text, p c) ∧ m.groups = [] := by
  induction n generalizing s m with
  | zero =>
    rw [times, results, List.mem_singleton]
    constructor
    · rintro rfl
      exact ⟨rfl, rfl, fun _ hc => absurd hc List.not_mem_nil, rfl⟩
    · obtain ⟨groups, text, rest⟩ := m
      rintro ⟨hs, hlength, -, hgroups⟩
      obtain rfl := List.eq_nil_of_length_eq_zero hlength
      rw [Match.mk.injEq]
      exact ⟨hgroups, rfl, hs.symm⟩
  | succ n ih =>
    rw [times, mem_results_seq]
    constructor
    · rintro ⟨a, ha, b, hb, rfl⟩
      obtain ⟨c, hp, hs, hm⟩ := mem_results_chars.mp ha
      obtain ⟨hrest, hlength, hall, hgroups⟩ := ih.mp hb
      rw [hm, Match.append, hgroups]
      exact ⟨by rw [hs, hrest]; rfl, congrArg (· + 1) hlength,
        List.forall_mem_cons.mpr ⟨hp, hall⟩, rfl⟩
    · obtain ⟨groups, text, rest⟩ := m
      rintro ⟨hs, hlength, hall, hgroups⟩
      obtain ⟨c, text, rfl⟩ := List.exists_cons_of_length_eq_add_one hlength
      obtain ⟨hp, hall⟩ := List.forall_mem_cons.mp hall
      refine ⟨⟨[], [c], text ++ rest⟩, mem_results_chars.mpr ⟨c, hp, hs, rfl⟩,
        ⟨[], text, rest⟩, ih.mpr ⟨rfl, Nat.succ.inj hlength, hall, rfl⟩, ?_⟩
      rw [Match.append, Match.mk.injEq]
      exact ⟨hgroups, rfl, rfl⟩

theorem mem_results_group {n : ℕ} {r : Regex α} {s : List α} {m : Match α} :
    m ∈ results (group n r) s ↔
      ∃ a ∈ results r s, m = ⟨(n, a.text) :: a.groups, a.text, a.rest⟩ := by
  rw [results, List.mem_map]
  simp only [eq_comm]

theorem mem_results_finish {s : List α} {m : Match α} :
    m ∈ results finish s ↔ s = [] ∧ m = ⟨[], [], []⟩ := by
  cases s with
  | nil => simp [results]
  | cons c s => simp [results]

theorem results_word_append [BEq α] [LawfulBEq α] (w s : List α) :
    results (word w) (w ++ s) = [⟨[], w, s⟩] := by
  induction w with
  | nil => rfl
  | cons c w ih =>
    rw [show word (c :: w) = seq (chars (· == c)) (word w) from rfl, results, List.cons_append,
      results, if_pos (beq_self_eq_true c), List.flatMap_singleton, ih]
    rfl

theorem results_word_of_not [BEq α] [LawfulBEq α] {w s : List α} (h : ¬ w <+: s) :
    results (word w) s = [] := by
  rw [List.eq_nil_iff_forall_not_mem]
  intro m hm
  exact h ⟨m.rest, (mem_results_word.mp hm).1.symm⟩

theorem Match.append_assoc (a b c : Match α) : (a.append b).append c = a.append (b.append c) := by
  simp only [append, List.append_assoc]

theorem results_seq_assoc (r t u : Regex α) (s : List α) :
    results (seq (seq r t) u) s = results (seq r (seq t u)) s := by
  simp only [results, List.flatMap_assoc, List.map_flatMap, List.flatMap_map, List.map_map]
  apply List.flatMap_congr
  intro a _
  apply List.flatMap_congr
  intro b _
  apply List.map_congr_left
  intro c _
  exact Match.append_assoc a b c

/-! ## Which match counts -/

theorem first_eq_none_iff {r : Regex α} {s : List α} : first r s = none ↔ ∀ m, m ∉ results r s := by
  rw [first, List.head?_eq_none_iff, List.eq_nil_iff_forall_not_mem]

theorem mem_of_first {r : Regex α} {s : List α} {m : Match α} (h : first r s = some m) :
    m ∈ results r s := List.mem_of_head? h

/-- Where there is one match only, it counts. -/
theorem first_of_unique {r : Regex α} {s : List α} {m : Match α} (hm : m ∈ results r s)
    (h : ∀ m' ∈ results r s, m' = m) : first r s = some m := by
  obtain ⟨m', hfirst⟩ : ∃ m', first r s = some m' := by
    rw [← Option.ne_none_iff_exists']
    intro hnone
    exact first_eq_none_iff.mp hnone m hm
  rw [hfirst, h m' (mem_of_first hfirst)]

theorem first_seq (r t : Regex α) (s : List α) :
    first (seq r t) s = (results r s).findSome? fun m => (first t m.rest).map m.append := by
  rw [first, results, List.head?_flatMap]
  simp only [List.head?_map, first]

theorem first_seq_of_first {r t : Regex α} {s : List α} {m m' : Match α} (hm : first r s = some m)
    (hm' : first t m.rest = some m') : first (seq r t) s = some (m.append m') := by
  obtain ⟨ms, hms⟩ := List.head?_eq_some_iff.mp hm
  rw [first_seq, hms, List.findSome?_cons, hm']
  rfl

/-- Where there is one match only, what follows is matched behind it. -/
theorem first_seq_of_unique {r : Regex α} {s : List α} {m : Match α} (t : Regex α)
    (hm : m ∈ results r s) (h : ∀ m' ∈ results r s, m' = m) :
    first (seq r t) s = (first t m.rest).map m.append := by
  have hall : ∀ ms : List (Match α), ms ≠ [] → (∀ m' ∈ ms, m' = m) →
      ms.findSome? (fun m => (first t m.rest).map m.append) = (first t m.rest).map m.append := by
    intro ms hne hms
    induction ms with
    | nil => exact absurd rfl hne
    | cons a ms ih =>
      obtain ⟨rfl, hms⟩ := List.forall_mem_cons.mp hms
      rw [List.findSome?_cons]
      cases hf : (first t a.rest).map a.append with
      | some b => rfl
      | none =>
        cases ms with
        | nil => rfl
        | cons b ms => exact (ih (List.cons_ne_nil b ms) hms).trans hf
  rw [first_seq]
  exact hall _ (List.ne_nil_of_mem hm) h

theorem first_alt (r t : Regex α) (s : List α) :
    first (alt r t) s = (first r s).or (first t s) := by
  rw [first, results, List.head?_append]
  rfl

theorem first_seq_assoc (r t u : Regex α) (s : List α) :
    first (seq (seq r t) u) s = first (seq r (seq t u)) s := by
  rw [first, results_seq_assoc, first]

/-- An optional part is left out only where what follows does not match behind it. -/
theorem first_optSeq (r t : Regex α) (s : List α) :
    first (seq (opt r) t) s = (first (seq r t) s).or (first t s) := by
  rw [first_seq, opt, results, List.findSome?_append, ← first_seq]
  congr 1
  rw [results, List.findSome?_singleton]
  exact Option.map_id'

theorem first_wordSeq [BEq α] [LawfulBEq α] (w s : List α) (t : Regex α) :
    first (seq (word w) t) (w ++ s) = (first t s).map (Match.append ⟨[], w, s⟩) := by
  rw [first_seq, results_word_append, List.findSome?_singleton]

theorem first_wordSeq_of_not [BEq α] [LawfulBEq α] {w s : List α} (t : Regex α) (h : ¬ w <+: s) :
    first (seq (word w) t) s = none := by
  rw [first_seq, results_word_of_not h, List.findSome?_nil]

theorem first_groupManySeq (n : ℕ) (p : α → Bool) (t : Regex α) (s : List α) :
    first (seq (group n (many p)) t) s =
      (splits p s).findSome? fun x => (first t x.2).map (Match.append ⟨[(n, x.1)], x.1, x.2⟩) := by
  rw [first_seq, results, results, List.map_map, List.findSome?_map]
  rfl

theorem first_group (n : ℕ) (r : Regex α) (s : List α) :
    first (group n r) s =
      (first r s).map fun m => { m with groups := (n, m.text) :: m.groups } := by
  rw [first, results, List.head?_map]
  rfl

/-- Of a greedy run the longest counts that something matches behind. -/
theorem findSome?_splits {β : Type} {p : α → Bool} {s : List α}
    {f : List α × List α → Option β} {b : β} :
    (splits p s).findSome? f = some b ↔ ∃ x t, s = x ++ t ∧ (∀ c ∈ x, p c) ∧ f (x, t) = some b ∧
      ∀ y u, t = y ++ u → y ≠ [] → (∀ c ∈ y, p c) → f (x ++ y, u) = none := by
  induction s generalizing f with
  | nil =>
    rw [splits, List.findSome?_singleton]
    constructor
    · intro h
      refine ⟨[], [], rfl, fun _ hc => absurd hc List.not_mem_nil, h, fun y u hyu hy _ => ?_⟩
      exact absurd (List.append_eq_nil_iff.mp hyu.symm).1 hy
    · rintro ⟨x, t, hs, -, hf, -⟩
      obtain ⟨rfl, rfl⟩ := List.append_eq_nil_iff.mp hs.symm
      exact hf
  | cons c s ih =>
    rw [splits, List.findSome?_append, List.findSome?_singleton]
    by_cases hp : p c = true
    · rw [if_pos hp, List.findSome?_map, Option.or_eq_some_iff, ih]
      constructor
      · rintro (⟨x, t, rfl, hall, hf, hlong⟩ | ⟨hnone, hf⟩)
        · exact ⟨c :: x, t, rfl, List.forall_mem_cons.mpr ⟨hp, hall⟩, hf, hlong⟩
        · refine ⟨[], c :: s, rfl, fun _ hc => absurd hc List.not_mem_nil, hf, ?_⟩
          intro y u hyu hy hall
          match y, hy with
          | d :: y, _ =>
            obtain ⟨rfl, rfl⟩ := List.cons.inj hyu
            rw [List.findSome?_eq_none_iff] at hnone
            exact hnone (y, u) (mem_splits.mpr ⟨rfl, (List.forall_mem_cons.mp hall).2⟩)
      · rintro ⟨x, t, hs, hall, hf, hlong⟩
        match x with
        | d :: x =>
          obtain ⟨rfl, rfl⟩ := List.cons.inj hs
          exact Or.inl ⟨x, t, rfl, (List.forall_mem_cons.mp hall).2, hf, hlong⟩
        | [] =>
          rw [List.nil_append] at hs
          subst hs
          refine Or.inr ⟨?_, hf⟩
          rw [List.findSome?_eq_none_iff]
          rintro ⟨y, u⟩ hmem
          obtain ⟨rfl, hally⟩ := mem_splits.mp hmem
          exact hlong (c :: y) u rfl (List.cons_ne_nil c y) (List.forall_mem_cons.mpr ⟨hp, hally⟩)
    · rw [if_neg hp, List.findSome?_nil, Option.none_or]
      constructor
      · intro hf
        refine ⟨[], c :: s, rfl, fun _ hc => absurd hc List.not_mem_nil, hf, ?_⟩
        intro y u hyu hy hall
        match y, hy with
        | d :: y, _ =>
          obtain ⟨rfl, -⟩ := List.cons.inj hyu
          exact absurd (List.forall_mem_cons.mp hall).1 hp
      · rintro ⟨x, t, hs, hall, hf, -⟩
        match x with
        | [] =>
          rw [List.nil_append] at hs
          subst hs
          exact hf
        | d :: x =>
          obtain ⟨rfl, -⟩ := List.cons.inj hs
          exact absurd (List.forall_mem_cons.mp hall).1 hp

/-- The longest run of characters. -/
theorem first_many (p : α → Bool) (s : List α) :
    first (many p) s = some ⟨[], s.takeWhile p, s.dropWhile p⟩ := by
  rw [first, results, List.head?_map, Option.map_eq_some_iff]
  refine ⟨(s.takeWhile p, s.dropWhile p), ?_, rfl⟩
  induction s with
  | nil => rfl
  | cons c s ih =>
    rw [splits, List.head?_append]
    by_cases hp : p c = true
    · rw [if_pos hp, List.head?_map, ih, List.takeWhile_cons_of_pos hp,
        List.dropWhile_cons_of_pos hp]
      rfl
    · rw [if_neg hp, List.takeWhile_cons_of_neg hp, List.dropWhile_cons_of_neg hp]
      rfl

/-! ## Searching -/

theorem search_of_first {r : Regex α} {s : List α} {m : Match α} (h : first r s = some m) :
    search r s = some m := by
  cases s with
  | nil => exact h
  | cons c s => rw [search, h, Option.some_or]

/-- The search passes over a text that no match starts in. -/
theorem search_append {r : Regex α} {pre s : List α}
    (h : ∀ x y, pre = x ++ y → y ≠ [] → first r (y ++ s) = none) :
    search r (pre ++ s) = search r s := by
  induction pre with
  | nil => rfl
  | cons c pre ih =>
    rw [List.cons_append, search, ← List.cons_append, h [] (c :: pre) rfl (List.cons_ne_nil c pre),
      Option.none_or]
    exact ih fun x y hxy hy => h (c :: x) y (congrArg (c :: ·) hxy) hy

theorem search_eq_some_iff {r : Regex α} {s : List α} {m : Match α} :
    search r s = some m ↔ ∃ z t, s = z ++ t ∧ first r t = some m ∧
      ∀ x y, z = x ++ y → y ≠ [] → first r (y ++ t) = none := by
  constructor
  · intro h
    induction s with
    | nil =>
      refine ⟨[], [], rfl, h, fun x y hxy hy => ?_⟩
      exact absurd (List.append_eq_nil_iff.mp hxy.symm).2 hy
    | cons c s ih =>
      rw [search, Option.or_eq_some_iff] at h
      rcases h with h | ⟨hnone, h⟩
      · refine ⟨[], c :: s, rfl, h, fun x y hxy hy => ?_⟩
        exact absurd (List.append_eq_nil_iff.mp hxy.symm).2 hy
      · obtain ⟨z, t, rfl, hm, hz⟩ := ih h
        refine ⟨c :: z, t, rfl, hm, fun x y hxy hy => ?_⟩
        match x with
        | [] =>
          rw [List.nil_append] at hxy
          rw [← hxy]
          exact hnone
        | d :: x => exact hz x y (List.cons.inj hxy).2 hy
  · rintro ⟨z, t, rfl, hm, hz⟩
    rw [search_append hz]
    exact search_of_first hm

theorem search_eq_none_iff {r : Regex α} {s : List α} :
    search r s = none ↔ ∀ z t, s = z ++ t → first r t = none := by
  constructor
  · rintro h z t rfl
    induction z with
    | nil =>
      cases t with
      | nil => exact h
      | cons c t => exact (Option.or_eq_none_iff.mp h).1
    | cons c z ih => exact ih (Option.or_eq_none_iff.mp h).2
  · intro h
    induction s with
    | nil => exact h [] [] rfl
    | cons c s ih =>
      rw [search, h [] (c :: s) rfl, Option.none_or]
      exact ih fun z t hzt => h (c :: z) t (congrArg (c :: ·) hzt)

end Regex
