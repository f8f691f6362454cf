import Mathlib.Data.List.Pairwise
import Mathlib.Tactic.Linarith
import Taquito.Heads.Streams

/-!
# Heads without gaps

The levels that a stream emits are a run from the first head on. What carries it is that the last
head advances with every emitted block: a new head asks for what lies between the last *emitted*
block and itself, whatever was still under way.

The consumers then see a contiguous run, and what they hold is a function of it.
-/

open Js

namespace Heads

/-! ## Runs of levels -/

/-- So many blocks of a chain, from a level on. -/
def Chain.blocks (chain : Chain) (first : ℤ) (k : ℕ) : List Block :=
  (List.range k).map fun j : ℕ => chain.block (first + j)

section blocks

variable {chain : Chain} {first : ℤ} {k : ℕ}

@[simp] theorem length_blocks : (chain.blocks first k).length = k := by
  simp [Chain.blocks]

theorem blocks_succ : chain.blocks first (k + 1) = chain.blocks first k ++ [chain.block (first + k)] := by
  simp [Chain.blocks, List.range_succ]

theorem getLast?_blocks_succ : (chain.blocks first (k + 1)).getLast? = some (chain.block (first + k)) := by
  rw [blocks_succ, List.getLast?_append_of_ne_nil _ (List.cons_ne_nil _ _)]
  rfl

theorem mem_blocks {b : Block} :
    b ∈ chain.blocks first k ↔ ∃ level, first ≤ level ∧ level < first + k ∧ b = chain.block level := by
  rw [Chain.blocks, List.mem_map]
  constructor
  · rintro ⟨j, hj, rfl⟩
    rw [List.mem_range] at hj
    exact ⟨first + j, by omega, by omega, rfl⟩
  · rintro ⟨level, hge, hlt, rfl⟩
    refine ⟨(level - first).toNat, List.mem_range.mpr (by omega), ?_⟩
    congr 1
    omega

end blocks

/-- `range` without a count is empty. -/
theorem range_of_le {start count : ℤ} (h : count ≤ 0) : range start count = [] := by
  rw [range, Int.toNat_of_nonpos h]
  rfl

/-- `range` begins with its start. -/
theorem range_of_pos {start count : ℤ} (h : 0 < count) :
    range start count = start :: range (start + 1) (count - 1) := by
  have hsucc : count.toNat = (count - 1).toNat + 1 := by omega
  rw [range, hsucc, List.range_succ_eq_map, List.map_cons, List.map_map, range]
  congr 1
  · simp
  · apply List.map_congr_left
    intro i _
    simp only [Function.comp_apply]
    push_cast
    ring

/-! ## The invariant of the stream -/

section machine

variable {σ ε : Type} {chain : Chain} {consumer : Consumer σ ε}

/-- A property of what a consumer holds, after the blocks that were emitted, that it keeps. -/
structure Keeps (chain : Chain) (consumer : Consumer σ ε) (P : List Block → σ → Prop) : Prop where
  next : ∀ first k sink, P (chain.blocks first k) sink → consumer.subscribed sink = true →
    P (chain.blocks first (k + 1))
      (consumer.next (chain.blocks first k) (chain.block (first + k)) sink)
  act : ∀ e first k sink, P (chain.blocks first k) sink →
    P (chain.blocks first k) (consumer.act e (chain.blocks first k) sink)

variable {P : List Block → σ → Prop}

/-- What a stream emitted is a run from a level on. -/
structure Emitted (chain : Chain) (P : List Block → σ → Prop) (first : ℤ) (k : ℕ) (s : Stream σ) :
    Prop where
  emitted : s.emitted = chain.blocks first k
  lastHead : s.lastHead = s.emitted.getLast?
  sink : P s.emitted s.sink

/-- The inner observable asks for the levels between the last emitted block and the last head;
without one the last head is emitted. -/
def Inner (chain : Chain) (first last : ℤ) (k : ℕ) : Option (List ℤ × Block) → Prop
  | none => first + k - 1 = last
  | some (levels, newHead) => newHead = chain.block last
    ∧ first + k < last ∧ levels = range (first + k) (last - (first + k))

/-- The state of a stream after its first head: the run that it emitted does not pass the last head,
and while it is alive, it asks for the rest of it. -/
def Inv (chain : Chain) (consumer : Consumer σ ε) (P : List Block → σ → Prop) (first last : ℤ)
    (s : Stream σ) : Prop :=
  ∃ k, Emitted chain P first (k + 1) s ∧ first + k ≤ last
    ∧ (s.alive consumer = true → Inner chain first last (k + 1) s.inner)

/-- The state before the first head. -/
structure Idle (P : List Block → σ → Prop) (s : Stream σ) : Prop where
  emitted : s.emitted = []
  lastHead : s.lastHead = none
  inner : s.inner = none
  sink : P [] s.sink

section steps

variable (hkeeps : Keeps chain consumer P) {first last : ℤ} {k : ℕ} {s : Stream σ}

include hkeeps

/-- The next block of the run is emitted. -/
theorem emitted_emit (h : Emitted chain P first k s) (hsub : consumer.subscribed s.sink = true) :
    Emitted chain P first (k + 1) (emit consumer (chain.block (first + k)) s) := by
  have hblocks : s.emitted ++ [chain.block (first + k)] = chain.blocks first (k + 1) := by
    rw [h.emitted, blocks_succ]
  refine ⟨hblocks, ?_, ?_⟩
  · show some (chain.block (first + k)) = (s.emitted ++ [chain.block (first + k)]).getLast?
    rw [List.getLast?_concat]
  · show P (s.emitted ++ [chain.block (first + k)]) (consumer.next s.emitted _ s.sink)
    have hsink := h.sink
    rw [h.emitted] at hsink
    rw [hblocks, h.emitted]
    exact hkeeps.next first k s.sink hsink hsub

/-- The rest of an inner observable leads to the head that it ends with. -/
theorem inv_continueWith (h : Emitted chain P first (k + 1) s)
    (hsub : consumer.subscribed s.sink = true) (hlt : first + (k + 1 : ℕ) ≤ last) :
    Inv chain consumer P first last
      (continueWith consumer (range (first + (k + 1 : ℕ)) (last - (first + (k + 1 : ℕ))))
        (chain.block last) s) := by
  by_cases heq : first + (k + 1 : ℕ) = last
  · -- Nothing is missing: the head itself is the next block.
    rw [range_of_le (by omega), continueWith, ← heq]
    have hnone : Emitted chain P first (k + 1) { s with inner := none } :=
      ⟨h.emitted, h.lastHead, h.sink⟩
    refine ⟨k + 1, emitted_emit hkeeps hnone hsub, le_refl _, ?_⟩
    intro _
    show first + ((k + 1 + 1 : ℕ) : ℤ) - 1 = first + ((k + 1 : ℕ) : ℤ)
    push_cast
    ring
  · have hpos : 0 < last - (first + (k + 1 : ℕ)) := by omega
    have hrange := @range_of_pos (first + (k + 1 : ℕ)) _ hpos
    rw [hrange, continueWith, ← hrange]
    refine ⟨k, ⟨h.emitted, h.lastHead, h.sink⟩, by omega, ?_⟩
    intro _
    exact ⟨rfl, by omega, rfl⟩

/-- The first head is emitted. -/
theorem inv_receive_first (h : Idle P s) (hsub : consumer.subscribed s.sink = true) (level : ℤ) :
    Inv chain consumer P level level (receive consumer (chain.block level) s) := by
  have hidle : Emitted chain P level 0 { s with inner := none } := by
    refine ⟨h.emitted, ?_, ?_⟩
    · rw [h.lastHead, h.emitted]
      rfl
    · rw [h.emitted]
      exact h.sink
  have hemit := emitted_emit hkeeps hidle hsub
  rw [Nat.cast_zero, add_zero] at hemit
  have hreceive : receive consumer (chain.block level) s
      = emit consumer (chain.block level) { s with inner := none } := by
    rw [receive, h.lastHead]
    show continueWith consumer (range _ ((chain.block level).level - ((chain.block level).level - 1)
      - 1)) _ s = _
    rw [range_of_le (by omega), continueWith]
    rfl
  rw [hreceive]
  refine ⟨0, hemit, by simp, ?_⟩
  intro _
  show level + ((0 + 1 : ℕ) : ℤ) - 1 = level
  push_cast
  ring

/-- A later head asks for what lies between it and the last emitted block. -/
theorem inv_receive (h : Inv chain consumer P first last s) (halive : s.alive consumer = true)
    {level : ℤ} (hlevel : last < level) :
    Inv chain consumer P first level (receive consumer (chain.block level) s) := by
  obtain ⟨k, hemitted, hle, _⟩ := h
  have hsub : consumer.subscribed s.sink = true := (Bool.and_eq_true _ _ ▸ halive).2
  have hlast : s.lastHead = some (chain.block (first + k)) := by
    rw [hemitted.lastHead, hemitted.emitted, getLast?_blocks_succ]
  have hreceive : receive consumer (chain.block level) s
      = continueWith consumer (range (first + (k + 1 : ℕ)) (level - (first + (k + 1 : ℕ))))
        (chain.block level) s := by
    rw [receive, hlast]
    dsimp only [Option.map_some, Option.getD_some]
    rw [chain.level_block, chain.level_block]
    congr 2
    · push_cast
      ring
    · push_cast
      ring
  rw [hreceive]
  exact inv_continueWith hkeeps hemitted hsub (by push_cast; omega)

/-- A reply is the next block of the run. -/
theorem inv_reply (h : Inv chain consumer P first last s) (halive : s.alive consumer = true) :
    Inv chain consumer P first last (reply chain consumer s) := by
  obtain ⟨k, hemitted, hle, hinner⟩ := h
  have hsub : consumer.subscribed s.sink = true := (Bool.and_eq_true _ _ ▸ halive).2
  have hinner' := hinner halive
  match hs : s.inner, hinner' with
  | none, _ =>
    rw [reply, hs]
    exact ⟨k, hemitted, hle, hinner⟩
  | some (levels, newHead), ⟨hnew, hlt, hlevels⟩ =>
    rw [range_of_pos (by omega)] at hlevels
    subst hnew hlevels
    have hnone : Emitted chain P first (k + 1) { s with inner := none } :=
      ⟨hemitted.emitted, hemitted.lastHead, hemitted.sink⟩
    have hemit := emitted_emit hkeeps hnone hsub
    rw [reply, hs]
    dsimp only
    by_cases hsub' : consumer.subscribed
        (emit consumer (chain.block (first + (k + 1 : ℕ))) { s with inner := none }).sink = true
    · rw [if_pos hsub']
      have hcontinue := @inv_continueWith _ _ _ _ _ hkeeps _ last _ _ hemit hsub'
        (by push_cast at hlt ⊢; omega)
      have hrange : range (first + (k + 1 : ℕ) + 1) (last - (first + (k + 1 : ℕ)) - 1)
          = range (first + (k + 1 + 1 : ℕ)) (last - (first + (k + 1 + 1 : ℕ))) := by
        congr 1
        · push_cast
          ring
        · push_cast
          ring
      rw [hrange]
      exact hcontinue
    · -- Nothing is subscribed any more: the inner observable is left.
      rw [if_neg hsub']
      refine ⟨k + 1, hemit, by push_cast at hlt ⊢; omega, ?_⟩
      intro halive'
      exact absurd (Bool.and_eq_true _ _ ▸ halive').2 hsub'

end steps

/-! ## Runs -/

/-- Where a stream is in a run: before its first head, or after it; a stream that died before it
does not hear it. -/
def Reached (chain : Chain) (consumer : Consumer σ ε) (P : List Block → σ → Prop) (heads : List ℤ)
    (s : Stream σ) : Prop :=
  (Idle P s ∧ (heads = [] ∨ s.alive consumer = false))
    ∨ ∃ first last, heads.head? = some first ∧ heads.getLast? = some last
      ∧ Inv chain consumer P first last s

theorem heads_append (events events' : List (Event ε)) :
    heads (events ++ events') = heads events ++ heads events' := List.filterMap_append

/-- A delivered head is above the last one. -/
theorem last_lt {events : List (Event ε)} {level last : ℤ}
    (hinc : (heads (events ++ [.head level])).Pairwise (· < ·))
    (hlast : (heads events).getLast? = some last) : last < level := by
  rw [heads_append] at hinc
  exact (List.pairwise_append.mp hinc).2.2 last (List.mem_of_getLast? hlast) level
    (List.mem_singleton.mpr rfl)

/-- **A step of a stream that is alive keeps its run.** -/
theorem reached_step_alive (hkeeps : Keeps chain consumer P) {events : List (Event ε)} {s : Stream σ}
    (h : Reached chain consumer P (heads events) s) (halive : s.alive consumer = true)
    (event : Event ε) (hinc : (heads (events ++ [event])).Pairwise (· < ·)) :
    Reached chain consumer P (heads (events ++ [event])) (step chain consumer s event) := by
  have hsub : consumer.subscribed s.sink = true := (Bool.and_eq_true _ _ ▸ halive).2
  unfold step
  rw [if_pos halive, heads_append]
  rcases h with ⟨hidle, hnone⟩ | ⟨first, last, hfirst, hlast, hinv⟩
  · have hheads : heads events = [] := by
      rcases hnone with hnone | hnone
      · exact hnone
      · rw [halive] at hnone
        cases hnone
    rw [hheads]
    match event with
    | .head level =>
      exact Or.inr ⟨level, level, rfl, rfl, inv_receive_first hkeeps hidle hsub level⟩
    | .reply =>
      refine Or.inl ⟨?_, Or.inl rfl⟩
      rw [reply, hidle.inner]
      exact hidle
    | .error => exact Or.inl ⟨⟨hidle.emitted, hidle.lastHead, rfl, hidle.sink⟩, Or.inl rfl⟩
    | .act e =>
      refine Or.inl ⟨⟨hidle.emitted, hidle.lastHead, hidle.inner, ?_⟩, Or.inl rfl⟩
      show P [] (consumer.act e s.emitted s.sink)
      rw [hidle.emitted]
      exact hkeeps.act e 0 0 s.sink hidle.sink
  · match event, hinc with
    | .head level, hinc =>
      refine Or.inr ⟨first, level, ?_, ?_, inv_receive hkeeps hinv halive (last_lt hinc hlast)⟩
      · rw [List.head?_append, hfirst]
        rfl
      · exact List.getLast?_concat
    | .reply, _ =>
      refine Or.inr ⟨first, last, ?_, ?_, inv_reply hkeeps hinv halive⟩
      · simpa [heads] using hfirst
      · simpa [heads] using hlast
    | .error, _ =>
      obtain ⟨k, hemitted, hle, _⟩ := hinv
      refine Or.inr ⟨first, last, by simpa [heads] using hfirst, by simpa [heads] using hlast, k,
        ⟨hemitted.emitted, hemitted.lastHead, hemitted.sink⟩, hle, ?_⟩
      intro hdead
      cases (Bool.and_eq_true _ _ ▸ hdead).1
    | .act e, _ =>
      obtain ⟨k, hemitted, hle, hinner⟩ := hinv
      refine Or.inr ⟨first, last, by simpa [heads] using hfirst, by simpa [heads] using hlast, k,
        ⟨hemitted.emitted, hemitted.lastHead, ?_⟩, hle, fun _ => hinner halive⟩
      have hsink := hemitted.sink
      show P s.emitted (consumer.act e s.emitted s.sink)
      rw [hemitted.emitted] at hsink ⊢
      exact hkeeps.act e first (k + 1) s.sink hsink

/-- **A step keeps the run.** -/
theorem reached_step (hkeeps : Keeps chain consumer P) {events : List (Event ε)} {s : Stream σ}
    (h : Reached chain consumer P (heads events) s) (event : Event ε)
    (hinc : (heads (events ++ [event])).Pairwise (· < ·)) :
    Reached chain consumer P (heads (events ++ [event])) (step chain consumer s event) := by
  by_cases halive : s.alive consumer = true
  · exact reached_step_alive hkeeps h halive event hinc
  -- A stream that is not alive takes no notice.
  have hdead : s.alive consumer = false := Bool.eq_false_iff.mpr halive
  unfold step
  rw [if_neg halive, heads_append]
  rcases h with ⟨hidle, _⟩ | ⟨first, last, hfirst, hlast, k, hemitted, hle, _⟩
  · exact Or.inl ⟨hidle, Or.inr hdead⟩
  · have hfirst' : (heads events ++ heads [event]).head? = some first := by
      rw [List.head?_append, hfirst]
      rfl
    match event, hinc with
    | .head level, hinc =>
      have hlt := last_lt hinc hlast
      exact Or.inr ⟨first, level, hfirst', List.getLast?_concat, k, hemitted, by omega,
        fun h => absurd h halive⟩
    | .reply, _ | .error, _ | .act _, _ =>
      exact Or.inr ⟨first, last, hfirst', by simpa [heads] using hlast, k, hemitted, hle,
        fun h => absurd h halive⟩

/-- **Every run keeps it**, whatever the order of heads, replies and acts. -/
theorem reached_run (hkeeps : Keeps chain consumer P) {sink : σ} (hsink : P [] sink)
    (events : List (Event ε)) (hinc : (heads events).Pairwise (· < ·)) :
    Reached chain consumer P (heads events) (run chain consumer sink events) := by
  induction events using List.reverseRecOn with
  | nil => exact Or.inl ⟨⟨rfl, rfl, rfl, hsink⟩, Or.inl rfl⟩
  | append_singleton events event ih =>
    have hinc' : (heads events).Pairwise (· < ·) := by
      rw [heads_append] at hinc
      exact (List.pairwise_append.mp hinc).1
    rw [run, List.foldl_append]
    exact reached_step hkeeps (ih hinc') event hinc

end machine

end Heads
