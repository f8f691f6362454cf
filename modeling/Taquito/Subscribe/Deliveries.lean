import Mathlib.Data.List.Nodup
import Taquito.Subscribe.ObservableSubscription

/-!
# Deliveries

A loop over listeners goes through an array that changes under it. What carries the proof is the
part of the array that is still ahead of it: first the listeners that wait since the event arrived,
then listeners that were registered later (`Ahead`). Registering adds to the second part, and
removing takes from either, as long as it does not move the place where the loop stands.
-/

namespace Subscribe

variable {L D X : Type} [DecidableEq L]

/-! ## One loop -/

namespace Delivery

variable {d : Delivery L D X} {l : Registration L} {ls : List (Registration L)}

theorem mem_pending : l ∈ d.pending ↔ l ∈ d.registered ∧ l ∉ d.called ∧ l ∉ d.removed := by
  rw [pending, List.mem_filter, decide_eq_true_iff]

/-- What is ahead of a loop that has passed `k` places of an array. -/
def Ahead (ls : List (Registration L)) (k : ℕ) (d : Delivery L D X) : Prop :=
  ∃ later, ls.drop k = d.pending ++ later ∧ ∀ l ∈ later, l ∉ d.registered

/-- The loop when `l` is called. -/
def calls (l : Registration L) (d : Delivery L D X) : Delivery L D X :=
  { d with called := d.called ++ [l] }

theorem pending_calls : (d.calls l).pending = d.pending.filter (· ≠ l) := by
  rw [pending, pending, List.filter_filter]
  apply List.filter_congr
  intro m _
  rw [Bool.eq_iff_iff]
  simp only [calls, List.mem_append, List.mem_singleton, not_or, Bool.and_eq_true,
    decide_eq_true_iff]
  tauto

theorem pending_withdraw : (d.withdraw l).pending = d.pending.filter (· ≠ l) := by
  unfold withdraw
  by_cases h : l ∈ d.registered ∧ l ∉ d.called
  · rw [if_pos h, pending, pending, List.filter_filter]
    apply List.filter_congr
    intro m _
    rw [Bool.eq_iff_iff]
    simp only [List.mem_append, List.mem_singleton, not_or, Bool.and_eq_true, decide_eq_true_iff]
    tauto
  · rw [if_neg h, eq_comm, List.filter_eq_self]
    intro m hm
    obtain ⟨hregistered, hcalled, -⟩ := mem_pending.mp hm
    rw [decide_eq_true_iff]
    rintro rfl
    exact h ⟨hregistered, hcalled⟩

theorem registered_withdraw : (d.withdraw l).registered = d.registered := by
  unfold withdraw
  split <;> rfl

/-- Removing a listener keeps the order of the others. -/
theorem InOrder.withdraw (h : d.InOrder) (l : Registration L) : (d.withdraw l).InOrder := by
  by_cases hl : l ∈ d.registered ∧ l ∉ d.called
  · have hcalled : (d.called.filter (· ∈ d.registered)).filter (· ≠ l) =
        d.called.filter (· ∈ d.registered) := by
      rw [List.filter_eq_self]
      intro m hm
      rw [decide_eq_true_iff]
      rintro rfl
      exact hl.2 (List.mem_of_mem_filter hm)
    have hremoved : (d.registered.filter (· ∉ d.removed)).filter (· ≠ l) =
        d.registered.filter (· ∉ d.removed ++ [l]) := by
      rw [List.filter_filter]
      apply List.filter_congr
      intro m _
      rw [Bool.eq_iff_iff]
      simp only [List.mem_append, List.mem_singleton, not_or, Bool.and_eq_true, decide_eq_true_iff]
      tauto
    have h' := congrArg (List.filter (· ≠ l)) h
    rw [List.filter_append, hcalled, hremoved, ← pending_withdraw] at h'
    rw [InOrder]
    unfold Delivery.withdraw at h' ⊢
    rw [if_pos hl] at h' ⊢
    exact h'
  · unfold Delivery.withdraw
    rw [if_neg hl]
    exact h

/-- The listener that stands where the loop stands is the first of those that wait, or a later one
when none waits. -/
theorem Ahead.calls (hahead : d.Ahead ls d.index) (horder : d.InOrder) (hnodup : d.registered.Nodup)
    (hl : ls[d.index]? = some l) :
    (d.calls l).Ahead ls (d.index + 1) ∧ (d.calls l).InOrder := by
  obtain ⟨later, hdrop, hlater⟩ := hahead
  have hcons : ls.drop d.index = l :: ls.drop (d.index + 1) := by
    obtain ⟨hlt, rfl⟩ := List.getElem?_eq_some_iff.mp hl
    exact List.drop_eq_getElem_cons hlt
  rw [hcons] at hdrop
  have hpending := @pending_calls _ _ _ _ d l
  cases hp : d.pending with
  | nil =>
    rw [hp, List.nil_append] at hdrop
    have hnot : l ∉ d.registered := hlater l (by rw [← hdrop]; exact List.mem_cons_self)
    rw [hp, List.filter_nil] at hpending
    constructor
    · refine ⟨ls.drop (d.index + 1), by rw [hpending, List.nil_append], fun m hm => hlater m ?_⟩
      rw [← hdrop]
      exact List.mem_cons_of_mem l hm
    · have hfilter : (d.called ++ [l]).filter (· ∈ d.registered) =
          d.called.filter (· ∈ d.registered) := by
        rw [List.filter_append, List.filter_cons_of_neg (by simpa using hnot), List.filter_nil,
          List.append_nil]
      rw [InOrder, hp] at horder
      rw [InOrder, hpending]
      exact (congrArg (· ++ []) hfilter).trans horder
  | cons p ps =>
    rw [hp, List.cons_append] at hdrop
    obtain ⟨rfl, htail'⟩ := List.cons.inj hdrop
    have hmem : l ∈ d.registered := (mem_pending.mp (hp ▸ List.mem_cons_self)).1
    have hps : l ∉ ps := by
      have hnodup' := hnodup.filter fun l => decide (l ∉ d.called ∧ l ∉ d.removed)
      rw [← pending, hp] at hnodup'
      exact (List.nodup_cons.mp hnodup').1
    have htail : (d.calls l).pending = ps := by
      rw [hpending, hp, List.filter_cons_of_neg (by simp), List.filter_eq_self]
      intro m hm
      rw [decide_eq_true_iff]
      rintro rfl
      exact hps hm
    constructor
    · exact ⟨later, by rw [htail, htail'], hlater⟩
    · have hfilter : (d.called ++ [l]).filter (· ∈ d.registered) =
          d.called.filter (· ∈ d.registered) ++ [l] := by
        rw [List.filter_append, List.filter_cons_of_pos (by simpa using hmem), List.filter_nil]
      rw [InOrder, hp, ← List.singleton_append, ← List.append_assoc] at horder
      rw [InOrder, htail]
      exact (congrArg (· ++ ps) hfilter).trans horder

/-- A loop at the end of its array has called all. -/
theorem Ahead.pending_eq_nil (hahead : d.Ahead ls d.index) (hl : ls[d.index]? = none) :
    d.pending = [] := by
  obtain ⟨later, hdrop, -⟩ := hahead
  rw [List.drop_of_length_le (List.getElem?_eq_none_iff.mp hl)] at hdrop
  exact (List.append_eq_nil_iff.mp hdrop.symm).1

/-- A registration is added behind. -/
theorem Ahead.push {k : ℕ} (hahead : d.Ahead ls k) (hl : l ∉ d.registered) :
    d.Ahead (ls ++ [l]) k := by
  obtain ⟨later, hdrop, hlater⟩ := hahead
  refine ⟨later ++ [l].drop (k - ls.length), ?_, fun m hm => ?_⟩
  · rw [List.drop_append, hdrop, List.append_assoc]
  · rcases List.mem_append.mp hm with hm | hm
    · exact hlater m hm
    · obtain rfl := List.mem_singleton.mp (List.mem_of_mem_drop hm)
      exact hl

/-- A removal ahead of the loop, or one behind which nothing waits. -/
theorem Ahead.remove {k j : ℕ} (hahead : d.Ahead ls k) (hnodup : d.registered.Nodup)
    (hl : ls[j]? = some l) (hj : k ≤ j ∨ d.pending = []) :
    (d.withdraw l).Ahead (ls.eraseIdx j) k := by
  obtain ⟨later, hdrop, hlater⟩ := hahead
  obtain ⟨hlt, hget⟩ := List.getElem?_eq_some_iff.mp hl
  rw [Ahead, pending_withdraw]
  rcases Nat.lt_or_ge j k with hjk | hkj
  · -- the array is shifted under the loop, but nothing waits
    have hnil := hj.resolve_left (Nat.not_le.mpr hjk)
    rw [hnil, List.nil_append] at hdrop
    refine ⟨(ls.eraseIdx j).drop k, by rw [hnil]; rfl, fun m hm => ?_⟩
    obtain ⟨i, hi⟩ := List.mem_iff_getElem?.mp hm
    rw [List.getElem?_drop, List.getElem?_eraseIdx_of_ge (by omega)] at hi
    rw [registered_withdraw]
    apply hlater m
    rw [← hdrop]
    refine List.mem_iff_getElem?.mpr ⟨i + 1, ?_⟩
    rw [List.getElem?_drop]
    exact hi
  · have hsplit : (ls.eraseIdx j).drop k = (ls.drop k).eraseIdx (j - k) := by
      have htake : (ls.take k).length = k := by
        rw [List.length_take]
        omega
      conv_lhs => rw [← List.take_append_drop k ls]
      rw [List.eraseIdx_append_of_length_le (by omega), List.drop_left' htake, htake]
    have hplace : (ls.drop k)[j - k]? = some l := by
      rw [List.getElem?_drop, Nat.add_sub_cancel' hkj]
      exact hl
    rw [hsplit]
    rw [hdrop] at hplace ⊢
    rcases Nat.lt_or_ge (j - k) d.pending.length with hwaits | hlaters
    · refine ⟨later, ?_, fun m hm => ?_⟩
      · rw [List.getElem?_append_left hwaits] at hplace
        obtain ⟨hlt', rfl⟩ := List.getElem?_eq_some_iff.mp hplace
        have hnodup' : d.pending.Nodup := hnodup.filter _
        rw [List.eraseIdx_append_of_lt_length hwaits, ← hnodup'.erase_getElem _ hwaits,
          hnodup'.erase_eq_filter]
        congr 1
        apply List.filter_congr
        intro m _
        rw [Bool.eq_iff_iff, bne_iff_ne, decide_eq_true_iff]
      · rw [registered_withdraw]
        exact hlater m hm
    · rw [List.getElem?_append_right hlaters] at hplace
      have hmem : l ∈ later := List.mem_of_getElem? hplace
      have hself : d.pending.filter (· ≠ l) = d.pending := by
        rw [List.filter_eq_self]
        intro m hm
        rw [decide_eq_true_iff]
        rintro rfl
        exact hlater m hmem (mem_pending.mp hm).1
      rw [hself, List.eraseIdx_append_of_length_le hlaters]
      refine ⟨_, rfl, fun m hm => ?_⟩
      rw [registered_withdraw]
      exact hlater m (List.mem_of_mem_eraseIdx hm)

end Delivery

/-! ## What a state keeps -/

variable {resubscribes : Resubscribes} {s : State L D X} {a : Stream D} {d : Delivery L D X}

/-- What holds of a loop that has passed `k` places. -/
structure Loop (s : State L D X) (k : ℕ) (d : Delivery L D X) : Prop where
  nodup : d.registered.Nodup
  old : ∀ l ∈ d.registered, l.id < s.next
  ahead : d.Ahead (s.listeners d.event.type) k

/-- What holds between the acts, the loops apart. A loop over error listeners runs alone, and with
it the stream is where the operator will leave it. -/
structure Base (resubscribes : Resubscribes) (s : State L D X) (a : Stream D) : Prop
    extends Told s a where
  nodup : ∀ t, (s.listeners t).Nodup
  old : ∀ t, ∀ l ∈ s.listeners t, l.id < s.next
  errors : s.errors = a.errors
  live : (∀ e ∈ s.running.map Delivery.event, e.type ≠ .error) → s.live = decide (a.phase = .active)
  failing : ∀ e ∈ s.running.map Delivery.event, e.type = .error → s.running.length = 1 ∧
    s.live = false ∧ a.phase = if resubscribes s.errors then .active else .failed

/-- What holds between the acts. -/
structure Inv (resubscribes : Resubscribes) (s : State L D X) (a : Stream D) : Prop
    extends Base resubscribes s a where
  loops : ∀ d ∈ s.running, Loop s (d.index + 1) d

/-! ## The loop goes on -/

omit [DecidableEq L] in
theorem proceed_of_some {rest : List (Delivery L D X)} {l : Registration L}
    (hrunning : s.running = d :: rest) (hl : (s.listeners d.event.type)[d.index]? = some l) :
    proceed resubscribes s = { s with running := d.calls l :: rest } := by
  rw [proceed, hrunning]
  dsimp only
  rw [hl]
  rfl

omit [DecidableEq L] in
theorem proceed_of_none {rest : List (Delivery L D X)} (hrunning : s.running = d :: rest)
    (hl : (s.listeners d.event.type)[d.index]? = none) :
    proceed resubscribes s = { s with
      running := rest
      finished := s.finished ++ [d]
      live := if d.event.type = .error then resubscribes s.errors else s.live } := by
  rw [proceed, hrunning]
  dsimp only
  rw [hl]

/-- A listener is called. -/
theorem Base.calls {rest : List (Delivery L D X)} {l : Registration L}
    (h : Base resubscribes s a) (hrunning : s.running = d :: rest)
    (htop : Loop s d.index d) (hrest : ∀ e ∈ rest, Loop s (e.index + 1) e)
    (hl : (s.listeners d.event.type)[d.index]? = some l) :
    Inv resubscribes { s with running := d.calls l :: rest } a := by
  obtain ⟨hahead, horder⟩ := htop.ahead.calls
    (h.inOrder d (List.mem_append_right _ (hrunning ▸ List.mem_cons_self))) htop.nodup hl
  have hevents : (d.calls l :: rest).map Delivery.event = s.running.map Delivery.event := by
    rw [hrunning]
    rfl
  have hall : State.events { s with running := d.calls l :: rest } = s.events := by
    rw [State.events, State.events, List.map_append, List.map_append, hevents]
  refine { h with inOrder := ?_, data := ?_, closes := ?_, live := ?_, failing := ?_, loops := ?_ }
  · intro e he
    rcases List.mem_append.mp he with he | he
    · exact h.inOrder e (List.mem_append_left _ he)
    · rcases List.mem_cons.mp he with rfl | he
      · exact horder
      · exact h.inOrder e (List.mem_append_right _ (hrunning ▸ List.mem_cons_of_mem _ he))
  · rw [hall]
    exact h.data
  · rw [hall]
    exact h.closes
  · rw [hevents]
    exact h.live
  · rw [hevents]
    intro e he herror
    obtain ⟨hlength, hlive, hphase⟩ := h.failing e he herror
    rw [hrunning] at hlength
    exact ⟨hlength, hlive, hphase⟩
  · intro e he
    rcases List.mem_cons.mp he with rfl | he
    · exact ⟨htop.nodup, htop.old, hahead⟩
    · have hloop := hrest e he
      exact ⟨hloop.nodup, hloop.old, hloop.ahead⟩

/-- A loop ends. -/
theorem Base.ends {rest : List (Delivery L D X)} (h : Base resubscribes s a)
    (hrunning : s.running = d :: rest) (htop : Loop s d.index d)
    (hrest : ∀ e ∈ rest, Loop s (e.index + 1) e)
    (hl : (s.listeners d.event.type)[d.index]? = none) :
    Inv resubscribes { s with
      running := rest
      finished := s.finished ++ [d]
      live := if d.event.type = .error then resubscribes s.errors else s.live } a := by
  have hpending := htop.ahead.pending_eq_nil hl
  have hloops : (s.finished ++ [d]) ++ rest = s.finished ++ s.running := by
    rw [hrunning, List.append_assoc]
    rfl
  have hevents : d.event ∈ s.running.map Delivery.event := by
    rw [hrunning]
    exact List.mem_cons_self
  refine ⟨⟨⟨?_, ?_, ?_, ?_⟩, h.nodup, h.old, h.errors, ?_, ?_⟩, ?_⟩
  · rw [hloops]
    exact h.inOrder
  · intro e he
    rcases List.mem_append.mp he with he | he
    · exact h.finished e he
    · obtain rfl := List.mem_singleton.mp he
      exact hpending
  · rw [State.events, hloops]
    exact h.data
  · rw [State.events, hloops]
    exact h.closes
  · intro hnone
    by_cases herror : d.event.type = .error
    · obtain ⟨-, -, hphase⟩ := h.failing d.event hevents herror
      dsimp only
      rw [if_pos herror, hphase]
      cases resubscribes s.errors <;> rfl
    · dsimp only
      rw [if_neg herror]
      apply h.live
      rw [hrunning]
      intro e he
      rcases List.mem_cons.mp he with rfl | he
      · exact herror
      · exact hnone e he
  · intro e he herror
    -- an error loop would run alone
    have hmem : e ∈ s.running.map Delivery.event := by
      rw [hrunning]
      exact List.mem_cons_of_mem _ he
    obtain ⟨hlength, -, -⟩ := h.failing e hmem herror
    rw [hrunning, List.length_cons] at hlength
    obtain rfl : rest = [] := List.length_eq_zero_iff.mp (by omega)
    exact absurd he List.not_mem_nil
  · intro e he
    have hloop := hrest e he
    exact ⟨hloop.nodup, hloop.old, hloop.ahead⟩

theorem Base.proceed {rest : List (Delivery L D X)} (h : Base resubscribes s a)
    (hrunning : s.running = d :: rest) (htop : Loop s d.index d)
    (hrest : ∀ e ∈ rest, Loop s (e.index + 1) e) :
    Inv resubscribes (proceed resubscribes s) a := by
  cases hl : (s.listeners d.event.type)[d.index]? with
  | some l =>
    rw [proceed_of_some hrunning hl]
    exact h.calls hrunning htop hrest hl
  | none =>
    rw [proceed_of_none hrunning hl]
    exact h.ends hrunning htop hrest hl

/-- A listener returns or throws. -/
theorem Inv.returns {rest : List (Delivery L D X)} (h : Inv resubscribes s a)
    (hrunning : s.running = d :: rest) :
    Inv resubscribes
      (Subscribe.proceed resubscribes
        { s with running := { d with index := d.index + 1 } :: rest }) a := by
  have hevents : s.running.map Delivery.event =
      ({ d with index := d.index + 1 } :: rest).map Delivery.event := by
    rw [hrunning]
    rfl
  have hall : State.events { s with running := { d with index := d.index + 1 } :: rest } =
      s.events := by
    rw [State.events, State.events, List.map_append, List.map_append, hevents]
  have hmem : ∀ e ∈ d :: rest, e ∈ s.running := fun e he => hrunning ▸ he
  have hbase : Base resubscribes
      { s with running := { d with index := d.index + 1 } :: rest } a := by
    refine { h with inOrder := ?_, data := ?_, closes := ?_, live := ?_, failing := ?_ }
    · intro e he
      rcases List.mem_append.mp he with he | he
      · exact h.inOrder e (List.mem_append_left _ he)
      · rcases List.mem_cons.mp he with rfl | he
        · exact h.inOrder d (List.mem_append_right _ (hmem d List.mem_cons_self))
        · exact h.inOrder e (List.mem_append_right _ (hmem e (List.mem_cons_of_mem _ he)))
    · rw [hall]
      exact h.data
    · rw [hall]
      exact h.closes
    · rw [← hevents]
      exact h.live
    · rw [← hevents]
      intro e he herror
      obtain ⟨hlength, hlive, hphase⟩ := h.failing e he herror
      rw [hrunning] at hlength
      exact ⟨hlength, hlive, hphase⟩
  have htop := h.loops d (hmem d List.mem_cons_self)
  refine hbase.proceed rfl ⟨htop.nodup, htop.old, htop.ahead⟩ fun e he => ?_
  have hloop := h.loops e (hmem e (List.mem_cons_of_mem _ he))
  exact ⟨hloop.nodup, hloop.old, hloop.ahead⟩

/-! ## An event arrives -/

/-- A loop that begins, with what the act makes of the stream. -/
theorem Inv.call {a' : Stream D} {event : Event D X} (h : Inv resubscribes s a) (live : Bool)
    (errors : ℕ)
    (hdata : (s.finished.map Delivery.event ++ event :: s.running.map Delivery.event).filterMap
      Event.data? = a'.arrived)
    (hcloses : (s.finished.map Delivery.event ++ event :: s.running.map Delivery.event).countP
      (fun e => e.type = .close) = if a'.phase = .over then 1 else 0)
    (herrors : errors = a'.errors)
    (hlive : (∀ e ∈ event :: s.running.map Delivery.event, e.type ≠ .error) →
      live = decide (a'.phase = .active))
    (hfailing : ∀ e ∈ event :: s.running.map Delivery.event, e.type = .error →
      s.running = [] ∧ live = false ∧ a'.phase = if resubscribes errors then .active else .failed) :
    Inv resubscribes (Subscribe.call resubscribes event { s with live := live, errors := errors })
      a' := by
  have horder : Delivery.InOrder (⟨event, 0, s.listeners event.type, [], []⟩ : Delivery L D X) := by
    simp [Delivery.InOrder, Delivery.pending]
  have hpending : Delivery.pending (⟨event, 0, s.listeners event.type, [], []⟩ : Delivery L D X) =
      s.listeners event.type := by
    simp [Delivery.pending]
  have hevents : State.events { s with
      live := live, errors := errors
      running := ⟨event, 0, s.listeners event.type, [], []⟩ :: s.running } =
      s.finished.map Delivery.event ++ event :: s.running.map Delivery.event := by
    rw [State.events, List.map_append]
    rfl
  have hbase : Base resubscribes { s with
      live := live, errors := errors
      running := ⟨event, 0, s.listeners event.type, [], []⟩ :: s.running } a' := by
    refine ⟨⟨?_, h.finished, ?_, ?_⟩, h.nodup, h.old, herrors, hlive, ?_⟩
    · intro e he
      rcases List.mem_append.mp he with he | he
      · exact h.inOrder e (List.mem_append_left _ he)
      · rcases List.mem_cons.mp he with rfl | he
        · exact horder
        · exact h.inOrder e (List.mem_append_right _ he)
    · rw [hevents]
      exact hdata
    · rw [hevents]
      exact hcloses
    · intro e he herror
      obtain ⟨hnil, hlive, hphase⟩ := hfailing e he herror
      refine ⟨?_, hlive, hphase⟩
      rw [hnil]
      rfl
  refine hbase.proceed rfl ⟨h.nodup _, h.old _, [], ?_, ?_⟩ fun e he => ?_
  · rw [hpending, List.append_nil]
    rfl
  · exact fun l hl => absurd hl List.not_mem_nil
  · have hloop := h.loops e he
    exact ⟨hloop.nodup, hloop.old, hloop.ahead⟩

/-! ## An array changes -/

/-- One array changes, and with it the records of the loops over it. -/
theorem Inv.change (h : Inv resubscribes s a) (t : EventType) (ls : List (Registration L)) (next : ℕ)
    (f : Delivery L D X → Delivery L D X) (hnodup : ls.Nodup)
    (hold : ∀ l ∈ ls, l.id < next) (hnext : s.next ≤ next)
    (hf : ∀ d, (f d).event = d.event ∧ (f d).index = d.index ∧ (f d).registered = d.registered)
    (horder : ∀ d, d.InOrder → (f d).InOrder)
    (hsame : ∀ d ∈ s.running, d.event.type = t → (f d).Ahead ls (d.index + 1))
    (hother : ∀ d, d.event.type ≠ t → f d = d) :
    Inv resubscribes { s.setListeners ls t with running := s.running.map f, next := next } a := by
  obtain ⟨ls₁, ls₂, ls₃, hset⟩ := s.setListeners_eq ls t
  have hlisteners (t' : EventType) :
      State.listeners { s.setListeners ls t with running := s.running.map f, next := next } t' =
        if t' = t then ls else s.listeners t' := by
    rw [← State.listeners_setListeners]
    cases t' <;> rfl
  have hevents : (s.running.map f).map Delivery.event = s.running.map Delivery.event := by
    rw [List.map_map]
    exact List.map_congr_left fun d _ => (hf d).1
  have hall : State.events { s.setListeners ls t with
      running := s.running.map f, next := next } = s.events := by
    rw [hset, State.events, State.events, List.map_append, List.map_append]
    dsimp only
    rw [hevents]
  refine ⟨⟨⟨?_, ?_, ?_, ?_⟩, ?_, ?_, ?_, ?_, ?_⟩, ?_⟩
  · rw [hset]
    intro d hd
    rcases List.mem_append.mp hd with hd | hd
    · exact h.inOrder d (List.mem_append_left _ hd)
    · obtain ⟨e, he, rfl⟩ := List.mem_map.mp hd
      exact horder e (h.inOrder e (List.mem_append_right _ he))
  · rw [hset]
    exact h.finished
  · rw [hall]
    exact h.data
  · rw [hall]
    exact h.closes
  · intro t'
    rw [hlisteners]
    split
    · exact hnodup
    · exact h.nodup t'
  · intro t'
    rw [hlisteners]
    split
    · exact hold
    · exact fun l hl => Nat.lt_of_lt_of_le (h.old t' l hl) hnext
  · rw [hset]
    exact h.errors
  · rw [hset]
    dsimp only
    rw [hevents]
    exact h.live
  · rw [hset]
    dsimp only
    rw [hevents, List.length_map]
    exact h.failing
  · intro d hd
    obtain ⟨e, he, rfl⟩ := List.mem_map.mp hd
    have hloop := h.loops e he
    obtain ⟨hevent, hindex, hregistered⟩ := hf e
    refine ⟨?_, ?_, ?_⟩
    · rw [hregistered]
      exact hloop.nodup
    · rw [hregistered]
      exact fun l hl => Nat.lt_of_lt_of_le (hloop.old l hl) hnext
    · rw [hlisteners, hevent, hindex]
      split
      · next ht => exact hsame e he ht
      · next ht =>
        rw [hother e ht]
        exact hloop.ahead

/-- `on`. -/
theorem Inv.on (h : Inv resubscribes s a) (t : EventType) (cb : L) :
    Inv resubscribes { s.setListeners (s.listeners t ++ [⟨s.next, cb⟩]) t with
      next := s.next + 1 } a := by
  have hfresh : (⟨s.next, cb⟩ : Registration L) ∉ s.listeners t := fun hmem =>
    absurd (h.old t _ hmem) (Nat.lt_irrefl _)
  have hchange := h.change t (s.listeners t ++ [⟨s.next, cb⟩]) (s.next + 1) id ?_ ?_ (Nat.le_succ _) (fun d => ⟨rfl, rfl, rfl⟩) (fun d hd => hd) ?_ fun d _ => rfl
  · obtain ⟨ls₁, ls₂, ls₃, hset⟩ := s.setListeners_eq (s.listeners t ++ [⟨s.next, cb⟩]) t
    rw [hset] at hchange ⊢
    rw [List.map_id] at hchange
    exact hchange
  · rw [List.nodup_append]
    refine ⟨h.nodup t, List.nodup_singleton _, fun l hl m hm => ?_⟩
    obtain rfl := List.mem_singleton.mp hm
    rintro rfl
    exact hfresh hl
  · intro l hl
    rcases List.mem_append.mp hl with hl | hl
    · exact Nat.lt_succ_of_lt (h.old t l hl)
    · obtain rfl := List.mem_singleton.mp hl
      exact Nat.lt_succ_self _
  · intro d hd ht
    have hloop := h.loops d hd
    rw [← ht] at hfresh ⊢
    exact hloop.ahead.push fun hmem => absurd (hloop.old _ hmem) (Nat.lt_irrefl _)

/-- `off`, of a listener that no loop has passed while others wait. -/
theorem Inv.off (h : Inv resubscribes s a) {t : EventType} {cb : L}
    (hharmless : ∀ d ∈ s.running, d.event.type = t → d.pending ≠ [] →
      d.index < (s.listeners t).findIdx fun l => l.callback = cb) :
    Inv resubscribes (remove t cb s) a := by
  unfold remove
  dsimp only
  generalize (s.listeners t).findIdx (fun l => decide (l.callback = cb)) = idx at hharmless ⊢
  split
  · exact h
  · next l hl =>
    have hchange := h.change t _ s.next
      (fun d => if d.event.type = t then d.withdraw l else d) ((h.nodup t).eraseIdx idx)
      (fun m hm => h.old t m (List.mem_of_mem_eraseIdx hm)) (Nat.le_refl _) (fun d => ?_)
      (fun d hd => ?_) (fun d hd ht => ?_) fun d ht => if_neg ht
    · obtain ⟨ls₁, ls₂, ls₃, hset⟩ := s.setListeners_eq ((s.listeners t).eraseIdx idx) t
      rw [hset] at hchange ⊢
      exact hchange
    · split
      · unfold Delivery.withdraw
        split
        · exact ⟨rfl, rfl, rfl⟩
        · exact ⟨rfl, rfl, rfl⟩
      · exact ⟨rfl, rfl, rfl⟩
    · split
      · exact hd.withdraw l
      · exact hd
    · have hloop := h.loops d hd
      have hahead := hloop.ahead
      rw [ht] at hahead
      rw [if_pos ht]
      refine hahead.remove hloop.nodup hl ?_
      by_cases hnil : d.pending = []
      · exact .inr hnil
      · exact .inl (hharmless d hd ht hnil)

/-! ## Runs -/

theorem inv_initial : Inv resubscribes (initial : State L D X) ⟨.active, 0, []⟩ := by
  refine ⟨⟨⟨?_, ?_, rfl, rfl⟩, ?_, ?_, rfl, fun _ => rfl, ?_⟩, ?_⟩
  · exact fun d hd => absurd hd List.not_mem_nil
  · exact fun d hd => absurd hd List.not_mem_nil
  · intro t
    cases t <;> exact List.nodup_nil
  · intro t l hl
    cases t <;> exact absurd hl List.not_mem_nil
  · exact fun e he => absurd he List.not_mem_nil
  · exact fun d hd => absurd hd List.not_mem_nil

/-- A subscription that is not stopped stands where the stream is active. -/
theorem Inv.active (h : Inv resubscribes s a) (hlive : s.live = true) :
    a.phase = .active ∧ ∀ e ∈ s.running.map Delivery.event, e.type ≠ .error := by
  have hnone : ∀ e ∈ s.running.map Delivery.event, e.type ≠ .error := by
    intro e he herror
    have hstopped := (h.failing e he herror).2.1
    rw [hlive] at hstopped
    cases hstopped
  have hphase := h.live hnone
  rw [hlive] at hphase
  exact ⟨of_decide_eq_true hphase.symm, hnone⟩

/-- A subscription that is stopped stands where the stream has ended, unless the operator is about
to subscribe again. -/
theorem Inv.not_active (h : Inv resubscribes s a) (hlive : s.live = false)
    (hquiet : ∀ e ∈ s.running.map Delivery.event, e.type = .error →
      resubscribes s.errors = false) : a.phase ≠ .active := by
  by_cases herror : ∃ e ∈ s.running.map Delivery.event, e.type = .error
  · obtain ⟨e, he, htype⟩ := herror
    have hphase := (h.failing e he htype).2.2
    rw [hquiet e he htype] at hphase
    rw [hphase]
    decide
  · have hnone := h.live fun e he htype => herror ⟨e, he, htype⟩
    rw [hlive] at hnone
    exact of_decide_eq_false hnone.symm

/-- The stream ends. -/
theorem Inv.over (h : Inv resubscribes s a) (hlive : s.live = true) :
    Inv resubscribes (Subscribe.call resubscribes .close { s with live := false })
      { a with phase := .over } := by
  obtain ⟨hactive, hnone⟩ := h.active hlive
  have hdata := h.data
  have hcloses := h.closes
  rw [State.events, List.map_append] at hdata hcloses
  refine h.call _ s.errors ?_ ?_ h.errors (fun _ => rfl) fun e he herror => ?_
  · rw [List.filterMap_append, List.filterMap_cons_none rfl, ← List.filterMap_append]
    exact hdata
  · rw [hactive, List.countP_append] at hcloses
    rw [List.countP_append, List.countP_cons_of_pos rfl, ← Nat.add_assoc, hcloses]
    rfl
  · rcases List.mem_cons.mp he with rfl | he
    · cases herror
    · exact absurd herror (hnone e he)

/-- A data event arrives. -/
theorem Inv.emits (h : Inv resubscribes s a) (hlive : s.live = true) (hrunning : s.running = [])
    (d : D) : Inv resubscribes (Subscribe.call resubscribes (.data d) s)
      { a with arrived := a.arrived ++ [d] } := by
  obtain ⟨hactive, -⟩ := h.active hlive
  have hdata := h.toTold.data
  have hcloses := h.closes
  rw [State.events, hrunning, List.append_nil] at hdata hcloses
  refine h.call s.live s.errors ?_ ?_ h.errors (fun _ => ?_)
    fun e he herror => ?_
  · rw [hrunning, List.map_nil, List.filterMap_append, hdata]
    rfl
  · rw [hrunning, List.map_nil, List.countP_append, hcloses]
    rfl
  · rw [hlive, hactive]
    rfl
  · rw [hrunning, List.map_nil] at he
    obtain rfl := List.mem_singleton.mp he
    cases herror

/-- An error arrives. -/
theorem Inv.fails (h : Inv resubscribes s a) (hlive : s.live = true) (hrunning : s.running = [])
    (x : X) : Inv resubscribes
      (Subscribe.call resubscribes (.error x) { s with live := false, errors := s.errors + 1 })
      { a with
        errors := a.errors + 1
        phase := if resubscribes (a.errors + 1) then .active else .failed } := by
  obtain ⟨hactive, -⟩ := h.active hlive
  have hdata := h.toTold.data
  have hcloses := h.closes
  rw [State.events, hrunning, List.append_nil] at hdata hcloses
  refine h.call _ _ ?_ ?_ (congrArg (· + 1) h.errors) (fun hnone => ?_) fun e he herror => ?_
  · rw [hrunning, List.map_nil, List.filterMap_append, hdata]
    exact List.append_nil _
  · have hphase : (if resubscribes (a.errors + 1) then Phase.active else .failed) ≠ .over := by
      split
      · exact Phase.noConfusion
      · exact Phase.noConfusion
    dsimp only
    rw [hrunning, List.map_nil, List.countP_append, hcloses, hactive, if_neg hphase]
    rfl
  · exact absurd rfl (hnone (.error x) List.mem_cons_self)
  · refine ⟨hrunning, rfl, ?_⟩
    rw [h.errors]

omit [DecidableEq L] in
theorem step_of_not_active {act : Act L D X} (h : a.phase ≠ .active) :
    a.step resubscribes act = a := if_neg h

theorem of_ite_eq_some {α : Type} {c : Prop} [Decidable c] {x y : α}
    (h : (if c then some x else none) = some y) : c ∧ some x = some y := by
  by_cases hc : c
  · rw [if_pos hc] at h
    exact ⟨hc, h⟩
  · rw [if_neg hc] at h
    cases h

/-- An act keeps what a state keeps, with the stream that the act leaves. -/
theorem Inv.step {act : Act L D X} {s' : State L D X} (h : Inv resubscribes s a)
    (hharmless : Harmless resubscribes s act) (hstep : Subscribe.step resubscribes s act = some s') :
    Inv resubscribes s' (a.step resubscribes act) := by
  -- without a running listener, a stopped subscription has no more to tell
  have hstopped (hrunning : s.running.isEmpty = true) (hlive : ¬s.live = true) :
      a.phase ≠ .active := by
    apply h.not_active (eq_false_of_ne_true hlive)
    rw [List.isEmpty_iff.mp hrunning]
    exact fun e he => absurd he List.not_mem_nil
  cases act with
  | on type cb =>
    have hstream : a.step resubscribes (.on type cb : Act L D X) = a := ite_self a
    rw [hstream]
    unfold Subscribe.step at hstep
    dsimp only at hstep
    split at hstep
    · obtain rfl := Option.some.inj hstep
      exact h.on _ cb
    · obtain rfl := Option.some.inj hstep
      exact h
  | off type cb =>
    have hstream : a.step resubscribes (.off type cb : Act L D X) = a := ite_self a
    rw [hstream]
    unfold Subscribe.step at hstep
    dsimp only at hstep
    split at hstep
    · next t ht =>
      obtain rfl := Option.some.inj hstep
      exact h.off (hharmless t ht)
    · obtain rfl := Option.some.inj hstep
      exact h
  | close =>
    obtain rfl := Option.some.inj hstep
    by_cases hlive : s.live = true
    · rw [if_pos hlive, Stream.step, if_pos (h.active hlive).1]
      exact h.over hlive
    · rw [if_neg hlive]
      rw [step_of_not_active (h.not_active (eq_false_of_ne_true hlive) fun e he herror => ?_)]
      · exact h
      · obtain ⟨d, hd, rfl⟩ := List.mem_map.mp he
        exact hharmless d hd herror
  | data d =>
    obtain ⟨hrunning, hs'⟩ := of_ite_eq_some hstep
    obtain rfl := Option.some.inj hs'
    by_cases hlive : s.live = true
    · rw [if_pos hlive, Stream.step, if_pos (h.active hlive).1]
      exact h.emits hlive (List.isEmpty_iff.mp hrunning) d
    · rw [if_neg hlive, step_of_not_active (hstopped hrunning hlive)]
      exact h
  | error x =>
    obtain ⟨hrunning, hs'⟩ := of_ite_eq_some hstep
    obtain rfl := Option.some.inj hs'
    by_cases hlive : s.live = true
    · rw [if_pos hlive, Stream.step, if_pos (h.active hlive).1]
      exact h.fails hlive (List.isEmpty_iff.mp hrunning) x
    · rw [if_neg hlive, step_of_not_active (hstopped hrunning hlive)]
      exact h
  | complete =>
    obtain ⟨hrunning, hs'⟩ := of_ite_eq_some hstep
    obtain rfl := Option.some.inj hs'
    by_cases hlive : s.live = true
    · rw [if_pos hlive, Stream.step, if_pos (h.active hlive).1]
      exact h.over hlive
    · rw [if_neg hlive, step_of_not_active (hstopped hrunning hlive)]
      exact h
  | returns thrown =>
    have hstream : a.step resubscribes (.returns thrown : Act L D X) = a := ite_self a
    rw [hstream]
    unfold Subscribe.step at hstep
    dsimp only at hstep
    split at hstep
    · cases hstep
    · next d rest hrunning =>
      obtain rfl := Option.some.inj hstep
      exact h.returns hrunning

/-- **Every listener is told**: in a run none of whose acts disturbs a loop, every data event that
arrives before the end of the stream is delivered once and in order to the listeners that were
registered when it arrived and are not removed first, none that arrives later is delivered, and an
end by `close()` or completion is told to every close listener once. -/
theorem told_of_run {acts : List (Act L D X)} {s : State L D X}
    (hrun : run resubscribes initial acts = some s)
    (hharmless : HarmlessRun resubscribes initial acts) :
    Told s (stream resubscribes acts) := by
  have key : ∀ (acts : List (Act L D X)) (s₀ : State L D X) (a₀ : Stream D),
      Inv resubscribes s₀ a₀ → HarmlessRun resubscribes s₀ acts →
      run resubscribes s₀ acts = some s →
        Inv resubscribes s (acts.foldl (Stream.step resubscribes) a₀) := by
    intro acts
    induction acts with
    | nil =>
      intro s₀ a₀ hinv _ hrun
      obtain rfl := Option.some.inj hrun
      exact hinv
    | cons act acts ih =>
      intro s₀ a₀ hinv hharmless hrun
      obtain ⟨s₁, hstep, hrest⟩ := Option.bind_eq_some_iff.mp hrun
      exact ih s₁ _ (hinv.step hharmless.1 hstep) (hharmless.2 s₁ hstep) hrest
  exact (key acts initial _ inv_initial hharmless hrun).toTold

/-- Without removals, and without subscribing again, nothing disturbs a loop. -/
theorem harmlessRun_of_off_notMem {acts : List (Act L D X)}
    (hoff : ∀ type cb, Act.off type cb ∉ acts) (hretry : ∀ n, resubscribes n = false)
    (s : State L D X) : HarmlessRun resubscribes s acts := by
  induction acts generalizing s with
  | nil => trivial
  | cons act acts ih =>
    refine ⟨?_, fun s' _ => ih (fun type cb h => hoff type cb (List.mem_cons_of_mem _ h)) s'⟩
    cases act with
    | off type cb => exact absurd List.mem_cons_self (hoff type cb)
    | close => exact fun _ _ _ => hretry _
    | on | data | error | complete | returns => trivial

/-- The first listener closes the subscription, and the second one throws. -/
theorem told_of_run_close : ∃ s : State ℕ ℕ ℕ,
    run (fun _ => false) initial [.on "data" 1, .on "data" 2, .on "close" 3, .data 7, .close,
      .returns false, .returns false, .returns true, .data 8] = some s ∧
    Told s (stream (fun _ => false) ([.on "data" 1, .on "data" 2, .on "close" 3, .data 7, .close,
      .returns false, .returns false, .returns true, .data 8] : List (Act ℕ ℕ ℕ))) :=
  ⟨_, rfl, told_of_run rfl (harmlessRun_of_off_notMem (by simp) (fun _ => rfl) _)⟩

/-- A listener that removes itself hides the next one, and a subscription that is closed by a
listener for an error goes on after the operator has subscribed again. -/
theorem not_told :
    (∃ s : State ℕ ℕ ℕ,
      run (fun _ => false) initial [.on "data" 1, .on "data" 2, .data 7, .off "data" 1,
        .returns false] = some s ∧
      ¬Told s (stream (fun _ => false) ([.on "data" 1, .on "data" 2, .data 7, .off "data" 1,
        .returns false] : List (Act ℕ ℕ ℕ)))) ∧
    ∃ s : State ℕ ℕ ℕ,
      run (fun _ => true) initial [.on "data" 2, .on "error" 1, .error 5, .close, .returns false,
        .data 7] = some s ∧
      ¬Told s (stream (fun _ => true) ([.on "data" 2, .on "error" 1, .error 5, .close,
        .returns false, .data 7] : List (Act ℕ ℕ ℕ))) := by
  constructor
  · refine ⟨_, rfl, fun h => ?_⟩
    exact absurd (h.finished _ List.mem_cons_self) (by decide)
  · refine ⟨_, rfl, fun h => ?_⟩
    exact absurd h.data (by decide)

end Subscribe
