import Mathlib.Data.List.Basic

/-!
# A cache whose entries are removed by timers

Inserting an entry starts a timer, and a timer removes whatever stands under its key when it goes
off; nothing stops it. Requests are answered from the cache, or asked for and inserted: the answer
to a request is the position in the log at which it was asked for.

* `Sound` holds of every run: an answer was asked for less than the delay ago, for the same key, and
  after the last time the cache was cleared.
* `Once` holds of the runs in which no timer that an entry left behind removes a later one
  (`Undisturbed`): a key is asked for once in the delay.
-/

/-- The entries, and the timers with the time at which they go off. -/
structure TimedCache (κ ρ : Type) where
  now : ℕ
  entries : List (κ × ρ)
  timers : List (ℕ × κ)

namespace TimedCache

section operations

variable {κ ρ : Type} [DecidableEq κ]

/-- The cache at the start of the clock. -/
def empty : TimedCache κ ρ := ⟨0, [], []⟩

/-- The entry under a key. -/
def find (c : TimedCache κ ρ) (k : κ) : Option ρ :=
  (c.entries.find? fun e => e.1 = k).map Prod.snd

/-- A new entry, with its timer. -/
def insert (delay : ℕ) (k : κ) (r : ρ) (c : TimedCache κ ρ) : TimedCache κ ρ :=
  { c with entries := (k, r) :: c.entries, timers := (c.now + delay, k) :: c.timers }

/-- What a timer does. -/
def remove (k : κ) (c : TimedCache κ ρ) : TimedCache κ ρ :=
  { c with entries := c.entries.filter fun e => e.1 ≠ k }

/-- All entries are removed; their timers stay. -/
def clear (c : TimedCache κ ρ) : TimedCache κ ρ := { c with entries := [] }

/-- The clock moves on, and the timers that are due go off. -/
def advance (ms : ℕ) (c : TimedCache κ ρ) : TimedCache κ ρ :=
  (c.timers.filter fun t => t.1 ≤ c.now + ms).foldl (fun c t => c.remove t.2)
    { c with now := c.now + ms, timers := c.timers.filter fun t => c.now + ms < t.1 }

theorem find_eq_none {c : TimedCache κ ρ} {k : κ} :
    c.find k = none ↔ ∀ e ∈ c.entries, e.1 ≠ k := by
  rw [find, Option.map_eq_none_iff, List.find?_eq_none]
  simp only [decide_eq_true_eq, ne_eq]

theorem mem_of_find {c : TimedCache κ ρ} {k : κ} {r : ρ} (h : c.find k = some r) :
    (k, r) ∈ c.entries := by
  obtain ⟨e, he, rfl⟩ := Option.map_eq_some_iff.mp h
  have hk := List.find?_some he
  rw [decide_eq_true_eq] at hk
  rw [← hk]
  exact List.mem_of_find?_eq_some he

private theorem removeAll_spec (ts : List (ℕ × κ)) (c : TimedCache κ ρ) :
    (ts.foldl (fun c t => c.remove t.2) c).now = c.now ∧
      (ts.foldl (fun c t => c.remove t.2) c).timers = c.timers ∧
      ∀ e, e ∈ (ts.foldl (fun c t => c.remove t.2) c).entries ↔
        e ∈ c.entries ∧ ∀ t ∈ ts, t.2 ≠ e.1 := by
  induction ts generalizing c with
  | nil => exact ⟨rfl, rfl, fun e => (and_iff_left fun t ht => absurd ht List.not_mem_nil).symm⟩
  | cons t ts ih =>
    obtain ⟨hnow, htimers, hentries⟩ := ih (c.remove t.2)
    refine ⟨hnow, htimers, fun e => (hentries e).trans ?_⟩
    rw [remove, List.mem_filter, decide_eq_true_eq, List.forall_mem_cons, and_assoc, ne_comm]

@[simp] theorem now_advance (ms : ℕ) (c : TimedCache κ ρ) : (c.advance ms).now = c.now + ms :=
  (removeAll_spec _ _).1

theorem mem_timers_advance {ms : ℕ} {c : TimedCache κ ρ} {t : ℕ × κ} :
    t ∈ (c.advance ms).timers ↔ t ∈ c.timers ∧ c.now + ms < t.1 := by
  rw [advance, (removeAll_spec _ _).2.1, List.mem_filter, decide_eq_true_eq]

theorem mem_entries_advance {ms : ℕ} {c : TimedCache κ ρ} {e : κ × ρ} :
    e ∈ (c.advance ms).entries ↔
      e ∈ c.entries ∧ ∀ due, (due, e.1) ∈ c.timers → c.now + ms < due := by
  rw [advance, (removeAll_spec _ _).2.2]
  refine and_congr_right fun _ => ⟨fun h due hdue => ?_, fun h t ht hk => ?_⟩
  · by_contra hle
    exact h (due, e.1) (List.mem_filter.mpr ⟨hdue, decide_eq_true (by omega)⟩) rfl
  · obtain ⟨ht, hle⟩ := List.mem_filter.mp ht
    have hlt := h t.1 (hk ▸ ht)
    rw [decide_eq_true_eq] at hle
    omega

end operations

/-! ## Sessions -/

/-- What happens to a cache: a request, time, a clearing, or something that does not concern it. -/
inductive Event (α : Type) where
  | request (q : α)
  | advance (ms : ℕ)
  | clear
  | other

/-- What is recorded of an event: for a request its time and the position of its answer. -/
inductive Record (α : Type) where
  | answered (time : ℕ) (q : α) (origin : ℕ)
  | cleared
  | other

/-- A cache with the log of the events so far. -/
structure Session (κ α : Type) where
  cache : TimedCache κ ℕ
  log : List (Record α)

variable {κ α : Type} (key : α → κ) (delay : ℕ)

/-- One event. -/
def Session.step [DecidableEq κ] (s : Session κ α) : Event α → Session κ α
  | .request q =>
    match s.cache.find (key q) with
    | some origin => ⟨s.cache, s.log ++ [.answered s.cache.now q origin]⟩
    | none =>
      ⟨s.cache.insert delay (key q) s.log.length, s.log ++ [.answered s.cache.now q s.log.length]⟩
  | .advance ms => ⟨s.cache.advance ms, s.log ++ [.other]⟩
  | .clear => ⟨s.cache.clear, s.log ++ [.cleared]⟩
  | .other => ⟨s.cache, s.log ++ [.other]⟩

/-- A session at its start. -/
def Session.start : Session κ α := ⟨TimedCache.empty, []⟩

/-- A sequence of events. -/
def Session.run [DecidableEq κ] (s : Session κ α) (events : List (Event α)) : Session κ α :=
  events.foldl (Session.step key delay) s

/-- Nothing has been cleared between two positions. -/
def NotClearedBetween (log : List (Record α)) (i j : ℕ) : Prop :=
  ∀ m, i < m → m < j → log[m]? ≠ some .cleared

/-- Every answer was asked for under the same key, less than the delay ago, and has not been cleared
since. -/
def Timely (log : List (Record α)) : Prop :=
  ∀ j time q origin, log[j]? = some (.answered time q origin) →
    origin ≤ j ∧ NotClearedBetween log origin j ∧
      ∃ time₀ q₀, log[origin]? = some (.answered time₀ q₀ origin) ∧ key q₀ = key q ∧
        time < time₀ + delay

/-- A key that has been asked for is not asked for again before the delay is over, unless the cache
is cleared. -/
def AsksOnce (log : List (Record α)) : Prop :=
  ∀ i j time time' q q', i < j → log[i]? = some (.answered time q i) →
    log[j]? = some (.answered time' q' j) → key q = key q' → NotClearedBetween log i j →
      time + delay ≤ time'

/-! ## Every run -/

section log

variable {β : Type} {log : List β} {r : β} {i : ℕ} {x : β}

theorem getElem?_concat_eq_some :
    (log ++ [r])[i]? = some x ↔ log[i]? = some x ∨ i = log.length ∧ r = x := by
  by_cases hlt : i < log.length
  · rw [List.getElem?_append_left hlt]
    exact (or_iff_left fun h => by omega).symm
  · have hnone : log[i]? = none := List.getElem?_eq_none (by omega)
    rw [hnone, List.getElem?_append_right (by omega)]
    by_cases heq : i = log.length
    · rw [heq, Nat.sub_self]
      simp
    · have hend : [r][i - log.length]? = none := by
        apply List.getElem?_eq_none
        rw [List.length_singleton]
        omega
      rw [hend]
      simp [heq]

theorem lt_of_getElem? (h : log[i]? = some x) : i < log.length := by
  by_contra hle
  rw [List.getElem?_eq_none (by omega)] at h
  cases h

end log

section between

variable {log : List (Record α)} {r : Record α} {i j : ℕ}

/-- What is recorded after two positions does not stand between them. -/
theorem NotClearedBetween.concat (hj : j ≤ log.length) (h : NotClearedBetween log i j) :
    NotClearedBetween (log ++ [r]) i j := by
  intro m him hmj
  rw [List.getElem?_append_left (by omega)]
  exact h m him hmj

theorem NotClearedBetween.of_concat (hj : j ≤ log.length) (h : NotClearedBetween (log ++ [r]) i j) :
    NotClearedBetween log i j := by
  intro m him hmj
  have hm := h m him hmj
  rwa [List.getElem?_append_left (by omega)] at hm

/-- A record that is no clearing extends the positions. -/
theorem NotClearedBetween.succ (h : NotClearedBetween log i log.length) (hr : r ≠ .cleared) :
    NotClearedBetween (log ++ [r]) i (log ++ [r]).length := by
  intro m him _ hm
  obtain hm | ⟨-, hm⟩ := getElem?_concat_eq_some.mp hm
  · exact h m him (lt_of_getElem? hm) hm
  · exact hr hm

theorem NotClearedBetween.mono {i' j' : ℕ} (h : NotClearedBetween log i j) (hi : i ≤ i')
    (hj : j' ≤ j) : NotClearedBetween log i' j' :=
  fun m him hmj => h m (by omega) (by omega)

end between

/-- What holds in every session: the log is timely, and so is every entry, whose timer is running.
-/
structure Sound (s : Session κ α) : Prop where
  timely : Timely key delay s.log
  entry : ∀ k origin, (k, origin) ∈ s.cache.entries →
    NotClearedBetween s.log origin s.log.length ∧
      ∃ time q, s.log[origin]? = some (.answered time q origin) ∧ key q = k ∧
        s.cache.now < time + delay ∧ (time + delay, k) ∈ s.cache.timers

variable {key delay}

theorem Timely.concat {log : List (Record α)} {r : Record α} (h : Timely key delay log)
    (hr : ∀ time q origin, r = .answered time q origin → origin ≤ log.length ∧
      NotClearedBetween (log ++ [r]) origin log.length ∧
        ∃ time₀ q₀, (log ++ [r])[origin]? = some (.answered time₀ q₀ origin) ∧ key q₀ = key q ∧
          time < time₀ + delay) :
    Timely key delay (log ++ [r]) := by
  intro j time q origin hj
  obtain hold | ⟨rfl, rfl⟩ := getElem?_concat_eq_some.mp hj
  · obtain ⟨hle, hbetween, time₀, q₀, horigin, hkey, htime⟩ := h j time q origin hold
    exact ⟨hle, hbetween.concat (Nat.le_of_lt (lt_of_getElem? hold)), time₀, q₀,
      getElem?_concat_eq_some.mpr (Or.inl horigin), hkey, htime⟩
  · exact hr time q origin rfl

theorem Sound.start (key : α → κ) (delay : ℕ) : Sound key delay Session.start where
  timely _ _ _ _ h := by cases h
  entry _ _ h := absurd h List.not_mem_nil

/-- An event that records no answer, clears nothing and keeps only entries whose timer has not gone
off. -/
theorem Sound.keep {s : Session κ α} (h : Sound key delay s) {cache : TimedCache κ ℕ}
    (hentries : ∀ k origin, (k, origin) ∈ cache.entries → (k, origin) ∈ s.cache.entries ∧
      ∀ due, (due, k) ∈ s.cache.timers → s.cache.now < due →
        cache.now < due ∧ (due, k) ∈ cache.timers) :
    Sound key delay ⟨cache, s.log ++ [.other]⟩ where
  timely := h.timely.concat fun _ _ _ hr => by cases hr
  entry k origin hmem := by
    obtain ⟨hmem, htimers⟩ := hentries k origin hmem
    obtain ⟨hbetween, time, q, horigin, hkey, hnow, htimer⟩ := h.entry k origin hmem
    obtain ⟨hnow, htimer⟩ := htimers _ htimer hnow
    exact ⟨hbetween.succ (by intro hr; cases hr), time, q,
      getElem?_concat_eq_some.mpr (Or.inl horigin), hkey, hnow, htimer⟩

section steps

variable [DecidableEq κ]

/-- Every event keeps a session sound. -/
theorem Sound.step (hdelay : 0 < delay) {s : Session κ α} (h : Sound key delay s) (e : Event α) :
    Sound key delay (s.step key delay e) := by
  cases e with
  | request q =>
    rw [Session.step]
    cases hfind : s.cache.find (key q) with
    | some origin =>
      obtain ⟨hbetween, time₀, q₀, horigin, hkey, hnow, -⟩ := h.entry _ _ (mem_of_find hfind)
      have hlt := lt_of_getElem? horigin
      refine ⟨h.timely.concat fun time q' origin' hr => ?_, fun k o hmem => ?_⟩
      · cases hr
        exact ⟨Nat.le_of_lt hlt, hbetween.concat (Nat.le_refl _), time₀, q₀,
          getElem?_concat_eq_some.mpr (Or.inl horigin), hkey, hnow⟩
      · obtain ⟨hbetween, time₀, q₀, horigin, hentry⟩ := h.entry k o hmem
        exact ⟨hbetween.succ (by intro hr; cases hr), time₀, q₀,
          getElem?_concat_eq_some.mpr (Or.inl horigin), hentry⟩
    | none =>
      have hself : (s.log ++ [Record.answered s.cache.now q s.log.length])[s.log.length]? =
          some (.answered s.cache.now q s.log.length) :=
        getElem?_concat_eq_some.mpr (Or.inr ⟨rfl, rfl⟩)
      refine ⟨h.timely.concat fun time q' origin hr => ?_, fun k o hmem => ?_⟩
      · cases hr
        exact ⟨Nat.le_refl _, fun m hlt hlt' => by omega, _, q, hself, rfl, by omega⟩
      · obtain heq | hmem := List.mem_cons.mp hmem
        · obtain ⟨rfl, rfl⟩ := Prod.mk.inj heq
          refine ⟨fun m hlt hlt' => ?_, _, q, hself, rfl, ?_, List.mem_cons_self⟩
          · rw [List.length_append, List.length_singleton] at hlt'
            omega
          · show s.cache.now < s.cache.now + delay
            omega
        · obtain ⟨hbetween, time₀, q₀, horigin, hkey, hnow, htimer⟩ := h.entry k o hmem
          exact ⟨hbetween.succ (by intro hr; cases hr), time₀, q₀,
            getElem?_concat_eq_some.mpr (Or.inl horigin), hkey, hnow,
            List.mem_cons_of_mem _ htimer⟩
  | advance ms =>
    refine h.keep fun k origin hmem => ?_
    obtain ⟨hmem, hdue⟩ := mem_entries_advance.mp hmem
    refine ⟨hmem, fun due htimer _ => ?_⟩
    rw [now_advance]
    exact ⟨hdue due htimer, mem_timers_advance.mpr ⟨htimer, hdue due htimer⟩⟩
  | clear =>
    refine ⟨h.timely.concat fun _ _ _ hr => ?_, fun k o hmem => absurd hmem List.not_mem_nil⟩
    cases hr
  | other => exact h.keep fun k origin hmem => ⟨hmem, fun due htimer hnow => ⟨hnow, htimer⟩⟩

/-- An answer that a run records answers a request of the run. -/
theorem Session.request_of_run {s : Session κ α} {events : List (Event α)}
    {i time origin : ℕ} {q : α}
    (h : (s.run key delay events).log[i]? = some (.answered time q origin)) :
    s.log[i]? = some (.answered time q origin) ∨ .request q ∈ events := by
  induction events generalizing s with
  | nil => exact Or.inl h
  | cons e events ih =>
    obtain hstep | hmem := ih h
    · have hlog : ∃ r, (s.step key delay e).log = s.log ++ [r] ∧
          ∀ t q' o, r = .answered t q' o → e = .request q' := by
        cases e with
        | request q' =>
          rw [Session.step]
          cases s.cache.find (key q') with
          | some o => exact ⟨_, rfl, fun _ _ _ hr => by cases hr; rfl⟩
          | none => exact ⟨_, rfl, fun _ _ _ hr => by cases hr; rfl⟩
        | advance ms => exact ⟨.other, rfl, fun _ _ _ hr => by cases hr⟩
        | clear => exact ⟨.cleared, rfl, fun _ _ _ hr => by cases hr⟩
        | other => exact ⟨.other, rfl, fun _ _ _ hr => by cases hr⟩
      obtain ⟨r, hr, hrequest⟩ := hlog
      rw [hr] at hstep
      obtain hold | ⟨-, hr⟩ := getElem?_concat_eq_some.mp hstep
      · exact Or.inl hold
      · rw [hrequest _ _ _ hr]
        exact Or.inr List.mem_cons_self
    · exact Or.inr (List.mem_cons_of_mem _ hmem)

/-- **Every run is timely.** -/
theorem Sound.run (hdelay : 0 < delay) {s : Session κ α} (h : Sound key delay s)
    (events : List (Event α)) : Sound key delay (s.run key delay events) := by
  induction events generalizing s with
  | nil => exact h
  | cons e events ih => exact ih (h.step hdelay e)

end steps

/-! ## Undisturbed runs -/

/-- An event inserts no entry that an older timer would remove before its own. -/
def Session.Allows [DecidableEq κ] (key : α → κ) (delay : ℕ) (s : Session κ α) : Event α → Prop
  | .request q => s.cache.find (key q) = none →
      ∀ due, (due, key q) ∈ s.cache.timers → s.cache.now + delay ≤ due
  | _ => True

/-- **No timer disturbs a later entry**: every event of the run is allowed. -/
def Session.Undisturbed [DecidableEq κ] (key : α → κ) (delay : ℕ) :
    Session κ α → List (Event α) → Prop
  | _, [] => True
  | s, e :: events => s.Allows key delay e ∧ Undisturbed key delay (s.step key delay e) events

/-- What holds in an undisturbed session: what has been asked for stays for the delay, and nothing
was asked for twice. -/
structure Once (key : α → κ) (delay : ℕ) (s : Session κ α) : Prop where
  stays : ∀ i time q, s.log[i]? = some (.answered time q i) →
    NotClearedBetween s.log i s.log.length →
      time + delay ≤ s.cache.now ∨ (key q, i) ∈ s.cache.entries ∧
        ∀ due, (due, key q) ∈ s.cache.timers → time + delay ≤ due
  asksOnce : AsksOnce key delay s.log

theorem Once.start (key : α → κ) (delay : ℕ) : Once key delay Session.start where
  stays _ _ _ h _ := by cases h
  asksOnce _ _ _ _ _ _ _ h := by cases h

/-- Something is recorded that was not asked for. -/
theorem AsksOnce.concat {log : List (Record α)} {r : Record α} (h : AsksOnce key delay log)
    (hr : ∀ time q, r = .answered time q log.length → ∀ i time₀ q₀,
      log[i]? = some (.answered time₀ q₀ i) → key q₀ = key q →
        NotClearedBetween log i log.length → time₀ + delay ≤ time) :
    AsksOnce key delay (log ++ [r]) := by
  intro i j time time' q q' hij hi hj hkey hbetween
  obtain hj | ⟨rfl, rfl⟩ := getElem?_concat_eq_some.mp hj
  · have hlt := lt_of_getElem? hj
    obtain hi | ⟨rfl, -⟩ := getElem?_concat_eq_some.mp hi
    · exact h i j time time' q q' hij hi hj hkey (hbetween.of_concat (Nat.le_of_lt hlt))
    · omega
  · obtain hi | ⟨rfl, -⟩ := getElem?_concat_eq_some.mp hi
    · exact hr time' q' rfl i time q hi hkey (hbetween.of_concat (Nat.le_refl _))
    · omega

/-- What the log has before its last record. -/
theorem NotClearedBetween.of_length_concat {log : List (Record α)} {r : Record α} {i : ℕ}
    (h : NotClearedBetween (log ++ [r]) i (log ++ [r]).length) :
    NotClearedBetween log i log.length := by
  refine NotClearedBetween.of_concat (Nat.le_refl _) (h.mono (Nat.le_refl i) ?_)
  rw [List.length_append]
  exact Nat.le_add_right _ _

/-- An event that records no answer, and leaves an entry whose timers are all to come. -/
theorem Once.keep {s : Session κ α} (h : Once key delay s) {cache : TimedCache κ ℕ}
    (hnow : s.cache.now ≤ cache.now)
    (hentries : ∀ k i, (k, i) ∈ s.cache.entries →
      (∀ due, (due, k) ∈ s.cache.timers → cache.now < due) → (k, i) ∈ cache.entries)
    (htimers : ∀ t ∈ cache.timers, t ∈ s.cache.timers) :
    Once key delay ⟨cache, s.log ++ [.other]⟩ where
  stays i time q hi hbetween := by
    obtain hi | ⟨-, hi⟩ := getElem?_concat_eq_some.mp hi
    · obtain hover | ⟨hmem, hdue⟩ := h.stays i time q hi hbetween.of_length_concat
      · exact Or.inl (Nat.le_trans hover hnow)
      · by_cases hover : time + delay ≤ cache.now
        · exact Or.inl hover
        · refine Or.inr ⟨hentries _ i hmem fun due ht => ?_, fun due ht => hdue due (htimers _ ht)⟩
          have hle := hdue due ht
          omega
    · cases hi
  asksOnce := h.asksOnce.concat fun _ _ hr => by cases hr

variable [DecidableEq κ]

/-- Every event that is allowed keeps an undisturbed session so. -/
theorem Once.step {s : Session κ α} (hs : Sound key delay s) (h : Once key delay s) {e : Event α}
    (hallows : s.Allows key delay e) : Once key delay (s.step key delay e) := by
  cases e with
  | request q =>
    rw [Session.step]
    cases hfind : s.cache.find (key q) with
    | some origin =>
      -- Nothing is asked for.
      obtain ⟨-, _, _, horigin, -⟩ := hs.entry _ _ (mem_of_find hfind)
      have hlt := lt_of_getElem? horigin
      refine ⟨fun i time q' hi hbetween => ?_, h.asksOnce.concat fun time q' hr => ?_⟩
      · obtain hi | ⟨rfl, hi⟩ := getElem?_concat_eq_some.mp hi
        · exact h.stays i time q' hi hbetween.of_length_concat
        · cases hi
          omega
      · cases hr
        omega
    | none =>
      have habsent := find_eq_none.mp hfind
      refine ⟨fun i time q' hi hbetween => ?_, h.asksOnce.concat fun time q' hr => ?_⟩
      · obtain hi | ⟨rfl, hi⟩ := getElem?_concat_eq_some.mp hi
        · obtain hover | ⟨hmem, hdue⟩ := h.stays i time q' hi hbetween.of_length_concat
          · exact Or.inl hover
          · refine Or.inr ⟨List.mem_cons_of_mem _ hmem, fun due ht => ?_⟩
            obtain ht | ht := List.mem_cons.mp ht
            · exact absurd (Prod.mk.inj ht).2 (habsent _ hmem)
            · exact hdue due ht
        · cases hi
          refine Or.inr ⟨List.mem_cons_self, fun due ht => ?_⟩
          obtain ht | ht := List.mem_cons.mp ht
          · exact Nat.le_of_eq (Prod.mk.inj ht).1.symm
          · exact hallows hfind due ht
      · cases hr
        intro i time₀ q₀ hi hkey hbetween
        obtain hover | ⟨hmem, -⟩ := h.stays i time₀ q₀ hi hbetween
        · exact hover
        · exact absurd hkey (habsent _ hmem)
  | advance ms =>
    refine h.keep ?_ (fun k i hmem hdue => ?_) fun t ht => (mem_timers_advance.mp ht).1
    · rw [now_advance]
      exact Nat.le_add_right _ _
    · rw [now_advance] at hdue
      exact mem_entries_advance.mpr ⟨hmem, hdue⟩
  | clear =>
    refine ⟨fun i time q hi hbetween => ?_, h.asksOnce.concat fun _ _ hr => by cases hr⟩
    obtain hi | ⟨-, hi⟩ := getElem?_concat_eq_some.mp hi
    · refine absurd (getElem?_concat_eq_some.mpr (Or.inr ⟨rfl, rfl⟩))
        (hbetween s.log.length (lt_of_getElem? hi) ?_)
      show s.log.length < (s.log ++ [Record.cleared]).length
      rw [List.length_append, List.length_singleton]
      exact Nat.lt_succ_self _
    · cases hi
  | other =>
    exact h.keep (Nat.le_refl _) (fun _ _ hmem _ => hmem) fun _ ht => ht

/-- **In an undisturbed run nothing is asked for twice.** -/
theorem Once.run (hdelay : 0 < delay) {s : Session κ α} (hs : Sound key delay s)
    (h : Once key delay s) {events : List (Event α)}
    (hundisturbed : s.Undisturbed key delay events) :
    Once key delay (s.run key delay events) := by
  induction events generalizing s with
  | nil => exact h
  | cons e events ih => exact ih (hs.step hdelay e) (h.step hs hundisturbed.1) hundisturbed.2

end TimedCache
