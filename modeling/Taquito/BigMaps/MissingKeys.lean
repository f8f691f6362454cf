import Mathlib.Data.List.Nodup
import Taquito.BigMaps.Reads

/-!
# Missing keys of big maps

A missing key is answered with a 404, and should be read as `undefined`. The provider and the
abstraction wait for an `HttpResponseError` of that status; but `createRequest` catches the one it
throws itself, so that a 404 leaves it as any other failure. Block zero is falsy, and is read at the
head.

What `getBigMapKeysByID` comes to does not depend on the order in which its requests settle: a state
of a run holds what the requests before it come to (`Call.Inv`).
-/

open Js

namespace BigMaps

/-! ## What a read should come to -/

/-- A read: a value, a missing key or a failure. -/
inductive Reading (V : Type) where
  | value (v : V)
  | missing
  | failed
  deriving DecidableEq

/-- The value, `undefined` where it is missing. -/
def Reading.value? {V : Type} : Reading V → Option V
  | .value v => some v
  | _ => none

/-- The block of a level. -/
def levelText : Option ℕ → JSString
  | none => js "head"
  | some level => natText level

section key

variable {K J V : Type} {schema : Schema K J V} {key : K} {answer : Answer J}

/-- What the read of a key should come to. -/
def reading (schema : Schema K J V) (key : K) (answer : Answer J) : Reading V :=
  match schema.encodedExpr key with
  | none => .failed
  | some _ =>
    match answer with
    | .noResponse => .failed
    | .response status body =>
      if status = NOT_FOUND then .missing
      else if 200 ≤ status ∧ status ≤ 299 then
        match body.bind schema.ExecuteOnBigMapValue with
        | some v => .value v
        | none => .failed
      else .failed

/-- Only block zero is read at another level. -/
theorem blockText_eq_iff {level : Option ℕ} : blockText level = levelText level ↔ level ≠ some 0 := by
  match level with
  | none => exact iff_of_true rfl (Option.some_ne_none 0).symm
  | some 0 => exact iff_of_false (by decide) (not_not.mpr rfl)
  | some (block + 1) => exact iff_of_true rfl (by simp)

/-- The request of a key, if there is one, names the level. -/
def ReadAt (schema : Schema K J V) (id : JSString) (level : Option ℕ) (key : K) : Prop :=
  ∀ request, requestOf schema id key level = some request → request.block = levelText level

/-- Every error of the backend is a failed request. -/
theorem createRequest_error {e : ReadError} (h : createRequest answer = .error e) :
    e = .HttpRequestFailed := by
  rw [createRequest] at h
  split at h
  · cases h
  · exact (Except.error.inj h).symm

/-- A response that is not ok is thrown and caught. -/
theorem createRequest_of_not_ok {status : ℕ} {body : Option J} (h : ¬(200 ≤ status ∧ status ≤ 299)) :
    createRequest (.response status body) = .error .HttpRequestFailed := by
  have htry : tryRequest (.response status body) = .error (.HttpResponseError status) := if_pos h
  rw [createRequest, htry]

/-- A read returns its value. -/
theorem getBigMapKeyByID_eq_ok {v : V} :
    getBigMapKeyByID schema key answer = .ok v ↔ reading schema key answer = .value v := by
  unfold getBigMapKeyByID reading
  cases schema.encodedExpr key with
  | none => simp
  | some expr =>
    cases answer with
    | noResponse => simp [createRequest, tryRequest]
    | response status body =>
      by_cases hok : 200 ≤ status ∧ status ≤ 299
      · have hfound : ¬status = NOT_FOUND := by
          rw [NOT_FOUND]
          omega
        cases body with
        | none => simp [createRequest, tryRequest, hok, hfound]
        | some json =>
          cases hvalue : schema.ExecuteOnBigMapValue json <;>
            simp [createRequest, tryRequest, hok, hfound, hvalue]
      · -- What is not in that range is thrown, and caught as a failed request.
        rw [createRequest_of_not_ok hok]
        by_cases hfound : status = NOT_FOUND <;> simp [hok, hfound]

/-- What a read throws is no response of the node. -/
theorem getBigMapKeyByID_error {e : ReadError} (h : getBigMapKeyByID schema key answer = .error e)
    (status : ℕ) : e ≠ .HttpResponseError status := by
  rintro rfl
  rw [getBigMapKeyByID] at h
  rcases Except.bind_eq_error.mp h with h | ⟨_, _, h⟩
  · cases hexpr : schema.encodedExpr key <;> rw [hexpr] at h <;> cases h
  rcases Except.bind_eq_error.mp h with h | ⟨value, _, h⟩
  · cases createRequest_error h
  · cases hvalue : schema.ExecuteOnBigMapValue value <;> rw [hvalue] at h <;> cases h

/-- The key of a value is encoded. -/
theorem exists_expr_of_value {v : V} (h : reading schema key answer = .value v) :
    ∃ expr, schema.encodedExpr key = some expr := by
  cases hexpr : schema.encodedExpr key with
  | none =>
    unfold reading at h
    rw [hexpr] at h
    cases h
  | some expr => exact ⟨expr, rfl⟩

/-- No error of a read is taken for a missing key. -/
theorem get_eq (schema : Schema K J V) (key : K) (answer : Answer J) :
    get schema key answer = (getBigMapKeyByID schema key answer).map some := by
  rw [get]
  cases h : getBigMapKeyByID schema key answer with
  | ok v => rfl
  | error e =>
    dsimp only
    rw [if_neg (getBigMapKeyByID_error h NOT_FOUND)]
    rfl

/-- The same in the provider. -/
theorem getBigMapValueOrUndefined_eq (schema : Schema K J V) (key : K) (answer : Answer J) :
    getBigMapValueOrUndefined schema key answer = get schema key answer := rfl

theorem get_eq_ok {value : Option V} :
    get schema key answer = .ok value
      ↔ ∃ v, value = some v ∧ reading schema key answer = .value v := by
  rw [get_eq, Except.map_eq_ok]
  constructor
  · rintro ⟨v, hv, rfl⟩
    exact ⟨v, rfl, getBigMapKeyByID_eq_ok.mp hv⟩
  · rintro ⟨v, rfl, hv⟩
    exact ⟨v, getBigMapKeyByID_eq_ok.mpr hv, rfl⟩

end key

/-! ## Maps -/

section maps

variable {K V : Type} {stringify : K → JSString}

/-- A new key is added behind the others. -/
theorem set_of_notMem {map : MichelsonMap K V} {key : K} {value : V}
    (h : stringify key ∉ map.map fun entry => entry.1) :
    map.set stringify key value = map ++ [(stringify key, key, value)] := by
  have hany : (map.any fun entry => entry.1 = stringify key) = false := by
    rw [List.any_eq_false]
    intro entry hentry heq
    exact h (List.mem_map.mpr ⟨entry, hentry, of_decide_eq_true heq⟩)
  rw [MichelsonMap.set, hany, if_neg Bool.false_ne_true]

/-- Distinct keys are the entries of the map, in order. -/
theorem entries_foldl_set (pairs : List (K × V)) (map : MichelsonMap K V)
    (hnodup : ((map.map fun entry => entry.1) ++ pairs.map fun pair => stringify pair.1).Nodup) :
    (pairs.foldl (fun map pair => map.set stringify pair.1 pair.2) map).entries
      = map.entries ++ pairs := by
  induction pairs generalizing map with
  | nil => rw [List.foldl_nil, List.append_nil]
  | cons pair pairs ih =>
    have hnew : stringify pair.1 ∉ map.map fun entry => entry.1 := by
      intro hmem
      rw [List.map_cons] at hnodup
      exact (List.nodup_append.mp hnodup).2.2 _ hmem _ List.mem_cons_self rfl
    rw [List.foldl_cons, set_of_notMem hnew, ih]
    · simp [MichelsonMap.entries]
    · rw [List.map_append, List.append_assoc]
      exact hnodup

end maps

/-! ## Runs of a call -/

namespace Call

variable {K J V : Type} (call : Call K J V)

/-- The requests before the end of a list of results came to them. -/
def Results (results : List (Option V)) : Prop :=
  ∀ i value, results[i]? = some value → call.outcome i = .ok value

/-- What holds in every state of a run. -/
def Inv : State K V → Prop
  | .level => True
  | .batch level position settled results =>
    call.getBlockForRequest = .ok level ∧ position < call.keys.length ∧ results.length = position
      ∧ call.Results results
      ∧ settled.length = ((call.keys.drop position).take call.batchSize).length
      ∧ (∀ i value, settled[i]? = some (some value) → call.outcome (position + i) = .ok value)
      ∧ settled.all Option.isSome = false
  | .resolved level map =>
    call.getBlockForRequest = .ok level
      ∧ ∃ results, results.length = call.keys.length ∧ call.Results results
        ∧ map = call.bigMapValues results
  | .rejected e => call.getBlockForRequest = .error e
      ∨ ∃ i < call.keys.length, call.outcome i = .error e

/-- A call that ended. -/
def Ended : State K V → Prop
  | .level | .batch _ _ _ _ => False
  | .resolved _ _ | .rejected _ => True

variable {call} (hsize : 1 ≤ call.batchSize)

include hsize

/-- The loop starts its next batch from the results so far. -/
theorem inv_loop {level : Option ℕ} (hlevel : call.getBlockForRequest = .ok level) {position : ℕ}
    {results : List (Option V)} (hlength : results.length = min position call.keys.length)
    (hresults : call.Results results) : call.Inv (call.loop level position results) := by
  rw [loop]
  by_cases hlt : position < call.keys.length
  · rw [if_pos hlt]
    refine ⟨hlevel, hlt, by omega, hresults, List.length_replicate, ?_, ?_⟩
    · intro i value hi
      rw [List.getElem?_replicate] at hi
      split at hi <;> cases hi
    · have hpos : 0 < ((call.keys.drop position).take call.batchSize).length := by
        rw [List.length_take, List.length_drop]
        omega
      rw [List.all_eq_false]
      exact ⟨none, List.mem_replicate.mpr ⟨by omega, rfl⟩, Bool.false_ne_true⟩
  · rw [if_neg hlt]
    exact ⟨hlevel, results, by omega, hresults, rfl⟩

omit hsize in
/-- The values of a batch whose requests are all settled. -/
theorem exists_values {settled : List (Option (Option V))} (h : settled.all Option.isSome = true) :
    settled = (settled.filterMap fun value => value).map some := by
  induction settled with
  | nil => rfl
  | cons value settled ih =>
    rw [List.all_cons, Bool.and_eq_true] at h
    obtain ⟨v, rfl⟩ := Option.isSome_iff_exists.mp h.1
    exact congrArg (some v :: ·) (ih h.2)

omit hsize in
/-- Results grow by what a batch comes to. -/
theorem Results.append {results values : List (Option V)} (hresults : call.Results results)
    (hvalues : ∀ i value, values[i]? = some value → call.outcome (results.length + i) = .ok value) :
    call.Results (results ++ values) := by
  intro i value hi
  by_cases hlt : i < results.length
  · rw [List.getElem?_append_left hlt] at hi
    exact hresults i value hi
  · rw [List.getElem?_append_right (not_lt.mp hlt)] at hi
    have houtcome := hvalues _ value hi
    rwa [Nat.add_sub_cancel' (not_lt.mp hlt)] at houtcome

/-- **A settled request keeps the invariant.** -/
theorem inv_settle {level : Option ℕ} {position : ℕ} {settled : List (Option (Option V))}
    {results : List (Option V)} (h : call.Inv (.batch level position settled results)) (i : ℕ) :
    call.Inv (call.settle level position settled results i) := by
  obtain ⟨hlevel, hlt, hlength, hresults, hsettled, hvalues, hwaiting⟩ := h
  rw [settle]
  split
  · next hi =>
    have hbound : position + i < call.keys.length := by
      have hlen := (List.getElem?_eq_some_iff.mp hi).1
      rw [hsettled, List.length_take, List.length_drop] at hlen
      omega
    cases houtcome : call.outcome (position + i) with
    | error e => exact Or.inr ⟨position + i, hbound, houtcome⟩
    | ok value =>
      have hset : ∀ j v, (settled.set i (some value))[j]? = some (some v) →
          call.outcome (position + j) = .ok v := by
        intro j v hj
        by_cases hij : i = j
        · subst hij
          rw [List.getElem?_set_self (List.getElem?_eq_some_iff.mp hi).1] at hj
          cases hj
          exact houtcome
        · rw [List.getElem?_set_ne hij] at hj
          exact hvalues j v hj
      dsimp only
      by_cases hall : (settled.set i (some value)).all Option.isSome = true
      · rw [if_pos hall]
        have hmap := exists_values hall
        have hcount := congrArg List.length hmap
        rw [List.length_set, List.length_map, hsettled, List.length_take, List.length_drop] at hcount
        refine inv_loop hsize hlevel ?_ (hresults.append ?_)
        · rw [List.length_append, ← hcount]
          omega
        · intro j v hj
          rw [hlength]
          apply hset
          rw [hmap, List.getElem?_map, hj]
          rfl
      · rw [if_neg hall]
        refine ⟨hlevel, hlt, hlength, hresults, ?_, hset, Bool.eq_false_iff.mpr hall⟩
        rw [List.length_set, hsettled]
  · exact ⟨hlevel, hlt, hlength, hresults, hsettled, hvalues, hwaiting⟩

/-- **A step keeps the invariant.** -/
theorem inv_step {state : State K V} (h : call.Inv state) (event : Event) :
    call.Inv (call.step event state) := by
  match event, state, h with
  | .level, .level, _ =>
    rw [step]
    cases hlevel : call.getBlockForRequest with
    | error e => exact Or.inl hlevel
    | ok level =>
      refine inv_loop hsize hlevel (Nat.zero_min _).symm ?_
      intro i value hi
      cases hi
  | .request i, .batch level position settled results, h => exact inv_settle hsize h i
  | .level, .batch _ _ _ _, h => exact h
  | .level, .resolved _ _, h => exact h
  | .level, .rejected _, h => exact h
  | .request _, .level, h => exact h
  | .request _, .resolved _ _, h => exact h
  | .request _, .rejected _, h => exact h

theorem inv_start : call.Inv call.start := by
  rw [start]
  by_cases hblock : call.keys.length = 1 ∨ call.block.isSome
  · rw [if_pos hblock]
    refine inv_loop hsize (if_pos hblock) (Nat.zero_min _).symm ?_
    intro i value hi
    cases hi
  · rw [if_neg hblock]
    trivial

omit hsize in
theorem run_append (events more : List Event) :
    call.run (events ++ more)
      = more.foldl (fun state event => call.step event state) (call.run events) :=
  List.foldl_append

/-- **Every run keeps the invariant**, in whatever order the requests settle. -/
theorem inv_run (events : List Event) : call.Inv (call.run events) := by
  induction events using List.reverseRecOn with
  | nil => exact inv_start hsize
  | append_singleton events event ih =>
    rw [run_append]
    exact inv_step hsize ih event

/-! ## Runs end -/

variable (call) in
omit hsize in
/-- How many answers are outstanding, that of the head included. -/
def outstanding : State K V → ℕ
  | .level => call.keys.length + 1
  | .batch _ position settled _ => call.keys.length - (position + settled.countP Option.isSome)
  | .resolved _ _ => 0
  | .rejected _ => 0

omit hsize in
theorem outstanding_loop_le (level : Option ℕ) (position : ℕ) (results : List (Option V)) :
    call.outstanding (call.loop level position results) ≤ call.keys.length - position := by
  rw [loop]
  split
  · simp only [outstanding]
    omega
  · exact Nat.zero_le _

omit hsize in
/-- In a state that has not ended, some answer is waited for, and leaves fewer. -/
theorem exists_step {state : State K V} (h : call.Inv state) (hended : ¬Ended state) :
    ∃ event, call.outstanding (call.step event state) < call.outstanding state := by
  match state, h, hended with
  | .level, _, _ =>
    refine ⟨.level, ?_⟩
    rw [step]
    cases call.getBlockForRequest with
    | error e => exact Nat.succ_pos _
    | ok level => exact Nat.lt_succ_of_le (outstanding_loop_le level 0 [])
  | .batch level position settled results, h, _ =>
    obtain ⟨_, hlt, _, _, hsettled, _, hwaiting⟩ := h
    -- A request that is not settled.
    obtain ⟨value, hmem, hnone⟩ := List.all_eq_false.mp hwaiting
    obtain ⟨i, hi⟩ := List.mem_iff_getElem?.mp hmem
    have hvalue : value = none := Option.not_isSome_iff_eq_none.mp hnone
    subst hvalue
    have hbound := (List.getElem?_eq_some_iff.mp hi).1
    have hcount : settled.countP Option.isSome < settled.length :=
      List.countP_lt_length_iff.mpr ⟨none, hmem, rfl⟩
    have hlength := hsettled
    rw [List.length_take, List.length_drop] at hlength
    refine ⟨.request i, ?_⟩
    rw [step, settle, hi]
    dsimp only
    cases call.outcome (position + i) with
    | error e =>
      simp only [outstanding]
      omega
    | ok v =>
      dsimp only
      by_cases hall : (settled.set i (some v)).all Option.isSome = true
      · rw [if_pos hall]
        have hle := @outstanding_loop_le _ _ _ call level (position + call.batchSize)
          (results ++ (settled.set i (some v)).filterMap fun value => value)
        simp only [outstanding] at hle ⊢
        omega
      · rw [if_neg hall]
        have hset : (settled.set i (some v)).countP Option.isSome
            = settled.countP Option.isSome + 1 := by
          rw [List.countP_set hbound, (List.getElem?_eq_some_iff.mp hi).2]
          rfl
        simp only [outstanding, hset]
        omega
  | .resolved _ _, _, hended => exact absurd trivial hended
  | .rejected _, _, hended => exact absurd trivial hended

/-- **Every run goes on to an end**, once the answers it waits for arrive. -/
theorem run_ends (events : List Event) : ∃ more, Ended (call.run (events ++ more)) := by
  induction hn : call.outstanding (call.run events) using Nat.strong_induction_on
    generalizing events with
  | _ n ih =>
    by_cases hended : Ended (call.run events)
    · exact ⟨[], by rwa [List.append_nil]⟩
    · obtain ⟨event, hlt⟩ := exists_step (inv_run hsize events) hended
      have hrun : call.run (events ++ [event]) = call.step event (call.run events) := by
        rw [run_append]
        rfl
      rw [← hrun, hn] at hlt
      obtain ⟨more, hmore⟩ := ih _ hlt (events ++ [event]) rfl
      rw [List.append_assoc] at hmore
      exact ⟨_, hmore⟩

/-! ## What the reads meet -/

variable (call)

omit hsize in
/-- What the read of the key at a position should come to. -/
def reading (i : ℕ) : Reading V :=
  match call.keys[i]? with
  | none => .failed
  | some key => BigMaps.reading call.schema key (call.answers i)

omit hsize in
/-- A request fails, other than by a missing key. -/
def Fails : Prop :=
  (∃ e, call.getBlockForRequest = .error e) ∨ ∃ i < call.keys.length, call.reading i = .failed

omit hsize in
/-- The queried keys, each with the value of its own request, or `undefined` where it is missing. -/
def expected : List (K × Option V) :=
  call.keys.zip ((List.range call.keys.length).map fun i => (call.reading i).value?)

omit hsize in
/-- A call meets its description: however its requests settle, it ends; it rejects where some
request fails, and otherwise returns the queried keys with their values, all read at one level,
which is the block that it is given. -/
structure Meets : Prop where
  ends : ∀ events, ∃ more, Ended (call.run (events ++ more))
  rejects : call.Fails → ∀ events, Ended (call.run events) → ∃ e, call.run events = .rejected e
  returns : ¬call.Fails → ∀ events, Ended (call.run events) →
    ∃ level map, call.run events = .resolved level map
      ∧ map.entries = call.expected
      ∧ (∀ key ∈ call.keys, ReadAt call.schema call.id level key)
      ∧ (level.isSome ∨ call.keys.length = 1)
      ∧ ∀ block, call.block = some block → level = some block

variable {call}

omit hsize in
theorem outcome_eq_ok {i : ℕ} {value : Option V} :
    call.outcome i = .ok value ↔ ∃ v, value = some v ∧ call.reading i = .value v := by
  rw [outcome, reading]
  cases call.keys[i]? with
  | none => simp
  | some key => exact get_eq_ok

omit hsize in
/-- The level of a call is its block, or that of the head. -/
theorem level_of_getBlockForRequest {level : Option ℕ} (h : call.getBlockForRequest = .ok level) :
    (level.isSome ∨ call.keys.length = 1) ∧ ∀ block, call.block = some block → level = some block := by
  rw [getBlockForRequest] at h
  split at h
  · next hblock =>
    cases h
    exact ⟨hblock.symm, fun _ h => h⟩
  · next hblock =>
    obtain ⟨head, _, rfl⟩ := Except.map_eq_ok.mp h
    refine ⟨Or.inl rfl, ?_⟩
    intro block hsome
    exact absurd (Or.inr (by rw [hsome]; rfl)) hblock

omit hsize in
/-- The entries of the returned map. -/
theorem entries_bigMapValues (hnodup : (call.keys.map call.stringify).Nodup)
    {results : List (Option V)} (hlength : results.length = call.keys.length)
    (hresults : call.Results results) : (call.bigMapValues results).entries = call.expected := by
  have hvalues : results = (List.range call.keys.length).map fun i => (call.reading i).value? := by
    apply List.ext_getElem
    · rw [List.length_map, List.length_range, hlength]
    · intro i hi _
      obtain ⟨v, hv, hreading⟩ := outcome_eq_ok.mp (hresults i _ (List.getElem?_eq_getElem hi))
      rw [List.getElem_map, List.getElem_range, hreading, hv]
      rfl
  have hkeys : ((call.keys.zip results).map fun entry => call.stringify entry.1).Nodup := by
    have hmap : ((call.keys.zip results).map fun entry => call.stringify entry.1)
        = call.keys.map call.stringify := by
      show (call.keys.zip results).map (call.stringify ∘ Prod.fst) = _
      rw [← List.map_map, List.map_fst_zip hlength.ge]
    rw [hmap]
    exact hnodup
  rw [bigMapValues, expected, ← hvalues]
  exact entries_foldl_set _ [] hkeys

/-- **A call meets its description just where some request fails, or no key is missing and the level
is not zero.** -/
theorem meets_iff (hnodup : (call.keys.map call.stringify).Nodup) :
    call.Meets ↔ call.Fails
      ∨ ((∀ i < call.keys.length, call.reading i ≠ .missing)
        ∧ (call.getBlockForRequest = .ok (some 0) → call.keys = [])) := by
  -- In a run that resolves, every read returned a value.
  have hresolved : ∀ {events level map}, call.run events = .resolved level map →
      call.getBlockForRequest = .ok level
        ∧ (∀ i < call.keys.length, ∃ v, call.reading i = .value v)
        ∧ map.entries = call.expected := by
    intro events level map hrun
    have hinv := inv_run hsize events
    rw [hrun] at hinv
    obtain ⟨hlevel, results, hlength, hresults, rfl⟩ := hinv
    refine ⟨hlevel, ?_, entries_bigMapValues hnodup hlength hresults⟩
    intro i hi
    obtain ⟨v, _, hv⟩ := outcome_eq_ok.mp
      (hresults i _ (List.getElem?_eq_getElem (hlength.symm ▸ hi)))
    exact ⟨v, hv⟩
  constructor
  · intro h
    by_cases hfails : call.Fails
    · exact Or.inl hfails
    obtain ⟨more, hended⟩ := h.ends []
    obtain ⟨level, map, hrun, _, hread, _⟩ := h.returns hfails _ hended
    obtain ⟨hlevel, hvalues, _⟩ := hresolved hrun
    refine Or.inr ⟨?_, ?_⟩
    · intro i hi hmissing
      obtain ⟨v, hv⟩ := hvalues i hi
      rw [hmissing] at hv
      cases hv
    · intro hzero
      rw [hzero, Except.ok.injEq] at hlevel
      subst hlevel
      by_contra hne
      -- The request of the first key names the head instead of the level.
      have hpos := List.length_pos_iff.mpr hne
      obtain ⟨v, hv⟩ := hvalues 0 hpos
      rw [reading, List.getElem?_eq_getElem hpos] at hv
      obtain ⟨expr, hexpr⟩ := exists_expr_of_value hv
      have hrequest := hread _ (List.getElem_mem hpos) _ (by rw [requestOf, hexpr]; rfl)
      exact blockText_eq_iff.mp hrequest rfl
  · intro h
    refine ⟨run_ends hsize, ?_, ?_⟩
    · intro hfails events hended
      cases hrun : call.run events with
      | level | batch _ _ _ _ =>
        rw [hrun] at hended
        exact False.elim hended
      | rejected e => exact ⟨e, rfl⟩
      | resolved level map =>
        obtain ⟨hlevel, hvalues, _⟩ := hresolved hrun
        rcases hfails with ⟨e, he⟩ | ⟨i, hi, hfailed⟩
        · rw [he] at hlevel
          cases hlevel
        · obtain ⟨v, hv⟩ := hvalues i hi
          rw [hfailed] at hv
          cases hv
    · intro hfails events hended
      obtain ⟨hmissing, hzero⟩ := h.resolve_left hfails
      cases hrun : call.run events with
      | level | batch _ _ _ _ =>
        rw [hrun] at hended
        exact False.elim hended
      | rejected e =>
        have hinv := inv_run hsize events
        rw [hrun] at hinv
        rcases hinv with he | ⟨i, hi, he⟩
        · exact absurd (Or.inl ⟨e, he⟩) hfails
        · cases hreading : call.reading i with
          | value v =>
            rw [outcome_eq_ok.mpr ⟨v, rfl, hreading⟩] at he
            cases he
          | missing => exact absurd hreading (hmissing i hi)
          | failed => exact absurd (Or.inr ⟨i, hi, hreading⟩) hfails
      | resolved level map =>
        obtain ⟨hlevel, _, hentries⟩ := hresolved hrun
        refine ⟨level, map, rfl, hentries, ?_, level_of_getBlockForRequest hlevel⟩
        intro key hkey request hrequest
        have hne : level ≠ some 0 := by
          rintro rfl
          rw [hzero hlevel] at hkey
          cases hkey
        obtain ⟨expr, _, rfl⟩ := Option.map_eq_some_iff.mp hrequest
        exact blockText_eq_iff.mpr hne

end Call

/-! ## The claim -/

/-- A read of one key meets its description: it returns the value, or `undefined` where the key is
missing, read at the given block, and rejects otherwise. -/
def GetMeets {K J V : Type} (schema : Schema K J V) (id : JSString) (block : Option ℕ) (key : K)
    (answer : Answer J) : Prop :=
  match reading schema key answer with
  | .value v => get schema key answer = .ok (some v) ∧ ReadAt schema id block key
  | .missing => get schema key answer = .ok none ∧ ReadAt schema id block key
  | .failed => ∃ e, get schema key answer = .error e

/-- A read of one key meets its description just where it fails otherwise, or the key is not missing
and the block is not zero. -/
theorem getMeets_iff {K J V : Type} (schema : Schema K J V) (id : JSString) (block : Option ℕ) (key : K)
    (answer : Answer J) :
    GetMeets schema id block key answer
      ↔ reading schema key answer = .failed
        ∨ (reading schema key answer ≠ .missing ∧ block ≠ some 0) := by
  unfold GetMeets
  cases hreading : reading schema key answer with
  | failed =>
    refine iff_of_true ?_ (Or.inl rfl)
    cases hget : get schema key answer with
    | error e => exact ⟨e, rfl⟩
    | ok value =>
      obtain ⟨v, _, hv⟩ := get_eq_ok.mp hget
      rw [hreading] at hv
      cases hv
  | missing =>
    refine iff_of_false ?_ (by simp)
    rintro ⟨hget, _⟩
    obtain ⟨v, hnone, _⟩ := get_eq_ok.mp hget
    cases hnone
  | value v =>
    obtain ⟨expr, hexpr⟩ := exists_expr_of_value hreading
    have hget : get schema key answer = .ok (some v) := get_eq_ok.mpr ⟨v, rfl, hreading⟩
    have hread : ReadAt schema id block key ↔ block ≠ some 0 := by
      rw [← blockText_eq_iff]
      constructor
      · intro h
        exact h ⟨blockText block, id, expr⟩ (by rw [requestOf, hexpr]; rfl)
      · intro h request hrequest
        obtain ⟨_, _, rfl⟩ := Option.map_eq_some_iff.mp hrequest
        exact h
    dsimp only
    rw [hread]
    simp [hget]

/-- **Missing keys**: a read of one key, and a call for distinct keys, meet their descriptions just
where no key is missing and the level is not zero, or another request fails. -/
theorem reads_meet_iff {K J V : Type} :
    (∀ (schema : Schema K J V) (id : JSString) (block : Option ℕ) (key : K) (answer : Answer J),
      GetMeets schema id block key answer
        ↔ reading schema key answer = .failed
          ∨ (reading schema key answer ≠ .missing ∧ block ≠ some 0))
      ∧ ∀ call : Call K J V, 1 ≤ call.batchSize → (call.keys.map call.stringify).Nodup →
        (call.Meets ↔ call.Fails
          ∨ ((∀ i < call.keys.length, call.reading i ≠ .missing)
            ∧ (call.getBlockForRequest = .ok (some 0) → call.keys = []))) :=
  ⟨getMeets_iff, fun _ hsize hnodup => Call.meets_iff hsize hnodup⟩

/-- A schema of texts. -/
def textSchema : Schema JSString JSString JSString where
  encodedExpr := some
  ExecuteOnBigMapValue := some

/-- A call for two keys, in batches of one. -/
def twoKeys (answers : ℕ → Answer JSString) : Call JSString JSString JSString where
  stringify := fun key => key
  schema := textSchema
  id := js "4"
  keys := [js "a", js "b"]
  block := none
  batchSize := 1
  head := .response 200 (some 7)
  answers := answers

/-- Two keys with their values, and one key at a block. -/
theorem reads_meet_iff_twoKeys :
    (twoKeys fun _ => .response 200 (some (js "v"))).Meets
      ∧ GetMeets textSchema (js "4") (some 7) (js "a") (.response 200 (some (js "v"))) := by
  refine ⟨?_, ?_⟩
  · refine (reads_meet_iff.2 _ (by decide) (by decide)).mpr (Or.inr ⟨?_, ?_⟩)
    · decide
    · intro h
      cases h
  · exact (reads_meet_iff.1 _ _ _ _ _).mpr (Or.inr ⟨by decide, by decide⟩)

/-- A missing key is not read as `undefined`: the read rejects, and so does the call for two keys of
which one is missing, though no request fails otherwise. -/
theorem missing_rejects :
    reading textSchema (js "a") (.response 404 none) = .missing
      ∧ get textSchema (js "a") (.response 404 none) = .error .HttpRequestFailed
      ∧ ¬(twoKeys fun _ => .response 404 none).Fails
      ∧ (twoKeys fun _ => .response 404 none).run [.level, .request 0]
        = .rejected .HttpRequestFailed := by
  refine ⟨by decide, rfl, ?_, rfl⟩
  rintro (⟨e, h⟩ | ⟨i, hi, h⟩)
  · cases h
  · revert i
    decide

end BigMaps
