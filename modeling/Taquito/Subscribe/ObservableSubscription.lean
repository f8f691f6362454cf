import Mathlib.Data.List.Basic

/-!
# Subscriptions with listeners

`ObservableSubscription` keeps three arrays of listeners and calls them, one after the other, from
the handlers of a `tap` behind `takeUntil(completed$)`. While a listener runs it may register and
remove listeners and close the subscription, and closing calls the close listeners there and then,
so that calls nest. A run is a list of acts; which act comes next is up to the source, to the user
and, while a listener runs, to that listener.

The operators behave as documented: a subscription is stopped before the handlers of its last
notification run, so `close()` does nothing from then on; and the operator that is put behind `tap`
subscribes to the source again after an error, or passes the error on to `catchError`.
-/

namespace Subscribe

/-- The types of events that listeners are registered for. -/
inductive EventType where
  | data
  | error
  | close
  deriving DecidableEq, Repr

/-- The `type` argument of `on` and `off`; another one is an `UnsupportedEventError`. -/
def eventType : String → Option EventType
  | "data" => some .data
  | "error" => some .error
  | "close" => some .close
  | _ => none

/-- What listeners are called with. -/
inductive Event (D X : Type) where
  | data (data : D)
  | error (error : X)
  | close
  deriving DecidableEq, Repr

namespace Event

variable {D X : Type}

def type : Event D X → EventType
  | data _ => .data
  | error _ => .error
  | close => .close

/-- The data of an event. -/
def data? : Event D X → Option D
  | data d => some d
  | _ => none

end Event

/-- A listener in an array. The number tells registrations of one function apart; nothing that the
code does depends on it. -/
structure Registration (L : Type) where
  id : ℕ
  callback : L
  deriving DecidableEq, Repr

/-- A loop of `call`: the event and the index of the listener that runs, and, for the record, which
listeners were registered when the event arrived, which were called, and which of the registered
ones were removed without having been called. -/
structure Delivery (L D X : Type) where
  event : Event D X
  index : ℕ
  registered : List (Registration L)
  called : List (Registration L)
  removed : List (Registration L)

/-- A subscription. -/
structure State (L D X : Type) where
  messageListeners : List (Registration L)
  errorListeners : List (Registration L)
  closeListeners : List (Registration L)
  /-- The subscription to the source is not stopped. -/
  live : Bool
  /-- The errors so far. -/
  errors : ℕ
  /-- The loops that have not ended, the innermost first. -/
  running : List (Delivery L D X)
  /-- The loops that have ended, in the order of their ends. -/
  finished : List (Delivery L D X)
  /-- The number of the next registration. -/
  next : ℕ

/-- What happens. -/
inductive Act (L D X : Type) where
  | on (type : String) (cb : L)
  | off (type : String) (cb : L)
  | close
  /-- The source emits. -/
  | data (d : D)
  | error (x : X)
  | complete
  /-- The listener that runs returns, or throws. -/
  | returns (thrown : Bool)

section

variable {L D X : Type}

namespace State

def listeners (s : State L D X) : EventType → List (Registration L)
  | .data => s.messageListeners
  | .error => s.errorListeners
  | .close => s.closeListeners

def setListeners (s : State L D X) (ls : List (Registration L)) : EventType → State L D X
  | .data => { s with messageListeners := ls }
  | .error => { s with errorListeners := ls }
  | .close => { s with closeListeners := ls }

@[simp] theorem listeners_setListeners (s : State L D X) (ls : List (Registration L))
    (t t' : EventType) :
    (s.setListeners ls t).listeners t' = if t' = t then ls else s.listeners t' := by
  cases t <;> cases t' <;> rfl

theorem setListeners_eq (s : State L D X) (ls : List (Registration L)) (t : EventType) :
    ∃ ls₁ ls₂ ls₃, s.setListeners ls t =
      ⟨ls₁, ls₂, ls₃, s.live, s.errors, s.running, s.finished, s.next⟩ := by
  cases t <;> exact ⟨_, _, _, rfl⟩

end State

/-- The subscription after the constructor. -/
def initial : State L D X := ⟨[], [], [], true, 0, [], [], 0⟩

/-- Whether the operator behind `tap` subscribes again after the `n`-th error: `retry()` always
does, and without `shouldRetry` nothing does. -/
abbrev Resubscribes := ℕ → Bool

variable (resubscribes : Resubscribes)

/-- The head of the loop of `call`: the next listener runs, or the loop ends. -/
def proceed (s : State L D X) : State L D X :=
  match s.running with
  | [] => s
  | d :: rest =>
    match (s.listeners d.event.type)[d.index]? with
    | some l => { s with running := { d with called := d.called ++ [l] } :: rest }
    | none =>
      { s with
        running := rest
        finished := s.finished ++ [d]
        live := if d.event.type = .error then resubscribes s.errors else s.live }

/-- `call(listeners, value)`. -/
def call (event : Event D X) (s : State L D X) : State L D X :=
  proceed resubscribes
    { s with running := ⟨event, 0, s.listeners event.type, [], []⟩ :: s.running }

section

variable [DecidableEq L]

/-- The record of a loop whose list loses `l`. -/
def Delivery.withdraw (l : Registration L) (d : Delivery L D X) : Delivery L D X :=
  if l ∈ d.registered ∧ l ∉ d.called then { d with removed := d.removed ++ [l] } else d

/-- `remove(listeners, value)`. -/
def remove (type : EventType) (cb : L) (s : State L D X) : State L D X :=
  let idx := (s.listeners type).findIdx fun l => l.callback = cb
  match (s.listeners type)[idx]? with
  | none => s
  | some l =>
    { s.setListeners ((s.listeners type).eraseIdx idx) type with
      running := s.running.map fun d => if d.event.type = type then d.withdraw l else d }

/-- One act; `none` for an act that cannot come now: the source emits when no listener runs, and
only a listener that runs returns. -/
def step (s : State L D X) : Act L D X → Option (State L D X)
  | .on type cb =>
    match eventType type with
    | some t =>
      some { s.setListeners (s.listeners t ++ [⟨s.next, cb⟩]) t with next := s.next + 1 }
    | none => some s
  | .off type cb =>
    match eventType type with
    | some t => some (remove t cb s)
    | none => some s
  | .close => some (if s.live then call resubscribes .close { s with live := false } else s)
  | .data d =>
    if s.running.isEmpty then some (if s.live then call resubscribes (.data d) s else s) else none
  | .error x =>
    if s.running.isEmpty then
      some (if s.live then
        call resubscribes (.error x) { s with live := false, errors := s.errors + 1 } else s)
    else none
  | .complete =>
    if s.running.isEmpty then
      some (if s.live then call resubscribes .close { s with live := false } else s)
    else none
  | .returns _ =>
    match s.running with
    | [] => none
    | d :: rest =>
      some (proceed resubscribes { s with running := { d with index := d.index + 1 } :: rest })

/-- A run. -/
def run (s : State L D X) : List (Act L D X) → Option (State L D X)
  | [] => some s
  | act :: acts => (step resubscribes s act).bind fun s' => run s' acts

end

end

/-! ## What subscribers are told -/

/-- Where the stream of events is. -/
inductive Phase where
  | active
  /-- An error ended it. -/
  | failed
  /-- `close()` or completion ended it. -/
  | over
  deriving DecidableEq, Repr

/-- The stream as the source and `close()` make it: the data that arrive before it ends. -/
structure Stream (D : Type) where
  phase : Phase
  errors : ℕ
  arrived : List D

variable {L D X : Type}

/-- The stream after an act. -/
def Stream.step (resubscribes : Resubscribes) (a : Stream D) (act : Act L D X) : Stream D :=
  if a.phase = .active then
    match act with
    | .data d => { a with arrived := a.arrived ++ [d] }
    | .error _ =>
      { a with
        errors := a.errors + 1
        phase := if resubscribes (a.errors + 1) then .active else .failed }
    | .complete | .close => { a with phase := .over }
    | _ => a
  else a

/-- The stream of a run. -/
def stream (resubscribes : Resubscribes) (acts : List (Act L D X)) : Stream D :=
  acts.foldl (Stream.step resubscribes) ⟨.active, 0, []⟩

variable [DecidableEq L]

namespace Delivery

/-- The listeners that are still to be called: registered when the event arrived, not called, and
not removed. -/
def pending (d : Delivery L D X) : List (Registration L) :=
  d.registered.filter fun l => l ∉ d.called ∧ l ∉ d.removed

/-- The listeners that were registered when the event arrived are called in that order and once,
but for those that are removed first. -/
def InOrder (d : Delivery L D X) : Prop :=
  d.called.filter (· ∈ d.registered) ++ d.pending = d.registered.filter (· ∉ d.removed)

end Delivery

/-- The events of the loops that have begun, in that order. -/
def State.events (s : State L D X) : List (Event D X) :=
  (s.finished ++ s.running).map Delivery.event

/-- What subscribers are told about a stream: every loop calls its listeners in order, and all of
them before it ends; the loops over data listeners are those of the data that arrive before the end,
and one loop over the close listeners tells of an end by `close()` or completion. -/
structure Told (s : State L D X) (a : Stream D) : Prop where
  inOrder : ∀ d ∈ s.finished ++ s.running, d.InOrder
  finished : ∀ d ∈ s.finished, d.pending = []
  data : s.events.filterMap Event.data? = a.arrived
  closes : s.events.countP (fun e => e.type = .close) = if a.phase = .over then 1 else 0

/-- An act that does not disturb a loop: no listener is removed at or before the place of the one
that runs while others wait behind it, and no listener for an error closes the subscription while
the operator is about to subscribe again. -/
def Harmless (resubscribes : Resubscribes) (s : State L D X) : Act L D X → Prop
  | .off type cb => ∀ t, eventType type = some t → ∀ d ∈ s.running, d.event.type = t →
    d.pending ≠ [] → d.index < (s.listeners t).findIdx fun l => l.callback = cb
  | .close => ∀ d ∈ s.running, d.event.type = .error → resubscribes s.errors = false
  | _ => True

/-- A run of acts none of which disturbs a loop. -/
def HarmlessRun (resubscribes : Resubscribes) (s : State L D X) : List (Act L D X) → Prop
  | [] => True
  | act :: acts => Harmless resubscribes s act ∧
    ∀ s', step resubscribes s act = some s' → HarmlessRun resubscribes s' acts

end Subscribe
