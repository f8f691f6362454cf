import Mathlib.Data.List.Basic

/-!
# Readers over a token list

A reader consumes a prefix of a token list and returns a value with the tokens it left, or
fails. Two notions carry every round-trip and every framing argument over such readers:

* `Reader.Reads r used a`: started on `used` followed by anything, `r` returns `a` and leaves
  exactly what follows;
* `Reader.Local r`: every successful run of `r` is of that form, so it depends only on the
  tokens it consumed.

`Reader.Computes r used x` extends `Reads` to runs that may fail: `r` fails as `x` does.

`Reads` composes along `bind` by concatenating the consumed tokens, and `Local` is closed under
every combinator below. `Reader.readAll` is the loop that runs a reader until nothing is left.
-/

universe u v

/-! ## `Except`, evaluated -/

@[simp] theorem Except.ok_bind {ε : Type v} {α β : Type u} (a : α) (f : α → Except ε β) :
    (Except.ok a >>= f) = f a := rfl

@[simp] theorem Except.error_bind {ε : Type v} {α β : Type u} (e : ε) (f : α → Except ε β) :
    ((Except.error e : Except ε α) >>= f) = .error e := rfl

@[simp] theorem Except.pure_eq_ok {ε : Type v} {α : Type u} (a : α) : (pure a : Except ε α) = .ok a := rfl

theorem Except.bind_eq_ok {ε : Type v} {α β : Type u} {x : Except ε α} {f : α → Except ε β} {b : β} :
    (x >>= f) = .ok b ↔ ∃ a, x = .ok a ∧ f a = .ok b := by
  cases x <;> simp

theorem Except.bind_eq_error {ε : Type v} {α β : Type u} {x : Except ε α} {f : α → Except ε β} {e : ε} :
    (x >>= f) = .error e ↔ x = .error e ∨ ∃ a, x = .ok a ∧ f a = .error e := by
  cases x <;> simp

theorem Except.map_eq_ok {ε : Type v} {α β : Type u} {x : Except ε α} {f : α → β} {b : β} :
    x.map f = .ok b ↔ ∃ a, x = .ok a ∧ f a = b := by
  cases x <;> simp [Except.map]

/-- A reader of tokens `τ`: a value with the tokens left unread, or an error. -/
abbrev Reader (τ : Type u) (ε : Type v) (α : Type u) := StateT (List τ) (Except ε) α

namespace Reader

variable {τ α β : Type u} {ε : Type v}

/-- The reader that always fails. -/
def fail (e : ε) : Reader τ ε α := fun _ => .error e

@[simp] theorem fail_apply (e : ε) (bs : List τ) : (fail e : Reader τ ε α) bs = .error e := rfl

@[simp] theorem pure_apply (a : α) (bs : List τ) : (pure a : Reader τ ε α) bs = .ok (a, bs) := rfl

theorem bind_apply (r : Reader τ ε α) (f : α → Reader τ ε β) (bs : List τ) :
    (r >>= f) bs = (r bs >>= fun p => f p.1 p.2) := rfl

theorem bind_eq_ok {r : Reader τ ε α} {f : α → Reader τ ε β} {bs : List τ} {p : β × List τ} :
    (r >>= f) bs = .ok p ↔ ∃ a mid, r bs = .ok (a, mid) ∧ f a mid = .ok p := by
  rw [bind_apply, Except.bind_eq_ok]
  simp

theorem bind_eq_error {r : Reader τ ε α} {f : α → Reader τ ε β} {bs : List τ} {e : ε} :
    (r >>= f) bs = .error e ↔
      r bs = .error e ∨ ∃ a mid, r bs = .ok (a, mid) ∧ f a mid = .error e := by
  rw [bind_apply, Except.bind_eq_error]
  simp

theorem bind_of_ok {r : Reader τ ε α} {f : α → Reader τ ε β} {bs mid : List τ} {a : α}
    (h : r bs = .ok (a, mid)) : (r >>= f) bs = f a mid := by
  rw [bind_apply, h]
  rfl

theorem bind_of_error {r : Reader τ ε α} {f : α → Reader τ ε β} {bs : List τ} {e : ε}
    (h : r bs = .error e) : (r >>= f) bs = .error e := by
  rw [bind_apply, h]
  rfl

/-! ## Exact consumption -/

/-- `r` consumes exactly `used`, whatever follows, and returns `a`. -/
def Reads (r : Reader τ ε α) (used : List τ) (a : α) : Prop :=
  ∀ rest, r (used ++ rest) = .ok (a, rest)

theorem Reads.pure (a : α) : Reads (pure a : Reader τ ε α) [] a := fun _ => rfl

theorem Reads.bind {r : Reader τ ε α} {f : α → Reader τ ε β} {u v : List τ} {a : α} {b : β}
    (hr : Reads r u a) (hf : Reads (f a) v b) : Reads (r >>= f) (u ++ v) b := by
  intro rest
  rw [List.append_assoc, bind_of_ok (hr _), hf]

/-- A reader that consumes nothing more after `r`. -/
theorem Reads.bind_pure {r : Reader τ ε α} {f : α → Reader τ ε β} {u : List τ} {a : α} {b : β}
    (hr : Reads r u a) (hf : Reads (f a) [] b) : Reads (r >>= f) u b := by
  simpa using hr.bind hf

/-- What a reader makes of its own consumption, with nothing after it. -/
theorem Reads.run {r : Reader τ ε α} {u : List τ} {a : α} (h : Reads r u a) :
    r u = .ok (a, []) := by
  simpa using h []

/-- Two exact readings that start at one place agree. -/
theorem Reads.unique {r : Reader τ ε α} {u v s t : List τ} {a b : α} (hu : Reads r u a)
    (hv : Reads r v b) (h : u ++ s = v ++ t) : a = b ∧ s = t := by
  have := (hu s).symm.trans (h ▸ hv t)
  simpa using this

/-! ## Locality -/

/-- Every successful run depends only on the tokens it consumed. -/
def Local (r : Reader τ ε α) : Prop :=
  ∀ bs a rest, r bs = .ok (a, rest) → ∃ used, bs = used ++ rest ∧ Reads r used a

theorem Local.pure (a : α) : Local (pure a : Reader τ ε α) := by
  rintro bs b rest h
  obtain ⟨rfl, rfl⟩ : a = b ∧ bs = rest := by simpa using h
  exact ⟨[], rfl, Reads.pure a⟩

theorem Local.fail (e : ε) : Local (fail e : Reader τ ε α) := by
  intro bs a rest h
  simp at h

theorem Local.bind {r : Reader τ ε α} {f : α → Reader τ ε β} (hr : Local r)
    (hf : ∀ a, Local (f a)) : Local (r >>= f) := by
  intro bs b rest h
  obtain ⟨a, mid, h₁, h₂⟩ := bind_eq_ok.mp h
  obtain ⟨u, rfl, hu⟩ := hr _ _ _ h₁
  obtain ⟨v, rfl, hv⟩ := hf a _ _ _ h₂
  exact ⟨u ++ v, by simp, hu.bind hv⟩

theorem Local.map {r : Reader τ ε α} (f : α → β) (hr : Local r) : Local (f <$> r) :=
  hr.bind fun a => Local.pure (f a)

theorem Local.ite {c : Prop} [Decidable c] {r s : Reader τ ε α} (hr : Local r) (hs : Local s) :
    Local (if c then r else s) := by
  split
  · exact hr
  · exact hs

/-- A local reader succeeds on a longer input as it did on a shorter one. -/
theorem Local.append {r : Reader τ ε α} (hr : Local r) {bs rest : List τ} {a : α}
    (h : r bs = .ok (a, rest)) (more : List τ) : r (bs ++ more) = .ok (a, rest ++ more) := by
  obtain ⟨u, rfl, hu⟩ := hr _ _ _ h
  rw [List.append_assoc, hu]

theorem Local.length_le {r : Reader τ ε α} (hr : Local r) {bs rest : List τ} {a : α}
    (h : r bs = .ok (a, rest)) : rest.length ≤ bs.length := by
  obtain ⟨u, rfl, -⟩ := hr _ _ _ h
  simp

/-! ## A result beside the input -/

/-- The reader that moves nothing and returns a given result. -/
def lift (x : Except ε α) : Reader τ ε α := fun bs => x.map (·, bs)

theorem lift_reads {x : Except ε α} {a : α} (h : x = .ok a) : Reads (lift x : Reader τ ε α) [] a := by
  subst h
  exact fun _ => rfl

/-- A result computed beside the input neither reads nor moves. -/
theorem Local.lift (x : Except ε α) : Local (lift x : Reader τ ε α) := by
  intro bs a rest h
  cases x with
  | error e => cases h
  | ok b =>
    cases h
    exact ⟨[], rfl, fun rest => rfl⟩

/-! ## Computing on a known input -/

/-- On `used` followed by anything, `r` does what `x` does: it returns the value of `x` and leaves
exactly what follows, or fails as `x` fails. -/
def Computes (r : Reader τ ε α) (used : List τ) (x : Except ε α) : Prop :=
  ∀ rest, r (used ++ rest) = x.map (·, rest)

theorem Reads.computes {r : Reader τ ε α} {u : List τ} {a : α} (h : Reads r u a) :
    Computes r u (.ok a) := h

theorem Computes.lift (x : Except ε α) : Computes (lift x : Reader τ ε α) [] x := fun _ => rfl

theorem Computes.fail (e : ε) : Computes (fail e : Reader τ ε α) [] (.error e) := fun _ => rfl

theorem Computes.bind {r : Reader τ ε α} {f : α → Reader τ ε β} {u v : List τ} {x : Except ε α}
    {y : α → Except ε β} (hr : Computes r u x) (hf : ∀ a, x = .ok a → Computes (f a) v (y a)) :
    Computes (r >>= f) (u ++ v) (x >>= y) := by
  intro rest
  rw [List.append_assoc, bind_apply, hr]
  cases x with
  | error e => rfl
  | ok a => exact hf a rfl rest

/-- A reader that consumes nothing more after `r`. -/
theorem Computes.bind_nil {r : Reader τ ε α} {f : α → Reader τ ε β} {u : List τ} {x : Except ε α}
    {y : α → Except ε β} (hr : Computes r u x) (hf : ∀ a, x = .ok a → Computes (f a) [] (y a)) :
    Computes (r >>= f) u (x >>= y) := by
  simpa using hr.bind hf

theorem Reads.bind_computes {r : Reader τ ε α} {f : α → Reader τ ε β} {u v : List τ} {a : α}
    {y : Except ε β} (hr : Reads r u a) (hf : Computes (f a) v y) :
    Computes (r >>= f) (u ++ v) y := by
  intro rest
  rw [List.append_assoc, bind_of_ok (hr _), hf]

/-! ## A fixed number of tokens -/

/-- The next `n` tokens; `short` is the error for a list that is too short, given its length. -/
def take (n : ℕ) (short : ℕ → ε) : Reader τ ε (List τ) := fun bs =>
  if bs.length < n then .error (short bs.length) else .ok (bs.take n, bs.drop n)

theorem take_reads {n : ℕ} {short : ℕ → ε} {u : List τ} (h : u.length = n) :
    Reads (take n short) u u := by
  intro rest
  subst h
  simp [take]

theorem take_eq_ok {n : ℕ} {short : ℕ → ε} {bs rest u : List τ}
    (h : take n short bs = .ok (u, rest)) : bs = u ++ rest ∧ u.length = n := by
  unfold take at h
  split at h
  · cases h
  · next hn =>
    simp only [Except.ok.injEq, Prod.mk.injEq] at h
    obtain ⟨rfl, rfl⟩ := h
    exact ⟨(List.take_append_drop n bs).symm, by simp; omega⟩

theorem Local.take (n : ℕ) (short : ℕ → ε) : Local (take n short : Reader τ ε _) := by
  intro bs u rest h
  obtain ⟨rfl, hn⟩ := take_eq_ok h
  exact ⟨u, rfl, take_reads hn⟩

/-! ## Repetition -/

/-- Run `r` a given number of times. -/
def times (r : Reader τ ε α) : ℕ → Reader τ ε (List α)
  | 0 => pure []
  | n + 1 => do
    let a ← r
    let as ← times r n
    pure (a :: as)

theorem Local.times {r : Reader τ ε α} (hr : Local r) : ∀ n, Local (times r n)
  | 0 => Local.pure _
  | n + 1 => hr.bind fun _ => (Local.times hr n).bind fun _ => Local.pure _

theorem times_length {r : Reader τ ε α} {n : ℕ} {bs rest : List τ} {as : List α}
    (h : times r n bs = .ok (as, rest)) : as.length = n := by
  induction n generalizing bs as with
  | zero =>
    cases h
    rfl
  | succ n ih =>
    obtain ⟨a, mid, -, h⟩ := bind_eq_ok.mp h
    obtain ⟨as', mid', h₂, h⟩ := bind_eq_ok.mp h
    cases h
    rw [List.length_cons, ih h₂]

/-! ## Reading until nothing is left -/

/-- Run `r` until no token is left, at most `fuel` times; `spent` is the error when that is not
enough. -/
def readAll (r : Reader τ ε α) (spent : ε) : ℕ → List τ → Except ε (List α)
  | _, [] => .ok []
  | 0, _ :: _ => .error spent
  | fuel + 1, b :: bs => do
    let p ← r (b :: bs)
    let as ← readAll r spent fuel p.2
    pure (p.1 :: as)

/-- A list of exact readings, each of at least one token, laid end to end. -/
inductive ReadsMany (r : Reader τ ε α) : List τ → List α → Prop
  | nil : ReadsMany r [] []
  | cons {u us : List τ} {a : α} {as : List α} :
      u ≠ [] → Reads r u a → ReadsMany r us as → ReadsMany r (u ++ us) (a :: as)

theorem ReadsMany.length_le {r : Reader τ ε α} {us : List τ} {as : List α}
    (h : ReadsMany r us as) : as.length ≤ us.length := by
  induction h with
  | nil => simp
  | cons hne _ _ ih =>
    have := List.length_pos_of_ne_nil hne
    simp only [List.length_cons, List.length_append]
    omega

theorem ReadsMany.times {r : Reader τ ε α} {us : List τ} {as : List α} (h : ReadsMany r us as) :
    Reads (times r as.length) us as := by
  induction h with
  | nil => exact Reads.pure _
  | cons _ hr _ ih => exact hr.bind (ih.bind_pure (Reads.pure _))

theorem ReadsMany.append {r : Reader τ ε α} {us vs : List τ} {as bs : List α}
    (hu : ReadsMany r us as) (hv : ReadsMany r vs bs) : ReadsMany r (us ++ vs) (as ++ bs) := by
  induction hu with
  | nil => simpa using hv
  | cons hne hr _ ih => simpa using ReadsMany.cons hne hr ih

/-- The loop reads back what was laid end to end. -/
theorem readAll_of_readsMany {r : Reader τ ε α} {spent : ε} {us : List τ} {as : List α}
    (h : ReadsMany r us as) : ∀ {fuel : ℕ}, as.length ≤ fuel →
      readAll r spent fuel us = .ok as := by
  induction h with
  | nil => intro fuel _; cases fuel <;> rfl
  | @cons u us a as hne hr _ ih =>
    intro fuel hf
    obtain ⟨fuel, rfl⟩ : ∃ n, fuel = n + 1 := ⟨fuel - 1, by simp at hf; omega⟩
    obtain ⟨b, u', rfl⟩ := List.exists_cons_of_ne_nil hne
    have := hr us
    simp only [List.cons_append] at this ⊢
    rw [readAll, this]
    simp only [List.length_cons, Nat.add_le_add_iff_right] at hf
    simp [ih hf]

/-- Every run of the loop over a local reader that always advances is such a list. -/
theorem readsMany_of_readAll {r : Reader τ ε α} {spent : ε} (hr : Local r)
    (hadv : ∀ bs a rest, r bs = .ok (a, rest) → rest.length < bs.length) :
    ∀ {fuel : ℕ} {us : List τ} {as : List α}, readAll r spent fuel us = .ok as →
      ReadsMany r us as
  | 0, [], as, h => by cases h; exact .nil
  | _ + 1, [], as, h => by cases h; exact .nil
  | 0, b :: us, as, h => by cases h
  | fuel + 1, b :: us, as, h => by
    rw [readAll] at h
    obtain ⟨⟨a, rest⟩, h₁, h₂⟩ := Except.bind_eq_ok.mp h
    obtain ⟨as', h₃, h₄⟩ := Except.bind_eq_ok.mp h₂
    cases h₄
    have hlt := hadv _ _ _ h₁
    obtain ⟨u, hu, hru⟩ := hr _ _ _ h₁
    rw [hu] at hlt ⊢
    refine .cons ?_ hru (readsMany_of_readAll hr hadv h₃)
    rintro rfl
    simp at hlt

/-- A loop that ends does so with more fuel. -/
theorem readAll_mono {r : Reader τ ε α} {spent : ε} : ∀ {fuel fuel' : ℕ} {us : List τ} {as : List α},
    readAll r spent fuel us = .ok as → fuel ≤ fuel' → readAll r spent fuel' us = .ok as
  | fuel, fuel', [], as, h, _ => by
    cases fuel <;> cases fuel' <;> exact h
  | 0, _, b :: us, as, h, _ => by cases h
  | fuel + 1, fuel', b :: us, as, h, hle => by
    obtain ⟨n, rfl⟩ : ∃ n, fuel' = n + 1 := ⟨fuel' - 1, by omega⟩
    rw [readAll] at h ⊢
    obtain ⟨p, hp, h⟩ := Except.bind_eq_ok.mp h
    obtain ⟨as', hrest, h⟩ := Except.bind_eq_ok.mp h
    rw [hp, Except.ok_bind, readAll_mono hrest (by omega), Except.ok_bind]
    exact h

/-- The loop goes on behind what it is known to read. -/
theorem readAll_append {r : Reader τ ε α} (spent : ε) {us : List τ} {as : List α}
    (h : ReadsMany r us as) (vs : List τ) (fuel : ℕ) : readAll r spent (as.length + fuel) (us ++ vs) =
      (readAll r spent fuel vs).map (as ++ ·) := by
  induction h with
  | nil =>
    rw [List.length_nil, Nat.zero_add, List.nil_append]
    cases readAll r spent fuel vs <;> rfl
  | @cons u us a as hne hr _ ih =>
    obtain ⟨b, u', rfl⟩ := List.exists_cons_of_ne_nil hne
    have hread := hr (us ++ vs)
    rw [List.cons_append] at hread
    rw [List.length_cons, Nat.add_right_comm, List.append_assoc, List.cons_append, readAll, hread,
      Except.ok_bind, ih]
    cases readAll r spent fuel vs <;> rfl
/-! ## Following

A reader `s` follows a reader `r` when it does whatever `r` decides: it returns a related value and
leaves the same tokens where `r` succeeds, and fails with a `thrown` error where `r` fails with a
`strict` one. Where `r` fails with another error it says nothing, and `s` is free. -/

section Follows

variable {α' β' : Type u} {ε' : Type v}

/-- `s` succeeds where `r` does, with related values, and fails where `r` fails strictly. -/
def Follows (strict : ε → Prop) (thrown : ε' → Prop) (R : α → α' → Prop) (r : Reader τ ε α)
    (s : Reader τ ε' α') : Prop :=
  ∀ bs, (∀ a rest, r bs = .ok (a, rest) → ∃ b, s bs = .ok (b, rest) ∧ R a b) ∧
    ∀ e, r bs = .error e → strict e → ∃ e', s bs = .error e' ∧ thrown e'

variable {strict : ε → Prop} {thrown : ε' → Prop} {R : α → α' → Prop} {S : β → β' → Prop}

theorem Follows.pure {a : α} {b : α'} (h : R a b) :
    Follows strict thrown R (pure a : Reader τ ε α) (pure b : Reader τ ε' α') := by
  refine fun bs => ⟨fun a' rest he => ?_, fun e he => by cases he⟩
  cases he
  exact ⟨b, rfl, h⟩

theorem Follows.fail {e : ε} (s : Reader τ ε' α') (h : ¬ strict e) :
    Follows strict thrown R (Reader.fail e : Reader τ ε α) s := by
  refine fun bs => ⟨fun a rest he => by simp at he, fun e' he hs => ?_⟩
  cases he
  exact absurd hs h

theorem Follows.fail_fail {e : ε} {e' : ε'} (h : thrown e') :
    Follows strict thrown R (Reader.fail e : Reader τ ε α) (Reader.fail e' : Reader τ ε' α') :=
  fun _ => ⟨fun _ _ he => by simp at he, fun _ _ _ => ⟨e', rfl, h⟩⟩

/-- A reader that never succeeds is followed by one that always fails. -/
theorem Follows.fail_right {r : Reader τ ε α} {e' : ε'} (h : ∀ bs a rest, r bs ≠ .ok (a, rest))
    (ht : thrown e') : Follows strict thrown R r (Reader.fail e' : Reader τ ε' α') :=
  fun bs => ⟨fun a rest he => absurd he (h bs a rest), fun _ _ _ => ⟨e', rfl, ht⟩⟩

theorem Follows.bind {r : Reader τ ε α} {s : Reader τ ε' α'} {f : α → Reader τ ε β}
    {g : α' → Reader τ ε' β'} (h : Follows strict thrown R r s)
    (hf : ∀ a b, R a b → Follows strict thrown S (f a) (g b)) : Follows strict thrown S (r >>= f) (s >>= g) := by
  intro bs
  obtain ⟨hok, herr⟩ := h bs
  cases hr : r bs with
  | error e =>
    rw [bind_of_error hr]
    refine ⟨fun a rest he => (by cases he), fun e₁ he hs => ?_⟩
    cases he
    obtain ⟨e', he', ht⟩ := herr e hr hs
    exact ⟨e', bind_of_error he', ht⟩
  | ok p =>
    obtain ⟨a, mid⟩ := p
    obtain ⟨b, hb, hR⟩ := hok a mid hr
    rw [bind_of_ok hr, bind_of_ok hb]
    exact hf a b hR mid

theorem Follows.mono {R' : α → α' → Prop} {r : Reader τ ε α} {s : Reader τ ε' α'}
    (h : Follows strict thrown R r s) (hR : ∀ a b, R a b → R' a b) : Follows strict thrown R' r s := by
  refine fun bs => ⟨fun a rest he => ?_, (h bs).2⟩
  obtain ⟨b, hb, hab⟩ := (h bs).1 a rest he
  exact ⟨b, hb, hR a b hab⟩

theorem Follows.times {r : Reader τ ε α} {s : Reader τ ε' α'} (h : Follows strict thrown R r s) :
    ∀ n, Follows strict thrown (List.Forall₂ R) (times r n) (times s n)
  | 0 => .pure .nil
  | n + 1 => h.bind fun _ _ hab => (Follows.times h n).bind fun _ _ hl => .pure (.cons hab hl)

theorem Follows.readAll {r : Reader τ ε α} {s : Reader τ ε' α'} {spent : ε} {spent' : ε'}
    (h : Follows strict thrown R r s) (hs : ¬ strict spent) (fuel : ℕ) (bs : List τ) :
    (∀ as, readAll r spent fuel bs = .ok as →
      ∃ bs', readAll s spent' fuel bs = .ok bs' ∧ List.Forall₂ R as bs') ∧
    ∀ e, readAll r spent fuel bs = .error e → strict e →
      ∃ e', readAll s spent' fuel bs = .error e' ∧ thrown e' := by
  induction fuel generalizing bs with
  | zero =>
    cases bs with
    | nil => exact ⟨fun as he => by cases he; exact ⟨[], rfl, .nil⟩, fun e he => by cases he⟩
    | cons b bs =>
      refine ⟨fun as he => (by cases he), fun e he hst => ?_⟩
      cases he
      exact absurd hst hs
  | succ fuel ih =>
    cases bs with
    | nil => exact ⟨fun as he => by cases he; exact ⟨[], rfl, .nil⟩, fun e he => by cases he⟩
    | cons b bs =>
      rw [Reader.readAll, Reader.readAll]
      obtain ⟨hok, herr⟩ := h (b :: bs)
      cases hr : r (b :: bs) with
      | error e =>
        refine ⟨fun as he => (by cases he), fun e₁ he hst => ?_⟩
        cases he
        obtain ⟨e', he', ht⟩ := herr e hr hst
        exact ⟨e', by rw [he']; rfl, ht⟩
      | ok p =>
        obtain ⟨a, mid⟩ := p
        obtain ⟨a', ha', hR⟩ := hok a mid hr
        obtain ⟨hok', herr'⟩ := ih mid
        rw [ha']
        simp only [Except.ok_bind]
        refine ⟨fun as he => ?_, fun e he hst => ?_⟩
        · obtain ⟨l, hl, he⟩ := Except.bind_eq_ok.mp he
          cases he
          obtain ⟨l', hl', hll⟩ := hok' l hl
          exact ⟨a' :: l', by rw [hl']; rfl, .cons hR hll⟩
        · rcases Except.bind_eq_error.mp he with he | ⟨l, -, he⟩
          · obtain ⟨e', he', ht⟩ := herr' e he hst
            exact ⟨e', by rw [he']; rfl, ht⟩
          · cases he

theorem Follows.lift {x : Except ε α} {y : Except ε' α'}
    (hok : ∀ a, x = .ok a → ∃ b, y = .ok b ∧ R a b)
    (herr : ∀ e, x = .error e → strict e → ∃ e', y = .error e' ∧ thrown e') :
    Follows strict thrown R (Reader.lift x : Reader τ ε α) (Reader.lift y) := by
  intro bs
  cases x with
  | error e =>
    refine ⟨fun a rest he => (by cases he), fun e₁ he hs => ?_⟩
    cases he
    obtain ⟨e', rfl, ht⟩ := herr e rfl hs
    exact ⟨e', rfl, ht⟩
  | ok a =>
    obtain ⟨b, rfl, hR⟩ := hok a rfl
    refine ⟨fun a' rest he => ?_, fun e he => by cases he⟩
    cases he
    exact ⟨b, rfl, hR⟩

end Follows

/-! ## Fuel

A reader that recurses on a fuel argument is read off two lemmas: with enough fuel for the input,
one more unit changes nothing, and the error for running out is never returned. -/

/-- On inputs of at most `n` tokens, `r` and `s` agree and do not fail with `spent`. -/
def Agree (spent : ε) (n : ℕ) (r s : Reader τ ε α) : Prop :=
  ∀ bs : List τ, bs.length ≤ n → r bs = s bs ∧ r bs ≠ .error spent

theorem Agree.mono {spent : ε} {m n : ℕ} {r s : Reader τ ε α} (h : Agree spent n r s) (hm : m ≤ n) :
    Agree spent m r s := fun bs hbs => h bs (Nat.le_trans hbs hm)

theorem Agree.of_eq {spent : ε} {n : ℕ} {r : Reader τ ε α} (h : ∀ bs, r bs ≠ .error spent) :
    Agree spent n r r := fun bs _ => ⟨rfl, h bs⟩

theorem Agree.pure {spent : ε} {n : ℕ} (a : α) :
    Agree spent n (pure a : Reader τ ε α) (pure a) := .of_eq fun _ h => by cases h

/-- Agreement along `bind`, where the first reader returns only values with `P` on such inputs. -/
theorem Agree.bind_of {spent : ε} {n : ℕ} {r s : Reader τ ε α} {f g : α → Reader τ ε β}
    {P : α → Prop} (hr : Agree spent n r s) (hl : Local r)
    (hP : ∀ bs a rest, bs.length ≤ n → r bs = .ok (a, rest) → P a)
    (hf : ∀ a, P a → Agree spent n (f a) (g a)) : Agree spent n (r >>= f) (s >>= g) := by
  intro bs hbs
  obtain ⟨heq, hne⟩ := hr bs hbs
  cases hx : r bs with
  | error e =>
    rw [bind_of_error hx, bind_of_error (heq ▸ hx)]
    exact ⟨rfl, fun h => hne (hx.trans (by rw [Except.error.inj h]))⟩
  | ok p =>
    obtain ⟨a, rest⟩ := p
    rw [bind_of_ok hx, bind_of_ok (heq ▸ hx)]
    exact hf a (hP _ _ _ hbs hx) rest (Nat.le_trans (hl.length_le hx) hbs)

theorem Agree.bind {spent : ε} {n : ℕ} {r s : Reader τ ε α} {f g : α → Reader τ ε β}
    (hr : Agree spent n r s) (hl : Local r) (hf : ∀ a, Agree spent n (f a) (g a)) :
    Agree spent n (r >>= f) (s >>= g) :=
  hr.bind_of (P := fun _ => True) hl (fun _ _ _ _ _ => trivial) fun a _ => hf a

theorem Agree.ite {spent : ε} {n : ℕ} {c : Prop} [Decidable c] {r s r' s' : Reader τ ε α}
    (h : Agree spent n r s) (h' : Agree spent n r' s') :
    Agree spent n (if c then r else r') (if c then s else s') := by
  split
  · exact h
  · exact h'

theorem Agree.times {spent : ε} {n : ℕ} {r s : Reader τ ε α} (h : Agree spent n r s)
    (hl : Local r) : ∀ k, Agree spent n (times r k) (times s k)
  | 0 => .pure _
  | k + 1 => h.bind hl fun _ => (Agree.times h hl k).bind (hl.times k) fun _ => .pure _

/-- The loop, over readers that always advance. -/
theorem Agree.readAll {spent : ε} {n : ℕ} {r s : Reader τ ε α} (h : Agree spent n r s)
    (hadv : ∀ bs a rest, r bs = .ok (a, rest) → rest.length < bs.length) :
    ∀ {fuel : ℕ} {bs : List τ}, bs.length ≤ n → bs.length ≤ fuel →
      readAll r spent fuel bs = readAll s spent fuel bs ∧
        readAll r spent fuel bs ≠ .error spent
  | fuel, [], _, _ => by cases fuel <;> exact ⟨rfl, fun h => by cases h⟩
  | 0, b :: bs, _, hf => by simp at hf
  | fuel + 1, b :: bs, hn, hf => by
    obtain ⟨heq, hne⟩ := h _ hn
    rw [Reader.readAll, Reader.readAll, ← heq]
    cases hx : r (b :: bs) with
    | error e =>
      exact ⟨rfl, fun he => hne (hx.trans (by rw [Except.error.inj he]))⟩
    | ok p =>
      have hlt := hadv _ _ _ hx
      have hrest : p.2.length ≤ fuel := by
        rw [List.length_cons] at hlt hf
        omega
      obtain ⟨heq', hne'⟩ := Agree.readAll h hadv (show p.2.length ≤ n by omega) hrest
      rw [Except.ok_bind, Except.ok_bind, heq']
      rw [heq'] at hne'
      refine ⟨rfl, fun he => ?_⟩
      rcases Except.bind_eq_error.mp he with he | ⟨as, -, he⟩
      · exact hne' he
      · cases he

end Reader
