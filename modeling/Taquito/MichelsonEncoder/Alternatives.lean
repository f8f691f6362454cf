import Taquito.MichelsonEncoder.Labels

/-!
# What an `or` encodes

The search of `Encode` and `EncodeObject` ends in one of five ways (`Finds`): an alternative has the
label, or one that is an `or` finds something inside, or there is nothing, and the result is `null`.
-/

open Js

namespace MichelsonEncoder

section search

variable {σ : Type}

/-- How the search of an `or` with these alternatives ends. -/
inductive Finds (lt rt : Token) (label : JSString) (args : σ)
    (direct : Token → Except EncoderError (Encoded × σ))
    (inner : Token → σ → Except EncoderError (Encoded × σ)) : Encoded × σ → Prop where
  | left {r} (hl : lt.named label) (h : direct lt = .ok r) :
    Finds lt rt label args direct inner (.prim "Left" (some [r.1]), r.2)
  | right {r} (hl : ¬lt.named label) (hr : rt.named label) (h : direct rt = .ok r) :
    Finds lt rt label args direct inner (.prim "Right" (some [r.1]), r.2)
  | insideLeft {r} (hl : ¬lt.named label) (hr : ¬rt.named label) (hor : lt.kind = .or)
    (h : inner lt args = .ok r) (hne : r.1 ≠ .null) :
    Finds lt rt label args direct inner (.prim "Left" (some [r.1]), r.2)
  | insideRight {a r} (hl : ¬lt.named label) (hr : ¬rt.named label)
    (hnull : OrToken.within lt args inner = .ok (.null, a)) (hor : rt.kind = .or)
    (h : inner rt a = .ok r) (hne : r.1 ≠ .null) :
    Finds lt rt label args direct inner (.prim "Right" (some [r.1]), r.2)
  | nothing {a b} (hl : ¬lt.named label) (hr : ¬rt.named label)
    (hnull : OrToken.within lt args inner = .ok (.null, a))
    (hnull' : OrToken.within rt a inner = .ok (.null, b)) :
    Finds lt rt label args direct inner (.null, b)

variable {left right : ℕ → Token} {idx : ℕ} {label : JSString} {args : σ}
  {direct : Token → Except EncoderError (Encoded × σ)}
  {inner : Token → σ → Except EncoderError (Encoded × σ)}

/-- What is found inside an alternative is found in an `or`. -/
theorem kind_of_within {t : Token} {r : Encoded × σ} (h : OrToken.within t args inner = .ok r)
    (hne : r.1 ≠ .null) : t.kind = .or ∧ inner t args = .ok r := by
  rw [OrToken.within] at h
  by_cases hor : t.kind = .or
  · rw [if_pos hor] at h
    exact ⟨hor, h⟩
  · rw [if_neg hor] at h
    cases h
    exact absurd rfl hne

/-- **The search ends in one of the ways of `Finds`**, unless it throws. -/
theorem finds_of_search {r : Encoded × σ}
    (h : OrToken.search left right idx label args direct inner = .ok r) :
    Finds (OrToken.tokens left right idx).1 (OrToken.tokens left right idx).2 label args direct inner
      r := by
  unfold OrToken.search at h
  dsimp only at h
  by_cases hl : (OrToken.tokens left right idx).1.named label
  · rw [if_pos hl] at h
    obtain ⟨r', hr', h⟩ := Except.bind_eq_ok.mp h
    cases h
    exact .left hl hr'
  · rw [if_neg hl] at h
    by_cases hr : (OrToken.tokens left right idx).2.named label
    · rw [if_pos hr] at h
      obtain ⟨r', hr', h⟩ := Except.bind_eq_ok.mp h
      cases h
      exact .right hl hr hr'
    · rw [if_neg hr] at h
      obtain ⟨⟨val, a⟩, hwithin, h⟩ := Except.bind_eq_ok.mp h
      by_cases hval : val = .null
      · subst hval
        obtain ⟨⟨val', b⟩, hwithin', h⟩ := Except.bind_eq_ok.mp h
        by_cases hval' : val' = .null
        · subst hval'
          cases h
          exact .nothing hl hr hwithin hwithin'
        · obtain ⟨hor, hinner⟩ := kind_of_within hwithin' hval'
          dsimp only at h
          rw [inject_of_ne_null hval'] at h
          cases h
          exact .insideRight hl hr hwithin hor hinner hval'
      · obtain ⟨hor, hinner⟩ := kind_of_within hwithin hval
        dsimp only at h
        rw [inject_of_ne_null hval] at h
        cases h
        exact .insideLeft hl hr hor hinner hval

end search

/-! ## Objects -/

/-- How `EncodeObject` of an `or` with these alternatives ends. -/
inductive EncodesOr (lt rt : Token) (label : JSString) (x : Val) : Encoded → Prop where
  | left {v e} (hl : lt.named label) (hget : x.get label = .ok v) (h : lt.EncodeObject v = .ok e) :
    EncodesOr lt rt label x (.prim "Left" (some [e]))
  | right {v e} (hl : ¬lt.named label) (hr : rt.named label) (hget : x.get label = .ok v)
    (h : rt.EncodeObject v = .ok e) : EncodesOr lt rt label x (.prim "Right" (some [e]))
  | insideLeft {e} (hl : ¬lt.named label) (hr : ¬rt.named label) (hor : lt.kind = .or)
    (h : lt.EncodeObject x = .ok e) (hne : e ≠ .null) :
    EncodesOr lt rt label x (.prim "Left" (some [e]))
  | insideRight {e} (hl : ¬lt.named label) (hr : ¬rt.named label)
    (hnull : lt.kind = .or → lt.EncodeObject x = .ok .null) (hor : rt.kind = .or)
    (h : rt.EncodeObject x = .ok e) (hne : e ≠ .null) :
    EncodesOr lt rt label x (.prim "Right" (some [e]))
  | nothing (hl : ¬lt.named label) (hr : ¬rt.named label)
    (hnull : lt.kind = .or → lt.EncodeObject x = .ok .null)
    (hnull' : rt.kind = .or → rt.EncodeObject x = .ok .null) : EncodesOr lt rt label x .null

section encodeObject

variable {left right : ℕ → Token} {idx : ℕ} {x : Val} {e : Encoded}

/-- The label of an object: its first key. -/
def labelOf (keys : List JSString) : JSString := keys.head?.getD (js "undefined")

/-- **`EncodeObject` of an `or` ends in one of the ways of `EncodesOr`**, unless it throws. -/
theorem encodesOr_of_encodeObject (hok : OrToken.EncodeObject left right idx x = .ok e) :
    ∃ keys, x.keys = .ok keys ∧ EncodesOr (OrToken.tokens left right idx).1
      (OrToken.tokens left right idx).2 (labelOf keys) x e := by
  obtain ⟨keys, hkeys, hfound⟩ := Except.bind_eq_ok.mp hok
  obtain ⟨r, hsearch, rfl⟩ := Except.map_eq_ok.mp hfound
  have hdirect : ∀ {t : Token} {r : Encoded × Unit},
      (do return (← t.EncodeObject (← x.get (labelOf keys)), ())) = Except.ok r →
        ∃ v, x.get (labelOf keys) = .ok v ∧ t.EncodeObject v = .ok r.1 := by
    intro t r hr
    obtain ⟨v, hv, hr⟩ := Except.bind_eq_ok.mp hr
    obtain ⟨e, he, hr⟩ := Except.bind_eq_ok.mp hr
    cases hr
    exact ⟨v, hv, he⟩
  have hinner : ∀ {t : Token} {r : Encoded × Unit},
      (do return (← t.EncodeObject x, ())) = Except.ok r → t.EncodeObject x = .ok r.1 := by
    intro t r hr
    obtain ⟨e, he, hr⟩ := Except.bind_eq_ok.mp hr
    cases hr
    exact he
  have hwithin : ∀ {t : Token} {a : Unit}, OrToken.within t ()
      (fun t _ => do return (← t.EncodeObject x, ())) = .ok (.null, a) → t.kind = .or →
        t.EncodeObject x = .ok .null := by
    intro t a hr hor
    rw [OrToken.within, if_pos hor] at hr
    exact hinner hr
  refine ⟨keys, hkeys, ?_⟩
  cases finds_of_search hsearch with
  | left hl h =>
    obtain ⟨v, hv, he⟩ := hdirect h
    exact .left hl hv he
  | right hl hr h =>
    obtain ⟨v, hv, he⟩ := hdirect h
    exact .right hl hr hv he
  | insideLeft hl hr hor h hne => exact .insideLeft hl hr hor (hinner h) hne
  | insideRight hl hr hnull hor h hne => exact .insideRight hl hr (hwithin hnull) hor (hinner h) hne
  | nothing hl hr hnull hnull' => exact .nothing hl hr (hwithin hnull) (hwithin hnull')

end encodeObject

end MichelsonEncoder
