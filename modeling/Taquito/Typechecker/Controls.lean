import Taquito.Typechecker.Code
import Taquito.Typechecker.ValueTypes

/-!
# What the checker says of code that holds code

One inversion lemma for each instruction with code: the parts of its stack, the types that its bodies
find there, what the checker says of the bodies, and how its result is made of theirs. Of the types
that a body finds only the meanings matter, which `Keeps` states.
-/

open Js MichelCodec Michelson

namespace Typechecker

open StackType

/-- The second type has the meanings of the first. -/
def Keeps (t t' : StackType) : Prop := ∀ T, Means t T → Means t' T

section

variable {run : Expr → List StackType → Checked ReturnType} {i : Instruction}
  {stack : List StackType} {r : ReturnType}

theorem keeps_element {t t' : StackType} {v : List JSString} (h : element i stack t v = .ok t') :
    Keeps t t' := fun _ hT => hT.annotate h

theorem typeIF_NONE_cases (h : typeIF_NONE run i stack = .ok r) :
    ∃ s tail code₀ code₁ x t br₀ br₁, stack = s :: tail ∧ s.typeID = some "option" ∧
      i.arg 0 = .ok code₀ ∧ i.arg 1 = .ok code₁ ∧ argOf s 0 = .ok x ∧ Keeps x t ∧
      run code₀ tail = .ok br₀ ∧ run code₁ (t :: tail) = .ok br₁ ∧
      branchType i stack br₀ br₁ = .ok r := by
  obtain ⟨_, -, h⟩ := Except.bind_eq_ok.mp h
  obtain ⟨s, tail, hs, hid, h⟩ := args1_eq_ok h
  obtain ⟨code₀, h₀, h⟩ := Except.bind_eq_ok.mp h
  obtain ⟨br₀, hbr₀, h⟩ := Except.bind_eq_ok.mp h
  obtain ⟨x, hx, h⟩ := Except.bind_eq_ok.mp h
  obtain ⟨va, -, h⟩ := Except.bind_eq_ok.mp h
  obtain ⟨t, ht, h⟩ := Except.bind_eq_ok.mp h
  obtain ⟨code₁, h₁, h⟩ := Except.bind_eq_ok.mp h
  obtain ⟨br₁, hbr₁, h⟩ := Except.bind_eq_ok.mp h
  exact ⟨s, tail, code₀, code₁, x, t, br₀, br₁, hs, typeID_eq hid, h₀, h₁, hx, keeps_element ht, hbr₀,
    hbr₁, h⟩

theorem typeIF_LEFT_cases (h : typeIF_LEFT run i stack = .ok r) :
    ∃ s tail code₀ code₁ x y t u br₀ br₁, stack = s :: tail ∧ s.typeID = some "or" ∧
      i.arg 0 = .ok code₀ ∧ i.arg 1 = .ok code₁ ∧ argOf s 0 = .ok x ∧ argOf s 1 = .ok y ∧
      Keeps x t ∧ Keeps y u ∧ run code₀ (t :: tail) = .ok br₀ ∧ run code₁ (u :: tail) = .ok br₁ ∧
      branchType i stack br₀ br₁ = .ok r := by
  obtain ⟨_, -, h⟩ := Except.bind_eq_ok.mp h
  obtain ⟨s, tail, hs, hid, h⟩ := args1_eq_ok h
  obtain ⟨va, -, h⟩ := Except.bind_eq_ok.mp h
  obtain ⟨x, hx, h⟩ := Except.bind_eq_ok.mp h
  obtain ⟨lefta, -, h⟩ := Except.bind_eq_ok.mp h
  obtain ⟨y, hy, h⟩ := Except.bind_eq_ok.mp h
  obtain ⟨righta, -, h⟩ := Except.bind_eq_ok.mp h
  rw [hx, Except.ok_bind] at h
  obtain ⟨t, ht, h⟩ := Except.bind_eq_ok.mp h
  obtain ⟨code₀, h₀, h⟩ := Except.bind_eq_ok.mp h
  obtain ⟨br₀, hbr₀, h⟩ := Except.bind_eq_ok.mp h
  rw [hy, Except.ok_bind] at h
  obtain ⟨u, hu, h⟩ := Except.bind_eq_ok.mp h
  obtain ⟨code₁, h₁, h⟩ := Except.bind_eq_ok.mp h
  obtain ⟨br₁, hbr₁, h⟩ := Except.bind_eq_ok.mp h
  exact ⟨s, tail, code₀, code₁, x, y, t, u, br₀, br₁, hs, typeID_eq hid, h₀, h₁, hx, hy,
    keeps_element ht, keeps_element hu, hbr₀, hbr₁, h⟩

theorem typeIF_CONS_cases (h : typeIF_CONS run i stack = .ok r) :
    ∃ s tail code₀ code₁ x t u br₀ br₁, stack = s :: tail ∧ s.typeID = some "list" ∧
      i.arg 0 = .ok code₀ ∧ i.arg 1 = .ok code₁ ∧ argOf s 0 = .ok x ∧ Keeps x t ∧ Keeps s u ∧
      run code₀ (t :: u :: tail) = .ok br₀ ∧ run code₁ tail = .ok br₁ ∧
      branchType i stack br₀ br₁ = .ok r := by
  obtain ⟨_, -, h⟩ := Except.bind_eq_ok.mp h
  obtain ⟨s, tail, hs, hid, h⟩ := args1_eq_ok h
  obtain ⟨va, -, h⟩ := Except.bind_eq_ok.mp h
  obtain ⟨x, hx, h⟩ := Except.bind_eq_ok.mp h
  obtain ⟨t, ht, h⟩ := Except.bind_eq_ok.mp h
  obtain ⟨u, hu, h⟩ := Except.bind_eq_ok.mp h
  obtain ⟨code₀, h₀, h⟩ := Except.bind_eq_ok.mp h
  obtain ⟨br₀, hbr₀, h⟩ := Except.bind_eq_ok.mp h
  obtain ⟨code₁, h₁, h⟩ := Except.bind_eq_ok.mp h
  obtain ⟨br₁, hbr₁, h⟩ := Except.bind_eq_ok.mp h
  exact ⟨s, tail, code₀, code₁, x, t, u, br₀, br₁, hs, typeID_eq hid, h₀, h₁, hx, keeps_element ht,
    keeps_element hu, hbr₀, hbr₁, h⟩

theorem typeIF_cases (h : typeIF run i stack = .ok r) :
    ∃ s tail code₀ code₁ br₀ br₁, stack = s :: tail ∧ s.typeID = some "bool" ∧
      i.arg 0 = .ok code₀ ∧ i.arg 1 = .ok code₁ ∧ run code₀ tail = .ok br₀ ∧
      run code₁ tail = .ok br₁ ∧ branchType i stack br₀ br₁ = .ok r := by
  obtain ⟨_, -, h⟩ := Except.bind_eq_ok.mp h
  obtain ⟨s, tail, hs, hid, h⟩ := args1_eq_ok h
  obtain ⟨code₀, h₀, h⟩ := Except.bind_eq_ok.mp h
  obtain ⟨br₀, hbr₀, h⟩ := Except.bind_eq_ok.mp h
  obtain ⟨code₁, h₁, h⟩ := Except.bind_eq_ok.mp h
  obtain ⟨br₁, hbr₁, h⟩ := Except.bind_eq_ok.mp h
  exact ⟨s, tail, code₀, code₁, br₀, br₁, hs, typeID_eq hid, h₀, h₁, hbr₀, hbr₁, h⟩

/-- A result is that of a branch that does not fail, if there is one; two stacks are equal. -/
theorem branchType_cases {br₀ br₁ : ReturnType} (h : branchType i stack br₀ br₁ = .ok r) :
    (r = br₁ ∧ ∃ type level, br₀ = .failed type level) ∨
      (r = br₀ ∧ ∃ type level, br₁ = .failed type level) ∨
        ∃ a b, br₀ = .stack a ∧ br₁ = .stack b ∧ r = .stack a ∧ assertStacksEqual a b = .ok () := by
  cases br₀ with
  | failed type level =>
    cases h
    exact .inl ⟨rfl, type, level, rfl⟩
  | stack a =>
    cases br₁ with
    | failed type level =>
      cases h
      exact .inr (.inl ⟨rfl, type, level, rfl⟩)
    | stack b =>
      obtain ⟨_, heq, h⟩ := Except.bind_eq_ok.mp h
      cases h
      exact .inr (.inr ⟨a, b, rfl, rfl, rfl, rethrow_eq_ok heq⟩)

/-- A loop that returns: its body leaves the expected stack. -/
theorem loopType_cases {body : ReturnType} {expected types : List StackType}
    {after : Checked (List StackType)} (h : loopType i stack body expected after = .ok (.stack types)) :
    ∃ out, body = .stack out ∧ assertStacksEqual out expected = .ok () ∧ after = .ok types := by
  cases body with
  | failed type level => cases h
  | stack out =>
    obtain ⟨_, heq, h⟩ := Except.bind_eq_ok.mp h
    obtain ⟨types', hafter, h⟩ := Except.bind_eq_ok.mp h
    cases h
    exact ⟨out, rfl, rethrow_eq_ok heq, hafter⟩

theorem typeLOOP_cases {types : List StackType} (h : typeLOOP run i stack = .ok (.stack types)) :
    ∃ s code out, stack = s :: types ∧ s.typeID = some "bool" ∧ i.arg 0 = .ok code ∧
      run code types = .ok (.stack out) ∧
      assertStacksEqual out (leaf "bool" :: types) = .ok () := by
  obtain ⟨_, -, h⟩ := Except.bind_eq_ok.mp h
  obtain ⟨s, tail, hs, hid, h⟩ := args1_eq_ok h
  obtain ⟨code, hcode, h⟩ := Except.bind_eq_ok.mp h
  obtain ⟨body, hbody, h⟩ := Except.bind_eq_ok.mp h
  obtain ⟨out, rfl, heq, hafter⟩ := loopType_cases h
  cases hafter
  exact ⟨s, code, out, hs, typeID_eq hid, hcode, hbody, heq⟩

theorem typeLOOP_LEFT_cases {types : List StackType}
    (h : typeLOOP_LEFT run i stack = .ok (.stack types)) :
    ∃ s tail code x y t u out, stack = s :: tail ∧ s.typeID = some "or" ∧ i.arg 0 = .ok code ∧
      argOf s 0 = .ok x ∧ argOf s 1 = .ok y ∧ Keeps x t ∧ Keeps y u ∧
      run code (t :: tail) = .ok (.stack out) ∧ assertStacksEqual out (s :: tail) = .ok () ∧
      types = u :: tail := by
  obtain ⟨_, -, h⟩ := Except.bind_eq_ok.mp h
  obtain ⟨s, tail, hs, hid, h⟩ := args1_eq_ok h
  obtain ⟨x, hx, h⟩ := Except.bind_eq_ok.mp h
  obtain ⟨va, -, h⟩ := Except.bind_eq_ok.mp h
  obtain ⟨t, ht, h⟩ := Except.bind_eq_ok.mp h
  obtain ⟨code, hcode, h⟩ := Except.bind_eq_ok.mp h
  obtain ⟨body, hbody, h⟩ := Except.bind_eq_ok.mp h
  obtain ⟨out, rfl, heq, hafter⟩ := loopType_cases h
  obtain ⟨ia, -, hafter⟩ := Except.bind_eq_ok.mp hafter
  obtain ⟨y, hy, hafter⟩ := Except.bind_eq_ok.mp hafter
  obtain ⟨u, hu, hafter⟩ := Except.bind_eq_ok.mp hafter
  cases hafter
  exact ⟨s, tail, code, x, y, t, u, out, hs, typeID_eq hid, hcode, hx, hy, keeps_element ht,
    fun T hT => hT.annotate hu, hbody, heq, rfl⟩

theorem typeITER_cases {types : List StackType} (h : typeITER run i stack = .ok (.stack types)) :
    ∃ s code x t out, stack = s :: types ∧
      (s.typeID = some "set" ∨ s.typeID = some "list" ∨ s.typeID = some "map") ∧
      i.arg 0 = .ok code ∧ elementType s = .ok x ∧ Keeps x t ∧
      run code (t :: types) = .ok (.stack out) ∧ assertStacksEqual out types = .ok () := by
  obtain ⟨_, -, h⟩ := Except.bind_eq_ok.mp h
  obtain ⟨s, tail, hs, hid, h⟩ := args1_eq_ok h
  obtain ⟨x, hx, h⟩ := Except.bind_eq_ok.mp h
  obtain ⟨va, -, h⟩ := Except.bind_eq_ok.mp h
  obtain ⟨t, ht, h⟩ := Except.bind_eq_ok.mp h
  obtain ⟨code, hcode, h⟩ := Except.bind_eq_ok.mp h
  obtain ⟨body, hbody, h⟩ := Except.bind_eq_ok.mp h
  obtain ⟨out, rfl, heq, hafter⟩ := loopType_cases h
  cases hafter
  obtain ⟨p, hp, hname⟩ := typeID_mem hid (List.cons_ne_nil _ _)
  refine ⟨s, code, x, t, out, hs, ?_, hcode, hx, keeps_element ht, hbody, heq⟩
  simp only [List.mem_cons, List.not_mem_nil, or_false] at hp
  obtain rfl | rfl | rfl := hp
  · exact .inl hname
  · exact .inr (.inl hname)
  · exact .inr (.inr hname)

theorem le_length_of_assertDepth {n : ℕ} (h : assertDepth i stack n = .ok ()) :
    n ≤ stack.length := by
  unfold assertDepth at h
  split at h
  · cases h
  · exact Nat.le_of_not_lt ‹_›

theorem typeDIP_cases (h : typeDIP run i stack = .ok r) :
    ∃ n k code out, n ≤ stack.length ∧ i.arg k = .ok code ∧
      (if (i.args.getD []).length = 2 then (∃ e, i.arg 0 = .ok e ∧ natOf e = .ok n) ∧ k = 1
        else n = 1 ∧ k = 0) ∧
      run code (stack.drop n) = .ok out ∧
      ((∃ type level, out = .failed type level ∧ r = .failed type (level + 1)) ∨
        ∃ body, out = .stack body ∧ r = .stack (stack.take n ++ body)) := by
  obtain ⟨_, -, h⟩ := Except.bind_eq_ok.mp h
  dsimp only at h
  cases hargs : i.args with
  | none =>
    rw [hargs] at h
    cases h
  | some args =>
    rw [hargs] at h
    dsimp only at h
    rw [Except.ok_bind] at h
    rw [Option.getD_some]
    split at h
    on_goal 1 => obtain ⟨e, he, h⟩ := Except.bind_eq_ok.mp h
    all_goals
      obtain ⟨n, hn, h⟩ := Except.bind_eq_ok.mp h
      obtain ⟨_, hdepth, h⟩ := Except.bind_eq_ok.mp h
      obtain ⟨code, hcode, h⟩ := Except.bind_eq_ok.mp h
      obtain ⟨out, hout, h⟩ := Except.bind_eq_ok.mp h
      have hlen := le_length_of_assertDepth hdepth
      have hr : (∃ type level, out = .failed type level ∧ r = .failed type (level + 1)) ∨
          ∃ body, out = .stack body ∧ r = .stack (stack.take n ++ body) := by
        cases out with
        | failed type level =>
          cases h
          exact .inl ⟨type, level, rfl, rfl⟩
        | stack body =>
          cases h
          exact .inr ⟨body, rfl, rfl⟩
    · refine ⟨n, 1, code, out, hlen, hcode, ?_, hout, hr⟩
      rw [if_pos ‹args.length = 2›]
      exact ⟨⟨e, he, hn⟩, rfl⟩
    · cases hn
      refine ⟨1, 0, code, out, hlen, hcode, ?_, hout, hr⟩
      rw [if_neg ‹¬args.length = 2›]
      exact ⟨rfl, rfl⟩

/-- The result of `MAP` is made of the types that its body leaves on top. -/
theorem typeMAP_cases {types : List StackType} (h : typeMAP run i stack = .ok (.stack types)) :
    ∃ s tail code x t body rest out, stack = s :: tail ∧ i.arg 0 = .ok code ∧
      elementType s = .ok x ∧ Keeps x t ∧ run code (t :: tail) = .ok (.stack (body :: rest)) ∧
      assertStacksEqual rest tail = .ok () ∧ types = out :: tail ∧
      ((s.typeID = some "list" ∧ Keeps (ofPrim "list" [body]) out) ∨
        (s.typeID = some "option" ∧ Keeps (ofPrim "option" [body]) out) ∨
          ∃ key, s.typeID = some "map" ∧ argOf s 0 = .ok key ∧
            Keeps (ofPrim "map" [key, body]) out) := by
  obtain ⟨s, tail, hs, hid, h⟩ := args1_eq_ok h
  obtain ⟨x, hx, h⟩ := Except.bind_eq_ok.mp h
  obtain ⟨va, -, h⟩ := Except.bind_eq_ok.mp h
  obtain ⟨t, ht, h⟩ := Except.bind_eq_ok.mp h
  obtain ⟨code, hcode, h⟩ := Except.bind_eq_ok.mp h
  obtain ⟨out, hout, h⟩ := Except.bind_eq_ok.mp h
  cases out with
  | failed type level =>
    dsimp only at h
    split at h <;> cases h
  | stack left =>
    cases left with
    | nil => cases h
    | cons body rest =>
      obtain ⟨_, heq, h⟩ := Except.bind_eq_ok.mp h
      have hpart {result : StackType} (h : push (annotateVar i stack result none) tail =
          .ok (.stack types)) : ∃ out, types = out :: tail ∧ Keeps result out := by
        obtain ⟨out, hann, h⟩ := push_eq_ok h
        cases h
        exact ⟨out, rfl, fun T hT => hT.annotateVar hann⟩
      obtain ⟨id, hmem, hname⟩ := typeID_mem hid (List.cons_ne_nil _ _)
      have hpair : s.isPairType = false := by
        by_contra hp
        rw [typeID_of_isPairType.mp (Bool.eq_true_of_not_eq_false hp)] at hname
        cases hname
        simp at hmem
      rw [← typeID_of_not_pair hpair] at h
      split at h
      · obtain ⟨out, rfl, hkeeps⟩ := hpart h
        exact ⟨s, tail, code, x, t, body, rest, out, hs, hcode, hx, keeps_element ht, hout,
          rethrow_eq_ok heq, rfl, .inl ⟨‹_›, hkeeps⟩⟩
      · split at h
        · obtain ⟨out, hann, h⟩ := push_eq_ok h
          obtain ⟨key, hkey, hann⟩ := Except.bind_eq_ok.mp hann
          cases h
          exact ⟨s, tail, code, x, t, body, rest, out, hs, hcode, hx, keeps_element ht, hout,
            rethrow_eq_ok heq, rfl, .inr (.inr ⟨key, ‹_›, hkey, fun T hT => hT.annotateVar hann⟩)⟩
        · obtain ⟨out, rfl, hkeeps⟩ := hpart h
          refine ⟨s, tail, code, x, t, body, rest, out, hs, hcode, hx, keeps_element ht, hout,
            rethrow_eq_ok heq, rfl, .inr (.inl ⟨?_, hkeeps⟩)⟩
          simp only [List.mem_cons, List.not_mem_nil, or_false] at hmem
          obtain rfl | rfl | rfl := hmem
          · contradiction
          · contradiction
          · exact hname

theorem typePUSH_cases {valid : Expr → Expr → Checked Unit} (h : typePUSH valid i stack = .ok r) :
    ∃ t d out, i.arg 0 = .ok t ∧ i.arg 1 = .ok d ∧ valid d t = .ok () ∧ Keeps (ofExpr t) out ∧
      r = .stack (out :: stack) := by
  obtain ⟨t, ht, h⟩ := Except.bind_eq_ok.mp h
  obtain ⟨_, -, h⟩ := Except.bind_eq_ok.mp h
  obtain ⟨d, hd, h⟩ := Except.bind_eq_ok.mp h
  obtain ⟨_, hvalid, h⟩ := Except.bind_eq_ok.mp h
  obtain ⟨out, hann, rfl⟩ := push_eq_ok h
  exact ⟨t, d, out, ht, hd, hvalid, fun T hT => hT.annotateVar hann, rfl⟩

theorem typeLAMBDA_cases {types : List StackType} (hname : i.prim = "LAMBDA")
    (h : typeLAMBDA run i stack = .ok (.stack types)) :
    ∃ a b code body out, i.typeArg 0 = .ok a ∧ i.typeArg 1 = .ok b ∧ i.arg 2 = .ok code ∧
      run code [a] = .ok (.stack [body]) ∧ (∀ T, Means b T ↔ Means body T) ∧
      Keeps (ofPrim "lambda" [a, b]) out ∧ types = out :: stack := by
  obtain ⟨a, ha, h⟩ := Except.bind_eq_ok.mp h
  obtain ⟨_, -, h⟩ := Except.bind_eq_ok.mp h
  obtain ⟨b, hb, h⟩ := Except.bind_eq_ok.mp h
  obtain ⟨_, -, h⟩ := Except.bind_eq_ok.mp h
  obtain ⟨code, hcode, h⟩ := Except.bind_eq_ok.mp h
  obtain ⟨res, hres, h⟩ := Except.bind_eq_ok.mp h
  rw [if_neg (by rw [hname]; decide)] at hres
  split at h
  · cases h
  · obtain ⟨_, heq, h⟩ := Except.bind_eq_ok.mp h
    obtain ⟨out, hann, h⟩ := push_eq_ok h
    cases h
    exact ⟨a, b, code, _, out, ha, hb, hcode, hres, means_of_ensureTypesEqual heq,
      fun T hT => hT.annotateVar hann, rfl⟩
  · cases h

theorem typeEXEC_cases (h : typeEXEC i stack = .ok r) :
    ∃ a f tail x y t, stack = a :: f :: tail ∧ f.typeID = some "lambda" ∧ argOf f 0 = .ok x ∧
      argOf f 1 = .ok y ∧ (∀ T, Means a T ↔ Means x T) ∧ Keeps y t ∧ r = .stack (t :: tail) := by
  obtain ⟨a, f, tail, hs, -, hid, h⟩ := args2_eq_ok h
  obtain ⟨x, hx, h⟩ := Except.bind_eq_ok.mp h
  obtain ⟨_, heq, h⟩ := Except.bind_eq_ok.mp h
  obtain ⟨t, ht, rfl⟩ := push_eq_ok h
  obtain ⟨y, hy, hann⟩ := Except.bind_eq_ok.mp ht
  exact ⟨a, f, tail, x, y, t, hs, typeID_eq hid, hx, hy, means_of_ensureTypesEqual heq,
    fun T hT => hT.annotateVar hann, rfl⟩

theorem typeFAILWITH_cases {ctx : Context} (h : typeFAILWITH i stack ctx = .ok r) :
    ∃ t level, r = .failed t level := by
  obtain ⟨s, tail, -, -, h⟩ := args1_eq_ok h
  dsimp only at h
  split at h
  · obtain ⟨_, -, h⟩ := Except.bind_eq_ok.mp h
    cases h
    exact ⟨s, 0, rfl⟩
  · cases h
    exact ⟨s, 0, rfl⟩

end

end Typechecker
