import Taquito.Typechecker.Controls
import Taquito.Typechecker.SoundOperations

/-!
# The instructions with code do what the checker says

Each lemma is about one instruction and about any evaluation of its bodies that does what the checker
says of them (`Follows`). The lemma of a loop has one more hypothesis, about the loop itself on the
stack that its body leaves.
-/

open Js MichelCodec Michelson

namespace Typechecker

open StackType

section

variable {isLiteral : String → Expr → Prop} {typed : Expr → Ty → Ty → Prop} {E : Halt → Prop}

/-! ## Equal stacks and branches -/

theorem fitsStack_of_eachEqual {a b : List StackType} (hlen : a.length = b.length)
    (h : eachEqual a b = .ok ()) {vs : List Value} :
    FitsStack isLiteral typed vs a ↔ FitsStack isLiteral typed vs b := by
  induction a generalizing b vs with
  | nil => rw [List.eq_nil_of_length_eq_zero hlen.symm]
  | cons x a ih =>
    cases b with
    | nil => cases hlen
    | cons y b =>
      obtain ⟨_, hxy, h⟩ := Except.bind_eq_ok.mp h
      have hmeans := means_of_scalarTypesEqual hxy
      have htail (vs : List Value) := @ih b (Nat.succ.inj hlen) h vs
      rw [FitsStack.cons_iff, FitsStack.cons_iff]
      constructor
      · rintro ⟨v, vs', hv, hvs', rfl⟩
        exact ⟨v, vs', hv.of_means fun T => (hmeans T).mp, (htail vs').mp hvs', rfl⟩
      · rintro ⟨v, vs', hv, hvs', rfl⟩
        exact ⟨v, vs', hv.of_means fun T => (hmeans T).mpr, (htail vs').mpr hvs', rfl⟩

theorem fitsStack_of_stacksEqual {a b : List StackType} (h : assertStacksEqual a b = .ok ())
    {vs : List Value} :
    FitsStack isLiteral typed vs a ↔ FitsStack isLiteral typed vs b := by
  unfold assertStacksEqual at h
  split at h
  · cases h
  · exact fitsStack_of_eachEqual (not_not.mp ‹_›) h

/-- Code that is said to fail does what is said of any code. -/
theorem Sound.of_failed {t : StackType} {level : ℕ} {x : Run (List Value)}
    (h : Sound isLiteral typed E (.failed t level) x) (r : ReturnType) :
    Sound isLiteral typed E r x := h.mono fun _ hfalse => hfalse.elim

theorem Sound.branch {i : Instruction} {stack : List StackType} {br₀ br₁ r : ReturnType}
    (h : branchType i stack br₀ br₁ = .ok r) {x : Run (List Value)}
    (hx : Sound isLiteral typed E br₀ x ∨ Sound isLiteral typed E br₁ x) :
    Sound isLiteral typed E r x := by
  obtain ⟨rfl, t, level, rfl⟩ | ⟨rfl, t, level, rfl⟩ | ⟨a, b, rfl, rfl, rfl, heq⟩ := branchType_cases h
  · exact hx.elim (fun h => h.of_failed r) id
  · exact hx.elim id fun h => h.of_failed r
  · exact hx.elim id fun h => h.mono fun vs hvs => (fitsStack_of_stacksEqual heq).mpr hvs

/-! ## The elements of a collection -/

theorem means_elementType {s x : StackType} {T : Ty} (hs : Means s T)
    (hname : s.typeID = some "set" ∨ s.typeID = some "list" ∨ s.typeID = some "map" ∨
      s.typeID = some "option")
    (hentries : ∀ args annots r, s = .prim "map" (some args) annots r → args.length = 2)
    (h : elementType s = .ok x) :
    ∃ A, Means x A ∧ (T = .unary .set A ∨ T = .unary .list A ∨ T = .unary .option A ∨
      ∃ K V, T = .binary .map K V ∧ A = .pair K V) := by
  have hunary {p : String} {u : Unary} (ht : s.typeID = some p) (hu : Unary.ofName p = some u)
      (hne : s.typeID ≠ some "map") : ∃ A, Means x A ∧ T = .unary u A := by
    obtain ⟨y, A, rfl, hy, hA⟩ := hs.unaryID ht hu
    have h : argOf s 0 = .ok x := by
      unfold elementType at h
      split at h
      · exact absurd rfl hne
      · exact h
    cases h.symm.trans hy
    exact ⟨A, hA, rfl⟩
  obtain ht | ht | ht | ht := hname
  · obtain ⟨A, hA, rfl⟩ := hunary ht (u := .set) rfl (by rw [ht]; decide)
    exact ⟨A, hA, .inl rfl⟩
  · obtain ⟨A, hA, rfl⟩ := hunary ht (u := .list) rfl (by rw [ht]; decide)
    exact ⟨A, hA, .inr (.inl rfl)⟩
  · obtain ⟨y, z, K, V, rfl, hy, hz, hK, hV⟩ := hs.binaryID ht (u := .map) rfl
    have hp := primOf_of_typeID ht (by decide)
    cases s with
    | prim p args annots refContract =>
      cases hp
      cases args with
      | none => cases hy
      | some args =>
        obtain ⟨y', z', rfl⟩ := List.length_eq_two.mp (hentries args annots refContract rfl)
        cases hy
        cases hz
        cases h
        exact ⟨.pair K V, Means.ofPair hK hV, .inr (.inr (.inr ⟨K, V, rfl, rfl⟩))⟩
    | _ => cases hp
  · obtain ⟨A, hA, rfl⟩ := hunary ht (u := .option) rfl (by rw [ht]; decide)
    exact ⟨A, hA, .inr (.inr (.inl rfl))⟩

/-- The elements of a collection have the type that the body of a loop finds. -/
theorem elements_hasType {v : Value} {T A : Ty} (hv : HasType isLiteral typed v T)
    (hT : T = .unary .set A ∨ T = .unary .list A ∨ ∃ K V, T = .binary .map K V ∧ A = .pair K V) :
    ∃ items, elements v = some items ∧ ∀ a ∈ items, HasType isLiteral typed a A := by
  obtain rfl | rfl | ⟨K, V, rfl, rfl⟩ := hT
  · cases hv with
    | set h => exact ⟨_, rfl, h⟩
    | handle hu => cases hu <;> contradiction
  · cases hv with
    | list h => exact ⟨_, rfl, h⟩
    | handle hu => cases hu <;> contradiction
  · cases hv with
    | map _ hk hv =>
      refine ⟨_, rfl, fun a ha => ?_⟩
      obtain ⟨e, he, rfl⟩ := List.mem_map.mp ha
      exact .pair (hk e he) (hv e he)

/-! ## Branches -/

/-- An evaluation of code does what the checker says. -/
def Follows (isLiteral : String → Expr → Prop) (typed : Expr → Ty → Ty → Prop) (E : Halt → Prop)
    (run : Expr → List StackType → Checked ReturnType) (exec : Expr → List Value → Run (List Value)) :
    Prop :=
  ∀ code types r vs, run code types = .ok r → FitsStack isLiteral typed vs types →
    Sound isLiteral typed E r (exec code vs)

variable {run : Expr → List StackType → Checked ReturnType}
  {exec : Expr → List Value → Run (List Value)} {i : Instruction} {stack : List StackType}
  {vs : List Value} {r : ReturnType} (hrun : Follows isLiteral typed E run exec)
  (hvs : FitsStack isLiteral typed vs stack)

theorem Follows.sound (hrun : Follows isLiteral typed E run exec) {code : Expr}
    {types : List StackType} {vs : List Value} (h : run code types = .ok r)
    (hvs : FitsStack isLiteral typed vs types) : Sound isLiteral typed E r (exec code vs) :=
  hrun code types r vs h hvs

include hrun hvs

theorem IF_NONE_sound (h : typeIF_NONE run i stack = .ok r) :
    Sound isLiteral typed E r (stepIF_NONE exec i.args vs) := by
  obtain ⟨s, tail, code₀, code₁, x, t, br₀, br₁, rfl, hs, h₀, h₁, hx, hkeep, hbr₀, hbr₁, h⟩ :=
    typeIF_NONE_cases h
  obtain ⟨v, vs', hv, hvs', rfl⟩ := FitsStack.cons_iff.mp hvs
  obtain ⟨x', A, hx', hA, rfl | ⟨a, rfl, ha⟩⟩ := hv.option hs
  · rw [stepIF_NONE, argument_of_arg h₀, Except.ok_bind]
    exact Sound.branch h (.inl (hrun.sound hbr₀ hvs'))
  · cases hx.symm.trans hx'
    rw [stepIF_NONE, argument_of_arg h₁, Except.ok_bind]
    exact Sound.branch h (.inr (hrun.sound hbr₁ (.cons ⟨A, hkeep A hA, ha⟩ hvs')))

theorem IF_LEFT_sound (h : typeIF_LEFT run i stack = .ok r) :
    Sound isLiteral typed E r (stepIF_LEFT exec i.args vs) := by
  obtain ⟨s, tail, code₀, code₁, x, y, t, u, br₀, br₁, rfl, hs, h₀, h₁, hx, hy, hkeep, hkeep', hbr₀,
    hbr₁, h⟩ := typeIF_LEFT_cases h
  obtain ⟨v, vs', hv, hvs', rfl⟩ := FitsStack.cons_iff.mp hvs
  obtain ⟨x', y', hx', hy', ⟨a, rfl, ha⟩ | ⟨b, rfl, hb⟩⟩ := hv.or hs
  · cases hx.symm.trans hx'
    rw [stepIF_LEFT, argument_of_arg h₀, Except.ok_bind]
    exact Sound.branch h (.inl (hrun.sound hbr₀ (.cons (ha.of_means hkeep) hvs')))
  · cases hy.symm.trans hy'
    rw [stepIF_LEFT, argument_of_arg h₁, Except.ok_bind]
    exact Sound.branch h (.inr (hrun.sound hbr₁ (.cons (hb.of_means hkeep') hvs')))

theorem IF_CONS_sound (h : typeIF_CONS run i stack = .ok r) :
    Sound isLiteral typed E r (stepIF_CONS exec i.args vs) := by
  obtain ⟨s, tail, code₀, code₁, x, t, u, br₀, br₁, rfl, hs, h₀, h₁, hx, hkeep, hkeep', hbr₀, hbr₁,
    h⟩ := typeIF_CONS_cases h
  obtain ⟨v, vs', ⟨T, hT, hv⟩, hvs', rfl⟩ := FitsStack.cons_iff.mp hvs
  obtain ⟨x', A, rfl, hx', hA⟩ := hT.unaryID hs (u := .list) rfl
  cases hx.symm.trans hx'
  cases hv with
  | handle hu => cases hu <;> contradiction
  | @list items _ hitems =>
    cases items with
    | nil =>
      rw [stepIF_CONS, argument_of_arg h₁, Except.ok_bind]
      exact Sound.branch h (.inr (hrun.sound hbr₁ hvs'))
    | cons a items =>
      obtain ⟨ha, hitems⟩ := List.forall_mem_cons.mp hitems
      rw [stepIF_CONS, argument_of_arg h₀, Except.ok_bind]
      exact Sound.branch h (.inl (hrun.sound hbr₀
        (.cons ⟨A, hkeep A hA, ha⟩ (.cons ⟨_, hkeep' _ hT, .list hitems⟩ hvs'))))

theorem IF_sound (h : typeIF run i stack = .ok r) :
    Sound isLiteral typed E r (stepIF exec i.args vs) := by
  obtain ⟨s, tail, code₀, code₁, br₀, br₁, rfl, hs, h₀, h₁, hbr₀, hbr₁, h⟩ := typeIF_cases h
  obtain ⟨v, vs', hv, hvs', rfl⟩ := FitsStack.cons_iff.mp hvs
  obtain ⟨b, rfl⟩ := hv.bool hs
  rw [stepIF]
  cases b with
  | true =>
    rw [if_pos rfl, argument_of_arg h₀, Except.ok_bind]
    exact Sound.branch h (.inl (hrun.sound hbr₀ hvs'))
  | false =>
    rw [if_neg Bool.false_ne_true, argument_of_arg h₁, Except.ok_bind]
    exact Sound.branch h (.inr (hrun.sound hbr₁ hvs'))

theorem DIP_sound (h : typeDIP run i stack = .ok r) :
    Sound isLiteral typed E r (stepDIP exec i.args vs) := by
  obtain ⟨n, k, code, out, hlen, hcode, hn, hout, hr⟩ := typeDIP_cases h
  have hstep : stepDIP exec i.args vs = do return vs.take n ++ (← exec code (vs.drop n)) := by
    have hlong : ¬ vs.length < n := by
      rw [hvs.length]
      exact Nat.not_lt_of_le hlen
    unfold stepDIP
    dsimp only
    split at hn
    · obtain ⟨⟨e, he, hn⟩, rfl⟩ := hn
      rw [if_pos ‹_›, argument_of_arg he, Except.ok_bind, numeral_of_natOf hn, orStuck,
        Except.ok_bind, if_neg hlong, if_pos ‹_›, argument_of_arg hcode, Except.ok_bind]
    · obtain ⟨rfl, rfl⟩ := hn
      rw [if_neg ‹_›, Except.ok_bind, if_neg hlong, if_neg ‹_›, argument_of_arg hcode,
        Except.ok_bind]
  rw [hstep]
  obtain ⟨t, level, rfl, rfl⟩ | ⟨body, rfl, rfl⟩ := hr
  · exact Ends.bind (hrun.sound hout (hvs.drop n)) fun _ hfalse => hfalse.elim
  · exact Ends.bind (hrun.sound hout (hvs.drop n)) fun vs' hvs' => (hvs.take n).append hvs'

/-! ## Loops -/

theorem LOOP_sound {types : List StackType}
    (hagain : ∀ vs, FitsStack isLiteral typed vs stack →
      Sound isLiteral typed E (.stack types) (again exec "LOOP" i.args vs))
    (h : typeLOOP run i stack = .ok (.stack types)) :
    Sound isLiteral typed E (.stack types) (stepLOOP exec i.args vs) := by
  obtain ⟨s, code, out, rfl, hs, hcode, hbody, heq⟩ := typeLOOP_cases h
  obtain ⟨v, vs', hv, hvs', rfl⟩ := FitsStack.cons_iff.mp hvs
  obtain ⟨b, rfl⟩ := hv.bool hs
  cases b with
  | false => exact hvs'
  | true =>
    rw [stepLOOP, argument_of_arg hcode, Except.ok_bind]
    refine Ends.bind (hrun.sound hbody hvs') fun left hleft => hagain left ?_
    obtain ⟨T, hT, -⟩ := hv
    obtain rfl := hT.atomID hs (by decide)
    obtain ⟨w, ws, ⟨U, hU, hw⟩, hws, rfl⟩ :=
      FitsStack.cons_iff.mp ((fitsStack_of_stacksEqual heq).mp hleft)
    cases Means.unique hU (Means.ofLeaf (by decide))
    exact .cons ⟨_, hT, hw⟩ hws

theorem LOOP_LEFT_sound {types : List StackType}
    (hagain : ∀ vs, FitsStack isLiteral typed vs stack →
      Sound isLiteral typed E (.stack types) (again exec "LOOP_LEFT" i.args vs))
    (h : typeLOOP_LEFT run i stack = .ok (.stack types)) :
    Sound isLiteral typed E (.stack types) (stepLOOP_LEFT exec i.args vs) := by
  obtain ⟨s, tail, code, x, y, t, u, out, rfl, hs, hcode, hx, hy, hkeep, hkeep', hbody, heq, rfl⟩ :=
    typeLOOP_LEFT_cases h
  obtain ⟨v, vs', hv, hvs', rfl⟩ := FitsStack.cons_iff.mp hvs
  obtain ⟨x', y', hx', hy', ⟨a, rfl, ha⟩ | ⟨b, rfl, hb⟩⟩ := hv.or hs
  · cases hx.symm.trans hx'
    rw [stepLOOP_LEFT, argument_of_arg hcode, Except.ok_bind]
    refine Ends.bind (hrun.sound hbody (.cons (ha.of_means hkeep) hvs')) fun left hleft => ?_
    exact hagain left ((fitsStack_of_stacksEqual heq).mp hleft)
  · cases hy.symm.trans hy'
    exact .cons (hb.of_means hkeep') hvs'

theorem ITER_sound {types : List StackType}
    (hentries : ∀ args annots r tail, stack = .prim "map" (some args) annots r :: tail →
      args.length = 2)
    (h : typeITER run i stack = .ok (.stack types)) :
    Sound isLiteral typed E (.stack types) (stepITER exec i.args vs) := by
  obtain ⟨s, code, x, t, out, rfl, hs, hcode, hx, hkeep, hbody, heq⟩ := typeITER_cases h
  obtain ⟨v, vs', ⟨T, hT, hv⟩, hvs', rfl⟩ := FitsStack.cons_iff.mp hvs
  have hname : s.typeID = some "set" ∨ s.typeID = some "list" ∨ s.typeID = some "map" ∨
      s.typeID = some "option" := hs.imp_right fun h => h.imp_right .inl
  have hone (args annots r) (hprim : s = .prim "map" (some args) annots r) : args.length = 2 :=
    hentries args annots r types (by rw [hprim])
  obtain ⟨A, hA, hT'⟩ := means_elementType hT hname hone hx
  have hitems : ∃ items, elements v = some items ∧ ∀ a ∈ items, HasType isLiteral typed a A := by
    refine elements_hasType hv ?_
    obtain hset | hlist | rfl | hmap := hT'
    · exact .inl hset
    · exact .inr (.inl hlist)
    · obtain hs | hs | hs := hs
      · obtain ⟨_, _, h, -⟩ := hT.unaryID hs (u := .set) rfl
        cases h
      · obtain ⟨_, _, h, -⟩ := hT.unaryID hs (u := .list) rfl
        cases h
      · obtain ⟨_, _, _, _, h, -⟩ := hT.binaryID hs (u := .map) rfl
        cases h
    · exact .inr (.inr hmap)
  obtain ⟨items, hel, hitems⟩ := hitems
  rw [stepITER, hel, orStuck, Except.ok_bind, argument_of_arg hcode, Except.ok_bind]
  refine Ends.foldlM (fun a ha left hleft => ?_) hvs'
  exact (hrun.sound hbody (.cons ⟨A, hkeep A hA, hitems a ha⟩ hleft)).mono fun left hleft =>
    (fitsStack_of_stacksEqual heq).mp hleft

omit hrun hvs in
/-- The body of `MAP` on every element in turn. -/
theorem mapElements_sound {body : Expr} {A B : Ty} {tail : List StackType}
    (hbody : ∀ a left, HasType isLiteral typed a A → FitsStack isLiteral typed left tail →
      Ends E (fun out => ∃ b left', out = b :: left' ∧ HasType isLiteral typed b B ∧
        FitsStack isLiteral typed left' tail) (exec body (a :: left)))
    {items : List Value} (hitems : ∀ a ∈ items, HasType isLiteral typed a A) {left : List Value}
    (hleft : FitsStack isLiteral typed left tail) :
    Ends E (fun out => out.1.length = items.length ∧ (∀ b ∈ out.1, HasType isLiteral typed b B) ∧
      FitsStack isLiteral typed out.2 tail) (mapElements exec body items left) := by
  induction items generalizing left with
  | nil => exact ⟨rfl, fun b hb => absurd hb List.not_mem_nil, hleft⟩
  | cons a items ih =>
    obtain ⟨ha, hitems⟩ := List.forall_mem_cons.mp hitems
    refine Ends.bind (hbody a left ha hleft) ?_
    rintro _ ⟨b, left', rfl, hb, hleft'⟩
    rw [popped, Except.ok_bind]
    refine Ends.bind (ih hitems hleft') ?_
    rintro ⟨bs, left''⟩ ⟨hlen, hbs, hleft''⟩
    exact ⟨congrArg (· + 1) hlen, List.forall_mem_cons.mpr ⟨hb, hbs⟩, hleft''⟩

theorem MAP_sound {types : List StackType}
    (hbodies : ∀ {code types r}, run code types = .ok r → (∀ t ∈ types, IsType t) → AreTypes r)
    (hentries : ∀ args annots r tail, stack = .prim "map" (some args) annots r :: tail →
      args.length = 2)
    (h : typeMAP run i stack = .ok (.stack types)) :
    Sound isLiteral typed E (.stack types) (stepMAP exec i.args vs) := by
  obtain ⟨s, tail, code, x, t, body, rest, out, rfl, hcode, hx, hkeep, hbody, heq, rfl, hout⟩ :=
    typeMAP_cases h
  obtain ⟨v, vs', ⟨T, hT, hv⟩, hvs', rfl⟩ := FitsStack.cons_iff.mp hvs
  have hname : s.typeID = some "set" ∨ s.typeID = some "list" ∨ s.typeID = some "map" ∨
      s.typeID = some "option" := by
    obtain ⟨hs, -⟩ | ⟨hs, -⟩ | ⟨_, hs, -⟩ := hout
    · exact .inr (.inl hs)
    · exact .inr (.inr (.inr hs))
    · exact .inr (.inr (.inl hs))
  have hone (args annots r) (hprim : s = .prim "map" (some args) annots r) : args.length = 2 :=
    hentries args annots r tail (by rw [hprim])
  obtain ⟨A, hA, hT'⟩ := means_elementType hT hname hone hx
  obtain ⟨B, hB⟩ := hbodies hbody (List.forall_mem_cons.mpr ⟨⟨A, hkeep A hA⟩, hvs'.isType⟩) _ rfl body
    List.mem_cons_self
  have hrunBody (a left) (ha : HasType isLiteral typed a A)
      (hleft : FitsStack isLiteral typed left tail) :
      Ends E (fun out => ∃ b left', out = b :: left' ∧ HasType isLiteral typed b B ∧
        FitsStack isLiteral typed left' tail) (exec code (a :: left)) := by
    refine (hrun.sound hbody (.cons ⟨A, hkeep A hA, ha⟩ hleft)).mono fun out hout => ?_
    obtain ⟨b, left', ⟨U, hU, hb⟩, hleft', rfl⟩ := FitsStack.cons_iff.mp hout
    cases Means.unique hU hB
    exact ⟨b, left', rfl, hb, (fitsStack_of_stacksEqual heq).mp hleft'⟩
  obtain ⟨hs, hkeep⟩ | ⟨hs, hkeep⟩ | ⟨key, hs, hkey, hkeep⟩ := hout
  · obtain ⟨y, C, rfl, hy, hC⟩ := hT.unaryID hs (u := .list) rfl
    have hCA : C = A := by simpa using hT'
    cases hCA
    cases hv with
    | handle hu => cases hu <;> contradiction
    | list hitems =>
      rw [stepMAP, argument_of_arg hcode, Except.ok_bind]
      refine Ends.bind (mapElements_sound hrunBody hitems hvs') fun res hres => ?_
      exact .cons ⟨_, hkeep _ (Means.ofUnary rfl hB), .list hres.2.1⟩ hres.2.2
  · obtain ⟨y, C, rfl, hy, hC⟩ := hT.unaryID hs (u := .option) rfl
    have hCA : C = A := by simpa using hT'
    cases hCA
    cases hv with
    | handle hu => cases hu <;> contradiction
    | nothing => exact .cons ⟨_, hkeep _ (Means.ofUnary rfl hB), .nothing⟩ hvs'
    | just ha =>
      rw [stepMAP, argument_of_arg hcode, Except.ok_bind]
      refine Ends.bind (hrunBody _ _ ha hvs') ?_
      rintro _ ⟨b, left', rfl, hb, hleft'⟩
      exact .cons ⟨_, hkeep _ (Means.ofUnary rfl hB), .just hb⟩ hleft'
  · obtain ⟨y, z, K, V, rfl, hy, hz, hK, hV⟩ := hT.binaryID hs (u := .map) rfl
    cases hkey.symm.trans hy
    have hAC : A = .pair K V := by
      obtain h | h | h | ⟨K', V', h, rfl⟩ := hT' <;> cases h
      rfl
    cases hAC
    cases hv with
    | map _ hkeys hvals =>
      rw [stepMAP, argument_of_arg hcode, Except.ok_bind]
      refine Ends.bind (mapElements_sound hrunBody ?_ hvs') fun res hres => ?_
      · intro a ha
        obtain ⟨e, he, rfl⟩ := List.mem_map.mp ha
        exact .pair (hkeys e he) (hvals e he)
      · refine .cons ⟨_, hkeep _ (Means.ofBinary rfl hK hB), .map (.inl rfl) ?_ ?_⟩ hres.2.2
        · intro e he
          obtain ⟨e', he', hkey'⟩ := List.mem_map.mp (List.of_mem_zip he).1
          exact hkey' ▸ hkeys e' he'
        · exact fun e he => hres.2.1 _ (List.of_mem_zip he).2

/-! ## Functions and data -/

omit hrun in
theorem PUSH_sound {valid : Expr → Expr → Checked Unit}
    (hvalid : ∀ d t, i.arg 1 = .ok d → i.arg 0 = .ok t → valid d t = .ok () →
      ∃ T v, tyOf t = some T ∧ readValue T d = some v ∧ HasType isLiteral typed v T)
    (h : typePUSH valid i stack = .ok r) : Sound isLiteral typed E r (stepPUSH i.args vs) := by
  obtain ⟨t, d, out, ht, hd, hdata, hkeep, rfl⟩ := typePUSH_cases h
  obtain ⟨T, v, hT, hread, hv⟩ := hvalid d t hd ht hdata
  rw [stepPUSH, argument_of_arg ht, Except.ok_bind, hT, orStuck, Except.ok_bind, argument_of_arg hd,
    Except.ok_bind, hread, orStuck, Except.ok_bind]
  exact .cons ⟨T, hkeep T (means_of_tyOf hT), hv⟩ hvs

omit hrun in
theorem LAMBDA_sound {types : List StackType} (hname : i.prim = "LAMBDA")
    (hargs : ∀ e, i.arg 0 = .ok e → ∃ T, tyOf e = some T)
    (hargs' : ∀ e, i.arg 1 = .ok e → ∃ T, tyOf e = some T)
    (htyped : ∀ {code a body A B}, run code [a] = .ok (.stack [body]) → Means a A → Means body B →
      typed code A B)
    (h : typeLAMBDA run i stack = .ok (.stack types)) :
    Sound isLiteral typed E (.stack types) (do return .lambda (← argument i.args 2) :: vs) := by
  obtain ⟨a, b, code, body, out, ha, hb, hcode, hbody, heq, hkeep, rfl⟩ := typeLAMBDA_cases hname h
  obtain ⟨A, hA⟩ := means_typeArg hargs ha
  obtain ⟨B, hB⟩ := means_typeArg hargs' hb
  rw [argument_of_arg hcode, Except.ok_bind]
  exact .cons ⟨_, hkeep _ (Means.ofBinary rfl hA hB), .lambda (htyped hbody hA ((heq B).mp hB))⟩ hvs

omit hrun hvs in
/-- A function on an argument of its type: its code has a type that its whole argument has. -/
theorem unapplied_hasType {f a : Value} {A B : Ty}
    (hf : HasType isLiteral typed f (.binary .lambda A B)) (ha : HasType isLiteral typed a A) :
    ∃ code x X, unapplied f a = some (code, x) ∧ typed code X B ∧ HasType isLiteral typed x X := by
  induction f, a using unapplied.induct generalizing A with
  | case1 code a =>
    cases hf with
    | lambda h => exact ⟨code, a, A, rfl, h, ha⟩
  | case2 f c a ih =>
    cases hf with
    | applied hf hc => exact ih hf (.pair hc ha)
  | case3 f a hlambda happlied =>
    cases hf with
    | lambda => exact absurd rfl (hlambda _)
    | applied => exact absurd rfl (happlied _ _)
    | map hu => cases hu <;> contradiction

omit hrun in
theorem EXEC_sound
    (htyped : ∀ {code x A B}, typed code A B → HasType isLiteral typed x A →
      Ends E (fun out => ∃ v, out = [v] ∧ HasType isLiteral typed v B) (exec code [x]))
    (h : typeEXEC i stack = .ok r) : Sound isLiteral typed E r (stepEXEC exec vs) := by
  obtain ⟨a, f, tail, x, y, t, rfl, hf, hx, hy, hmeans, hkeep, rfl⟩ := typeEXEC_cases h
  obtain ⟨va, vs', ⟨T, hT, hva⟩, hvs', rfl⟩ := FitsStack.cons_iff.mp hvs
  obtain ⟨vf, vs'', hvf, hvs'', rfl⟩ := FitsStack.cons_iff.mp hvs'
  obtain ⟨x', y', A, B, hx', hy', hA, hB, hvf⟩ := hvf.lambda hf
  cases hx.symm.trans hx'
  cases hy.symm.trans hy'
  cases Means.unique ((hmeans T).mp hT) hA
  obtain ⟨code, arg, X, hcall, hcode, harg⟩ := unapplied_hasType hvf hva
  rw [stepEXEC, hcall, orStuck, Except.ok_bind]
  refine Ends.bind (htyped hcode harg) ?_
  rintro _ ⟨v, rfl, hv⟩
  exact .cons ⟨B, hkeep B hB, hv⟩ hvs''

end

/-! ## The types that are left -/

section

variable {run : Expr → List StackType → Checked ReturnType} {i : Instruction}
  {stack : List StackType} {r : ReturnType}
  (hrun : ∀ {code types r}, run code types = .ok r → (∀ t ∈ types, IsType t) → AreTypes r)
  (hstack : ∀ t ∈ stack, IsType t)

theorem AreTypes.of_failed (t : StackType) (level : ℕ) : AreTypes (.failed t level) := by
  rintro types h
  cases h

theorem AreTypes.of_stack {types : List StackType} (h : ∀ t ∈ types, IsType t) :
    AreTypes (.stack types) := by
  rintro _ h'
  cases h'
  exact h

theorem IsType.of_keeps {t t' : StackType} (h : IsType t) (hkeep : Keeps t t') : IsType t' :=
  h.imp fun T hT => hkeep T hT

theorem areTypes_branch {br₀ br₁ : ReturnType} (h : branchType i stack br₀ br₁ = .ok r)
    (h₀ : AreTypes br₀) (h₁ : AreTypes br₁) : AreTypes r := by
  obtain ⟨rfl, -⟩ | ⟨rfl, -⟩ | ⟨a, b, rfl, rfl, rfl, -⟩ := branchType_cases h
  · exact h₁
  · exact h₀
  · exact h₀

include hrun hstack

theorem areTypes_IF_NONE (h : typeIF_NONE run i stack = .ok r) : AreTypes r := by
  obtain ⟨s, tail, code₀, code₁, x, t, br₀, br₁, rfl, hs, -, -, hx, hkeep, hbr₀, hbr₁, h⟩ :=
    typeIF_NONE_cases h
  obtain ⟨⟨T, hT⟩, htail⟩ := List.forall_mem_cons.mp hstack
  obtain ⟨y, A, -, hy, hA⟩ := hT.unaryID hs (u := .option) rfl
  cases hx.symm.trans hy
  exact areTypes_branch h (hrun hbr₀ htail)
    (hrun hbr₁ (List.forall_mem_cons.mpr ⟨⟨A, hkeep A hA⟩, htail⟩))

theorem areTypes_IF_LEFT (h : typeIF_LEFT run i stack = .ok r) : AreTypes r := by
  obtain ⟨s, tail, code₀, code₁, x, y, t, u, br₀, br₁, rfl, hs, -, -, hx, hy, hkeep, hkeep', hbr₀,
    hbr₁, h⟩ := typeIF_LEFT_cases h
  obtain ⟨⟨T, hT⟩, htail⟩ := List.forall_mem_cons.mp hstack
  obtain ⟨x', y', A, B, -, hx', hy', hA, hB⟩ := hT.binaryID hs (u := .or) rfl
  cases hx.symm.trans hx'
  cases hy.symm.trans hy'
  exact areTypes_branch h (hrun hbr₀ (List.forall_mem_cons.mpr ⟨⟨A, hkeep A hA⟩, htail⟩))
    (hrun hbr₁ (List.forall_mem_cons.mpr ⟨⟨B, hkeep' B hB⟩, htail⟩))

theorem areTypes_IF_CONS (h : typeIF_CONS run i stack = .ok r) : AreTypes r := by
  obtain ⟨s, tail, code₀, code₁, x, t, u, br₀, br₁, rfl, hs, -, -, hx, hkeep, hkeep', hbr₀, hbr₁,
    h⟩ := typeIF_CONS_cases h
  obtain ⟨⟨T, hT⟩, htail⟩ := List.forall_mem_cons.mp hstack
  obtain ⟨y, A, -, hy, hA⟩ := hT.unaryID hs (u := .list) rfl
  cases hx.symm.trans hy
  exact areTypes_branch h (hrun hbr₀ (List.forall_mem_cons.mpr ⟨⟨A, hkeep A hA⟩,
    List.forall_mem_cons.mpr ⟨⟨T, hkeep' T hT⟩, htail⟩⟩)) (hrun hbr₁ htail)

theorem areTypes_IF (h : typeIF run i stack = .ok r) : AreTypes r := by
  obtain ⟨s, tail, code₀, code₁, br₀, br₁, rfl, -, -, -, hbr₀, hbr₁, h⟩ := typeIF_cases h
  obtain ⟨-, htail⟩ := List.forall_mem_cons.mp hstack
  exact areTypes_branch h (hrun hbr₀ htail) (hrun hbr₁ htail)

theorem areTypes_DIP (h : typeDIP run i stack = .ok r) : AreTypes r := by
  obtain ⟨n, k, code, out, -, -, -, hout, ⟨t, level, -, rfl⟩ | ⟨body, rfl, rfl⟩⟩ := typeDIP_cases h
  · exact .of_failed t (level + 1)
  · refine .of_stack (List.forall_mem_append.mpr ⟨fun t ht => hstack t (List.mem_of_mem_take ht), ?_⟩)
    exact hrun hout (fun t ht => hstack t (List.mem_of_mem_drop ht)) body rfl

theorem areTypes_MAP {types : List StackType}
    (hentries : ∀ args annots r tail, stack = .prim "map" (some args) annots r :: tail →
      args.length = 2)
    (h : typeMAP run i stack = .ok (.stack types)) : ∀ t ∈ types, IsType t := by
  obtain ⟨s, tail, code, x, t, body, rest, out, rfl, -, hx, hkeep, hbody, -, rfl, hout⟩ :=
    typeMAP_cases h
  obtain ⟨⟨T, hT⟩, htail⟩ := List.forall_mem_cons.mp hstack
  have hname : s.typeID = some "set" ∨ s.typeID = some "list" ∨ s.typeID = some "map" ∨
      s.typeID = some "option" := by
    obtain ⟨hs, -⟩ | ⟨hs, -⟩ | ⟨_, hs, -⟩ := hout
    · exact .inr (.inl hs)
    · exact .inr (.inr (.inr hs))
    · exact .inr (.inr (.inl hs))
  have hone (args annots r) (hprim : s = .prim "map" (some args) annots r) : args.length = 2 :=
    hentries args annots r tail (by rw [hprim])
  obtain ⟨A, hA, -⟩ := means_elementType hT hname hone hx
  obtain ⟨B, hB⟩ := hrun hbody (List.forall_mem_cons.mpr ⟨⟨A, hkeep A hA⟩, htail⟩) _ rfl body
    List.mem_cons_self
  refine List.forall_mem_cons.mpr ⟨?_, htail⟩
  obtain ⟨-, hkeep⟩ | ⟨-, hkeep⟩ | ⟨key, hs, hkey, hkeep⟩ := hout
  · exact ⟨_, hkeep _ (Means.ofUnary rfl hB)⟩
  · exact ⟨_, hkeep _ (Means.ofUnary rfl hB)⟩
  · obtain ⟨y, z, K, V, -, hy, -, hK, -⟩ := hT.binaryID hs (u := .map) rfl
    cases hkey.symm.trans hy
    exact ⟨_, hkeep _ (Means.ofBinary rfl hK hB)⟩

omit hrun

theorem areTypes_LOOP {types : List StackType} (h : typeLOOP run i stack = .ok (.stack types)) :
    ∀ t ∈ types, IsType t := by
  obtain ⟨s, code, out, rfl, -⟩ := typeLOOP_cases h
  exact (List.forall_mem_cons.mp hstack).2

theorem areTypes_LOOP_LEFT {types : List StackType}
    (h : typeLOOP_LEFT run i stack = .ok (.stack types)) : ∀ t ∈ types, IsType t := by
  obtain ⟨s, tail, code, x, y, t, u, out, rfl, hs, -, hx, hy, -, hkeep', -, -, rfl⟩ :=
    typeLOOP_LEFT_cases h
  obtain ⟨⟨T, hT⟩, htail⟩ := List.forall_mem_cons.mp hstack
  obtain ⟨x', y', A, B, -, -, hy', -, hB⟩ := hT.binaryID hs (u := .or) rfl
  cases hy.symm.trans hy'
  exact List.forall_mem_cons.mpr ⟨⟨B, hkeep' B hB⟩, htail⟩

theorem areTypes_ITER {types : List StackType} (h : typeITER run i stack = .ok (.stack types)) :
    ∀ t ∈ types, IsType t := by
  obtain ⟨s, code, x, t, out, rfl, -⟩ := typeITER_cases h
  exact (List.forall_mem_cons.mp hstack).2

theorem areTypes_PUSH {valid : Expr → Expr → Checked Unit}
    (hargs : ∀ e, i.arg 0 = .ok e → ∃ T, tyOf e = some T) (h : typePUSH valid i stack = .ok r) :
    AreTypes r := by
  obtain ⟨t, d, out, ht, -, -, hkeep, rfl⟩ := typePUSH_cases h
  obtain ⟨T, hT⟩ := hargs t ht
  exact .of_stack (List.forall_mem_cons.mpr ⟨⟨T, hkeep T (means_of_tyOf hT)⟩, hstack⟩)

theorem areTypes_LAMBDA {types : List StackType} (hname : i.prim = "LAMBDA")
    (hargs : ∀ e, i.arg 0 = .ok e → ∃ T, tyOf e = some T)
    (hargs' : ∀ e, i.arg 1 = .ok e → ∃ T, tyOf e = some T)
    (h : typeLAMBDA run i stack = .ok (.stack types)) : ∀ t ∈ types, IsType t := by
  obtain ⟨a, b, code, body, out, ha, hb, -, -, -, hkeep, rfl⟩ := typeLAMBDA_cases hname h
  obtain ⟨A, hA⟩ := means_typeArg hargs ha
  obtain ⟨B, hB⟩ := means_typeArg hargs' hb
  exact List.forall_mem_cons.mpr ⟨⟨_, hkeep _ (Means.ofBinary rfl hA hB)⟩, hstack⟩

theorem areTypes_EXEC (h : typeEXEC i stack = .ok r) : AreTypes r := by
  obtain ⟨a, f, tail, x, y, t, rfl, hf, hx, hy, -, hkeep, rfl⟩ := typeEXEC_cases h
  obtain ⟨-, hstack⟩ := List.forall_mem_cons.mp hstack
  obtain ⟨⟨T, hT⟩, htail⟩ := List.forall_mem_cons.mp hstack
  obtain ⟨x', y', A, B, -, -, hy', -, hB⟩ := hT.binaryID hf (u := .lambda) rfl
  cases hy.symm.trans hy'
  exact .of_stack (List.forall_mem_cons.mpr ⟨⟨B, hkeep B hB⟩, htail⟩)

end

end Typechecker
