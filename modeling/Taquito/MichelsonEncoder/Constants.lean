import Taquito.Lib.Loops
import Taquito.MichelsonEncoder.Alternatives
import Taquito.MichelsonEncoder.Schema

/-!
# Global constants in types

`GlobalConstantToken` throws whatever the value is. So what a type with constants encodes never has
anything in the place of a constant (`not_shows_of_encodeObject`). The constants of a type are found
by `findToken`, which goes into the components of every class but `contract`.
-/

open Js

namespace MichelsonEncoder

/-- `this.val.args[0]['string']`. -/
def constantHash : Option (List Expr) → Except EncoderError Val
  | some (.string hash :: _) => .ok (.string hash)
  | some (_ :: _) => .ok .undefined
  | _ => .error .TypeError

/-- An error with the hash of the constant in its message. -/
def constantError {α : Type} (args : Option (List Expr)) (name : String) :
    Except EncoderError α := do
  let _ ← constantHash args
  .error (.TokenValidationError name)

/-- `GlobalConstantToken`, as far as it is not as any other token. -/
def GlobalConstantToken (args : Option (List Expr)) : Token where
  kind := .other
  comparable := false
  annot := []
  hasAnnotations := false
  Execute _ := constantError args "GlobalConstantDecodingError"
  ToKey _ := .error .TypeError
  EncodeObject _ := constantError args "GlobalConstantEncodingError"
  Encode _ := constantError args "GlobalConstantEncodingError"
  compare _ _ := .error .TypeError
  findToken _ := none
  ExtractSchema := .string (js "constant")
  generateSchema := schemaOf "constant"
    (.object [(js "hash", (constantHash args).toOption.getD .undefined)])
  ExtractSignature := [[.string (js "constant")]]

/-- The methods of the classes that are not modelled, and those of `GlobalConstantToken`. -/
def withConstants (others : String → Option (List Expr) → Option (ℕ → Token)) (p : String)
    (args : Option (List Expr)) : Option (ℕ → Token) :=
  if p = "constant" then some fun _ => GlobalConstantToken args else others p args

/-- The classes of which `findAndReturnTokens` goes into all components. -/
def searchedTypes : List String :=
  ["pair", "or", "option", "list", "set", "map", "big_map", "ticket", "lambda"]

mutual

/-- `tokenVal.args` of what `findAndReturnTokens` finds for `constant`. -/
def constantTokens : Expr → List (Option (List Expr))
  | .seq items => constantTokensOf items
  | .prim p none _ => if p = "constant" then [none] else []
  | .prim p (some args) _ =>
    if p = "constant" then [some args]
    else if p ∈ searchedTypes then constantTokensOf args
    else []
  | _ => []

/-- The same, of the components. -/
def constantTokensOf : List Expr → List (Option (List Expr))
  | [] => []
  | e :: es => constantTokens e ++ constantTokensOf es

end

variable {host : Host}

/-! ## What stands in the place of a constant -/

/-- An encoding has data in the place of a constant. -/
inductive MType.Shows : MType → Encoded → Prop where
  | constant (annots : Annots) (args : Option (List Expr)) (e : Encoded) :
    Shows (.other annots fun _ => GlobalConstantToken args) e
  | pairLeft {annots left right e e'} (h : Shows left e) :
    Shows (.pair annots left right) (.prim "Pair" (some [e, e']))
  | pairRight {annots left right e e'} (h : Shows right e') :
    Shows (.pair annots left right) (.prim "Pair" (some [e, e']))
  | orLeft {annots left right e} (h : Shows left e) :
    Shows (.or annots left right) (.prim "Left" (some [e]))
  | orRight {annots left right e} (h : Shows right e) :
    Shows (.or annots left right) (.prim "Right" (some [e]))
  | option {annots component e} (h : Shows component e) :
    Shows (.option annots component) (.prim "Some" (some [e]))
  | list {annots element items e} (hmem : e ∈ items) (h : Shows element e) :
    Shows (.list annots element) (.seq items)
  | set {annots element items e} (hmem : e ∈ items) (h : Shows element e) :
    Shows (.set annots element) (.seq items)
  | mapKey {annots key value items k v} (hmem : .prim "Elt" (some [k, v]) ∈ items)
    (h : Shows key k) : Shows (.map annots key value) (.seq items)
  | mapValue {annots key value items k v} (hmem : .prim "Elt" (some [k, v]) ∈ items)
    (h : Shows value v) : Shows (.map annots key value) (.seq items)
  | bigMapKey {annots key value items k v} (hmem : .prim "Elt" (some [k, v]) ∈ items)
    (h : Shows key k) : Shows (.bigMap annots key value) (.seq items)
  | bigMapValue {annots key value items k v} (hmem : .prim "Elt" (some [k, v]) ∈ items)
    (h : Shows value v) : Shows (.bigMap annots key value) (.seq items)

theorem constantError_ne_ok {α : Type} {args : Option (List Expr)} {name : String} {a : α} :
    constantError args name ≠ .ok a := by
  intro h
  obtain ⟨_, -, h⟩ := Except.bind_eq_ok.mp h
  cases h

theorem exists_of_mem_mapM {α β : Type} {f : α → Except EncoderError β} {xs : List α} {ys : List β}
    (h : xs.mapM f = .ok ys) {y : β} (hy : y ∈ ys) : ∃ x, f x = .ok y := by
  induction Except.mapM_eq_ok.mp h with
  | nil => cases hy
  | @cons x _ _ _ hx hxs ih =>
    rcases List.mem_cons.mp hy with rfl | hy
    · exact ⟨x, hx⟩
    · exact ih (Except.mapM_eq_ok.mpr hxs) hy

/-- The keys and values of the entries of a map are encoded by the tokens of its components. -/
theorem encoded_of_encodeEntries {keySchema valueSchema : Token} {entries : Entries}
    {items : List Encoded} {k v : Encoded}
    (h : encodeEntries host keySchema valueSchema entries = .ok (.seq items))
    (hmem : .prim "Elt" (some [k, v]) ∈ items) :
    (∃ x, keySchema.EncodeObject x = .ok k) ∧ ∃ x, valueSchema.EncodeObject x = .ok v := by
  obtain ⟨keys, -, h⟩ := Except.bind_eq_ok.mp h
  obtain ⟨elts, helts, h⟩ := Except.bind_eq_ok.mp h
  obtain rfl := Encoded.seq.inj (Except.ok.inj h)
  obtain ⟨key, hkey⟩ := exists_of_mem_mapM helts hmem
  obtain ⟨k', hk, hkey⟩ := Except.bind_eq_ok.mp hkey
  obtain ⟨v', hv, hkey⟩ := Except.bind_eq_ok.mp hkey
  cases hkey
  exact ⟨⟨_, hk⟩, _, hv⟩

/-- The argument of `Left` is encoded by the left alternative. -/
theorem EncodesOr.exists_left {lt rt : Token} {label : JSString} {x : Val} {e r : Encoded}
    (h : EncodesOr lt rt label x r) (hr : r = .prim "Left" (some [e])) :
    ∃ v, lt.EncodeObject v = .ok e := by
  cases h with
  | left _ _ h | insideLeft _ _ _ h _ =>
    obtain ⟨-, hargs⟩ := Encoded.prim.inj hr
    obtain rfl := List.head_eq_of_cons_eq (Option.some.inj hargs)
    exact ⟨_, h⟩
  | right | insideRight =>
    obtain ⟨hp, -⟩ := Encoded.prim.inj hr
    exact absurd hp (by decide)
  | nothing => cases hr

/-- The argument of `Right` is encoded by the right alternative. -/
theorem EncodesOr.exists_right {lt rt : Token} {label : JSString} {x : Val} {e r : Encoded}
    (h : EncodesOr lt rt label x r) (hr : r = .prim "Right" (some [e])) :
    ∃ v, rt.EncodeObject v = .ok e := by
  cases h with
  | right _ _ _ h | insideRight _ _ _ _ h _ =>
    obtain ⟨-, hargs⟩ := Encoded.prim.inj hr
    obtain rfl := List.head_eq_of_cons_eq (Option.some.inj hargs)
    exact ⟨_, h⟩
  | left | insideLeft =>
    obtain ⟨hp, -⟩ := Encoded.prim.inj hr
    exact absurd hp (by decide)
  | nothing => cases hr

/-- **Nothing stands in the place of a constant** in what a type encodes. -/
theorem not_shows_of_encodeObject {t : MType} {e : Encoded} (h : t.Shows e) :
    ∀ (idx : ℕ) (x : Val), (t.token host idx).EncodeObject x ≠ .ok e := by
  induction h with
  | constant annots args e => exact fun idx x => constantError_ne_ok
  | @pairLeft annots left right e e' h ih =>
    intro idx x hx
    obtain ⟨l, -, hx⟩ := Except.bind_eq_ok.mp hx
    obtain ⟨r, -, hx⟩ := Except.bind_eq_ok.mp hx
    obtain ⟨el, hel, hx⟩ := Except.bind_eq_ok.mp hx
    obtain ⟨er, -, hx⟩ := Except.bind_eq_ok.mp hx
    cases hx
    exact ih _ _ hel
  | @pairRight annots left right e e' h ih =>
    intro idx x hx
    obtain ⟨l, -, hx⟩ := Except.bind_eq_ok.mp hx
    obtain ⟨r, -, hx⟩ := Except.bind_eq_ok.mp hx
    obtain ⟨el, -, hx⟩ := Except.bind_eq_ok.mp hx
    obtain ⟨er, her, hx⟩ := Except.bind_eq_ok.mp hx
    cases hx
    exact ih _ _ her
  | @orLeft annots left right e h ih =>
    intro idx x hx
    obtain ⟨keys, -, hfound⟩ := encodesOr_of_encodeObject hx
    obtain ⟨v, hv⟩ := hfound.exists_left rfl
    exact ih _ _ hv
  | @orRight annots left right e h ih =>
    intro idx x hx
    obtain ⟨keys, -, hfound⟩ := encodesOr_of_encodeObject hx
    obtain ⟨v, hv⟩ := hfound.exists_right rfl
    exact ih _ _ hv
  | @option annots component e h ih =>
    intro idx x hx
    have hx : OptionToken.EncodeObject (component.token host 0) x = .ok (.prim "Some" (some [e])) :=
      hx
    rw [OptionToken.EncodeObject] at hx
    split at hx
    · obtain ⟨hp, -⟩ := Encoded.prim.inj (Except.ok.inj hx)
      exact absurd hp (by decide)
    · obtain ⟨e', he, hx⟩ := Except.bind_eq_ok.mp hx
      cases hx
      exact ih _ _ he
  | @list annots element items e hmem h ih =>
    intro idx x hx
    obtain ⟨xs, -, hx⟩ := Except.bind_eq_ok.mp hx
    obtain ⟨es, hes, hx⟩ := Except.bind_eq_ok.mp hx
    obtain rfl := Encoded.seq.inj (Except.ok.inj hx)
    obtain ⟨y, hy⟩ := exists_of_mem_mapM hes hmem
    exact ih _ _ hy
  | @set annots element items e hmem h ih =>
    intro idx x hx
    obtain ⟨xs, -, hx⟩ := Except.bind_eq_ok.mp hx
    obtain ⟨ys, -, hx⟩ := Except.bind_eq_ok.mp hx
    obtain ⟨es, hes, hx⟩ := Except.bind_eq_ok.mp hx
    obtain rfl := Encoded.seq.inj (Except.ok.inj hx)
    obtain ⟨y, hy⟩ := exists_of_mem_mapM hes hmem
    exact ih _ _ hy
  | mapKey hmem h ih | bigMapKey hmem h ih =>
    intro idx x hx
    obtain ⟨entries, -, hx⟩ := Except.bind_eq_ok.mp hx
    obtain ⟨⟨y, hy⟩, -⟩ := encoded_of_encodeEntries hx hmem
    exact ih _ _ hy
  | mapValue hmem h ih | bigMapValue hmem h ih =>
    intro idx x hx
    obtain ⟨entries, -, hx⟩ := Except.bind_eq_ok.mp hx
    obtain ⟨-, y, hy⟩ := encoded_of_encodeEntries hx hmem
    exact ih _ _ hy

end MichelsonEncoder
