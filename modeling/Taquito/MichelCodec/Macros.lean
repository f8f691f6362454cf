import Taquito.Js.Doubles
import Taquito.Lib.Reader
import Taquito.MichelCodec.Protocol
import Taquito.Micheline.Expr

/-!
# Macros

`expandMacros` replaces a primitive that is a Michelson macro by the code the macro stands for. The
macros with a fixed name are a table (`namedMacro`); the others are recognised by the form of their
name, and the name of a `P...R` macro spells a tree of pairs in prefix notation.
-/

open Js

namespace MichelCodec

/-- `MacroError`. -/
structure MacroError where
  prim : Expr
  message : JSString
  deriving Repr

section

variable (p : String) (args : Option (List Expr)) (annots : Option (List JSString))

/-- `throw new MacroError(ex, ...)`. -/
def macroError {α : Type} (message : JSString) : Except MacroError α :=
  .error ⟨.prim p args annots, message⟩

/-- `assertArgs` of the macros. -/
def assertMacroArgs (n : ℕ) : Except MacroError (List Expr) :=
  match args with
  | none =>
    if n = 0 then .ok []
    else macroError p args annots
      (js "macro " ++ js p ++ js " expects " ++ natText n ++ js " arguments, was given undefined")
  | some es =>
    if es.length = n then .ok es
    else macroError p args annots (js "macro " ++ js p ++ js " expects " ++ natText n ++
      js " arguments, was given " ++ natText es.length)

/-- `assertNoAnnots`. -/
def assertNoAnnots : Except MacroError Unit :=
  match annots with
  | none => .ok ()
  | some ws => macroError p args annots
      (js "unexpected annotation on macro " ++ js p ++ js ": " ++ List.intercalate (js ",") ws)

/-- `assertIntArg`: the text of the argument. -/
def assertIntArg (arg : Expr) : Except MacroError JSString :=
  match arg with
  | .int text => .ok text
  | _ => macroError p args annots (js "macro " ++ js p ++ js " expects int argument")

end

/-! ## Trees of pairs -/

/-- `PT`: a depth, and the annotations of the two sides. -/
abbrev PT := ℕ × Option JSString × Option JSString

/-- `parsePairUnpairExpr`: the parts, and the numbers of characters and annotations consumed. -/
def parsePairUnpairExpr (ex : Expr) (name : String)
    (agg : Option (List PT) → Option (List PT) → PT → List PT) (expr : List Char)
    (annotations : List JSString) : Except MacroError (List PT × ℕ × ℕ) :=
  match expr with
  | [] => .error ⟨ex, js "unexpected end: " ++ js name⟩
  | c :: left => do
    let (lexpr, la, n, ai) ←
      if c = 'P' then do
        let (r, n, an) ← parsePairUnpairExpr ex name agg left annotations
        pure (some r, none, n, an)
      else if c = 'A' then pure (none, annotations.head?, 0, min 1 annotations.length)
      else .error ⟨ex, js name ++ js ": unexpected character: " ++ js (toString c)⟩
    match _h : left.drop n with
    | [] => .error ⟨ex, js "unexpected end: " ++ js name⟩
    | c :: right => do
      let (rexpr, ra, m, ai) ←
        if c = 'P' then do
          let (r, m, an) ← parsePairUnpairExpr ex name agg right (annotations.drop ai)
          pure (some (r.map fun t : PT => (t.1 + 1, t.2)), none, m, ai + an)
        else if c = 'I' then
          pure (none, (annotations.drop ai).head?, 0, ai + min 1 (annotations.drop ai).length)
        else .error ⟨ex, js name ++ js ": unexpected character: " ++ js (toString c)⟩
      pure (agg lexpr rexpr (0, la, ra), 2 + n + m, ai)
  termination_by expr.length
  decreasing_by
    · have := congrArg List.length _h
      simp only [List.length_drop, List.length_cons] at this ⊢
      omega
    · simp

/-- `trimLast(a, null)`. -/
def trimLast (a : List (Option JSString)) : List (Option JSString) :=
  (a.reverse.dropWhile Option.isNone).reverse

/-- `filterAnnotations`. -/
def filterAnnotations (a : Option (List JSString)) : List JSString × List JSString :=
  (a.getD []).partition fun v => v.head? = some 37

/-- `mkPrim` without arguments. -/
def leafPrim (p : String) (annots : Option (List JSString)) : Expr := .prim p none annots

/-- A primitive without arguments and annotations. -/
def plain (p : String) : Expr := .prim p none none

/-- A part at its depth. -/
def dipped (depth : ℕ) (leaf : Expr) : Expr :=
  if depth = 0 then leaf
  else if depth = 1 then .prim "DIP" (some [.seq [leaf]]) none
  else .prim "DIP" (some [.int (natText depth), .seq [leaf]]) none

/-- The parts of a `P...R` macro: left, right, top. -/
def pairOrder (l r : Option (List PT)) (top : PT) : List PT := l.getD [] ++ r.getD [] ++ [top]

/-- The parts of an `UNP...R` macro: top, right, left. -/
def unpairOrder (l r : Option (List PT)) (top : PT) : List PT := top :: (r.getD [] ++ l.getD [])

/-- The annotations of the `PAIR` of a part. -/
def pairAnnots (a : Option JSString × Option JSString) (rest : List JSString) :
    Option (List JSString) :=
  let ann := (trimLast [a.1, a.2]).map (·.getD [37]) ++ rest
  if ann.isEmpty then none else some ann

/-- The code of the `P...R` macros. -/
def pairCode (rest : List JSString) (r : List PT) : Expr :=
  .seq (r.mapIdx fun i t =>
    dipped t.1 (leafPrim "PAIR" (pairAnnots t.2 (if t.1 = 0 ∧ i = r.length - 1 then rest else []))))

/-- The code of the `UNP...R` macros before Edo. -/
def unpairCode (r : List PT) : Expr :=
  .seq (r.map fun t => dipped t.1 (.seq [plain "DUP", leafPrim "CAR" (t.2.1.map fun a => [a]),
    .prim "DIP" (some [.seq [leafPrim "CDR" (t.2.2.map fun a => [a])]]) none]))

/-- The code of the `UNP...R` macros from Edo on. -/
def unpairCodeEdo (r : List PT) : Expr := .seq (r.map fun t => dipped t.1 (plain "UNPAIR"))

/-! ## Access paths -/

/-- `parseSetMapCadr`. -/
def parseSetMapCadr (ex : Expr) (name : String) (termA termD : Expr) :
    List Char → List JSString → Except MacroError Expr
  | 'A' :: expr, vann =>
    if expr.isEmpty then .ok termA
    else do
      let inner ← parseSetMapCadr ex name termA termD expr []
      return .seq [plain "DUP",
        .prim "DIP" (some [.seq [leafPrim "CAR" (some [js "@%%"]), inner]]) none,
        leafPrim "CDR" (some [js "@%%"]), plain "SWAP",
        leafPrim "PAIR" (some ([js "%@", js "%@"] ++ vann))]
  | 'D' :: expr, vann =>
    if expr.isEmpty then .ok termD
    else do
      let inner ← parseSetMapCadr ex name termA termD expr []
      return .seq [plain "DUP",
        .prim "DIP" (some [.seq [leafPrim "CDR" (some [js "@%%"]), inner]]) none,
        leafPrim "CAR" (some [js "@%%"]),
        leafPrim "PAIR" (some ([js "%@", js "%@"] ++ vann))]
  | c :: _, _ => .error ⟨ex, js name ++ js ": unexpected character: " ++ js (toString c)⟩
  | [], _ => .error ⟨ex, js name ++ js ": unexpected character: undefined"⟩

/-! ## Names -/

/-- The text between a prefix and a suffix. -/
def middle (pre post s : List Char) : Option (List Char) :=
  if pre.isPrefixOf s ∧ post.isSuffixOf s ∧ pre.length + post.length ≤ s.length then
    some ((s.drop pre.length).take (s.length - pre.length - post.length))
  else none

/-- `/^pre[chars]{min,}post$/`: the text of the middle group. -/
def matchName (pre chars : String) (min : ℕ) (post name : String) : Option (List Char) :=
  (middle pre.toList post.toList name.toList).filter fun m =>
    m.all (fun c => chars.toList.contains c) && min ≤ m.length

/-- `slice(n)` of a name. -/
def sliceName (n : ℕ) (p : String) : String := String.ofList (p.toList.drop n)

/-- `[{ prim: 'UNIT' }, { prim: 'FAILWITH' }]`. -/
def failCode : Expr := .seq [plain "UNIT", plain "FAILWITH"]

/-- `mayRename`. -/
def mayRename (annots : Option (List JSString)) : Expr :=
  .seq (match annots with
    | some ws => [.prim "RENAME" none (some ws)]
    | none => [])

/-- The comparisons. -/
def comparisons : List String := ["EQ", "NEQ", "LT", "GT", "LE", "GE"]

/-- The `switch` of `expandMacros`; `none` falls through it. -/
def namedMacro (p : String) (args : Option (List Expr)) (annots : Option (List JSString)) :
    Except MacroError (Option Expr) :=
  if p ∈ comparisons.map ("CMP" ++ ·) then do
    let _ ← assertMacroArgs p args annots 0
    return some (.seq [plain "COMPARE", leafPrim (sliceName 3 p) annots])
  else if p ∈ comparisons.map ("IF" ++ ·) then do
    let _ ← assertMacroArgs p args annots 2
    return some (.seq [plain (sliceName 2 p), .prim "IF" args annots])
  else if p ∈ comparisons.map ("IFCMP" ++ ·) then do
    let _ ← assertMacroArgs p args annots 2
    return some (.seq [plain "COMPARE", plain (sliceName 5 p), .prim "IF" args annots])
  else if p = "FAIL" then do
    let _ ← assertMacroArgs p args annots 0
    assertNoAnnots p args annots
    return some failCode
  else if p = "ASSERT" then do
    let _ ← assertMacroArgs p args annots 0
    assertNoAnnots p args annots
    return some (.seq [.prim "IF" (some [.seq [], .seq [failCode]]) none])
  else if p ∈ comparisons.map ("ASSERT_" ++ ·) then do
    let _ ← assertMacroArgs p args annots 0
    assertNoAnnots p args annots
    return some (.seq [plain (sliceName 7 p), .prim "IF" (some [.seq [], .seq [failCode]]) none])
  else if p ∈ comparisons.map ("ASSERT_CMP" ++ ·) then do
    let _ ← assertMacroArgs p args annots 0
    assertNoAnnots p args annots
    return some (.seq [.seq [plain "COMPARE", plain (sliceName 10 p)],
      .prim "IF" (some [.seq [], .seq [failCode]]) none])
  else if p = "ASSERT_NONE" then do
    let _ ← assertMacroArgs p args annots 0
    assertNoAnnots p args annots
    return some (.seq [.prim "IF_NONE" (some [.seq [], .seq [failCode]]) none])
  else if p = "ASSERT_SOME" then do
    let _ ← assertMacroArgs p args annots 0
    return some (.seq [.prim "IF_NONE" (some [.seq [failCode], mayRename annots]) none])
  else if p = "ASSERT_LEFT" then do
    let _ ← assertMacroArgs p args annots 0
    return some (.seq [.prim "IF_LEFT" (some [mayRename annots, .seq [failCode]]) none])
  else if p = "ASSERT_RIGHT" then do
    let _ ← assertMacroArgs p args annots 0
    return some (.seq [.prim "IF_LEFT" (some [.seq [failCode], mayRename annots]) none])
  else if p = "IF_SOME" then do
    let es ← assertMacroArgs p args annots 2
    return some (.seq [.prim "IF_NONE" (some es.reverse) annots])
  else if p = "IF_RIGHT" then do
    let es ← assertMacroArgs p args annots 2
    return some (.seq [.prim "IF_LEFT" (some es.reverse) annots])
  else if p = "CAR" ∨ p = "CDR" then
    if args.isNone then return some (.prim p args annots)
    else do
      let es ← assertMacroArgs p args annots 1
      let text ← assertIntArg p args annots (es.headD (.seq []))
      let n := (Double.parse text).scale 2
      return some (.prim "GET" (some [.int (if p = "CAR" then n.add 1 else n).text]) annots)
  else return none

/-! ## Expansion -/

/-- `SET_C[AD]+R`. -/
def setCadr (p : String) (args : Option (List Expr)) (annots : Option (List JSString))
    (path : List Char) : Except MacroError Expr := do
  let _ ← assertMacroArgs p args annots 0
  let (fields, rest) := filterAnnotations annots
  if 1 < fields.length then
    macroError p args annots
      (js "unexpected annotation on macro " ++ js p ++ js ": " ++ List.intercalate (js ",") fields)
  let ex : Expr := .prim p args annots
  match fields with
  | f :: _ =>
    parseSetMapCadr ex p
      (.seq [plain "DUP", leafPrim "CAR" (some fields), plain "DROP",
        leafPrim "CDR" (some [js "@%%"]), plain "SWAP", leafPrim "PAIR" (some [f, js "%@"])])
      (.seq [plain "DUP", leafPrim "CDR" (some fields), plain "DROP",
        leafPrim "CAR" (some [js "@%%"]), leafPrim "PAIR" (some [js "%@", f])])
      path rest
  | [] =>
    parseSetMapCadr ex p
      (.seq [leafPrim "CDR" (some [js "@%%"]), plain "SWAP",
        leafPrim "PAIR" (some [js "%", js "%@"])])
      (.seq [leafPrim "CAR" (some [js "@%%"]), leafPrim "PAIR" (some [js "%@", js "%"])])
      path rest

/-- `MAP_C[AD]+R`. -/
def mapCadr (p : String) (args : Option (List Expr)) (annots : Option (List JSString))
    (path : List Char) : Except MacroError Expr := do
  let es ← assertMacroArgs p args annots 1
  let (fields, _) := filterAnnotations annots
  if 1 < fields.length then
    macroError p args annots
      (js "unexpected annotation on macro " ++ js p ++ js ": " ++ List.intercalate (js ",") fields)
  let ex : Expr := .prim p args annots
  let body := es.headD (.seq [])
  let renamed := fields.head?.map fun f => [js "@" ++ f.drop 1]
  let field := fields.headD (js "%")
  parseSetMapCadr ex p
    (.seq [plain "DUP", leafPrim "CDR" (some [js "@%%"]),
      .prim "DIP" (some [.seq [leafPrim "CAR" renamed, body]]) none, plain "SWAP",
      leafPrim "PAIR" (some [field, js "%@"])])
    (.seq [plain "DUP", leafPrim "CDR" renamed, body, plain "SWAP",
      leafPrim "CAR" (some [js "@%%"]), leafPrim "PAIR" (some [js "%@", field])])
    path []

/-- `DU+P`, before Edo. -/
def duup (p : String) (args : Option (List Expr)) (annots : Option (List JSString)) (n : ℕ) :
    Except MacroError Expr :=
  let expand (n : Double) : Expr :=
    if n = .finite 1 then .seq [leafPrim "DUP" annots]
    else if n = .finite 2 then
      .seq [.prim "DIP" (some [.seq [leafPrim "DUP" annots]]) none, plain "SWAP"]
    else
      .seq [.prim "DIP" (some [.int (n.add (-1)).text, .seq [leafPrim "DUP" annots]]) none,
        .prim "DIG" (some [.int n.text]) none]
  if n = 1 then
    if args.isNone then .ok (.prim p args annots)
    else do
      let es ← assertMacroArgs p args annots 1
      let text ← assertIntArg p args annots (es.headD (.seq []))
      return expand (.parse text)
  else do
    let _ ← assertMacroArgs p args annots 0
    return expand (.ofInt n)

/-- `expandMacros`. -/
def expandMacros (proto : Protocol) (p : String) (args : Option (List Expr))
    (annots : Option (List JSString)) : Except MacroError Expr := do
  let ex : Expr := .prim p args annots
  match ← namedMacro p args annots with
  | some ret => return ret
  | none =>
    if (matchName "P" "PAI" 3 "R" p).isSome then do
      let _ ← assertMacroArgs p args annots 0
      let (fields, rest) := filterAnnotations annots
      let (r, _, _) ← parsePairUnpairExpr ex p pairOrder (p.toList.drop 1) fields
      return pairCode rest r
    else if (matchName "UNP" "PAI" 2 "R" p).isSome then
      if ProtoInferiorTo proto .PtEdo2Zk then do
        let _ ← assertMacroArgs p args annots 0
        let (r, _, _) ← parsePairUnpairExpr ex p unpairOrder (p.toList.drop 3) (annots.getD [])
        return unpairCode r
      else if p = "UNPAIR" then return ex
      else do
        let _ ← assertMacroArgs p args annots 0
        let (r, _, _) ← parsePairUnpairExpr ex p unpairOrder (p.toList.drop 3) []
        return unpairCodeEdo r
    else
      match matchName "C" "AD" 2 "R" p with
      | some ch => do
        let _ ← assertMacroArgs p args annots 0
        return .seq (ch.mapIdx fun i c =>
          leafPrim (if c = 'A' then "CAR" else "CDR") (if i = ch.length - 1 then annots else none))
      | none =>
        match matchName "SET_C" "AD" 1 "R" p with
        | some path => setCadr p args annots path
        | none =>
          match matchName "MAP_C" "AD" 1 "R" p with
          | some path => mapCadr p args annots path
          | none =>
            match matchName "DI" "I" 1 "P" p with
            | some is => do
              let es ← assertMacroArgs p args annots 1
              return .prim "DIP" (some [.int (natText (1 + is.length)), es.headD (.seq [])]) none
            | none =>
              match matchName "DU" "U" 0 "P" p with
              | some us =>
                if ProtoInferiorTo proto .PtEdo2Zk then duup p args annots (1 + us.length)
                else if us.isEmpty then return ex
                else do
                  let _ ← assertMacroArgs p args annots 0
                  return .prim "DUP" (some [.int (natText (1 + us.length))]) annots
              | none => return ex

end MichelCodec
