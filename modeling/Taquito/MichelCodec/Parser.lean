import Taquito.Js.Json
import Taquito.MichelCodec.Macros
import Taquito.MichelCodec.Scan

/-!
# The Micheline parser

`Parser`, over the tokens a scanner yields. The scanner's state is the list of tokens not yet asked
for; `stop` is the error it throws after the last of them, if any. Each loop of the source is a
function of its own that carries the loop's variables, and the recursion is on fuel; `parseFuel`
is always enough (`parseExpr_ne_outOfFuel` and its companions).
-/

open Js

namespace MichelCodec

/-- What a parser throws. -/
inductive ParseError where
  /-- An error of the scanner. -/
  | scan (e : ScanError)
  /-- `errEOF`. -/
  | EOF
  /-- `not an identifier: ${tok.value.v}`. -/
  | notAnIdentifier (tok : Token)
  /-- `unexpected closing bracket`. -/
  | closingBracket (tok : Token)
  /-- The `SyntaxError` of `JSON.parse`. -/
  | SyntaxError (v : JSString)
  /-- An error of `expandMacros`. -/
  | expansion (e : MacroError)
  /-- The model's own: the recursion was cut. -/
  | outOfFuel
  deriving Repr

/-- `ParserOptions`; `expandGlobalConstant` by its own properties. -/
structure ParserOptions where
  expandMacros : Option Bool
  expandGlobalConstant : Option (JSString → Option Expr)
  protocol : Option Protocol

/-- `isAnnotation`. -/
def isAnnotationToken (tok : Token) : Bool :=
  tok.t = .Ident ∧ (tok.v.head? = some 64 ∨ tok.v.head? = some 37 ∨ tok.v.head? = some 58)

/-- The text of an identifier, as the name of a primitive. -/
def primName (v : JSString) : String := String.ofList (v.map fun c => Char.ofNat c.toNat)

/-- `expandGlobalConstants`. -/
def expandGlobalConstants (hashAndValue : JSString → Option Expr) (p : String)
    (args : Option (List Expr)) (annots : Option (List JSString)) : Expr :=
  match args with
  | some [.string hash] => (hashAndValue hash).getD (.prim p args annots)
  | _ => .prim p args annots

/-- `Parser.expand`. -/
def ParserOptions.expand (opt : ParserOptions) (p : String) (args : Option (List Expr))
    (annots : Option (List JSString)) : Except ParseError Expr :=
  match opt.expandGlobalConstant with
  | some hashAndValue =>
    if p = "constant" then .ok (expandGlobalConstants hashAndValue p args annots)
    else expandOwn
  | none => expandOwn
where
  /-- The expansion of what is no global constant. -/
  expandOwn : Except ParseError Expr :=
    if opt.expandMacros.getD true then
      (MichelCodec.expandMacros (opt.protocol.getD DefaultProtocol) p args annots).mapError .expansion
    else .ok (.prim p args annots)

/-- `ret.args = ret.args || []; ret.args.push(arg)`. -/
def push {α : Type} (l : Option (List α)) (a : α) : Option (List α) := some (l.getD [] ++ [a])

section

variable (opt : ParserOptions) (stop : Option ScanError)

/-- `scanner.next()`. -/
def next : Reader Token ParseError (Option Token)
  | t :: ts => .ok (some t, ts)
  | [] =>
    match stop with
    | some e => .error (.scan e)
    | none => .ok (none, [])

/-- The end of a round of `parseSequenceExpr`: a semicolon is passed over. -/
def skipSemicolon : Option Token → Reader Token ParseError (Option Token)
  | none => pure none
  | some tok => if tok.t = .semicolon then next stop else pure (some tok)

mutual

/-- `parseExpr`. -/
def parseExpr : ℕ → Token → Reader Token ParseError Expr
  | 0, _ => Reader.fail .outOfFuel
  | fuel + 1, tok =>
    match tok.t with
    | .Ident => Reader.lift (opt.expand (primName tok.v) none none)
    | .Number => pure (.int tok.v)
    | .String =>
      match parseString tok.v with
      | some s => pure (.string s)
      | none => Reader.fail (.SyntaxError tok.v)
    | .Bytes => pure (.bytes (tok.v.drop 2))
    | .lbrace => Expr.seq <$> parseSequenceExpr fuel tok
    | _ => parseListExpr fuel tok

/-- `parseListExpr`. -/
def parseListExpr : ℕ → Token → Reader Token ParseError Expr
  | 0, _ => Reader.fail .outOfFuel
  | fuel + 1, start =>
    if start.t = .lparen then do
      match ← next stop with
      | none => Reader.fail .EOF
      | some tok =>
        if tok.t = .Ident then listLoop fuel true tok none none
        else Reader.fail (.notAnIdentifier tok)
    else if start.t = .Ident then listLoop fuel false start none none
    else Reader.fail (.notAnIdentifier start)

/-- The loop of `parseListExpr`, for the primitive that `head` names. -/
def listLoop : ℕ → Bool → Token → Option (List Expr) → Option (List JSString) →
    Reader Token ParseError Expr
  | 0, _, _, _, _ => Reader.fail .outOfFuel
  | fuel + 1, expectBracket, head, args, annots => do
    match ← next stop with
    | none =>
      if expectBracket then Reader.fail .EOF
      else Reader.lift (opt.expand (primName head.v) args annots)
    | some tok =>
      if tok.t = .rparen then
        if expectBracket then Reader.lift (opt.expand (primName head.v) args annots)
        else Reader.fail (.closingBracket tok)
      else if isAnnotationToken tok then listLoop fuel expectBracket head args (push annots tok.v)
      else do
        let arg ← parseExpr fuel tok
        listLoop fuel expectBracket head (push args arg) annots

/-- The loop of `parseArgs`: the arguments, the annotations, and the token that ended them. -/
def parseArgs : ℕ → Option (List Expr) → Option (List JSString) →
    Reader Token ParseError (Option (List Expr) × Option (List JSString) × Option Token)
  | 0, _, _ => Reader.fail .outOfFuel
  | fuel + 1, args, annots => do
    match ← next stop with
    | none => pure (args, annots, none)
    | some t =>
      if t.t = .rbrace ∨ t.t = .semicolon then pure (args, annots, some t)
      else if isAnnotationToken t then parseArgs fuel args (push annots t.v)
      else do
        let arg ← parseExpr fuel t
        parseArgs fuel (push args arg) annots

/-- `parseSequenceExpr`. -/
def parseSequenceExpr : ℕ → Token → Reader Token ParseError (List Expr)
  | 0, _ => Reader.fail .outOfFuel
  | fuel + 1, start =>
    if start.t = .lbrace then do seqLoop fuel true [] (← next stop)
    else seqLoop fuel false [] (some start)

/-- The loop of `parseSequenceExpr`, with the token it looks at. -/
def seqLoop : ℕ → Bool → List Expr → Option Token → Reader Token ParseError (List Expr)
  | 0, _, _, _ => Reader.fail .outOfFuel
  | _ + 1, expectBracket, seq, none =>
    if expectBracket then Reader.fail .EOF else pure seq
  | fuel + 1, expectBracket, seq, some tok =>
    if tok.t = .rbrace then
      if expectBracket then pure seq else Reader.fail (.closingBracket tok)
    else if tok.t = .Ident then do
      let (args, annots, n) ← parseArgs fuel none none
      let itm ← Reader.lift (opt.expand (primName tok.v) args annots)
      seqLoop fuel expectBracket (seq ++ [itm]) (← skipSemicolon stop n)
    else do
      let ex ← parseExpr fuel tok
      seqLoop fuel expectBracket (seq ++ [ex]) (← skipSemicolon stop (← next stop))

end

end

/-! ## Entry points -/

/-- Fuel for `n` tokens. -/
def parseFuel (n : ℕ) : ℕ := 3 * n + 3

/-- The functions of `Parser` that take a source text. -/
inductive EntryPoint where
  | parseSequence | parseList | parseMichelineExpression
  deriving DecidableEq, Repr

/-- What an entry point does after it took the token `tok`. -/
def EntryPoint.parse (opt : ParserOptions) (stop : Option ScanError) (fuel : ℕ) (tok : Token) :
    EntryPoint → Reader Token ParseError Expr
  | .parseSequence => Expr.seq <$> parseSequenceExpr opt stop fuel tok
  | .parseList => parseListExpr opt stop fuel tok
  | .parseMichelineExpression => parseExpr opt stop fuel tok

/-- An entry point on a source text; `none` is `null`. The tokens that are left are never asked
for. -/
def EntryPoint.run (f : EntryPoint) (opt : ParserOptions) (src : JSString) :
    Except ParseError (Option Expr) := do
  let scanner := scan src false
  match ← next scanner.stop scanner.tokens with
  | (none, _) => pure none
  | (some tok, rest) =>
    let (e, _) ← f.parse opt scanner.stop (parseFuel scanner.tokens.length) tok rest
    pure (some e)

/-! ## Expressions that were parsed as JSON -/

/-- What `parseJSON` throws, of an expression of the right shape. -/
inductive JSONParseError where
  /-- `malformed int literal`. -/
  | malformedInt (text : JSString)
  /-- `malformed bytes literal`. -/
  | malformedBytes (hex : JSString)
  /-- An error of `expand`. -/
  | thrown (e : ParseError)
  deriving Repr

section

variable (opt : ParserOptions)

mutual

/-- `parseJSON`, of an expression. -/
def parseJSON : Expr → Except JSONParseError Expr
  | .seq items => do return .seq (← parseJSONs items)
  | .prim p none annots => (opt.expand p none annots).mapError .thrown
  | .prim p (some args) annots => do
    let args ← parseJSONs args
    (opt.expand p (some args) annots).mapError .thrown
  | .string text => .ok (.string text)
  | .int text => if isNumeral text then .ok (.int text) else .error (.malformedInt text)
  | .bytes hex => if isHexPairs hex then .ok (.bytes hex) else .error (.malformedBytes hex)

/-- `parseJSON`, of the members of a list. -/
def parseJSONs : List Expr → Except JSONParseError (List Expr)
  | [] => .ok []
  | e :: es => do
    let e ← parseJSON e
    return e :: (← parseJSONs es)

end

end

end MichelCodec
