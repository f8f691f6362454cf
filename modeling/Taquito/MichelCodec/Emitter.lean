import Taquito.Js.Json
import Taquito.Micheline.Expr

/-!
# The Micheline emitter

`emitMicheline`, without macro folding: folding looks at the macro an expression was expanded from,
which is part of its source reference and not of the expression.
-/

open Js

namespace MichelCodec

/-- `FormatOptions`. -/
structure FormatOptions where
  indent : Option JSString
  newline : Option JSString

/-- `Formatter`: the options and the level. -/
structure Formatter where
  opt : FormatOptions
  lev : ℕ

namespace Formatter

/-- `indent(n)`. -/
def indent (f : Formatter) (n : ℕ) : JSString :=
  (List.replicate (f.lev + n) (f.opt.indent.getD [])).flatten

/-- `lf`. -/
def lf (f : Formatter) : JSString := f.opt.newline.getD []

/-- `lfsp`; an empty text is falsy. -/
def lfsp (f : Formatter) : JSString := if f.lf = [] then [32] else f.lf

/-- `down(n)`. -/
def down (f : Formatter) (n : ℕ) : Formatter := { f with lev := f.lev + n }

end Formatter

/-- `hasArgs`. -/
def hasArgs : Expr → Bool
  | .prim _ args annots => !(annots.getD []).isEmpty || !(args.getD []).isEmpty
  | _ => false

/-- `isMultiline`, of the arguments of a primitive. -/
def isMultiline (args : List Expr) : Bool :=
  args.any fun a => (match a with | .seq _ => true | _ => false) || hasArgs a

/-- Annotations, each after a space. -/
def emitAnnots (annots : Option (List JSString)) : JSString :=
  ((annots.getD []).map fun a => 32 :: a).flatten

mutual

/-- `emitExpr`. -/
def emitExpr : Expr → Formatter → JSString
  | .seq items, f => 123 :: (f.lf ++ emitElems items f ++ f.indent 0 ++ [125])
  | .string s, _ => stringify s
  | .int text, _ => text
  | .bytes hex, _ => js "0x" ++ hex
  | .prim p none annots, _ =>
    if (annots.getD []).isEmpty then js p else 40 :: (js p ++ emitAnnots annots ++ [41])
  | .prim p (some args) annots, f =>
    if (annots.getD []).isEmpty && args.isEmpty then js p
    else 40 :: (js p ++ emitAnnots annots ++ emitArgs (isMultiline args) 1 args f ++ [41])

/-- The arguments of a primitive, each after a separator, `n` levels below the formatter. -/
def emitArgs (multiline : Bool) (n : ℕ) : List Expr → Formatter → JSString
  | [], _ => []
  | a :: as, f =>
    (if multiline then f.lfsp ++ f.indent n ++ emitExpr a (f.down n) else 32 :: emitExpr a f) ++
      emitArgs multiline n as f

/-- An element of a sequence. -/
def emitElem : Expr → Formatter → JSString
  | .prim p none annots, _ => js p ++ emitAnnots annots
  | .prim p (some args) annots, f =>
    js p ++ emitAnnots annots ++ emitArgs (isMultiline args) 2 args f
  | .seq items, f => emitExpr (.seq items) (f.down 1)
  | .string s, f => emitExpr (.string s) (f.down 1)
  | .int text, f => emitExpr (.int text) (f.down 1)
  | .bytes hex, f => emitExpr (.bytes hex) (f.down 1)

/-- The loop of `emitSeq`. -/
def emitElems : List Expr → Formatter → JSString
  | [], _ => []
  | [el], f => f.indent 1 ++ emitElem el f ++ f.lf
  | el :: els, f => f.indent 1 ++ emitElem el f ++ (59 :: f.lfsp) ++ emitElems els f

end

/-- `emitMicheline`. -/
def emitMicheline (expr : Expr) (opt : FormatOptions) : JSString := emitExpr expr ⟨opt, 0⟩

end MichelCodec
