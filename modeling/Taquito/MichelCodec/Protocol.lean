/-!
# Protocols

The protocols `michel-codec` distinguishes, and their order. Two protocols of one level differ by a
late fix only, and are not ordered.
-/

namespace MichelCodec

/-- `Protocol`, by the prefix that is its key; two keys of one hash are one protocol. -/
inductive Protocol where
  | Ps9mPmXa | PtCJ7pwo | PsYLVpVv | PsddFKi3 | Pt24m4xi | PsBABY5H | PsBabyM1 | PsCARTHA | PsDELPH1
  | PtEdoTez | PtEdo2Zk | PsFLoren | PtGRANAD | PtHangzH | PtHangz2 | PsiThaCa | Psithaca2
  | PtJakarta | PtJakart2 | PtKathman | PtLimaPtL | PtMumbaii | PtMumbai2 | ProtoALpha
  deriving DecidableEq, Repr

/-- `DefaultProtocol`. -/
def DefaultProtocol : Protocol := .Psithaca2

/-- `protoLevel`. -/
def protoLevel : Protocol → Nat
  | .Ps9mPmXa => 0
  | .PtCJ7pwo => 1
  | .PsYLVpVv => 2
  | .PsddFKi3 => 3
  | .Pt24m4xi => 4
  | .PsBABY5H => 5
  | .PsBabyM1 => 5
  | .PsCARTHA => 6
  | .PsDELPH1 => 7
  | .PtEdoTez => 8
  | .PtEdo2Zk => 8
  | .PsFLoren => 9
  | .PtGRANAD => 10
  | .PtHangzH => 11
  | .PtHangz2 => 11
  | .PsiThaCa => 12
  | .Psithaca2 => 12
  | .PtJakarta => 13
  | .PtJakart2 => 13
  | .PtKathman => 14
  | .PtLimaPtL => 15
  | .PtMumbaii => 16
  | .PtMumbai2 => 16
  | .ProtoALpha => 17

/-- `ProtoInferiorTo`. -/
def ProtoInferiorTo (a b : Protocol) : Bool := protoLevel a < protoLevel b

end MichelCodec
