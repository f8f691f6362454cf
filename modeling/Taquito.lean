import Taquito.LocalForging.MichelsonRoundTrip
import Taquito.Agreement.Decoders
import Taquito.Agreement.Encoders
import Taquito.Js.Json
import Taquito.MichelCodec.Acceptance
import Taquito.MichelCodec.Emitter
import Taquito.MichelCodec.PairMacros
import Taquito.MichelCodec.TextRoundTrip
import Taquito.Operations.Emitter
import Taquito.BigMaps.MissingKeys
import Taquito.Heads.Confirmations
import Taquito.Lib.Async
import Taquito.Lib.PerfectTree
import Taquito.Lib.Traced
import Taquito.MichelsonEncoder.BaseTokens
import Taquito.MichelsonEncoder.LabelAgreement
import Taquito.Operations.Concurrent
import Taquito.Operations.SendPath
import Taquito.Sapling.Conservation
import Taquito.Sapling.State
import Taquito.Signer.Derivation
import Taquito.Signer.KeyDerivation
import Taquito.Tzip16.StorageView
import Taquito.MichelCodec.Annotations
import Taquito.Lib.Sorting
import Taquito.MichelsonEncoder.Alternatives
import Taquito.MichelsonEncoder.BigMapKeys
import Taquito.MichelsonEncoder.KeyOrder
import Taquito.MichelsonEncoder.KeyPacking
import Taquito.MichelsonEncoder.KeySorting
import Taquito.LocalForging.Identifiers
import Taquito.MichelCodec.AccessMacros
import Taquito.MichelCodec.Expansion
import Taquito.MichelCodec.GlobalConstants
import Taquito.MichelCodec.PairNames
import Taquito.Host.Crypto
import Taquito.MichelCodec.CombForms
import Taquito.MichelsonEncoder.Positional
import Taquito.Signer.Signing
import Taquito.Signer.SigningAgreement
import Taquito.Lib.InsertionMap
import Taquito.MichelCodec.TypeForms
import Taquito.MichelsonEncoder.MichelsonMap
import Taquito.Sapling.Plaintext
import Taquito.Sapling.StateCache
import Taquito.Sapling.Witness
import Taquito.MichelCodec.LongInteger
import Taquito.MichelsonEncoder.RootAnnotation
import Taquito.Typechecker.Code
import Taquito.Typechecker.Timestamps
import Taquito.Lib.Throws
import Taquito.Typechecker.CombLens
import Taquito.Typechecker.Sections
import Taquito.Agreement.Validators
import Taquito.Estimates.Fees
import Taquito.Ledger.Paths
import Taquito.Ledger.Signing
import Taquito.Lib.TimedCache
import Taquito.MichelsonEncoder.TopLevelPairs
import Taquito.Operations.Batch
import Taquito.Rpc.Cache
import Taquito.Signer.SecretKeys
import Taquito.Tzip16.SharedCode
import Taquito.Utils.AddressBytes
import Taquito.Agreement.Integers
import Taquito.Host.Rounding
import Taquito.Js.Uri
import Taquito.Lib.Regex
import Taquito.LocalForging.CallParameters
import Taquito.LocalForging.Operations
import Taquito.LocalForging.Zarith
import Taquito.MichelsonEncoder.Signatures
import Taquito.Subscribe.Deliveries
import Taquito.Tzip16.MetadataUri
import Taquito.Wallet.Receipt
import Taquito.MichelCodec.Base58
import Taquito.MichelCodec.HexParsing
import Taquito.MichelsonEncoder.Constants
import Taquito.Operations.Origination
import Taquito.Utils.TwosComplement
import Taquito.LocalForging.Batches
import Taquito.LocalForging.RoundTrip
import Taquito.Typechecker.ContractSoundness
import Taquito.MichelCodec.TypedPacking
