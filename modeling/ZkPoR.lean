import ZkPoR.AttestationHistory
import ZkPoR.Base64Url
import ZkPoR.Binary64
import ZkPoR.BlockLayout
import ZkPoR.BoundedLoop
import ZkPoR.ByteString
import ZkPoR.CanonicalText
import ZkPoR.CheckedInt
import ZkPoR.CircuitSoundness
import ZkPoR.Circuits
import ZkPoR.ConsentAssembly
import ZkPoR.Context
import ZkPoR.ContextAgreement
import ZkPoR.ContextBinding
import ZkPoR.ContextReaders
import ZkPoR.CustomerCheck
import ZkPoR.CustomerFile
import ZkPoR.DecimalText
import ZkPoR.Deployments
import ZkPoR.DisputeAnswers
import ZkPoR.DisputeClient
import ZkPoR.DisputeEligibility
import ZkPoR.DisputeLifecycle
import ZkPoR.DisputeReading
import ZkPoR.DisputeSettlement
import ZkPoR.Disputes
import ZkPoR.DkimKeys
import ZkPoR.EffectLog
import ZkPoR.EmailBinding
import ZkPoR.EmailFields
import ZkPoR.EmailGrammar
import ZkPoR.EmailHeaders
import ZkPoR.EmailPositions
import ZkPoR.EmailReading
import ZkPoR.EmailScan
import ZkPoR.EmailTagReader
import ZkPoR.EmailWitness
import ZkPoR.EmailWitnessAgreement
import ZkPoR.EmailWitnessReads
import ZkPoR.EntryAuthorisation
import ZkPoR.Escrow
import ZkPoR.EventCoverage
import ZkPoR.EventHistory
import ZkPoR.Field
import ZkPoR.FieldText
import ZkPoR.GenerationFiles
import ZkPoR.GenerationHistory
import ZkPoR.GenerationRecord
import ZkPoR.GenerationRun
import ZkPoR.Generator
import ZkPoR.GeneratorAgreement
import ZkPoR.HexText
import ZkPoR.IdentityAgreement
import ZkPoR.Inclusion
import ZkPoR.InclusionVerify
import ZkPoR.InsertionSort
import ZkPoR.Interruption
import ZkPoR.JavaScript
import ZkPoR.JsonLexer
import ZkPoR.JsonText
import ZkPoR.JsonTruncation
import ZkPoR.JsonWriter
import ZkPoR.KeepAlive
import ZkPoR.LastWrite
import ZkPoR.LinePattern
import ZkPoR.Manifest
import ZkPoR.MerkleTree
import ZkPoR.PackageBytes
import ZkPoR.PackageRoundTrip
import ZkPoR.PackageSchema
import ZkPoR.PackageText
import ZkPoR.PackageTree
import ZkPoR.Pagination
import ZkPoR.Poseidon2
import ZkPoR.PublicInputVector
import ZkPoR.Registry
import ZkPoR.RegistryEffect
import ZkPoR.RegistryEndpoint
import ZkPoR.RegistryReads
import ZkPoR.RegistryRun
import ZkPoR.RegistrySimulation
import ZkPoR.RegistryState
import ZkPoR.ReserveObservations
import ZkPoR.ReserveOrder
import ZkPoR.ReserveSets
import ZkPoR.RetainedAnswers
import ZkPoR.RetainedReader
import ZkPoR.RunEndings
import ZkPoR.RunLifecycle
import ZkPoR.RunLock
import ZkPoR.RunStore
import ZkPoR.RunStoreHistory
import ZkPoR.RunningSum
import ZkPoR.SdkAddress
import ZkPoR.SdkDisputeCalls
import ZkPoR.SdkDisputes
import ZkPoR.SdkInclusion
import ZkPoR.SdkPackage
import ZkPoR.SdkTree
import ZkPoR.SerdeJson
import ZkPoR.SerdeWriting
import ZkPoR.SerializedAsset
import ZkPoR.Splitting
import ZkPoR.StoredHistory
import ZkPoR.StoredHistoryPages
import ZkPoR.StrSlice
import ZkPoR.Stringify
import ZkPoR.SubjectText
import ZkPoR.TextLines
import ZkPoR.Transaction
import ZkPoR.TransactionRelation
import ZkPoR.TransitionSystem
import ZkPoR.TreeAgreement
import ZkPoR.TreeShape
import ZkPoR.Trimming
import ZkPoR.TrustRoot
import ZkPoR.TypedStore
import ZkPoR.Watchdog
import ZkPoR.WatchdogCrash
import ZkPoR.WatchdogDeposits
import ZkPoR.WatchdogFiles
import ZkPoR.WatchdogOverlap
import ZkPoR.WatchdogRecord
import ZkPoR.WatchdogRecovery
import ZkPoR.WatchdogRuns
import ZkPoR.WatchdogSequence
