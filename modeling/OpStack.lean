import OpStack.Proofs.BatchStageFetch
import OpStack.Proofs.PendingBytes
import OpStack.Proofs.QueuedBlocks
import OpStack.Proofs.ChannelSubmission
import OpStack.Proofs.BatcherOutput
import OpStack.Proofs.SpanBuffer
import OpStack.Proofs.ChannelAssembly
import OpStack.Proofs.ChannelBank
import OpStack.Proofs.SpanRefinement
import OpStack.Proofs.SequencingWindow
import OpStack.Proofs.ResetRewind
import OpStack.Proofs.L1Data
import OpStack.Proofs.SyncTermination
import OpStack.Proofs.SyncSuccess
import OpStack.Proofs.Finalizer
import OpStack.Proofs.OriginSelector
import OpStack.Proofs.ActionRules
import OpStack.Proofs.CycleBlame
import OpStack.Proofs.InvalidationApplied
import OpStack.Proofs.LeastReplacement
import OpStack.Proofs.CurrentL1
import OpStack.Proofs.L1Inclusion
import OpStack.Proofs.AuthorityHeads
import OpStack.Proofs.ServedBlocks
import OpStack.Proofs.RewoundStores
import OpStack.Proofs.InvalidatedCandidates
import OpStack.Proofs.ReplacedBlocks
import OpStack.Proofs.HazardCollection
import OpStack.Proofs.InvalidTransition
import OpStack.Proofs.FramePruning
import OpStack.Proofs.SyncedQueue
import OpStack.Proofs.SafeHeads
import OpStack.Proofs.DepositLog
import OpStack.Proofs.ForceClose
import OpStack.Proofs.HiLo
import OpStack.Proofs.MerkleTree
import OpStack.Proofs.EngineHeads
import OpStack.Proofs.PayloadInsertion
