import FrameLowering.Lowering.Pairs
import FrameLowering.Main
import FrameLowering.Proofs.ConstantChains
import FrameLowering.Proofs.Int64Range
import FrameLowering.Proofs.RecordFile
import FrameLowering.Proofs.ScratchLiveness
import FrameLowering.Proofs.OffsetFolding
import FrameLowering.Proofs.Expansion
import FrameLowering.Proofs.Watching
import FrameLowering.Proofs.ObjectAccess
import FrameLowering.Proofs.FrameInvariant
import FrameLowering.Proofs.BodyExecution
import FrameLowering.Proofs.SpillChoice
import FrameLowering.Proofs.SlotPlacement
import FrameLowering.Proofs.SavedAreas
import FrameLowering.Proofs.FramePlacement
import FrameLowering.Proofs.FrameCode
import FrameLowering.Proofs.PrologueCode
import FrameLowering.Proofs.InsertedCode
import FrameLowering.Proofs.AreaAccess
import FrameLowering.Proofs.FrameExecution
import FrameLowering.Proofs.Overwriting
import FrameLowering.Proofs.LoweredFrame
import FrameLowering.Proofs.RecordCanonical
import FrameLowering.Proofs.InstructionText
import FrameLowering.Proofs.InsertedLines
import FrameLowering.Proofs.Leftovers
import FrameLowering.Proofs.EncodedOffsets
import FrameLowering.Proofs.FrameBounds
import FrameLowering.Proofs.LoweredExecution
import FrameLowering.Proofs.VisitedLines
import FrameLowering.Proofs.ObjectAddresses
import FrameLowering.Proofs.BodyPoints
import FrameLowering.Proofs.PointerChain
import FrameLowering.Proofs.RecordedFrame
import FrameLowering.Proofs.StackMoves
import FrameLowering.Proofs.FrameParts
import FrameLowering.Proofs.StackDistance
import FrameLowering.Proofs.BuiltFunction
import FrameLowering.Proofs.StackAlignment
import FrameLowering.Proofs.HeadroomPlan
import FrameLowering.Proofs.ScratchFailures
import FrameLowering.Proofs.ScratchHeadroom
import FrameLowering.Proofs.BatchRuns
import FrameLowering.Proofs.ObjectLayout
import FrameLowering.Proofs.ObjectDepths
import FrameLowering.Proofs.KeptOperands
import FrameLowering.Proofs.KeptLines
import FrameLowering.Proofs.EliminatedIndex
import FrameLowering.Proofs.SpillCoverage
import FrameLowering.Proofs.AreaTiling
import FrameLowering.Proofs.DoubleAlignment
import FrameLowering.Proofs.SaveDistance
import FrameLowering.Proofs.CallFrameTracking
import FrameLowering.Proofs.WordAlignment
import FrameLowering.Proofs.BorrowedRegister
import FrameLowering.Proofs.SlotReach
import FrameLowering.Proofs.ConstantParts
import FrameLowering.Proofs.LivePaths
import FrameLowering.Proofs.BuildFaults
import FrameLowering.Proofs.WellFormedConventions
import FrameLowering.Proofs.VerifiedImmediates
import FrameLowering.Proofs.FrameMapTiling
import FrameLowering.Proofs.SizeEstimate
import FrameLowering.Proofs.OffsetRange
import FrameLowering.Proofs.ReplacedStorage
import FrameLowering.Proofs.WalkRounds
import FrameLowering.Proofs.LineLabels
import FrameLowering.Proofs.WalkTermination
import FrameLowering.Proofs.PairHints
