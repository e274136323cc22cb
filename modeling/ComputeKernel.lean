import ComputeKernel.Main
import ComputeKernel.Proofs.AbandonedFunctions
import ComputeKernel.Proofs.AbandonedScopes
import ComputeKernel.Proofs.AccessPaths
import ComputeKernel.Proofs.AtomicAttempts
import ComputeKernel.Proofs.BindlessSpaces
import ComputeKernel.Proofs.CacheContents
import ComputeKernel.Proofs.DeclaredArrays
import ComputeKernel.Proofs.DeclaredStructs
import ComputeKernel.Proofs.DisplayNames
import ComputeKernel.Proofs.DivergenceReachability
import ComputeKernel.Proofs.EmissionMeaning
import ComputeKernel.Proofs.EmissionOrder
import ComputeKernel.Proofs.ExitedBlocks
import ComputeKernel.Proofs.ExitedLoops
import ComputeKernel.Proofs.FloatSpelling
import ComputeKernel.Proofs.LanePartition
import ComputeKernel.Proofs.ManifestDocument
import ComputeKernel.Proofs.MaskedBranches
import ComputeKernel.Proofs.BoundNames
import ComputeKernel.Proofs.OperandTypes
import ComputeKernel.Proofs.WholeWaves
import ComputeKernel.Proofs.WrittenSettings
