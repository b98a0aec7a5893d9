import AvailCore.Foundation.Run
import AvailCore.Core.DataLookup
import AvailCore.Foundation.Chunks
import AvailCore.Foundation.Codec
import AvailCore.Foundation.Fourier
import AvailCore.Foundation.Grouping
import AvailCore.Core.CompactDataLookup
import AvailCore.Foundation.Lucas
import AvailCore.Recovery.Scalar
import AvailCore.Foundation.ErasureCode
import AvailCore.Recovery.Ark
import AvailCore.Recovery.Column
import AvailCore.Recovery.Unflatten
import AvailCore.Recovery.Reconstruct
import AvailCore.Recovery.Commitments
import AvailCore.Recovery.Proof
import AvailCore.Kate.BlockDims
import AvailCore.Kate.Flatten
import AvailCore.Foundation.DMatrix
import AvailCore.Kate.EvaluationGrid
import AvailCore.Kate.PolynomialGrid
import AvailCore.Recovery.CellProof
import AvailCore.Recovery.Scheme
import AvailCore.Kate.BuildProof
import AvailCore.Kate.Multiproof
import AvailCore.Kate.AppRows
import AvailCore.Kate.Layouts
import AvailCore.Core.Asdr
import AvailCore.Core.Message
import AvailCore.Recovery.AppData
import AvailCore.Recovery.Undetermined
import AvailCore.Recovery.RangeBounds
import AvailCore.Kate.DecodeApp
import AvailCore.Kate.Padding
import AvailCore.Recovery.AppPositions
import AvailCore.Recovery.Rows
import AvailCore.Kate.CellOpening
import AvailCore.Foundation.Interleave
import AvailCore.Kate.ProofRuns
import AvailCore.Kate.ScalarRows
import AvailCore.Recovery.Sizes
import AvailCore.Foundation.Rounding
import AvailCore.Recovery.Partitions
import AvailCore.Foundation.Reader
import AvailCore.Recovery.SparseRead
import AvailCore.Recovery.Numbering
import AvailCore.Recovery.CellMaps
import AvailCore.Kate.Sampling
import AvailCore.Kate.VerifiedRows
import AvailCore.Kate.Blocks
import AvailCore.Core.Relay
import AvailCore.Core.DataProof
import AvailCore.Core.Header
import AvailCore.Kate.HeaderClient
import AvailCore.Recovery.Positions
import AvailCore.Kate.AskedCells
import AvailCore.Kate.VerifiedBlocks
import AvailCore.Core.SignedPayload
import AvailCore.Kate.Transactions
import AvailCore.Kate.JoinedRows
import AvailCore.Foundation.Coder
import AvailCore.Core.DaBlock
import AvailCore.Kate.PartitionClients
