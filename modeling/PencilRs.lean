import PencilRs.Analysis.ActiveArray
import PencilRs.Analysis.Agreement
import PencilRs.Analysis.Alltoallv
import PencilRs.Analysis.AxisLines
import PencilRs.Analysis.AxisTransforms
import PencilRs.Analysis.Broadcast
import PencilRs.Analysis.C2cCalls
import PencilRs.Analysis.C2cKernels
import PencilRs.Analysis.C2cNd
import PencilRs.Analysis.C2cPlan
import PencilRs.Analysis.C2cRun
import PencilRs.Analysis.Catalog
import PencilRs.Analysis.CheckedFold
import PencilRs.Analysis.Chunked
import PencilRs.Analysis.Codec
import PencilRs.Analysis.CollectiveLayout
import PencilRs.Analysis.Container
import PencilRs.Analysis.ContainerAppend
import PencilRs.Analysis.ContainerCatalog
import PencilRs.Analysis.ContainerFormat
import PencilRs.Analysis.ContainerImage
import PencilRs.Analysis.ContainerLimit
import PencilRs.Analysis.ContainerLog
import PencilRs.Analysis.ContainerScan
import PencilRs.Analysis.Descriptor
import PencilRs.Analysis.DescriptorWords
import PencilRs.Analysis.Dht
import PencilRs.Analysis.DistributedDft
import PencilRs.Analysis.Distribution
import PencilRs.Analysis.ExchangeCounts
import PencilRs.Analysis.FftCalls
import PencilRs.Analysis.FftDescriptors
import PencilRs.Analysis.FftPipeline
import PencilRs.Analysis.FftPlan
import PencilRs.Analysis.FftRoute
import PencilRs.Analysis.FileBytes
import PencilRs.Analysis.FileCollectives
import PencilRs.Analysis.FileLayout
import PencilRs.Analysis.Gather
import PencilRs.Analysis.GatherMetadata
import PencilRs.Analysis.GatherRun
import PencilRs.Analysis.GlobalBlocks
import PencilRs.Analysis.GlobalOrder
import PencilRs.Analysis.Hdf5Catalog
import PencilRs.Analysis.Hdf5Files
import PencilRs.Analysis.Hdf5Inspect
import PencilRs.Analysis.Hdf5Layout
import PencilRs.Analysis.Hdf5Leaf
import PencilRs.Analysis.Hdf5Metadata
import PencilRs.Analysis.Hdf5RoundTrip
import PencilRs.Analysis.Hdf5Tree
import PencilRs.Analysis.Hdf5Walk
import PencilRs.Analysis.Header
import PencilRs.Analysis.HeaderCanonical
import PencilRs.Analysis.HeaderRoundTrip
import PencilRs.Analysis.HeaderWrite
import PencilRs.Analysis.InPlace
import PencilRs.Analysis.InputOrder
import PencilRs.Analysis.Layout
import PencilRs.Analysis.LineLoops
import PencilRs.Analysis.LocalGrid
import PencilRs.Analysis.LocalR2c
import PencilRs.Analysis.LocalTranspose
import PencilRs.Analysis.LocalTransposePaths
import PencilRs.Analysis.Many
import PencilRs.Analysis.Messages
import PencilRs.Analysis.MpiPhases
import PencilRs.Analysis.NativeRuns
import PencilRs.Analysis.Norm
import PencilRs.Analysis.Overlap
import PencilRs.Analysis.OwnedArray
import PencilRs.Analysis.OwnerSearch
import PencilRs.Analysis.Ownership
import PencilRs.Analysis.Pack
import PencilRs.Analysis.Partition
import PencilRs.Analysis.Pass
import PencilRs.Analysis.PermutedLines
import PencilRs.Analysis.Plan
import PencilRs.Analysis.PointToPoint
import PencilRs.Analysis.Pointwise
import PencilRs.Analysis.PointwiseInPlace
import PencilRs.Analysis.Preflight
import PencilRs.Analysis.R2cRows
import PencilRs.Analysis.R2r
import PencilRs.Analysis.R2rEmbedding
import PencilRs.Analysis.R2rKernels
import PencilRs.Analysis.Ranks
import PencilRs.Analysis.Redistribution
import PencilRs.Analysis.Refinement
import PencilRs.Analysis.RegionCopy
import PencilRs.Analysis.RegionReference
import PencilRs.Analysis.SelfRegion
import PencilRs.Analysis.StoreAppend
import PencilRs.Analysis.StoreHistory
import PencilRs.Analysis.StorePhases
import PencilRs.Analysis.StoreSteps
import PencilRs.Analysis.StoreWrite
import PencilRs.Analysis.StridedDiffering
import PencilRs.Analysis.StridedKernels
import PencilRs.Analysis.StridedLines
import PencilRs.Analysis.Strides
import PencilRs.Analysis.Sums
import PencilRs.Analysis.Transition
import PencilRs.Analysis.Traversals
import PencilRs.Analysis.Unpacking
import PencilRs.Analysis.Walk
import PencilRs.Analysis.WalkReference
import PencilRs.Computation.AxisMap
import PencilRs.Computation.BlockPartition
import PencilRs.Computation.Buffer
import PencilRs.Computation.Bytes
import PencilRs.Computation.Channels
import PencilRs.Computation.Combine
import PencilRs.Computation.CosineSums
import PencilRs.Computation.Delimited
import PencilRs.Computation.Dft
import PencilRs.Computation.Exchange
import PencilRs.Computation.Forest
import PencilRs.Computation.Hyperslab
import PencilRs.Computation.KernelLines
import PencilRs.Computation.Lines
import PencilRs.Computation.Literals
import PencilRs.Computation.Lockstep
import PencilRs.Computation.Loop
import PencilRs.Computation.MessagePassing
import PencilRs.Computation.MixedRadix
import PencilRs.Computation.Rounds
import PencilRs.Computation.ScaledSquares
import PencilRs.Computation.Selection
import PencilRs.Computation.Tiling
import PencilRs.Computation.Together
import PencilRs.Computation.Translate
import PencilRs.Computation.Unflushed
import PencilRs.Computation.Update
import PencilRs.Model.Axis
import PencilRs.Model.Broadcast
import PencilRs.Model.C2c
import PencilRs.Model.C2cNd
import PencilRs.Model.Catalog
import PencilRs.Model.Chunked
import PencilRs.Model.Codec
import PencilRs.Model.Collectives
import PencilRs.Model.Container
import PencilRs.Model.ContainerScan
import PencilRs.Model.ContainerStore
import PencilRs.Model.ContainerWrite
import PencilRs.Model.Descriptor
import PencilRs.Model.Dht
import PencilRs.Model.Distributed
import PencilRs.Model.Element
import PencilRs.Model.FftDescriptors
import PencilRs.Model.FftPass
import PencilRs.Model.FftPlan
import PencilRs.Model.FftRoute
import PencilRs.Model.FileCollectives
import PencilRs.Model.Gather
import PencilRs.Model.Geometry
import PencilRs.Model.Hdf5Catalog
import PencilRs.Model.Hdf5Payload
import PencilRs.Model.Hdf5Schema
import PencilRs.Model.Hdf5Session
import PencilRs.Model.Header
import PencilRs.Model.HeaderAccess
import PencilRs.Model.IoDescriptor
import PencilRs.Model.LocalC2c
import PencilRs.Model.LocalGrid
import PencilRs.Model.LocalR2c
import PencilRs.Model.LocalTranspose
import PencilRs.Model.Machine
import PencilRs.Model.Many
import PencilRs.Model.MpiFile
import PencilRs.Model.MpiProtocol
import PencilRs.Model.Norm
import PencilRs.Model.Overlap
import PencilRs.Model.Overwrite
import PencilRs.Model.Pencil
import PencilRs.Model.PointwiseInPlace
import PencilRs.Model.R2r
import PencilRs.Model.RegionReference
import PencilRs.Model.RegionWalk
import PencilRs.Model.SpatialRemap
import PencilRs.Model.StridedLines
import PencilRs.Model.StridedReal
import PencilRs.Model.Topology
import PencilRs.Model.Transport
import PencilRs.Model.Transpose
import PencilRs.Model.TransposePlan
import PencilRs.Model.View
