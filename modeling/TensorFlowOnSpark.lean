import TensorFlowOnSpark.CommonRuntime.BfcHistory
import TensorFlowOnSpark.CommonRuntime.BfcGrants
import TensorFlowOnSpark.CommonRuntime.BfcServed
import TensorFlowOnSpark.CommonRuntime.ColocationClasses
import TensorFlowOnSpark.CommonRuntime.ExecutorTracking
import TensorFlowOnSpark.CommonRuntime.ExecutorLoopFreeHistory
import TensorFlowOnSpark.CommonRuntime.InlineFunctionOrder
import TensorFlowOnSpark.CommonRuntime.PendingCountsTable
import TensorFlowOnSpark.CommonRuntime.RemoveIdentityRuns
import TensorFlowOnSpark.DistributedRuntime.GrpcTensorCoding
import TensorFlowOnSpark.Feeding.Inference
import TensorFlowOnSpark.Framework.Broadcast
import TensorFlowOnSpark.Framework.ConcatShape
import TensorFlowOnSpark.Framework.OpDefUpgrade
import TensorFlowOnSpark.Framework.RendezvousKey
import TensorFlowOnSpark.Framework.RendezvousRuns
import TensorFlowOnSpark.Framework.ShapeMerge
import TensorFlowOnSpark.Framework.TensorCodingRoundTrip
import TensorFlowOnSpark.Framework.TensorShapeObjects
import TensorFlowOnSpark.Framework.TensorShapeMutators
import TensorFlowOnSpark.Framework.WindowedOutputSize
import TensorFlowOnSpark.Graph.ControlEdges
import TensorFlowOnSpark.Graph.GraphConstructorOutputs
import TensorFlowOnSpark.Graph.GraphObjectsRuns
import TensorFlowOnSpark.Graph.SubgraphRewrite
import TensorFlowOnSpark.Gtl.EditDistance
import TensorFlowOnSpark.Io.SnappyBuffers
import TensorFlowOnSpark.Kernels.FifoQueueCancellation
import TensorFlowOnSpark.Kernels.QueueCompletion
import TensorFlowOnSpark.Kernels.PriorityQueueSmallBatch
import TensorFlowOnSpark.Kernels.RandomShuffleQueueRuns
import TensorFlowOnSpark.Kernels.SparseAccumulatorRuns
import TensorFlowOnSpark.Kernels.StridedSliceOpPaths
import TensorFlowOnSpark.Random.RandomOp
import TensorFlowOnSpark.Rdma.BufferTable
import TensorFlowOnSpark.Rdma.DeadLive
import TensorFlowOnSpark.Rdma.MessageBuffer
import TensorFlowOnSpark.Rdma.Setup
import TensorFlowOnSpark.Rdma.Codec
import TensorFlowOnSpark.Rdma.Exclusive
import TensorFlowOnSpark.Reservation.Protocol
import TensorFlowOnSpark.Reservation.MessageSocket
import TensorFlowOnSpark.Strings.OrderedCodeSigned
import TensorFlowOnSpark.Summary.Reservoir
import TensorFlowOnSpark.Util.FastParseExample
import TensorFlowOnSpark.Util.DeviceNameMerge
import TensorFlowOnSpark.Util.ExampleAgreement
import TensorFlowOnSpark.Util.SparseSplit
import TensorFlowOnSpark.Util.StridedSliceIndexing
import TensorFlowOnSpark.Util.TensorBundle
