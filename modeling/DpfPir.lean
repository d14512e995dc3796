import DpfPir.LittleEndian
import DpfPir.ParallelLoop
import DpfPir.Words
import DpfPir.GroupElement
import DpfPir.CorrectionTree
import DpfPir.Keys
import DpfPir.Expansion
import DpfPir.EvalAll
import DpfPir.Keygen
import DpfPir.Check
import DpfPir.PointFunction
import DpfPir.Acceptance
import DpfPir.PointEval
import DpfPir.InnerProd
import DpfPir.Retrieval
import DpfPir.Network
import DpfPir.Backpressure
import DpfPir.Wire
import DpfPir.Session
import DpfPir.Dimensions
import DpfPir.Reduction
import DpfPir.Widths
import DpfPir.ComputeHato
import DpfPir.Congruences
import DpfPir.Tampering
import DpfPir.RoundCipher
import DpfPir.AesNi
import DpfPir.Aes
import DpfPir.MemoryPass
import DpfPir.AesBlocks
import DpfPir.Streams
import DpfPir.Prng
import DpfPir.Integrity
import DpfPir.Programs
import DpfPir.Traffic
import DpfPir.Communication
import DpfPir.CorruptPack
import DpfPir.Rendezvous
import DpfPir.Connections
import DpfPir.TestMain
import DpfPir.EvalHeap
import DpfPir.KeygenHeap
