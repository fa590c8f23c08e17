import PersistentPointsTo.Cache
import PersistentPointsTo.Map
import PersistentPointsTo.Stats
import PersistentPointsTo.PTData
import PersistentPointsTo.DiffPTData
import PersistentPointsTo.VersionedPTData
import PersistentPointsTo.Reverse
import PersistentPointsTo.DFPTData
import PersistentPointsTo.IncDFPTData
import PersistentPointsTo.DirtyFlags
import PersistentPointsTo.BulkTransfer
import PersistentPointsTo.ExactUpdate
import PersistentPointsTo.DiffPropagation
import PersistentPointsTo.StoreSemantics
import PersistentPointsTo.Clear
import PersistentPointsTo.Statistics
import PersistentPointsTo.SolverPass
import PersistentPointsTo.TransferEffect
import PersistentPointsTo.Discipline
import PersistentPointsTo.Agreement
import PersistentPointsTo.PlainSemantics
import PersistentPointsTo.LeastSolution
import PersistentPointsTo.DiffSolver
