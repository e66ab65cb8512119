import DieselDualdb.Ast
import DieselDualdb.Lib.FallibleRun
import DieselDualdb.Lib.Pointwise
import DieselDualdb.Lib.RustStr
import DieselDualdb.Lib.FirstUpdate
import DieselDualdb.TypeMap
import DieselDualdb.SchemaModel
import DieselDualdb.SchemaRender
import DieselDualdb.Migration
import DieselDualdb.SegmentProofs
import DieselDualdb.RewriteProofs
import DieselDualdb.AcceptanceProofs
import DieselDualdb.SquashProofs
import DieselDualdb.SqlText
import DieselDualdb.Lib.FileTree
import DieselDualdb.Outputs
import DieselDualdb.OutputsProofs
import DieselDualdb.OrderProofs
import DieselDualdb.Lib.Terminators
import DieselDualdb.BoundaryProofs
import DieselDualdb.AddColumnProofs
import DieselDualdb.SkeletonProofs
import DieselDualdb.DownScriptProofs
import DieselDualdb.TypeLeakProofs
import DieselDualdb.EscapeHatchProofs
import DieselDualdb.HistoryProofs
import DieselDualdb.DanglingProofs
import DieselDualdb.GuardProofs
import DieselDualdb.KeyProofs
import DieselDualdb.Lib.Calendar
import DieselDualdb.Lib.FixedDigits
import DieselDualdb.Timestamp
import DieselDualdb.TimestampProofs
import DieselDualdb.Lib.TextOrder
import DieselDualdb.TimestampTextProofs
import DieselDualdb.Decimal
import DieselDualdb.DecimalProofs
import DieselDualdb.Pool
import DieselDualdb.PoolProofs
import DieselDualdb.Catalog
import DieselDualdb.CatalogNames
import DieselDualdb.EmittedRun
import DieselDualdb.NameProofs
import DieselDualdb.CaseProofs
import DieselDualdb.CatalogSimulation
import DieselDualdb.Lib.RestrictDrop
import DieselDualdb.AgreementProofs
import DieselDualdb.NullabilityProofs
import DieselDualdb.DownProofs
import DieselDualdb.CatalogLinks
import DieselDualdb.JoinProofs
import DieselDualdb.CoherenceProofs
import DieselDualdb.Lib.RustIdents
import DieselDualdb.SchemaFileProofs
import DieselDualdb.FreshnessProofs
import DieselDualdb.ImportProofs
import DieselDualdb.DualEnum
import DieselDualdb.DualEnumProofs
import DieselDualdb.Lib.KeyedRuns
import DieselDualdb.LocalityProofs
import DieselDualdb.Lib.AdditionLog
import DieselDualdb.ColumnHistoryProofs
import DieselDualdb.Lib.WritePlan
import DieselDualdb.Invocation
import DieselDualdb.RefusalProofs
import DieselDualdb.RecoveryProofs
import DieselDualdb.ReadBackProofs
import DieselDualdb.LockstepProofs
import DieselDualdb.RespellingProofs
import DieselDualdb.RegenerationProofs
import DieselDualdb.Lib.UndoRuns
import DieselDualdb.RevertProofs
import DieselDualdb.Lib.SqliteStorage
import DieselDualdb.Portable
import DieselDualdb.StorageProofs
import DieselDualdb.Lib.Positions
import DieselDualdb.Lib.TwoViews
import DieselDualdb.CatalogFrame
import DieselDualdb.BranchProofs
