import WarehousePG.Anchor.NeverStale
import WarehousePG.Anchor.FileFormat
import WarehousePG.Anchor.RelationVersions
import WarehousePG.Anchor.Install
import WarehousePG.Dtm.Atomicity
import WarehousePG.Dtm.SnapshotCut
import WarehousePG.Dtm.Standby
import WarehousePG.Dtm.LocalMapping
import WarehousePG.Gdd.Break
import WarehousePG.DistributedLog.Horizon
import WarehousePG.Interconnect.Window
import WarehousePG.Fts.Timeout
import WarehousePG.Fts.Failover
import WarehousePG.ResGroup.Segment
import WarehousePG.ResGroup.Admission
import WarehousePG.ResQueue.Accounting
import WarehousePG.Runaway.UnlockedReads
import WarehousePG.Vmem.Conservation
import WarehousePG.ShareInput.Completion
import WarehousePG.Orca.DerivationGuard
import WarehousePG.Orca.Factorizer
import WarehousePG.Orca.EquivClasses
import WarehousePG.Distribution.CdbHash
import WarehousePG.AppendOnly.BufferedRead
import WarehousePG.AppendOnly.BlockDirectory
import WarehousePG.Interconnect.ProxyCache
import WarehousePG.Partition.ImplicitBounds
import WarehousePG.ResGroup.Cpuset
import WarehousePG.AppendOnly.BitmapCompression
import WarehousePG.AppendOnly.VisimapScan
import WarehousePG.DatumStream.Int32Compress
import WarehousePG.BitmapIndex.InsertWords
