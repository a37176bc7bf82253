import Soda.HostIf.Iovecs
import Soda.Flash.Ecc
import Soda.HostIf.DmaCompletions
import Soda.HostIf.StorpuDispatch
import Soda.Storpu.TableOutput
import Soda.Storpu.Aggregate
import Soda.Storpu.IndexOutput
import Soda.Postgres.OffloadScan
import Soda.Postgres.SeqScan
import Soda.Storpu.MetapageCache
import Soda.Storpu.IndexScan
import Soda.Flash.SchedulerRuns
import Soda.Flash.Ringq
import Soda.Unvme.QueueOrder
import Soda.Unvme.CommandDelivery
import Soda.Storpu.RequestAnswers
import Soda.Storpu.LockWakeups
import Soda.Storpu.RwlockRuns
import Soda.Storpu.JoinSafety
import Soda.Storpu.FileTransfers
import Soda.Mirrorfs.ByteArray
import Soda.Storpu.Scratchpad
import Soda.Ftl.ReadModifyWrite
import Soda.Flash.PageNumbers
import Soda.Ftl.Striping
import Soda.Ftl.PlaneRestore
import Soda.Ftl.Segmentation
import Soda.Ftl.NamespaceRuns
import Soda.Ftl.Durability
import Soda.HostIf.DmaCredits
import Soda.HostIf.PrpAgreement
import Soda.HostIf.Zdma
import Soda.Storpu.Images
import Soda.Storpu.Symbols
import Soda.Storpu.Tls
import Soda.Storpu.Vumap
