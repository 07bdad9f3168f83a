import Altibase.Lib.System
import Altibase.Sml.LockMgr
import Altibase.Sml.Group
import Altibase.Sml.Own
import Altibase.Sml.Safety
import Altibase.Sml.Unlink
import Altibase.Sml.Counters
import Altibase.Sml.Undo
import Altibase.Sml.PartialUnlock
import Altibase.Sml.DistDeadlock
import Altibase.Sml.WaitTable
import Altibase.Idu.Heap
import Altibase.Sdb.CPListSet
import Altibase.Sdb.LRUList
import Altibase.Rpr.SNMap
import Altibase.Rpr.MaxSN
import Altibase.Rpx.TransGroups
import Altibase.Smx.Savepoint
import Altibase.Smx.MinSCNBuild
import Altibase.Smx.TimeSCN
import Altibase.Smx.ExpSavepoint
import Altibase.Sdp.BitRotate
import Altibase.Sdp.ExtentRun
import Altibase.Sdp.FreeExtPage
import Altibase.Sdp.PhyPage
import Altibase.Sdpst.FreeSpace
import Altibase.Qmo.Estimate
import Altibase.Qmo.CSECorrect
import Altibase.Qmo.RangeShape
import Altibase.Mtc.Round
import Altibase.Mtc.RoundFloat
import Altibase.Mtc.Slong
import Altibase.Mtc.Multiply
import Altibase.Mtc.Mod
import Altibase.Mtc.Add
import Altibase.Mtc.Subtract
import Altibase.Mtd.NumericKey
import Altibase.Mtd.DateAdd
import Altibase.Mtd.DateDiff
import Altibase.Mtk.MergeOrRange
import Altibase.Mtk.IndexKey
import Altibase.Mtf.LikeRange
import Altibase.Mtf.LikeCorrect
import Altibase.Smnb.Unique
import Altibase.Smnb.DirectKey
import Altibase.Lib.SortedValues
import Altibase.Smnb.IndexStat
import Altibase.Idu.Compression
import Altibase.Idu.CompressionCode
import Altibase.Idu.CompressionRoundTrip
