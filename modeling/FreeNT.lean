import FreeNT.Cmlib.HivePersist
import FreeNT.Cmlib.HiveRoundTrip
import FreeNT.FsRtl.LockCheck
import FreeNT.FsRtl.SharedRanges
import FreeNT.Se.MaximumAccess
import FreeNT.Rtl.TableOrder
import FreeNT.Rtl.TableRefine
import FreeNT.FsRtl.TunnelRun
import FreeNT.FsRtl.McbTruncate
import FreeNT.FsRtl.McbEnumerate
import FreeNT.Rtl.AclRun
import FreeNT.Rtl.SdRoundTrip
import FreeNT.Rtl.PrefixTable
import FreeNT.Rtl.Atom
import FreeNT.Rtl.RangeList
import FreeNT.Rtl.PrefixWalk
import FreeNT.Ob.DirectoryQuery
import FreeNT.FsRtl.OplockWait
import FreeNT.Mm.PfnRun
import FreeNT.Ex.HandleDup
import FreeNT.Ke.QueueRun
import FreeNT.Mm.PoolLists
import FreeNT.Mm.PoolExpansion
import FreeNT.Mm.BasedTree
import FreeNT.Rtl.BitmapBackward
import FreeNT.Rtl.BitmapRuns
import FreeNT.Rtl.BitmapRanges
import FreeNT.Rtl.BitmapAlloc
import FreeNT.Se.PrivilegeCheck
import FreeNT.Config.KeyName
