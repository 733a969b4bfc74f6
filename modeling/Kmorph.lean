import Kmorph.Libc
import Kmorph.Scanning
import Kmorph.Fallible
import Kmorph.SpanSets
import Kmorph.Histories
import Kmorph.BigEndian
import Kmorph.Extents
import Kmorph.Records
import Kmorph.RangesCore
import Kmorph.Ranges
import Kmorph.IomemCore
import Kmorph.Iomem
import Kmorph.TakeoverCore
import Kmorph.Takeover
import Kmorph.NetsnapCore
import Kmorph.Netsnap
import Kmorph.CollectCore
import Kmorph.Collect
import Kmorph.ApplyCore
import Kmorph.Apply
import Kmorph.RtnlCore
import Kmorph.Rtnl
import Kmorph.RequestCore
import Kmorph.Requests
import Kmorph.DaemonCore
import Kmorph.Daemon
import Kmorph.Retries
import Kmorph.Replies
import Kmorph.HostTreeCore
import Kmorph.HostTree
import Kmorph.DumpCore
import Kmorph.ImageCore
import Kmorph.Image
import Kmorph.Dump
import Kmorph.Elfcore
import Kmorph.PageOffset
import Kmorph.Vmcore
import Kmorph.Chunks
import Kmorph.Notes
import Kmorph.MadtCore
import Kmorph.Madt
import Kmorph.ParseCore
import Kmorph.Parse
import Kmorph.ConfigCore
import Kmorph.Config
import Kmorph.TakeableCore
import Kmorph.OpsCore
import Kmorph.Plan
import Kmorph.Devices
import Kmorph.Preserve
import Kmorph.FreezeCore
import Kmorph.Freeze
import Kmorph.UpgradeCore
import Kmorph.Upgrade
import Kmorph.Thaw
import Kmorph.KmorphdCore
import Kmorph.DaemonRules
import Kmorph.Handover
import Kmorph.Spared
import Kmorph.PoolClaims
import Kmorph.Identity
import Kmorph.PoolCore
import Kmorph.Pool
import Kmorph.WatchCore
import Kmorph.Framing
import Kmorph.Watch
import Kmorph.Hexadecimal
import Kmorph.Newc
import Kmorph.CpioCore
import Kmorph.Cpio
import Kmorph.ArmCore
import Kmorph.Interfaces
import Kmorph.Initrd
import Kmorph.OverlayCore
import Kmorph.Overlays
import Kmorph.MountTrees
import Kmorph.Lookups
import Kmorph.StandbyCore
import Kmorph.Mounting
import Kmorph.Stretches
import Kmorph.Standby
import Kmorph.Brackets
import Kmorph.FdtCore
import Kmorph.FdtWriterCore
import Kmorph.FdtLayout
import Kmorph.FdtReader
import Kmorph.FdtTrees
import Kmorph.FdtWriter
import Kmorph.FdtFinish
import Kmorph.Fdt
import Kmorph.FdtPoolCore
import Kmorph.FdtPool
import Kmorph.FdtSafety
import Kmorph.DtCore
import Kmorph.Dt
import Kmorph.MachineCore
import Kmorph.Machine
import Kmorph.MkfsCore
import Kmorph.Mkfs
import Kmorph.LifecycleCore
import Kmorph.Lifecycle
import Kmorph.Cmdline
import Kmorph.BootCore
import Kmorph.Boot
import Kmorph.Unpacking
import Kmorph.InstallCore
import Kmorph.Install
import Kmorph.RtnlSocketCore
import Kmorph.RtnlSocket
