import Csos.Lib.DSeg
import Csos.Lib.Run
import Csos.List
import Csos.ListSeq
import Csos.Task
import Csos.Sync
import Csos.Queues
import Csos.MutexLaw
import Csos.SemLaw
import Csos.Lib.Bytes
import Csos.Bitmap
import Csos.Memory32
import Csos.PageDir
import Csos.AddressSpace
import Csos.Teardown
import Csos.Fork
import Csos.ListSim
import Csos.UserHeap
import Csos.UserHeapLaw
import Csos.Scheduler
import Csos.Timer
import Csos.DescBuff
import Csos.Packet
import Csos.NetQueues
import Csos.Lib.OnesComplement
import Csos.NetBuild
import Csos.NetChecksum
import Csos.NetInput
import Csos.NetDisposal
import Csos.Process
import Csos.Execve
import Csos.TaskSlots
import Csos.ArpMap
import Csos.ArpTable
import Csos.Dhcp
import Csos.TcpSegment
import Csos.TcpSend
import Csos.TcpReceive
import Csos.TcpSyn
import Csos.TcpEstablished
import Csos.TcpIsolation
import Csos.TcpAgreement
import Csos.Lib.Ownership
import Csos.SocketCalls
import Csos.PortTable
import Csos.Lib.Ring
import Csos.Lib.Counter
import Csos.Lib.Semaphore
import Csos.Lib.Census
import Csos.Semaphore
import Csos.RxRing
import Csos.NetinThread
import Csos.Device
import Csos.DeviceLaw
import Csos.Tty
import Csos.TtyOutput
import Csos.Keyboard
import Csos.TtyInput
import Csos.FileTable
import Csos.TtyRoute
import Csos.Terminal
import Csos.TerminalLaw
import Csos.Lib.Loop
import Csos.Lib.Walk
import Csos.Fat
import Csos.FatTree
import Csos.FatPath
import Csos.FatCwd
import Csos.FsLock
import Csos.FatAlloc
import Csos.FatFile
import Csos.FatSeek
import Csos.FatWrite
import Csos.RoundRobin
import Csos.FatRead
import Csos.FatMap
import Csos.Lib.CString
import Csos.Shell
import Csos.ShellLaw
import Csos.ShellHistory
import Csos.UserWrites
import Csos.HeapPages
import Csos.FatNames
import Csos.PathDispatch
import Csos.PageAlloc
import Csos.FatReaddir
import Csos.FatMount
import Csos.DiskDevice
import Csos.Lib.Find
import Csos.FatParent
import Csos.FatOpen
import Csos.FatRemove
import Csos.FatMkdir
import Csos.BitmapRuns
import Csos.BootLoader
import Csos.TaskPages
import Csos.PageCopy
import Csos.HeapCover
import Csos.TtyDrain
import Csos.ProgramLoad
import Csos.ArgsCopy
import Csos.TtyLines
import Csos.TtyEcho
import Csos.KeyPrefix
import Csos.ShellArgs
import Csos.DhcpDecode
import Csos.PingReply
import Csos.ChecksumZero
import Csos.FrameLength
import Csos.TtyQueue
import Csos.Lib.Calendar
import Csos.Time
import Csos.LocalTime
import Csos.Pci
import Csos.PortEnum
import Csos.NextHop
import Csos.SendRoom
import Csos.Lib.Numeral
import Csos.Format
import Csos.FormatLaw
import Csos.FormatItems
import Csos.DottedQuad
import Csos.TxRing
import Csos.Pic
import Csos.PciBar
import Csos.ArpAgreement
import Csos.FatRmdir
import Csos.ShellRedraw
import Csos.Lib.Partition
import Csos.KernelMap
import Csos.Isolation
import Csos.Lib.Period
import Csos.Rtc
