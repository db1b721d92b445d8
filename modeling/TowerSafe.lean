import TowerSafe.Library.Transition
import TowerSafe.Library.LinkedList
import TowerSafe.Memory.Heap
import TowerSafe.Memory.SizeClass
import TowerSafe.Library.Tiling
import TowerSafe.Memory.FreeLists
import TowerSafe.Memory.Layout
import TowerSafe.Memory.Nodes
import TowerSafe.Memory.Operations
import TowerSafe.Memory.Interface
import TowerSafe.Memory.Client
import TowerSafe.Library.FreeList
import TowerSafe.Memory.Membox
import TowerSafe.Memory.Lms
import TowerSafe.Components.PmLock
import TowerSafe.Components.Swtmr
import TowerSafe.Components.Readv
import TowerSafe.Components.Signal
import TowerSafe.Components.Vfs
import TowerSafe.Components.Cond
import TowerSafe.Components.Pipe
import TowerSafe.Components.PipeGates
import TowerSafe.Library.ByteMemory
import TowerSafe.Components.Dynlink
import TowerSafe.Param.TempFile
import TowerSafe.Library.SearchTrie
import TowerSafe.Param.WorkSpace
import TowerSafe.Param.Store
import TowerSafe.Param.Labels
import TowerSafe.Param.SeqLock
import TowerSafe.Param.Cached
import TowerSafe.Kernel.Task
import TowerSafe.Kernel.Calls
import TowerSafe.Kernel.TaskCalls
import TowerSafe.Kernel.Placement
import TowerSafe.Kernel.Step
import TowerSafe.Kernel.Moves
import TowerSafe.Kernel.Switching
import TowerSafe.Kernel.Lifecycle
import TowerSafe.Kernel.WellFormed
import TowerSafe.Kernel.Invariant
import TowerSafe.Kernel.Runs
import TowerSafe.Kernel.EventWait
import TowerSafe.Kernel.Semaphore
import TowerSafe.Samgr.SysCap
import TowerSafe.Samgr.TaskLoop
import TowerSafe.Samgr.PubSub
import TowerSafe.Samgr.Message
import TowerSafe.Samgr.Ownership
import TowerSafe.Samgr.MessageRun
import TowerSafe.Samgr.Publish
import TowerSafe.Library.Ring
import TowerSafe.Param.TriggerQueue
import TowerSafe.Samgr.BootStage
import TowerSafe.Samgr.Bootstrap
import TowerSafe.Library.SortedTable
import TowerSafe.Samgr.SaStore
import TowerSafe.Library.Bytes
import TowerSafe.Huks.KeyImage
import TowerSafe.Huks.Asn1
import TowerSafe.Huks.KeyScan
import TowerSafe.Huks.KeyFile
import TowerSafe.Huks.RootKey
import TowerSafe.Huks.ParamSet
import TowerSafe.Huks.ParamBuild
import TowerSafe.Huks.Session
import TowerSafe.Huks.KeyNode
import TowerSafe.Huks.FileOperator
import TowerSafe.Hdf.Sbuf
import TowerSafe.Hdf.HcsBlob
import TowerSafe.Hdf.HcsTree
import TowerSafe.Hdf.HcsContained
import TowerSafe.Hdf.HcsSearch
import TowerSafe.Components.Mqueue
import TowerSafe.Components.PipeFds
import TowerSafe.Components.Poll
import TowerSafe.Components.Deadline
import TowerSafe.Components.ThreadData
import TowerSafe.Hvb.Parse
import TowerSafe.Hvb.Chain
import TowerSafe.Components.SwtmrIdentity
import TowerSafe.Components.SwtmrTimes
import TowerSafe.Components.TickClock
import TowerSafe.Library.Words
import TowerSafe.Param.TriggerChecker
import TowerSafe.Param.HashMap
import TowerSafe.Samgr.TokenBucket
import TowerSafe.Param.PersistLoad
import TowerSafe.Param.Handle
import TowerSafe.Components.VfsMount
import TowerSafe.Samgr.LockFreeQueue
import TowerSafe.Library.TrieWalk
import TowerSafe.Param.Cmdline
import TowerSafe.Param.Traversal
import TowerSafe.Huks.RootKeyFile
import TowerSafe.Components.LocalTime
import TowerSafe.Huks.KeyBlob
import TowerSafe.Hvb.Sha256
import TowerSafe.Hdf.SbufRead
import TowerSafe.Kernel.MuxNesting
import TowerSafe.Kernel.EventRead
import TowerSafe.Memory.Completeness
import TowerSafe.Memory.DoubleFree
import TowerSafe.Library.Blocks
import TowerSafe.Library.Sha256
import TowerSafe.Kernel.ReadyQueues
