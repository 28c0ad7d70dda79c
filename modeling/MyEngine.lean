import MyEngine.Support.Runs
import MyEngine.Support.Tally
import MyEngine.Rtti.SharedState
import MyEngine.Rtti.Ptr
import MyEngine.Rtti.PtrRelease
import MyEngine.Rtti.PtrAssign
import MyEngine.Rtti.ReferenceCounts
import MyEngine.Io.FsPath
import MyEngine.Io.VirtualFileSystem
import MyEngine.Io.Exists
import MyEngine.Io.DirIterator
import MyEngine.Io.DirListing
import MyEngine.Io.ListDirectory
import MyEngine.Network.HttpParser
import MyEngine.Network.HeaderLines
import MyEngine.Debug.DapPacket
import MyEngine.Async.CoreTask
import MyEngine.Async.Resolve
import MyEngine.Async.Await
import MyEngine.Async.WhenAll
import MyEngine.Async.WhenAllInv
import MyEngine.Async.WhenAllResult
import MyEngine.Async.WhenAllReset
import MyEngine.Async.ThreadPool
import MyEngine.Service.Dependencies
import MyEngine.Service.InitOrder
import MyEngine.Service.ShutdownOrder
import MyEngine.Async.WorkQueue
import MyEngine.Threading.SpinLock
import MyEngine.Utils.Cancellation
import MyEngine.Support.OneShot
import MyEngine.Utils.CancellationOnce
import MyEngine.Utils.Expiration
import MyEngine.Utils.ExpirationLocks
import MyEngine.Utils.ExpirationOnce
import MyEngine.Serialization.Json
import MyEngine.Serialization.RuntimeValue
import MyEngine.Serialization.JsonRoundTrip
import MyEngine.Serialization.Assign
import MyEngine.Serialization.NativeContainer
import MyEngine.Serialization.AssignInteger
import MyEngine.Serialization.AssignWrappers
import MyEngine.Serialization.JsonMerge
import MyEngine.App.PropertyContainer
import MyEngine.App.PropertyWalk
import MyEngine.App.PropertyAtomic
import MyEngine.App.PropertyRead
import MyEngine.App.PropertySet
import MyEngine.Support.Chains
import MyEngine.App.PropertyExpand
import MyEngine.Async.ThreadPoolJoin
import MyEngine.Threading.Barrier
import MyEngine.Io.MountCalls
import MyEngine.Io.OpenFile
import MyEngine.Containers.IntrusiveList
import MyEngine.Containers.IntrusiveListLinks
import MyEngine.Containers.IntrusiveListRuns
import MyEngine.Memory.Buffer
import MyEngine.Memory.BufferCounts
import MyEngine.Memory.BufferRuns
import MyEngine.Lua.RuntimeValue
import MyEngine.Lua.RoundTrip
import MyEngine.Async.MultiTaskSource
import MyEngine.Async.MultiTaskSourceRuns
import MyEngine.Async.TaskCollection
import MyEngine.Async.TaskCollectionRuns
import MyEngine.Async.Reentry
import MyEngine.Async.ReentryObjects
import MyEngine.Modules.ModuleManager
import MyEngine.Runtime.KernelRuntime
import MyEngine.Runtime.RuntimeExecutor
import MyEngine.Network.Listener
import MyEngine.Network.StreamSocket
import MyEngine.Network.StreamSocketBytes
import MyEngine.Async.TimerManager
import MyEngine.Async.TimerManagerRuns
import MyEngine.Async.TimerCallbacks
import MyEngine.Async.TimerReferences
import MyEngine.Async.TimerLocks
import MyEngine.Support.WaitGraph
import MyEngine.Async.TimerDeadlock
import MyEngine.Serialization.NativeValue
import MyEngine.Serialization.NativeValueCounts
import MyEngine.Serialization.NativeValueRelease
import MyEngine.Io.FsPathCopies
import MyEngine.Io.FsPathEquality
import MyEngine.Memory.HostVirtualMemory
import MyEngine.App.Application
import MyEngine.App.ApplicationShutdown
import MyEngine.Script.Require
import MyEngine.Debug.DebuggerHostRunner
import MyEngine.Network.DisposableRuntimeObject
import MyEngine.Service.ServiceProvider
import MyEngine.Async.TaskCoroutine
import MyEngine.Async.TaskCoroutineMoves
import MyEngine.Async.TaskCoroutineInv
import MyEngine.Async.TaskCoroutineRuns
import MyEngine.Io.FsPathParts
import MyEngine.Io.FsPathExtension
import MyEngine.Io.FsPathRelative
import MyEngine.Utils.Base64
import MyEngine.Utils.Base64RoundTrip
import MyEngine.Network.HeaderIteration
import MyEngine.Network.MessageHead
import MyEngine.Memory.BufferHeader
import MyEngine.Memory.BufferBytes
import MyEngine.Memory.BufferContents
import MyEngine.Io.MemoryStream
import MyEngine.Io.StreamPosition
import MyEngine.Debug.DapResponse
import MyEngine.App.PropertyReferences
import MyEngine.Utils.Functor
import MyEngine.Support.Spans
import MyEngine.Memory.FixedSizeBlocks
import MyEngine.Memory.HostMemory
import MyEngine.Memory.RuntimeStack
import MyEngine.Lua.BreakpointSources
import MyEngine.Network.AddressIterator
import MyEngine.Lua.BreakpointHits
import MyEngine.Memory.RuntimeStackTracking
import MyEngine.Rtti.ClassStorage
import MyEngine.Async.CoreTaskStorage
import MyEngine.Lua.VariableManager
import MyEngine.Lua.VariableListing
import MyEngine.Network.AddressFromString
import MyEngine.Support.Comparison
import MyEngine.Utils.StringCompare
import MyEngine.Io.CopyStream
import MyEngine.Serialization.JsonStream
import MyEngine.Serialization.ChangesScope
import MyEngine.Serialization.ValueEvents
import MyEngine.Diag.LoggerImpl
import MyEngine.Io.DirectoryIterator
import MyEngine.Dispatch.MethodInfo
import MyEngine.Io.WinFile
import MyEngine.Network.StreamWrites
import MyEngine.Lua.ValueRoots
import MyEngine.Memory.HostVirtualMemoryRequests
import MyEngine.Async.CoroutineFrame
import MyEngine.Runtime.ObjectRegistry
import MyEngine.Runtime.ObjectRegistryVisits
import MyEngine.Lua.DebugExpression
import MyEngine.Lua.References
import MyEngine.Lua.StackLocals
import MyEngine.Lua.NativeClasses
import MyEngine.Utils.RuntimeEnum
import MyEngine.Rtti.TypesRegistry
import MyEngine.Rtti.RuntimeCast
import MyEngine.Io.NativeFileSystem
import MyEngine.Threading.ThreadLocalValue
import MyEngine.Runtime.UvHandle
import MyEngine.Service.ServiceTasks
import MyEngine.Lua.RealmStack
