import Vmwgfx.FenceMachine
import Vmwgfx.PrefixScan
import Vmwgfx.FenceSignal
import Vmwgfx.FenceGoal
import Vmwgfx.CmdbufMachine
import Vmwgfx.CmdbufPlaces
import Vmwgfx.CmdbufDx
import Vmwgfx.CmdbufLane
import Vmwgfx.CmdbufOrder
import Vmwgfx.FifoCalls
import Vmwgfx.FifoCopies
import Vmwgfx.FifoSafety
import Vmwgfx.FifoQueue
import Vmwgfx.ExecbufFraming
import Vmwgfx.ExecbufHandles
import Vmwgfx.ExecbufSafety
import Vmwgfx.ExecbufPlacement
import Vmwgfx.BindingLists
import Vmwgfx.BindingDirty
import Vmwgfx.BindingUnbind
import Vmwgfx.BindingRestore
import Vmwgfx.ResRevert
import Vmwgfx.ViewKeys
import Vmwgfx.ValidationLists
import Vmwgfx.ExecbufFence
import Vmwgfx.ExecbufQuery
import Vmwgfx.ExecbufSubmit
import Vmwgfx.ExecbufBindings
import Vmwgfx.FenceCleanup
import Vmwgfx.SurfaceSizes
import Vmwgfx.CotableSizes
import Vmwgfx.CotableResize
import Vmwgfx.DxQueryLinks
import Vmwgfx.SyncCpu
import Vmwgfx.OverlayPins
import Vmwgfx.ViewLists
import Vmwgfx.ShaderAttach
import Vmwgfx.ReservationLru
import Vmwgfx.ReservationOrder
import Vmwgfx.ResourcePins
import Vmwgfx.LegacySurfaces
import Vmwgfx.RadixWalk
import Vmwgfx.TtmBuffer
import Vmwgfx.TtmAccounting
import Vmwgfx.MobTranslation
import Vmwgfx.MobLevels
import Vmwgfx.Differences
import Vmwgfx.DiffCopy
import Vmwgfx.BlitRows
import Vmwgfx.GmrBinding
import Vmwgfx.MasterSwitch
import Vmwgfx.MasterLocks
import Vmwgfx.LegacyUnits
import Vmwgfx.Hibernation
import Vmwgfx.KernelLists
import Vmwgfx.BindingLayout
import Vmwgfx.BindingMemory
import Vmwgfx.BindingCommit
import Vmwgfx.BindingOverride
import Vmwgfx.AtomicCommits
import Vmwgfx.ScreenTargets
import Vmwgfx.ScreenObjects
import Vmwgfx.FbdevUpdates
import Vmwgfx.ExecbufDescribe
import Vmwgfx.FifoFull
import Vmwgfx.SeqnoPassed
import Vmwgfx.CmdbufErrors
import Vmwgfx.CmdbufRegions
import Vmwgfx.BindingCollect
import Vmwgfx.BindingFailures
import Vmwgfx.ExecbufListing
import Vmwgfx.ResourceOrder
import Vmwgfx.PairedRuns
import Vmwgfx.ExecbufArrays
import Vmwgfx.ExecbufCacheMode
import Vmwgfx.ExecbufCacheRuns
import Vmwgfx.ExecbufCache
import Vmwgfx.ResourceEviction
import Vmwgfx.ImageSizes
import Vmwgfx.Tilings
import Vmwgfx.ImageOffsets
import Vmwgfx.SurfaceImages
import Vmwgfx.GbSurfaces
import Vmwgfx.GbSurfaceErrors
import Vmwgfx.ContextInit
import Vmwgfx.UserFences
import Vmwgfx.SyncCpuGrabs
import Vmwgfx.SyncCpuClients
import Vmwgfx.BoundedRetries
import Vmwgfx.HostMessages
import Vmwgfx.CursorSnoop
import Vmwgfx.LayoutUpdates
import Vmwgfx.Signed32
import Vmwgfx.KmsClips
import Vmwgfx.Extremes
import Vmwgfx.StduDma
import Vmwgfx.SurfaceMoves
import Vmwgfx.ProxyUpdates
import Vmwgfx.ValidationMem
import Vmwgfx.CursorPlanes
import Vmwgfx.Framebuffers
import Vmwgfx.FbdevFlush
import Vmwgfx.PrefixRuns
import Vmwgfx.FbdevModes
import Vmwgfx.DeviceRequest
import Vmwgfx.BufferReservations
import Vmwgfx.ReservationRuns
import Vmwgfx.WaitOrder
import Vmwgfx.ReservationProgress
import Vmwgfx.FenceCallbacks
import Vmwgfx.FenceHandshake
import Vmwgfx.FenceArrival
import Vmwgfx.PartyCounts
import Vmwgfx.InterruptWaits
import Vmwgfx.InterruptMasks
import Vmwgfx.InterruptWakes
