import UwUGC.Panic
import UwUGC.Object.Metadata
import UwUGC.Mm.Compaction
import UwUGC.Lib.Transition
import UwUGC.GcSyncExits
import UwUGC.Gc.RelocationLookups
import UwUGC.Bitmap
import UwUGC.GcControllerWaits
import UwUGC.GcControllerRequests
import UwUGC.Lib.GraphSearch
import UwUGC.Object.Heap
import UwUGC.Gc.MarkerProperties
import UwUGC.State.ContextsProperties
import UwUGC.Plus.TypesProperties
import UwUGC.Plus.RootRefsRefusals
import UwUGC.Plus.AllocSizes
import UwUGC.State.SystemSteps
import UwUGC.State.CachedPages
import UwUGC.Plus.LiveTypes
import UwUGC.Gc.MarkerPlaces
import UwUGC.Gc.CopierPages
import UwUGC.Gc.CyclePreservation
import UwUGC.Plus.PointerIteratorSlots
import UwUGC.Plus.LawfulTypes
import UwUGC.Mm.AllocationRoom
import UwUGC.Mm.Donation
import UwUGC.PipeRuns
import UwUGC.Plus.AllocWraps
import UwUGC.Gc.CopierJobs
import UwUGC.Gc.PageMoves
import UwUGC.PlusAlloc.VecInserts
import UwUGC.PlusAlloc.VecResizes
import UwUGC.State.MarkingRuns
import UwUGC.Plus.PointerUpdates
import UwUGC.Mm.ResolutionRuns
import UwUGC.Profiler
import UwUGC.Gc.CopierView
import UwUGC.State.Relocating
import UwUGC.State.CalmProgress
import UwUGC.Mm.AllocationProgress
