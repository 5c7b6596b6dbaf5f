import TrioParallel.Wire.Struct
import TrioParallel.Wire.Send
import TrioParallel.Wire.Recv
import TrioParallel.Wire.Accept
import TrioParallel.Tasks
import TrioParallel.Cache.ProcCache
import TrioParallel.Cache.Threads
import TrioParallel.Cache.Atomic
import TrioParallel.Cache.Bounded
import TrioParallel.Dispatch.RunSync
import TrioParallel.Handle.Protocol
import TrioParallel.Handle.Sound
import TrioParallel.Handle.Safety
import TrioParallel.Handle.Progress
import TrioParallel.Handle.Terminates
import TrioParallel.Dispatch.WithHandles
import TrioParallel.Dispatch.Retire
import TrioParallel.Legacy.Protocol
import TrioParallel.Legacy.Steps
import TrioParallel.Legacy.Tracked
import TrioParallel.Legacy.Retry
import TrioParallel.Legacy.Owned
import TrioParallel.Legacy.Limiter
import TrioParallel.Legacy.Progress
import TrioParallel.Legacy.Terminates
