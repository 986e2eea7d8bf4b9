import SoTp.Arrays.Equality
import SoTp.Arrays.Growth
import SoTp.Buddy.DoubleFree
import SoTp.FreeList.DoubleFree
import SoTp.FreeList.FirstFit
import SoTp.FreeList.Isolation
import SoTp.Ids.Names
import SoTp.Interrupts.Snapshot
import SoTp.Keyboard.Typing
import SoTp.Lib.Recent
import SoTp.Modules.Loader
import SoTp.Phylo.Philosophers
import SoTp.Pipes.Drained
import SoTp.Process.Arguments
import SoTp.Process.Cascade
import SoTp.Process.Creation
import SoTp.Process.Destruction
import SoTp.Process.Election
import SoTp.Process.Exhaustion
import SoTp.Process.Foreground
import SoTp.Process.Latency
import SoTp.Process.Listing
import SoTp.Process.Memory
import SoTp.Process.OnTime
import SoTp.Process.Pids
import SoTp.Process.Returns
import SoTp.Process.Rounds
import SoTp.Process.Sleepers
import SoTp.Process.Waits
import SoTp.Shell.Autocomplete
import SoTp.Shell.History
import SoTp.Shell.Lookup
import SoTp.Shell.Session
import SoTp.Speaker.Sounds
import SoTp.Speaker.Wakeup
import SoTp.Stdlib.Fields
import SoTp.Stdlib.Period
import SoTp.Stdlib.Random
import SoTp.Stdlib.Values
import SoTp.Video.Reading
