import Secpoline.Proofs.Watching
import Secpoline.Proofs.WriteXorExecute
import Secpoline.Proofs.Sigaction
import Secpoline.Proofs.SignalMask
import Secpoline.Proofs.MonitorStacks
import Secpoline.Proofs.Deadlock
import Secpoline.Proofs.Protections
import Secpoline.Proofs.ScanExact
import Secpoline.Proofs.ScanLocal
import Secpoline.Proofs.Guards
import Secpoline.Proofs.Emulation
import Secpoline.Proofs.FileThreads
import Secpoline.Proofs.SignalLocks
import Secpoline.Proofs.PageWrap
import Secpoline.Proofs.Rewriting
import Secpoline.Proofs.Dispatch
import Secpoline.Proofs.ExecveArrays
import Secpoline.Proofs.LoaderEnv
import Secpoline.Proofs.Buffers
import Secpoline.Proofs.SignalFrames
import Secpoline.Proofs.Descriptors
import Secpoline.Proofs.AllOrNothing
import Secpoline.Proofs.Eviction
import Secpoline.Proofs.FdMap
import Secpoline.Proofs.LoaderMaps
import Secpoline.Proofs.Zpoline
