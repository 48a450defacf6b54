import Marfs.Gc.ObjSafety
import Marfs.Gc.Idempotence
import Marfs.Gc.Recovered
import Marfs.Rman.Replay
import Marfs.Rman.ProducerSpec
import Marfs.Tagging.FtagString
import Marfs.Ne.WriteSpec
import Marfs.Datastream.Durable
import Marfs.Hash.Lookup
import Marfs.Rman.OldLogs
import Marfs.Tq.Delivery
import Marfs.Config.TraverseResult
import Marfs.Io.RoundTrip
import Marfs.Repack.Atomic
import Marfs.Tape.Exclusion
import Marfs.Tape.Progress
import Marfs.Tape.Waiting
import Marfs.Config.Reserved
import Marfs.Rman.QuotaWalk
import Marfs.Rman.RebuildExact
import Marfs.Rman.PackageSpec
import Marfs.Rman.InputProgress
import Marfs.Api.GuardedRun
import Marfs.Api.DirhandleSpec
import Marfs.Api.OwnershipSpec
import Marfs.Datastream.Chunkbounds
import Marfs.Repack.Metainfo
import Marfs.Tagging.FtagFields
import Marfs.Tagging.FtagPointer
import Marfs.Tagging.RtagHealth
import Marfs.Rman.FailedMessage
import Marfs.Rman.FailedWrite
import Marfs.Recovery.Recovers
import Marfs.Ne.Stat
import Marfs.Dal.MetaString
import Marfs.Hash.Construction
import Marfs.Tagging.Builders
import Marfs.Io.ReseekRun
import Marfs.Datastream.WindowRun
import Marfs.Datastream.Reuse
import Marfs.Datastream.RecoveryInfo
import Marfs.Rman.ProgramArgs
import Marfs.Config.MountExact
import Marfs.Tq.Pause
import Marfs.Tq.Deadlock
import Marfs.Config.Loop
import Marfs.Config.Faults
import Marfs.Config.Duplicate
import Marfs.Config.LinkChain
import Marfs.Config.LinkText
import Marfs.Tape.FilterSpec
import Marfs.Tape.Skips
import Marfs.Tape.FormatSpec
import Marfs.Ne.ReadStripesSpec
import Marfs.Rman.RunLength
import Marfs.Rman.NsList
