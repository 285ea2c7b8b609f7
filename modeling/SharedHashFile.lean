import SharedHashFile.Transition.Reachability
import SharedHashFile.Program.Program
import SharedHashFile.Store.ProcessesAgree
import SharedHashFile.Store.FullRow
import SharedHashFile.Store.Counters
import SharedHashFile.Store.ReaderDiscipline
import SharedHashFile.Store.RedirectionLaws
import SharedHashFile.Store.AccountingLaws
import SharedHashFile.Store.TtlLaws
import SharedHashFile.Store.CounterLaws
import SharedHashFile.Store.FixedCounters
import SharedHashFile.Store.RefCounts
import SharedHashFile.Store.Growth
import SharedHashFile.Store.ReservedZeros
import SharedHashFile.Store.Attach
import SharedHashFile.LinkedList.Linked
import SharedHashFile.Queue.BackLinks
import SharedHashFile.Queue.Batching
import SharedHashFile.Queue.Items
import SharedHashFile.Lock.RwLockProgress
import SharedHashFile.Log.Shutdown
import SharedHashFile.Log.Bounds
import SharedHashFile.Log.ThreadIds
import SharedHashFile.Log.Buffering
