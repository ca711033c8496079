import MemPerf.Lib.Run
import MemPerf.Lib.Word
import MemPerf.Lib.Coverage
import MemPerf.Lib.FlaggedTable
import MemPerf.Lib.Slots
import MemPerf.Lib.HashMap
import MemPerf.Lib.Rows
import MemPerf.Values
import MemPerf.ShadowAccounting
import MemPerf.ShadowTracking
import MemPerf.ShadowSharing
import MemPerf.ShadowOwners
import MemPerf.StageAlternation
import MemPerf.Calibration
import MemPerf.CriticalPath
import MemPerf.ThreadCalls
import MemPerf.LockProfile
import MemPerf.PredictionClass
import MemPerf.ObjectPairing
import MemPerf.FailedAllocation
import MemPerf.Freelists
import MemPerf.LeakRuns
import MemPerf.MemoryUsage
import MemPerf.WasteBreakdown
import MemPerf.TouchedPages
import MemPerf.InfoFile
import MemPerf.PredictorFile
import MemPerf.InfoLoading
import MemPerf.ShadowSearches
import MemPerf.ShadowScores
import MemPerf.ConflictScores
import MemPerf.MissStatistics
import MemPerf.CallSiteReport
import MemPerf.MarkPhase
import MemPerf.ClassFit
import MemPerf.PageWindows
import MemPerf.ShadowRows
import MemPerf.PageCleanup
import MemPerf.PerfRing
import MemPerf.ProfilerHeap
import MemPerf.HashMapRuns
import MemPerf.Globalize
import MemPerf.ReportTotals
import MemPerf.ThreadTimes
import MemPerf.ObjectThreads
import MemPerf.Transparency
import MemPerf.TableCreation
import MemPerf.GlobalizeThreads
import MemPerf.CallKeys
import MemPerf.ThreadCounters
import MemPerf.UsageBalance
import MemPerf.ConflictHits
import MemPerf.SectionReport
