import LlmCtl.ApiGuard
import LlmCtl.ApiHandlers
import LlmCtl.BuildHistory
import LlmCtl.BusyFlag
import LlmCtl.BusyGate
import LlmCtl.CacheRate
import LlmCtl.CacheTree
import LlmCtl.CacheWalk
import LlmCtl.CappedLog
import LlmCtl.CaptureAgree
import LlmCtl.ClaimedRecord
import LlmCtl.CollectLines
import LlmCtl.Completion
import LlmCtl.ConfigAppend
import LlmCtl.ConfigFile
import LlmCtl.CpuSample
import LlmCtl.Daemon
import LlmCtl.DaemonLocks
import LlmCtl.DaemonStep
import LlmCtl.DerivedId
import LlmCtl.Download
import LlmCtl.DownloadedStart
import LlmCtl.DrainLoop
import LlmCtl.DrainedTurns
import LlmCtl.DroppedLine
import LlmCtl.ExitReason
import LlmCtl.FileChoice
import LlmCtl.FileList
import LlmCtl.FloatText
import LlmCtl.Http
import LlmCtl.JobLog
import LlmCtl.JobManager
import LlmCtl.JobOutput
import LlmCtl.JobWatchdog
import LlmCtl.JoinedWords
import LlmCtl.JsShape
import LlmCtl.JsValue
import LlmCtl.JsonShape
import LlmCtl.JsonText
import LlmCtl.JsonValue
import LlmCtl.Lifecycle
import LlmCtl.LifecycleFair
import LlmCtl.LineBuffer
import LlmCtl.ListTable
import LlmCtl.LoadGrace
import LlmCtl.LockOrder
import LlmCtl.LockRank
import LlmCtl.LogPane
import LlmCtl.LongLines
import LlmCtl.MetricsText
import LlmCtl.ModelConsumers
import LlmCtl.MultiMap
import LlmCtl.OneJob
import LlmCtl.OrderedMap
import LlmCtl.Panel
import LlmCtl.PanelMarkup
import LlmCtl.PanelPayload
import LlmCtl.PanelRender
import LlmCtl.PanelSafe
import LlmCtl.PathGate
import LlmCtl.PercentDecode
import LlmCtl.PercentEncode
import LlmCtl.PersistModel
import LlmCtl.PersistTwice
import LlmCtl.PiSession
import LlmCtl.PinnedCerts
import LlmCtl.ProcessTable
import LlmCtl.ProxmoxCall
import LlmCtl.ProxyRequest
import LlmCtl.ProxyResponse
import LlmCtl.ProxyTasks
import LlmCtl.RaiiFlag
import LlmCtl.ReadCommitted
import LlmCtl.ReadyTruth
import LlmCtl.Rebuild
import LlmCtl.RebuildRecord
import LlmCtl.RecordOnce
import LlmCtl.Registration
import LlmCtl.RegistryRestart
import LlmCtl.RejectedCompletion
import LlmCtl.RestartCap
import LlmCtl.RestartModel
import LlmCtl.RestartRate
import LlmCtl.Resumption
import LlmCtl.Rollups
import LlmCtl.RunAndCollect
import LlmCtl.Runs
import LlmCtl.ServingModel
import LlmCtl.SessionBinding
import LlmCtl.SessionId
import LlmCtl.SessionStore
import LlmCtl.SessionsView
import LlmCtl.ShutdownSafe
import LlmCtl.SignalTarget
import LlmCtl.SingleWorker
import LlmCtl.SpawnFailure
import LlmCtl.StackSearch
import LlmCtl.StartButton
import LlmCtl.StartUsable
import LlmCtl.StatusBar
import LlmCtl.StatusTimer
import LlmCtl.StopFinal
import LlmCtl.StoreLocks
import LlmCtl.StreamCollector
import LlmCtl.StreamRelay
import LlmCtl.Supervisor
import LlmCtl.SupervisorStep
import LlmCtl.TextFormat
import LlmCtl.TextParse
import LlmCtl.TextSearch
import LlmCtl.TextTemplate
import LlmCtl.TokenCounts
import LlmCtl.TomlDoc
import LlmCtl.TomlKeeps
import LlmCtl.TomlReader
import LlmCtl.TomlString
import LlmCtl.TurnRow
import LlmCtl.TurnSchema
import LlmCtl.Utf8Text
import LlmCtl.WorkerState
