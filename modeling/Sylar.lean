import Sylar.Lib.Heap
import Sylar.Lib.Runs
import Sylar.Lib.Ordered
import Sylar.Lib.Overwrite
import Sylar.Lib.LockOrder
import Sylar.Lib.Acyclic
import Sylar.Lib.Sections
import Sylar.Lib.Linear
import Sylar.Lib.Layout
import Sylar.Yaml.Node
import Sylar.Yaml.Access
import Sylar.Config.ConfigVar
import Sylar.Config.Registry
import Sylar.Config.LoadFromYaml
import Sylar.Config.LookupHistory
import Sylar.Config.LoadedValues
import Sylar.Config.Containers
import Sylar.Config.ContainerRoundTrip
import Sylar.Config.FailedUpdate
import Sylar.Config.Reload
import Sylar.Config.ElementTexts
import Sylar.Config.JoinedPaths
import Sylar.Config.KeyCase
import Sylar.Config.AliasedDocument
import Sylar.Config.SetValueRace
import Sylar.Config.ListenerKeys
import Sylar.Config.Snapshot
import Sylar.Config.RegistryStatements
import Sylar.Config.ConfigVarStatements
import Sylar.Config.ConfigVarHistory
import Sylar.Config.ConcurrentLoads
import Sylar.Thread.StartUp
import Sylar.Thread.Lifetime
import Sylar.Thread.Release
import Sylar.Thread.ScopedLock
import Sylar.Log.LogLevel
import Sylar.Log.Logger
import Sylar.Log.LogFormatter
import Sylar.Log.PatternScan
import Sylar.Log.PatternTokens
import Sylar.Log.PatternBounds
import Sylar.Log.PatternGrammar
import Sylar.Log.PercentEscape
import Sylar.Log.InheritedFormatter
import Sylar.Log.FormatterRace
import Sylar.Log.FileLogAppender
import Sylar.Log.FileAppenderRace
import Sylar.Log.LogDefine
import Sylar.Log.LogIniter
import Sylar.Log.LogsText
import Sylar.Log.LogsFiltered
import Sylar.Log.ManagerInvariant
import Sylar.Log.GetLoggerRace
import Sylar.Log.LogReconcile
import Sylar.Log.LogHistory
import Sylar.Log.Reconfigure
import Sylar.Log.RootFallback
import Sylar.Log.LogRemoval
import Sylar.Log.LogDump
import Sylar.Log.LogReload
import Sylar.Log.ReadyToFormat
import Sylar.Log.LogProgram
import Sylar.Log.AppenderOrder
import Sylar.Log.AppenderDelivery
import Sylar.Log.FileAppenderStatements
import Sylar.Log.FileRotation
import Sylar.Log.LogLines
import Sylar.Log.LockPrograms
import Sylar.Log.LockedAlone
import Sylar.Log.DeadlockFree
import Sylar.Log.VisitLocks
