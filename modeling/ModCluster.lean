import ModCluster.Lib.CString
import ModCluster.Lib.Slotmem
import ModCluster.Records
import ModCluster.Storage
import ModCluster.Httpd
import ModCluster.Message
import ModCluster.Workers
import ModCluster.Config
import ModCluster.App
import ModCluster.Watchdog
import ModCluster.ConfigEdits
import ModCluster.AppEdits
import ModCluster.WatchdogEdits
import ModCluster.Run
import ModCluster.StorageSpec
import ModCluster.MessageSpec
import ModCluster.Edits
import ModCluster.Invariants
import ModCluster.ConfigSpec
import ModCluster.ConfigFrame
import ModCluster.ConfigAtomic
import ModCluster.Pairing
import ModCluster.Aliases
import ModCluster.AliasRuns
import ModCluster.WorkerUpdate
import ModCluster.Processes
import ModCluster.WorkerCounts
import ModCluster.Removal
import ModCluster.RemovalRuns
import ModCluster.Session
import ModCluster.Routing
import ModCluster.RoutingSpec
import ModCluster.NoteCache
import ModCluster.Election
import ModCluster.PreRequest
import ModCluster.ElectionSpec
import ModCluster.Counters
import ModCluster.Handled
import ModCluster.RoutingSafety
import ModCluster.Sticky
import ModCluster.BalancerSettings
import ModCluster.Commands
import ModCluster.FieldLoops
import ModCluster.LockDiscipline
import ModCluster.Receive
import ModCluster.Keys
import ModCluster.Registration
import ModCluster.Version
import ModCluster.Caches
import ModCluster.Traffic
import ModCluster.ActiveCounts
import ModCluster.ContextCounts
import ModCluster.Lib.Batch
import ModCluster.ManagerPage
import ModCluster.Tokens
import ModCluster.ListFields
import ModCluster.PageCommands
import ModCluster.PageDomain
import ModCluster.NodeTable
import ModCluster.Resend
import ModCluster.GuardedRuns
import ModCluster.NodeNames
import ModCluster.NodeAddresses
import ModCluster.Reaping
import ModCluster.Eligibility
import ModCluster.Lib.Erasure
import ModCluster.Batches
import ModCluster.IdleChecks
import ModCluster.IdleRuns
import ModCluster.FieldValues
import ModCluster.Decoding
import ModCluster.FieldOrder
import ModCluster.Lib.AllSlots
import ModCluster.Alphabet
import ModCluster.Spelling
import ModCluster.Sanitation
import ModCluster.ServerConfig
import ModCluster.Splitting
import ModCluster.ListParsing
import ModCluster.Lib.ArrayLoops
import ModCluster.ContextSearch
import ModCluster.PathSuffix
import ModCluster.Lib.PointerLoop
import ModCluster.CookieLookup
import ModCluster.PathLookup
import ModCluster.FreeSlots
import ModCluster.Wildcards
import ModCluster.AppListing
import ModCluster.AppGiven
import ModCluster.AppEffects
import ModCluster.SessionRemoval
import ModCluster.PairCounts
import ModCluster.Recognition
import ModCluster.UnsetNode
import ModCluster.Waiting
import ModCluster.Lib.Buffer
import ModCluster.Advertise
import ModCluster.SessionTable
import ModCluster.Dump
import ModCluster.StoredTimes
import ModCluster.ElectionClasses
import ModCluster.DeterministicFailover
import ModCluster.ChosenContext
import ModCluster.Recalculation
import ModCluster.LbMethod
import ModCluster.LoadNumbers
import ModCluster.Draining
import ModCluster.Retiring
import ModCluster.Lib.Markup
import ModCluster.Reports
import ModCluster.Handler
import ModCluster.Lib.Mirror
import ModCluster.Registry
import ModCluster.Onlooker
import ModCluster.RouteSearch
import ModCluster.Lib.Xml
import ModCluster.Lib.XmlPlain
import ModCluster.Lib.XmlReport
import ModCluster.XmlReports
