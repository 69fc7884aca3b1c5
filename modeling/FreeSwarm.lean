import FreeSwarm.KvCache.RadixRefinement
import FreeSwarm.Scheduler.CacheRun
import FreeSwarm.KvCache.Dsv4Calls
import FreeSwarm.Scheduler.StopStrings
import FreeSwarm.Tokenizer.ByteLevel
import FreeSwarm.Server.MiniMaxM3Cuts
import FreeSwarm.Server.HarmonyStream
import FreeSwarm.Server.MuseGlimmerStream
import FreeSwarm.Server.InvokeParamParity
import FreeSwarm.Server.Glm47Stream
import FreeSwarm.Server.CallDelivery
import FreeSwarm.Daemon.Gpu
import FreeSwarm.Daemon.AccountingRuns
import FreeSwarm.Server.FrontendRuns
import FreeSwarm.Server.RequestRing
import FreeSwarm.Board.Sessions
import FreeSwarm.Board.Blackboard
import FreeSwarm.Board.Messages
import FreeSwarm.Federation.Inference
import FreeSwarm.Federation.GrantRuns
import FreeSwarm.Federation.FreshToken
import FreeSwarm.Message.RoundTrip
import FreeSwarm.Board.Leases
import FreeSwarm.Board.LockDiscipline
import FreeSwarm.Moe.SlotSplit
import FreeSwarm.Checkpoint.FtwRoundTrip
import FreeSwarm.TaskKit.OauthLaw
import FreeSwarm.Objectives.Dependents
import FreeSwarm.Objectives.Metric
import FreeSwarm.Objectives.Remark
import FreeSwarm.Console.DownloadVerified
import FreeSwarm.Console.DownloadJobs
import FreeSwarm.Console.WorkLog
import FreeSwarm.Console.DecilesCausal
import FreeSwarm.Objectives.PositionsLookahead
import FreeSwarm.Engine.CacheBudget
import FreeSwarm.Federation.Routing
import FreeSwarm.Federation.PeerSlots
import FreeSwarm.Studies.RegimeLab
import FreeSwarm.External.Pacing
import FreeSwarm.Tokens.Totals
import FreeSwarm.Sql.Source
import FreeSwarm.KvCache.SwaReach
import FreeSwarm.Scheduler.SwaFreed
import FreeSwarm.Sandbox.QuickScore
import FreeSwarm.Sandbox.Size
import FreeSwarm.Objectives.Ensembles
import FreeSwarm.Sandbox.Selection
import FreeSwarm.Sandbox.TrendExits
import FreeSwarm.Sandbox.RegimeGrid
import FreeSwarm.Objectives.CutFolders
import FreeSwarm.Objectives.Ledger
import FreeSwarm.Library.Reachable
import FreeSwarm.TaskKit.AuditRange
import FreeSwarm.Objectives.Islands
import FreeSwarm.TaskKit.Trading
import FreeSwarm.Sandbox.Resample
import FreeSwarm.TaskKit.Battery
import FreeSwarm.Studies.RegimeRouter
import FreeSwarm.Console.Expressions
import FreeSwarm.TaskKit.Actions
import FreeSwarm.Sql.Views
import FreeSwarm.Console.Activity
import FreeSwarm.Auth.SigningKey
import FreeSwarm.Library.Usage
import FreeSwarm.Console.SwarmPolicy
import FreeSwarm.Sql.Export
