import Ohara.Cli.Hotmap
import Ohara.Cli.IndexWizard
import Ohara.Cli.Init
import Ohara.Cli.Plan
import Ohara.Cli.Suggestions
import Ohara.Embed.BatchingSound
import Ohara.Embed.IdleSlot
import Ohara.Embed.OnnxDims
import Ohara.Embed.OnnxDimsReaders
import Ohara.Embed.OnnxDimsSound
import Ohara.Embed.Providers
import Ohara.Engine.Explain
import Ohara.Engine.Freshness
import Ohara.Engine.HeadMoves
import Ohara.Engine.Ipc
import Ohara.Engine.IpcProgress
import Ohara.Engine.IpcRuns
import Ohara.Engine.IpcSound
import Ohara.Engine.Notify
import Ohara.Engine.NotifySound
import Ohara.Engine.Registry
import Ohara.Engine.RegistryCrashes
import Ohara.Engine.RegistryJson
import Ohara.Engine.RegistryLiveness
import Ohara.Engine.RegistryRuns
import Ohara.Engine.RegistrySerial
import Ohara.Engine.Requests
import Ohara.Engine.Spawn
import Ohara.Engine.SpawnReliable
import Ohara.Engine.SpawnSound
import Ohara.Engine.Sweep
import Ohara.Engine.ThinClients
import Ohara.Engine.Transparency
import Ohara.Explain.Accounting
import Ohara.Explain.BlamedLines
import Ohara.Explain.Change
import Ohara.Explain.DiffText
import Ohara.Explain.EveryLine
import Ohara.Explain.FromHistory
import Ohara.Explain.Hydrator
import Ohara.Explain.Neighbours
import Ohara.Explain.NewestFirst
import Ohara.Git.AddedLines
import Ohara.Git.Diff
import Ohara.Git.HunkHeaders
import Ohara.Index.Actor
import Ohara.Index.ActorAccounting
import Ohara.Index.ActorOwn
import Ohara.Index.ActorPanics
import Ohara.Index.ActorRules
import Ohara.Index.ActorSteps
import Ohara.Index.Alone
import Ohara.Index.Attribution
import Ohara.Index.Command
import Ohara.Index.CommandSound
import Ohara.Index.CommandSteps
import Ohara.Index.Commit
import Ohara.Index.CommitWrites
import Ohara.Index.Embed
import Ohara.Index.EmbedEach
import Ohara.Index.EmbedRun
import Ohara.Index.FastPath
import Ohara.Index.FixedShape
import Ohara.Index.Footprint
import Ohara.Index.History
import Ohara.Index.HunkAttribution
import Ohara.Index.Ignore
import Ohara.Index.Metadata
import Ohara.Index.Migrations
import Ohara.Index.PostImages
import Ohara.Index.Provenance
import Ohara.Index.Resume
import Ohara.Index.Stages
import Ohara.Index.Stamp
import Ohara.Index.Ulid
import Ohara.Index.VectorSpace
import Ohara.Index.Verdict
import Ohara.Index.Watermark
import Ohara.Index.WorkerOrder
import Ohara.Library.BinaryRounding
import Ohara.Library.Calendar
import Ohara.Library.Chunks
import Ohara.Library.CommandLine
import Ohara.Library.Execution
import Ohara.Library.Fallible
import Ohara.Library.Frames
import Ohara.Library.Globs
import Ohara.Library.IgnoreRules
import Ohara.Library.Lines
import Ohara.Library.Lru
import Ohara.Library.Markers
import Ohara.Library.Numerals
import Ohara.Library.Paths
import Ohara.Library.Protobuf
import Ohara.Library.Roster
import Ohara.Library.Rows
import Ohara.Library.Selection
import Ohara.Library.ShellWords
import Ohara.Library.StableSort
import Ohara.Library.Topological
import Ohara.Library.Utf8
import Ohara.Library.Weights
import Ohara.Library.WireFormat
import Ohara.Parse.Chunking
import Ohara.Parse.Extract
import Ohara.Parse.LineSpan
import Ohara.Retriever.FindPattern
import Ohara.Retriever.FindPatternSound
import Ohara.Retriever.Fusion
import Ohara.Retriever.FusionSpec
import Ohara.Retriever.HitProvenance
import Ohara.Retriever.OwnScores
import Ohara.Retriever.Pipeline
import Ohara.Retriever.QueryUnderstanding
import Ohara.Retriever.Recency
import Ohara.Retriever.Reranking
import Ohara.Retriever.Since
import Ohara.Storage.Codec
import Ohara.Storage.Commit
import Ohara.Storage.Contents
import Ohara.Storage.Effects
import Ohara.Storage.EmbedCache
import Ohara.Storage.Explain
import Ohara.Storage.FileReplacement
import Ohara.Storage.Hunk
import Ohara.Storage.HunkSymbols
import Ohara.Storage.LaneCuts
import Ohara.Storage.LaneRanks
import Ohara.Storage.Lanes
import Ohara.Storage.Language
import Ohara.Storage.MatchQuerySound
import Ohara.Storage.Mirror
import Ohara.Storage.Refinement
import Ohara.Storage.Repo
import Ohara.Storage.Schema
import Ohara.Storage.Symbol
import Ohara.Storage.Views
import Ohara.Types
