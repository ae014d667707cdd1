import StagedPipeline.Bytes
import StagedPipeline.Error
import StagedPipeline.Fault
import StagedPipeline.Outcome
import StagedPipeline.Log.Level
import StagedPipeline.Log.Category
import StagedPipeline.Log.Entry
import StagedPipeline.FileSystem
import StagedPipeline.Log.Logger
import StagedPipeline.Log.Stamp
import StagedPipeline.Log.Calendar
import StagedPipeline.Log.Transcript
import StagedPipeline.Config.Value
import StagedPipeline.Config.Line
import StagedPipeline.Config
import StagedPipeline.Settings
import StagedPipeline.Sha256
import StagedPipeline.Sha256.Hasher
import StagedPipeline.Context
import StagedPipeline.Context.Tree
import StagedPipeline.ByteStream
import StagedPipeline.ByteStream.Whole
import StagedPipeline.Pack
import StagedPipeline.Pack.Item
import StagedPipeline.Pack.Draft
import StagedPipeline.Producer
import StagedPipeline.Producer.Script
import StagedPipeline.Handler
import StagedPipeline.Handler.Script
import StagedPipeline.Channel.Handoff
import StagedPipeline.Channel.Fifo
import StagedPipeline.Channel.Reports
import StagedPipeline.Channel.Conduit
import StagedPipeline.Thread
import StagedPipeline.Thread.Scenario
import StagedPipeline.Stage.Lifecycle
import StagedPipeline.Stage.Event
import StagedPipeline.Stage.Source
import StagedPipeline.Stage.Finalization
import StagedPipeline.Stage.Transform
import StagedPipeline.Stage.Feeder
import StagedPipeline.Stage.Era
import StagedPipeline.Stage.Delivery
import StagedPipeline.Stage.Neighbours
import StagedPipeline.Stage.Lifetime
import StagedPipeline.Pipeline.Station
import StagedPipeline.Pipeline.Application
import StagedPipeline.Pipeline.System
import StagedPipeline.Pipeline
import StagedPipeline.Channel.Handoff.Exchange
import StagedPipeline.Channel.Fifo.Traffic
import StagedPipeline.Channel.Reports.Session
import StagedPipeline.Pipeline.Reading
import StagedPipeline.Pipeline.Narration
import StagedPipeline.Stage.Solo
import StagedPipeline.Stage.Bench
import StagedPipeline.Stage.Owned
import StagedPipeline.Pipeline.Owned
import StagedPipeline.Checksum
import StagedPipeline.Main
import StagedPipeline.Proofs.Channel.Sides
import StagedPipeline.Proofs.Channel.Exactness
import StagedPipeline.Proofs.Stage.TransformMoves
import StagedPipeline.Proofs.Pull.Evaluation
import StagedPipeline.Proofs.Pull.Relations
import StagedPipeline.Proofs.Pull.Settling
import StagedPipeline.Proofs.Stage.Logs
import StagedPipeline.Proofs.Stage.TransformTraces
import StagedPipeline.Proofs.Stage.Conduct
import StagedPipeline.Proofs.Stage.Neighbours
import StagedPipeline.Proofs.Stage.SourceMoves
import StagedPipeline.Proofs.Stage.SourceTraces
import StagedPipeline.Proofs.Pipeline.Reader
import StagedPipeline.Proofs.Pipeline.Row
import StagedPipeline.Proofs.Pipeline.Runs
import StagedPipeline.Proofs.Pipeline.ErrorRoom
import StagedPipeline.Proofs.Pipeline.Capacities
import StagedPipeline.Proofs.Pipeline.Schedule
import StagedPipeline.Proofs.Pipeline.Drain
import StagedPipeline.Proofs.Pipeline.Progress
import StagedPipeline.Proofs.Pipeline.Work
import StagedPipeline.Proofs.Pipeline.Termination
import StagedPipeline.Proofs.Pipeline.Abandonment
import StagedPipeline.Proofs.Channel.Completeness
import StagedPipeline.Proofs.Stage.Pace
import StagedPipeline.Proofs.Pipeline.RunAhead
import StagedPipeline.Proofs.Stage.SourceConduct
import StagedPipeline.Proofs.Stage.Life
import StagedPipeline.Proofs.Stage.Delivery
import StagedPipeline.Proofs.Stage.Lifetime
import StagedPipeline.Proofs.Channel.Losslessness
import StagedPipeline.Proofs.Context.Ancestry
import StagedPipeline.Proofs.Context.Answers
import StagedPipeline.Proofs.Context.Cancellation
import StagedPipeline.Proofs.Pipeline.Rest
import StagedPipeline.Proofs.Sha256.Engine
import StagedPipeline.Proofs.Handler.Digest
import StagedPipeline.Proofs.Producer.Files
import StagedPipeline.Proofs.Producer.Exhaustion
import StagedPipeline.Proofs.Producer.Enumeration
import StagedPipeline.Proofs.Log.Console
import StagedPipeline.Proofs.Bytes.Shapes
import StagedPipeline.Proofs.Config.Grammar
import StagedPipeline.Proofs.Config.Numerals
import StagedPipeline.Proofs.Settings.Vocabulary
import StagedPipeline.Proofs.Settings.Validity
import StagedPipeline.Proofs.Checksum.Digests
import StagedPipeline.Proofs.Checksum.Faithfulness
import StagedPipeline.Proofs.Config.Layers
import StagedPipeline.Proofs.Config.Agreement
import StagedPipeline.Proofs.Settings.Repetition
import StagedPipeline.Proofs.Stage.Ownership
import StagedPipeline.Proofs.Stage.Finalizers
import StagedPipeline.Proofs.Stage.Counting
import StagedPipeline.Proofs.Pipeline.Ownership
import StagedPipeline.Proofs.FileSystem.Contents
import StagedPipeline.Proofs.Log.Calls
import StagedPipeline.Proofs.Log.FileSink
import StagedPipeline.Proofs.Log.Sinks
import StagedPipeline.Proofs.ByteStream.Runs
import StagedPipeline.Proofs.Handler.Exactness
import StagedPipeline.Proofs.Stage.Collecting
import StagedPipeline.Proofs.ByteStream.Interchange
import StagedPipeline.Proofs.Sha256.Hashers
import StagedPipeline.Proofs.Settings.Integers
import StagedPipeline.Proofs.Settings.CategoryLists
