import RankEval.Arithmetic
import RankEval.Campaign.Cache
import RankEval.Campaign.Evaluator
import RankEval.Campaign.Run
import RankEval.Candidates.Aligned
import RankEval.Candidates.Alignment
import RankEval.Candidates.Distinct
import RankEval.Candidates.Exclusion
import RankEval.Candidates.GroundTruth
import RankEval.Candidates.Predicted
import RankEval.Candidates.Relevance
import RankEval.Candidates.Stored
import RankEval.Candidates.Universe
import RankEval.CommandLine.Arguments
import RankEval.CommandLine.Command
import RankEval.CommandLine.Script
import RankEval.CommandLine.Program
import RankEval.CommandLine.QueryScript
import RankEval.CommandLine.RunScript
import RankEval.CommandLine.ViewScript
import RankEval.Decimal.Binary
import RankEval.Decimal.Fixed
import RankEval.Decimal.Layout
import RankEval.Decimal.Numeral
import RankEval.Decimal.Reading
import RankEval.Decimal.Shortest
import RankEval.Document.Content
import RankEval.Document.Datum
import RankEval.Document.Reading
import RankEval.Engine.Configuration
import RankEval.Engine.Format
import RankEval.Engine.Key
import RankEval.Failure
import RankEval.Files.Directory
import RankEval.Files.Fault
import RankEval.Files.Path
import RankEval.Files.Reading
import RankEval.Files.Saving
import RankEval.Files.Tree
import RankEval.Inputs.Corpus
import RankEval.Inputs.Judgments
import RankEval.Inputs.PageTables
import RankEval.Inputs.Query
import RankEval.Inputs.RankedGroups
import RankEval.Inputs.RankedRows
import RankEval.Inputs.ScoreFile
import RankEval.Json.Document
import RankEval.Json.Number
import RankEval.Json.Printer
import RankEval.Json.Token
import RankEval.Json.Value
import RankEval.Main
import RankEval.Metric.Error
import RankEval.Metric.Format
import RankEval.Metric.Gain
import RankEval.Metric.RankSum
import RankEval.Metric.RankTable
import RankEval.Metric.Ranking
import RankEval.Metric.Record
import RankEval.Metric.TopK
import RankEval.Metric.Validation
import RankEval.Proofs.Candidates.FirstSeen
import RankEval.Proofs.Candidates.Peak
import RankEval.Proofs.Double.Exact
import RankEval.Proofs.Double.Order
import RankEval.Proofs.Metric.MannWhitney
import RankEval.Proofs.Metric.SharedRanks
import RankEval.Proofs.Metric.Validity
import RankEval.Proofs.Decimal.Digits
import RankEval.Proofs.Decimal.Shortest
import RankEval.Proofs.Double.Bits
import RankEval.Proofs.Json.Records
import RankEval.Proofs.Report.Doubles
import RankEval.Proofs.Files.Saving
import RankEval.Proofs.Report.Rereading
import RankEval.Proofs.Campaign.Caching
import RankEval.Proofs.Engine.Order
import RankEval.Random.Bounded
import RankEval.Random.ChaCha
import RankEval.Random.Sample
import RankEval.Report.Basic
import RankEval.Report.Distribution
import RankEval.Report.Equality
import RankEval.Report.File
import RankEval.Report.Format
import RankEval.Report.Ledger
import RankEval.Report.Statistics
import RankEval.Report.Table
import RankEval.Settings.Basic
import RankEval.Settings.Environment
import RankEval.Settings.File
import RankEval.Settings.Format
import RankEval.Settings.Validity
import RankEval.Text.Basic
import RankEval.Yaml.BlockText
import RankEval.Yaml.Cursor
import RankEval.Yaml.Document
import RankEval.Yaml.Node
import RankEval.Yaml.PlainText
import RankEval.Yaml.Printer
import RankEval.Yaml.Property
import RankEval.Yaml.QuotedText
import RankEval.Yaml.Scalar
import RankEval.Yaml.Token
import RankEval.Yaml.Tokens
import RankEval.Proofs.Candidates.Scoring
import RankEval.Proofs.Json.Numbers
import RankEval.Proofs.Json.Lexing
import RankEval.Proofs.Json.Tree
import RankEval.Proofs.Files.Attempts
import RankEval.Proofs.Report.RoundTrip
import RankEval.Proofs.Report.Ledger
import RankEval.Proofs.Campaign.Units
import RankEval.Proofs.Campaign.Accounts
import RankEval.Proofs.Metric.NormalisedGain
import RankEval.Proofs.Engine.ResultFiles
import RankEval.Proofs.Report.Workers
import RankEval.Proofs.Campaign.Abort
import RankEval.Proofs.Campaign.History
import RankEval.Proofs.Campaign.Schedules
import RankEval.Proofs.Candidates.Confinement
import RankEval.Proofs.Candidates.Stored
import RankEval.Proofs.Decimal.Nearest
import RankEval.Proofs.Decimal.Layouts
import RankEval.Proofs.Document.Rereading
import RankEval.Proofs.Yaml.Words
import RankEval.Proofs.Yaml.Scanning
import RankEval.Proofs.Yaml.PlainData
import RankEval.Proofs.Yaml.Lexing
import RankEval.Proofs.Yaml.Tree
import RankEval.Proofs.Yaml.Scalars
import RankEval.Proofs.Yaml.Records
import RankEval.Proofs.Report.YamlRoundTrip
import RankEval.Proofs.Metric.Evaluation
import RankEval.Proofs.Double.Packing
import RankEval.Proofs.Candidates.Merging
import RankEval.Proofs.Files.Directories
import RankEval.Proofs.CommandLine.Arguments
import RankEval.Proofs.CommandLine.RunOptions
import RankEval.Proofs.CommandLine.RunCommand
import RankEval.Proofs.Double.Rounding
import RankEval.Proofs.Double.Operations
import RankEval.Proofs.Double.Sums
import RankEval.Proofs.Double.Faithful
import RankEval.Proofs.Metric.Normaliser
import RankEval.Proofs.Candidates.Coverage
import RankEval.Proofs.Metric.OrderOnly
import RankEval.Proofs.Inputs.Grouping
import RankEval.Proofs.Double.Quotients
import RankEval.Proofs.Metric.Cutoffs
import RankEval.Proofs.Metric.Promotion
import RankEval.Proofs.Candidates.Excluding
import RankEval.Proofs.Metric.CountedRanks
import RankEval.Proofs.Double.Zeros
import RankEval.Proofs.Metric.ExactRankSum
import RankEval.Proofs.Metric.Renumbering
import RankEval.Proofs.Random.Sample
import RankEval.Proofs.Inputs.TitleJoin
import RankEval.Proofs.Candidates.Labeled
import RankEval.Proofs.Candidates.OwnOutput
import RankEval.Proofs.Inputs.Readers
import RankEval.Proofs.Campaign.KeyMatrix
import RankEval.Proofs.Text.ByteOrder
import RankEval.Proofs.Files.Listing
import RankEval.Proofs.Inputs.Scanning
import RankEval.Proofs.CommandLine.QueryCommand
import RankEval.Proofs.Decimal.Rounded
import RankEval.Proofs.Json.QuickReading
import RankEval.Proofs.Inputs.WrittenScores
import RankEval.Proofs.Inputs.EngineFormats
import RankEval.Proofs.Text.Lines
import RankEval.Proofs.Engine.Labels
import RankEval.Proofs.Report.TableRows
import RankEval.Proofs.Metric.StableRanking
import RankEval.Proofs.Report.ExactStatistics
import RankEval.Proofs.Document.Defaults
import RankEval.Proofs.Settings.Sections
import RankEval.Proofs.Settings.Layers
import RankEval.Proofs.Candidates.FirstOccurrences
