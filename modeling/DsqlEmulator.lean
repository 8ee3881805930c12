import DsqlEmulator.Runs
import DsqlEmulator.Strings
import DsqlEmulator.Line
import DsqlEmulator.Guard
import DsqlEmulator.Table
import DsqlEmulator.Slot
import DsqlEmulator.Wire.Message
import DsqlEmulator.Txn.Tracker
import DsqlEmulator.Txn.Boundaries
import DsqlEmulator.Txn.Batches
import DsqlEmulator.Occ.Intent
import DsqlEmulator.Occ.Tree
import DsqlEmulator.Occ.Params
import DsqlEmulator.Occ.Shadow
import DsqlEmulator.Occ.Counts
import DsqlEmulator.Proxy.Session
import DsqlEmulator.Proxy.Version
import DsqlEmulator.Classify.Classifier
import DsqlEmulator.Classify.Statements
import DsqlEmulator.Proxy.Act
import DsqlEmulator.Proxy.World
import DsqlEmulator.Proxy.Threads
import DsqlEmulator.Proxy.HiddenLaws
import DsqlEmulator.Proxy.OrderLaws
import DsqlEmulator.Proxy.FailureLaws
import DsqlEmulator.Proxy.Deferred
import DsqlEmulator.Proxy.Takeover
import DsqlEmulator.Proxy.Refusals
import DsqlEmulator.Proxy.Repairs
import DsqlEmulator.Proxy.AnswerOrder
import DsqlEmulator.Proxy.RefusalOrder
import DsqlEmulator.Proxy.Routes
import DsqlEmulator.Proxy.Gate
import DsqlEmulator.Proxy.Intents
import DsqlEmulator.Proxy.Prepared
import DsqlEmulator.Proxy.Cache
import DsqlEmulator.Proxy.Admissions
import DsqlEmulator.Proxy.Cadence
import DsqlEmulator.Proxy.Touched
import DsqlEmulator.Dues
import DsqlEmulator.Postgres.Server
import DsqlEmulator.Proxy.Budget
import DsqlEmulator.Proxy.Restarts
import DsqlEmulator.Proxy.Async
import DsqlEmulator.Proxy.Executions
import DsqlEmulator.Proxy.ShowTags
import DsqlEmulator.Proxy.JobIds
import DsqlEmulator.Proxy.Layout
import DsqlEmulator.Proxy.Readies
import DsqlEmulator.Proxy.LockStep
import DsqlEmulator.Classify.Embedded
import DsqlEmulator.Classify.Caches
import DsqlEmulator.Classify.Changes
import DsqlEmulator.Classify.Isolation
import DsqlEmulator.Proxy.Exemptions
import DsqlEmulator.Proxy.Rewrite
import DsqlEmulator.Proxy.Spellings
import DsqlEmulator.Classify.Tree
import DsqlEmulator.Classify.Eval
import DsqlEmulator.Rules.Ruleset
import DsqlEmulator.Postgres.Isolation
import DsqlEmulator.Cuts
import DsqlEmulator.Wire.Startup
import DsqlEmulator.Conformance.Compare
import DsqlEmulator.Conformance.Detection
import DsqlEmulator.Classify.Causes
import DsqlEmulator.Wire.Framing
import DsqlEmulator.Framer
import DsqlEmulator.Arrange
import DsqlEmulator.Conformance.Races
import DsqlEmulator.Conformance.Fixture
import DsqlEmulator.Conformance.Directory
import DsqlEmulator.Proxy.Agreement
import DsqlEmulator.Postgres.Commits
import DsqlEmulator.Proxy.Dialogue
import DsqlEmulator.Proxy.SimpleQueries
import DsqlEmulator.Proxy.SimpleClient
import DsqlEmulator.Proxy.Transparency
import DsqlEmulator.Proxy.Exchanges
import DsqlEmulator.Proxy.OwnIntents
import DsqlEmulator.Proxy.Provenance
import DsqlEmulator.Proxy.Traffic
import DsqlEmulator.Proxy.Relay
import DsqlEmulator.Proxy.Handshake
import DsqlEmulator.Proxy.Serve
