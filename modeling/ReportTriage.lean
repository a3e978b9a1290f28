import ReportTriage.Lib.Machine
import ReportTriage.Lib.Board
import ReportTriage.Lib.Slots
import ReportTriage.Lib.Counting
import ReportTriage.Lib.Joined
import ReportTriage.Lib.Upsert
import ReportTriage.Lib.UpsertAlone
import ReportTriage.Lib.WriteBack
import ReportTriage.Lib.KeyOrder
import ReportTriage.Lib.Reader
import ReportTriage.Lib.Scanner
import ReportTriage.Lib.Keyset
import ReportTriage.Lib.Calendar
import ReportTriage.Lib.Validated
import ReportTriage.Schema
import ReportTriage.Stored
import ReportTriage.Text
import ReportTriage.Payloads
import ReportTriage.Rules
import ReportTriage.Evidence
import ReportTriage.Upserts
import ReportTriage.Overwrites
import ReportTriage.Cursor
import ReportTriage.CursorCodec
import ReportTriage.Listing
import ReportTriage.Pagination
import ReportTriage.Workflow
import ReportTriage.Control
import ReportTriage.ReportedFailure
import ReportTriage.Consumer
import ReportTriage.Redelivery
import ReportTriage.NatsClient
import ReportTriage.System
import ReportTriage.Columns
import ReportTriage.Storage
import ReportTriage.Requests
import ReportTriage.Effects
import ReportTriage.Parties
import ReportTriage.Coherence
import ReportTriage.StatusWrites
import ReportTriage.Intake
import ReportTriage.Justification
import ReportTriage.Causality
import ReportTriage.Readers
import ReportTriage.Publication
import ReportTriage.StartWindow
import ReportTriage.StatusOrder
import ReportTriage.LastRun
import ReportTriage.Retries
import ReportTriage.Healing
import ReportTriage.Draining
import ReportTriage.Recovery
import ReportTriage.Operator
import ReportTriage.Encodings
import ReportTriage.Json
import ReportTriage.JsonGrammar
import ReportTriage.EventFormat
import ReportTriage.Decoding
import ReportTriage.Pipeline
import ReportTriage.Delivery
import ReportTriage.Budget
import ReportTriage.Postings
import ReportTriage.Board
import ReportTriage.Processes
import ReportTriage.Startup
import ReportTriage.StartRaces
