import Measurement.Address
import Measurement.Authorizer
import Measurement.Binary64.Basic
import Measurement.Binary64.Decimal
import Measurement.Clock
import Measurement.Component.Basic
import Measurement.Component.Exchange
import Measurement.Component.Undertaking
import Measurement.Configuration.Basic
import Measurement.Configuration.Timeout
import Measurement.Constraint
import Measurement.Crontab.Basic
import Measurement.Crontab.Field
import Measurement.Crontab.Search
import Measurement.Crontab.Text
import Measurement.Digest
import Measurement.Fault
import Measurement.Frame
import Measurement.Job.Basic
import Measurement.Job.Progress
import Measurement.Json.Basic
import Measurement.Json.Document
import Measurement.Json.Fault
import Measurement.Json.Number
import Measurement.Message.Basic
import Measurement.Message.Reading
import Measurement.Message.Writing
import Measurement.Primitive
import Measurement.Proofs.Address
import Measurement.Proofs.Authorizer
import Measurement.Proofs.Component
import Measurement.Proofs.Constraint
import Measurement.Proofs.Constraint.Choice
import Measurement.Proofs.Constraint.Reread
import Measurement.Proofs.Crontab.Canonical
import Measurement.Proofs.Crontab.Grammar
import Measurement.Proofs.Crontab.InPlace
import Measurement.Proofs.Crontab.Masks
import Measurement.Proofs.Crontab.Search
import Measurement.Proofs.Crontab.Text
import Measurement.Proofs.Digest
import Measurement.Proofs.Exchange
import Measurement.Proofs.Frame
import Measurement.Proofs.Job.Actions
import Measurement.Proofs.Job.Lateness
import Measurement.Proofs.Job.Outcome
import Measurement.Proofs.Job.OuterEnd
import Measurement.Proofs.Job.Ownership
import Measurement.Proofs.Job.Punctual
import Measurement.Proofs.Job.Replies
import Measurement.Proofs.Job.Series
import Measurement.Proofs.Job.Shared
import Measurement.Proofs.Job.Turns
import Measurement.Proofs.Message.Derivation
import Measurement.Proofs.Message.Identity
import Measurement.Proofs.Message.Reading
import Measurement.Proofs.Message.RoundTrip
import Measurement.Proofs.Message.Submission
import Measurement.Proofs.Message.Travel
import Measurement.Proofs.Message.Written
import Measurement.Proofs.Progress
import Measurement.Proofs.Readers
import Measurement.Proofs.Registry.Loading
import Measurement.Proofs.Registry.Merging
import Measurement.Proofs.Registry.Nesting
import Measurement.Proofs.Registry.Stability
import Measurement.Proofs.Scalar
import Measurement.Proofs.Scheduler.Admission
import Measurement.Proofs.Scheduler.Catalog
import Measurement.Proofs.Scheduler.History
import Measurement.Proofs.Scheduler.Joining
import Measurement.Proofs.Scheduler.Redemption
import Measurement.Proofs.Scheduler.Routing
import Measurement.Proofs.Scheduler.Sharing
import Measurement.Proofs.Scheduler.Timeliness
import Measurement.Proofs.Scope.Bounded
import Measurement.Proofs.Scope.CalendarEnd
import Measurement.Proofs.Scope.Delays
import Measurement.Proofs.Scope.Following
import Measurement.Proofs.Scope.Occurrences
import Measurement.Proofs.Scope.Periods
import Measurement.Proofs.Scope.Plain
import Measurement.Proofs.Scope.Series
import Measurement.Proofs.Scope.Text
import Measurement.Proofs.Scope.Ticks
import Measurement.Proofs.Scope.Waits
import Measurement.Proofs.Service.Ticking
import Measurement.Proofs.Statement.Acceptance
import Measurement.Proofs.Statement.Alike
import Measurement.Proofs.Statement.Cells
import Measurement.Proofs.Statement.Content
import Measurement.Proofs.Statement.InPlace
import Measurement.Proofs.Statement.Operations
import Measurement.Proofs.Statement.Rows
import Measurement.Proofs.Statement.Settled
import Measurement.Proofs.Statement.Typing
import Measurement.Proofs.Table
import Measurement.Proofs.Text.Cuts
import Measurement.Proofs.Text.Numeral
import Measurement.Proofs.Text.Rows
import Measurement.Proofs.Time.Calendar
import Measurement.Proofs.Time.InPlace
import Measurement.Proofs.Time.Instant
import Measurement.Proofs.Time.Span
import Measurement.Proofs.Time.Sums
import Measurement.Proofs.Time.Terms
import Measurement.Proofs.Time.Text
import Measurement.Proofs.Time.Timers
import Measurement.Proofs.Value
import Measurement.Registry.Basic
import Measurement.Registry.Core
import Measurement.Registry.Document
import Measurement.Registry.Files
import Measurement.Registry.Store
import Measurement.Scheduler
import Measurement.Scope.Basic
import Measurement.Scope.Occurrences
import Measurement.Scope.Text
import Measurement.Service.Activity
import Measurement.Service.Basic
import Measurement.Statement.Basic
import Measurement.Statement.Column
import Measurement.Statement.Identity
import Measurement.Statement.Kinds
import Measurement.Statement.Parameter
import Measurement.Table
import Measurement.Text.Blank
import Measurement.Text.Numeral
import Measurement.Text.Quoted
import Measurement.Text.Split
import Measurement.Text.Unprintable
import Measurement.Time.Calendar
import Measurement.Time.Instant
import Measurement.Time.Span
import Measurement.Time.Text
import Measurement.Time.Timeline
import Measurement.Toml.Document
import Measurement.Toml.Scalar
import Measurement.Toml.Table
import Measurement.Toml.Text
import Measurement.Value
