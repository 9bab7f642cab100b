import UsageBilling.Invoice.Generate
import UsageBilling.Json.Parser
import UsageBilling.Json.Printer
import UsageBilling.Prometheus.Exchange
import UsageBilling.Reconcile
import UsageBilling.Report.Run
import UsageBilling.Session.Lemmas
import UsageBilling.Session.Script
import UsageBilling.Settings
import UsageBilling.Store.Starter
import UsageBilling.Proofs.Session.Course
import UsageBilling.Proofs.Session.Outcome
import UsageBilling.Proofs.Store.Reply
import UsageBilling.Proofs.Report.Transcript
import UsageBilling.Proofs.Session.Transaction
import UsageBilling.Proofs.Report.Atomicity
import UsageBilling.Proofs.Report.Collision
import UsageBilling.Proofs.Report.Conformance
import UsageBilling.Proofs.Call.Basic
import UsageBilling.Proofs.Call.Refusal
import UsageBilling.Proofs.Call.Discipline
import UsageBilling.Proofs.Call.FiniteFacts
import UsageBilling.Proofs.Calendar.Hours
import UsageBilling.Proofs.Calendar.Civil
import UsageBilling.Proofs.Calendar.Months
import UsageBilling.Proofs.Calendar.HourOrder
import UsageBilling.Proofs.SourceKey.Candidates
import UsageBilling.Proofs.SourceKey.Specificity
import UsageBilling.Proofs.SourceKey.Enumeration
import UsageBilling.Proofs.SourceKey.RoundTrip
import UsageBilling.Proofs.Session.Enclosure
import UsageBilling.Proofs.Session.Conformance
import UsageBilling.Proofs.Store.Course
import UsageBilling.Proofs.Store.Ledger
import UsageBilling.Proofs.Report.Replacement
import UsageBilling.Proofs.Report.Reordering
import UsageBilling.Proofs.Invoice.Reading
import UsageBilling.Proofs.Invoice.Nesting
import UsageBilling.Proofs.Number.ExactSum
import UsageBilling.Proofs.Number.FloatGrammar
import UsageBilling.Proofs.Json.Record
import UsageBilling.Proofs.Prometheus.Shape
import UsageBilling.Proofs.Prometheus.Decoding
import UsageBilling.Proofs.Invoice.Totals
import UsageBilling.Proofs.Report.Range
import UsageBilling.Proofs.Report.Splitting
import UsageBilling.Proofs.Report.Resumption
import UsageBilling.Proofs.Reconcile.Exchange
import UsageBilling.Proofs.Reconcile.CategoryStore
import UsageBilling.Proofs.Reconcile.Convergence
import UsageBilling.Proofs.Reconcile.Unchanged
import UsageBilling.Proofs.Report.Defect
import UsageBilling.Proofs.Report.Malformed
import UsageBilling.Proofs.Report.Metering
import UsageBilling.Proofs.Report.Accounting
import UsageBilling.Proofs.Calendar.HourList
import UsageBilling.Proofs.SourceKey.Repetition
import UsageBilling.Proofs.Invoice.Period
import UsageBilling.Proofs.Settings.Layers
import UsageBilling.Proofs.Selections
import UsageBilling.Proofs.Json.RoundTrip
import UsageBilling.Proofs.Calendar.InstantText
import UsageBilling.Proofs.Number.AmountText
import UsageBilling.Proofs.Store.RecordForm
import UsageBilling.Proofs.Number.WholeFloat
import UsageBilling.Proofs.Settings.Written
import UsageBilling.Proofs.Settings.Number
