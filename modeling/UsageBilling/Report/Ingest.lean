import UsageBilling.Report.Usage
import UsageBilling.Store.Catalog
import UsageBilling.Store.Dimension

/-!
# Ingesting an hour

The samples of a query at an hour become facts.  The query is evaluated at the end of the hour,
since the source of metrics looks backwards from the time it is given.  Each sample is checked
before anything is stored for it; product and discount are those that are valid at the start of the
hour.  After the query itself come the queries right under it.
-/

namespace UsageBilling

/-- The source's outcome and the time it took, unless that is longer than the limit. -/
def Evaluation.within (limit : Option Duration) :
    Evaluation → Option (Duration × Except BillingError (List Sample))
  | .silent => none
  | .answered elapsed outcome =>
    if limit.all fun l => elapsed.nanos ≤ l.nanos then some (elapsed, outcome) else none

/-- How to run a report. -/
structure ReportOptions where
  /-- The longest to wait for the source of metrics. -/
  queryLimit : Option Duration
  /-- Tell of each completed hour of a range. -/
  showProgress : Bool
  /-- Keep the metrics of runs. -/
  measured : Bool
  deriving DecidableEq

namespace Report

variable {σ : Type}

/-- Fail unless an hour starts at the time. -/
def requireHourStart (time : Timestamp) : Session σ Unit :=
  if time.isHourStart then pure () else Session.fail (.validation (.unalignedTimestamp time))

/-- The samples of a query text at a time.  A query that is answered in time is measured, whatever
the answer. -/
def evaluate (o : ReportOptions) (text : String) (time : Timestamp) : Session σ (List Sample) := do
  let answer ← Session.ask fun env => env.evaluate text time
  Session.record (.evaluation text time answer)
  match answer.within o.queryLimit, o.queryLimit with
  | some (elapsed, outcome), _ =>
    -- measured before the outcome is looked at: failed queries take time too
    if o.measured then Session.measure (·.observeQuery elapsed.seconds)
    Session.ofExcept id outcome
  | none, some limit => Session.fail (.metricsSource (.timeout limit))
  | none, none => throw .stalled

/-- Store the usage of an hour as a fact. -/
def store (query : Query) (hour : HourBucket) (usage : Usage) : Session σ Fact := do
  let tenant ← Store.upsertTenant usage.tenant
  let category ← Store.upsertCategory usage.category
  let keys := usage.product.lookupKeys
  let product ← Store.findProduct keys hour.timestamp
  let discount ← Store.findDiscount keys hour.timestamp
  let hourRecord ← Store.upsertHour hour
  Store.upsertFact ⟨hourRecord.id, query.id, tenant.id, category.id, product.id, discount.id⟩
    usage.quantity

/-- Check a sample and store its usage. -/
def ingestSample (query : Query) (hour : HourBucket) (sample : Sample) : Session σ Unit := do
  let usage ← Session.ofExcept id (Usage.ofSample query sample)
  let _ ← store query hour usage

/-- Store the samples of a query for the hour that starts at a time: how many there are. -/
def ingestQuery (o : ReportOptions) (time : Timestamp) (query : Query) : Session σ Nat := do
  let hourEnd ← Session.inRange time.addHour?
  let samples ← evaluate o query.query hourEnd
  samples.forM (ingestSample query (.ofTimestamp time))
  pure samples.length

/-- Store the samples of a query and of the queries right under it: how many there are. -/
def ingestFamily (o : ReportOptions) (name : String) (time : Timestamp) : Session σ Nat := do
  let query ← Store.findQuery name time
  -- the query itself is stored before those under it are looked up
  let count ← ingestQuery o time query
  let below ← Store.subQueries query.id time
  let counts ← below.mapM (ingestQuery o time)
  pure (counts.foldl (· + ·) count)

/-- Ingest a query for the hour that starts at a time, inside the caller's transaction. -/
def ingest (o : ReportOptions) (name : String) (time : Timestamp) : Session σ Nat := do
  requireHourStart time
  ingestFamily o name time

end Report

end UsageBilling
