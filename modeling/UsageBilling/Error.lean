import UsageBilling.Calendar.Duration
import UsageBilling.Calendar.Rfc3339
import UsageBilling.Number.FloatText
import UsageBilling.SourceKey

/-!
# What can go wrong

`BillingError` is every failure of the library by its cause.  `BillingError.message?` is the text
shown to an operator; failures that the database client or the JSON reader words itself have none.
An aborted range tells of the failure of its last hour and answers for it in
`BillingError.isNotFound` and `BillingError.constraintCode`.
-/

namespace UsageBilling

/-- An input that does not fit the rules. -/
inductive ValidationError where
  | unalignedTimestamp (time : Timestamp)
  | missingLabel (name : String)
  | unexpectedResultType (kind : String)
  | invalidMonth (month : Nat)
  | nonFiniteValue (query product : String) (value : Float)
  | rangeBounds (range : String)
  | invalidRange (start stop : Timestamp)
  deriving DecidableEq

/-- The two tables that are looked up by source keys. -/
inductive CatalogTable where
  | products
  | discounts
  deriving DecidableEq

/-- A lookup without a match. -/
inductive NotFoundError where
  | query (name : String) (time : Timestamp)
  | record (table : CatalogTable) (key : String) (time : Timestamp)
  deriving DecidableEq

/-- A failure of the metrics source. -/
inductive MetricsSourceError where
  | transport (text : String)
  | api (errorType message : String)
  /-- The answer is not JSON of the expected shape. -/
  | malformed
  | decode (text : String)
  | timeout (limit : Duration)
  deriving DecidableEq

/-- A failure of the store. -/
inductive StorageError where
  /-- The database refused a statement. -/
  | database (code message : String)
  | rowNotFound
  /-- A cell does not fit its field. -/
  | columnDecode
  /-- There is no connection to be had. -/
  | unavailable
  deriving DecidableEq

/-- Every failure, by its cause. -/
inductive BillingError where
  | validation (e : ValidationError)
  | sourceKey (e : SegmentCountError)
  | notFound (e : NotFoundError)
  | metricsSource (e : MetricsSourceError)
  | storage (e : StorageError)
  /-- A range stopped at an hour, after some hours were completed. -/
  | rangeAborted (completed : Nat) (time : Timestamp) (source : BillingError)
  | reconciler (text : String)
  | config (text : String)
  | internal (text : String)
  deriving DecidableEq

/-! ### Texts -/

def ValidationError.message : ValidationError → String
  | .unalignedTimestamp t => s!"timestamp {t.display} must be truncated to the hour (UTC)"
  | .missingLabel name => s!"expected sample to contain label '{name}'"
  | .unexpectedResultType kind => s!"expected metrics query to return a vector, got {kind}"
  | .invalidMonth month => s!"unknown month {month}"
  | .nonFiniteValue query product value =>
    "sample value " ++ FloatText.render value ++
      s!" of query '{query}' for product '{product}' is not a finite number"
  | .rangeBounds range =>
    s!"validity range {range} must have an inclusive start and an exclusive end"
  | .invalidRange start stop => s!"invalid range: {start.display} is not before {stop.display}"

def SegmentCountError.message (e : SegmentCountError) : String :=
  s!"expected key with 4 to 5 elements separated by `:` got {e.count} in '{e.raw}'"

def CatalogTable.name : CatalogTable → String
  | .products => "products"
  | .discounts => "discounts"

def NotFoundError.message : NotFoundError → String
  | .query name t => s!"no query named '{name}' valid at {t.display}"
  | .record table key t => s!"no {table.name} record matching '{key}' valid at {t.display}"

def MetricsSourceError.message? : MetricsSourceError → Option String
  | .transport text => some s!"request failed: {text}"
  | .api errorType message => some s!"query failed with {errorType}: {message}"
  | .malformed => none
  | .decode text => some s!"failed to decode response: {text}"
  | .timeout limit => some s!"query timed out after {limit.render}"

def StorageError.message? : StorageError → Option String
  | .database _ message => some s!"error returned from database: {message}"
  | .rowNotFound =>
    some "no rows returned by a query that expected to return at least one row"
  | .columnDecode => none
  | .unavailable => none

namespace BillingError

/-- The text shown to an operator. -/
def message? : BillingError → Option String
  | .validation e => some ("Validation error: " ++ e.message)
  | .sourceKey e => some ("Source key error: " ++ e.message)
  | .notFound e => some ("Not found: " ++ e.message)
  | .metricsSource e => e.message?.map ("Metrics source error: " ++ ·)
  | .storage e => e.message?.map ("Storage error: " ++ ·)
  | .rangeAborted completed t source => source.message?.map fun text =>
    s!"Report range aborted at {t.display} after {completed} completed hour(s): {text}"
  | .reconciler text => some ("Reconciler error: " ++ text)
  | .config text => some ("Configuration error: " ++ text)
  | .internal text => some ("Internal error: " ++ text)

/-- A query, product or discount was not found. -/
def isNotFound : BillingError → Bool
  | .notFound _ => true
  | .rangeAborted _ _ source => source.isNotFound
  | _ => false

/-- The code with which the database refused a statement. -/
def constraintCode : BillingError → Option String
  | .storage (.database code _) => some code
  | .rangeAborted _ _ source => source.constraintCode
  | _ => none

end BillingError

end UsageBilling
