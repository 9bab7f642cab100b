import UsageBilling.Number.FloatText

/-!
# What report runs count and measure

`ReportMetrics` counts runs, failures and facts, and keeps how long the queries to the metrics
source took.  A `Registry` exposes them as families, each name once.
-/

namespace UsageBilling

/-- A count that starts anew after `2 ^ 64 - 1`. -/
structure Counter where
  count : UInt64
  deriving DecidableEq

namespace Counter

def zero : Counter := ⟨0⟩

def incBy (c : Counter) (n : Nat) : Counter := ⟨c.count + UInt64.ofNat n⟩

def inc (c : Counter) : Counter := c.incBy 1

/-- The count as it is exposed: the nearest floating-point number, which is whole, but never more
than a count can be. -/
def reading (c : Counter) : Nat :=
  let x := c.count.toFloat
  let e := FloatText.exponent x
  min (twoPow 64 - 1)
    (if 0 ≤ e then FloatText.mantissa x * twoPow e.toNat
    else FloatText.mantissa x / twoPow (-e).toNat)

end Counter

/-- Durations in seconds, in the order they were observed. -/
structure Histogram where
  observations : List Float
  deriving DecidableEq

namespace Histogram

def empty : Histogram := ⟨[]⟩

def observe (h : Histogram) (seconds : Float) : Histogram := ⟨h.observations ++ [seconds]⟩

def count (h : Histogram) : Nat := h.observations.length

/-- The sum, added up in order from zero. -/
def sum (h : Histogram) : Float := h.observations.foldl (· + ·) 0

/-- How many observations are at most `bound`. -/
def countUpTo (h : Histogram) (bound : Float) : Nat := h.observations.countP fun x => x ≤ bound

@[simp] theorem count_empty : empty.count = 0 := rfl

@[simp] theorem count_observe (h : Histogram) (seconds : Float) :
    (h.observe seconds).count = h.count + 1 := by
  simp [observe, count]

theorem countUpTo_le_count (h : Histogram) (bound : Float) : h.countUpTo bound ≤ h.count :=
  List.countP_le_length

end Histogram

/-- The upper bounds, in seconds, up to which query durations are counted. -/
def durationBounds : List Float := [0.05, 0.1, 0.25, 0.5, 1, 2.5, 5, 10, 30, 60]

/-- What was counted and measured so far. -/
structure ReportMetrics where
  /-- Successful runs. -/
  runs : Counter
  /-- Failed runs. -/
  failures : Counter
  /-- Facts that successful runs wrote. -/
  facts : Counter
  queryDurations : Histogram
  deriving DecidableEq

/-- What a family shows. -/
inductive FamilyValue where
  | counter (reading : Nat)
  /-- The buckets are upper bounds with the count of all observations up to them. -/
  | histogram (count : Nat) (sum : Float) (buckets : List (Float × Nat))
  deriving DecidableEq

/-- A named metric with its help text. -/
structure MetricFamily where
  name : String
  help : String
  value : FamilyValue
  deriving DecidableEq

namespace ReportMetrics

def zero : ReportMetrics := ⟨.zero, .zero, .zero, .empty⟩

/-- A run that wrote `facts` facts was successful. -/
def countRun (m : ReportMetrics) (facts : Nat) : ReportMetrics :=
  { m with runs := m.runs.inc, facts := m.facts.incBy facts }

/-- A run failed. -/
def countFailure (m : ReportMetrics) : ReportMetrics := { m with failures := m.failures.inc }

/-- A query to the metrics source took some time. -/
def observeQuery (m : ReportMetrics) (seconds : Float) : ReportMetrics :=
  { m with queryDurations := m.queryDurations.observe seconds }

def families (m : ReportMetrics) : List MetricFamily :=
  [⟨"meterbook_report_runs_total", "Total successful report runs (one per hour and query)",
      .counter m.runs.reading⟩,
    ⟨"meterbook_report_failures_total", "Total failed report runs", .counter m.failures.reading⟩,
    ⟨"meterbook_facts_upserted_total", "Total facts inserted or updated",
      .counter m.facts.reading⟩,
    ⟨"meterbook_metrics_query_duration_seconds", "Duration of metrics source queries",
      .histogram m.queryDurations.count m.queryDurations.sum
        (durationBounds.map fun b => (b, m.queryDurations.countUpTo b))⟩]

end ReportMetrics

/-- The names of the families a registry exposes. -/
structure Registry where
  names : List String
  deriving DecidableEq

namespace Registry

def empty : Registry := ⟨[]⟩

/-- Expose all families, unless a name is taken. -/
def register? (r : Registry) (m : ReportMetrics) : Option Registry :=
  let names := m.families.map (·.name)
  if names.any (· ∈ r.names) then none else some ⟨r.names ++ names⟩

/-- The exposed families. -/
def gather (r : Registry) (m : ReportMetrics) : List MetricFamily :=
  m.families.filter fun family => family.name ∈ r.names

end Registry

end UsageBilling
