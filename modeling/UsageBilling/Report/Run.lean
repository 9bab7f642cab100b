import UsageBilling.Report.Ingest

/-!
# Report runs

`Report.run` ingests one hour in a transaction of its own.  `Report.runRange` runs the hours of a
half-open range one after the other and stops at the first that fails; the hours before it stay
committed, and the failure says how many they are.
-/

namespace UsageBilling.Report

variable {σ : Type}

/-- Count the facts of a run that succeeds, or its failure. -/
def counted (o : ReportOptions) (run : Session σ Nat) : Session σ Nat :=
  if o.measured then
    tryCatch
      (do
        let facts ← run
        Session.measure (·.countRun facts)
        pure facts)
      fun stop => do
        -- a run that never ends or runs out of range is not counted
        if stop matches .failed _ then Session.measure (·.countFailure)
        throw stop
  else run

/-- Ingest a query for the hour that starts at a time: how many facts were written. -/
def run (o : ReportOptions) (name : String) (time : Timestamp) : Session σ Nat := do
  requireHourStart time
  counted o (Session.transaction .readWrite (ingestFamily o name time))

/-- A failure of the hour in hand aborts the range. -/
def abortRange (completed : Nat) (time : Timestamp) : Stop → Stop
  | .failed e => .failed (.rangeAborted completed time e)
  | stop => stop

/-- Run an hour of a range, of which `completed` hours are done already, and tell of it. -/
def runHour (o : ReportOptions) (name : String) (completed : Nat) (time : Timestamp) :
    Session σ Unit := do
  let _ ← tryCatch (run o name time) fun stop => throw (abortRange completed time stop)
  if o.showProgress then Session.record (.progress time (completed + 1))

/-- Run the hours `time, time + 1 h, …` before `stop`, of a range of which `completed` hours are
done already: how many are done then.  As in `hourSpan`, the hour after the one in hand is computed
before anything else. -/
def runHours (o : ReportOptions) (name : String) (stop : Timestamp) (completed : Nat)
    (time : Timestamp) : Session σ Nat :=
  match h : time.addHour? with
  | none => throw .overflow
  | some next =>
    if hlt : time < stop then do
      runHour o name completed time
      runHours o name stop (completed + 1) next
    else pure completed
termination_by (stop.seconds + 1 - time.seconds).toNat
decreasing_by
  have := Timestamp.seconds_of_addHour? h
  have := Timestamp.lt_iff.1 hlt
  omega

/-- Run the hours from `start` and before `stop`: how many they are. -/
def runRange (o : ReportOptions) (name : String) (start stop : Timestamp) : Session σ Nat := do
  requireHourStart start
  if stop < start then Session.fail (.validation (.invalidRange start stop))
  runHours o name stop 0 start

end UsageBilling.Report
