import UsageBilling.Proofs.Report.Metering
import UsageBilling.Proofs.Report.Replacement

/-!
# What report runs count

Every run of an hour is counted once, after its transaction has ended: as a success with its facts,
or as a failure.

* `Report.HourRun` : a run of an hour, from the world it starts in.
* `Report.Accounts env base runs m` : the counters of `m` are those of `base` and what the runs of
  hours come to.
* `Report.HourRun.counters_ended`, `Report.HourRun.accounts` : a run is accounted for when it ends,
  and not while its transaction is open.
* `Report.RangeRuns` : the runs of a range, to its end or up to the first that fails.
* `ReportCall.Makes`, `ReportCall.Made` : the runs of hours that a call makes, and those of a
  session.
* `ReportCall.runAll_accounts` : at every point of a session the counters account for the runs so
  far.
-/

namespace UsageBilling

open Session Timestamp

variable {σ : Type}

/-! ### Counters -/

/-- What is counted of runs. -/
def ReportMetrics.counters (m : ReportMetrics) : Counter × Counter × Counter :=
  (m.runs, m.failures, m.facts)

namespace Report

/-- Nothing is counted. -/
def Uncounted : Gauge := fun _ g => ∀ m, (g m).counters = m.counters

theorem uncounted_composes : Uncounted.Composes where
  quiet := fun _ _ => rfl
  append := fun h h' m => (h' _).trans (h m)

/-- Observing a query counts nothing. -/
theorem uncounted_evaluation {o : ReportOptions} (text : String) (time : Timestamp)
    (answer : Evaluation) : Uncounted [.evaluation text time answer] (observed o answer) := by
  intro m
  unfold observed
  split
  · split <;> rfl
  · rfl

theorem counters_of_keeps {x : Session σ Nat} (h : Keeps x Uncounted) (env : Environment σ)
    (w : World σ) : (runIn env w x).2.metrics.counters = w.metrics.counters := by
  obtain ⟨c, s', htakes, -, hc⟩ := h env w.outside
  have hrun : (runIn env w x).2.metrics = c.measured w.metrics :=
    congrArg (fun p => p.2.metrics) (htakes w.trace w.metrics)
  rw [hrun]
  exact hc _

/-- The transaction of a run counts nothing. -/
theorem uncounted_transaction (o : ReportOptions) (name : String) (time : Timestamp) :
    Keeps (transaction .readWrite (ingestFamily o name time) : Session σ Nat) Uncounted :=
  uncounted_composes.transaction (keeps_ingestFamily uncounted_composes uncounted_evaluation)

/-! ### Runs of an hour -/

/-- A run of an hour, from the world it starts in. -/
structure HourRun (σ : Type) where
  options : ReportOptions
  name : String
  time : Timestamp
  start : World σ

namespace HourRun

variable (env : Environment σ) (r : HourRun σ)

def result : Except Stop Nat := (runIn env r.start (run r.options r.name r.time)).1

/-- The world it leaves. -/
def after : World σ := (runIn env r.start (run r.options r.name r.time)).2

/-- The world when its transaction has ended. -/
def ended : World σ :=
  (runIn env r.start (transaction .readWrite (ingestFamily r.options r.name r.time))).2

/-- A success that is counted. -/
def succeeded : Bool := r.options.measured && r.result env matches .ok _

/-- At another time than the start of an hour nothing is tried. -/
def tried : Bool := r.time.seconds % 3600 = 0 ∧ r.time.nanos = 0

/-- A failure that is counted. -/
def failed : Bool := r.options.measured && r.tried && r.result env matches .error (.failed _)

/-- The facts that are counted. -/
def facts : Nat :=
  match r.result env with
  | .ok n => if r.options.measured then n else 0
  | .error _ => 0

end HourRun

/-- The counts are those at the beginning and what the runs of hours come to since; after the largest
one they start anew. -/
structure Accounts (env : Environment σ) (base : ReportMetrics) (runs : List (HourRun σ))
    (m : ReportMetrics) : Prop where
  runs_eq : m.runs.count = base.runs.count + UInt64.ofNat (runs.countP fun r => r.succeeded env)
  failures_eq :
    m.failures.count = base.failures.count + UInt64.ofNat (runs.countP fun r => r.failed env)
  facts_eq : m.facts.count = base.facts.count + UInt64.ofNat (runs.map fun r => r.facts env).sum

namespace Accounts

variable {env : Environment σ} {base m m' : ReportMetrics} {runs runs' : List (HourRun σ)}

/-- The counters are all that matters. -/
theorem of_counters (h : Accounts env base runs m) (hm : m'.counters = m.counters) :
    Accounts env base runs m' := by
  obtain ⟨hruns, hrest⟩ := Prod.mk.inj hm
  obtain ⟨hfailures, hfacts⟩ := Prod.mk.inj hrest
  exact ⟨hruns ▸ h.runs_eq, hfailures ▸ h.failures_eq, hfacts ▸ h.facts_eq⟩

theorem nil (env : Environment σ) (m : ReportMetrics) : Accounts env m [] m := by
  constructor <;> simp

theorem append (h : Accounts env base runs m) (h' : Accounts env m runs' m') :
    Accounts env base (runs ++ runs') m' where
  runs_eq := by
    rw [h'.runs_eq, h.runs_eq, List.countP_append, UInt64.ofNat_add, UInt64.add_assoc]
  failures_eq := by
    rw [h'.failures_eq, h.failures_eq, List.countP_append, UInt64.ofNat_add, UInt64.add_assoc]
  facts_eq := by
    rw [h'.facts_eq, h.facts_eq, List.map_append, List.sum_append, UInt64.ofNat_add,
      UInt64.add_assoc]

end Accounts

namespace HourRun

theorem tried_eq (r : HourRun σ) : r.tried = r.time.isHourStart := by
  rw [Bool.eq_iff_iff, tried, decide_eq_true_iff, isHourStart_iff]

/-- What counting a run comes to, if it is tried at all. -/
theorem accounts_countedAs {env : Environment σ} {r : HourRun σ} (haligned : r.time.isHourStart)
    {m : ReportMetrics} (hm : m.counters = r.start.metrics.counters) :
    Accounts env r.start.metrics [r] (countedAs r.options (r.result env) m) := by
  obtain ⟨hruns, hrest⟩ := Prod.mk.inj hm
  obtain ⟨hfailures, hfacts⟩ := Prod.mk.inj hrest
  by_cases hmeasured : r.options.measured
  · rcases hresult : r.result env with (e | _ | _) | n <;> constructor <;>
      simp [countedAs, succeeded, failed, facts, hresult, hmeasured, tried_eq, haligned, hruns,
        hfailures, hfacts, ReportMetrics.countRun, ReportMetrics.countFailure, Counter.inc,
        Counter.incBy]
  · have hsame : countedAs r.options (r.result env) m = m := if_neg hmeasured
    rw [hsame]
    rcases hresult : r.result env with stop | n <;> constructor <;>
      simp [succeeded, failed, facts, hresult, hmeasured, hruns, hfailures, hfacts]

/-- While its transaction is open nothing is counted. -/
theorem counters_ended (env : Environment σ) (r : HourRun σ) :
    (r.ended env).metrics.counters = r.start.metrics.counters :=
  counters_of_keeps (uncounted_transaction r.options r.name r.time) env r.start

/-- At the start of an hour a run is its transaction, counted when that has ended. -/
theorem metrics_after {env : Environment σ} {r : HourRun σ} (haligned : r.time.isHourStart) :
    (r.after env).metrics = countedAs r.options (r.result env) (r.ended env).metrics := by
  obtain ⟨d, s', htakes, -, -⟩ :=
    uncounted_transaction r.options r.name r.time env r.start.outside
  have hended := htakes r.start.trace r.start.metrics
  have hrun : runIn env r.start (run r.options r.name r.time) = _ :=
    (takes_requireHourStart haligned).bind_silent (takes_counted htakes) r.start.trace
      r.start.metrics
  rw [after, result, ended, hrun, hended]
  rfl

/-- **A run is accounted for when it ends.** -/
theorem accounts (env : Environment σ) (r : HourRun σ) :
    Accounts env r.start.metrics [r] (r.after env).metrics := by
  cases haligned : r.time.isHourStart with
  | true =>
    rw [metrics_after haligned]
    exact accounts_countedAs haligned (r.counters_ended env)
  | false =>
    have hrun : runIn env r.start (run r.options r.name r.time) = _ :=
      takes_run_of_not_isHourStart haligned r.start.trace r.start.metrics
    constructor <;> simp [after, succeeded, failed, facts, result, hrun, tried_eq, haligned]

end HourRun

/-- What separates runs of hours counts nothing. -/
inductive Chained (env : Environment σ) : World σ → List (HourRun σ) → World σ → Prop
  | nil {w w' : World σ} : w'.metrics.counters = w.metrics.counters → Chained env w [] w'
  | cons {w w' : World σ} {r : HourRun σ} {runs : List (HourRun σ)} :
      r.start.metrics.counters = w.metrics.counters → Chained env (r.after env) runs w' →
      Chained env w (r :: runs) w'

namespace Chained

variable {env : Environment σ} {w w' w'' : World σ} {runs runs' : List (HourRun σ)}

theorem of_counters (h : Chained env w' runs w'')
    (hcounters : w'.metrics.counters = w.metrics.counters) : Chained env w runs w'' := by
  cases h with
  | nil hw => exact .nil (hw.trans hcounters)
  | cons hstart hrest => exact .cons (hstart.trans hcounters) hrest

theorem append (h : Chained env w runs w') (h' : Chained env w' runs' w'') :
    Chained env w (runs ++ runs') w'' := by
  induction h with
  | nil hw => exact h'.of_counters hw
  | cons hstart _ ih => exact .cons hstart (ih h')

/-- **The counters account for the runs so far**, at the start of each, when its transaction has
ended, when it is over, and in the end. -/
theorem accounts {base : ReportMetrics} {done : List (HourRun σ)} (h : Chained env w runs w')
    (hdone : Accounts env base done w.metrics) :
    Accounts env base (done ++ runs) w'.metrics ∧
      ∀ before r after, runs = before ++ r :: after →
        Accounts env base (done ++ before) r.start.metrics ∧
          Accounts env base (done ++ before) (r.ended env).metrics ∧
          Accounts env base (done ++ before ++ [r]) (r.after env).metrics := by
  induction h generalizing done with
  | nil hw =>
    rw [List.append_nil]
    refine ⟨hdone.of_counters hw, fun before r after h => ?_⟩
    cases before <;> cases h
  | @cons w w' r runs hstart _ ih =>
    have hr := hdone.of_counters hstart
    have hrun := hr.append (r.accounts env)
    obtain ⟨hall, hrest⟩ := ih hrun
    rw [List.append_assoc] at hall
    refine ⟨hall, fun before r' after h => ?_⟩
    cases before with
    | nil =>
      obtain ⟨rfl, rfl⟩ := List.cons.inj h
      rw [List.append_nil]
      exact ⟨hr, hr.of_counters (r.counters_ended env), hrun⟩
    | cons r'' before =>
      obtain ⟨rfl, htail⟩ := List.cons.inj h
      have hlater := hrest before r' after htail
      rwa [List.append_assoc] at hlater

end Chained

/-! ### Ranges -/

/-- The world after an hour of a range is told of. -/
def told (o : ReportOptions) (time : Timestamp) (count : Nat) (w : World σ) : World σ :=
  { w with trace := w.trace ++ progressSteps o time count }

/-- The runs that the hours of a range before `stop` make from `time` on, when `k` hours are done
already, and what these come to. -/
inductive RangeRuns (env : Environment σ) (o : ReportOptions) (name : String) (stop : Timestamp) :
    Nat → Timestamp → World σ → List (HourRun σ) → Except Stop Nat × World σ → Prop
  | ofCalendarEnd {k : Nat} {time : Timestamp} {w : World σ} : time.addHour? = none →
      RangeRuns env o name stop k time w [] (.error .overflow, w)
  | finished {k : Nat} {time next : Timestamp} {w : World σ} : time.addHour? = some next →
      ¬ time < stop → RangeRuns env o name stop k time w [] (.ok k, w)
  | aborted {k : Nat} {time next : Timestamp} {w w' : World σ} {e : BillingError} :
      time.addHour? = some next → time < stop →
      runIn env w (run o name time) = (.error (.failed e), w') →
      RangeRuns env o name stop k time w [⟨o, name, time, w⟩]
        (.error (.failed (.rangeAborted k time e)), w')
  | halted {k : Nat} {time next : Timestamp} {w w' : World σ} {e : Stop} :
      time.addHour? = some next → time < stop → (∀ failure, e ≠ .failed failure) →
      runIn env w (run o name time) = (.error e, w') →
      RangeRuns env o name stop k time w [⟨o, name, time, w⟩] (.error e, w')
  | next {k n : Nat} {time next : Timestamp} {w w' : World σ} {runs : List (HourRun σ)}
      {outcome : Except Stop Nat × World σ} :
      time.addHour? = some next → time < stop → runIn env w (run o name time) = (.ok n, w') →
      RangeRuns env o name stop (k + 1) next (told o time (k + 1) w') runs outcome →
      RangeRuns env o name stop k time w (⟨o, name, time, w⟩ :: runs) outcome

/-- An hour that does not end well is the last of a range. -/
theorem RangeRuns.of_stop {env : Environment σ} {o : ReportOptions} {name : String}
    {stop time next : Timestamp} {k : Nat} {w w' : World σ} {e : Stop}
    (hnext : time.addHour? = some next) (hlt : time < stop)
    (hrun : runIn env w (run o name time) = (.error e, w')) :
    RangeRuns env o name stop k time w [⟨o, name, time, w⟩] (.error (abortRange k time e), w') := by
  cases e with
  | failed e => exact .aborted hnext hlt hrun
  | overflow => exact .halted hnext hlt (by simp [abortRange]) hrun
  | stalled => exact .halted hnext hlt (by simp [abortRange]) hrun

section Ranges

variable (env : Environment σ) (o : ReportOptions) (name : String)

theorem runIn_runHour (w : World σ) (k : Nat) (time : Timestamp) :
    runIn env w (runHour o name k time) =
      match runIn env w (run o name time) with
      | (.ok _, w') => (.ok (), told o time (k + 1) w')
      | (.error e, w') => (.error (abortRange k time e), w') := by
  unfold runHour told progressSteps
  rw [runIn_bind, runIn_tryCatch]
  rcases runIn env w (run o name time) with ⟨e | n, w'⟩
  · rfl
  · cases o.showProgress <;> simp

/-- **The hours of a range make their runs one after the other.** -/
theorem exists_rangeRuns (stop : Timestamp) (k : Nat) (time : Timestamp) (w : World σ) :
    ∃ runs,
      RangeRuns env o name stop k time w runs (runIn env w (runHours o name stop k time)) := by
  induction k, time using runHours.induct stop generalizing w with
  | case1 k time hnone =>
    refine ⟨[], ?_⟩
    rw [runHours]
    split
    · exact .ofCalendarEnd hnone
    · next hsome => rw [hnone] at hsome; cases hsome
  | case2 k time next hnext hlt ih =>
    rw [runHours_of_addHour? hnext, if_pos hlt, runIn_bind, runIn_runHour]
    rcases hrun : runIn env w (run o name time) with ⟨e | n, w'⟩
    · exact ⟨_, .of_stop hnext hlt hrun⟩
    · obtain ⟨runs, hruns⟩ := ih (told o time (k + 1) w')
      exact ⟨_, .next hnext hlt hrun hruns⟩
  | case3 k time next hnext hlt =>
    refine ⟨[], ?_⟩
    rw [runHours_of_addHour? hnext, if_neg hlt]
    exact .finished hnext hlt

/-- A range that does not begin with an hour, or ends before it begins, makes no run. -/
theorem runIn_runRange (w : World σ) (start stop : Timestamp) :
    runIn env w (runRange o name start stop) =
      if start.isHourStart then
        if stop < start then (.error (.failed (.validation (.invalidRange start stop))), w)
        else runIn env w (runHours o name stop 0 start)
      else (.error (.failed (.validation (.unalignedTimestamp start))), w) := by
  by_cases haligned : start.isHourStart
  · by_cases horder : stop < start <;>
      simp [runRange, requireHourStart, haligned, horder, runIn_bind, -bind_pure_comp]
  · simp [runRange, requireHourStart, haligned, runIn_bind, -bind_pure_comp]

variable {env o name} {stop time : Timestamp} {k : Nat} {w : World σ} {runs : List (HourRun σ)}
  {outcome : Except Stop Nat × World σ}

theorem RangeRuns.chained (h : RangeRuns env o name stop k time w runs outcome) :
    Chained env w runs outcome.2 := by
  induction h with
  | ofCalendarEnd | finished => exact .nil rfl
  | aborted _ _ hrun | halted _ _ _ hrun =>
    have hafter := congrArg Prod.snd hrun
    exact .cons rfl (.nil (congrArg (fun w => w.metrics.counters) hafter.symm))
  | next _ _ hrun _ ih =>
    refine .cons rfl (ih.of_counters ?_)
    have hafter := congrArg Prod.snd hrun
    exact congrArg (fun w => w.metrics.counters) hafter.symm

end Ranges

/-! ### The facts of a run -/

section Facts

variable {name : String} {time hourEnd : Timestamp}

theorem QuerySteps.length_factWrites {query : Query} {count : Nat} {steps : List Event}
    (h : QuerySteps time hourEnd query count steps) : (factWrites steps).length = count := by
  obtain ⟨elapsed, samples, blocks, hblocks, rfl, rfl⟩ := h
  rw [factWrites_cons_of_none rfl]
  simpa using congrArg List.length (blocks_write_values hblocks).1

theorem length_factWrites_parts {below : List Query} {parts : List (Nat × List Event)}
    (h : List.Forall₂ (fun query part => QuerySteps time hourEnd query part.1 part.2) below parts) :
    (factWrites (parts.map Prod.snd).flatten).length = (parts.map Prod.fst).sum := by
  induction h with
  | nil => rfl
  | cons hq _ ih =>
    rw [List.map_cons, List.flatten_cons, factWrites_append, List.length_append,
      hq.length_factWrites, ih, List.map_cons, List.sum_cons]

/-- An hour puts in as many facts as it has samples. -/
theorem FamilySteps.length_factWrites {n : Nat} {steps : List Event}
    (h : FamilySteps name time n steps) : (factWrites steps).length = n := by
  obtain ⟨hourEnd, main, found, count, block, below, listed, parts, -, -, hblock, -, hparts, rfl,
    rfl⟩ := h
  have hlookup (q : Statement) (reply : Reply) (hq : q.factWrite? = none) :
      factWrites [.statement q reply] = [] :=
    factWrites_cons_of_none (e := Event.statement q reply) hq []
  simp only [factWrites_append, hlookup (.findQuery name time) found rfl,
    hlookup (.subQueries main.id time) listed rfl, List.length_append, List.length_nil,
    hblock.length_factWrites, length_factWrites_parts hparts, Nat.zero_add, Nat.add_zero]
  exact List.foldl_eq_apply_foldr.symm

end Facts

/-- A success tells the number of facts that it put in, in the one transaction that it committed. -/
theorem HourRun.exists_committed {env : Environment σ} {r : HourRun σ} {n : Nat}
    (hok : r.result env = .ok n) :
    ∃ inner, (factWrites inner).length = n ∧ (r.after env).trace =
      r.start.trace ++ .control .start none :: (inner ++ [.control .commit none]) := by
  obtain ⟨c, s', htakes⟩ := exists_takes_run r.options r.name r.time env r.start.outside
  have hrun := htakes r.start.trace r.start.metrics
  have hresult : c.result = .ok n := (congrArg Prod.fst hrun).symm.trans hok
  obtain ⟨inner, hinner, -, hsteps⟩ := run_ok_steps htakes hresult
  refine ⟨inner, hinner.length_factWrites, ?_⟩
  rw [← hsteps]
  exact congrArg (fun p => p.2.trace) hrun

end Report

/-! ### Calls -/

namespace ReportCall

open Report

/-- The runs of hours that a call makes. -/
inductive Makes (env : Environment σ) (w : World σ) : ReportCall → List (HourRun σ) → Prop
  | run (o : ReportOptions) (name : String) (time : Timestamp) :
      Makes env w (.run o name time) [⟨o, name, time, w⟩]
  | ingest (o : ReportOptions) (name : String) (time : Timestamp) :
      Makes env w (.ingest o name time) []
  | notRanged {o : ReportOptions} {name : String} {start stop : Timestamp} :
      ¬ (start.seconds % 3600 = 0 ∧ start.nanos = 0) ∨ stop < start →
      Makes env w (.runRange o name start stop) []
  | ranged {o : ReportOptions} {name : String} {start stop : Timestamp}
      {runs : List (HourRun σ)} : start.seconds % 3600 = 0 → start.nanos = 0 → ¬ stop < start →
      RangeRuns env o name stop 0 start w runs (runIn env w (Report.runRange o name start stop)) →
      Makes env w (.runRange o name start stop) runs

/-- The runs of hours that a session makes. -/
inductive Made (env : Environment σ) :
    World σ → List (σ × ReportCall) → List (HourRun σ) → Prop
  | nil (w : World σ) : Made env w [] []
  | cons {w : World σ} {s : σ} {call : ReportCall} {rest : List (σ × ReportCall)}
      {runs runs' : List (HourRun σ)} : Makes env { w with outside := s } call runs →
      Made env (runIn env { w with outside := s } call.session).2 rest runs' →
      Made env w ((s, call) :: rest) (runs ++ runs')

/-- A call without metrics, and one in the transaction of the caller, counts nothing. -/
theorem counters_eq {call : ReportCall}
    (h : call.options.measured = false ∨ ∃ o name time, call = .ingest o name time)
    (env : Environment σ) (w : World σ) :
    (runIn env w call.session).2.metrics.counters = w.metrics.counters := by
  have hG := uncounted_composes
  have hcounted {o : ReportOptions} (ho : o.measured = false) (steps : List Event)
      (g : ReportMetrics → ReportMetrics) (result : Except Stop Nat) (hg : Uncounted steps g) :
      Uncounted steps (countedAs o result ∘ g) := by
    intro m
    simp only [Function.comp_apply, countedAs, ho]
    exact hg m
  refine counters_of_keeps ?_ env w
  rcases h with h | ⟨o, name, time, rfl⟩
  · cases call with
    | run o name time => exact keeps_run hG uncounted_evaluation (hcounted h) time
    | ingest o name time => exact keeps_ingest hG uncounted_evaluation
    | runRange o name start stop =>
      exact keeps_runRange hG uncounted_evaluation (hcounted h) start stop
  · exact keeps_ingest hG uncounted_evaluation

/-- **What happens between the runs of a call counts nothing.** -/
theorem exists_makes (env : Environment σ) (w : World σ) (call : ReportCall) :
    ∃ runs, Makes env w call runs ∧ Chained env w runs (runIn env w call.session).2 := by
  cases call with
  | run o name time => exact ⟨_, .run o name time, .cons rfl (.nil rfl)⟩
  | ingest o name time =>
    exact ⟨[], .ingest o name time, .nil (counters_eq (.inr ⟨o, name, time, rfl⟩) env w)⟩
  | runRange o name start stop =>
    have hrun := runIn_runRange env o name w start stop
    by_cases haligned : start.isHourStart
    · rw [if_pos haligned] at hrun
      by_cases horder : stop < start
      · rw [if_pos horder] at hrun
        exact ⟨[], .notRanged (.inr horder), .nil (congrArg (fun p => p.2.metrics.counters) hrun)⟩
      · rw [if_neg horder] at hrun
        obtain ⟨runs, hruns⟩ := exists_rangeRuns env o name stop 0 start w
        rw [← hrun] at hruns
        obtain ⟨hseconds, hnanos⟩ := isHourStart_iff.1 haligned
        exact ⟨runs, .ranged hseconds hnanos horder hruns, hruns.chained⟩
    · rw [if_neg haligned] at hrun
      exact ⟨[], .notRanged (.inl (isHourStart_iff.not.1 haligned)),
        .nil (congrArg (fun p => p.2.metrics.counters) hrun)⟩

theorem exists_made (env : Environment σ) (w : World σ) (session : List (σ × ReportCall)) :
    ∃ runs, Made env w session runs ∧ Chained env w runs (runAll env w session) := by
  induction session generalizing w with
  | nil => exact ⟨[], .nil w, .nil rfl⟩
  | cons entry rest ih =>
    obtain ⟨s, call⟩ := entry
    obtain ⟨runs, hmakes, hchained⟩ := exists_makes env { w with outside := s } call
    obtain ⟨runs', hmade, hchained'⟩ := ih (runIn env { w with outside := s } call.session).2
    exact ⟨runs ++ runs', .cons hmakes hmade,
      (hchained.append hchained').of_counters rfl⟩

/-- **Every run of an hour is counted once.**  At every point of a session the counters account for
the runs so far: those that succeeded, with the facts that they put in and committed, and those that
failed at the start of an hour.  Calls without metrics, and those in the transaction of the caller,
count nothing. -/
theorem runAll_accounts (env : Environment σ) (w : World σ) (session : List (σ × ReportCall)) :
    (∃ runs, Made env w session runs ∧
      Accounts env w.metrics runs (runAll env w session).metrics ∧
      (∀ before r after, runs = before ++ r :: after →
        Accounts env w.metrics before r.start.metrics ∧
          Accounts env w.metrics before (r.ended env).metrics ∧
          Accounts env w.metrics (before ++ [r]) (r.after env).metrics) ∧
      ∀ r ∈ runs, ∀ n, r.result env = .ok n → ∃ inner, (factWrites inner).length = n ∧
        (r.after env).trace =
          r.start.trace ++ .control .start none :: (inner ++ [.control .commit none])) ∧
    ∀ (w : World σ) (call : ReportCall),
      (call.options.measured = false ∨ ∃ o name time, call = .ingest o name time) →
      (runIn env w call.session).2.metrics.counters = w.metrics.counters := by
  refine ⟨?_, fun w call h => counters_eq h env w⟩
  obtain ⟨runs, hmade, hchained⟩ := exists_made env w session
  obtain ⟨hall, hpoints⟩ := hchained.accounts (.nil env w.metrics)
  exact ⟨runs, hmade, hall, hpoints, fun r _ n hok => HourRun.exists_committed hok⟩

end ReportCall

end UsageBilling
