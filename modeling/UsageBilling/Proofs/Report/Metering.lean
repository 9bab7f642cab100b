import Mathlib.Algebra.Ring.Nat
import UsageBilling.Proofs.Report.Conformance

/-!
# What reports do to the metrics

A `Gauge` relates the steps of a session to what it does to the metrics.  Only queries and the
counting of runs change the metrics.

* `Session.Keeps x G` : whatever the outside answers, the session `x` keeps the gauge `G`.
* `Report.keeps_ingestFamily` : an hour keeps every gauge that evaluations keep.
* `Report.keeps_runRange` : a range keeps every gauge that evaluations and the counting keep.
* `Report.timedCount` : the queries that are answered in time, if these are measured at all.
* `ReportCall.runAll_observations` : calls observe just these queries.  A query that is given up
  leaves no observation (`ReportCall.runAll_unobserved`).
-/

namespace UsageBilling

open Session Store

variable {σ α β : Type}

/-! ### Gauges -/

/-- What steps have to do with a change of the metrics. -/
abbrev Gauge := List Event → (ReportMetrics → ReportMetrics) → Prop

/-- A query to the source of metrics. -/
def Event.isQuery : Event → Bool
  | .evaluation _ _ _ => true
  | .control _ _ | .rollback | .statement _ _ | .reconciliation _ _ | .progress _ _ => false

/-- Other steps than queries need no change, and what is kept part by part is kept as a whole. -/
structure Gauge.Composes (G : Gauge) : Prop where
  quiet : ∀ {steps}, (∀ e ∈ steps, e.isQuery = false) → G steps id
  append : ∀ {steps steps' g g'}, G steps g → G steps' g' → G (steps ++ steps') (g' ∘ g)

/-- The conduct of keeping the gauge, whatever the result is. -/
def Gauge.conduct (G : Gauge) : Conduct := fun _ => G

namespace Session

/-- All courses of the session keep the gauge. -/
def Keeps (x : Session σ α) (G : Gauge) : Prop := Conforms x fun c => G c.steps c.measured

end Session

namespace Gauge.Composes

variable {G : Gauge} (hG : G.Composes)
include hG

theorem conduct : G.conduct.Composes where
  nil := fun _ => hG.quiet (by simp)
  append := hG.append

/-- A statement is no query. -/
theorem admits (q : Statement) : G.conduct.Admits q :=
  fun _ _ _ => hG.quiet (by simp [Event.isQuery])

theorem rollback {steps : List Event} {g : ReportMetrics → ReportMetrics} (h : G steps g) :
    G (steps ++ [.rollback]) g := by
  show G (steps ++ [.rollback]) (id ∘ g)
  exact hG.append h (hG.quiet (by simp [Event.isQuery]))

/-- A transaction does to the metrics what its body does. -/
theorem transaction {access : Access} {body : Session σ α} (h : Keeps body G) :
    Keeps (Session.transaction access body) G :=
  Behaves.transaction hG.conduct (fun _ _ _ _ => hG.quiet (by simp [Event.isQuery]))
    (fun _ _ _ => hG.rollback) access h

end Gauge.Composes

/-! ### Reports -/

namespace Report

variable {G : Gauge} {o : ReportOptions} {name : String} {time : Timestamp}

section Hours

variable (hG : G.Composes)
  (hevaluation : ∀ text time answer, G [.evaluation text time answer] (observed o answer))
include hG

theorem keeps_ingestSample (query : Query) (hour : HourBucket) (s : Sample) :
    Keeps (ingestSample query hour s : Session σ Unit) G := by
  have hC := hG.conduct
  have hinsert {α : Type} (read? : Row → Option α) (q : Statement) (table key : String) :
      Behaves (insertOrSelect read? table key q : Session σ α) G.conduct :=
    behaves_insertOrSelect hC (hG.admits q) table key
  have hrecord {α : Type} (read? : Row → Option α) (table : CatalogTable) (keys : List String) :
      Behaves (findRecord read? table keys hour.timestamp : Session σ α) G.conduct :=
    behaves_orFail hC (hG.admits _) (fun _ => rfl) rfl
  have hstore (u : Usage) : Behaves (store query hour u : Session σ Fact) G.conduct :=
    .bind hC (hinsert _ _ _ _) fun _ =>
    .bind hC (hinsert _ _ _ _) fun _ =>
    .bind hC (hrecord _ _ _) fun _ =>
    .bind hC (hrecord _ _ _) fun _ =>
    .bind hC (hinsert _ _ _ _) fun _ => behaves_fetchFirst hC (hG.admits _)
  exact Behaves.bind hC (.ofExcept hC id _) fun u => .bind hC (hstore u) fun _ => .pure hC ()

include hevaluation

/-- **An hour keeps every gauge that evaluations keep.** -/
theorem keeps_ingestFamily : Keeps (ingestFamily o name time : Session σ Nat) G :=
  behaves_ingestFamily hG.conduct (fun text time answer _ => hevaluation text time answer)
    (fun query s => keeps_ingestSample hG query _ s) (hG.admits _) fun _ => hG.admits _

theorem keeps_ingest : Keeps (ingest o name time : Session σ Nat) G :=
  Behaves.bind hG.conduct (behaves_requireHourStart hG.conduct time) fun _ =>
    keeps_ingestFamily hG hevaluation

variable (hcounted : ∀ steps g result, G steps g → G steps (countedAs o result ∘ g))
include hcounted

theorem keeps_run (time : Timestamp) : Keeps (run o name time : Session σ Nat) G :=
  behaves_run hG.conduct (fun _ => hcounted) (hG.transaction (keeps_ingestFamily hG hevaluation))

/-- **A range keeps every gauge that evaluations and the counting of runs keep.** -/
theorem keeps_runRange (start stop : Timestamp) :
    Keeps (runRange o name start stop : Session σ Nat) G :=
  behaves_runRange hG.conduct (fun _ _ _ _ _ hg => hg)
    (fun _ _ => hG.quiet (by simp [Event.isQuery])) (keeps_run hG hevaluation hcounted) start stop

end Hours

end Report

/-! ### Observations -/

/-- A query that is answered within the limit. -/
def Event.isTimely (limit : Option Duration) : Event → Bool
  | .evaluation _ _ answer => (answer.within limit).isSome
  | .control _ _ | .rollback | .statement _ _ | .reconciliation _ _ | .progress _ _ => false

namespace Report

/-- How many queries were sent. -/
def queryCount (steps : List Event) : Nat := steps.countP Event.isQuery

/-- How many queries were given up, or are waited for without an end. -/
def lateCount (o : ReportOptions) (steps : List Event) : Nat :=
  steps.countP fun e => e.isQuery && !e.isTimely o.queryLimit

/-- How many queries were answered in time, if these are measured. -/
def timedCount (o : ReportOptions) (steps : List Event) : Nat :=
  if o.measured then steps.countP (Event.isTimely o.queryLimit) else 0

theorem queryCount_append (steps steps' : List Event) :
    queryCount (steps ++ steps') = queryCount steps + queryCount steps' := List.countP_append

theorem timedCount_append (o : ReportOptions) (steps steps' : List Event) :
    timedCount o (steps ++ steps') = timedCount o steps + timedCount o steps' := by
  unfold timedCount
  split
  · exact List.countP_append
  · rfl

/-- A query is answered in time or given up. -/
theorem timedCount_add_lateCount {o : ReportOptions} (hmeasured : o.measured)
    (steps : List Event) : timedCount o steps + lateCount o steps = queryCount steps := by
  rw [timedCount, if_pos hmeasured, lateCount, queryCount]
  induction steps with
  | nil => rfl
  | cons e steps ih =>
    have hquery : e.isTimely o.queryLimit = true → e.isQuery = true := by
      cases e <;> simp [Event.isTimely, Event.isQuery]
    simp only [List.countP_cons]
    cases hq : e.isQuery <;> cases ht : e.isTimely o.queryLimit <;> simp_all <;> omega

/-- Every query that is answered in time is observed. -/
def Timed (o : ReportOptions) : Gauge := fun steps g =>
  ∀ m, (g m).queryDurations.count = m.queryDurations.count + timedCount o steps

theorem timed_composes (o : ReportOptions) : (Timed o).Composes where
  quiet := by
    intro steps h m
    have hnone : timedCount o steps = 0 := by
      unfold timedCount
      split
      · refine List.countP_eq_zero.2 fun e he => ?_
        have hquiet := h e he
        cases e <;> simp_all [Event.isQuery, Event.isTimely]
      · rfl
    rw [hnone]
    rfl
  append := by
    intro steps steps' g g' h h' m
    rw [Function.comp_apply, h', h, timedCount_append, Nat.add_assoc]

/-- The answer is looked at after it is observed. -/
theorem timed_evaluation {o : ReportOptions} (text : String) (time : Timestamp)
    (answer : Evaluation) : Timed o [.evaluation text time answer] (observed o answer) := by
  intro m
  by_cases hm : o.measured
  · cases hwithin : answer.within o.queryLimit <;>
      simp [observed, timedCount, Event.isTimely, hwithin, hm, ReportMetrics.observeQuery]
  · cases hwithin : answer.within o.queryLimit <;>
      simp [observed, timedCount, hwithin, hm]

theorem timed_counted {o : ReportOptions} (steps : List Event) (g : ReportMetrics → ReportMetrics)
    (result : Except Stop Nat) (h : Timed o steps g) : Timed o steps (countedAs o result ∘ g) := by
  intro m
  have hkept (m : ReportMetrics) : (countedAs o result m).queryDurations = m.queryDurations := by
    unfold countedAs
    split
    · split <;> rfl
    · rfl
  rw [Function.comp_apply, hkept, h m]

end Report

/-! ### Calls -/

/-- A call about reports. -/
inductive ReportCall where
  | run (o : ReportOptions) (name : String) (time : Timestamp)
  /-- In the transaction of the caller. -/
  | ingest (o : ReportOptions) (name : String) (time : Timestamp)
  | runRange (o : ReportOptions) (name : String) (start stop : Timestamp)

namespace ReportCall

def options : ReportCall → ReportOptions
  | run o _ _ | ingest o _ _ | runRange o _ _ _ => o

def session : ReportCall → Session σ Nat
  | run o name time => Report.run o name time
  | ingest o name time => Report.ingest o name time
  | runRange o name start stop => Report.runRange o name start stop

/-- Calls one after the other, each in a state of the outside of its own. -/
def runAll (env : Environment σ) (w : World σ) : List (σ × ReportCall) → World σ
  | [] => w
  | (s, call) :: rest => runAll env (runIn env { w with outside := s } call.session).2 rest

/-- Every call observes the queries that are answered in time. -/
theorem timed (call : ReportCall) :
    Keeps (call.session : Session σ Nat) (Report.Timed call.options) := by
  have hG := Report.timed_composes call.options
  cases call with
  | run o name time => exact Report.keeps_run hG Report.timed_evaluation Report.timed_counted time
  | ingest o name time => exact Report.keeps_ingest hG Report.timed_evaluation
  | runRange o name start stop =>
    exact Report.keeps_runRange hG Report.timed_evaluation Report.timed_counted start stop

/-- The steps of the calls of a session. -/
abbrev Parts (env : Environment σ) : List (σ × ReportCall) → List (List Event) → Prop :=
  List.Forall₂ fun entry part =>
    ∃ c s', Takes env entry.1 entry.2.session c s' ∧ part = c.steps

/-- **The queries that are answered in time are observed**, whatever the answers are and whatever
happens later; those that are given up are not. -/
theorem runAll_observations (env : Environment σ) (w : World σ) (session : List (σ × ReportCall)) :
    ∃ parts, Parts env session parts ∧
      (runAll env w session).trace = w.trace ++ parts.flatten ∧
      (runAll env w session).metrics.queryDurations.count = w.metrics.queryDurations.count +
        (List.zipWith (fun entry part => Report.timedCount entry.2.options part)
          session parts).sum ∧
      ((∀ entry ∈ session, entry.2.options.measured) →
        (runAll env w session).metrics.queryDurations.count +
            (List.zipWith (fun entry part => Report.lateCount entry.2.options part)
              session parts).sum =
          w.metrics.queryDurations.count + Report.queryCount parts.flatten) := by
  induction session generalizing w with
  | nil => exact ⟨[], .nil, by simp [runAll], by simp [runAll], by simp [runAll, Report.queryCount]⟩
  | cons entry rest ih =>
    obtain ⟨s, call⟩ := entry
    obtain ⟨c, s', htakes, -, htimed⟩ := call.timed env s
    have hrun := htakes w.trace w.metrics
    obtain ⟨parts, hparts, htrace, hcount, hlate⟩ :=
      ih (runIn env { w with outside := s } call.session).2
    rw [hrun] at htrace hcount hlate
    refine ⟨c.steps :: parts, .cons ⟨c, s', htakes, rfl⟩ hparts, ?_, ?_, fun hmeasured => ?_⟩
    · rw [runAll, hrun, htrace]
      simp
    · rw [runAll, hrun, hcount, htimed]
      simp [Nat.add_assoc]
    · obtain ⟨hcall, hrest⟩ := List.forall_mem_cons.1 hmeasured
      have hsplit := Report.timedCount_add_lateCount hcall c.steps
      have hmore := hlate hrest
      rw [htimed] at hmore
      rw [runAll, hrun, List.flatten_cons, Report.queryCount_append, List.zipWith_cons_cons,
        List.sum_cons]
      simp only at hmore hsplit ⊢
      omega

/-- A source of metrics that does not answer. -/
def silentScript : Script where
  reachable := true
  faults := []
  replies := Report.rowReplies [1]
  evaluations := [.silent]
  reconciliations := []

/-- One query, with a tenth of a second to wait for its answer. -/
def silentSession : List (Script × ReportCall) :=
  [(silentScript, .ingest ⟨some (.ofMillis 100), false, true⟩ "memory" Report.memoryHour)]

/-- A query that is given up leaves no observation, although it took all the time there was. -/
theorem runAll_unobserved :
    (∀ entry ∈ silentSession, entry.2.options.measured) ∧
      Report.queryCount (runAll Script.environment ⟨silentScript, [], .zero⟩ silentSession).trace =
        1 ∧
      (runAll Script.environment ⟨silentScript, [], .zero⟩
        silentSession).metrics.queryDurations.count = 0 := by
  decide +kernel

end ReportCall

end UsageBilling
