import UsageBilling.Proofs.Report.Atomicity
import UsageBilling.Proofs.Report.Range
import UsageBilling.Proofs.Store.Course

/-!
# The conduct of reports

The courses of an evaluation are decided by the answer of the source of metrics.  Everything else in
a report is made of statements and smaller parts, so it is of the conducts that these are of.

* `Report.takes_evaluate` : what an evaluation comes to.
* `Report.behaves_ingestFamily` : an hour is of a conduct if the storing of each sample is.
* `Report.behaves_run` : a run is of a conduct that is kept when it is counted.
* `Report.behaves_runRange` : a range is of a conduct that is kept when a failure aborts it.
* `Report.obeys_ingestFamily`, `Report.obeys_run`, `Report.obeys_runRange` : the same for rules.
-/

namespace UsageBilling.Report

open Session Store

variable {σ : Type} {C : Conduct} {o : ReportOptions} {name : String} {time : Timestamp}

/-! ### Evaluations -/

/-- What the answer of the source of metrics comes to. -/
def evaluated (o : ReportOptions) (answer : Evaluation) : Except Stop (List Sample) :=
  match answer.within o.queryLimit, o.queryLimit with
  | some (_, outcome), _ => outcome.mapError .failed
  | none, some limit => .error (.failed (.metricsSource (.timeout limit)))
  | none, none => .error .stalled

/-- What an answer of the source of metrics does to the metrics. -/
def observed (o : ReportOptions) (answer : Evaluation) (m : ReportMetrics) : ReportMetrics :=
  match answer.within o.queryLimit with
  | some (elapsed, _) => if o.measured then m.observeQuery elapsed.seconds else m
  | none => m

theorem takes_evaluate {env : Environment σ} {s s' : σ} {text : String} {answer : Evaluation}
    (h : env.evaluate text time s = (answer, s')) :
    Takes env s (evaluate o text time)
      ⟨[.evaluation text time answer], evaluated o answer, observed o answer⟩ s' := by
  obtain ⟨limit, showProgress, measured⟩ := o
  intro trace metrics
  unfold evaluate evaluated observed
  rcases hwithin : answer.within limit with _ | ⟨elapsed, outcome⟩
  · cases limit <;> simp [runIn_bind, runIn_ask, h, hwithin, -bind_pure_comp]
  · cases measured <;> cases outcome <;>
      simp [runIn_bind, runIn_ask, h, hwithin, Session.ofExcept, Except.mapError, -bind_pure_comp]

/-- An evaluation is one step. -/
theorem conforms_evaluate (o : ReportOptions) (text : String) (time : Timestamp) :
    Conforms (evaluate o text time : Session σ (List Sample)) fun c =>
      ∃ answer, c = ⟨[.evaluation text time answer], evaluated o answer, observed o answer⟩ :=
  fun _ _ => ⟨_, _, takes_evaluate rfl, .single rfl, _, rfl⟩

theorem behaves_evaluate
    (h : ∀ text time answer stop, C stop [.evaluation text time answer] (observed o answer))
    (text : String) (time : Timestamp) :
    Behaves (evaluate o text time : Session σ (List Sample)) C := by
  refine (conforms_evaluate o text time).mono ?_
  rintro c ⟨answer, rfl⟩
  exact h text time answer _

/-! ### Hours -/

theorem behaves_requireHourStart (hC : C.Composes) (time : Timestamp) :
    Behaves (requireHourStart time : Session σ Unit) C := by
  unfold requireHourStart
  split
  · exact .pure hC ()
  · exact .fail hC _

section Hours

variable (hC : C.Composes)
  (hevaluation : ∀ text time answer stop,
    C stop [.evaluation text time answer] (observed o answer))
  (hsample : ∀ query s, Behaves (ingestSample query (.ofTimestamp time) s : Session σ Unit) C)

include hC hevaluation hsample

theorem behaves_ingestQuery (query : Query) :
    Behaves (ingestQuery o time query : Session σ Nat) C :=
  .bind hC (.inRange hC _) fun hourEnd =>
  .bind hC (behaves_evaluate hevaluation query.query hourEnd) fun samples =>
  .bind hC (.forM hC (hsample query) samples) fun _ => .pure hC _

/-- An hour is of a conduct if the storing of each sample is. -/
theorem behaves_ingestFamily (hquery : C.Admits (.findQuery name time))
    (hbelow : ∀ parent, C.Admits (.subQueries parent time)) :
    Behaves (ingestFamily o name time : Session σ Nat) C :=
  .bind hC (behaves_orFail hC hquery (fun _ => rfl) rfl) fun main =>
  .bind hC (behaves_ingestQuery hC hevaluation hsample main) fun _ =>
  .bind hC (.fetchAll hC (hbelow main.id)) fun below =>
  .bind hC (.mapM hC (behaves_ingestQuery hC hevaluation hsample) below) fun _ => .pure hC _

end Hours

/-! ### Runs and ranges -/

/-- Counting a run does not change what it does. -/
theorem conforms_counted {P : Course Nat → Prop} {x : Session σ Nat} (h : Conforms x P) :
    Conforms (counted o x) fun c => ∃ d, P d ∧
      c = ⟨d.steps, d.result, countedAs o d.result ∘ d.measured⟩ := by
  intro env s
  obtain ⟨d, s', htakes, hanswers, hd⟩ := h env s
  exact ⟨_, s', takes_counted htakes, hanswers, d, hd, rfl⟩

theorem behaves_run (hC : C.Composes)
    (hcounted : ∀ stop steps g result, C stop steps g → C stop steps (countedAs o result ∘ g))
    (h : Behaves (transaction .readWrite (ingestFamily o name time) : Session σ Nat) C) :
    Behaves (run o name time : Session σ Nat) C := by
  refine .bind hC (behaves_requireHourStart hC time) fun _ => (conforms_counted h).mono ?_
  rintro c ⟨d, hd, rfl⟩
  exact hcounted _ _ _ _ hd

section Ranges

variable (hC : C.Composes)
  (habort : ∀ steps g completed time stop, C (some stop) steps g →
    C (some (abortRange completed time stop)) steps g)
  (hprogress : ∀ time count, C none [.progress time count] id)
  (hrun : ∀ time, Behaves (run o name time : Session σ Nat) C)

include hC habort hprogress hrun

theorem behaves_runHour (completed : Nat) (time : Timestamp) :
    Behaves (runHour o name completed time : Session σ Unit) C := by
  refine .bind hC ((hrun time).tryCatchThrow (fun _ _ _ hc => hc) fun _ _ _ hc =>
    habort _ _ completed time _ hc) fun _ => ?_
  split
  · exact fun _ s => ⟨_, s, takes_record _, .single rfl, hprogress _ _⟩
  · exact .pure hC ()

/-- The hours of a range, one after the other. -/
theorem behaves_runHours (stop : Timestamp) (completed : Nat) (time : Timestamp) :
    Behaves (runHours o name stop completed time : Session σ Nat) C := by
  induction completed, time using runHours.induct stop with
  | case1 completed time hnone =>
    rw [runHours]
    split
    · exact .stop hC .overflow
    · next hsome => rw [hnone] at hsome; cases hsome
  | case2 completed time next hnext hlt ih =>
    rw [runHours_of_addHour? hnext, if_pos hlt]
    exact .bind hC (behaves_runHour hC habort hprogress hrun completed time) fun _ => ih
  | case3 completed time next hnext hlt =>
    rw [runHours_of_addHour? hnext, if_neg hlt]
    exact .pure hC completed

theorem behaves_runRange (start stop : Timestamp) :
    Behaves (runRange o name start stop : Session σ Nat) C := by
  refine .bind hC (behaves_requireHourStart hC start) fun _ => ?_
  split
  · exact .bind hC (.fail hC _) fun _ => behaves_runHours hC habort hprogress hrun stop 0 start
  · exact behaves_runHours hC habort hprogress hrun stop 0 start

end Ranges

/-! ### Rules -/

section Rules

variable {R : Rule} (hR : R.Composes)
include hR

theorem obeys_requireHourStart (time : Timestamp) :
    Obeys (requireHourStart time : Session σ Unit) R := behaves_requireHourStart hR.conduct time

/-- An hour follows a rule if the storing of each sample does. -/
theorem obeys_ingestFamily
    (hevaluation : ∀ text time answer stop, R stop [.evaluation text time answer])
    (hsample : ∀ query s, Obeys (ingestSample query (.ofTimestamp time) s : Session σ Unit) R)
    (hquery : R.Admits (.findQuery name time))
    (hbelow : ∀ parent, R.Admits (.subQueries parent time)) :
    Obeys (ingestFamily o name time : Session σ Nat) R :=
  behaves_ingestFamily hR.conduct hevaluation hsample hquery hbelow

theorem obeys_run
    (h : Obeys (transaction .readWrite (ingestFamily o name time) : Session σ Nat) R) :
    Obeys (run o name time : Session σ Nat) R := behaves_run hR.conduct (fun _ _ _ _ h => h) h

theorem obeys_runRange
    (habort : ∀ steps completed time stop, R (some stop) steps →
      R (some (abortRange completed time stop)) steps)
    (hprogress : ∀ time count, R none [.progress time count])
    (hrun : ∀ time, Obeys (run o name time : Session σ Nat) R) (start stop : Timestamp) :
    Obeys (runRange o name start stop : Session σ Nat) R :=
  behaves_runRange hR.conduct (fun steps _ => habort steps) hprogress hrun start stop

end Rules

end UsageBilling.Report
