import UsageBilling.Proofs.Report.Range

/-!
# Ranges in parts

What a range does does not depend on how many hours are done before it; only the counts it tells
are higher by these.  So a range can be split at the start of an hour.

* `Course.later m c` : the course `c` of a range, when `m` hours more are done before.
* `Report.exists_runEach_later` : hours go the same way however many are done before them.
* `Report.runRange_append` : a range does what its first part does, and then what its second part
  does where the first ends, with the counts of that raised by the hours of the first.
-/

namespace UsageBilling

open Session Timestamp

/-! ### Further hours before -/

/-- A step of a range, when `m` hours more are done before. -/
def Event.later (m : Nat) : Event → Event
  | .progress time count => .progress time (m + count)
  | e => e

/-- The end of a range, when `m` hours more are done before. -/
def Stop.later (m : Nat) : Stop → Stop
  | .failed (.rangeAborted completed time source) =>
    .failed (.rangeAborted (m + completed) time source)
  | stop => stop

/-- The course of a range, when `m` hours more are done before. -/
def Course.later (m : Nat) (c : Course Nat) : Course Nat where
  steps := c.steps.map (Event.later m)
  result :=
    match c.result with
    | .ok completed => .ok (m + completed)
    | .error stop => .error (stop.later m)
  measured := c.measured

/-- Steps that tell of no hour do not depend on how many are done. -/
theorem map_later_of_progressOf {steps : List Event} (m : Nat) (h : progressOf steps = []) :
    steps.map (Event.later m) = steps := by
  have hsame : ∀ e ∈ steps, e.later m = id e := by
    intro e he
    have hnone := List.filterMap_eq_nil_iff.1 h e he
    cases e with
    | progress time count => cases hnone
    | _ => rfl
  rw [List.map_congr_left hsame, List.map_id]

theorem Course.later_after (m : Nat) (steps : List Event) (g : ReportMetrics → ReportMetrics)
    (c : Course Nat) :
    (c.after steps g).later m = (c.later m).after (steps.map (Event.later m)) g := by
  simp [Course.after, Course.later]

namespace Report

variable {σ : Type} {env : Environment σ} {s s' s'' : σ} {o : ReportOptions} {name : String}

theorem later_abortRange (m k : Nat) (time : Timestamp) (stop : Stop) :
    (abortRange k time stop).later m = abortRange (m + k) time stop := by
  cases stop <;> rfl

theorem map_later_progressSteps (m k : Nat) (time : Timestamp) :
    (progressSteps o time k).map (Event.later m) = progressSteps o time (m + k) := by
  unfold progressSteps
  split <;> rfl

/-- The hours of two lists are run one list after the other. -/
theorem runEach_append (times times' : List Timestamp) (k : Nat) :
    (runEach o name k (times ++ times') : Session σ Nat) =
      runEach o name k times >>= fun completed => runEach o name completed times' := by
  induction times generalizing k with
  | nil => simp [runEach]
  | cons time times ih => simp [runEach, ih]

/-- **Hours go the same way however many are done before them.** -/
theorem exists_runEach_later (o : ReportOptions) (name : String) (env : Environment σ)
    (times : List Timestamp) (k : Nat) (s : σ) :
    ∃ c s', Takes env s (runEach o name k times) c s' ∧
      ∀ m, Takes env s (runEach o name (m + k) times) (c.later m) s' := by
  induction times generalizing k s with
  | nil => exact ⟨⟨[], .ok k, id⟩, s, takes_pure k, fun m => takes_pure (m + k)⟩
  | cons time times ih =>
    obtain ⟨⟨steps, result, g⟩, s₁, hrun⟩ := exists_takes_run o name time env s
    cases result with
    | error stop =>
      refine ⟨_, s₁, (takes_runHour_stop hrun).bind_stop, fun m => ?_⟩
      have hsteps : steps.map (Event.later m) = steps :=
        map_later_of_progressOf m (run_error_tally hrun rfl).2
      rw [Course.later, hsteps]
      simp only [later_abortRange]
      exact (takes_runHour_stop hrun).bind_stop
    | ok facts =>
      obtain ⟨body, hbody, -, hprogress⟩ := run_ok_tally hrun rfl
      obtain rfl : steps = body ++ [.control .commit none] := hbody
      have hnone : progressOf (body ++ [.control .commit none]) = [] := by
        rw [progressOf_append, hprogress]
        rfl
      -- the number of hours before is seen only in what is told of the hour
      obtain ⟨c, s₂, heach, hmore⟩ := ih (k + 1) s₁
      refine ⟨_, s₂, (takes_runHour_ok hrun).bind heach, fun m => ?_⟩
      rw [Course.later_after, List.map_append, map_later_of_progressOf m hnone,
        map_later_progressSteps]
      exact (takes_runHour_ok hrun).bind (hmore m)

/-- The hours of a range are run one after the other. -/
theorem runRange_eq_runEach {start stop : Timestamp} {times : List Timestamp}
    (haligned : start.isHourStart) (horder : ¬ stop < start)
    (h : hourSpan start stop = ⟨times, false⟩) :
    (runRange o name start stop : Session σ Nat) = runEach o name 0 times := by
  simp [runRange, requireHourStart, haligned, horder, runHours_eq_runEach h]

theorem exists_takes_runRange (o : ReportOptions) (name : String) {start stop : Timestamp}
    (haligned : start.isHourStart) (horder : ¬ stop < start)
    (hroom : stop.seconds + 7200 ≤ maxSeconds) (env : Environment σ) (s : σ) :
    ∃ c s', Takes env s (runRange o name start stop) c s' := by
  obtain ⟨times, hspan, -⟩ := exists_hourSpan haligned horder hroom
  obtain ⟨_, c, s', -, htakes⟩ := exists_runEach o name env times 0 s
  rw [runRange_eq_runEach haligned horder hspan]
  exact ⟨c, s', htakes⟩

/-- **A range is its two parts**, one run where the other ends. -/
theorem runRange_append {a b c : Timestamp} (ha : a.isHourStart) (hb : b.isHourStart)
    (hab : ¬ b < a) (hbc : ¬ c < b) (hroom : c.seconds + 7200 ≤ maxSeconds) {m : Nat}
    {steps : List Event} {g : ReportMetrics → ReportMetrics}
    (h : Takes env s (runRange o name a b) ⟨steps, .ok m, g⟩ s') :
    ∃ d s'', Takes env s' (runRange o name b c) d s'' ∧
      Takes env s (runRange o name a c) ((d.later m).after steps g) s'' := by
  have hac : ¬ c < a := not_lt_trans hab hbc
  have hroom' : b.seconds + 7200 ≤ maxSeconds := by
    have hle := seconds_le_of_not_lt hbc
    omega
  obtain ⟨times, hspan, -⟩ := exists_hourSpan ha hab hroom'
  obtain ⟨times', hspan', -⟩ := exists_hourSpan hb hbc hroom
  have hwhole := hourSpan_append ha hb hab hbc hspan hspan'
  rw [runRange_eq_runEach ha hab hspan] at h
  rw [runRange_eq_runEach hb hbc hspan', runRange_eq_runEach ha hac hwhole, runEach_append]
  obtain ⟨d, s'', hd, hlater⟩ := exists_runEach_later o name env times' 0 s'
  exact ⟨d, s'', hd, h.bind (hlater m)⟩

end Report

end UsageBilling
