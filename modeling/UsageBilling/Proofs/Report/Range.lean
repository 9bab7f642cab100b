import UsageBilling.Proofs.Calendar.Hours
import UsageBilling.Proofs.Report.Atomicity

/-!
# Ranges of hours

A range is run hour by hour, each in the state of the outside that the hour before left.

* `Report.Completed env o name k times s steps measured s'` : the hours `times`, before which `k`
  hours are done, are run one after the other and all succeed.
* `Report.RangeCourse` : the courses a list of hours can take, to its end or up to the first hour
  that fails.
* `BillingError.isNotFound_iff`, `BillingError.constraintCode_eq_some` : what the error of an aborted
  range answers is what went wrong in its last hour.
* `Report.runRange_course` : a range takes one of these courses over its hours, commits as many
  transactions as it completes hours, and tells of each right after its commit.
-/

namespace UsageBilling

open Session Timestamp

/-! ### What went wrong -/

namespace BillingError

/-- What went wrong at first, behind all the ranges that it aborted. -/
def origin : BillingError → BillingError
  | .rangeAborted _ _ source => source.origin
  | e => e

theorem isNotFound_iff {e : BillingError} : e.isNotFound ↔ ∃ why, e.origin = .notFound why := by
  induction e with
  | rangeAborted _ _ source ih => rw [isNotFound, origin, ih]
  | _ => simp [isNotFound, origin]

theorem constraintCode_eq_some {e : BillingError} {code : String} :
    e.constraintCode = some code ↔ ∃ message, e.origin = .storage (.database code message) := by
  induction e with
  | rangeAborted _ _ source ih => rw [constraintCode, origin, ih]
  | storage e => cases e <;> simp [constraintCode, origin]
  | _ => simp [constraintCode, origin]

end BillingError

namespace Report

variable {σ : Type} {env : Environment σ} {s s' s'' : σ} {o : ReportOptions} {name : String}
  {k : Nat} {time : Timestamp} {times : List Timestamp}

/-! ### The hours one after the other -/

/-- Run the hours of a list, before which some are done already: how many are done then. -/
def runEach (o : ReportOptions) (name : String) (completed : Nat) :
    List Timestamp → Session σ Nat
  | [] => pure completed
  | time :: times => do
    runHour o name completed time
    runEach o name (completed + 1) times

/-- One step of a range. -/
theorem runHours_of_addHour? {stop u : Timestamp} (hu : time.addHour? = some u) :
    (runHours o name stop k time : Session σ Nat) =
      if time < stop then do
        runHour o name k time
        runHours o name stop (k + 1) u
      else pure k := by
  rw [runHours]
  split
  · next hnone => rw [hnone] at hu; cases hu
  · next v hv =>
    obtain rfl : u = v := Option.some.inj (hu.symm.trans hv)
    split <;> rfl

/-- Unless the calendar ends first, the hours of a range are run one after the other. -/
theorem runHours_eq_runEach {stop : Timestamp} (h : hourSpan time stop = ⟨times, false⟩) :
    (runHours o name stop k time : Session σ Nat) = runEach o name k times := by
  induction times generalizing time k with
  | nil =>
    obtain ⟨u, hu, hlt⟩ := of_hourSpan_nil h
    rw [runHours_of_addHour? hu, if_neg hlt]
    rfl
  | cons t times ih =>
    obtain ⟨rfl, hlt, u, hu, hrest⟩ := of_hourSpan_cons h
    rw [runHours_of_addHour? hu, if_pos hlt, ih hrest]
    rfl

/-! ### Completed hours -/

/-- What is told of a completed hour. -/
def progressSteps (o : ReportOptions) (time : Timestamp) (completed : Nat) : List Event :=
  if o.showProgress then [.progress time completed] else []

/-- The hours are run one after the other, each in the state that the one before left, and all
succeed.  The steps of each end with its only commit, and then it is told of. -/
inductive Completed (env : Environment σ) (o : ReportOptions) (name : String) :
    Nat → List Timestamp → σ → List Event → (ReportMetrics → ReportMetrics) → σ → Prop
  | nil (k : Nat) (s : σ) : Completed env o name k [] s [] id s
  | cons {k facts : Nat} {time : Timestamp} {times : List Timestamp} {s s' s'' : σ}
      {body rest : List Event} {g g' : ReportMetrics → ReportMetrics} :
      Takes env s (run o name time) ⟨body ++ [.control .commit none], .ok facts, g⟩ s' →
      commitCount body = 0 → progressOf body = [] →
      Completed env o name (k + 1) times s' rest g' s'' →
      Completed env o name k (time :: times) s
        (body ++ [.control .commit none] ++ progressSteps o time (k + 1) ++ rest) (g' ∘ g) s''

/-- The courses of a list of hours, before which some are done, and how many hours are completed. -/
inductive RangeCourse (env : Environment σ) (o : ReportOptions) (name : String) (done : Nat)
    (times : List Timestamp) (s : σ) : Nat → Course Nat → σ → Prop
  | finished {steps : List Event} {g : ReportMetrics → ReportMetrics} {s' : σ} :
      Completed env o name done times s steps g s' →
      RangeCourse env o name done times s times.length ⟨steps, .ok (done + times.length), g⟩ s'
  | aborted {before after : List Timestamp} {time : Timestamp} {steps failed : List Event}
      {e : BillingError} {g g' : ReportMetrics → ReportMetrics} {s₁ s₂ : σ} :
      times = before ++ time :: after → Completed env o name done before s steps g s₁ →
      Takes env s₁ (run o name time) ⟨failed, .error (.failed e), g'⟩ s₂ →
      RangeCourse env o name done times s before.length
        ⟨steps ++ failed, .error (.failed (.rangeAborted (done + before.length) time e)), g' ∘ g⟩ s₂
  /-- A stop that is no error, as behind the end of the calendar, is left as it is. -/
  | halted {before after : List Timestamp} {time : Timestamp} {steps failed : List Event}
      {stop : Stop} {g g' : ReportMetrics → ReportMetrics} {s₁ s₂ : σ} :
      times = before ++ time :: after → Completed env o name done before s steps g s₁ →
      (∀ e, stop ≠ .failed e) → Takes env s₁ (run o name time) ⟨failed, .error stop, g'⟩ s₂ →
      RangeCourse env o name done times s before.length ⟨steps ++ failed, .error stop, g' ∘ g⟩ s₂

/-- An hour that does not end well is the last of a course. -/
theorem RangeCourse.of_stop {before after : List Timestamp} {steps failed : List Event} {stop : Stop}
    {g g' : ReportMetrics → ReportMetrics} (htimes : times = before ++ time :: after)
    (hdone : Completed env o name k before s steps g s')
    (hrun : Takes env s' (run o name time) ⟨failed, .error stop, g'⟩ s'') :
    RangeCourse env o name k times s before.length
      ⟨steps ++ failed, .error (abortRange (k + before.length) time stop), g' ∘ g⟩ s'' := by
  cases stop with
  | failed e => exact .aborted htimes hdone hrun
  | overflow => exact .halted htimes hdone (by simp [abortRange]) hrun
  | stalled => exact .halted htimes hdone (by simp [abortRange]) hrun

theorem takes_runHour_ok {steps : List Event} {facts : Nat} {g : ReportMetrics → ReportMetrics}
    (h : Takes env s (run o name time) ⟨steps, .ok facts, g⟩ s') :
    Takes env s (runHour o name k time) ⟨steps ++ progressSteps o time (k + 1), .ok (), g⟩ s' := by
  have hcaught : Takes env s
      (tryCatch (run o name time) fun stop => throw (abortRange k time stop))
      ⟨steps, .ok facts, g⟩ s' := h.tryCatch_ok
  refine hcaught.bind (d := ⟨progressSteps o time (k + 1), .ok (), id⟩) ?_
  unfold progressSteps
  split
  · exact takes_record _
  · exact takes_pure ()

theorem takes_runHour_stop {steps : List Event} {stop : Stop} {g : ReportMetrics → ReportMetrics}
    (h : Takes env s (run o name time) ⟨steps, .error stop, g⟩ s') :
    Takes env s (runHour o name k time) ⟨steps, .error (abortRange k time stop), g⟩ s' :=
  Takes.bind_stop h.tryCatch_throw

/-- A successful hour before a course. -/
theorem RangeCourse.cons {body : List Event} {facts completed : Nat}
    {g : ReportMetrics → ReportMetrics} {c : Course Nat}
    (hrun : Takes env s (run o name time) ⟨body ++ [.control .commit none], .ok facts, g⟩ s')
    (hcommits : commitCount body = 0) (hprogress : progressOf body = [])
    (h : RangeCourse env o name (k + 1) times s' completed c s'') :
    RangeCourse env o name k (time :: times) s (completed + 1)
      (c.after (body ++ [.control .commit none] ++ progressSteps o time (k + 1)) g) s'' := by
  -- what is an hour more for the list is an hour less done before
  cases h with
  | finished hdone =>
    have hcourse := RangeCourse.finished (.cons hrun hcommits hprogress hdone)
    have hcount : k + (time :: times).length = k + 1 + times.length := by
      rw [List.length_cons]
      omega
    rw [hcount] at hcourse
    exact hcourse
  | @aborted before after _ _ _ _ _ _ _ _ htimes hdone hfailed =>
    have hcourse := RangeCourse.aborted (congrArg (time :: ·) htimes)
      (.cons hrun hcommits hprogress hdone) hfailed
    have hcount : k + (time :: before).length = k + 1 + before.length := by
      rw [List.length_cons]
      omega
    rw [hcount, List.append_assoc] at hcourse
    exact hcourse
  | halted htimes hdone hother hfailed =>
    have hcourse := RangeCourse.halted (congrArg (time :: ·) htimes)
      (.cons hrun hcommits hprogress hdone) hother hfailed
    rw [List.append_assoc] at hcourse
    exact hcourse

/-- **The hours of a list take one of the courses.** -/
theorem exists_runEach (o : ReportOptions) (name : String) (env : Environment σ)
    (times : List Timestamp) (k : Nat) (s : σ) :
    ∃ completed c s', RangeCourse env o name k times s completed c s' ∧
      Takes env s (runEach o name k times) c s' := by
  induction times generalizing k s with
  | nil => exact ⟨0, _, s, .finished (.nil k s), takes_pure k⟩
  | cons time times ih =>
    obtain ⟨⟨steps, result, g⟩, s₁, hrun⟩ := exists_takes_run o name time env s
    cases result with
    | error stop =>
      have hcourse : RangeCourse env o name k (time :: times) s 0
          ⟨[] ++ steps, .error (abortRange (k + 0) time stop), g ∘ id⟩ s₁ :=
        .of_stop (List.nil_append (time :: times)).symm (.nil k s) hrun
      exact ⟨0, _, s₁, hcourse, (takes_runHour_stop hrun).bind_stop⟩
    | ok facts =>
      -- the other hours start from what this one left
      obtain ⟨body, hbody, hcommits, hprogress⟩ := run_ok_tally hrun rfl
      obtain rfl : steps = body ++ [.control .commit none] := hbody
      obtain ⟨completed, c, s₂, hcourse, heach⟩ := ih (k + 1) s₁
      exact ⟨completed + 1, _, s₂, hcourse.cons hrun hcommits hprogress,
        (takes_runHour_ok hrun).bind heach⟩

/-! ### Commits and progress of a range -/

theorem tally_progressSteps (o : ReportOptions) (time : Timestamp) (n : Nat) :
    commitCount (progressSteps o time n) = 0 ∧
      progressOf (progressSteps o time n) = if o.showProgress then [(time, n)] else [] := by
  unfold progressSteps
  split <;> exact ⟨rfl, rfl⟩

/-- As many commits as hours, and each hour is told of with its count. -/
theorem Completed.tally {steps : List Event} {g : ReportMetrics → ReportMetrics}
    (h : Completed env o name k times s steps g s') :
    commitCount steps = times.length ∧
      progressOf steps = if o.showProgress then times.zipIdx (k + 1) else [] := by
  induction h with
  | nil k s => exact ⟨rfl, by simp [progressOf]⟩
  | @cons k _ time times _ _ _ body rest _ _ _ hcommits hprogress _ ih =>
    obtain ⟨ihcommits, ihprogress⟩ := ih
    obtain ⟨htold, htold'⟩ := tally_progressSteps o time (k + 1)
    have hcommit : commitCount [.control .commit none] = 1 ∧
      progressOf [.control .commit none] = [] := ⟨rfl, rfl⟩
    constructor
    · rw [commitCount_append, commitCount_append, commitCount_append, hcommits, hcommit.1, htold,
        ihcommits, List.length_cons]
      omega
    · rw [progressOf_append, progressOf_append, progressOf_append, hprogress, hcommit.2, htold',
        ihprogress]
      split <;> simp

/-- A course commits as many transactions as it completes hours, and tells of these. -/
theorem RangeCourse.tally {completed : Nat} {c : Course Nat}
    (h : RangeCourse env o name k times s completed c s') :
    commitCount c.steps = completed ∧
      progressOf c.steps =
        if o.showProgress then (times.take completed).zipIdx (k + 1) else [] := by
  cases h with
  | finished hdone =>
    rw [List.take_length]
    exact hdone.tally
  | aborted htimes hdone hfailed | halted htimes hdone _ hfailed =>
    obtain ⟨hcommits, hprogress⟩ := hdone.tally
    obtain ⟨hfcommits, hfprogress⟩ := run_error_tally hfailed rfl
    simp only at hfcommits hfprogress
    rw [commitCount_append, progressOf_append, hcommits, hprogress, hfcommits, hfprogress, htimes,
      List.take_left, List.append_nil]
    exact ⟨rfl, rfl⟩

/-- An error of a course is that of the hour in hand, with the hours that were completed. -/
theorem RangeCourse.of_failed {completed : Nat} {c : Course Nat} {e : BillingError}
    (h : RangeCourse env o name k times s completed c s') (he : c.result = .error (.failed e)) :
    ∃ source hour s₁ failed g, e = .rangeAborted (k + completed) hour source ∧
      times[completed]? = some hour ∧
      Takes env s₁ (run o name hour) ⟨failed, .error (.failed source), g⟩ s' := by
  cases h with
  | finished => cases he
  | @aborted before after hour _ _ source _ _ _ _ htimes _ hfailed =>
    obtain rfl := Stop.failed.inj (Except.error.inj he)
    exact ⟨source, hour, _, _, _, rfl, by simp [htimes], hfailed⟩
  | halted _ _ hother => exact absurd (Except.error.inj he) (hother e)

/-- **A range is the sequence of its hours.**  From the start of an hour, and as long as the
calendar lasts one hour longer than the first that is not in the range, the hours are run one after
the other until one fails; the transactions committed are those of the hours completed, which are
told of in order; and an error bears their number, the hour in hand and the error of its run, for
which it answers. -/
theorem runRange_course (o : ReportOptions) (name : String) {start stop : Timestamp}
    (haligned : start.isHourStart) (horder : ¬ stop < start)
    (hsome : (start.addHours? (hourCount start stop + 1)).isSome) (env : Environment σ) (s : σ) :
    ∃ times completed c s',
      times.length = hourCount start stop ∧
      (∀ i hour, start.addHours? i = some hour → (hour < stop ↔ i < times.length)) ∧
      (∀ i < times.length, times[i]? = start.addHours? i) ∧
      Takes env s (runRange o name start stop) c s' ∧
      RangeCourse env o name 0 times s completed c s' ∧
      commitCount c.steps = completed ∧
      progressOf c.steps = (if o.showProgress then (times.take completed).zipIdx 1 else []) ∧
      ∀ e, c.result = .error (.failed e) → ∃ source hour s₁ failed g,
        e = .rangeAborted completed hour source ∧ times[completed]? = some hour ∧
          Takes env s₁ (run o name hour) ⟨failed, .error (.failed source), g⟩ s' ∧
          e.isNotFound = source.isNotFound ∧ e.constraintCode = source.constraintCode ∧
          (e.isNotFound ↔ ∃ why, source.origin = .notFound why) ∧
          ∀ code, e.constraintCode = some code ↔
            ∃ message, source.origin = .storage (.database code message) := by
  have hnanos : start.nanos < nanosPerSecond := by
    rw [(isHourStart_iff.1 haligned).2]
    decide
  obtain ⟨times, hspan, hlength, htimes⟩ := hourSpan_of_isSome hnanos hsome
  obtain ⟨completed, c, s', hcourse, heach⟩ := exists_runEach o name env times 0 s
  obtain ⟨hcommits, hprogress⟩ := hcourse.tally
  refine ⟨times, completed, c, s', hlength, fun i hour hhour => ?_, htimes, ?_, hcourse, hcommits,
    hprogress, ?_⟩
  · rw [hlength]
    exact lt_iff_lt_hourCount hhour
  · rw [← runHours_eq_runEach hspan] at heach
    simpa [runRange, horder] using (takes_requireHourStart haligned).bind_silent heach
  · intro e he
    obtain ⟨source, hour, s₁, failed, g, rfl, htime, hfailed⟩ := hcourse.of_failed he
    rw [Nat.zero_add]
    exact ⟨source, hour, s₁, failed, g, rfl, htime, hfailed, rfl, rfl,
      BillingError.isNotFound_iff, fun _ => BillingError.constraintCode_eq_some⟩

/-- Half past six on the evening of `memoryHour`. -/
def memoryEnd : Timestamp := ⟨1579804200, 0, by decide⟩

/-- Two hours, of which the script has the answers for one. -/
theorem runRange_course_memory :
    memoryHour.isHourStart ∧ ¬ memoryEnd < memoryHour ∧ hourCount memoryHour memoryEnd = 2 ∧
    ∃ times completed c s',
      times.length = hourCount memoryHour memoryEnd ∧
      (∀ i hour, memoryHour.addHours? i = some hour → (hour < memoryEnd ↔ i < times.length)) ∧
      (∀ i < times.length, times[i]? = memoryHour.addHours? i) ∧
      Takes Script.environment memoryScript
        (runRange ⟨none, true, false⟩ "memory" memoryHour memoryEnd) c s' ∧
      RangeCourse Script.environment ⟨none, true, false⟩ "memory" 0 times memoryScript completed c
        s' ∧
      commitCount c.steps = completed ∧
      progressOf c.steps = (if true then (times.take completed).zipIdx 1 else []) ∧
      ∀ e, c.result = .error (.failed e) → ∃ source hour s₁ failed g,
        e = .rangeAborted completed hour source ∧ times[completed]? = some hour ∧
          Takes Script.environment s₁ (run ⟨none, true, false⟩ "memory" hour)
            ⟨failed, .error (.failed source), g⟩ s' ∧
          e.isNotFound = source.isNotFound ∧ e.constraintCode = source.constraintCode ∧
          (e.isNotFound ↔ ∃ why, source.origin = .notFound why) ∧
          ∀ code, e.constraintCode = some code ↔
            ∃ message, source.origin = .storage (.database code message) :=
  ⟨by decide, by decide, by decide, runRange_course ⟨none, true, false⟩ "memory" (by decide)
    (by decide) (by decide) Script.environment memoryScript⟩

end Report

end UsageBilling
