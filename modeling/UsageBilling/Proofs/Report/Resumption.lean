import UsageBilling.Proofs.Report.Splitting

/-!
# Resuming a range

Which hours a trace tells of.  `triedHours` are those for which the query was looked up, and
`committedHours` those whose transactions were committed.

* `Report.run_ok_hours` : a successful run tries and commits its hour, and no other.
* `Report.committedHours_append_triedHours` : what a range commits before it aborts, and what a run
  from the hour in hand tries if it ends well, are the hours of the range, each once and in order.
* `Report.runRange_splits_and_resumes` : ranges split and resume without gap or overlap.
-/

namespace UsageBilling

open Session Timestamp

/-! ### Hours in a trace -/

/-- The hour for which a step looks a query up by its name. -/
def Event.hour? : Event → Option Timestamp
  | .statement (.findQuery _ time) _ => some time
  | _ => none

/-- The hours that were tried, in order: those for which the query was looked up. -/
def triedHours (steps : List Event) : List Timestamp := steps.filterMap Event.hour?

theorem triedHours_append (steps steps' : List Event) :
    triedHours (steps ++ steps') = triedHours steps ++ triedHours steps' := List.filterMap_append

/-- The hour in hand after a step, the last that was tried since a transaction began or ended. -/
def Event.hourAfter (hour? : Option Timestamp) : Event → Option Timestamp
  | .control _ _ | .rollback => none
  | e => e.hour?.or hour?

/-- The hour that a step commits, that in hand. -/
def Event.hourCommitted (hour? : Option Timestamp) : Event → Option Timestamp
  | .control .commit none => hour?
  | _ => none

/-- The hours that are committed, in order, when there may be one in hand already. -/
def committedFrom (hour? : Option Timestamp) : List Event → List Timestamp
  | [] => []
  | e :: steps => (e.hourCommitted hour?).toList ++ committedFrom (e.hourAfter hour?) steps

/-- The hours that were committed, in order: those in hand at a commit. -/
def committedHours (steps : List Event) : List Timestamp := committedFrom none steps

/-- Other statements and queries leave the hour in hand as it is. -/
theorem committedFrom_of_isData {hour? : Option Timestamp} {steps rest : List Event}
    (hdata : ∀ e ∈ steps, e.isData) (hhour : ∀ e ∈ steps, e.hour? = none) :
    committedFrom hour? (steps ++ rest) = committedFrom hour? rest := by
  induction steps with
  | nil => rfl
  | cons e steps ih =>
    rw [List.forall_mem_cons] at hdata hhour
    have hsame : e.hourAfter hour? = hour? ∧ e.hourCommitted hour? = none := by
      cases e with
      | statement _ _ | evaluation _ _ _ =>
        exact ⟨by simp [Event.hourAfter, hhour.1], rfl⟩
      | control _ _ | rollback | reconciliation _ _ | progress _ _ => cases hdata.1
    rw [List.cons_append, committedFrom, hsame.1, hsame.2, ih hdata.2 hhour.2]
    rfl

/-- Without a commit no hour is committed. -/
theorem committedFrom_of_commitCount {hour? : Option Timestamp} {steps : List Event}
    (h : commitCount steps = 0) : committedFrom hour? steps = [] := by
  induction steps generalizing hour? with
  | nil => rfl
  | cons e steps ih =>
    have hnone := List.countP_eq_zero.1 h
    rw [List.forall_mem_cons] at hnone
    have hnothing : e.hourCommitted hour? = none := by
      unfold Event.hourCommitted
      split
      · exact absurd rfl hnone.1
      · rfl
    rw [committedFrom, hnothing, ih (List.countP_eq_zero.2 hnone.2)]
    rfl

namespace Report

/-! ### The hour of a run -/

section Hour

variable {α : Type} {read? : Row → Option α} {q : Statement} {a : α} {steps : List Event}
  {time : Timestamp}

theorem hour?_of_found (h : Store.Found read? q a steps)
    (hq : ∀ reply, (Event.statement q reply).hour? = none) : ∀ e ∈ steps, e.hour? = none := by
  obtain ⟨reply, -, rfl⟩ := h
  exact List.forall_mem_singleton.2 (hq reply)

theorem hour?_of_settled (h : Store.Settled read? q a steps)
    (hq : ∀ reply, (Event.statement q reply).hour? = none) : ∀ e ∈ steps, e.hour? = none := by
  rcases h with h | ⟨reply, again, -, h, rfl⟩
  · exact hour?_of_found h hq
  · exact List.forall_mem_cons.2 ⟨hq reply, hour?_of_found h hq⟩

theorem SampleSteps.hour?_eq_none {query : Query} {sample : Sample}
    (h : SampleSteps query time sample steps) : ∀ e ∈ steps, e.hour? = none := by
  obtain ⟨-, -, -, -, htenant, hcategory, hproduct, hdiscount, hhour, hfact⟩ := h
  simp only [List.forall_mem_append]
  exact ⟨hour?_of_settled htenant fun _ => rfl, hour?_of_settled hcategory fun _ => rfl,
    hour?_of_found hproduct fun _ => rfl, hour?_of_found hdiscount fun _ => rfl,
    hour?_of_settled hhour fun _ => rfl, hour?_of_found hfact fun _ => rfl⟩

theorem QuerySteps.hour?_eq_none {hourEnd : Timestamp} {query : Query} {count : Nat}
    (h : QuerySteps time hourEnd query count steps) : ∀ e ∈ steps, e.hour? = none := by
  obtain ⟨elapsed, samples, blocks, hblocks, -, rfl⟩ := h
  refine List.forall_mem_cons.2 ⟨rfl, ?_⟩
  induction hblocks with
  | nil => simp
  | cons hs _ ih =>
    rw [List.flatten_cons, List.forall_mem_append]
    exact ⟨hs.hour?_eq_none, ih⟩

/-- The steps of an hour start with the lookup of the query for it, and there is no other. -/
theorem FamilySteps.exists_lookup {name : String} {n : Nat} (h : FamilySteps name time n steps) :
    ∃ reply others, steps = .statement (.findQuery name time) reply :: others ∧
      ∀ e ∈ others, e.hour? = none := by
  obtain ⟨hourEnd, main, found, count, block, below, listed, parts, -, -, hblock, -, hparts, -,
    rfl⟩ := h
  have hunder : ∀ e ∈ (parts.map Prod.snd).flatten, e.hour? = none := by
    induction hparts with
    | nil => simp
    | cons hq _ ih =>
      rw [List.map_cons, List.flatten_cons, List.forall_mem_append]
      exact ⟨hq.hour?_eq_none, ih⟩
  refine ⟨found, block ++ ([.statement (.subQueries main.id time) listed] ++
    (parts.map Prod.snd).flatten), by simp, ?_⟩
  rw [List.forall_mem_append, List.forall_mem_append, List.forall_mem_singleton]
  exact ⟨hblock.hour?_eq_none, rfl, hunder⟩

end Hour

/-! ### The hours of a range -/

section Courses

variable {σ : Type} {env : Environment σ} {s s' : σ} {o : ReportOptions} {name : String} {k : Nat}
  {time : Timestamp} {times : List Timestamp}

/-- A successful run tries its hour and commits it. -/
theorem run_ok_hours {c : Course Nat} {n : Nat} (h : Takes env s (run o name time) c s')
    (hok : c.result = .ok n) :
    triedHours c.steps = [time] ∧
      ∀ hour? rest, committedFrom hour? (c.steps ++ rest) = time :: committedFrom none rest := by
  obtain ⟨inner, hfamily, hdata, hsteps⟩ := run_ok_steps h hok
  obtain ⟨reply, others, rfl, hothers⟩ := hfamily.exists_lookup
  rw [List.forall_mem_cons] at hdata
  rw [hsteps, List.cons_append]
  constructor
  · have hnone : triedHours others = [] := List.filterMap_eq_nil_iff.2 hothers
    calc triedHours (.control .start none :: .statement (.findQuery name time) reply ::
          (others ++ [.control .commit none]))
        = time :: triedHours (others ++ [.control .commit none]) := rfl
      _ = [time] := by rw [triedHours_append, hnone]; rfl
  · intro hour? rest
    have hinner : committedFrom (some time) (others ++ .control .commit none :: rest) =
        committedFrom (some time) (.control .commit none :: rest) :=
      committedFrom_of_isData hdata.2 hothers
    calc committedFrom hour? (.control .start none :: .statement (.findQuery name time) reply ::
          (others ++ [.control .commit none]) ++ rest)
        = committedFrom (some time) (others ++ .control .commit none :: rest) := by
          rw [List.cons_append, List.cons_append, List.append_assoc]; rfl
      _ = committedFrom (some time) (.control .commit none :: rest) := hinner
      _ = time :: committedFrom none rest := rfl

theorem hours_progressSteps (o : ReportOptions) (time : Timestamp) (n : Nat) :
    triedHours (progressSteps o time n) = [] ∧
      ∀ rest, committedFrom none (progressSteps o time n ++ rest) = committedFrom none rest := by
  unfold progressSteps
  split <;> exact ⟨rfl, fun _ => rfl⟩

/-- Completed hours are tried and committed. -/
theorem Completed.hours {steps : List Event} {g : ReportMetrics → ReportMetrics}
    (h : Completed env o name k times s steps g s') :
    triedHours steps = times ∧
      ∀ rest, committedFrom none (steps ++ rest) = times ++ committedFrom none rest := by
  induction h with
  | nil => exact ⟨rfl, fun _ => rfl⟩
  | @cons k _ time times _ _ _ body rest _ _ hrun _ _ _ ih =>
    obtain ⟨ihtried, ihcommitted⟩ := ih
    obtain ⟨htried, hcommitted⟩ := run_ok_hours hrun rfl
    obtain ⟨htold, htold'⟩ := hours_progressSteps o time (k + 1)
    constructor
    · rw [triedHours_append, triedHours_append, htried, htold, ihtried]
      rfl
    · intro rest'
      rw [List.append_assoc, List.append_assoc, hcommitted, htold', ihcommitted]
      rfl

/-- A range that ends well has tried and committed all its hours, and tells how many they are. -/
theorem RangeCourse.hours_of_ok {completed n : Nat} {c : Course Nat}
    (h : RangeCourse env o name k times s completed c s') (hok : c.result = .ok n) :
    triedHours c.steps = times ∧ committedHours c.steps = times ∧ n = k + times.length := by
  cases h with
  | @finished steps _ _ hdone =>
    obtain ⟨htried, hcommitted⟩ := hdone.hours
    have hall := hcommitted []
    rw [List.append_nil, committedFrom, List.append_nil] at hall
    exact ⟨htried, hall, (Except.ok.inj hok).symm⟩
  | aborted | halted => cases hok

/-- A range that aborts has committed the hours before the one in hand, and tells how many they
are. -/
theorem RangeCourse.hours_of_aborted {completed n : Nat} {c : Course Nat} {e : BillingError}
    (h : RangeCourse env o name k times s completed c s')
    (he : c.result = .error (.failed (.rangeAborted n time e))) :
    n = k + (committedHours c.steps).length ∧
      ∃ after, times = committedHours c.steps ++ time :: after := by
  cases h with
  | finished => cases he
  | @aborted before after hour _ failed _ _ _ _ _ htimes hdone hfailed =>
    obtain ⟨rfl, rfl, -⟩ := BillingError.rangeAborted.inj (Stop.failed.inj (Except.error.inj he))
    have hnothing : committedFrom none failed = [] :=
      committedFrom_of_commitCount (run_error_tally hfailed rfl).1
    rw [htimes, committedHours, hdone.hours.2, hnothing, List.append_nil]
    exact ⟨rfl, after, rfl⟩
  | halted _ _ hother => exact absurd (Except.error.inj he) (hother _)

/-- A range takes one of the courses over its hours. -/
theorem rangeCourse_of_takes {start stop : Timestamp} (haligned : start.isHourStart)
    (horder : ¬ stop < start) (hspan : hourSpan start stop = ⟨times, false⟩) {c : Course Nat}
    (h : Takes env s (runRange o name start stop) c s') :
    ∃ completed, RangeCourse env o name 0 times s completed c s' := by
  rw [runRange_eq_runEach haligned horder hspan] at h
  obtain ⟨completed, c', s'', hcourse, htakes⟩ := exists_runEach o name env times 0 s
  obtain ⟨rfl, rfl⟩ := h.unique htakes
  exact ⟨completed, hcourse⟩

/-- A range that ends well commits all its hours in order, and tells how many they are. -/
theorem committedHours_of_ok {start stop : Timestamp} (haligned : start.isHourStart)
    (horder : ¬ stop < start) (hroom : stop.seconds + 7200 ≤ maxSeconds) {c : Course Nat} {m : Nat}
    (h : Takes env s (runRange o name start stop) c s') (hok : c.result = .ok m) :
    hours start stop = some (committedHours c.steps) ∧ m = (committedHours c.steps).length := by
  obtain ⟨times, hspan, -⟩ := exists_hourSpan haligned horder hroom
  obtain ⟨_, hcourse⟩ := rangeCourse_of_takes haligned horder hspan h
  obtain ⟨-, hcommitted, hcount⟩ := hcourse.hours_of_ok hok
  rw [hcommitted, hours_of_hourSpan hspan, hcount, Nat.zero_add]
  exact ⟨rfl, rfl⟩

/-- **Resuming leaves no gap and does nothing twice.**  What a range commits before it aborts and
what a run from the hour in hand tries are all its hours in order, if that run ends well. -/
theorem committedHours_append_triedHours {start stop : Timestamp} (haligned : start.isHourStart)
    (horder : ¬ stop < start) (hroom : stop.seconds + 7200 ≤ maxSeconds) {env' : Environment σ}
    {r r' : σ} {c d : Course Nat} {n m : Nat} {e : BillingError}
    (h : Takes env s (runRange o name start stop) c s')
    (he : c.result = .error (.failed (.rangeAborted n time e)))
    (h' : Takes env' r (runRange o name time stop) d r') (hok : d.result = .ok m) :
    n = (committedHours c.steps).length ∧
      ∃ times, hours start stop = some times ∧ times.Pairwise (· < ·) ∧
        times = committedHours c.steps ++ triedHours d.steps := by
  obtain ⟨times, hspan, hincreasing⟩ := exists_hourSpan haligned horder hroom
  have hhours := hours_of_hourSpan hspan
  -- the aborted range stops at one of its hours
  obtain ⟨_, hcourse⟩ := rangeCourse_of_takes haligned horder hspan h
  obtain ⟨hcount, after, htimes⟩ := hcourse.hours_of_aborted he
  rw [htimes] at hspan
  -- the hours from there on are those that are left
  obtain ⟨haligned', hlt, hrest⟩ := hourSpan_of_append haligned hspan
  obtain ⟨_, hcourse'⟩ := rangeCourse_of_takes haligned' (not_lt_of_lt hlt) hrest h'
  obtain ⟨htried, -, -⟩ := hcourse'.hours_of_ok hok
  rw [Nat.zero_add] at hcount
  exact ⟨hcount, times, hhours, hincreasing, by rw [htried, htimes]⟩

end Courses

/-! ### Splitting and resuming -/

/-- **A range splits at an hour, and resumes where it aborts.**  Run after its first part, the
second part of a range takes the steps of the whole range and ends in the same way, but for the
number of hours that are done before it; the first part has committed its own hours.  And the hours
that a range commits before it aborts, of which it tells the number, together with those that a
later run tries from the hour in hand, are all its hours in order. -/
theorem runRange_splits_and_resumes (σ : Type) (o : ReportOptions) (name : String)
    {a b c : Timestamp} (ha : a.isHourStart) (hb : b.isHourStart) (hab : ¬ b < a) (hbc : ¬ c < b)
    (hroom : (c.addHour?.bind addHour?).isSome) :
    (∀ (env : Environment σ) (s s' : σ) (steps : List Event) (m : Nat)
        (g : ReportMetrics → ReportMetrics),
      Takes env s (runRange o name a b) ⟨steps, .ok m, g⟩ s' →
      hours a b = some (committedHours steps) ∧ m = (committedHours steps).length ∧
      ∃ rest whole s'', Takes env s' (runRange o name b c) rest s'' ∧
        Takes env s (runRange o name a c) whole s'' ∧
        whole.steps = steps ++ rest.steps.map (Event.later m) ∧
        (∀ j, rest.result = .ok j → whole.result = .ok (m + j)) ∧
        ∀ j t e, rest.result = .error (.failed (.rangeAborted j t e)) →
          whole.result = .error (.failed (.rangeAborted (m + j) t e))) ∧
    ∀ (env env' : Environment σ) (s s' r r' : σ) (aborted resumed : Course Nat) (k j : Nat)
        (t : Timestamp) (e : BillingError),
      Takes env s (runRange o name a c) aborted s' →
      aborted.result = .error (.failed (.rangeAborted k t e)) →
      Takes env' r (runRange o name t c) resumed r' → resumed.result = .ok j →
      k = (committedHours aborted.steps).length ∧
      ∃ times, hours a c = some times ∧ times.Pairwise (· < ·) ∧
        times = committedHours aborted.steps ++ triedHours resumed.steps := by
  have hbound := seconds_le_of_twoHours hroom
  have hbound' : b.seconds + 7200 ≤ maxSeconds := by
    have hle := seconds_le_of_not_lt hbc
    omega
  constructor
  · intro env s s' steps m g h
    obtain ⟨rest, s'', hrest, hwhole⟩ := runRange_append ha hb hab hbc hbound h
    obtain ⟨hcommitted, hcount⟩ := committedHours_of_ok ha hab hbound' h rfl
    refine ⟨hcommitted, hcount, rest, _, s'', hrest, hwhole, rfl, fun j hj => ?_,
      fun j t e he => ?_⟩
    · simp [Course.after, Course.later, hj]
    · simp [Course.after, Course.later, he, Stop.later]
  · intro env env' s s' r r' aborted resumed k j t e h he h' hok
    exact committedHours_append_triedHours ha (not_lt_trans hab hbc) hbound h he h' hok

/-- The hour after `memoryHour`. -/
def memoryNext : Timestamp := ⟨1579802400, 0, by decide⟩

/-- A range of memory, with the answers for one hour. -/
def memoryRange (start stop : Timestamp) : Except Stop Nat × World Script :=
  runIn Script.environment ⟨memoryScript, [], .zero⟩
    (runRange ⟨none, true, false⟩ "memory" start stop)

theorem exists_takes_memoryRange (start stop : Timestamp) (haligned : start.isHourStart)
    (horder : ¬ stop < start) (hroom : stop.seconds + 7200 ≤ maxSeconds) :
    ∃ g s', Takes Script.environment memoryScript
      (runRange ⟨none, true, false⟩ "memory" start stop)
      ⟨(memoryRange start stop).2.trace, (memoryRange start stop).1, g⟩ s' := by
  obtain ⟨c, s', htakes⟩ := exists_takes_runRange ⟨none, true, false⟩ "memory" haligned horder
    hroom Script.environment memoryScript
  obtain ⟨g, hrun⟩ := htakes.exists_runIn
  exact ⟨g, _, hrun⟩

/-- The error of the database that has no more answers. -/
def exhaustedError : BillingError := .storage (.database "57014" Script.exhausted)

/-- A range with the answers for one of its two hours, and the other hour with new answers. -/
theorem runRange_splits_and_resumes_memory :
    (memoryRange memoryHour memoryNext).1 = .ok 1 ∧
    (memoryRange memoryHour memoryEnd).1 =
      .error (.failed (.rangeAborted 1 memoryNext exhaustedError)) ∧
    (memoryRange memoryNext memoryEnd).1 = .ok 1 ∧
    (∃ s, hours memoryHour memoryNext =
        some (committedHours (memoryRange memoryHour memoryNext).2.trace) ∧
      1 = (committedHours (memoryRange memoryHour memoryNext).2.trace).length ∧
      ∃ rest whole s'',
        Takes Script.environment s
          (runRange ⟨none, true, false⟩ "memory" memoryNext memoryEnd) rest s'' ∧
        Takes Script.environment memoryScript
          (runRange ⟨none, true, false⟩ "memory" memoryHour memoryEnd) whole s'' ∧
        whole.steps =
          (memoryRange memoryHour memoryNext).2.trace ++ rest.steps.map (Event.later 1) ∧
        (∀ j, rest.result = .ok j → whole.result = .ok (1 + j)) ∧
        ∀ j t e, rest.result = .error (.failed (.rangeAborted j t e)) →
          whole.result = .error (.failed (.rangeAborted (1 + j) t e))) ∧
    1 = (committedHours (memoryRange memoryHour memoryEnd).2.trace).length ∧
    ∃ times, hours memoryHour memoryEnd = some times ∧ times.Pairwise (· < ·) ∧
      times = committedHours (memoryRange memoryHour memoryEnd).2.trace ++
        triedHours (memoryRange memoryNext memoryEnd).2.trace := by
  have hfirst : (memoryRange memoryHour memoryNext).1 = .ok 1 := by decide +kernel
  have haborted : (memoryRange memoryHour memoryEnd).1 =
      .error (.failed (.rangeAborted 1 memoryNext exhaustedError)) := by decide +kernel
  have hresumed : (memoryRange memoryNext memoryEnd).1 = .ok 1 := by decide +kernel
  obtain ⟨g, s, htakes⟩ := exists_takes_memoryRange memoryHour memoryNext (by decide)
    (by decide) (by decide)
  obtain ⟨g', s', htakes'⟩ := exists_takes_memoryRange memoryHour memoryEnd (by decide)
    (by decide) (by decide)
  obtain ⟨g'', s'', htakes''⟩ := exists_takes_memoryRange memoryNext memoryEnd (by decide)
    (by decide) (by decide)
  obtain ⟨hsplits, hresumes⟩ := runRange_splits_and_resumes Script ⟨none, true, false⟩ "memory"
    (a := memoryHour) (b := memoryNext) (c := memoryEnd) (by decide) (by decide) (by decide)
    (by decide) (by decide)
  rw [hfirst] at htakes
  exact ⟨hfirst, haborted, hresumed, ⟨s, hsplits _ _ _ _ _ _ htakes⟩,
    hresumes _ _ _ _ _ _ _ _ _ _ _ _ htakes' haborted htakes'' hresumed⟩

end Report

end UsageBilling
