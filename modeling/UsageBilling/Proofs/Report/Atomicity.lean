import UsageBilling.Proofs.Report.Transcript
import UsageBilling.Proofs.Session.Transaction

/-!
# A run is all or nothing

An hour is ingested in a transaction of its own.  Next to a run stands the same ingestion without a
transaction, on the same answers:

* `Report.exists_run` : a run at the start of an hour is a transaction around the ingestion, and
  then it is counted;
* `Report.run_ok_tally`, `Report.run_error_tally` : a successful run ends with its only commit, and
  a failed one has none;
* `Report.run_all_or_nothing` : the run succeeds exactly if it can be started, the ingestion
  succeeds and the commit is not refused; inside the transaction it asks what the ingestion alone
  asks; it commits after all of that only; and nothing is committed unless it succeeds.
-/

namespace UsageBilling

open Session

namespace Report

variable {o : ReportOptions} {name : String} {time : Timestamp}

/-! ### Courses of a run -/

section Courses

variable {σ : Type} {env : Environment σ} {s s' : σ}

/-- What the count of a run does to the metrics. -/
def countedAs (o : ReportOptions) (result : Except Stop Nat) (m : ReportMetrics) :
    ReportMetrics :=
  if o.measured then
    match result with
    | .ok facts => m.countRun facts
    | .error (.failed _) => m.countFailure
    | .error .overflow | .error .stalled => m
  else m

/-- Counting takes no step and leaves the result as it is. -/
theorem takes_counted {x : Session σ Nat} {c : Course Nat} (h : Takes env s x c s') :
    Takes env s (counted o x) ⟨c.steps, c.result, countedAs o c.result ∘ c.measured⟩ s' := by
  intro trace metrics
  unfold counted countedAs
  by_cases hm : o.measured
  · obtain ⟨steps, result, g⟩ := c
    cases result with
    | ok n => simp [hm, runIn_tryCatch, runIn_bind, h trace metrics, -bind_pure_comp]
    | error stop => cases stop <;> simp [hm, runIn_tryCatch, runIn_bind, h trace metrics]
  · simpa [hm] using h trace metrics

theorem takes_requireHourStart (h : time.isHourStart = true) :
    Takes env s (requireHourStart time) ⟨[], .ok (), id⟩ s := by
  intro trace metrics
  simp [requireHourStart, h]

/-- A run at another time than the start of an hour does nothing. -/
theorem takes_run_of_not_isHourStart (h : time.isHourStart = false) :
    Takes env s (run o name time)
      ⟨[], .error (.failed (.validation (.unalignedTimestamp time))), id⟩ s := by
  intro trace metrics
  simp [run, requireHourStart, h, runIn_bind]

/-- **A run is a transaction around the ingestion.** -/
theorem exists_run (h : time.isHourStart = true) (s : σ) :
    ∃ c s', Enclosed env s (ingestFamily o name time) c s' ∧
      Takes env s (run o name time)
        ⟨c.steps, c.result, countedAs o c.result ∘ c.measured⟩ s' := by
  have hbody : ∀ s, ∃ c s', Takes env s (ingestFamily o name time) c s' := by
    intro s
    obtain ⟨c, s', hanswers, hleads, -⟩ := (plain_ingestFamily o name time).course env s
    exact ⟨c, s', hleads env s s' hanswers⟩
  obtain ⟨c, s', hc, htakes⟩ := exists_enclosed hbody s
  exact ⟨c, s', hc, (takes_requireHourStart h).bind_silent (takes_counted htakes)⟩

/-- A run takes some course at any time. -/
theorem exists_takes_run (o : ReportOptions) (name : String) (time : Timestamp)
    (env : Environment σ) (s : σ) : ∃ c s', Takes env s (run o name time) c s' := by
  cases h : time.isHourStart with
  | true =>
    obtain ⟨c, s', -, hrun⟩ := exists_run h s
    exact ⟨_, s', hrun⟩
  | false => exact ⟨_, s, takes_run_of_not_isHourStart h⟩

/-- The course of a successful run can be read off the world it leaves. -/
theorem exists_takes_run_of_ok {n : Nat}
    (hok : (runIn env ⟨s, [], .zero⟩ (run o name time)).1 = .ok n) :
    ∃ g, Takes env s (run o name time)
      ⟨(runIn env ⟨s, [], .zero⟩ (run o name time)).2.trace, .ok n, g⟩
      (runIn env ⟨s, [], .zero⟩ (run o name time)).2.outside := by
  obtain ⟨c, s', h⟩ := exists_takes_run o name time env s
  have hrun := h.exists_runIn
  rwa [hok] at hrun

/-- A successful run is the ingestion between a start and a commit. -/
theorem run_ok_steps {c : Course Nat} {n : Nat} (h : Takes env s (run o name time) c s')
    (hok : c.result = .ok n) :
    ∃ inner, FamilySteps name time n inner ∧ (∀ e ∈ inner, e.isData) ∧
      c.steps = .control .start none :: (inner ++ [.control .commit none]) := by
  cases haligned : time.isHourStart with
  | false =>
    rw [(h.unique (takes_run_of_not_isHourStart haligned)).1] at hok
    cases hok
  | true =>
    obtain ⟨d, s'', henclosed, hrun⟩ := exists_run haligned s
    obtain ⟨rfl, rfl⟩ := h.unique hrun
    obtain ⟨inner, s₁, s₂, htakes, hinner, hsteps⟩ := henclosed.of_ok hok
    exact ⟨inner.steps, yields_ingestFamily.of_takes htakes hinner,
      (plain_ingestFamily o name time).isData_of_takes htakes, hsteps⟩

/-- A successful run ends with its only commit. -/
theorem run_ok_tally {c : Course Nat} {n : Nat} (h : Takes env s (run o name time) c s')
    (hok : c.result = .ok n) :
    ∃ body, c.steps = body ++ [.control .commit none] ∧ commitCount body = 0 ∧
      progressOf body = [] := by
  obtain ⟨inner, -, hdata, hsteps⟩ := run_ok_steps h hok
  have htally := tally_around hdata [.control .start none] []
  rw [List.append_nil] at htally
  exact ⟨.control .start none :: inner, hsteps, htally⟩

/-- A failed run commits nothing. -/
theorem run_error_tally {c : Course Nat} {stop : Stop} (h : Takes env s (run o name time) c s')
    (herror : c.result = .error stop) : commitCount c.steps = 0 ∧ progressOf c.steps = [] := by
  cases haligned : time.isHourStart with
  | false =>
    rw [(h.unique (takes_run_of_not_isHourStart haligned)).1]
    exact ⟨rfl, rfl⟩
  | true =>
    obtain ⟨d, s'', henclosed, hrun⟩ := exists_run haligned s
    obtain ⟨rfl, rfl⟩ := h.unique hrun
    exact henclosed.tally_of_error (plain_ingestFamily o name time) herror

end Courses

/-! ### All or nothing -/

/-- The outside lets a transaction be started. -/
def Starts (s : Script) : Prop := s.reachable = true ∧ (Script.meet .start s.faults).1 = none

/-- How a whole run compares with the ingestion alone, on the same answers. -/
structure AllOrNothing (s : Script) (alone whole : Course Nat) : Prop where
  ok_iff : ∀ n, whole.result = .ok n ↔
    Starts s ∧ alone.result = .ok n ∧ (Script.meet .commit s.faults).1 = none
  /-- Inside the transaction the run asks what the ingestion asks. -/
  inside : Starts s → ∃ closing, (∀ e ∈ closing, e.isData = false) ∧
    whole.steps = .control .start none :: (alone.steps ++ closing)
  /-- Without a transaction it asks nothing. -/
  outside : ¬ Starts s → ∀ e ∈ whole.steps, e.isData = false
  /-- The commit comes after a successful ingestion. -/
  commit_after : ∀ before refusal after,
    whole.steps = before ++ .control .commit refusal :: after →
      before = .control .start none :: alone.steps ∧ ∃ n, alone.result = .ok n
  /-- What fails is not committed, and what succeeds is. -/
  committed_iff : .control .commit none ∈ whole.steps ↔ ∃ n, whole.result = .ok n

/-- In a list with one commit in it, every commit is that one. -/
theorem eq_of_append_commit {e e' : Event} {data closing before after : List Event}
    (hdata : ∀ e ∈ data, e.isData = true) (hclosing : e ∉ closing) (he : e.isData = false)
    (h : data ++ e' :: closing = before ++ e :: after) : before = data ∧ e' = e := by
  induction data generalizing before with
  | nil =>
    cases before with
    | nil =>
      simp only [List.nil_append, List.cons.injEq] at h
      exact ⟨rfl, h.1⟩
    | cons b before =>
      simp only [List.nil_append, List.cons_append, List.cons.injEq] at h
      rw [h.2] at hclosing
      exact absurd (List.mem_append_right _ List.mem_cons_self) hclosing
  | cons d data ih =>
    have hd := hdata d List.mem_cons_self
    cases before with
    | nil =>
      simp only [List.nil_append, List.cons_append, List.cons.injEq] at h
      rw [h.1, he] at hd
      cases hd
    | cons b before =>
      simp only [List.cons_append, List.cons.injEq] at h
      obtain ⟨rfl, rfl⟩ := ih (fun e he => hdata e (List.mem_cons_of_mem _ he)) h.2
      exact ⟨by rw [h.1], rfl⟩

/-- Likewise behind the start of a transaction. -/
theorem eq_of_started_commit {e' : Event} {refusal : Option Refusal}
    {data closing before after : List Event} (hdata : ∀ e ∈ data, e.isData = true)
    (hclosing : .control .commit refusal ∉ closing)
    (h : .control .start none :: (data ++ e' :: closing) =
      before ++ .control .commit refusal :: after) :
    before = .control .start none :: data ∧ e' = .control .commit refusal := by
  cases before with
  | nil =>
    simp only [List.nil_append, List.cons.injEq] at h
    cases h.1
  | cons b before =>
    simp only [List.cons_append, List.cons.injEq] at h
    obtain ⟨rfl, hcommit⟩ := eq_of_append_commit hdata hclosing rfl h.2
    exact ⟨by rw [h.1], hcommit⟩

/-- The ingestion inside the transaction goes as the ingestion alone. -/
theorem inner_eq_alone {s s' s₁ s₂ : Script} {alone inner : Course Nat}
    (hanswers : Script.environment.Answers s alone.steps s')
    (hleads : Leads (ingestFamily o name time : Session Script Nat) alone)
    (hdata : ∀ e ∈ alone.steps, e.isData)
    (hstart : Script.environment.control .start s = (none, s₁))
    (htakes : Takes Script.environment s₁ (ingestFamily o name time) inner s₂) :
    alone = inner ∧
      (Script.environment.control .commit s₂).1 = (Script.meet .commit s.faults).1 := by
  -- what the start leaves differs in its faults only
  obtain ⟨-, rfl⟩ := Prod.mk.inj hstart
  have halone := hleads _ _ _ (Script.answers_of_isData hanswers hdata s.reachable
    (Script.meet .start s.faults).2)
  obtain ⟨rfl, rfl⟩ := halone.unique htakes
  exact ⟨rfl, Script.meet_meet (by decide) s.faults⟩

/-- A transaction around the ingestion compares with the ingestion alone. -/
theorem AllOrNothing.of_enclosed {s s' s'' : Script} {alone whole : Course Nat}
    (hanswers : Script.environment.Answers s alone.steps s')
    (hleads : Leads (ingestFamily o name time : Session Script Nat) alone)
    (hdata : ∀ e ∈ alone.steps, e.isData)
    (h : Enclosed Script.environment s (ingestFamily o name time) whole s'') :
    AllOrNothing s alone whole := by
  cases h with
  | unavailable hreach =>
    have hstarts : ¬ Starts s := fun h => by cases hreach.symm.trans h.1
    exact {
      ok_iff := fun n => by simp [hstarts]
      inside := fun h => absurd h hstarts
      outside := fun _ => by simp
      commit_after := fun before refusal after h => by cases before <;> cases h
      committed_iff := by simp }
  | notStarted hreach hstart =>
    have hstarts : ¬ Starts s := fun h => by cases (Prod.mk.inj hstart).1.symm.trans h.2
    exact {
      ok_iff := fun n => by simp [hstarts]
      inside := fun h => absurd h hstarts
      outside := fun _ => by simp [Event.isData]
      commit_after := fun before refusal after h => by
        have hmem := congrArg (Event.control .commit refusal ∈ ·) h
        simp at hmem
      committed_iff := by simp }
  | @rolledBack _ _ inner stop hreach hstart htakes hstop =>
    have hstarts : Starts s := ⟨hreach, (Prod.mk.inj hstart).1⟩
    obtain ⟨rfl, -⟩ := inner_eq_alone hanswers hleads hdata hstart htakes
    exact {
      ok_iff := fun n => by simp [hstop]
      inside := fun _ => ⟨[.rollback], by simp [Event.isData], rfl⟩
      outside := fun h => absurd hstarts h
      commit_after := fun before refusal after h => by
        cases (eq_of_started_commit hdata (by simp) h).2
      committed_iff := by
        refine ⟨fun hmem => ?_, by simp⟩
        obtain ⟨before, after, h⟩ := List.append_of_mem hmem
        cases (eq_of_started_commit hdata (by simp) h).2 }
  | @notCommitted _ _ _ inner a r hreach hstart htakes hok hcommit =>
    have hstarts : Starts s := ⟨hreach, (Prod.mk.inj hstart).1⟩
    obtain ⟨rfl, hmeet⟩ := inner_eq_alone hanswers hleads hdata hstart htakes
    rw [hcommit] at hmeet
    exact {
      ok_iff := fun n => by simp [← hmeet]
      inside := fun _ => ⟨[.control .commit (some r), .rollback], by simp [Event.isData], rfl⟩
      outside := fun h => absurd hstarts h
      commit_after := fun before refusal after h =>
        ⟨(eq_of_started_commit hdata (by simp) h).1, a, hok⟩
      committed_iff := by
        refine ⟨fun hmem => ?_, by simp⟩
        obtain ⟨before, after, h⟩ := List.append_of_mem hmem
        cases (eq_of_started_commit hdata (by simp) h).2 }
  | @committed _ _ _ inner a hreach hstart htakes hok hcommit =>
    have hstarts : Starts s := ⟨hreach, (Prod.mk.inj hstart).1⟩
    obtain ⟨rfl, hmeet⟩ := inner_eq_alone hanswers hleads hdata hstart htakes
    rw [hcommit] at hmeet
    exact {
      ok_iff := fun n => by simp [hstarts, hok, ← hmeet]
      inside := fun _ => ⟨[.control .commit none], by simp [Event.isData], rfl⟩
      outside := fun h => absurd hstarts h
      commit_after := fun before refusal after h =>
        ⟨(eq_of_started_commit hdata (by simp) h).1, a, hok⟩
      committed_iff := ⟨fun _ => ⟨a, rfl⟩, fun _ => by simp⟩ }

/-- **A run is all or nothing**, whatever the outside answers and refuses.  At another time than
the start of an hour it asks nothing and fails; otherwise it compares with the ingestion alone as
`AllOrNothing` says. -/
theorem run_all_or_nothing (o : ReportOptions) (name : String) (time : Timestamp) (s : Script) :
    if time.isHourStart then
      ∃ alone whole s₁ s₂,
        Takes Script.environment s (ingest o name time) alone s₁ ∧
        (∀ e ∈ alone.steps, e.isData) ∧
        Takes Script.environment s (run o name time) whole s₂ ∧
        AllOrNothing s alone whole
    else
      Takes Script.environment s (run o name time)
        ⟨[], .error (.failed (.validation (.unalignedTimestamp time))), id⟩ s := by
  split
  · next haligned =>
    obtain ⟨alone, s₁, hanswers, hleads, hdata⟩ :=
      (plain_ingestFamily o name time).course Script.environment s
    obtain ⟨c, s₂, henclosed, hrun⟩ := exists_run haligned s
    have h := AllOrNothing.of_enclosed hanswers hleads hdata henclosed
    exact ⟨alone, _, s₁, s₂,
      (takes_requireHourStart haligned).bind_silent (hleads _ _ _ hanswers), hdata, hrun,
      h.ok_iff, h.inside, h.outside, h.commit_after, h.committed_iff⟩
  · next haligned =>
    exact takes_run_of_not_isHourStart (by simpa using haligned)

end Report

end UsageBilling
