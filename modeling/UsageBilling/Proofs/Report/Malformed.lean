import UsageBilling.Proofs.Report.Defect

/-!
# Malformed samples end an ingestion

Whatever the outside answers, an ingestion fails at the first malformed sample that it comes to.
All that was reached before it has been stored completely, and nothing is asked for it or after it.

* `Report.Ended` : how an ingestion ends after an answer that has a malformed sample.
* `Report.Reached` : the query that is evaluated next after some steps.
* `Report.Guards` : no answer with a malformed sample goes by; it is followed part by part, as
  what has a result met no such answer (`Report.Guards.bind`).
* `Report.conforms_ingest` : an ingestion is guarded.
-/

namespace UsageBilling.Report

open Session Store

variable {σ α : Type} {time : Timestamp}

/-! ### An hour -/

/-- How an ingestion ends after an answer that has a malformed sample: with a timeout if the answer
is late, and else at one of the samples. -/
inductive Ended (o : ReportOptions) (time : Timestamp) (query : Query) (elapsed : Duration)
    (samples : List Sample) : List Event → BillingError → Prop
  | late {limit : Duration} : o.queryLimit = some limit → limit.nanos < elapsed.nanos →
      Ended o time query elapsed samples [] (.metricsSource (.timeout limit))
  | halted {steps : List Event} {e : BillingError} :
      (∀ limit, o.queryLimit = some limit → elapsed.nanos ≤ limit.nanos) →
      Halted query time samples steps e → Ended o time query elapsed samples steps e

/-- The query whose evaluation comes next, and when it is evaluated, after some steps of an hour:
the query of the name itself, or one right under it, after that and all queries in front of it have
been stored. -/
inductive Reached (name : String) (time : Timestamp) : Query → Timestamp → List Event → Prop
  | main {query : Query} {hourEnd : Timestamp} {found : Reply} : time.addHour? = some hourEnd →
      found.first? Query.ofRow? = some query →
      Reached name time query hourEnd [.statement (.findQuery name time) found]
  | below {main query : Query} {hourEnd : Timestamp} {found listed : Reply} {count : Nat}
      {block : List Event} {done left : List Query} {parts : List (Nat × List Event)} :
      time.addHour? = some hourEnd → found.first? Query.ofRow? = some main →
      QuerySteps time hourEnd main count block →
      listed.all? Query.ofRow? = some (done ++ query :: left) →
      List.Forall₂ (fun query part => QuerySteps time hourEnd query part.1 part.2) done parts →
      Reached name time query hourEnd ([.statement (.findQuery name time) found] ++ block ++
        [.statement (.subQueries main.id time) listed] ++ (parts.map Prod.snd).flatten)

/-- No answer with a malformed sample goes by: it is the answer to a query that was reached, and the
ingestion fails after it. -/
def Guards (o : ReportOptions) (time : Timestamp)
    (reached : Query → Timestamp → List Event → Prop) (c : Course α) : Prop :=
  ∀ before text hourEnd elapsed samples after,
    c.steps = before ++ .evaluation text hourEnd (.answered elapsed (.ok samples)) :: after →
    (∃ x ∈ samples, x.Malformed) →
    ∃ query e, reached query hourEnd before ∧ text = query.query ∧
      c.result = .error (.failed e) ∧ Ended o time query elapsed samples after e

section Guards

variable {o : ReportOptions} {reached : Query → Timestamp → List Event → Prop}

theorem Guards.of_asks {p : Statement → Prop} {c : Course α} (h : Asks p c.steps) :
    Guards o time reached c := by
  intro before text hourEnd elapsed samples after hsplit
  obtain ⟨q, reply, heq, -⟩ := h (.evaluation text hourEnd (.answered elapsed (.ok samples)))
    (by rw [hsplit]; simp)
  cases heq

/-- Without steps nothing goes by. -/
theorem Guards.of_nil (result : Except Stop α) (g : ReportMetrics → ReportMetrics) :
    Guards o time reached ⟨[], result, g⟩ :=
  .of_asks (p := fun _ => True) (List.forall_mem_nil _)

theorem Guards.mono {reached' : Query → Timestamp → List Event → Prop} {c : Course α}
    (h : Guards o time reached c)
    (himp : ∀ query hourEnd before, reached query hourEnd before → reached' query hourEnd before) :
    Guards o time reached' c := by
  intro before text hourEnd elapsed samples after hsplit hmalformed
  obtain ⟨query, e, hreached, hrest⟩ := h _ _ _ _ _ _ hsplit hmalformed
  exact ⟨query, e, himp _ _ _ hreached, hrest⟩

/-- An early end is that of the whole. -/
theorem Guards.of_error {β : Type} {steps : List Event} {stop : Stop}
    {g : ReportMetrics → ReportMetrics}
    (h : Guards o time reached (⟨steps, .error stop, g⟩ : Course α)) :
    Guards o time reached (⟨steps, .error stop, g⟩ : Course β) := by
  intro before text hourEnd elapsed samples after hsplit hmalformed
  obtain ⟨query, e, hreached, htext, hstop, hended⟩ := h _ _ _ _ _ _ hsplit hmalformed
  cases hstop
  exact ⟨query, e, hreached, htext, rfl, hended⟩

/-- What has a result met no malformed sample, so one that is met is met later. -/
theorem Guards.after {β : Type} {steps : List Event} {a : β} {g : ReportMetrics → ReportMetrics}
    {c : Course α} (h : Guards o time reached (⟨steps, .ok a, g⟩ : Course β))
    (hc : Guards o time (fun query hourEnd before => reached query hourEnd (steps ++ before)) c) :
    Guards o time reached (c.after steps g) := by
  intro before text hourEnd elapsed samples after hsplit hmalformed
  rcases List.append_eq_append_iff.1 hsplit with ⟨before', rfl, hlater⟩ | ⟨rest, rfl, hearlier⟩
  · exact hc _ _ _ _ _ _ hlater hmalformed
  · cases rest with
    | nil =>
      have hnow := hc [] _ _ _ _ _ hearlier.symm hmalformed
      simpa only [List.append_nil, Course.after] using hnow
    | cons e rest =>
      obtain ⟨rfl, -⟩ := List.cons.inj hearlier
      obtain ⟨_, _, _, _, hresult, _⟩ := h _ _ _ _ _ _ rfl hmalformed
      cases hresult

theorem Guards.bind {β : Type} {x : Session σ α} {f : α → Session σ β}
    {spec : α → List Event → Prop} (hx : Conforms x (Guards o time reached)) (hspec : Yields x spec)
    (hf : ∀ a steps, spec a steps → Conforms (f a) (Guards o time fun query hourEnd before =>
      reached query hourEnd (steps ++ before))) :
    Conforms (x >>= f) (Guards o time reached) :=
  Conforms.bind (hx.yields hspec)
    (fun steps a _ hc => (hf a steps (hc.2 a rfl)).mono fun _ hd => hc.1.after hd)
    fun _ _ _ hc => hc.1.of_error

/-- A result takes no step of its own. -/
theorem Guards.result {β : Type} {x : Session σ α} (hx : Conforms x (Guards o time reached))
    (f : α → β) : Conforms (x >>= fun a => Pure.pure (f a)) (Guards o time reached) :=
  Conforms.bind hx
    (fun _ _ _ hc => .pure (hc.after (.of_nil _ _)))
    fun _ _ _ hc => hc.of_error

theorem guards_inRange (x : Option α) :
    Conforms (Session.inRange x : Session σ α) (Guards o time reached) := by
  cases x with
  | some a => exact .pure (.of_nil _ _)
  | none => exact .stop (.of_nil _ _)

/-- What follows a single evaluation is about its answer. -/
theorem Guards.of_evaluation {query : Query} {hourEnd : Timestamp} {answer : Evaluation}
    {steps : List Event} {result : Except Stop α} {g : ReportMetrics → ReportMetrics}
    (hend : time.addHour? = some hourEnd) (hasks : Asks (fun _ => True) steps)
    (hended : ∀ elapsed samples, answer = .answered elapsed (.ok samples) →
      (∃ x ∈ samples, x.Malformed) →
      ∃ e, result = .error (.failed e) ∧ Ended o time query elapsed samples steps e) :
    Guards o time (fun reached hourEnd before =>
        reached = query ∧ time.addHour? = some hourEnd ∧ before = [])
      ⟨.evaluation query.query hourEnd answer :: steps, result, g⟩ := by
  intro before text hourEnd' elapsed samples after hsplit hmalformed
  cases before with
  | nil =>
    obtain ⟨hevent, rfl⟩ := List.cons.inj hsplit
    obtain ⟨rfl, rfl, rfl⟩ := Event.evaluation.inj hevent
    obtain ⟨e, hresult, hrest⟩ := hended elapsed samples rfl hmalformed
    exact ⟨query, e, ⟨rfl, hend, rfl⟩, rfl, hresult, hrest⟩
  | cons e before =>
    obtain ⟨-, rfl⟩ := List.cons.inj hsplit
    obtain ⟨q, reply, heq, -⟩ := hasks (.evaluation text hourEnd'
      (.answered elapsed (.ok samples))) (by simp)
    cases heq

end Guards

section Evaluated

variable {o : ReportOptions} {elapsed : Duration} {samples : List Sample}

/-- An answer that brings samples is in time. -/
theorem inTime_of_evaluated {samples' : List Sample}
    (h : evaluated o (.answered elapsed (.ok samples)) = .ok samples') :
    samples = samples' ∧ ∀ limit, o.queryLimit = some limit → elapsed.nanos ≤ limit.nanos := by
  unfold evaluated Evaluation.within at h
  cases hlimit : o.queryLimit with
  | none => simpa [hlimit, Except.mapError] using h
  | some limit =>
    by_cases hle : elapsed.nanos ≤ limit.nanos
    · simp only [hlimit, Option.all_some, hle, decide_true, if_true, Except.mapError,
        Except.ok.injEq] at h
      exact ⟨h, by simpa using hle⟩
    · simp [hlimit, hle] at h

/-- Samples that are not brought are too late. -/
theorem late_of_evaluated {stop : Stop}
    (h : evaluated o (.answered elapsed (.ok samples)) = .error stop) :
    ∃ limit, o.queryLimit = some limit ∧ limit.nanos < elapsed.nanos ∧
      stop = .failed (.metricsSource (.timeout limit)) := by
  unfold evaluated Evaluation.within at h
  cases hlimit : o.queryLimit with
  | none => simp [hlimit, Except.mapError] at h
  | some limit =>
    by_cases hle : elapsed.nanos ≤ limit.nanos
    · simp [hlimit, hle, Except.mapError] at h
    · exact ⟨limit, rfl, Nat.lt_of_not_le hle, by simpa [hlimit, hle, eq_comm] using h⟩

end Evaluated

/-- **A query is guarded**: its only evaluation is the first step. -/
theorem conforms_ingestQuery (o : ReportOptions) (time : Timestamp) (query : Query) :
    Conforms (ingestQuery o time query : Session σ Nat)
      (Guards o time fun reached hourEnd before =>
        reached = query ∧ time.addHour? = some hourEnd ∧ before = []) := by
  refine Guards.bind (guards_inRange time.addHour?) Yields.inRange ?_
  rintro hourEnd _ ⟨hend, rfl⟩
  refine Conforms.bind (conforms_evaluate o query.query hourEnd) (fun _ samples _ hc => ?_)
    fun _ stop _ hc => ?_
  · obtain ⟨answer, hc⟩ := hc
    obtain ⟨rfl, hanswer, rfl⟩ := Course.mk.inj hc
    refine Conforms.bind (conforms_samples query time samples) (fun steps _ g hd => ?_)
      fun steps stop g hd => ?_
    · cases hd with
      | stored hasks hall =>
        refine .pure (.of_evaluation hend (by simpa [Course.after] using hasks) ?_)
        rintro elapsed samples' rfl ⟨x, hx, hmalformed⟩
        obtain ⟨rfl, -⟩ := inTime_of_evaluated hanswer.symm
        exact absurd hmalformed (hall x hx)
    · cases hd with
      | halted hasks hhalted =>
        refine .of_evaluation hend hasks ?_
        rintro elapsed samples' rfl -
        obtain ⟨rfl, hintime⟩ := inTime_of_evaluated hanswer.symm
        exact ⟨_, rfl, .halted hintime hhalted⟩
  · obtain ⟨answer, hc⟩ := hc
    obtain ⟨rfl, hanswer, rfl⟩ := Course.mk.inj hc
    refine .of_evaluation hend (by simp [Asks]) ?_
    rintro elapsed samples rfl -
    obtain ⟨limit, hlimit, hlate, rfl⟩ := late_of_evaluated hanswer.symm
    exact ⟨_, rfl, .late hlimit hlate⟩

/-- The queries under another are guarded one after the other. -/
theorem conforms_below (o : ReportOptions) {time hourEnd : Timestamp}
    (hend : time.addHour? = some hourEnd) (below : List Query) :
    Conforms (below.mapM (ingestQuery o time) : Session σ (List Nat))
      (Guards o time fun query hourEnd' before => ∃ done left parts,
        below = done ++ query :: left ∧ hourEnd' = hourEnd ∧
          List.Forall₂ (fun query part => QuerySteps time hourEnd query part.1 part.2) done parts ∧
          before = (parts.map Prod.snd).flatten) := by
  induction below with
  | nil => exact .pure (.of_nil _ _)
  | cons first below ih =>
    rw [List.mapM_cons]
    refine Guards.bind ((conforms_ingestQuery o time first).mono fun c hc => hc.mono ?_)
      (yields_ingestQuery first) fun count block hblock => Guards.result (ih.mono fun c hc => hc.mono ?_) _
    · rintro query hourEnd' before ⟨rfl, hend', rfl⟩
      exact ⟨[], below, [], rfl, Option.some.inj (hend'.symm.trans hend), .nil, rfl⟩
    · rintro query hourEnd' before ⟨done, left, parts, rfl, rfl, hparts, rfl⟩
      obtain ⟨hourEnd, hend', hblock⟩ := hblock
      obtain rfl : hourEnd = hourEnd' := Option.some.inj (hend'.symm.trans hend)
      exact ⟨first :: done, left, (count, block) :: parts, rfl, rfl, .cons hblock hparts, rfl⟩

/-- **No answer with a malformed sample goes by**, whatever the outside answers. -/
theorem conforms_ingestFamily (o : ReportOptions) (name : String) (time : Timestamp) :
    Conforms (ingestFamily o name time : Session σ Nat)
      (Guards o time (Reached name time)) := by
  have hfind : Conforms (findQuery name time : Session σ Query)
      (Guards o time (Reached name time)) :=
    (obeys_orFail (R := fun _ steps => Asks (fun _ => True) steps) (Rule.composes_forall _)
      (fun reply _ _ => .single trivial reply) (fun _ => rfl) rfl).mono fun c hc => .of_asks hc
  refine Guards.bind hfind yields_findQuery ?_
  rintro main _ ⟨found, hmain, rfl⟩
  refine Guards.bind ((conforms_ingestQuery o time main).mono fun c hc => hc.mono ?_)
    (yields_ingestQuery main) ?_
  · rintro query hourEnd before ⟨rfl, hend, rfl⟩
    exact .main hend hmain
  rintro count block ⟨hourEnd, hend, hblock⟩
  have hlist (reached : Query → Timestamp → List Event → Prop) :
      Conforms (subQueries main.id time : Session σ (List Query)) (Guards o time reached) :=
    (Conforms.fetchAll _ _).mono fun c hc => by
      obtain ⟨reply, rfl⟩ := hc
      exact .of_asks (.single (p := fun _ => True) trivial reply)
  refine Guards.bind (hlist _) yields_subQueries ?_
  rintro below _ ⟨listed, hbelow, rfl⟩
  refine Guards.result ((conforms_below o hend below).mono fun c hc => hc.mono ?_) _
  rintro query hourEnd' before ⟨done, left, parts, rfl, rfl, hparts, rfl⟩
  have hreached : Reached name time query hourEnd' _ := .below hend hmain hblock hbelow hparts
  simpa using hreached

/-- At the start of an hour and at any other time. -/
theorem conforms_ingest (o : ReportOptions) (name : String) (time : Timestamp) :
    Conforms (ingest o name time : Session σ Nat) (Guards o time (Reached name time)) := by
  unfold ingest requireHourStart
  split
  · exact conforms_ingestFamily o name time
  · exact .stop (.of_nil _ _)

end UsageBilling.Report
