import UsageBilling.Session.Lemmas

/-!
# Courses of a session

What a session does depends on the outside only through the answers it gets.  A `Course` is what
one run of a session comes to: the steps it adds to the trace, its result, and what it does to the
metrics.

* `Session.Takes env s x c s'` : started in the state `s` of the outside, the session `x` takes the
  course `c` and leaves the state `s'`, whatever was recorded and measured before.
* `Environment.Answers s steps s'` : the outside answers as recorded in `steps`.
* `Session.Plain x` : `x` is made of statements to the database and queries to the source of
  metrics; it neither opens nor ends a transaction.
* `Session.Plain.course` : a plain session has a course, the course is decided by the answers
  alone, and all its steps are statements and queries.
-/

namespace UsageBilling

variable {σ α β : Type}

/-! ### Answered steps -/

/-- The outside gives the answer that the step records and moves on to the state `s'`. -/
def Event.Answered (env : Environment σ) (s s' : σ) : Event → Prop
  | .control c refusal => env.control c s = (refusal, s')
  | .rollback | .progress _ _ => s = s'
  | .statement q reply => env.execute q s = (reply, s')
  | .evaluation text time answer => env.evaluate text time s = (answer, s')
  | .reconciliation mapping answer => env.reconcile mapping s = (answer, s')

/-- A statement to the database or a query to the source of metrics. -/
def Event.isData : Event → Bool
  | .statement _ _ | .evaluation _ _ _ => true
  | .control _ _ | .rollback | .reconciliation _ _ | .progress _ _ => false

/-- The outside gives the recorded answers one after the other, from the state `s` to `s'`. -/
inductive Environment.Answers (env : Environment σ) : σ → List Event → σ → Prop
  | nil (s : σ) : Answers env s [] s
  | cons {s s' s'' : σ} {e : Event} {steps : List Event} :
      e.Answered env s s' → Answers env s' steps s'' → Answers env s (e :: steps) s''

namespace Environment.Answers

variable {env : Environment σ}

theorem append {s s' s'' : σ} {steps steps' : List Event} (h : env.Answers s steps s')
    (h' : env.Answers s' steps' s'') : env.Answers s (steps ++ steps') s'' := by
  induction h with
  | nil => exact h'
  | cons he _ ih => exact .cons he (ih h')

theorem exists_of_append {s s'' : σ} {steps steps' : List Event}
    (h : env.Answers s (steps ++ steps') s'') :
    ∃ s', env.Answers s steps s' ∧ env.Answers s' steps' s'' := by
  induction steps generalizing s with
  | nil => exact ⟨s, .nil s, h⟩
  | cons e steps ih =>
    cases h with
    | cons he h =>
      obtain ⟨s', hs, hs'⟩ := ih h
      exact ⟨s', .cons he hs, hs'⟩

theorem single {s s' : σ} {e : Event} (h : e.Answered env s s') : env.Answers s [e] s' :=
  .cons h (.nil s')

theorem eq_of_nil {s s' : σ} (h : env.Answers s [] s') : s = s' := by
  cases h; rfl

end Environment.Answers

/-! ### Courses -/

/-- What a run of a session comes to. -/
@[ext] structure Course (α : Type) where
  steps : List Event
  result : Except Stop α
  /-- What it does to the metrics. -/
  measured : ReportMetrics → ReportMetrics

/-- The course of a session that goes on after some steps. -/
def Course.after (steps : List Event) (measured : ReportMetrics → ReportMetrics) (c : Course α) :
    Course α :=
  ⟨steps ++ c.steps, c.result, c.measured ∘ measured⟩

namespace Session

/-- Started in the state `s`, the session takes the course `c` and leaves the state `s'`, whatever
was recorded and measured before. -/
def Takes (env : Environment σ) (s : σ) (x : Session σ α) (c : Course α) (s' : σ) : Prop :=
  ∀ trace metrics, runIn env ⟨s, trace, metrics⟩ x =
    (c.result, ⟨s', trace ++ c.steps, c.measured metrics⟩)

section Takes

variable {env : Environment σ} {s s' s'' : σ}

/-- A session takes one course only. -/
theorem Takes.unique {x : Session σ α} {c d : Course α} (hc : Takes env s x c s')
    (hd : Takes env s x d s'') : c = d ∧ s' = s'' := by
  have h : ∀ metrics, (c.result, (⟨s', [] ++ c.steps, c.measured metrics⟩ : World σ)) =
      (d.result, ⟨s'', [] ++ d.steps, d.measured metrics⟩) :=
    fun metrics => (hc [] metrics).symm.trans (hd [] metrics)
  simp only [List.nil_append, Prod.mk.injEq, World.mk.injEq] at h
  have h₀ := h .zero
  exact ⟨Course.ext h₀.2.2.1 h₀.1 (funext fun metrics => (h metrics).2.2.2), h₀.2.1⟩

/-- The course of a session can be read off the world that it leaves. -/
theorem Takes.exists_runIn {x : Session σ α} {c : Course α} (h : Takes env s x c s') :
    ∃ g, Takes env s x
      ⟨(runIn env ⟨s, [], .zero⟩ x).2.trace, (runIn env ⟨s, [], .zero⟩ x).1, g⟩
      (runIn env ⟨s, [], .zero⟩ x).2.outside := by
  rw [h [] .zero]
  exact ⟨c.measured, h⟩

theorem takes_pure (a : α) : Takes env s (pure a) ⟨[], .ok a, id⟩ s := by
  intro trace metrics
  simp

theorem takes_throw (stop : Stop) :
    Takes env s (throw stop : Session σ α) ⟨[], .error stop, id⟩ s := by
  intro trace metrics
  simp

theorem takes_record (e : Event) : Takes env s (record e) ⟨[e], .ok (), id⟩ s := by
  intro trace metrics
  simp

theorem takes_measure (f : ReportMetrics → ReportMetrics) :
    Takes env s (measure f) ⟨[], .ok (), f⟩ s := by
  intro trace metrics
  simp

/-- What goes on after a result goes on where that was left. -/
theorem Takes.bind {x : Session σ α} {f : α → Session σ β} {steps : List Event} {a : α}
    {g : ReportMetrics → ReportMetrics} {d : Course β} (hx : Takes env s x ⟨steps, .ok a, g⟩ s')
    (hf : Takes env s' (f a) d s'') : Takes env s (x >>= f) (d.after steps g) s'' := by
  intro trace metrics
  rw [runIn_bind, hx]
  simp only [hf (trace ++ steps) (g metrics), Course.after, List.append_assoc,
    Function.comp_apply]

/-- What takes no step leaves the course to what goes on. -/
theorem Takes.bind_silent {x : Session σ α} {f : α → Session σ β} {a : α} {d : Course β}
    (hx : Takes env s x ⟨[], .ok a, id⟩ s') (hf : Takes env s' (f a) d s'') :
    Takes env s (x >>= f) d s'' := hx.bind hf

/-- A single step stands before the steps of what goes on. -/
theorem Takes.bind_step {x : Session σ α} {f : α → Session σ β} {e : Event} {a : α}
    {steps : List Event} {result : Except Stop β} {g : ReportMetrics → ReportMetrics}
    (hx : Takes env s x ⟨[e], .ok a, id⟩ s') (hf : Takes env s' (f a) ⟨steps, result, g⟩ s'') :
    Takes env s (x >>= f) ⟨e :: steps, result, g⟩ s'' := hx.bind hf

/-- After a stop nothing goes on. -/
theorem Takes.bind_stop {x : Session σ α} {f : α → Session σ β} {steps : List Event} {stop : Stop}
    {g : ReportMetrics → ReportMetrics} (hx : Takes env s x ⟨steps, .error stop, g⟩ s') :
    Takes env s (x >>= f) ⟨steps, .error stop, g⟩ s' := by
  intro trace metrics
  rw [runIn_bind, hx]

/-- A result needs no handling. -/
theorem Takes.tryCatch_ok {x : Session σ α} {handle : Stop → Session σ α} {steps : List Event}
    {a : α} {g : ReportMetrics → ReportMetrics} (hx : Takes env s x ⟨steps, .ok a, g⟩ s') :
    Takes env s (tryCatch x handle) ⟨steps, .ok a, g⟩ s' := by
  intro trace metrics
  rw [runIn_tryCatch, hx]

/-- A stop is handled where it came up. -/
theorem Takes.tryCatch_stop {x : Session σ α} {handle : Stop → Session σ α} {steps : List Event}
    {stop : Stop} {g : ReportMetrics → ReportMetrics} {d : Course α}
    (hx : Takes env s x ⟨steps, .error stop, g⟩ s') (hh : Takes env s' (handle stop) d s'') :
    Takes env s (tryCatch x handle) (d.after steps g) s'' := by
  intro trace metrics
  rw [runIn_tryCatch, hx]
  simp only [hh (trace ++ steps) (g metrics), Course.after, List.append_assoc,
    Function.comp_apply]

/-- A stop can be turned into another one. -/
theorem Takes.tryCatch_throw {x : Session σ α} {f : Stop → Stop} {steps : List Event} {stop : Stop}
    {g : ReportMetrics → ReportMetrics} (hx : Takes env s x ⟨steps, .error stop, g⟩ s') :
    Takes env s (tryCatch x fun e => throw (f e)) ⟨steps, .error (f stop), g⟩ s' := by
  intro trace metrics
  rw [runIn_tryCatch, hx]
  rfl

theorem takes_execute {q : Statement} {reply : Reply} (h : env.execute q s = (reply, s')) :
    Takes env s (execute q)
      ⟨[.statement q reply], reply.mapError fun r => .failed r.toError, id⟩ s' := by
  intro trace metrics
  rw [runIn_execute, h]
  cases reply <;> rfl

theorem takes_control {c : Control} {refusal : Option Refusal}
    (h : env.control c s = (refusal, s')) :
    Takes env s (control c) ⟨[.control c refusal],
      refusal.elim (.ok ()) fun r => .error (.failed r.toError), id⟩ s' := by
  intro trace metrics
  rw [runIn_control, h]
  cases refusal <;> rfl

end Takes

/-! ### Plain sessions -/

/-- The answers alone decide that the session takes the course `c`. -/
def Leads (x : Session σ α) (c : Course α) : Prop :=
  ∀ env s s', env.Answers s c.steps s' → Takes env s x c s'

/-- Sessions made of statements to the database and queries to the source of metrics. -/
inductive Plain : {α : Type} → Session σ α → Prop
  | pure {α : Type} (a : α) : Plain (Pure.pure a : Session σ α)
  | stop {α : Type} (e : Stop) : Plain (throw e : Session σ α)
  | measure (f : ReportMetrics → ReportMetrics) : Plain (Session.measure f)
  | execute (q : Statement) : Plain (Session.execute q)
  | evaluate {α : Type} {text : String} {time : Timestamp} {f : Evaluation → Session σ α} :
      (∀ answer, Plain (f answer)) →
      Plain (ask (fun env => env.evaluate text time) >>= fun answer =>
        record (.evaluation text time answer) >>= fun _ => f answer)
  | bind {α β : Type} {x : Session σ α} {f : α → Session σ β} :
      Plain x → (∀ a, Plain (f a)) → Plain (x >>= f)

namespace Plain

/-- **A plain session is decided by the answers it gets**: from every state it takes some course;
wherever the outside gives the same answers, it takes that same course; and it has taken no step
but statements and queries. -/
theorem course {x : Session σ α} (h : Plain x) (env : Environment σ) (s : σ) :
    ∃ c s', env.Answers s c.steps s' ∧ Leads x c ∧ ∀ e ∈ c.steps, e.isData := by
  -- along the making of the session; the state is general, since the second part of a `bind` starts
  -- where the first leaves off
  induction h generalizing s with
  | pure a =>
    refine ⟨⟨[], .ok a, id⟩, s, .nil s, fun env' v v' hv => ?_, by simp⟩
    obtain rfl := hv.eq_of_nil
    exact takes_pure a
  | stop e =>
    refine ⟨⟨[], .error e, id⟩, s, .nil s, fun env' v v' hv => ?_, by simp⟩
    obtain rfl := hv.eq_of_nil
    exact takes_throw e
  | measure f =>
    refine ⟨⟨[], .ok (), f⟩, s, .nil s, fun env' v v' hv => ?_, by simp⟩
    obtain rfl := hv.eq_of_nil
    exact takes_measure f
  | execute q =>
    refine ⟨⟨[.statement q (env.execute q s).1],
      (env.execute q s).1.mapError fun r => .failed r.toError, id⟩, (env.execute q s).2,
      .single rfl, fun env' v v' hv => ?_, by simp [Event.isData]⟩
    cases hv with
    | cons hq hnil =>
      obtain rfl := hnil.eq_of_nil
      exact takes_execute hq
  | @evaluate α text time f _ ih =>
    obtain ⟨c, s', hs, hc, hdata⟩ := ih (env.evaluate text time s).1 (env.evaluate text time s).2
    refine ⟨c.after [.evaluation text time (env.evaluate text time s).1] id, s',
      .cons rfl hs, fun env' v v' hv => ?_, ?_⟩
    · cases hv with
      | @cons _ u _ _ _ hq hv =>
        have hanswer : env'.evaluate text time v = ((env.evaluate text time s).1, u) := hq
        intro trace metrics
        rw [runIn_bind, runIn_ask]
        simp only [hanswer]
        exact ((takes_record _).bind (hc env' u v' hv)) trace metrics
    · simp only [Course.after, List.cons_append, List.nil_append, List.mem_cons]
      rintro e (rfl | he)
      · rfl
      · exact hdata e he
  | @bind α β x f _ _ ihx ihf =>
    obtain ⟨⟨steps, result, g⟩, s₁, hs, hx, hdata⟩ := ihx s
    cases result with
    | error stop =>
      -- the second part is never asked
      exact ⟨⟨steps, .error stop, g⟩, s₁, hs, fun env' v v' hv => (hx env' v v' hv).bind_stop,
        hdata⟩
    | ok a =>
      obtain ⟨d, s₂, hs', hf, hdata'⟩ := ihf a s₁
      refine ⟨d.after steps g, s₂, hs.append hs', fun env' v v' hv => ?_, ?_⟩
      · obtain ⟨u, hu, hu'⟩ := hv.exists_of_append
        exact (hx env' v u hu).bind (hf env' u v' hu')
      · intro e he
        rcases List.mem_append.1 he with he | he
        · exact hdata e he
        · exact hdata' e he

theorem isData_of_takes {x : Session σ α} (h : Plain x) {env : Environment σ} {s s' : σ}
    {c : Course α} (hx : Takes env s x c s') : ∀ e ∈ c.steps, e.isData := by
  obtain ⟨d, s'', hanswers, hleads, hdata⟩ := h.course env s
  obtain ⟨rfl, -⟩ := (hleads env s s'' hanswers).unique hx
  exact hdata

end Plain

end Session

end UsageBilling
