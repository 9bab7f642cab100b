import Mathlib.Data.List.Forall2
import UsageBilling.Proofs.Session.Course

/-!
# What a session has done when it has a result

`Session.Yields x spec` says that whenever the session `x` ends with a result, the result and the
steps taken satisfy `spec`.  The rules follow the way a session is made:

* `Session.Yields.bind` : the steps of the second part come after those of the first;
* `Session.Yields.mapM`, `Session.Yields.forM` : one block of steps for each element, in order.

`Session.Plain` is closed under the same loops, and the steps of a plain session are answered by
the outside (`Session.Yields.exists_answers`).
-/

namespace UsageBilling.Session

variable {σ α β : Type}

/-- Whenever the session has a result, the result and the steps taken satisfy `spec`. -/
def Yields (x : Session σ α) (spec : α → List Event → Prop) : Prop :=
  ∀ env w a w', runIn env w x = (.ok a, w') → ∃ steps, w'.trace = w.trace ++ steps ∧ spec a steps

namespace Yields

theorem mono {x : Session σ α} {P Q : α → List Event → Prop} (hx : Yields x P)
    (h : ∀ a steps, P a steps → Q a steps) : Yields x Q := by
  intro env w a w' hrun
  obtain ⟨steps, htrace, hP⟩ := hx env w a w' hrun
  exact ⟨steps, htrace, h a steps hP⟩

theorem pure {a : α} {spec : α → List Event → Prop} (h : spec a []) :
    Yields (Pure.pure a : Session σ α) spec := by
  intro env w b w' hrun
  simp only [runIn_pure, Prod.mk.injEq, Except.ok.injEq] at hrun
  obtain ⟨rfl, rfl⟩ := hrun
  exact ⟨[], by simp, h⟩

theorem stop {e : Stop} {spec : α → List Event → Prop} :
    Yields (throw e : Session σ α) spec := by
  intro env w a w' hrun
  simp at hrun

theorem fail {e : BillingError} {spec : α → List Event → Prop} :
    Yields (Session.fail e : Session σ α) spec := stop

theorem bind {x : Session σ α} {f : α → Session σ β} {P : α → List Event → Prop}
    {spec : β → List Event → Prop} (hx : Yields x P)
    (hf : ∀ a steps, P a steps → Yields (f a) fun b steps' => spec b (steps ++ steps')) :
    Yields (x >>= f) spec := by
  intro env w b w'' hrun
  rw [runIn_bind] at hrun
  rcases hr : runIn env w x with ⟨stop | a, w'⟩
  · simp [hr] at hrun
  · rw [hr] at hrun
    obtain ⟨steps, htrace, hP⟩ := hx env w a w' hr
    obtain ⟨steps', htrace', hspec⟩ := hf a steps hP env w' b w'' hrun
    exact ⟨steps ++ steps', by rw [htrace', htrace, List.append_assoc], hspec⟩

theorem measure {f : ReportMetrics → ReportMetrics} :
    Yields (Session.measure f : Session σ Unit) fun _ steps => steps = [] := by
  intro env w a w' hrun
  simp only [runIn_measure, Prod.mk.injEq] at hrun
  obtain ⟨-, rfl⟩ := hrun
  exact ⟨[], by simp, rfl⟩

theorem record {e : Event} :
    Yields (Session.record e : Session σ Unit) fun _ steps => steps = [e] := by
  intro env w a w' hrun
  simp only [runIn_record, Prod.mk.injEq] at hrun
  obtain ⟨-, rfl⟩ := hrun
  exact ⟨[e], rfl, rfl⟩

theorem ofExcept {ε : Type} {toError : ε → BillingError} {x : Except ε α} :
    Yields (Session.ofExcept toError x : Session σ α) fun a steps => x = .ok a ∧ steps = [] := by
  cases x with
  | ok a => exact pure ⟨rfl, rfl⟩
  | error e => exact fail

theorem inRange {x : Option α} :
    Yields (Session.inRange x : Session σ α) fun a steps => x = some a ∧ steps = [] := by
  cases x with
  | some a => exact pure ⟨rfl, rfl⟩
  | none => exact stop

theorem ask {question : Environment σ → σ → β × σ} :
    Yields (Session.ask question) fun _ steps => steps = [] := by
  intro env w a w' hrun
  simp only [runIn_ask, Prod.mk.injEq, Except.ok.injEq] at hrun
  obtain ⟨rfl, rfl⟩ := hrun
  exact ⟨[], by simp, rfl⟩

theorem execute {q : Statement} :
    Yields (Session.execute q : Session σ Outcome) fun outcome steps =>
      steps = [.statement q (.ok outcome)] := by
  intro env w a w' hrun
  rw [runIn_execute] at hrun
  rcases hq : env.execute q w.outside with ⟨r | outcome, outside⟩
  · simp [hq] at hrun
  · simp only [hq, Prod.mk.injEq, Except.ok.injEq] at hrun
    obtain ⟨rfl, rfl⟩ := hrun
    exact ⟨_, rfl, rfl⟩

/-- A loop over a list takes one block of steps for each element. -/
theorem forM {f : α → Session σ Unit} {P : α → List Event → Prop}
    (hf : ∀ a, Yields (f a) fun _ steps => P a steps) (as : List α) :
    Yields (as.forM f) fun _ steps => ∃ blocks : List (List Event),
      List.Forall₂ P as blocks ∧ steps = blocks.flatten := by
  induction as with
  | nil => exact pure ⟨[], .nil, rfl⟩
  | cons a as ih =>
    refine (hf a).bind fun _ block hblock => ih.mono ?_
    rintro _ steps ⟨blocks, hblocks, rfl⟩
    exact ⟨block :: blocks, .cons hblock hblocks, rfl⟩

/-- A loop over a list that collects results: `parts` has the result and the block of steps of
each element. -/
theorem mapM {f : α → Session σ β} {P : α → β → List Event → Prop}
    (hf : ∀ a, Yields (f a) (P a)) (as : List α) :
    Yields (as.mapM f) fun bs steps => ∃ parts : List (β × List Event),
      List.Forall₂ (fun a part => P a part.1 part.2) as parts ∧ bs = parts.map Prod.fst ∧
        steps = (parts.map Prod.snd).flatten := by
  induction as with
  | nil => exact pure ⟨[], .nil, rfl, rfl⟩
  | cons a as ih =>
    rw [List.mapM_cons]
    refine (hf a).bind fun b block hblock => ih.bind ?_
    rintro bs steps ⟨parts, hparts, rfl, rfl⟩
    exact pure ⟨(b, block) :: parts, .cons hblock hparts, rfl, by simp⟩

end Yields

namespace Plain

theorem fail (e : BillingError) : Plain (Session.fail e : Session σ α) := .stop (.failed e)

theorem map {x : Session σ α} (f : α → β) (h : Plain x) : Plain (f <$> x) := by
  rw [map_eq_pure_bind]
  exact .bind h fun a => .pure (f a)

theorem forM {f : α → Session σ Unit} (h : ∀ a, Plain (f a)) (as : List α) :
    Plain (as.forM f) := by
  induction as with
  | nil => exact .pure ()
  | cons a as ih => exact .bind (h a) fun _ => ih

theorem mapM {f : α → Session σ β} (h : ∀ a, Plain (f a)) (as : List α) :
    Plain (as.mapM f) := by
  induction as with
  | nil => exact .pure []
  | cons a as ih =>
    rw [List.mapM_cons]
    exact .bind (h a) fun b => .bind ih fun bs => .pure (b :: bs)

theorem ofExcept {ε : Type} (toError : ε → BillingError) (x : Except ε α) :
    Plain (Session.ofExcept toError x : Session σ α) := by
  cases x with
  | ok a => exact .pure a
  | error e => exact .fail (toError e)

theorem inRange (x : Option α) : Plain (Session.inRange x : Session σ α) := by
  cases x with
  | some a => exact .pure a
  | none => exact .stop .overflow

end Plain

/-- A course with a result has taken steps as specified. -/
theorem Yields.of_takes {x : Session σ α} {spec : α → List Event → Prop} (hx : Yields x spec)
    {env : Environment σ} {s s' : σ} {c : Course α} (h : Takes env s x c s') {a : α}
    (hok : c.result = .ok a) : spec a c.steps := by
  have hrun := h [] .zero
  rw [hok] at hrun
  obtain ⟨steps, htrace, hspec⟩ := hx _ _ _ _ hrun
  simp only [List.nil_append] at htrace
  rw [htrace]
  exact hspec

/-- The steps of a plain session are answered by the outside, from the state it was started in to
the state it leaves. -/
theorem Yields.exists_answers {x : Session σ α} {spec : α → List Event → Prop}
    (hx : Yields x spec) (hplain : Plain x) {env : Environment σ} {w w' : World σ} {a : α}
    (h : runIn env w x = (.ok a, w')) :
    ∃ steps, w'.trace = w.trace ++ steps ∧ env.Answers w.outside steps w'.outside ∧
      spec a steps := by
  obtain ⟨c, s', hanswers, hleads, -⟩ := hplain.course env w.outside
  have htakes := hleads env w.outside s' hanswers
  have hrun := htakes w.trace w.metrics
  rw [h, Prod.mk.injEq] at hrun
  obtain ⟨hok, rfl⟩ := hrun
  exact ⟨c.steps, rfl, hanswers, hx.of_takes htakes hok.symm⟩

end UsageBilling.Session
