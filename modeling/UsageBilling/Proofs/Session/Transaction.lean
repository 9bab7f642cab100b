import UsageBilling.Proofs.Session.Course
import UsageBilling.Session.Script

/-!
# Courses of a transaction

`Session.Enclosed env s body c s'` lists the ways a transaction around `body` can go, with the
answers that decide between them: there is no connection, the start is refused, the body stops and
is rolled back, the commit is refused, or the transaction is committed.
`Session.exists_enclosed` : every transaction goes one of these ways.

`Session.commitCount` and `Session.progressOf` are what can be seen of completed work in a trace.  A
transaction around statements and queries commits once if it has a result, and otherwise never
(`Session.Enclosed.of_ok`, `Session.Enclosed.tally_of_error`).

In a scripted outside, statements about transactions use up none of the other answers: the same
statements and queries get the same answers whatever faults are left (`Script.answers_of_isData`),
and whether one kind of statement is refused does not depend on another (`Script.meet_meet`).
-/

namespace UsageBilling

variable {σ α : Type}

namespace Session

variable {env : Environment σ} {s s' : σ}

/-! ### One transaction -/

/-- The ways a transaction around a body can go. -/
inductive Enclosed (env : Environment σ) (s : σ) (body : Session σ α) : Course α → σ → Prop
  | unavailable : env.reachable s = false →
      Enclosed env s body ⟨[], .error (.failed (.storage .unavailable)), id⟩ s
  | notStarted {r : Refusal} {s₁ : σ} : env.reachable s = true →
      env.control .start s = (some r, s₁) →
      Enclosed env s body ⟨[.control .start (some r)], .error (.failed r.toError), id⟩ s₁
  | rolledBack {s₁ s₂ : σ} {inner : Course α} {stop : Stop} : env.reachable s = true →
      env.control .start s = (none, s₁) → Takes env s₁ body inner s₂ →
      inner.result = .error stop →
      Enclosed env s body
        ⟨.control .start none :: (inner.steps ++ [.rollback]), .error stop, inner.measured⟩ s₂
  | notCommitted {s₁ s₂ s₃ : σ} {inner : Course α} {a : α} {r : Refusal} :
      env.reachable s = true → env.control .start s = (none, s₁) → Takes env s₁ body inner s₂ →
      inner.result = .ok a → env.control .commit s₂ = (some r, s₃) →
      Enclosed env s body
        ⟨.control .start none :: (inner.steps ++ [.control .commit (some r), .rollback]),
          .error (.failed r.toError), inner.measured⟩ s₃
  | committed {s₁ s₂ s₃ : σ} {inner : Course α} {a : α} : env.reachable s = true →
      env.control .start s = (none, s₁) → Takes env s₁ body inner s₂ → inner.result = .ok a →
      env.control .commit s₂ = (none, s₃) →
      Enclosed env s body
        ⟨.control .start none :: (inner.steps ++ [.control .commit none]), .ok a, inner.measured⟩ s₃

theorem takes_connected (h : env.reachable s = true) :
    Takes env s connected ⟨[], .ok (), id⟩ s := by
  intro trace metrics
  simp [runIn_connected, h]

theorem takes_connected_unavailable (h : env.reachable s = false) :
    Takes env s connected ⟨[], .error (.failed (.storage .unavailable)), id⟩ s := by
  intro trace metrics
  simp [runIn_connected, h]

theorem transaction_readWrite (body : Session σ α) :
    transaction .readWrite body = connected >>= fun _ => control .start >>= fun _ =>
      orRollback (body >>= fun a => control .commit >>= fun _ => pure a) := by
  simp [transaction]

/-- A transaction that is started goes on with its body and what closes it. -/
theorem takes_transaction {body : Session σ α} {s₁ : σ} {steps : List Event}
    {result : Except Stop α} {g : ReportMetrics → ReportMetrics} (hreach : env.reachable s = true)
    (hstart : env.control .start s = (none, s₁))
    (hclose : Takes env s₁ (orRollback (body >>= fun a => control .commit >>= fun _ => pure a))
      ⟨steps, result, g⟩ s') :
    Takes env s (transaction .readWrite body) ⟨.control .start none :: steps, result, g⟩ s' := by
  rw [transaction_readWrite]
  exact (takes_connected hreach).bind_silent ((takes_control hstart).bind_step hclose)

/-- A body that stops is rolled back. -/
theorem Takes.orRollback_stop {x : Session σ α} {steps : List Event} {stop : Stop}
    {g : ReportMetrics → ReportMetrics} (hx : Takes env s x ⟨steps, .error stop, g⟩ s') :
    Takes env s (orRollback x) ⟨steps ++ [.rollback], .error stop, g⟩ s' :=
  hx.tryCatch_stop (d := ⟨[.rollback], .error stop, id⟩)
    ((takes_record _).bind_step (takes_throw stop))

/-- **A transaction goes one of the ways of `Enclosed`**, provided its body has courses. -/
theorem exists_enclosed {body : Session σ α}
    (hbody : ∀ s, ∃ c s', Takes env s body c s') (s : σ) :
    ∃ c s', Enclosed env s body c s' ∧ Takes env s (transaction .readWrite body) c s' := by
  cases hreach : env.reachable s with
  | false =>
    refine ⟨_, _, .unavailable hreach, ?_⟩
    rw [transaction_readWrite]
    exact (takes_connected_unavailable hreach).bind_stop
  | true =>
    rcases hstart : env.control .start s with ⟨_ | r, s₁⟩
    · obtain ⟨⟨steps, result, g⟩, s₂, hinner⟩ := hbody s₁
      cases result with
      | error stop =>
        exact ⟨_, _, .rolledBack hreach hstart hinner rfl,
          takes_transaction hreach hstart hinner.bind_stop.orRollback_stop⟩
      | ok a =>
        rcases hcommit : env.control .commit s₂ with ⟨_ | r, s₃⟩
        · have hclose : Takes env s₁ (body >>= fun a => control .commit >>= fun _ => pure a)
              ⟨steps ++ [.control .commit none], .ok a, g⟩ s₃ :=
            hinner.bind (d := ⟨[.control .commit none], .ok a, id⟩)
              ((takes_control hcommit).bind_step (takes_pure a))
          exact ⟨_, _, .committed hreach hstart hinner rfl hcommit,
            takes_transaction hreach hstart hclose.tryCatch_ok⟩
        · -- a refused commit is rolled back like a body that stops
          have hclose : Takes env s₁ (body >>= fun a => control .commit >>= fun _ => pure a)
              ⟨steps ++ [.control .commit (some r)], .error (.failed r.toError), g⟩ s₃ :=
            hinner.bind (d := ⟨[.control .commit (some r)], .error (.failed r.toError), id⟩)
              (takes_control hcommit).bind_stop
          refine ⟨_, _, .notCommitted hreach hstart hinner rfl hcommit, ?_⟩
          simpa using takes_transaction hreach hstart hclose.orRollback_stop
    · refine ⟨_, _, .notStarted hreach hstart, ?_⟩
      rw [transaction_readWrite]
      exact (takes_connected hreach).bind_silent (takes_control hstart).bind_stop

/-! ### Commits and progress -/

/-- How many transactions were committed. -/
def commitCount (steps : List Event) : Nat :=
  steps.countP fun e => e matches .control .commit none

/-- The hours of which was told that they were completed, with their counts. -/
def progressOf (steps : List Event) : List (Timestamp × Nat) :=
  steps.filterMap fun
    | .progress time count => some (time, count)
    | _ => none

theorem commitCount_append (steps steps' : List Event) :
    commitCount (steps ++ steps') = commitCount steps + commitCount steps' := List.countP_append

theorem progressOf_append (steps steps' : List Event) :
    progressOf (steps ++ steps') = progressOf steps ++ progressOf steps' := List.filterMap_append

/-- Statements and queries commit nothing and tell of nothing. -/
theorem tally_of_isData {steps : List Event} (h : ∀ e ∈ steps, e.isData) :
    commitCount steps = 0 ∧ progressOf steps = [] := by
  constructor
  · refine List.countP_eq_zero.2 fun e he => ?_
    cases e with
    | statement _ _ | evaluation _ _ _ => simp
    | control _ _ | rollback | reconciliation _ _ | progress _ _ => cases h _ he
  · refine List.filterMap_eq_nil_iff.2 fun e he => ?_
    cases e with
    | statement _ _ | evaluation _ _ _ => rfl
    | control _ _ | rollback | reconciliation _ _ | progress _ _ => cases h _ he

/-- Around statements and queries only what is around them counts. -/
theorem tally_around {inner : List Event} (h : ∀ e ∈ inner, e.isData)
    (before after : List Event) :
    commitCount (before ++ (inner ++ after)) = commitCount before + commitCount after ∧
      progressOf (before ++ (inner ++ after)) = progressOf before ++ progressOf after := by
  obtain ⟨hcommits, hprogress⟩ := tally_of_isData h
  rw [commitCount_append, commitCount_append, hcommits, progressOf_append, progressOf_append,
    hprogress, Nat.zero_add, List.nil_append]
  exact ⟨rfl, rfl⟩

/-- A transaction with a result is its body between a start and a commit. -/
theorem Enclosed.of_ok {body : Session σ α} {c : Course α} {a : α}
    (h : Enclosed env s body c s') (hok : c.result = .ok a) :
    ∃ inner s₁ s₂, Takes env s₁ body inner s₂ ∧ inner.result = .ok a ∧
      c.steps = .control .start none :: (inner.steps ++ [.control .commit none]) := by
  cases h with
  | unavailable => cases hok
  | notStarted => cases hok
  | rolledBack => cases hok
  | notCommitted => cases hok
  | @committed s₁ s₂ _ inner _ _ _ htakes hinner _ =>
    cases hok
    exact ⟨inner, s₁, s₂, htakes, hinner, rfl⟩

/-- A transaction without a result commits nothing. -/
theorem Enclosed.tally_of_error {body : Session σ α} (hbody : Plain body) {c : Course α}
    {stop : Stop} (h : Enclosed env s body c s') (herror : c.result = .error stop) :
    commitCount c.steps = 0 ∧ progressOf c.steps = [] := by
  cases h with
  | unavailable => exact ⟨rfl, rfl⟩
  | notStarted => exact ⟨rfl, rfl⟩
  | rolledBack _ _ htakes _ =>
    exact tally_around (hbody.isData_of_takes htakes) [.control .start none] [.rollback]
  | @notCommitted _ _ _ _ _ r _ _ htakes _ _ =>
    exact tally_around (hbody.isData_of_takes htakes) [.control .start none]
      [.control .commit (some r), .rollback]
  | committed => cases herror

end Session

/-! ### Scripted outsides -/

namespace Script

/-- A statement or query is answered alike whether or not there is a connection, and whatever
faults are left. -/
theorem answers_of_isData {s s' : Script} {steps : List Event}
    (h : environment.Answers s steps s') (hdata : ∀ e ∈ steps, e.isData) (reachable : Bool)
    (faults : List Fault) :
    environment.Answers { s with reachable := reachable, faults := faults } steps
      { s' with reachable := reachable, faults := faults } := by
  induction h with
  | nil s => exact .nil _
  | @cons s s₁ s₂ e steps he _ ih =>
    refine .cons ?_ (ih fun e he => hdata e (List.mem_cons_of_mem _ he))
    cases e with
    | statement q reply =>
      obtain ⟨_, _, replies, _, _⟩ := s
      cases replies <;> (cases he; rfl)
    | evaluation text time answer =>
      obtain ⟨_, _, _, evaluations, _⟩ := s
      cases evaluations <;> (cases he; rfl)
    | control _ _ | rollback | reconciliation _ _ | progress _ _ =>
      simpa [Event.isData] using hdata _ List.mem_cons_self

/-- Meeting statements of one kind leaves the refusals of another kind as they are. -/
theorem meet_meet {c d : Control} (h : c ≠ d) (faults : List Fault) :
    (meet c (meet d faults).2).1 = (meet c faults).1 := by
  -- a fault of the one kind is no fault of the other
  induction faults with
  | nil => rfl
  | cons fault faults ih =>
    by_cases hd : fault.control = d
    · have hc : fault.control ≠ c := fun hc => h (hc.symm.trans hd)
      rcases hp : fault.passed with _ | n
      · simp [meet, hd, hp, ih, Ne.symm h]
      · simp [meet, hd, hp, ih, Ne.symm h]
    · by_cases hc : fault.control = c
      · rcases hp : fault.passed with _ | n <;> simp [meet, hc, hp, ih, h]
      · simp [meet, hd, hc, ih]

end Script

end UsageBilling
