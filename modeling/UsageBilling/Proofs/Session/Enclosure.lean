import UsageBilling.Proofs.Session.Outcome

/-!
# Transactions and the trace

What holds of a session around a transaction, of either access, from what holds of its body.

* `Session.Recorded x` : whether the session `x` ends with a result or a stop, it adds steps to the
  trace, and these tell all the answers it got.
* `Session.Recorded.transaction` : a transaction records what its body records, and its own
  statements.
* `Session.Yields.transaction` : a transaction with a result is its body between a start and a
  commit, and if it may only read, it is told so before the body.
-/

namespace UsageBilling.Session

variable {σ α β : Type}

/-! ### Sessions that record their answers -/

/-- However it ends, the session adds to the trace the steps that were answered. -/
def Recorded (x : Session σ α) : Prop :=
  ∀ env w, ∃ steps, (runIn env w x).2.trace = w.trace ++ steps ∧
    env.Answers w.outside steps (runIn env w x).2.outside

namespace Recorded

/-- A session that leaves trace and outside as they are. -/
theorem of_unchanged {x : Session σ α}
    (h : ∀ env w, (runIn env w x).2.trace = w.trace ∧ (runIn env w x).2.outside = w.outside) :
    Recorded x := by
  intro env w
  obtain ⟨htrace, houtside⟩ := h env w
  refine ⟨[], by rw [htrace, List.append_nil], ?_⟩
  rw [houtside]
  exact .nil _

theorem pure (a : α) : Recorded (Pure.pure a : Session σ α) :=
  of_unchanged fun _ _ => ⟨rfl, rfl⟩

theorem connected : Recorded (Session.connected : Session σ Unit) := by
  refine of_unchanged fun env w => ?_
  rw [runIn_connected]
  split <;> exact ⟨rfl, rfl⟩

theorem bind {x : Session σ α} {f : α → Session σ β} (hx : Recorded x)
    (hf : ∀ a, Recorded (f a)) : Recorded (x >>= f) := by
  intro env w
  obtain ⟨steps, htrace, hsteps⟩ := hx env w
  rw [runIn_bind]
  rcases hr : runIn env w x with ⟨stop | a, w'⟩
  · rw [hr] at htrace hsteps
    exact ⟨steps, htrace, hsteps⟩
  · rw [hr] at htrace hsteps
    obtain ⟨steps', htrace', hsteps'⟩ := hf a env w'
    refine ⟨steps ++ steps', ?_, hsteps.append hsteps'⟩
    rw [htrace', htrace, List.append_assoc]

theorem control (c : Control) : Recorded (Session.control c : Session σ Unit) := by
  intro env w
  rw [runIn_control]
  rcases h : env.control c w.outside with ⟨_ | r, outside⟩
  · exact ⟨[.control c none], rfl, .single h⟩
  · exact ⟨[.control c (some r)], rfl, .single h⟩

/-- Giving up a transaction is a step of its own. -/
theorem orRollback {x : Session σ α} (hx : Recorded x) : Recorded (Session.orRollback x) := by
  intro env w
  obtain ⟨steps, htrace, hsteps⟩ := hx env w
  rw [runIn_orRollback]
  rcases hr : runIn env w x with ⟨stop | a, w'⟩
  · rw [hr] at htrace hsteps
    have hrollback : Event.Answered env w'.outside w'.outside .rollback := rfl
    refine ⟨steps ++ [.rollback], ?_, hsteps.append (.single hrollback)⟩
    exact (congrArg (· ++ [.rollback]) htrace).trans (List.append_assoc _ _ _)
  · rw [hr] at htrace hsteps
    exact ⟨steps, htrace, hsteps⟩

end Recorded

/-- What sets the access of a transaction. -/
def setAccess (access : Access) : Session σ Unit :=
  match access with
  | .readOnly => control .readOnly
  | .readWrite => pure ()

theorem transaction_eq (access : Access) (body : Session σ α) :
    transaction access body = connected >>= fun _ => control .start >>= fun _ =>
      orRollback (setAccess access >>= fun _ => body >>= fun a =>
        control .commit >>= fun _ => pure a) := by
  cases access <;> simp [transaction, setAccess]

/-- **A transaction records what its body records.** -/
theorem Recorded.transaction {access : Access} {body : Session σ α} (h : Recorded body) :
    Recorded (Session.transaction access body) := by
  have haccess : Recorded (setAccess access : Session σ Unit) := by
    cases access with
    | readOnly => exact .control .readOnly
    | readWrite => exact .pure ()
  rw [transaction_eq]
  refine Recorded.connected.bind fun _ => (Recorded.control .start).bind fun _ => ?_
  exact (haccess.bind fun _ => h.bind fun a =>
    (Recorded.control .commit).bind fun _ => .pure a).orRollback

/-- Statements and queries are recorded with their answers. -/
theorem Plain.recorded {x : Session σ α} (h : Plain x) : Recorded x := by
  intro env w
  obtain ⟨c, s', hanswers, hleads, -⟩ := h.course env w.outside
  have hrun := hleads env w.outside s' hanswers w.trace w.metrics
  rw [hrun]
  exact ⟨c.steps, rfl, hanswers⟩

/-! ### Transactions with a result -/

namespace Yields

theorem connected : Yields (Session.connected : Session σ Unit) fun _ steps => steps = [] := by
  intro env w a w' hrun
  rw [runIn_connected] at hrun
  split at hrun
  · obtain ⟨-, rfl⟩ := Prod.mk.inj hrun
    exact ⟨[], by simp, rfl⟩
  · cases hrun

theorem control (c : Control) :
    Yields (Session.control c : Session σ Unit) fun _ steps => steps = [.control c none] := by
  intro env w a w' hrun
  rw [runIn_control] at hrun
  rcases h : env.control c w.outside with ⟨_ | r, outside⟩
  · rw [h] at hrun
    obtain ⟨-, rfl⟩ := Prod.mk.inj hrun
    exact ⟨[.control c none], rfl, rfl⟩
  · rw [h] at hrun
    cases hrun

theorem orRollback {x : Session σ α} {spec : α → List Event → Prop} (hx : Yields x spec) :
    Yields (Session.orRollback x) spec := by
  intro env w a w' hrun
  rw [runIn_orRollback] at hrun
  rcases hr : runIn env w x with ⟨stop | b, w''⟩
  · rw [hr] at hrun
    cases hrun
  · rw [hr] at hrun
    obtain ⟨hb, rfl⟩ := Prod.mk.inj hrun
    obtain rfl : b = a := Except.ok.inj hb
    exact hx env w b w'' hr

end Yields

/-- The statements that open a transaction. -/
def opening : Access → List Event
  | .readOnly => [.control .start none, .control .readOnly none]
  | .readWrite => [.control .start none]

/-- **A transaction with a result** is its body between what opens it and the commit. -/
theorem Yields.transaction {access : Access} {body : Session σ α} {spec : α → List Event → Prop}
    (h : Yields body spec) :
    Yields (Session.transaction access body) fun a steps =>
      ∃ inner, spec a inner ∧ steps = opening access ++ inner ++ [.control .commit none] := by
  rw [transaction_eq]
  refine Yields.connected.bind ?_
  rintro _ _ rfl
  refine (Yields.control .start).bind ?_
  rintro _ _ rfl
  have haccess : Yields (setAccess access : Session σ Unit) fun _ steps =>
      [.control .start none] ++ steps = opening access := by
    cases access with
    | readOnly =>
      refine (Yields.control .readOnly).mono ?_
      rintro _ _ rfl
      rfl
    | readWrite => exact .pure rfl
  refine Yields.orRollback (haccess.bind fun _ opened hopened => h.bind fun a inner hinner => ?_)
  refine (Yields.control .commit).bind ?_
  rintro _ _ rfl
  refine .pure ⟨inner, hinner, ?_⟩
  rw [← hopened]
  simp

/-- The steps of a session with a result, and the answers they got. -/
theorem Yields.exists_recorded {x : Session σ α} {spec : α → List Event → Prop}
    (hx : Yields x spec) (hrecorded : Recorded x) {env : Environment σ} {w w' : World σ} {a : α}
    (h : runIn env w x = (.ok a, w')) :
    ∃ steps, w'.trace = w.trace ++ steps ∧ env.Answers w.outside steps w'.outside ∧
      spec a steps := by
  obtain ⟨steps, htrace, hspec⟩ := hx env w a w' h
  obtain ⟨steps', htrace', hanswers⟩ := hrecorded env w
  rw [h] at htrace' hanswers
  obtain rfl : steps = steps' := List.append_cancel_left (htrace.symm.trans htrace')
  exact ⟨steps, htrace, hanswers, hspec⟩

end UsageBilling.Session
