import UsageBilling.Session

/-!
# Running a session step by step

One equation for each way a session is made: what it ends with, and the world it leaves.

* `Session.runIn_bind` and `Session.runIn_tryCatch` take a session apart;
* `Session.runIn_control` and `Session.runIn_execute` say what one statement does: the environment
  moves on, the trace grows by one step, and a refusal ends the session.
-/

namespace UsageBilling.Session

variable {σ α β : Type} (env : Environment σ) (w : World σ)

@[simp] theorem runIn_pure (a : α) : runIn env w (pure a : Session σ α) = (.ok a, w) := rfl

@[simp] theorem runIn_throw (stop : Stop) :
    runIn env w (throw stop : Session σ α) = (.error stop, w) := rfl

@[simp] theorem runIn_fail (e : BillingError) :
    runIn env w (fail e : Session σ α) = (.error (.failed e), w) := rfl

/-- The second part runs in the world that the first leaves, unless that stops. -/
theorem runIn_bind (x : Session σ α) (f : α → Session σ β) :
    runIn env w (x >>= f) =
      match runIn env w x with
      | (.ok a, w') => runIn env w' (f a)
      | (.error stop, w') => (.error stop, w') := by
  simp only [runIn, ReaderT.run_bind, ExceptT.run_bind, StateT.run_bind]
  cases h : ((ReaderT.run x env).run).run w with
  | mk r w' => cases r <;> rfl

/-- A stop is handled in the world in which it came up. -/
theorem runIn_tryCatch (x : Session σ α) (handle : Stop → Session σ α) :
    runIn env w (tryCatch x handle) =
      match runIn env w x with
      | (.ok a, w') => (.ok a, w')
      | (.error stop, w') => runIn env w' (handle stop) := by
  simp only [runIn, tryCatch, tryCatchThe, MonadExceptOf.tryCatch, ExceptT.tryCatch]
  cases h : StateT.run (x.run env).run w with
  | mk r w' =>
    have h' : (x env : StateM (World σ) (Except Stop α)) w = (r, w') := h
    cases r with
    | ok a =>
      simp [ReaderT.run, ExceptT.run, ExceptT.mk, StateT.run, bind, StateT.bind, h']
      rfl
    | error stop =>
      simp [ReaderT.run, ExceptT.run, ExceptT.mk, StateT.run, bind, StateT.bind, h']

@[simp] theorem runIn_record (e : Event) :
    runIn env w (record e) = (.ok (), { w with trace := w.trace ++ [e] }) := rfl

@[simp] theorem runIn_measure (f : ReportMetrics → ReportMetrics) :
    runIn env w (measure f) = (.ok (), { w with metrics := f w.metrics }) := rfl

theorem runIn_ask (question : Environment σ → σ → β × σ) :
    runIn env w (ask question) =
      (.ok (question env w.outside).1, { w with outside := (question env w.outside).2 }) := rfl

theorem runIn_connected :
    runIn env w connected =
      if env.reachable w.outside then (.ok (), w)
      else (.error (.failed (.storage .unavailable)), w) := by
  have unfolded : runIn env w connected = runIn env w
      (if env.reachable w.outside then pure () else fail (.storage .unavailable)) := rfl
  rw [unfolded]
  split <;> rfl

theorem runIn_control (c : Control) :
    runIn env w (control c) =
      match env.control c w.outside with
      | (none, outside) =>
        (.ok (), { w with outside := outside, trace := w.trace ++ [.control c none] })
      | (some r, outside) =>
        (.error (.failed r.toError),
          { w with outside := outside, trace := w.trace ++ [.control c (some r)] }) := by
  rcases h : env.control c w.outside with ⟨_ | r, outside⟩ <;>
    simp [control, runIn_bind, runIn_ask, h]

theorem runIn_execute (s : Statement) :
    runIn env w (execute s) =
      match env.execute s w.outside with
      | (.ok outcome, outside) =>
        (.ok outcome, { w with outside := outside, trace := w.trace ++ [.statement s (.ok outcome)] })
      | (.error r, outside) =>
        (.error (.failed r.toError),
          { w with outside := outside, trace := w.trace ++ [.statement s (.error r)] }) := by
  rcases h : env.execute s w.outside with ⟨r | outcome, outside⟩ <;>
    simp [execute, runIn_bind, runIn_ask, h, ofExcept, -bind_pure_comp]

/-- A body that stops leaves a rollback behind it in the trace. -/
theorem runIn_orRollback (x : Session σ α) :
    runIn env w (orRollback x) =
      match runIn env w x with
      | (.ok a, w') => (.ok a, w')
      | (.error stop, w') => (.error stop, { w' with trace := w'.trace ++ [.rollback] }) := by
  rw [orRollback, runIn_tryCatch]
  rcases runIn env w x with ⟨stop | a, w'⟩
  · simp [runIn_bind]
  · rfl

end UsageBilling.Session
