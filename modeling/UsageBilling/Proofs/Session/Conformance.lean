import UsageBilling.Proofs.Session.Enclosure
import UsageBilling.Proofs.Session.Transaction

/-!
# What all courses of a session have in common

A session that has a result is described by `Session.Yields`.  Here it is described however it ends,
as refusals and rollbacks happen on the way to a stop as well.

* `Session.Conforms x P` : whatever the outside answers, the session `x` takes a course that
  satisfies `P`, and its steps tell all the answers it got.
* `Conduct` : a property of steps, of the stop after them, if there is one, and of what happens to
  the metrics; `Session.Behaves x C` says that all courses of `x` are of the conduct `C`.
* `Conduct.Composes C` : what is of the conduct part by part is of it as a whole.  Then a session is
  of `C` as soon as its parts are (`Session.Behaves.bind`, `Session.Behaves.forM`,
  `Session.Behaves.mapM`).
* `Rule`, `Session.Obeys x R` : the conducts that leave the metrics out.
* `Session.Conforms.transaction` : the courses of a transaction, from those of its body.
-/

namespace UsageBilling

variable {σ α β : Type}

/-- What ended a course that has no result. -/
def Course.stop? (c : Course α) : Option Stop :=
  match c.result with
  | .ok _ => none
  | .error stop => some stop

namespace Session

/-! ### Conformance -/

/-- Whatever the outside answers, the session takes a course that satisfies `P`, and its steps tell
all the answers it got. -/
def Conforms (x : Session σ α) (P : Course α → Prop) : Prop :=
  ∀ env s, ∃ c s', Takes env s x c s' ∧ env.Answers s c.steps s' ∧ P c

namespace Conforms

variable {P : Course α → Prop} {Q : Course β → Prop}

theorem mono {P' : Course α → Prop} {x : Session σ α} (hx : Conforms x P)
    (h : ∀ c, P c → P' c) : Conforms x P' := by
  intro env s
  obtain ⟨c, s', htakes, hanswers, hc⟩ := hx env s
  exact ⟨c, s', htakes, hanswers, h c hc⟩

/-- Every course that a session takes is one of those it conforms to. -/
theorem of_takes {x : Session σ α} (hx : Conforms x P) {env : Environment σ} {s s' : σ}
    {c : Course α} (h : Takes env s x c s') : env.Answers s c.steps s' ∧ P c := by
  obtain ⟨d, s'', htakes, hanswers, hd⟩ := hx env s
  obtain ⟨rfl, rfl⟩ := h.unique htakes
  exact ⟨hanswers, hd⟩

theorem pure {a : α} (h : P ⟨[], .ok a, id⟩) : Conforms (Pure.pure a : Session σ α) P :=
  fun _ s => ⟨_, s, takes_pure a, .nil s, h⟩

theorem stop {e : Stop} (h : P ⟨[], .error e, id⟩) : Conforms (throw e : Session σ α) P :=
  fun _ s => ⟨_, s, takes_throw e, .nil s, h⟩

theorem connected : Conforms (Session.connected : Session σ Unit) fun c =>
    c = ⟨[], .ok (), id⟩ ∨ c = ⟨[], .error (.failed (.storage .unavailable)), id⟩ := by
  intro env s
  cases h : env.reachable s with
  | true => exact ⟨_, s, takes_connected h, .nil s, .inl rfl⟩
  | false => exact ⟨_, s, takes_connected_unavailable h, .nil s, .inr rfl⟩

theorem execute (q : Statement) : Conforms (Session.execute q : Session σ Outcome) fun c =>
    ∃ reply : Reply, c = ⟨[.statement q reply], reply.mapError fun r => .failed r.toError, id⟩ :=
  fun _ _ => ⟨_, _, takes_execute rfl, .single rfl, _, rfl⟩

theorem control (k : Control) : Conforms (Session.control k : Session σ Unit) fun c =>
    c = ⟨[.control k none], .ok (), id⟩ ∨
      ∃ r : Refusal, c = ⟨[.control k (some r)], .error (.failed r.toError), id⟩ := by
  intro env s
  rcases h : env.control k s with ⟨_ | r, s'⟩
  · exact ⟨_, s', takes_control h, .single h, .inl rfl⟩
  · exact ⟨_, s', takes_control h, .single h, .inr ⟨r, rfl⟩⟩

/-- The second part goes on from every result of the first. -/
theorem bind {x : Session σ α} {f : α → Session σ β} (hx : Conforms x P)
    (hf : ∀ steps a g, P ⟨steps, .ok a, g⟩ → Conforms (f a) fun d => Q (d.after steps g))
    (hstop : ∀ steps e g, P ⟨steps, .error e, g⟩ → Q ⟨steps, .error e, g⟩) :
    Conforms (x >>= f) Q := by
  intro env s
  obtain ⟨⟨steps, result, g⟩, s₁, htakes, hanswers, hc⟩ := hx env s
  cases result with
  | error e => exact ⟨_, s₁, htakes.bind_stop, hanswers, hstop steps e g hc⟩
  | ok a =>
    obtain ⟨d, s₂, htakes', hanswers', hd⟩ := hf steps a g hc env s₁
    exact ⟨_, s₂, htakes.bind htakes', hanswers.append hanswers', hd⟩

/-- A function of the result changes nothing but the result. -/
theorem map (f : α → β) {x : Session σ α} (hx : Conforms x P) :
    Conforms (f <$> x) fun c => ∃ d, P d ∧ c = ⟨d.steps, d.result.map f, d.measured⟩ := by
  rw [map_eq_pure_bind]
  refine hx.bind (fun steps a g hc => .pure ⟨⟨steps, .ok a, g⟩, hc, ?_⟩)
    fun steps e g hc => ⟨⟨steps, .error e, g⟩, hc, rfl⟩
  rw [Course.after, List.append_nil]
  rfl

/-- A stop is turned into another one. -/
theorem tryCatchThrow {P' : Course α → Prop} {x : Session σ α} {f : Stop → Stop}
    (hx : Conforms x P) (hok : ∀ steps a g, P ⟨steps, .ok a, g⟩ → P' ⟨steps, .ok a, g⟩)
    (hstop : ∀ steps e g, P ⟨steps, .error e, g⟩ → P' ⟨steps, .error (f e), g⟩) :
    Conforms (tryCatch x fun e => throw (f e)) P' := by
  intro env s
  obtain ⟨⟨steps, result, g⟩, s', htakes, hanswers, hc⟩ := hx env s
  cases result with
  | ok a => exact ⟨_, s', htakes.tryCatch_ok, hanswers, hok steps a g hc⟩
  | error e => exact ⟨_, s', htakes.tryCatch_throw, hanswers, hstop steps e g hc⟩

/-- A stop leaves a rollback behind it. -/
theorem orRollback {P' : Course α → Prop} {x : Session σ α} (hx : Conforms x P)
    (hok : ∀ steps a g, P ⟨steps, .ok a, g⟩ → P' ⟨steps, .ok a, g⟩)
    (hstop : ∀ steps e g, P ⟨steps, .error e, g⟩ → P' ⟨steps ++ [.rollback], .error e, g⟩) :
    Conforms (Session.orRollback x) P' := by
  intro env s
  obtain ⟨⟨steps, result, g⟩, s', htakes, hanswers, hc⟩ := hx env s
  cases result with
  | ok a => exact ⟨_, s', htakes.tryCatch_ok, hanswers, hok steps a g hc⟩
  | error e =>
    have hrollback : Event.Answered env s' s' .rollback := rfl
    exact ⟨_, s', htakes.orRollback_stop, hanswers.append (.single hrollback),
      hstop steps e g hc⟩

end Conforms

/-! ### Transactions -/

/-- The courses of a transaction of an access around a body with courses of `P`. -/
inductive Surrounded (access : Access) (P : Course α → Prop) : Course α → Prop
  | unavailable : Surrounded access P ⟨[], .error (.failed (.storage .unavailable)), id⟩
  | notStarted (r : Refusal) :
      Surrounded access P ⟨[.control .start (some r)], .error (.failed r.toError), id⟩
  | notRestricted (r : Refusal) : access = .readOnly →
      Surrounded access P
        ⟨[.control .start none, .control .readOnly (some r), .rollback],
          .error (.failed r.toError), id⟩
  | rolledBack {steps : List Event} {e : Stop} {g : ReportMetrics → ReportMetrics} :
      P ⟨steps, .error e, g⟩ →
      Surrounded access P ⟨opening access ++ steps ++ [.rollback], .error e, g⟩
  | notCommitted {steps : List Event} {a : α} {g : ReportMetrics → ReportMetrics} (r : Refusal) :
      P ⟨steps, .ok a, g⟩ →
      Surrounded access P
        ⟨opening access ++ steps ++ [.control .commit (some r), .rollback],
          .error (.failed r.toError), g⟩
  | committed {steps : List Event} {a : α} {g : ReportMetrics → ReportMetrics} :
      P ⟨steps, .ok a, g⟩ →
      Surrounded access P ⟨opening access ++ steps ++ [.control .commit none], .ok a, g⟩

/-- The courses of a body and the commit after it. -/
inductive Closed (P : Course α → Prop) : Course α → Prop
  | stopped {steps : List Event} {e : Stop} {g : ReportMetrics → ReportMetrics} :
      P ⟨steps, .error e, g⟩ → Closed P ⟨steps, .error e, g⟩
  | refused {steps : List Event} {a : α} {g : ReportMetrics → ReportMetrics} (r : Refusal) :
      P ⟨steps, .ok a, g⟩ →
      Closed P ⟨steps ++ [.control .commit (some r)], .error (.failed r.toError), g⟩
  | committed {steps : List Event} {a : α} {g : ReportMetrics → ReportMetrics} :
      P ⟨steps, .ok a, g⟩ → Closed P ⟨steps ++ [.control .commit none], .ok a, g⟩

theorem Conforms.closed {body : Session σ α} {P : Course α → Prop} (h : Conforms body P) :
    Conforms (body >>= fun a => Session.control .commit >>= fun _ => Pure.pure a) (Closed P) := by
  refine h.bind (fun steps a g hc => ?_) fun steps e g hc => .stopped hc
  refine (Conforms.control .commit).bind (fun _ _ _ hcommit => ?_) fun _ _ _ hcommit => ?_
  · rcases hcommit with hcommit | ⟨r, hcommit⟩ <;> cases hcommit
    exact .pure (.committed hc)
  · rcases hcommit with hcommit | ⟨r, hcommit⟩ <;> cases hcommit
    exact .refused r hc

theorem Conforms.setAccess (access : Access) :
    Conforms (Session.setAccess access : Session σ Unit) fun c =>
      (∃ steps, opening access = .control .start none :: steps ∧ c = ⟨steps, .ok (), id⟩) ∨
        access = .readOnly ∧ ∃ r : Refusal,
          c = ⟨[.control .readOnly (some r)], .error (.failed r.toError), id⟩ := by
  cases access with
  | readWrite => exact .pure (.inl ⟨[], rfl, rfl⟩)
  | readOnly =>
    refine (Conforms.control .readOnly).mono ?_
    rintro c (rfl | ⟨r, rfl⟩)
    · exact .inl ⟨[.control .readOnly none], rfl, rfl⟩
    · exact .inr ⟨rfl, r, rfl⟩

/-- The rest of a transaction, from its start on. -/
theorem Conforms.started {access : Access} {body : Session σ α} {P : Course α → Prop}
    (h : Conforms body P) :
    Conforms (Session.orRollback (Session.setAccess access >>= fun _ => body >>= fun a =>
      Session.control .commit >>= fun _ => Pure.pure a)) fun c =>
        Surrounded access P (c.after [.control .start none] id) := by
  -- a refusal of the access is rolled back like a body that stops
  have hrest : Conforms (Session.setAccess access >>= fun _ => body >>= fun a =>
      Session.control .commit >>= fun _ => Pure.pure a) fun c =>
        (∃ steps d, opening access = .control .start none :: steps ∧ Closed P d ∧
          c = d.after steps id) ∨
        access = .readOnly ∧ ∃ r : Refusal,
          c = ⟨[.control .readOnly (some r)], .error (.failed r.toError), id⟩ := by
    refine (Conforms.setAccess access).bind (fun _ _ _ hc => ?_) fun _ _ _ hc => ?_
    · rcases hc with ⟨steps, hopening, hc⟩ | ⟨-, r, hc⟩
      · cases hc
        exact h.closed.mono fun d hd => .inl ⟨_, d, hopening, hd, rfl⟩
      · cases hc
    · rcases hc with ⟨steps, -, hc⟩ | ⟨haccess, r, hc⟩ <;> cases hc
      exact .inr ⟨haccess, r, rfl⟩
  refine hrest.orRollback (fun _ _ _ hc => ?_) fun _ _ _ hc => ?_
  · rcases hc with ⟨steps, ⟨_, _, _⟩, hopening, hd, hc⟩ | ⟨-, r, hc⟩ <;> cases hc
    cases hd with
    | committed hbody =>
      have hcommitted : Surrounded access P _ := .committed hbody
      rw [hopening] at hcommitted
      simpa [Course.after] using hcommitted
  · rcases hc with ⟨steps, ⟨_, _, _⟩, hopening, hd, hc⟩ | ⟨haccess, r, hc⟩ <;> cases hc
    · cases hd with
      | stopped hbody =>
        have hrolledBack : Surrounded access P _ := .rolledBack hbody
        rw [hopening] at hrolledBack
        simpa [Course.after] using hrolledBack
      | refused r hbody =>
        have hnotCommitted : Surrounded access P _ := .notCommitted r hbody
        rw [hopening] at hnotCommitted
        simpa [Course.after] using hnotCommitted
    · exact .notRestricted r haccess

/-- **A transaction takes one of the courses around its body.** -/
theorem Conforms.transaction {access : Access} {body : Session σ α} {P : Course α → Prop}
    (h : Conforms body P) : Conforms (Session.transaction access body) (Surrounded access P) := by
  rw [transaction_eq]
  refine Conforms.connected.bind (fun _ _ _ hc => ?_) fun _ _ _ hc => ?_
  · rcases hc with hc | hc <;> cases hc
    refine (Conforms.control .start).bind (fun _ _ _ hc => ?_) fun _ _ _ hc => ?_
    · rcases hc with hc | ⟨r, hc⟩ <;> cases hc
      exact h.started
    · rcases hc with hc | ⟨r, hc⟩ <;> cases hc
      exact .notStarted r
  · rcases hc with hc | hc <;> cases hc
    exact .unavailable

end Session

/-! ### Conducts -/

/-- A property of the stop at the end, if there is one, of the steps before it and of what happens
to the metrics. -/
abbrev Conduct := Option Stop → List Event → (ReportMetrics → ReportMetrics) → Prop

namespace Conduct

/-- What is of the conduct part by part is of it as a whole. -/
structure Composes (C : Conduct) : Prop where
  nil : ∀ stop, C stop [] id
  append : ∀ {steps steps' stop g g'}, C none steps g → C stop steps' g' →
    C stop (steps ++ steps') (g' ∘ g)

/-- A statement is of the conduct whatever the reply, as long as a refusal ends what it is part
of. -/
def Admits (C : Conduct) (q : Statement) : Prop :=
  ∀ reply stop, (∀ r, reply = .error r → stop = some (.failed r.toError)) →
    C stop [.statement q reply] id

end Conduct

namespace Session

/-- All courses of the session are of the conduct. -/
def Behaves (x : Session σ α) (C : Conduct) : Prop :=
  Conforms x fun c => C c.stop? c.steps c.measured

namespace Behaves

variable {C : Conduct}

theorem pure (hC : C.Composes) (a : α) : Behaves (Pure.pure a : Session σ α) C :=
  Conforms.pure (hC.nil _)

theorem stop (hC : C.Composes) (e : Stop) : Behaves (throw e : Session σ α) C :=
  Conforms.stop (hC.nil _)

theorem fail (hC : C.Composes) (e : BillingError) : Behaves (Session.fail e : Session σ α) C :=
  stop hC _

theorem connected (hC : C.Composes) : Behaves (Session.connected : Session σ Unit) C := by
  refine Conforms.connected.mono ?_
  rintro c (rfl | rfl)
  · exact hC.nil _
  · exact hC.nil _

theorem ofExcept (hC : C.Composes) {ε : Type} (toError : ε → BillingError) (x : Except ε α) :
    Behaves (Session.ofExcept toError x : Session σ α) C := by
  cases x with
  | ok a => exact pure hC a
  | error e => exact fail hC (toError e)

theorem inRange (hC : C.Composes) (x : Option α) :
    Behaves (Session.inRange x : Session σ α) C := by
  cases x with
  | some a => exact pure hC a
  | none => exact stop hC .overflow

theorem execute {q : Statement} (h : C.Admits q) :
    Behaves (Session.execute q : Session σ Outcome) C := by
  refine (Conforms.execute q).mono ?_
  rintro c ⟨reply, rfl⟩
  refine h reply _ ?_
  rintro r rfl
  rfl

theorem control {k : Control}
    (h : ∀ refusal stop, (∀ r, refusal = some r → stop = some (.failed r.toError)) →
      C stop [.control k refusal] id) :
    Behaves (Session.control k : Session σ Unit) C := by
  refine (Conforms.control k).mono ?_
  rintro c (rfl | ⟨r, rfl⟩)
  · exact h none _ fun r hr => by cases hr
  · exact h (some r) _ fun r' hr => by cases hr; rfl

theorem orRollback
    (h : ∀ stop steps g, C (some stop) steps g → C (some stop) (steps ++ [.rollback]) g)
    {x : Session σ α} (hx : Behaves x C) : Behaves (Session.orRollback x) C :=
  Conforms.orRollback hx (fun _ _ _ hc => hc) fun _ _ _ hc => h _ _ _ hc

theorem bind (hC : C.Composes) {x : Session σ α} {f : α → Session σ β} (hx : Behaves x C)
    (hf : ∀ a, Behaves (f a) C) : Behaves (x >>= f) C := by
  refine Conforms.bind hx (fun steps a g hc => (hf a).mono fun d hd => ?_) fun _ _ _ hc => hc
  show C d.stop? (steps ++ d.steps) (d.measured ∘ g)
  exact hC.append hc hd

theorem map (hC : C.Composes) {x : Session σ α} (f : α → β) (hx : Behaves x C) :
    Behaves (f <$> x) C := by
  rw [map_eq_pure_bind]
  exact bind hC hx fun a => pure hC (f a)

theorem forM (hC : C.Composes) {f : α → Session σ Unit} (h : ∀ a, Behaves (f a) C)
    (as : List α) : Behaves (as.forM f) C := by
  induction as with
  | nil => exact pure hC ()
  | cons a as ih => exact bind hC (h a) fun _ => ih

theorem mapM (hC : C.Composes) {f : α → Session σ β} (h : ∀ a, Behaves (f a) C) (as : List α) :
    Behaves (as.mapM f) C := by
  induction as with
  | nil => exact pure hC []
  | cons a as ih =>
    rw [List.mapM_cons]
    exact bind hC (h a) fun b => bind hC ih fun bs => pure hC (b :: bs)

/-- A transaction is of a conduct if its body is, and if the conduct has a place for the statements
around it. -/
theorem transaction (hC : C.Composes)
    (hcontrol : ∀ k refusal stop, (∀ r, refusal = some r → stop = some (.failed r.toError)) →
      C stop [.control k refusal] id)
    (hrollback : ∀ stop steps g, C (some stop) steps g → C (some stop) (steps ++ [.rollback]) g)
    {body : Session σ α} (access : Access) (h : Behaves body C) :
    Behaves (Session.transaction access body) C := by
  have haccess : Behaves (setAccess access : Session σ Unit) C := by
    cases access with
    | readWrite => exact pure hC ()
    | readOnly => exact control (hcontrol .readOnly)
  rw [transaction_eq]
  refine bind hC (connected hC) fun _ => bind hC (control (hcontrol .start)) fun _ => ?_
  exact orRollback hrollback (bind hC haccess fun _ => bind hC h fun a =>
    bind hC (control (hcontrol .commit)) fun _ => pure hC a)

end Behaves

end Session

/-! ### Rules -/

/-- A property of the stop at the end, if there is one, and of the steps before it. -/
abbrev Rule := Option Stop → List Event → Prop

namespace Rule

/-- What follows the rule part by part follows it as a whole. -/
structure Composes (R : Rule) : Prop where
  nil : ∀ stop, R stop []
  append : ∀ {steps steps' stop}, R none steps → R stop steps' → R stop (steps ++ steps')

/-- A statement follows the rule whatever the reply, as long as a refusal ends what it is part
of. -/
def Admits (R : Rule) (q : Statement) : Prop :=
  ∀ reply stop, (∀ r, reply = .error r → stop = some (.failed r.toError)) →
    R stop [.statement q reply]

/-- What is asked of every step composes. -/
theorem composes_forall (p : Event → Prop) : Composes fun _ steps => ∀ e ∈ steps, p e where
  nil := fun _ _ he => absurd he List.not_mem_nil
  append := fun hs hs' => List.forall_mem_append.2 ⟨hs, hs'⟩

/-- The conduct of following the rule, whatever happens to the metrics. -/
def conduct (R : Rule) : Conduct := fun stop steps _ => R stop steps

theorem Composes.conduct {R : Rule} (hR : R.Composes) : R.conduct.Composes := ⟨hR.nil, hR.append⟩

end Rule

namespace Session

/-- All courses of the session follow the rule. -/
def Obeys (x : Session σ α) (R : Rule) : Prop := Conforms x fun c => R c.stop? c.steps

namespace Obeys

variable {R : Rule}

theorem pure (hR : R.Composes) (a : α) : Obeys (Pure.pure a : Session σ α) R :=
  Behaves.pure hR.conduct a

theorem fail (hR : R.Composes) (e : BillingError) : Obeys (Session.fail e : Session σ α) R :=
  Behaves.fail hR.conduct e

theorem ofExcept (hR : R.Composes) {ε : Type} (toError : ε → BillingError) (x : Except ε α) :
    Obeys (Session.ofExcept toError x : Session σ α) R :=
  Behaves.ofExcept hR.conduct toError x

theorem inRange (hR : R.Composes) (x : Option α) : Obeys (Session.inRange x : Session σ α) R :=
  Behaves.inRange hR.conduct x

theorem bind (hR : R.Composes) {x : Session σ α} {f : α → Session σ β} (hx : Obeys x R)
    (hf : ∀ a, Obeys (f a) R) : Obeys (x >>= f) R := Behaves.bind hR.conduct hx hf

theorem map (hR : R.Composes) {x : Session σ α} (f : α → β) (hx : Obeys x R) :
    Obeys (f <$> x) R := Behaves.map hR.conduct f hx

theorem mapM (hR : R.Composes) {f : α → Session σ β} (h : ∀ a, Obeys (f a) R) (as : List α) :
    Obeys (as.mapM f) R := Behaves.mapM hR.conduct h as

/-- A transaction follows a rule if its body does, and if the rule has a place for the statements
around it. -/
theorem transaction (hR : R.Composes)
    (hcontrol : ∀ k refusal stop, (∀ r, refusal = some r → stop = some (.failed r.toError)) →
      R stop [.control k refusal])
    (hrollback : ∀ stop steps, R (some stop) steps → R (some stop) (steps ++ [.rollback]))
    {body : Session σ α} (access : Access) (h : Obeys body R) :
    Obeys (Session.transaction access body) R :=
  Behaves.transaction hR.conduct hcontrol (fun stop steps _ => hrollback stop steps) access h

end Obeys

end Session

end UsageBilling
