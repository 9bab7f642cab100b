import UsageBilling.Proofs.Session.Conformance
import UsageBilling.Proofs.Store.Reply

/-!
# The courses of asking the store

A function of the store asks one statement, or two if it inserts a record and the first reply has no
rows.  The reply decides the rest.

* `Reply.firstResult read? reply`, `Reply.allResult read? reply` : what the first row of a reply, or
  all of them, come to.
* `Session.takes_fetchFirst?`, `Session.takes_fetchAll` : one statement, and what its reply comes
  to.
* `Store.Inserted read? q failure` : the courses of inserting a record.  A reply without rows is
  followed by the same statement once more, and a second one is the `failure`.
* `Session.Behaves.fetchAll`, `Store.behaves_orFail`, `Store.behaves_insertOrSelect` : all functions
  are of the conducts, and follow the rules, that admit their statements.
-/

namespace UsageBilling

variable {σ α : Type}

/-! ### What a reply comes to -/

/-- What the first row of a reply comes to. -/
def Reply.firstResult (read? : Row → Option α) : Reply → Except Stop (Option α)
  | .error r => .error (.failed r.toError)
  | .ok outcome =>
    match outcome.toRows with
    | [] => .ok none
    | row :: _ =>
      match read? row with
      | some a => .ok (some a)
      | none => .error (.failed (.storage .columnDecode))

/-- What the rows of a reply come to. -/
def Reply.allResult (read? : Row → Option α) : Reply → Except Stop (List α)
  | .error r => .error (.failed r.toError)
  | .ok outcome =>
    match outcome.toRows.mapM read? with
    | some as => .ok as
    | none => .error (.failed (.storage .columnDecode))

namespace Reply

variable {read? : Row → Option α} {reply : Reply}

theorem firstResult_eq_some_iff {a : α} :
    reply.firstResult read? = .ok (some a) ↔ reply.first? read? = some a := by
  cases reply with
  | error r => simp [firstResult, first?]
  | ok outcome =>
    cases h : outcome.toRows with
    | nil => simp [firstResult, first?, h]
    | cons row rows => cases hrow : read? row <;> simp [firstResult, first?, h, hrow]

theorem firstResult_eq_none_iff : reply.firstResult read? = .ok none ↔ reply.isEmpty := by
  cases reply with
  | error r => simp [firstResult, isEmpty]
  | ok outcome =>
    cases h : outcome.toRows with
    | nil => simp [firstResult, isEmpty, h]
    | cons row rows => cases hrow : read? row <;> simp [firstResult, isEmpty, h, hrow]

/-- Without a first record to be read there is none. -/
theorem first?_of_firstResult_eq_error {stop : Stop} (h : reply.firstResult read? = .error stop) :
    (∃ e, stop = .failed e) ∧ reply.first? read? = none := by
  cases reply with
  | error r =>
    cases h
    exact ⟨⟨_, rfl⟩, rfl⟩
  | ok outcome =>
    cases hrows : outcome.toRows with
    | nil => simp [firstResult, hrows] at h
    | cons row rows =>
      cases hrow : read? row with
      | some a => simp [firstResult, hrows, hrow] at h
      | none =>
        simp only [firstResult, hrows, hrow, Except.error.injEq] at h
        exact ⟨⟨_, h.symm⟩, by simp [first?, hrows, hrow]⟩

/-- A reply without rows starts with no record. -/
theorem first?_of_isEmpty (h : reply.isEmpty) : reply.first? read? = none := by
  have hnone : reply.firstResult read? = .ok none := firstResult_eq_none_iff.2 h
  cases hfirst : reply.first? read? with
  | none => rfl
  | some a =>
    rw [← firstResult_eq_some_iff, hnone] at hfirst
    cases hfirst

end Reply

/-! ### One statement -/

namespace Session

variable {env : Environment σ} {s s' : σ} {read? : Row → Option α} {q : Statement} {reply : Reply}

theorem takes_decode (row : Row) :
    Takes env s (decode read? row) ⟨[], match read? row with
      | some a => .ok a
      | none => .error (.failed (.storage .columnDecode)), id⟩ s := by
  unfold decode
  cases read? row with
  | some a => exact takes_pure a
  | none => exact takes_throw _

theorem takes_mapM_decode (rows : List Row) :
    Takes env s (rows.mapM (decode read?)) ⟨[], match rows.mapM read? with
      | some as => .ok as
      | none => .error (.failed (.storage .columnDecode)), id⟩ s := by
  induction rows with
  | nil => exact takes_pure []
  | cons row rows ih =>
    have hrow : Takes env s (decode read? row) _ s := takes_decode row
    rw [List.mapM_cons, List.mapM_cons]
    cases ha : read? row with
    | none =>
      rw [ha] at hrow
      exact hrow.bind_stop
    | some a =>
      rw [ha] at hrow
      refine hrow.bind_silent ?_
      cases has : rows.mapM read? with
      | none =>
        rw [has] at ih
        exact ih.bind_stop
      | some as =>
        rw [has] at ih
        exact ih.bind_silent (takes_pure _)

/-- The records that answer a statement are what its reply comes to. -/
theorem takes_fetchAll (h : env.execute q s = (reply, s')) :
    Takes env s (fetchAll read? q) ⟨[.statement q reply], reply.allResult read?, id⟩ s' := by
  have hask := takes_execute h
  cases reply with
  | error r => exact hask.bind_stop
  | ok outcome => exact hask.bind_step (takes_mapM_decode outcome.toRows)

/-- The first record that answers a statement is what its reply comes to. -/
theorem takes_fetchFirst? (h : env.execute q s = (reply, s')) :
    Takes env s (fetchFirst? read? q) ⟨[.statement q reply], reply.firstResult read?, id⟩ s' := by
  have hask := takes_execute h
  cases reply with
  | error r => exact hask.bind_stop
  | ok outcome =>
    refine hask.bind_step ?_
    cases hrows : outcome.toRows with
    | nil => simpa [Reply.firstResult, hrows] using takes_pure none
    | cons row rows =>
      have hrow : Takes env s' (decode read? row) _ s' := takes_decode row
      simp only [Reply.firstResult, hrows, map_eq_pure_bind]
      cases ha : read? row with
      | none =>
        rw [ha] at hrow
        exact hrow.bind_stop
      | some a =>
        rw [ha] at hrow
        exact hrow.bind_silent (takes_pure _)

/-- A record that has to be there comes from the first row of the reply. -/
theorem takes_fetchFirst (h : env.execute q s = (reply, s')) :
    ∃ result : Except Stop α,
      Takes env s (fetchFirst read? q) ⟨[.statement q reply], result, id⟩ s' ∧
      ∀ a, result = .ok a ↔ reply.first? read? = some a := by
  have hfirst : Takes env s (fetchFirst? read? q) _ s' := takes_fetchFirst? h
  rcases hresult : reply.firstResult read? with e | _ | a
  · rw [hresult] at hfirst
    exact ⟨.error e, hfirst.bind_stop, fun a => by simp [← Reply.firstResult_eq_some_iff, hresult]⟩
  · rw [hresult] at hfirst
    exact ⟨_, hfirst.bind_step (takes_throw _),
      fun a => by simp [← Reply.firstResult_eq_some_iff, hresult]⟩
  · rw [hresult] at hfirst
    exact ⟨_, hfirst.bind_step (takes_pure a),
      fun b => by simp [← Reply.firstResult_eq_some_iff, hresult]⟩

theorem Conforms.fetchFirst? (read? : Row → Option α) (q : Statement) :
    Conforms (Session.fetchFirst? read? q : Session σ (Option α)) fun c =>
      ∃ reply : Reply, c = ⟨[.statement q reply], reply.firstResult read?, id⟩ :=
  fun _ _ => ⟨_, _, takes_fetchFirst? rfl, .single rfl, _, rfl⟩

theorem Conforms.fetchAll (read? : Row → Option α) (q : Statement) :
    Conforms (Session.fetchAll read? q : Session σ (List α)) fun c =>
      ∃ reply : Reply, c = ⟨[.statement q reply], reply.allResult read?, id⟩ :=
  fun _ _ => ⟨_, _, takes_fetchAll rfl, .single rfl, _, rfl⟩

namespace Behaves

variable {C : Conduct}

theorem decode (hC : C.Composes) (read? : Row → Option α) (row : Row) :
    Behaves (Session.decode read? row : Session σ α) C := by
  unfold Session.decode
  cases read? row with
  | some a => exact pure hC a
  | none => exact fail hC _

theorem fetchAll (hC : C.Composes) (h : C.Admits q) :
    Behaves (Session.fetchAll read? q : Session σ (List α)) C :=
  bind hC (execute h) fun outcome => mapM hC (decode hC read?) outcome.toRows

theorem fetchFirst? (hC : C.Composes) (h : C.Admits q) :
    Behaves (Session.fetchFirst? read? q : Session σ (Option α)) C := by
  refine bind hC (execute h) fun outcome => ?_
  cases outcome.toRows with
  | nil => exact pure hC none
  | cons row rows => exact map hC some (decode hC read? row)

theorem countChanged (hC : C.Composes) (h : C.Admits q) :
    Behaves (Session.countChanged q : Session σ Nat) C := map hC Outcome.count (execute h)

end Behaves

namespace Obeys

variable {R : Rule}

theorem fetchAll (hR : R.Composes) (h : R.Admits q) :
    Obeys (Session.fetchAll read? q : Session σ (List α)) R := Behaves.fetchAll hR.conduct h

theorem countChanged (hR : R.Composes) (h : R.Admits q) :
    Obeys (Session.countChanged q : Session σ Nat) R := Behaves.countChanged hR.conduct h

end Obeys

end Session

/-! ### Inserting a record -/

namespace Store

open Session

/-- What a reply with rows, or a refusal, comes to. -/
inductive Reads (read? : Row → Option α) : Reply → Except Stop α → Prop
  | refused (r : Refusal) : Reads read? (.error r) (.error (.failed r.toError))
  | unreadable {outcome : Outcome} : Reply.isEmpty (.ok outcome) = false →
      Reads read? (.ok outcome) (.error (.failed (.storage .columnDecode)))
  | found {reply : Reply} {a : α} : reply.first? read? = some a → Reads read? reply (.ok a)

theorem Reads.isEmpty {read? : Row → Option α} {reply : Reply} {result : Except Stop α}
    (h : Reads read? reply result) : reply.isEmpty = false := by
  cases h with
  | refused r => rfl
  | unreadable hrows => exact hrows
  | found hfirst =>
    cases hempty : reply.isEmpty with
    | false => rfl
    | true =>
      rw [Reply.first?_of_isEmpty hempty] at hfirst
      cases hfirst

/-- What inserting a record says when it finds no row twice. -/
def insertFailure (table key : String) : String := s!"upsert of {table} '{key}' returned no row"

/-- The courses of inserting a record.  A reply without rows is followed by the same statement once
more, and a second reply without rows is the failure. -/
inductive Inserted (read? : Row → Option α) (q : Statement) (failure : BillingError) :
    Course α → Prop
  | once {reply : Reply} {result : Except Stop α} : Reads read? reply result →
      Inserted read? q failure ⟨[.statement q reply], result, id⟩
  | again {empty reply : Reply} {result : Except Stop α} : empty.isEmpty →
      Reads read? reply result →
      Inserted read? q failure ⟨[.statement q empty, .statement q reply], result, id⟩
  | givenUp {empty empty' : Reply} : empty.isEmpty → empty'.isEmpty →
      Inserted read? q failure
        ⟨[.statement q empty, .statement q empty'], .error (.failed failure), id⟩

/-- Inserting a record asks nothing but its statement. -/
theorem Inserted.mem_steps {read? : Row → Option α} {q : Statement} {failure : BillingError}
    {c : Course α} (h : Inserted read? q failure c) {e : Event} (he : e ∈ c.steps) :
    ∃ reply, e = .statement q reply := by
  cases h with
  | once _ => exact ⟨_, List.mem_singleton.1 he⟩
  | again _ _ | givenUp _ _ =>
    rcases List.mem_pair.1 he with rfl | rfl
    · exact ⟨_, rfl⟩
    · exact ⟨_, rfl⟩

/-- The record comes from a reply to the statement. -/
theorem Inserted.exists_first {read? : Row → Option α} {q : Statement} {failure : BillingError}
    {steps : List Event} {a : α} {g : ReportMetrics → ReportMetrics}
    (h : Inserted read? q failure ⟨steps, .ok a, g⟩) :
    ∃ reply : Reply, .statement q reply ∈ steps ∧ reply.first? read? = some a := by
  cases h with
  | once hreads =>
    cases hreads with
    | found hfirst => exact ⟨_, List.mem_singleton_self _, hfirst⟩
  | again _ hreads =>
    cases hreads with
    | found hfirst => exact ⟨_, by simp, hfirst⟩

/-- A reply has no rows, or it comes to a record or a stop. -/
theorem isEmpty_or_reads (read? : Row → Option α) (reply : Reply) :
    (reply.isEmpty ∧ reply.firstResult read? = .ok none) ∨
      ∃ result, Reads read? reply result ∧ reply.firstResult read? = result.map some := by
  rcases hresult : reply.firstResult read? with e | _ | a
  · refine .inr ⟨.error e, ?_, rfl⟩
    cases reply with
    | error r =>
      cases hresult
      exact .refused r
    | ok outcome =>
      have hrows : Reply.isEmpty (.ok outcome) = false := by
        refine Bool.eq_false_iff.2 fun hempty => ?_
        rw [Reply.firstResult_eq_none_iff.2 hempty] at hresult
        cases hresult
      simp only [Reply.firstResult] at hresult
      split at hresult
      · cases hresult
      · split at hresult
        · cases hresult
        · cases hresult
          exact .unreadable hrows
  · exact .inl ⟨Reply.firstResult_eq_none_iff.1 hresult, rfl⟩
  · exact .inr ⟨.ok a, .found (Reply.firstResult_eq_some_iff.1 hresult), rfl⟩

/-- Asking for a record, and going on with something else if the reply has no rows. -/
theorem conforms_orElse {read? : Row → Option α} {q : Statement} {k : Option α → Session σ α}
    {P : Course α → Prop} (hsome : ∀ a, k (some a) = pure a)
    (hreads : ∀ reply result, Reads read? reply result → P ⟨[.statement q reply], result, id⟩)
    (hnone : ∀ empty : Reply, empty.isEmpty →
      Conforms (k none) fun d => P (d.after [.statement q empty] id)) :
    Conforms (Session.fetchFirst? read? q >>= k) P := by
  refine (Conforms.fetchFirst? read? q).bind (fun _ a? _ hc => ?_) fun _ e _ hc => ?_
  · obtain ⟨reply, hc⟩ := hc
    rcases isEmpty_or_reads read? reply with ⟨hempty, hresult⟩ | ⟨e | a, hresult, hfirst⟩
    · rw [hresult] at hc
      cases hc
      exact hnone reply hempty
    · rw [hfirst] at hc
      cases hc
    · rw [hfirst] at hc
      cases hc
      rw [hsome]
      exact .pure (hreads reply _ hresult)
  · obtain ⟨reply, hc⟩ := hc
    rcases isEmpty_or_reads read? reply with ⟨-, hresult⟩ | ⟨e | a, hresult, hfirst⟩
    · rw [hresult] at hc
      cases hc
    · rw [hfirst] at hc
      cases hc
      exact hreads reply _ hresult
    · rw [hfirst] at hc
      cases hc

/-- **Inserting a record tries twice at most**, the second time only if the first reply has no
rows. -/
theorem conforms_insertOrSelect (read? : Row → Option α) (table key : String) (q : Statement) :
    Conforms (insertOrSelect read? table key q : Session σ α)
      (Inserted read? q (.internal (insertFailure table key))) := by
  refine conforms_orElse (fun _ => rfl) (fun _ _ => .once) fun empty hempty => ?_
  refine conforms_orElse (fun _ => rfl) (fun _ _ => .again hempty) fun empty' hempty' => ?_
  exact .stop (.givenUp hempty hempty')

variable {read? : Row → Option α} {q : Statement}

section Behaves

variable {C : Conduct}

theorem behaves_orFail (hC : C.Composes) (h : C.Admits q) {k : Option α → Session σ α}
    {e : BillingError} (hsome : ∀ a, k (some a) = pure a) (hnone : k none = Session.fail e) :
    Behaves (Session.fetchFirst? read? q >>= k) C := by
  refine .bind hC (.fetchFirst? hC h) fun a? => ?_
  cases a? with
  | some a => rw [hsome]; exact .pure hC a
  | none => rw [hnone]; exact .fail hC e

theorem behaves_fetchFirst (hC : C.Composes) (h : C.Admits q) :
    Behaves (Session.fetchFirst read? q : Session σ α) C :=
  behaves_orFail hC h (fun _ => rfl) rfl

theorem behaves_insertOrSelect (hC : C.Composes) (h : C.Admits q) (table key : String) :
    Behaves (insertOrSelect read? table key q : Session σ α) C := by
  refine .bind hC (.fetchFirst? hC h) fun a? => ?_
  cases a? with
  | some a => exact .pure hC a
  | none => exact behaves_orFail hC h (fun _ => rfl) rfl

end Behaves

section Obeys

variable {R : Rule}

theorem obeys_orFail (hR : R.Composes) (h : R.Admits q) {k : Option α → Session σ α}
    {e : BillingError} (hsome : ∀ a, k (some a) = pure a) (hnone : k none = Session.fail e) :
    Obeys (Session.fetchFirst? read? q >>= k) R := behaves_orFail hR.conduct h hsome hnone

theorem obeys_fetchFirst (hR : R.Composes) (h : R.Admits q) :
    Obeys (Session.fetchFirst read? q : Session σ α) R := behaves_fetchFirst hR.conduct h

theorem obeys_insertOrSelect (hR : R.Composes) (h : R.Admits q) (table key : String) :
    Obeys (insertOrSelect read? table key q : Session σ α) R :=
  behaves_insertOrSelect hR.conduct h table key

end Obeys

end Store

end UsageBilling
