import UsageBilling.Proofs.Call.Basic

/-!
# Refusals and empty replies

The database may refuse any statement, and it may answer the insert of a record without a row.

* `Surrenders` : the rule that a refusal is the last answer a call gets.  Only a rollback follows,
  and the call fails with the code of the refusal.
* `Persists` : the rule that an insert answered without rows is repeated once, and that the call
  fails when the repetition brings no row either.
* `Call.refusals_end_calls` : all calls follow both rules, whatever the outside answers.
-/

namespace UsageBilling

open Session

variable {σ : Type} {stop : Option Stop} {steps steps' : List Event}

/-- The refusal that answers a step. -/
def Event.refusal? : Event → Option Refusal
  | .control _ refusal => refusal
  | .statement _ (.error r) => some r
  | .statement _ (.ok _) | .rollback | .evaluation _ _ _ | .reconciliation _ _
  | .progress _ _ => none

/-- An insert that is answered without rows: what it says when that happens twice. -/
def Event.vain? : Event → Option String
  | .statement q reply => if reply.isEmpty then q.insertFailure? else none
  | .control _ _ | .rollback | .evaluation _ _ _ | .reconciliation _ _ | .progress _ _ => none

/-- The failure that aborted a range, or the failure itself if it is of another kind. -/
def BillingError.cause : BillingError → BillingError
  | .rangeAborted _ _ source => source.cause
  | e => e

/-- The insert of a record that a request consists of. -/
def Request.insert? : Request → Option Statement
  | .upsertTenant source => some (.upsertTenant source)
  | .upsertCategory source => some (.upsertCategory source)
  | .upsertHour bucket => some (.upsertHour bucket)
  | _ => none

theorem refusal?_statement {q : Statement} {reply : Reply} {r : Refusal} :
    (Event.statement q reply).refusal? = some r ↔ reply = .error r := by
  cases reply <;> simp [Event.refusal?]

theorem refusal?_of_isEmpty {q : Statement} {reply : Reply} (h : reply.isEmpty) :
    (Event.statement q reply).refusal? = none := by
  cases reply with
  | ok outcome => rfl
  | error r => cases h

theorem vain?_of_insert {q : Statement} {text : String} (h : q.insertFailure? = some text)
    (reply : Reply) :
    (Event.statement q reply).vain? = if reply.isEmpty then some text else none := by
  rw [Event.vain?, h]

theorem forall_append_rollback (h : ∀ later ∈ steps, later = .rollback) :
    ∀ later ∈ steps ++ [.rollback], later = Event.rollback :=
  List.forall_mem_append.2 ⟨h, List.forall_mem_singleton.2 rfl⟩

/-! ### Refusals -/

/-- Only rollbacks come after a refusal, and the call fails with its code. -/
inductive Surrenders (stop : Option Stop) : List Event → Prop
  | nil : Surrenders stop []
  | answered {e : Event} {rest : List Event} : e.refusal? = none → Surrenders stop rest →
      Surrenders stop (e :: rest)
  | refused {e : Event} {rest : List Event} {r : Refusal} {failure : BillingError} :
      e.refusal? = some r → (∀ later ∈ rest, later = .rollback) → stop = some (.failed failure) →
      failure.constraintCode = some r.code → Surrenders stop (e :: rest)

namespace Surrenders

theorem append (h : Surrenders none steps) (h' : Surrenders stop steps') :
    Surrenders stop (steps ++ steps') := by
  induction h with
  | nil => exact h'
  | answered he _ ih => exact .answered he ih
  | refused _ _ hstop _ => cases hstop

theorem rollback (h : Surrenders stop steps) : Surrenders stop (steps ++ [.rollback]) := by
  induction h with
  | nil => exact .answered rfl .nil
  | answered he _ ih => exact .answered he ih
  | refused he hrest hstop hcode => exact .refused he (forall_append_rollback hrest) hstop hcode

/-- An aborted range answers for the failure of its last hour. -/
theorem abort {e : Stop} (completed : Nat) (time : Timestamp) (h : Surrenders (some e) steps) :
    Surrenders (some (Report.abortRange completed time e)) steps := by
  induction h with
  | nil => exact .nil
  | answered he _ ih => exact .answered he ih
  | refused he hrest hstop hcode =>
    cases hstop
    exact .refused he hrest rfl hcode

/-- A single step that fails if it is refused. -/
theorem single {e : Event} (h : ∀ r, e.refusal? = some r → stop = some (.failed r.toError)) :
    Surrenders stop [e] := by
  cases he : e.refusal? with
  | none => exact .answered he .nil
  | some r => exact .refused he (by simp) (h r he) rfl

/-- What the rule says of a refusal anywhere among the steps. -/
theorem of_refusal {before after : List Event} {e : Event} {r : Refusal}
    (h : Surrenders stop (before ++ e :: after)) (he : e.refusal? = some r) :
    (∀ later ∈ after, later = .rollback) ∧
      ∃ failure, stop = some (.failed failure) ∧ failure.constraintCode = some r.code := by
  induction before with
  | nil =>
    cases h with
    | answered hnone _ => rw [he] at hnone; cases hnone
    | refused hsome hrest hstop hcode =>
      obtain rfl := Option.some.inj (he.symm.trans hsome)
      exact ⟨hrest, _, hstop, hcode⟩
  | cons first before ih =>
    cases h with
    | answered _ hrest => exact ih hrest
    | refused _ hrest _ _ =>
      -- what comes after a refusal is not refused itself
      have hrollback : e = .rollback := hrest e (by simp)
      rw [hrollback] at he
      cases he

/-- A call with a result was refused nothing. -/
theorem refusal?_eq_none (h : Surrenders none steps) : ∀ e ∈ steps, e.refusal? = none := by
  induction h with
  | nil => simp
  | answered he _ ih => exact List.forall_mem_cons.2 ⟨he, ih⟩
  | refused _ _ hstop _ => cases hstop

/-- The reply that decides an insert. -/
theorem of_reads {α : Type} {read? : Row → Option α} {q : Statement} {reply : Reply}
    {result : Except Stop α} (h : Store.Reads read? reply result) :
    Surrenders (Course.stop? ⟨[.statement q reply], result, id⟩) [.statement q reply] := by
  cases h with
  | refused r => exact .refused rfl (by simp) rfl rfl
  | unreadable _ => exact .answered rfl .nil
  | @found reply _ hfirst =>
    cases reply with
    | ok outcome => exact .answered rfl .nil
    | error r => cases hfirst

theorem universal : Rule.Universal Surrenders where
  nil := fun _ => .nil
  append := append
  admits := fun _ reply stop hstop => single fun r hr => hstop r (refusal?_statement.1 hr)
  inserted := by
    intro α read? q text c _ hc
    cases hc with
    | once hreads => exact of_reads hreads
    | again hempty hreads => exact .answered (refusal?_of_isEmpty hempty) (of_reads hreads)
    | givenUp hempty hempty' =>
      exact .answered (refusal?_of_isEmpty hempty) (.answered (refusal?_of_isEmpty hempty') .nil)
  evaluation := fun _ _ _ _ => .answered rfl .nil
  reconciliation := fun _ _ _ => .answered rfl .nil
  progress := fun _ _ => .answered rfl .nil
  control := fun _ _ _ hstop => single fun r hr => hstop r hr
  rollback := fun _ _ => rollback
  abort := fun _ completed time _ => abort completed time

end Surrenders

/-! ### Empty replies -/

/-- An insert answered without rows is repeated once.  When the repetition brings no row either,
only rollbacks come after it, and the call fails with what the insert says to that. -/
inductive Persists (stop : Option Stop) : List Event → Prop
  | nil : Persists stop []
  | other {e : Event} {rest : List Event} : e.vain? = none → Persists stop rest →
      Persists stop (e :: rest)
  | again {q : Statement} {text : String} {empty reply : Reply} {rest : List Event} :
      q.insertFailure? = some text → empty.isEmpty → reply.isEmpty = false → Persists stop rest →
      Persists stop (.statement q empty :: .statement q reply :: rest)
  | givenUp {q : Statement} {text : String} {empty empty' : Reply} {rest : List Event}
      {failure : BillingError} :
      q.insertFailure? = some text → empty.isEmpty → empty'.isEmpty →
      (∀ later ∈ rest, later = .rollback) → stop = some (.failed failure) →
      failure.cause = .internal text →
      Persists stop (.statement q empty :: .statement q empty' :: rest)

namespace Persists

theorem append (h : Persists none steps) (h' : Persists stop steps') :
    Persists stop (steps ++ steps') := by
  induction h with
  | nil => exact h'
  | other he _ ih => exact .other he ih
  | again hq hempty hreply _ ih => exact .again hq hempty hreply ih
  | givenUp _ _ _ _ hstop _ => cases hstop

theorem rollback (h : Persists stop steps) : Persists stop (steps ++ [.rollback]) := by
  induction h with
  | nil => exact .other rfl .nil
  | other he _ ih => exact .other he ih
  | again hq hempty hreply _ ih => exact .again hq hempty hreply ih
  | givenUp hq hempty hempty' hrest hstop hcause =>
    exact .givenUp hq hempty hempty' (forall_append_rollback hrest) hstop hcause

/-- An aborted range has the cause of the failure of its last hour. -/
theorem abort {e : Stop} (completed : Nat) (time : Timestamp) (h : Persists (some e) steps) :
    Persists (some (Report.abortRange completed time e)) steps := by
  induction h with
  | nil => exact .nil
  | other he _ ih => exact .other he ih
  | again hq hempty hreply _ ih => exact .again hq hempty hreply ih
  | givenUp hq hempty hempty' hrest hstop hcause =>
    cases hstop
    exact .givenUp hq hempty hempty' hrest rfl hcause

/-- Any step but an insert. -/
theorem single {e : Event} (h : e.vain? = none) : Persists stop [e] := .other h .nil

theorem universal : Rule.Universal Persists where
  nil := fun _ => .nil
  append := append
  admits := by
    intro q hq reply stop _
    refine single ?_
    rw [Event.vain?, hq, ite_self]
  inserted := by
    intro α read? q text c hq hc
    cases hc with
    | once hreads =>
      refine single ?_
      rw [vain?_of_insert hq, hreads.isEmpty]
      rfl
    | again hempty hreads => exact .again hq hempty hreads.isEmpty .nil
    | givenUp hempty hempty' => exact .givenUp hq hempty hempty' (by simp) rfl rfl
  evaluation := fun _ _ _ _ => single rfl
  reconciliation := fun _ _ _ => single rfl
  progress := fun _ _ => single rfl
  control := fun _ _ _ _ => single rfl
  rollback := fun _ _ => rollback
  abort := fun _ completed time _ => abort completed time

end Persists

/-! ### All calls -/

namespace Request

/-- A request that is an insert takes the courses of one. -/
theorem exists_inserted {r : Request} {q : Statement} (h : r.insert? = some q) :
    ∃ (read? : Row → Option r.Result) (text : String), q.insertFailure? = some text ∧
      Conforms (r.session : Session σ r.Result) (Store.Inserted read? q (.internal text)) := by
  cases r with
  | upsertTenant source =>
    obtain rfl := Option.some.inj h
    exact ⟨Tenant.ofRow?, _, rfl, Store.conforms_insertOrSelect Tenant.ofRow? "tenants" source _⟩
  | upsertCategory source =>
    obtain rfl := Option.some.inj h
    exact ⟨Category.ofRow?, _, rfl,
      Store.conforms_insertOrSelect Category.ofRow? "categories" source _⟩
  | upsertHour bucket =>
    obtain rfl := Option.some.inj h
    exact ⟨HourRecord.ofRow?, _, rfl,
      Store.conforms_insertOrSelect HourRecord.ofRow? "date_times" _ _⟩
  | _ => cases h

end Request

namespace Call

/-- **A refusal ends the call, an empty reply does not.**  Whatever the outside answers: after a
refused statement, of a transaction or not, a call takes no step but rollbacks, and it fails with
the code of the refusal.  An insert of a record that finds no row is repeated once, and the call
fails if it finds none again. -/
theorem refusals_end_calls (call : Call) (env : Environment σ) (s : σ) :
    ∃ c s', Takes env s call.session c s' ∧ env.Answers s c.steps s' ∧
      (∀ before e after r, c.steps = before ++ e :: after → e.refusal? = some r →
        (∀ later ∈ after, later = .rollback) ∧
          ∃ failure, c.result = .error (.failed failure) ∧
            failure.constraintCode = some r.code) ∧
      Persists c.stop? c.steps ∧
      ∀ r q, call = .request r → r.insert? = some q → ∃ text, q.insertFailure? = some text ∧
        ((∃ reply : Reply, reply.isEmpty = false ∧ c.steps = [.statement q reply]) ∨
          ∃ empty reply : Reply, empty.isEmpty ∧
            c.steps = [.statement q empty, .statement q reply] ∧
            (reply.isEmpty → c.result = .error (.failed (.internal text)))) := by
  obtain ⟨c, s', htakes, hanswers, hsurrenders⟩ := Surrenders.universal.obeys_call call env s
  have hpersists := ((Persists.universal.obeys_call call).of_takes htakes).2
  refine ⟨c, s', htakes, hanswers, ?_, hpersists, ?_⟩
  · intro before e after r hsteps he
    rw [hsteps] at hsurrenders
    obtain ⟨hafter, failure, hstop, hcode⟩ := hsurrenders.of_refusal he
    refine ⟨hafter, failure, ?_, hcode⟩
    unfold Course.stop? at hstop
    split at hstop
    · cases hstop
    · next heq => rw [heq, Option.some.inj hstop]
  · rintro r q rfl hinsert
    obtain ⟨read?, text, htext, hconforms⟩ := r.exists_inserted hinsert
    refine ⟨text, htext, ?_⟩
    cases (hconforms.of_takes htakes).2 with
    | once hreads => exact .inl ⟨_, hreads.isEmpty, rfl⟩
    | again hempty hreads =>
      refine .inr ⟨_, _, hempty, rfl, fun h => ?_⟩
      rw [hreads.isEmpty] at h
      cases h
    | givenUp hempty _ => exact .inr ⟨_, _, hempty, rfl, fun _ => rfl⟩

end Call

end UsageBilling
