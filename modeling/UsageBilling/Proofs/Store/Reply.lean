import UsageBilling.Proofs.Session.Outcome
import UsageBilling.Store.Catalog
import UsageBilling.Store.Dimension

/-!
# Records in the replies of the database

What the functions of the store ask and what they take from the replies.

* `Store.Found read? q a steps` : the statement `q` once, and the first row of the reply is the
  record `a`.
* `Store.Settled read? q a steps` : the same, possibly after one reply to `q` without rows.

A lookup and the writing of a fact yield `Found`; the record of a dimension is `Settled`.
-/

namespace UsageBilling

variable {σ α : Type}

/-! ### Replies -/

/-- The record in the first row of a reply. -/
def Reply.first? (read? : Row → Option α) : Reply → Option α
  | .ok outcome => outcome.toRows.head?.bind read?
  | .error _ => none

/-- The records in the rows of a reply, if every row is one. -/
def Reply.all? (read? : Row → Option α) : Reply → Option (List α)
  | .ok outcome => outcome.toRows.mapM read?
  | .error _ => none

/-- A reply without rows. -/
def Reply.isEmpty : Reply → Bool
  | .ok outcome => outcome.toRows.isEmpty
  | .error _ => false

namespace Session

theorem Yields.decode {read? : Row → Option α} {row : Row} :
    Yields (Session.decode read? row : Session σ α) fun a steps =>
      read? row = some a ∧ steps = [] := by
  unfold Session.decode
  cases h : read? row with
  | some a => exact .pure ⟨rfl, rfl⟩
  | none => exact .fail

theorem Plain.decode (read? : Row → Option α) (row : Row) :
    Plain (Session.decode read? row : Session σ α) := by
  unfold Session.decode
  cases read? row with
  | some a => exact .pure a
  | none => exact .fail _

/-- Decoding takes no step of its own. -/
theorem Yields.mapM_decode {read? : Row → Option α} (rows : List Row) :
    Yields (rows.mapM (Session.decode read?) : Session σ (List α)) fun as steps =>
      rows.mapM read? = some as ∧ steps = [] := by
  induction rows with
  | nil => exact .pure ⟨rfl, rfl⟩
  | cons row rows ih =>
    rw [List.mapM_cons]
    refine Yields.decode.bind ?_
    rintro a _ ⟨ha, rfl⟩
    refine ih.bind ?_
    rintro as _ ⟨has, rfl⟩
    exact .pure ⟨by simp [List.mapM_cons, ha, has], rfl⟩

theorem Yields.fetchAll {read? : Row → Option α} {q : Statement} :
    Yields (Session.fetchAll read? q : Session σ (List α)) fun as steps =>
      ∃ reply, Reply.all? read? reply = some as ∧ steps = [.statement q reply] := by
  refine Yields.execute.bind ?_
  rintro outcome _ rfl
  refine (Yields.mapM_decode outcome.toRows).mono ?_
  rintro as _ ⟨has, rfl⟩
  exact ⟨.ok outcome, has, rfl⟩

theorem Plain.fetchAll (read? : Row → Option α) (q : Statement) :
    Plain (Session.fetchAll read? q : Session σ (List α)) :=
  .bind (.execute q) fun outcome => .mapM (.decode read?) outcome.toRows

theorem Yields.fetchFirst? {read? : Row → Option α} {q : Statement} :
    Yields (Session.fetchFirst? read? q : Session σ (Option α)) fun a? steps =>
      ∃ reply, steps = [.statement q reply] ∧
        match a? with
        | some a => Reply.first? read? reply = some a
        | none => Reply.isEmpty reply := by
  refine Yields.execute.bind ?_
  rintro outcome _ rfl
  cases h : outcome.toRows with
  | nil => exact .pure ⟨.ok outcome, rfl, by simp [Reply.isEmpty, h]⟩
  | cons row rows =>
    simp only [map_eq_pure_bind]
    refine Yields.decode.bind ?_
    rintro a _ ⟨ha, rfl⟩
    exact .pure ⟨.ok outcome, rfl, by simp [Reply.first?, h, ha]⟩

theorem Plain.fetchFirst? (read? : Row → Option α) (q : Statement) :
    Plain (Session.fetchFirst? read? q : Session σ (Option α)) := by
  refine .bind (.execute q) fun outcome => ?_
  cases outcome.toRows with
  | nil => exact .pure none
  | cons row rows => exact .map some (.decode read? row)

end Session

/-! ### Single records -/

namespace Store

open Session

/-- The statement once, and its reply starts with the record `a`. -/
def Found (read? : Row → Option α) (q : Statement) (a : α) (steps : List Event) : Prop :=
  ∃ reply, Reply.first? read? reply = some a ∧ steps = [.statement q reply]

/-- The statement once, or a second time after a reply without rows, and the last reply starts with
the record `a`. -/
def Settled (read? : Row → Option α) (q : Statement) (a : α) (steps : List Event) : Prop :=
  Found read? q a steps ∨
    ∃ reply again, Reply.isEmpty reply ∧ Found read? q a again ∧
      steps = .statement q reply :: again

/-- Demanding the first record: the statement once, and a failure for want of rows. -/
theorem yields_orFail {read? : Row → Option α} {q : Statement} {k : Option α → Session σ α}
    {e : BillingError} (hsome : ∀ a, k (some a) = pure a) (hnone : k none = Session.fail e) :
    Yields (Session.fetchFirst? read? q >>= k) (Found read? q) := by
  refine Yields.fetchFirst?.bind ?_
  rintro (_ | a) _ ⟨reply, rfl, hreply⟩
  · rw [hnone]
    exact .fail
  · rw [hsome]
    exact .pure ⟨reply, hreply, rfl⟩

theorem plain_orFail {read? : Row → Option α} {q : Statement} {k : Option α → Session σ α}
    {e : BillingError} (hsome : ∀ a, k (some a) = pure a) (hnone : k none = Session.fail e) :
    Plain (Session.fetchFirst? read? q >>= k) := by
  refine .bind (.fetchFirst? read? q) fun a? => ?_
  cases a? with
  | some a => rw [hsome]; exact .pure a
  | none => rw [hnone]; exact .fail e

theorem yields_insertOrSelect {read? : Row → Option α} {table key : String} {q : Statement} :
    Yields (insertOrSelect read? table key q : Session σ α) (Settled read? q) := by
  refine Yields.fetchFirst?.bind ?_
  rintro (_ | a) _ ⟨reply, rfl, hreply⟩
  · refine (yields_orFail (fun _ => rfl) rfl).mono ?_
    rintro a again hagain
    exact .inr ⟨reply, again, hreply, hagain, rfl⟩
  · exact .pure (.inl ⟨reply, hreply, rfl⟩)

theorem plain_insertOrSelect (read? : Row → Option α) (table key : String) (q : Statement) :
    Plain (insertOrSelect read? table key q : Session σ α) := by
  refine .bind (.fetchFirst? read? q) fun a? => ?_
  cases a? with
  | some a => exact .pure a
  | none => exact plain_orFail (fun _ => rfl) rfl

theorem yields_findQuery {name : String} {time : Timestamp} :
    Yields (findQuery name time : Session σ Query)
      (Found Query.ofRow? (.findQuery name time)) :=
  yields_orFail (fun _ => rfl) rfl

theorem yields_subQueries {parent : Uuid} {time : Timestamp} :
    Yields (subQueries parent time : Session σ (List Query)) fun below steps =>
      ∃ reply, Reply.all? Query.ofRow? reply = some below ∧
        steps = [.statement (.subQueries parent time) reply] := Yields.fetchAll

theorem yields_findRecord {read? : Row → Option α} {table : CatalogTable} {keys : List String}
    {time : Timestamp} :
    Yields (findRecord read? table keys time : Session σ α)
      (Found read? (.findRecord table keys time)) := yields_orFail (fun _ => rfl) rfl

theorem yields_upsertFact {key : FactKey} {quantity : Float} :
    Yields (upsertFact key quantity : Session σ Fact)
      (Found Fact.ofRow? (.upsertFact key quantity)) := yields_orFail (fun _ => rfl) rfl

theorem plain_findQuery (name : String) (time : Timestamp) :
    Plain (findQuery name time : Session σ Query) :=
  plain_orFail (fun _ => rfl) rfl

theorem plain_findRecord (read? : Row → Option α) (table : CatalogTable) (keys : List String)
    (time : Timestamp) : Plain (findRecord read? table keys time : Session σ α) :=
  plain_orFail (fun _ => rfl) rfl

theorem plain_upsertFact (key : FactKey) (quantity : Float) :
    Plain (upsertFact key quantity : Session σ Fact) := plain_orFail (fun _ => rfl) rfl

end Store

end UsageBilling
