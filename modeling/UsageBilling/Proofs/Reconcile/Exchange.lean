import UsageBilling.Proofs.Call.Basic
import UsageBilling.Proofs.Json.Record

/-!
# What is exchanged in a reconciliation

The categories are listed in a transaction, and then offered to the accounting system one after the
other.  An `Exchange` is what is said about one of them: the answer of the accounting system and,
if that is another target than the stored one, how the transaction that writes it goes.

* `Category.targetOf` : the target that a text stands for; the empty text stands for none.
* `Category.HasRow`, `Reconcile.Listed` : the row of a category, and what a reply to a listing comes
  to.
* `Reconcile.Writing` : the ways the writing of a target can go.
* `Reconcile.Exchange` : what is said about a category.  There is a writing just if the answer tells
  a new target (`Exchange.isSome_writing?_iff`).
* `Reconcile.Exchanged` : categories are gone through until the first failure.
* `Reconcile.categories_exchanges` : the steps and the result of a reconciliation, from what is said
  about each category.
-/

namespace UsageBilling

open Session

variable {σ : Type}

/-! ### Targets -/

namespace Category

/-- The target that a text stands for.  The empty text stands for none. -/
def targetOf (text : String) : Option String := if text = "" then none else some text

variable {c : Category} {answer : CategoryMapping} {target : Option String}

theorem changedTarget?_eq_none_iff :
    c.changedTarget? answer = none ↔ targetOf answer.target = c.target := by
  show (if targetOf answer.target = c.target then none else some (targetOf answer.target)) =
    none ↔ _
  split_ifs with h <;> simp [h]

theorem changedTarget?_eq_some_iff :
    c.changedTarget? answer = some target ↔
      targetOf answer.target ≠ c.target ∧ targetOf answer.target = target := by
  show (if targetOf answer.target = c.target then none else some (targetOf answer.target)) =
    some target ↔ _
  split_ifs with h <;> simp [h]

/-- A category is in the columns of a row, and no target is a null. -/
def HasRow (c : Category) (row : Row) : Prop :=
  row.lookup "id" = some (.uuid c.id) ∧ row.lookup "source" = some (.text c.source) ∧
    (row.lookup "target").getD .null = c.target.elim .null .text

theorem ofRow?_eq_some_iff {row : Row} : ofRow? row = some c ↔ c.HasRow row := by
  have hcell {column : String} {cell : Cell} (hcell : cell ≠ .null) :
      row.lookup column = some cell ↔ row.cell column = cell := by
    rw [Row.cell]
    cases row.lookup column <;> simp [hcell.symm]
  obtain ⟨id, source, target⟩ := c
  rw [HasRow, hcell (by simp), hcell (by simp), ← Row.cell]
  unfold ofRow?
  generalize row.cell "id" = idCell, row.cell "source" = sourceCell, row.cell "target" = targetCell
  cases idCell <;> simp [Cell.asUuid?]
  cases sourceCell <;> simp [Cell.asText?]
  cases target <;> cases targetCell <;> simp [Cell.nullable, Cell.asText?]

end Category

namespace Reconcile

/-! ### Writing a target -/

/-- The ways the transaction that gives a category a target can go. -/
inductive Writing where
  /-- There is no connection. -/
  | unavailable
  | notStarted (r : Refusal)
  | refused (r : Refusal)
  | notCommitted (outcome : Outcome) (r : Refusal)
  | committed (outcome : Outcome)

namespace Writing

variable (category : Uuid) (target : Option String)

def steps : Writing → List Event
  | unavailable => []
  | notStarted r => [.control .start (some r)]
  | refused r =>
    [.control .start none, .statement (.setCategoryTarget category target) (.error r), .rollback]
  | notCommitted outcome r =>
    [.control .start none, .statement (.setCategoryTarget category target) (.ok outcome),
      .control .commit (some r), .rollback]
  | committed outcome =>
    [.control .start none, .statement (.setCategoryTarget category target) (.ok outcome),
      .control .commit none]

/-- What a writing says that was not committed. -/
def failure? : Writing → Option BillingError
  | unavailable => some (.storage .unavailable)
  | notStarted r | refused r | notCommitted _ r => some (.storage (.database r.code r.message))
  | committed _ => none

/-- The number of changed rows, if it was committed. -/
def result : Writing → Except Stop Nat
  | unavailable => .error (.failed (.storage .unavailable))
  | notStarted r | refused r | notCommitted _ r =>
    .error (.failed (.storage (.database r.code r.message)))
  | committed outcome => .ok outcome.count

theorem failure?_eq_some_of_result {w : Writing} {e : Stop} (h : w.result = .error e) :
    ∃ failure, w.failure? = some failure ∧ e = .failed failure := by
  cases w with
  | committed outcome => cases h
  | _ =>
    cases h
    exact ⟨_, rfl, rfl⟩

theorem failure?_eq_none_of_result {w : Writing} {n : Nat} (h : w.result = .ok n) :
    w.failure? = none := by
  cases w with
  | committed outcome => rfl
  | _ => cases h

end Writing

/-- A target is written in one of these ways. -/
theorem conforms_write (category : Uuid) (target : Option String) :
    Conforms (transaction .readWrite (Store.setCategoryTarget category target) : Session σ Nat)
      fun c => ∃ w : Writing, c = ⟨w.steps category target, w.result, id⟩ := by
  have hbody : Conforms (Store.setCategoryTarget category target : Session σ Nat) fun c =>
      ∃ reply : Reply, c = ⟨[.statement (.setCategoryTarget category target) reply],
        (reply.mapError fun r => .failed r.toError).map Outcome.count, id⟩ := by
    refine ((Conforms.execute (.setCategoryTarget category target)).map Outcome.count).mono ?_
    rintro _ ⟨_, ⟨reply, rfl⟩, rfl⟩
    exact ⟨reply, rfl⟩
  refine hbody.transaction.mono fun c hc => ?_
  cases hc with
  | unavailable => exact ⟨.unavailable, rfl⟩
  | notStarted r => exact ⟨.notStarted r, rfl⟩
  | notRestricted _ haccess => cases haccess
  | rolledBack hc =>
    obtain ⟨r | _, hc⟩ := hc <;> cases hc
    exact ⟨.refused r, rfl⟩
  | notCommitted r hc =>
    obtain ⟨_ | outcome, hc⟩ := hc <;> cases hc
    exact ⟨.notCommitted outcome r, rfl⟩
  | committed hc =>
    obtain ⟨_ | outcome, hc⟩ := hc <;> cases hc
    exact ⟨.committed outcome, rfl⟩

/-! ### One category -/

/-- What is said about a category, from the offer to the end of its transaction if there is one. -/
inductive Exchange where
  /-- The accounting system has no answer. -/
  | unanswered (c : Category) (causes : List String)
  /-- It answers the target that is stored. -/
  | unchanged (c : Category) (answer : CategoryMapping)
      (same : Category.targetOf answer.target = c.target)
  | changed (c : Category) (answer : CategoryMapping)
      (new : Category.targetOf answer.target ≠ c.target) (w : Writing)

namespace Exchange

def category : Exchange → Category
  | unanswered c _ | unchanged c _ _ | changed c _ _ _ => c

def answer : Exchange → Reconciliation
  | unanswered _ causes => .error causes
  | unchanged _ answer _ | changed _ answer _ _ => .ok answer

/-- How the target was written, if that was attempted. -/
def writing? : Exchange → Option Writing
  | unanswered _ _ | unchanged _ _ _ => none
  | changed _ _ _ w => some w

/-- The category is offered with the target it has, and the empty text if it has none. -/
def steps : Exchange → List Event
  | unanswered c causes => [.reconciliation ⟨c.source, c.target.getD ""⟩ (.error causes)]
  | unchanged c answer _ => [.reconciliation ⟨c.source, c.target.getD ""⟩ (.ok answer)]
  | changed c answer _ w =>
    .reconciliation ⟨c.source, c.target.getD ""⟩ (.ok answer) ::
      w.steps c.id (Category.targetOf answer.target)

/-- Why nothing comes after it: all the causes behind the source of the category, or what the
database says. -/
def failure? : Exchange → Option BillingError
  | unanswered c causes =>
    some (.reconciler ("category '" ++ c.source ++ "': " ++ ": ".intercalate causes))
  | unchanged _ _ _ => none
  | changed _ _ _ w => w.failure?

/-- A target is written just if the answer tells another one than the stored one. -/
theorem isSome_writing?_iff (x : Exchange) : x.writing?.isSome ↔
    ∃ answer, x.answer = .ok answer ∧ Category.targetOf answer.target ≠ x.category.target := by
  cases x with
  | unanswered c causes => simp [writing?, answer]
  | unchanged c answer same => simp [writing?, Exchange.answer, category, same]
  | changed c answer new w => simp [writing?, Exchange.answer, category, new]

/-- It goes on after an answer that told nothing new or was written. -/
theorem failure?_eq_none_iff (x : Exchange) : x.failure? = none ↔
    (∃ answer, x.answer = .ok answer) ∧ ∀ w ∈ x.writing?, w.failure? = none := by
  cases x <;> simp [failure?, answer, writing?]

end Exchange

/-! ### Category after category -/

/-- Categories are gone through in order until the first failure. -/
inductive Exchanged : List Category → List Exchange → Option BillingError → Prop
  | done : Exchanged [] [] none
  | failed {x : Exchange} {e : BillingError} (rest : List Category) :
      x.failure? = some e → Exchanged (x.category :: rest) [x] (some e)
  | next {x : Exchange} {cs : List Category} {xs : List Exchange} {stop : Option BillingError} :
      x.failure? = none → Exchanged cs xs stop → Exchanged (x.category :: cs) (x :: xs) stop

namespace Exchanged

variable {cs : List Category} {xs : List Exchange} {stop : Option BillingError}

/-- Categories are offered in the order in which they are listed. -/
theorem map_category_prefix (h : Exchanged cs xs stop) : xs.map Exchange.category <+: cs := by
  induction h with
  | done => exact List.prefix_refl []
  | failed rest _ => exact ⟨rest, rfl⟩
  | next _ _ ih => exact List.cons_prefix_cons.2 ⟨rfl, ih⟩

/-- A category is offered as long as nothing failed for the ones before it. -/
theorem lt_length_iff (h : Exchanged cs xs stop) {i : Nat} (hi : i < cs.length) :
    i < xs.length ↔ ∀ x ∈ xs.take i, x.failure? = none := by
  induction h generalizing i with
  | done => cases hi
  | failed rest hx =>
    cases i with
    | zero => simp
    | succ i => simp [hx]
  | next hx _ ih =>
    cases i with
    | zero => simp
    | succ i => simpa [hx] using ih (Nat.lt_of_succ_lt_succ hi)

/-- A target is written if everything before was answered and, where that was needed, written, and
if the answer tells a new one. -/
theorem exists_writing_iff (h : Exchanged cs xs stop) {i : Nat} (hi : i < cs.length) :
    (∃ x ∈ xs[i]?, x.writing?.isSome) ↔
      (∀ x ∈ xs.take i,
        (∃ answer, x.answer = .ok answer) ∧ ∀ w ∈ x.writing?, w.failure? = none) ∧
      ∃ x ∈ xs[i]?, ∃ answer, x.answer = .ok answer ∧
        Category.targetOf answer.target ≠ x.category.target := by
  simp only [Exchange.isSome_writing?_iff, ← Exchange.failure?_eq_none_iff]
  refine ⟨fun hx => ⟨?_, hx⟩, And.right⟩
  obtain ⟨x, hget, -⟩ := hx
  obtain ⟨hlt, -⟩ := List.getElem?_eq_some_iff.1 hget
  exact (h.lt_length_iff hi).1 hlt

/-- Without a failure all categories are gone through. -/
theorem map_category_eq (h : Exchanged cs xs stop) (hxs : ∀ x ∈ xs, x.failure? = none) :
    xs.map Exchange.category = cs := by
  induction h with
  | done => rfl
  | failed rest hx => simp [hx] at hxs
  | next _ _ ih => rw [List.map_cons, ih (List.forall_mem_cons.1 hxs).2]

/-- The failure is that of the last category that was offered, and there is none before. -/
theorem findSome?_failure? (h : Exchanged cs xs stop) : xs.findSome? Exchange.failure? = stop := by
  induction h with
  | done => rfl
  | failed rest hx => simp [hx]
  | next hx _ ih => simpa [hx] using ih

end Exchanged

/-- The number of writings, unless there is a failure. -/
def tally (xs : List Exchange) : Option BillingError → Except Stop Nat
  | some e => .error (.failed e)
  | none => .ok (xs.countP fun x => x.writing?.isSome)

theorem tally_unchanged {x : Exchange} (h : x.writing? = none) (xs : List Exchange)
    (stop : Option BillingError) : tally (x :: xs) stop = tally xs stop := by
  cases stop <;> simp [tally, h]

theorem tally_changed {x : Exchange} {w : Writing} (h : x.writing? = some w) (xs : List Exchange)
    (stop : Option BillingError) : tally (x :: xs) stop = (tally xs stop).map (· + 1) := by
  cases stop <;> simp [tally, h, Except.map]

/-- **Going through categories takes the steps of the exchanges about them.** -/
theorem conforms_each (cs : List Category) :
    Conforms (each cs : Session σ Nat) fun c => ∃ xs stop, Exchanged cs xs stop ∧
      c = ⟨xs.flatMap Exchange.steps, tally xs stop, id⟩ := by
  induction cs with
  | nil => exact .pure ⟨[], none, .done, rfl⟩
  | cons c rest ih =>
    refine (conforms_offer c).bind ?_ ?_
    · rintro _ answer _ ⟨_ | _, hc⟩ <;> cases hc
      cases hchanged : c.changedTarget? answer with
      | none =>
        have same := Category.changedTarget?_eq_none_iff.1 hchanged
        refine ih.mono ?_
        rintro _ ⟨xs, stop, hxs, rfl⟩
        refine ⟨_, stop, .next (x := .unchanged c answer same) rfl hxs, ?_⟩
        rw [tally_unchanged rfl]
        rfl
      | some target =>
        obtain ⟨new, rfl⟩ := Category.changedTarget?_eq_some_iff.1 hchanged
        refine (conforms_write c.id _).bind ?_ ?_
        · rintro _ n _ ⟨w, hw⟩
          simp only [Course.mk.injEq] at hw
          obtain ⟨rfl, hresult, rfl⟩ := hw
          have hfailure := Writing.failure?_eq_none_of_result hresult.symm
          refine (ih.map (· + 1)).mono ?_
          rintro _ ⟨_, ⟨xs, stop, hxs, rfl⟩, rfl⟩
          refine ⟨_, stop, .next (x := .changed c answer new w) hfailure hxs, ?_⟩
          rw [tally_changed rfl]
          simp [Course.after, Exchange.steps, Category.mapping]
        · rintro _ e _ ⟨w, hw⟩
          simp only [Course.mk.injEq] at hw
          obtain ⟨rfl, hresult, rfl⟩ := hw
          obtain ⟨failure, hfailure, rfl⟩ := Writing.failure?_eq_some_of_result hresult.symm
          refine ⟨_, _, .failed (x := .changed c answer new w) rest hfailure, ?_⟩
          simp [Course.after, Exchange.steps, Category.mapping, tally]
    · rintro _ e _ ⟨causes | _, hc⟩ <;> cases hc
      exact ⟨_, _, .failed (x := .unanswered c causes) rest rfl, rfl⟩

/-! ### All categories -/

/-- What a reply to a listing comes to.  It is read if all of its rows are those of categories; a bare
count has no rows. -/
inductive Listed : Reply → Except Stop (List Category) → Prop
  | refused (r : Refusal) :
      Listed (.error r) (.error (.failed (.storage (.database r.code r.message))))
  | counted (n : Nat) : Listed (.ok (.affected n)) (.ok [])
  | read {rows : List Row} {all : List Category} :
      List.Forall₂ (fun row c => c.HasRow row) rows all → Listed (.ok (.rows rows)) (.ok all)
  | unreadable {rows : List Row} :
      (∀ all : List Category, ¬ List.Forall₂ (fun row c => c.HasRow row) rows all) →
      Listed (.ok (.rows rows)) (.error (.failed (.storage .columnDecode)))

theorem forall₂_hasRow_iff {rows : List Row} {all : List Category} :
    List.Forall₂ (fun row c => c.HasRow row) rows all ↔ rows.mapM Category.ofRow? = some all := by
  simp only [Json.mapM_eq_some_iff, Category.ofRow?_eq_some_iff]

theorem listed_allResult (reply : Reply) : Listed reply (reply.allResult Category.ofRow?) := by
  rcases reply with r | rows | n
  · exact .refused r
  · rw [Reply.allResult, Outcome.toRows]
    cases hall : rows.mapM Category.ofRow? with
    | some all => exact .read (forall₂_hasRow_iff.2 hall)
    | none =>
      refine .unreadable fun all hrows => ?_
      rw [forall₂_hasRow_iff, hall] at hrows
      cases hrows
  · exact .counted n

theorem Listed.exists_outcome {reply : Reply} {all : List Category} (h : Listed reply (.ok all)) :
    ∃ outcome, reply = .ok outcome ∧ outcome.toRows.mapM Category.ofRow? = some all := by
  cases h with
  | counted n => exact ⟨.affected n, rfl, rfl⟩
  | read hrows => exact ⟨.rows _, rfl, forall₂_hasRow_iff.1 hrows⟩

/-- The courses of listing the categories. -/
def Listing (c : Course (List Category)) : Prop :=
  ∃ reply result, Listed reply result ∧ c = ⟨[.statement .listCategories reply], result, id⟩

theorem conforms_listing :
    Conforms (transaction .readOnly (Store.listCategories : Session σ (List Category)))
      (Surrounded .readOnly Listing) := by
  refine Conforms.transaction ((Conforms.fetchAll Category.ofRow? .listCategories).mono ?_)
  rintro _ ⟨reply, rfl⟩
  exact ⟨reply, _, listed_allResult reply, rfl⟩

/-- What a reconciliation results in. -/
def summary (all : List Category) (xs : List Exchange) : Except Stop ReconcileSummary :=
  match xs.findSome? Exchange.failure? with
  | some e => .error (.failed e)
  | none => .ok ⟨all.length, xs.countP fun x => x.writing?.isSome⟩

theorem summary_eq_ok_iff {all : List Category} {xs : List Exchange} {r : ReconcileSummary} :
    summary all xs = .ok r ↔ (∀ x ∈ xs, x.failure? = none) ∧
      r = ⟨all.length, xs.countP fun x => x.writing?.isSome⟩ := by
  rw [← List.findSome?_eq_none_iff, summary]
  cases xs.findSome? Exchange.failure? with
  | none => simp [eq_comm]
  | some e => simp

theorem Exchanged.summary_eq {cs : List Category} {xs : List Exchange} {stop : Option BillingError}
    (h : Exchanged cs xs stop) (all : List Category) :
    summary all xs = (tally xs stop).map fun n => ⟨all.length, n⟩ := by
  rw [summary, h.findSome?_failure?]
  cases stop <;> rfl

/-- A reconciliation is a listing, and then an exchange about each category until the first
failure. -/
theorem conforms_categories :
    Conforms (categories : Session σ ReconcileSummary) fun c =>
      (∃ d e, Surrounded .readOnly Listing d ∧ d.result = .error e ∧ c = ⟨d.steps, .error e, id⟩) ∨
        ∃ reply all xs stop, Listed reply (.ok all) ∧ Exchanged all xs stop ∧
          c = ⟨opening .readOnly ++ [.statement .listCategories reply, .control .commit none] ++
            xs.flatMap Exchange.steps, summary all xs, id⟩ := by
  refine conforms_listing.bind ?_ ?_
  · intro _ all _ hc
    cases hc with
    | committed hd =>
      obtain ⟨reply, result, hlisted, hd⟩ := hd
      simp only [Course.mk.injEq] at hd
      obtain ⟨rfl, rfl, rfl⟩ := hd
      rw [bind_pure_comp]
      refine ((conforms_each all).map _).mono ?_
      rintro _ ⟨_, ⟨xs, stop, hxs, rfl⟩, rfl⟩
      refine .inr ⟨reply, all, xs, stop, hlisted, hxs, ?_⟩
      rw [hxs.summary_eq]
      simp [Course.after]
  · intro steps e g hc
    have hg : g = id := by
      cases hc with
      | rolledBack hd | notCommitted _ hd =>
        obtain ⟨_, _, -, hd⟩ := hd
        exact congrArg Course.measured hd
      | _ => rfl
    exact .inl ⟨_, e, hc, rfl, by rw [hg]⟩

end Reconcile

end UsageBilling
