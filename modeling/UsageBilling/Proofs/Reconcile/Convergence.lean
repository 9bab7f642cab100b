import Mathlib.Data.List.Nodup
import UsageBilling.Proofs.Reconcile.CategoryStore
import UsageBilling.Proofs.Reconcile.Exchange

/-!
# Reconciling again and again

Every reconciliation of a `CategoryStore` brings some targets to what the accounting system has for
them and leaves the rest, wherever it stops.

* `Reconcile.Round` : what a reconciliation of a table says, however it ends.
* `Reconcile.Steered` : each target is the one at the beginning, or was written once and is the one
  that the accounting system has.
* `Reconcile.History` : reconciliations one after the other.
* `Reconcile.converges` : the tables of any number of reconciliations are steered; from the first
  with a result on, all targets are settled and none is written.
-/

namespace UsageBilling

open Session

variable {σ : Type}

/-- The target is the one that the accounting system has for the source. -/
def Category.Settled (goal : String → String) (c : Category) : Prop :=
  c.target = targetOf (goal c.source)

/-! ### One reconciliation -/

namespace Reconcile

/-- The target that was written with a commit. -/
def Exchange.written? : Exchange → Option TargetWrite
  | changed c answer _ (.committed _) => some (c.id, Category.targetOf answer.target)
  | unanswered _ _ | unchanged _ _ _ | changed _ _ _ _ => none

/-- A step that asks for a target to be written. -/
def SetsTarget (e : Event) : Prop :=
  ∃ category target reply, e = .statement (.setCategoryTarget category target) reply

namespace Exchange

/-- Its steps are in place and commit what was written. -/
theorem exists_opened (x : Exchange) (written : Option (List TargetWrite)) : ∃ written',
    ∀ rest, (Orderly written' rest → Orderly written (x.steps ++ rest)) ∧
      targetsFrom written (x.steps ++ rest) =
        x.written?.toList ++ targetsFrom written' rest := by
  cases x with
  | unanswered c causes => exact ⟨_, fun rest => ⟨fun h => ⟨trivial, h⟩, rfl⟩⟩
  | unchanged c answer same => exact ⟨_, fun rest => ⟨fun h => ⟨trivial, h⟩, rfl⟩⟩
  | changed c answer new w =>
    cases w with
    | unavailable => exact ⟨_, fun rest => ⟨fun h => ⟨trivial, h⟩, rfl⟩⟩
    | notStarted r => exact ⟨_, fun rest => ⟨fun h => ⟨trivial, trivial, h⟩, rfl⟩⟩
    | refused r => exact ⟨_, fun rest => ⟨fun h => ⟨trivial, trivial, trivial, trivial, h⟩, rfl⟩⟩
    | notCommitted outcome r =>
      exact ⟨_, fun rest => ⟨fun h => ⟨trivial, trivial, trivial, trivial, trivial, h⟩, rfl⟩⟩
    | committed outcome =>
      exact ⟨_, fun rest => ⟨fun h => ⟨trivial, trivial, trivial, rfl, h⟩, rfl⟩⟩

theorem orderly_and_committed (xs : List Exchange) (written : Option (List TargetWrite)) :
    Orderly written (xs.flatMap steps) ∧
      targetsFrom written (xs.flatMap steps) = xs.filterMap written? := by
  induction xs generalizing written with
  | nil => exact ⟨trivial, rfl⟩
  | cons x xs ih =>
    obtain ⟨written', hsteps⟩ := x.exists_opened written
    obtain ⟨horderly, hcommitted⟩ := hsteps (xs.flatMap steps)
    refine ⟨horderly (ih written').1, ?_⟩
    rw [List.flatMap_cons, hcommitted, (ih written').2]
    cases hx : x.written? <;> simp [hx]

/-- A target is asked to be written only where that is attempted. -/
theorem isSome_writing?_of_setsTarget {x : Exchange} {e : Event} (he : e ∈ x.steps)
    (hset : SetsTarget e) : x.writing?.isSome := by
  obtain ⟨category, target, reply, rfl⟩ := hset
  cases x with
  | unanswered c causes => simp [steps] at he
  | unchanged c answer same => simp [steps] at he
  | changed c answer new w => rfl

theorem of_written? {x : Exchange} {write : TargetWrite} (h : x.written? = some write) :
    ∃ answer, x.answer = .ok answer ∧ Category.targetOf answer.target ≠ x.category.target ∧
      write = (x.category.id, Category.targetOf answer.target) := by
  cases x with
  | unanswered c causes => cases h
  | unchanged c answer same => cases h
  | changed c answer new w =>
    cases w with
    | committed outcome => exact ⟨answer, rfl, new, (Option.some.inj h).symm⟩
    | _ => cases h

/-- Without a failure the answer is stored, before or now. -/
theorem stored_or_written? {x : Exchange} (h : x.failure? = none) :
    ∃ answer, x.answer = .ok answer ∧ (Category.targetOf answer.target = x.category.target ∨
      x.written? = some (x.category.id, Category.targetOf answer.target)) := by
  cases x with
  | unanswered c causes => cases h
  | unchanged c answer same => exact ⟨answer, rfl, .inl same⟩
  | changed c answer new w =>
    cases w with
    | committed outcome => exact ⟨answer, rfl, .inr rfl⟩
    | _ => cases h

theorem reconciliation_mem_steps (x : Exchange) :
    .reconciliation x.category.mapping x.answer ∈ x.steps := by
  cases x <;> simp [steps, category, Exchange.answer, Category.mapping]

end Exchange

/-- What a reconciliation of a table says, with an exchange about each of the first categories. -/
structure Round (goal : String → String) (table : List Category) (c : Course ReconcileSummary)
    (xs : List Exchange) : Prop where
  orderly : Orderly none c.steps
  committed : committedTargets c.steps = xs.filterMap Exchange.written?
  listed : xs.map Exchange.category <+: table
  told : ∀ x ∈ xs, ∀ answer, x.answer = .ok answer → answer.target = goal x.category.source
  writes : ∀ e ∈ c.steps, SetsTarget e → ∃ x ∈ xs, x.writing?.isSome
  complete : ∀ summary, c.result = .ok summary → xs.map Exchange.category = table ∧
    (∀ x ∈ xs, x.failure? = none) ∧ summary.updated = xs.countP fun x => x.writing?.isSome

/-- A listing that fails is in place, commits nothing and writes nothing. -/
theorem orderly_of_listing {d : Course (List Category)} {e : Stop}
    (h : Surrounded .readOnly Listing d) (herror : d.result = .error e) :
    Orderly none d.steps ∧ committedTargets d.steps = [] ∧ ∀ e ∈ d.steps, ¬ SetsTarget e := by
  cases h with
  | unavailable => exact ⟨trivial, rfl, by simp⟩
  | notStarted r => exact ⟨⟨trivial, trivial⟩, rfl, by simp [SetsTarget]⟩
  | notRestricted r => exact ⟨⟨trivial, trivial, trivial, trivial⟩, rfl, by simp [SetsTarget]⟩
  | rolledBack hd =>
    obtain ⟨reply, result, -, hd⟩ := hd
    obtain rfl := congrArg Course.steps hd
    exact ⟨⟨trivial, trivial, trivial, trivial, trivial⟩, rfl, by simp [SetsTarget, opening]⟩
  | notCommitted r hd =>
    obtain ⟨reply, result, -, hd⟩ := hd
    obtain rfl := congrArg Course.steps hd
    exact ⟨⟨trivial, trivial, trivial, trivial, trivial, trivial⟩, rfl,
      by simp [SetsTarget, opening]⟩
  | committed => cases herror

/-- A listing brings the rows of the table. -/
theorem listed_eq_table {store : CategoryStore σ} {s s' : σ} {outcome : Outcome}
    {steps : List Event}
    (h : store.Answers s (.control .start none :: .control .readOnly none ::
      .statement .listCategories (.ok outcome) :: steps) s') :
    outcome.toRows.mapM Category.ofRow? = some (store.table s) := by
  cases h with
  | cons hstart h =>
    cases h with
    | cons hreadOnly h =>
      cases h with
      | cons hlist _ =>
        obtain ⟨hstarted, hnone⟩ := store.started hstart
        obtain ⟨hrestricted, hpending⟩ := store.restricted hreadOnly
        rw [← hstarted, ← hrestricted]
        exact (store.listed hlist).2.2 (hpending.trans hnone)

/-- **A reconciliation is a round**, however it ends. -/
theorem exists_round {store : CategoryStore σ} {s s' : σ} {c : Course ReconcileSummary}
    (h : Takes store.toEnvironment s categories c s') :
    ∃ xs, Round store.goal (store.table s) c xs := by
  obtain ⟨hanswers, hc⟩ := conforms_categories.of_takes h
  rcases hc with ⟨d, e, hd, herror, rfl⟩ | ⟨reply, all, xs, stop, hlisted, hxs, rfl⟩
  · obtain ⟨horderly, hcommitted, hwrites⟩ := orderly_of_listing hd herror
    exact ⟨[], horderly, hcommitted, List.nil_prefix, by simp,
      fun e he hset => absurd hset (hwrites e he), by simp⟩
  · obtain ⟨outcome, rfl, hall⟩ := hlisted.exists_outcome
    have htable : all = store.table s :=
      Option.some.inj (hall.symm.trans (listed_eq_table hanswers))
    obtain ⟨horderly, hcommitted⟩ := Exchange.orderly_and_committed xs none
    refine ⟨xs, ⟨trivial, trivial, trivial, rfl, horderly⟩, hcommitted,
      htable ▸ hxs.map_category_prefix, ?_, ?_, ?_⟩
    · intro x hx answer hanswer
      have hmem := x.reconciliation_mem_steps
      rw [hanswer] at hmem
      exact store.told_of_answers hanswers
        (List.mem_append_right _ (List.mem_flatMap.2 ⟨x, hx, hmem⟩))
    · intro e he hset
      rcases List.mem_append.1 he with he | he
      · obtain ⟨category, target, reply, rfl⟩ := hset
        simp [opening] at he
      · obtain ⟨x, hx, he⟩ := List.mem_flatMap.1 he
        exact ⟨x, hx, Exchange.isSome_writing?_of_setsTarget he hset⟩
    · intro r hr
      obtain ⟨hnone, rfl⟩ := summary_eq_ok_iff.1 hr
      exact ⟨(hxs.map_category_eq hnone).trans htable, hnone, rfl⟩

/-! ### Steered tables -/

/-- Each target is the one at the beginning, or was written once and is the one that the accounting
system has. -/
structure Steered (goal : String → String) (initial : List Category) (writes : List TargetWrite)
    (table : List Category) : Prop where
  once : (writes.map Prod.fst).Nodup
  table_eq : table = initial.map fun c => if c.id ∈ writes.map Prod.fst then
    { c with target := Category.targetOf (goal c.source) } else c

namespace Steered

variable {goal : String → String} {initial table : List Category} {writes : List TargetWrite}

theorem refl (goal : String → String) (initial : List Category) :
    Steered goal initial [] initial := ⟨List.nodup_nil, by simp⟩

theorem map_id_eq (h : Steered goal initial writes table) :
    table.map Category.id = initial.map Category.id := by
  rw [h.table_eq, List.map_map]
  refine List.map_congr_left fun c _ => ?_
  show (if _ then _ else _ : Category).id = c.id
  split_ifs <;> rfl

/-- A category that is not settled has not been written. -/
theorem write (h : Steered goal initial writes table) (hids : (initial.map Category.id).Nodup)
    {c : Category} (hc : c ∈ table) (hnew : ¬ c.Settled goal) :
    Steered goal initial (writes ++ [(c.id, Category.targetOf (goal c.source))])
      (Category.retarget table (c.id, Category.targetOf (goal c.source))) := by
  -- it is as it was at the beginning
  have hinitial : c ∈ initial ∧ c.id ∉ writes.map Prod.fst := by
    rw [h.table_eq] at hc
    obtain ⟨c₀, hc₀, rfl⟩ := List.mem_map.1 hc
    split_ifs at hnew ⊢ with hwritten
    · exact absurd rfl hnew
    · exact ⟨hc₀, hwritten⟩
  obtain ⟨hmem, hunwritten⟩ := hinitial
  constructor
  · rw [List.map_append]
    exact List.Nodup.append h.once (List.nodup_singleton _) (by simpa using hunwritten)
  · rw [h.table_eq, Category.retarget, List.map_map]
    refine List.map_congr_left fun d hd => ?_
    by_cases hid : d.id = c.id
    · obtain rfl := List.inj_on_of_nodup_map hids hd hmem hid
      simp [hunwritten]
    · by_cases hwritten : d.id ∈ writes.map Prod.fst <;> simp [hwritten, hid]

/-- Settled targets stay so. -/
theorem settled (h : Steered goal initial writes table) (hinitial : ∀ c ∈ initial, c.Settled goal) :
    ∀ c ∈ table, c.Settled goal := by
  rw [h.table_eq]
  intro c hc
  obtain ⟨c₀, hc₀, rfl⟩ := List.mem_map.1 hc
  split_ifs
  · rfl
  · exact hinitial c₀ hc₀

/-- Exchanges about different categories steer the table on. -/
theorem exchanges (h : Steered goal initial writes table)
    (hids : (initial.map Category.id).Nodup) {xs : List Exchange}
    (hmem : ∀ x ∈ xs, x.category ∈ table) (hdistinct : (xs.map fun x => x.category.id).Nodup)
    (htold : ∀ x ∈ xs, ∀ answer, x.answer = .ok answer → answer.target = goal x.category.source) :
    Steered goal initial (writes ++ xs.filterMap Exchange.written?)
      (Category.retargetAll table (xs.filterMap Exchange.written?)) := by
  induction xs generalizing writes table with
  | nil =>
    rw [List.filterMap_nil, List.append_nil]
    exact h
  | cons x xs ih =>
    obtain ⟨hx, hxs⟩ := List.forall_mem_cons.1 hmem
    obtain ⟨htoldx, htoldxs⟩ := List.forall_mem_cons.1 htold
    obtain ⟨hfirst, hdistinct⟩ := List.nodup_cons.1 hdistinct
    cases hwritten : x.written? with
    | none =>
      rw [List.filterMap_cons_none hwritten]
      exact ih h hxs hdistinct htoldxs
    | some write =>
      obtain ⟨answer, hanswer, hnew, rfl⟩ := Exchange.of_written? hwritten
      rw [htoldx answer hanswer] at hnew hwritten
      rw [List.filterMap_cons_some hwritten, List.append_cons]
      refine ih (h.write hids hx hnew.symm) (fun y hy => ?_) hdistinct htoldxs
      refine Category.mem_retarget_of_ne (hxs y hy) fun hid => hfirst ?_
      exact List.mem_map.2 ⟨y, hy, hid⟩

end Steered

namespace Round

variable {goal : String → String} {table : List Category} {c : Course ReconcileSummary}
  {xs : List Exchange}

theorem category_mem (h : Round goal table c xs) {x : Exchange} (hx : x ∈ xs) :
    x.category ∈ table := h.listed.subset (List.mem_map_of_mem hx)

/-- As far as a round has come, it steers the table on. -/
theorem steers (h : Round goal table c xs) {initial : List Category} {writes : List TargetWrite}
    (hsteered : Steered goal initial writes table) (hids : (initial.map Category.id).Nodup)
    {now : List TargetWrite} (hnow : now <+: committedTargets c.steps) :
    Steered goal initial (writes ++ now) (Category.retargetAll table now) := by
  rw [h.committed, List.prefix_filterMap_iff] at hnow
  obtain ⟨ys, hys, rfl⟩ := hnow
  have hmem : ∀ y ∈ ys, y ∈ xs := fun y hy => hys.subset hy
  have hdistinct : (ys.map fun x => x.category.id).Nodup := by
    have hfirst : ys.map Exchange.category <+: table := (hys.map _).trans h.listed
    have hnodup : (table.map Category.id).Nodup := hsteered.map_id_eq ▸ hids
    have hsub := (hfirst.map Category.id).sublist.nodup hnodup
    rwa [List.map_map] at hsub
  exact hsteered.exchanges hids (fun y hy => h.category_mem (hmem y hy)) hdistinct
    fun y hy => h.told y (hmem y hy)

/-- A round with a result settles all targets. -/
theorem settles (h : Round goal table c xs) (hids : (table.map Category.id).Nodup)
    {r : ReconcileSummary} (hr : c.result = .ok r) :
    ∀ d ∈ Category.retargetAll table (committedTargets c.steps), d.Settled goal := by
  obtain ⟨hall, hnone, -⟩ := h.complete r hr
  rw [(h.steers (.refl goal table) hids List.prefix_rfl).table_eq, List.nil_append]
  intro d hd
  obtain ⟨c₀, hc₀, rfl⟩ := List.mem_map.1 hd
  split_ifs with hwritten
  · rfl
  · rw [← hall] at hc₀
    obtain ⟨x, hx, rfl⟩ := List.mem_map.1 hc₀
    obtain ⟨answer, hanswer, hstored | hnow⟩ := Exchange.stored_or_written? (hnone x hx)
    · rw [h.told x hx answer hanswer] at hstored
      exact hstored.symm
    · refine absurd ?_ hwritten
      rw [h.committed]
      exact List.mem_map.2 ⟨_, List.mem_filterMap.2 ⟨x, hx, hnow⟩, rfl⟩

/-- A round of settled categories writes nothing. -/
theorem of_settled (h : Round goal table c xs) (hsettled : ∀ d ∈ table, d.Settled goal) :
    (∀ e ∈ c.steps, ¬ SetsTarget e) ∧ ∀ r, c.result = .ok r → r.updated = 0 := by
  have hnone : ∀ x ∈ xs, ¬ x.writing?.isSome := by
    intro x hx hwriting
    obtain ⟨answer, hanswer, hnew⟩ := x.isSome_writing?_iff.1 hwriting
    rw [h.told x hx answer hanswer] at hnew
    exact hnew (hsettled _ (h.category_mem hx)).symm
  constructor
  · intro e he hset
    obtain ⟨x, hx, hwriting⟩ := h.writes e he hset
    exact hnone x hx hwriting
  · intro r hr
    rw [(h.complete r hr).2.2]
    exact List.countP_eq_zero.2 hnone

end Round

/-! ### Reconciliation after reconciliation -/

/-- Reconciliations one after the other, each of the table that the ones before have left. -/
inductive History (store : CategoryStore σ) (initial : List Category) :
    List (Course ReconcileSummary) → List Category → Prop
  | start : History store initial [] initial
  | call {calls : List (Course ReconcileSummary)} {s s' : σ} {c : Course ReconcileSummary} :
      History store initial calls (store.table s) → Takes store.toEnvironment s categories c s' →
      History store initial (calls ++ [c]) (store.table s')

/-- All targets that calls wrote and committed. -/
def writesOf (calls : List (Course ReconcileSummary)) : List TargetWrite :=
  calls.flatMap fun c => committedTargets c.steps

theorem writesOf_concat (calls : List (Course ReconcileSummary)) (c : Course ReconcileSummary) :
    writesOf (calls ++ [c]) = writesOf calls ++ committedTargets c.steps := by
  simp [writesOf]

section Store

variable {store : CategoryStore σ} {initial table : List Category} {s s' s₁ : σ}
  {calls : List (Course ReconcileSummary)} {c : Course ReconcileSummary}

/-- Up to any step the table changes by what was committed. -/
theorem Round.table_eq {xs : List Exchange} (h : Round store.goal (store.table s) c xs)
    {before after : List Event} (hsteps : c.steps = before ++ after)
    (hanswers : store.Answers s before s₁) :
    store.table s₁ = Category.retargetAll (store.table s) (committedTargets before) := by
  have horderly : Orderly none (before ++ after) := hsteps ▸ h.orderly
  exact store.table_of_answers hanswers horderly.of_append (by simp)

/-- **What any number of reconciliations leave is steered**, and settled as soon as one of them had
a result. -/
theorem History.steered (h : History store initial calls table)
    (hids : (initial.map Category.id).Nodup) :
    Steered store.goal initial (writesOf calls) table ∧
      ∀ d ∈ calls, ∀ r, d.result = .ok r → ∀ c ∈ table, c.Settled store.goal := by
  induction h with
  | start => exact ⟨.refl _ _, by simp⟩
  | @call calls s s' c _ htakes ih =>
    obtain ⟨hsteered, hsettled⟩ := ih
    obtain ⟨xs, hround⟩ := exists_round htakes
    have hnodup : ((store.table s).map Category.id).Nodup := hsteered.map_id_eq ▸ hids
    rw [hround.table_eq (List.append_nil _).symm (conforms_categories.of_takes htakes).1,
      writesOf_concat]
    refine ⟨hround.steers hsteered hids List.prefix_rfl, fun d hd r hr => ?_⟩
    rcases List.mem_append.1 hd with hd | hd
    · exact (hround.steers (.refl _ _) hnodup List.prefix_rfl).settled (hsettled d hd r hr)
    · obtain rfl := List.mem_singleton.1 hd
      exact hround.settles hnodup hr

/-- **Reconciling converges.**  At any moment of any reconciliation each category was written once
at most, and its target is the one at the beginning or, if it was written, the one that the
accounting system has.  A result leaves all targets settled, and from then on none is written. -/
theorem converges {before after : List Event} (hids : (initial.map Category.id).Nodup)
    (hhistory : History store initial calls (store.table s))
    (htakes : Takes store.toEnvironment s categories c s') (hsteps : c.steps = before ++ after)
    (hanswers : store.Answers s before s₁) :
    ((writesOf calls ++ committedTargets before).map Prod.fst).Nodup ∧
      store.table s₁ = initial.map (fun c =>
        if c.id ∈ (writesOf calls ++ committedTargets before).map Prod.fst then
          { c with target := Category.targetOf (store.goal c.source) } else c) ∧
      (∀ r, c.result = .ok r → ∀ d ∈ store.table s', d.Settled store.goal) ∧
      ((∃ d ∈ calls, ∃ r, d.result = .ok r) →
        (∀ d ∈ store.table s₁, d.Settled store.goal) ∧ (∀ e ∈ c.steps, ¬ SetsTarget e) ∧
          ∀ r, c.result = .ok r → r.updated = 0) := by
  obtain ⟨hsteered, hsettled⟩ := hhistory.steered hids
  obtain ⟨xs, hround⟩ := exists_round htakes
  have hnodup : ((store.table s).map Category.id).Nodup := hsteered.map_id_eq ▸ hids
  have hnow : committedTargets before <+: committedTargets c.steps :=
    hsteps ▸ targetsFrom_prefix none before after
  have hmoment := hround.table_eq hsteps hanswers
  obtain ⟨honce, htable⟩ := hround.steers hsteered hids hnow
  refine ⟨honce, hmoment.trans htable, fun r hr => ?_, ?_⟩
  · exact (hhistory.call htakes |>.steered hids).2 c (by simp) r hr
  · rintro ⟨d, hd, r, hr⟩
    refine ⟨?_, hround.of_settled (hsettled d hd r hr)⟩
    rw [hmoment]
    exact (hround.steers (.refl _ _) hnodup hnow).settled (hsettled d hd r hr)

end Store

end Reconcile

/-! ### Reconciling a shelf -/

namespace Shelf

open Reconcile

/-- What a reconciliation comes to, and the shelf it leaves. -/
def reconciled (s : Shelf) : Course ReconcileSummary × Shelf :=
  let (result, w) := runIn environment ⟨s, [], .zero⟩ categories
  (⟨w.trace, result, id⟩, w.outside)

theorem takes_reconciled (s : Shelf) :
    Takes environment s categories s.reconciled.1 s.reconciled.2 := by
  obtain ⟨c, s', htakes, -, hc⟩ := conforms_categories environment s
  have hmeasured : c.measured = id := by
    rcases hc with ⟨d, e, -, -, rfl⟩ | ⟨reply, all, xs, stop, -, -, rfl⟩ <;> rfl
  have hrun := htakes [] .zero
  have heq : s.reconciled = (c, s') := by
    simp only [reconciled, hrun, List.nil_append, ← hmeasured]
  rw [heq]
  exact htakes

/-- A category without a target, one with a target that the accounting system does not have any
more, and one that is settled.  The accounting system fails for the second, and then its commit. -/
def beginning : Shelf :=
  ⟨[⟨Report.smallId 1, "compute", none⟩, ⟨Report.smallId 2, "internal", some "erp-old"⟩,
    ⟨Report.smallId 3, "storage", some "erp-storage"⟩], [],
    [false, false, false, true, false, false, false, true]⟩

/-- The shelf after some reconciliations. -/
def after : Nat → Shelf
  | 0 => beginning
  | n + 1 => (after n).reconciled.2

/-- The reconciliation after those. -/
def call (n : Nat) : Course ReconcileSummary := (after n).reconciled.1

theorem takes_call (n : Nat) :
    Takes store.toEnvironment (after n) categories (call n) (after (n + 1)) :=
  takes_reconciled (after n)

theorem history (n : Nat) :
    History store beginning.table ((List.range n).map call) (store.table (after n)) := by
  induction n with
  | zero => exact .start
  | succ n ih =>
    rw [List.range_succ, List.map_append]
    exact ih.call (takes_call n)

/-- Two reconciliations fail, the third writes what is left, and the fourth writes nothing. -/
theorem converges_beginning :
    (beginning.table.map Category.id).Nodup ∧
      (call 0).result = .error (.failed (failure "internal" ["no answer"])) ∧
      (call 1).result = .error (.failed fault.toError) ∧
      (call 2).result = .ok ⟨3, 1⟩ ∧
      (call 3).result = .ok ⟨3, 0⟩ ∧
      ((writesOf ((List.range 3).map call) ++ committedTargets (call 3).steps).map
        Prod.fst).Nodup ∧
      (∀ d ∈ store.table (after 4), d.Settled store.goal) ∧
      ∀ e ∈ (call 3).steps, ¬ SetsTarget e := by
  have hids : (beginning.table.map Category.id).Nodup := by decide
  have hthird : (call 2).result = .ok ⟨3, 1⟩ := by decide +kernel
  have hmem : call 2 ∈ (List.range 3).map call := List.mem_map_of_mem (by decide)
  obtain ⟨honce, -, -, hlater⟩ := converges hids (history 3) (takes_call 3)
    (List.append_nil _).symm (conforms_categories.of_takes (takes_call 3)).1
  obtain ⟨hsettled, hwrites, -⟩ := hlater ⟨call 2, hmem, _, hthird⟩
  exact ⟨hids, by decide +kernel, by decide +kernel, hthird, by decide +kernel, honce, hsettled,
    hwrites⟩

end Shelf

end UsageBilling
