import UsageBilling.Proofs.Reconcile.Convergence

/-!
# An accounting system that changes nothing

A category is offered with the empty text if it has no target, and the empty answer is taken for no
target.  So an accounting system that answers what it is offered has nothing written, but for the
categories that store the empty text as their target: these lose it.

* `Reconcile.targetsAsked` : the targets that steps ask to be written.
* `Exchange.Echoes` : the answer is what was offered.
* `Reconcile.Exchanged.targetsAsked_prefix`, `Reconcile.Exchanged.idle` : what is written while all
  answers are such.
* `Reconcile.echoed_writes` : a reconciliation with such an accounting system.
* `Reconcile.echoed_write_of_blank` : it can write a target.
-/

namespace UsageBilling

open Session

variable {σ : Type}

namespace Category

/-- The stored target is the empty text. -/
def IsBlank (c : Category) : Prop := c.target = some ""

instance : DecidablePred IsBlank := fun c => inferInstanceAs (Decidable (c.target = some ""))

/-- **What is offered comes back as the stored target**, unless that is the empty text. -/
theorem targetOf_mapping_ne_iff (c : Category) :
    targetOf c.mapping.target ≠ c.target ↔ c.IsBlank := by
  obtain ⟨id, source, _ | target⟩ := c
  · simp [targetOf, mapping, IsBlank]
  · by_cases h : target = "" <;> simp [targetOf, mapping, IsBlank, h]

end Category

/-- The accounting system answers what it was offered. -/
def Event.Echoed : Event → Prop
  | .reconciliation mapping answer => answer = .ok mapping
  | .control _ _ | .rollback | .statement _ _ | .evaluation _ _ _ | .progress _ _ => True

instance : DecidablePred Event.Echoed
  | .reconciliation mapping answer => inferInstanceAs (Decidable (answer = .ok mapping))
  | .control _ _ | .rollback | .statement _ _ | .evaluation _ _ _ | .progress _ _ =>
    inferInstanceAs (Decidable True)

namespace Reconcile

/-- The targets that steps ask to be written, whatever the replies. -/
def targetsAsked (steps : List Event) : List TargetWrite :=
  steps.filterMap fun
    | .statement (.setCategoryTarget category target) _ => some (category, target)
    | _ => none

/-- No target for each category that stores the empty text. -/
def blankWrites (categories : List Category) : List TargetWrite :=
  (categories.filter (·.IsBlank)).map fun c => (c.id, none)

theorem targetsAsked_append (steps steps' : List Event) :
    targetsAsked (steps ++ steps') = targetsAsked steps ++ targetsAsked steps' :=
  List.filterMap_append

theorem blankWrites_cons (c : Category) (cs : List Category) :
    blankWrites (c :: cs) = blankWrites [c] ++ blankWrites cs := by
  rw [blankWrites, ← List.singleton_append, List.filter_append, List.map_append]
  rfl

/-! ### Exchanges -/

namespace Exchange

/-- The answer is what was offered. -/
def Echoes (x : Exchange) : Prop := x.answer = .ok x.category.mapping

/-- A target is written just for the empty text. -/
theorem Echoes.isSome_writing?_iff {x : Exchange} (h : x.Echoes) :
    x.writing?.isSome ↔ x.category.IsBlank := by
  rw [Exchange.isSome_writing?_iff, h, ← Category.targetOf_mapping_ne_iff]
  simp

/-- At most the blank target is asked to be replaced by none, and it is if nothing fails. -/
theorem Echoes.targetsAsked {x : Exchange} (h : x.Echoes) :
    targetsAsked x.steps <+: blankWrites [x.category] ∧
      (x.failure? = none → targetsAsked x.steps = blankWrites [x.category]) := by
  cases x with
  | unanswered c causes => cases h
  | unchanged c answer same =>
    obtain rfl : answer = c.mapping := Except.ok.inj h
    have hblank : ¬ c.IsBlank := fun hblank => (c.targetOf_mapping_ne_iff.2 hblank) same
    simp [Reconcile.targetsAsked, steps, blankWrites, category, hblank]
  | changed c answer new w =>
    obtain rfl : answer = c.mapping := Except.ok.inj h
    have hblank : c.IsBlank := c.targetOf_mapping_ne_iff.1 new
    have hnone : Category.targetOf c.mapping.target = none := by
      simp [Category.targetOf, Category.mapping, show c.target = some "" from hblank]
    cases w <;> simp [Reconcile.targetsAsked, steps, Writing.steps, blankWrites, category, hblank,
      hnone, failure?, Writing.failure?]

end Exchange

/-! ### Category after category -/

namespace Exchanged

variable {cs : List Category} {xs : List Exchange} {stop : Option BillingError}

/-- Blank targets are replaced in order until the first failure, and nothing else is written. -/
theorem targetsAsked_prefix (h : Exchanged cs xs stop) (hechoes : ∀ x ∈ xs, x.Echoes) :
    targetsAsked (xs.flatMap Exchange.steps) <+: blankWrites cs ∧
      (stop = none → targetsAsked (xs.flatMap Exchange.steps) = blankWrites cs) := by
  induction h with
  | done => exact ⟨List.prefix_refl [], fun _ => rfl⟩
  | @failed x e rest hx =>
    obtain ⟨hlead, -⟩ := (List.forall_mem_singleton.1 hechoes).targetsAsked
    refine ⟨?_, fun hnone => by cases hnone⟩
    rw [List.flatMap_singleton, blankWrites_cons]
    exact hlead.trans (List.prefix_append _ _)
  | @next x cs xs stop hx _ ih =>
    obtain ⟨hfirst, hrest⟩ := List.forall_mem_cons.1 hechoes
    obtain ⟨hlead, hall⟩ := ih hrest
    rw [List.flatMap_cons, targetsAsked_append, hfirst.targetsAsked.2 hx,
      blankWrites_cons x.category cs]
    exact ⟨(List.prefix_append_right_inj _).2 hlead, fun hnone => by rw [hall hnone]⟩

/-- Without a failure a target is written for each category that has a blank one. -/
theorem countP_writing (h : Exchanged cs xs none) (hechoes : ∀ x ∈ xs, x.Echoes) :
    xs.countP (fun x => x.writing?.isSome) = cs.countP (·.IsBlank) := by
  have hcs : xs.map Exchange.category = cs :=
    h.map_category_eq (List.findSome?_eq_none_iff.1 h.findSome?_failure?)
  rw [← hcs, List.countP_map]
  refine List.countP_congr fun x hx => ?_
  rw [(hechoes x hx).isSome_writing?_iff]
  simp

/-- **Nothing is written if no target is blank**: every category is offered, and that is all. -/
theorem idle (h : Exchanged cs xs stop) (hechoes : ∀ x ∈ xs, x.Echoes)
    (hblank : ∀ c ∈ cs, ¬ c.IsBlank) :
    stop = none ∧
      xs.flatMap Exchange.steps = cs.map fun c => .reconciliation c.mapping (.ok c.mapping) := by
  have hunchanged {x : Exchange} (hx : x.Echoes) (hfull : ¬ x.category.IsBlank) :
      x.failure? = none ∧
        x.steps = [.reconciliation x.category.mapping (.ok x.category.mapping)] := by
    rw [← hx.isSome_writing?_iff] at hfull
    cases x with
    | unanswered c causes => cases hx
    | unchanged c answer same =>
      obtain rfl : answer = c.mapping := Except.ok.inj hx
      exact ⟨rfl, rfl⟩
    | changed c answer new w => exact absurd rfl hfull
  induction h with
  | done => exact ⟨rfl, rfl⟩
  | @failed x e rest hx =>
    have hfull := hblank x.category List.mem_cons_self
    rw [(hunchanged (List.forall_mem_singleton.1 hechoes) hfull).1] at hx
    cases hx
  | @next x cs xs stop hx _ ih =>
    obtain ⟨hfirst, hrest⟩ := List.forall_mem_cons.1 hechoes
    obtain ⟨hfull, hblank⟩ := List.forall_mem_cons.1 hblank
    obtain ⟨hstop, hsteps⟩ := ih hrest hblank
    refine ⟨hstop, ?_⟩
    rw [List.flatMap_cons, (hunchanged hfirst hfull).2, hsteps]
    rfl

end Exchanged

/-! ### All categories -/

variable {env : Environment σ} {s s₁ s' : σ} {c : Course ReconcileSummary} {listing : List Event}
  {all : List Category} {g : ReportMetrics → ReportMetrics}

/-- After a listing the categories are gone through. -/
theorem exists_exchanged (h : Takes env s (categories : Session σ ReconcileSummary) c s')
    (hlisting : Takes env s (transaction .readOnly Store.listCategories) ⟨listing, .ok all, g⟩ s₁) :
    ∃ xs stop, Exchanged all xs stop ∧ c.steps = listing ++ xs.flatMap Exchange.steps ∧
      c.result = (tally xs stop).map fun n => ⟨all.length, n⟩ := by
  have heach : Conforms (each all >>= fun n => pure ⟨all.length, n⟩ : Session σ ReconcileSummary)
      fun d => ∃ xs stop, Exchanged all xs stop ∧
        d = ⟨xs.flatMap Exchange.steps, (tally xs stop).map fun n => ⟨all.length, n⟩, id⟩ := by
    rw [bind_pure_comp]
    refine ((conforms_each all).map _).mono ?_
    rintro _ ⟨_, ⟨xs, stop, hxs, rfl⟩, rfl⟩
    exact ⟨xs, stop, hxs, rfl⟩
  obtain ⟨_, s₂, htakes, -, xs, stop, hxs, rfl⟩ := heach env s₁
  obtain ⟨rfl, -⟩ := h.unique (hlisting.bind htakes)
  exact ⟨xs, stop, hxs, rfl, rfl⟩

/-- A listing asks for no target to be written. -/
theorem targetsAsked_listing
    (h : Takes env s (transaction .readOnly Store.listCategories) ⟨listing, .ok all, g⟩ s₁) :
    targetsAsked listing = [] := by
  cases (conforms_listing.of_takes h).2 with
  | committed hd =>
    obtain ⟨reply, result, -, hd⟩ := hd
    obtain rfl := congrArg Course.steps hd
    rfl

/-- **An accounting system that answers what it is offered** has nothing written but that blank
targets are none.  If there is no blank target, each category is offered and nothing is written. -/
theorem echoed_writes (h : Takes env s (categories : Session σ ReconcileSummary) c s')
    (hlisting : Takes env s (transaction .readOnly Store.listCategories) ⟨listing, .ok all, g⟩ s₁)
    (hechoed : ∀ e ∈ c.steps, e.Echoed) :
    targetsAsked c.steps <+: blankWrites all ∧
      (∀ r, c.result = .ok r → targetsAsked c.steps = blankWrites all ∧
        r = ⟨all.length, all.countP (·.IsBlank)⟩) ∧
      ((targetsAsked c.steps = [] ∧ c.result = .ok ⟨all.length, 0⟩) ↔ ∀ d ∈ all, ¬ d.IsBlank) ∧
      ((∀ d ∈ all, ¬ d.IsBlank) → c.steps = listing ++
        all.map fun d => .reconciliation d.mapping (.ok d.mapping)) := by
  obtain ⟨xs, stop, hxs, hsteps, hresult⟩ := exists_exchanged h hlisting
  have hechoes : ∀ x ∈ xs, x.Echoes := by
    intro x hx
    have hmem : .reconciliation x.category.mapping x.answer ∈ c.steps := by
      rw [hsteps]
      exact List.mem_append_right _ (List.mem_flatMap.2 ⟨x, hx, x.reconciliation_mem_steps⟩)
    exact hechoed _ hmem
  have hasked : targetsAsked c.steps = targetsAsked (xs.flatMap Exchange.steps) := by
    rw [hsteps, targetsAsked_append, targetsAsked_listing hlisting, List.nil_append]
  obtain ⟨hlead, hall⟩ := hxs.targetsAsked_prefix hechoes
  have hok : ∀ r, c.result = .ok r → targetsAsked c.steps = blankWrites all ∧
      r = ⟨all.length, all.countP (·.IsBlank)⟩ := by
    intro r hr
    cases stop with
    | some e =>
      rw [hresult] at hr
      cases hr
    | none =>
      rw [hresult, tally, hxs.countP_writing hechoes] at hr
      exact ⟨hasked.trans (hall rfl), (Except.ok.inj hr).symm⟩
  refine ⟨hasked ▸ hlead, hok, ⟨fun hnone d hd => ?_, fun hblank => ?_⟩, fun hblank => ?_⟩
  · have hcount : all.countP (·.IsBlank) = 0 :=
      (congrArg ReconcileSummary.updated (hok _ hnone.2).2).symm
    simpa using List.countP_eq_zero.1 hcount d hd
  · obtain ⟨rfl, hidle⟩ := hxs.idle hechoes hblank
    have hcount : all.countP (·.IsBlank) = 0 :=
      List.countP_eq_zero.2 fun d hd => by simpa using hblank d hd
    constructor
    · rw [hasked, hall rfl, blankWrites, List.filter_eq_nil_iff.2 fun d hd => by
        simpa using hblank d hd]
      rfl
    · rw [hresult, tally, hxs.countP_writing hechoes, hcount]
      rfl
  · rw [hsteps, (hxs.idle hechoes hblank).2]

/-! ### Three categories -/

/-- Categories, and an accounting system that has them as they are. -/
def echoScript (all : List Category) : Script where
  reachable := true
  faults := []
  replies := .ok (.rows (all.map categoryRow)) :: all.map fun _ => .ok (.affected 1)
  evaluations := []
  reconciliations := all.map fun c => .ok c.mapping

/-- How they are listed. -/
def echoListing (all : List Category) : Except Stop (List Category) × World Script :=
  runIn Script.environment ⟨echoScript all, [], .zero⟩ (transaction .readOnly Store.listCategories)

/-- How they are reconciled. -/
def echoRun (all : List Category) : Except Stop ReconcileSummary × World Script :=
  runIn Script.environment ⟨echoScript all, [], .zero⟩ categories

/-- A category without a target, one with a blank target and one with another target. -/
def mixedCategories : List Category :=
  [⟨Report.smallId 1, "compute", none⟩, ⟨Report.smallId 2, "internal", some ""⟩,
    ⟨Report.smallId 3, "storage", some "erp-storage"⟩]

theorem takes_echoListing (all : List Category) : ∃ g, Takes Script.environment (echoScript all)
    (transaction .readOnly Store.listCategories)
    ⟨(echoListing all).2.trace, (echoListing all).1, g⟩ (echoListing all).2.outside := by
  obtain ⟨c, s', htakes, -⟩ := conforms_listing Script.environment (echoScript all)
  exact htakes.exists_runIn

theorem takes_echoRun (all : List Category) : ∃ g, Takes Script.environment (echoScript all)
    categories ⟨(echoRun all).2.trace, (echoRun all).1, g⟩ (echoRun all).2.outside := by
  obtain ⟨c, s', htakes, -⟩ := conforms_categories Script.environment (echoScript all)
  exact htakes.exists_runIn

theorem echoed_writes_mixed :
    (echoListing mixedCategories).1 = .ok mixedCategories ∧
      (∀ e ∈ (echoRun mixedCategories).2.trace, e.Echoed) ∧
      (echoRun mixedCategories).1 = .ok ⟨3, 1⟩ ∧
      targetsAsked (echoRun mixedCategories).2.trace = blankWrites mixedCategories ∧
      blankWrites mixedCategories = [(Report.smallId 2, none)] := by
  have hlisted : (echoListing mixedCategories).1 = .ok mixedCategories := by decide +kernel
  have hechoed : ∀ e ∈ (echoRun mixedCategories).2.trace, e.Echoed := by decide +kernel
  have hresult : (echoRun mixedCategories).1 = .ok ⟨3, 1⟩ := by decide +kernel
  obtain ⟨g, hlisting⟩ := takes_echoListing mixedCategories
  obtain ⟨g', htakes⟩ := takes_echoRun mixedCategories
  generalize (echoListing mixedCategories) = listing at hlisted hlisting ⊢
  generalize (echoRun mixedCategories) = run at hechoed hresult htakes ⊢
  rw [hlisted] at hlisting
  obtain ⟨-, hok, -⟩ := echoed_writes htakes hlisting hechoed
  exact ⟨hlisted, hechoed, hresult, (hok _ hresult).1, by decide⟩

/-- A blank target is written although the accounting system answers what it was offered. -/
theorem echoed_write_of_blank :
    (echoListing [⟨Report.smallId 1, "compute", some ""⟩]).1 =
        .ok [⟨Report.smallId 1, "compute", some ""⟩] ∧
      (∀ e ∈ (echoRun [⟨Report.smallId 1, "compute", some ""⟩]).2.trace, e.Echoed) ∧
      targetsAsked (echoRun [⟨Report.smallId 1, "compute", some ""⟩]).2.trace ≠ [] ∧
      (echoRun [⟨Report.smallId 1, "compute", some ""⟩]).1 ≠ .ok ⟨1, 0⟩ := by
  refine ⟨?_, ?_, ?_, ?_⟩ <;> decide +kernel

end Reconcile

end UsageBilling
