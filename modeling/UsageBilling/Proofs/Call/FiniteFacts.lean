import UsageBilling.Proofs.Call.Discipline
import UsageBilling.Proofs.Report.Malformed

/-!
# Facts are finite

A sample whose value is no finite number is refused before anything is asked for it, and all facts
but those that a caller hands over come from samples.  So the quantity of a fact is finite unless a
caller hands over one that is not.

* `FactsIn p` : the rule that all facts that are written are those of `p`.
* `Call.MayWrite` : the facts that a call may write; `Call.obeys_factsIn` : it writes no others.
* `Call.malformed_never_stored` : no ingestion goes by a malformed sample, and in a session of any
  calls the quantities that are not finite are those handed over.
* `Call.direct_fact_not_finite` : one that is handed over is written.
-/

namespace UsageBilling

open Session

variable {σ : Type}

/-- The facts that are written are those of `p`. -/
def FactsIn (p : FactKey → Float → Prop) : Rule := fun _ steps =>
  ∀ e ∈ steps, ∀ key quantity reply, e = .statement (.upsertFact key quantity) reply → p key quantity

namespace FactsIn

variable {p : FactKey → Float → Prop}

theorem composes (p : FactKey → Float → Prop) : (FactsIn p).Composes := Rule.composes_forall _

/-- A step that writes no fact. -/
theorem single {e : Event} {stop : Option Stop}
    (h : ∀ key quantity reply, e ≠ .statement (.upsertFact key quantity) reply) :
    FactsIn p stop [e] := by
  intro e' he' key quantity reply heq
  rw [List.mem_singleton.1 he'] at heq
  exact absurd heq (h key quantity reply)

theorem admits {q : Statement} (h : ∀ key quantity, q = .upsertFact key quantity → p key quantity) :
    Rule.Admits (FactsIn p) q := by
  intro reply stop _ e he key quantity reply' heq
  rw [List.mem_singleton.1 he] at heq
  exact h key quantity (Event.statement.inj heq).1

theorem admits_of_isRead {q : Statement} (h : q.isRead) : Rule.Admits (FactsIn p) q := by
  refine admits fun key quantity heq => ?_
  rw [heq] at h
  cases h

theorem obeys_transaction {α : Type} {body : Session σ α} (access : Access)
    (h : Obeys body (FactsIn p)) : Obeys (Session.transaction access body) (FactsIn p) :=
  .transaction (composes p) (fun _ _ _ _ => single (by simp))
    (fun _ _ hsteps => List.forall_mem_append.2 ⟨hsteps, by simp⟩) access h

/-- The fact of a sample has its value, which is finite if the sample is not malformed. -/
theorem obeys_ingestSample (hp : ∀ key quantity, quantity.isFinite → p key quantity) (query : Query)
    (time : Timestamp) (s : Sample) :
    Obeys (Report.ingestSample query (.ofTimestamp time) s : Session σ Unit) (FactsIn p) := by
  have hfacts {steps : List Event} (hwell : ¬ s.Malformed)
      (hasks : Report.Asks (Report.Stores query time s) steps) (stop : Option Stop) :
      FactsIn p stop steps := by
    intro e he key quantity reply heq
    obtain ⟨q, reply', rfl, hq⟩ := hasks e he
    obtain ⟨rfl, -⟩ := Event.statement.inj heq
    cases hq with
    | fact hkey =>
      exact hp _ _ (Bool.of_not_eq_false fun hv => hwell (malformed_of_value hv))
  refine (Report.conforms_ingestSample query time s).mono fun c hc => ?_
  cases hc with
  | refused _ => exact (composes p).nil _
  | interrupted hwell hfails => exact hfacts hwell hfails.asks _
  | stored hwell hasks _ => exact hfacts hwell hasks _

theorem obeys_ingestFamily (hp : ∀ key quantity, quantity.isFinite → p key quantity)
    (o : ReportOptions) (name : String) (time : Timestamp) :
    Obeys (Report.ingestFamily o name time : Session σ Nat) (FactsIn p) :=
  Report.obeys_ingestFamily (composes p) (fun _ _ _ _ => single (by simp))
    (fun query s => obeys_ingestSample hp query time s) (admits_of_isRead rfl)
    fun _ => admits_of_isRead rfl

end FactsIn

/-! ### Calls -/

namespace Call

/-- The facts that a call may write: those with finite quantities, and the one that it is asked to
write. -/
def MayWrite (call : Call) (key : FactKey) (quantity : Float) : Prop :=
  quantity.isFinite ∨ call = .request (.upsertFact key quantity)

theorem obeys_operation (op : Operation) :
    Obeys (op.session : Session σ op.Result) (FactsIn (MayWrite (.operation op))) := by
  have hC := FactsIn.composes (MayWrite (.operation op))
  have hrun (o : ReportOptions) (name : String) (time : Timestamp) :
      Obeys (Report.run o name time : Session σ Nat) (FactsIn (MayWrite (.operation op))) :=
    Report.obeys_run hC (FactsIn.obeys_transaction .readWrite
      (FactsIn.obeys_ingestFamily (fun _ _ => .inl) o name time))
  cases op with
  | run o name time => exact hrun o name time
  | runRange o name start stop =>
    exact Report.obeys_runRange hC (fun _ _ _ _ h => h) (fun _ _ => FactsIn.single (by simp))
      (hrun o name) start stop
  | generate year month =>
    show Obeys (Invoice.generate year month : Session σ (List Invoice)) _
    unfold Invoice.generate
    split
    · next m _ =>
      exact FactsIn.obeys_transaction .readOnly
        (Invoice.obeys_readMonth hC FactsIn.admits_of_isRead m)
    · exact .fail hC _
  | reconcile =>
    have heach (categories : List Category) : Obeys (Reconcile.each categories : Session σ Nat)
        (FactsIn (MayWrite (.operation .reconcile))) :=
      Reconcile.obeys_each hC (fun _ _ _ => FactsIn.single (by simp))
        (fun _ _ => FactsIn.obeys_transaction .readWrite (.countChanged hC (FactsIn.admits (by simp))))
        categories
    exact .bind hC (FactsIn.obeys_transaction .readOnly (.fetchAll hC (FactsIn.admits (by simp))))
      fun all => .bind hC (heach all) fun _ => .pure hC _

theorem obeys_request (r : Request) :
    Obeys (r.session : Session σ r.Result) (FactsIn (MayWrite (.request r))) := by
  have hC := FactsIn.composes (MayWrite (.request r))
  cases r with
  | ingest o name time =>
    exact .bind hC (Report.obeys_requireHourStart hC time) fun _ =>
      FactsIn.obeys_ingestFamily (fun _ _ => .inl) o name time
  | readMonth month => exact Invoice.obeys_readMonth hC FactsIn.admits_of_isRead month
  | seed =>
    exact Store.obeys_seedEach hC (fun _ => FactsIn.admits (by simp)) (fun _ => FactsIn.admits (by simp)) _
  | upsertFact key quantity =>
    refine Store.obeys_fetchFirst hC (FactsIn.admits fun key' quantity' heq => .inr ?_)
    cases heq
    rfl
  | createQuery | createProduct | createDiscount | queryExists =>
    exact Store.obeys_fetchFirst hC (FactsIn.admits (by simp))
  | findQuery | findProduct | findDiscount =>
    exact Store.obeys_orFail hC (FactsIn.admits (by simp)) (fun _ => rfl) rfl
  | upsertTenant | upsertCategory | upsertHour =>
    exact Store.obeys_insertOrSelect hC (FactsIn.admits (by simp)) _ _
  | subQueries | listCategories | missingFields => exact .fetchAll hC (FactsIn.admits (by simp))
  | setCategoryTarget => exact .countChanged hC (FactsIn.admits (by simp))

/-- **A call writes no facts but those that it may write.** -/
theorem obeys_factsIn (call : Call) :
    Obeys (call.session : Session σ call.Result) (FactsIn call.MayWrite) := by
  cases call with
  | operation op => exact obeys_operation op
  | request r => exact obeys_request r

/-! ### Sessions of calls -/

/-- Make calls one after the other, each in some state of the outside; a failure does not keep the
next from being made. -/
def runAll (env : Environment σ) (w : World σ) : List (σ × Call) → World σ
  | [] => w
  | (s, call) :: rest => runAll env (runIn env { w with outside := s } call.session).2 rest

/-- **A session writes no facts but those that one of its calls may write.** -/
theorem exists_runAll_factsIn (env : Environment σ) (w : World σ) (session : List (σ × Call)) :
    ∃ steps, (runAll env w session).trace = w.trace ++ steps ∧
      ∀ stop, FactsIn (fun key quantity => ∃ s call, (s, call) ∈ session ∧
        call.MayWrite key quantity) stop steps := by
  induction session generalizing w with
  | nil => exact ⟨[], by simp [runAll], by simp [FactsIn]⟩
  | cons entry rest ih =>
    obtain ⟨s, call⟩ := entry
    obtain ⟨c, s', htakes, -, hfacts⟩ := call.obeys_factsIn env s
    obtain ⟨steps, htrace, hrest⟩ := ih (runIn env { w with outside := s } call.session).2
    refine ⟨c.steps ++ steps, ?_, fun stop e he key quantity reply heq => ?_⟩
    · rw [runAll, htrace, htakes w.trace w.metrics, List.append_assoc]
    · rcases List.mem_append.1 he with he | he
      · exact ⟨s, call, List.mem_cons_self, hfacts e he key quantity reply heq⟩
      · obtain ⟨s', call', hmem, hmay⟩ := hrest stop e he key quantity reply heq
        exact ⟨s', call', List.mem_cons_of_mem _ hmem, hmay⟩

/-- **A malformed sample is never stored.**  An ingestion ends at the first that it comes to: an
answer of the source of metrics with such a sample is followed by what `Report.Ended` says, with
all in front of it stored.  So, over all sessions of calls, the quantities of facts are finite but
for those that a caller hands over itself. -/
theorem malformed_never_stored (env : Environment σ) :
    (∀ (o : ReportOptions) (name : String) (time : Timestamp) (s : σ), ∃ c s',
      Takes env s (Report.ingest o name time) c s' ∧ env.Answers s c.steps s' ∧
        ∀ before text hourEnd elapsed samples after,
          c.steps = before ++ .evaluation text hourEnd (.answered elapsed (.ok samples)) :: after →
          (∃ x ∈ samples, x.Malformed) →
          ∃ query e, Report.Reached name time query hourEnd before ∧ text = query.query ∧
            c.result = .error (.failed e) ∧ Report.Ended o time query elapsed samples after e) ∧
    ∀ (w : World σ) (session : List (σ × Call)), ∃ steps,
      (runAll env w session).trace = w.trace ++ steps ∧
        ∀ key quantity reply, .statement (.upsertFact key quantity) reply ∈ steps →
          quantity.isFinite ∨ ∃ s, (s, .request (.upsertFact key quantity)) ∈ session := by
  refine ⟨fun o name time s => Report.conforms_ingest o name time env s, fun w session => ?_⟩
  obtain ⟨steps, htrace, hfacts⟩ := exists_runAll_factsIn env w session
  refine ⟨steps, htrace, fun key quantity reply hmem => ?_⟩
  obtain ⟨s, call, hcall, hfinite | rfl⟩ := hfacts none _ hmem key quantity reply rfl
  · exact .inl hfinite
  · exact .inr ⟨s, hcall⟩

/-- The only sample of the query itself is fine, the second one of the query under it is not a
number. -/
def spoiledScript : Script where
  reachable := true
  faults := []
  replies := Report.rowReplies [1, 2, 3, 4, 5, 6, 7, 8, 2, 3, 4, 5, 6, 9]
  evaluations :=
    [.answered ⟨5⟩ (.ok [.withDimensions "c:namespace" "acme" "memory:c:acme:namespace" 4]),
     .answered ⟨5⟩ (.ok [.withDimensions "c:namespace" "acme" "memory:c:acme:namespace" 1,
      .withDimensions "c:namespace" "acme" "memory:c:acme:namespace" (0 / 0)])]
  reconciliations := []

/-- An answer that holds a value that is not finite. -/
def holdsNonFinite : Event → Bool
  | .evaluation _ _ (.answered _ (.ok samples)) => samples.any fun x => !x.value.isFinite
  | _ => false

theorem exists_of_holdsNonFinite {e : Event} (h : holdsNonFinite e) :
    ∃ text hourEnd elapsed samples,
      e = .evaluation text hourEnd (.answered elapsed (.ok samples)) ∧
        ∃ x ∈ samples, x.Malformed := by
  unfold holdsNonFinite at h
  split at h
  · next text hourEnd elapsed samples =>
    obtain ⟨x, hx, hv⟩ := List.any_eq_true.1 h
    exact ⟨text, hourEnd, elapsed, samples, rfl, x, hx, malformed_of_value (by simpa using hv)⟩
  · cases h

theorem malformed_never_stored_memory :
    ∃ c s', Takes Script.environment spoiledScript
        (Report.ingest ⟨none, false, true⟩ "memory" Report.memoryHour) c s' ∧
      ∃ before text hourEnd elapsed samples after query e,
        c.steps = before ++ .evaluation text hourEnd (.answered elapsed (.ok samples)) :: after ∧
          (∃ x ∈ samples, x.Malformed) ∧
          Report.Reached "memory" Report.memoryHour query hourEnd before ∧ text = query.query ∧
          c.result = .error (.failed e) ∧
          Report.Ended ⟨none, false, true⟩ Report.memoryHour query elapsed samples after e := by
  obtain ⟨c, s', htakes, -, hguards⟩ := (malformed_never_stored Script.environment).1
    ⟨none, false, true⟩ "memory" Report.memoryHour spoiledScript
  refine ⟨c, s', htakes, ?_⟩
  have hspoiled : c.steps.any holdsNonFinite := by
    have hsteps : c.steps = (runIn Script.environment ⟨spoiledScript, [], .zero⟩
        (Report.ingest ⟨none, false, true⟩ "memory" Report.memoryHour)).2.trace := by
      rw [htakes [] .zero, List.nil_append]
    rw [hsteps]
    decide +kernel
  obtain ⟨e, hmem, he⟩ := List.any_eq_true.1 hspoiled
  obtain ⟨text, hourEnd, elapsed, samples, rfl, hmalformed⟩ := exists_of_holdsNonFinite he
  obtain ⟨before, after, hsplit⟩ := List.append_of_mem hmem
  obtain ⟨query, e, hended⟩ := hguards before text hourEnd elapsed samples after hsplit hmalformed
  exact ⟨before, text, hourEnd, elapsed, samples, after, query, e, hsplit, hmalformed, hended⟩

/-- The database gives back the fact that it is asked to write. -/
def echoScript : Script := ⟨true, [], Report.rowReplies [1], [], []⟩

def anyFactKey : FactKey :=
  let id := Report.smallId 1
  ⟨id, id, id, id, id, id⟩

/-- **A fact that a caller hands over is written as it is**, with a quantity that is not a number
if it has that. -/
theorem direct_fact_not_finite : (0 / 0 : Float).isFinite = false ∧
    ∃ reply, (runAll Script.environment ⟨echoScript, [], .zero⟩
        [(echoScript, .request (.upsertFact anyFactKey (0 / 0)))]).trace =
      [.statement (.upsertFact anyFactKey (0 / 0)) reply] :=
  ⟨by decide +kernel, _, rfl⟩

end Call

end UsageBilling
