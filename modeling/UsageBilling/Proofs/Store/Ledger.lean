import UsageBilling.Proofs.Call.Refusal
import UsageBilling.Proofs.Store.FactTable

/-!
# Ledgers

A `Ledger` is an outside whose database answers lookups always alike and keeps the facts in a table.

* `Statement.isLookup` : the lookups in the catalog and those of dimensions.
* `Event.question` : what a step asks, without the answer and without the quantity of a fact.
* `Ledger.facts_of_answers` : without refusals the table afterwards is the one before with all the
  facts written that the steps put in.
* `SteadyLedger` : a ledger that also takes facts always alike, with a source of metrics whose
  answers are ready; `Books.ledger` is one.
-/

namespace UsageBilling

open Session

variable {σ : Type}

/-! ### Questions -/

/-- A lookup in the catalog, or of the record of a dimension. -/
def Statement.isLookup : Statement → Bool
  | findQuery _ _ | subQueries _ _ | findRecord _ _ _ | upsertTenant _ | upsertCategory _
  | upsertHour _ => true
  | _ => false

/-- What a step asks, apart from the quantity of a fact. -/
inductive Question where
  | control (k : Control)
  | rollback
  | fact (key : FactKey)
  | statement (q : Statement)
  | evaluation (text : String) (time : Timestamp)
  | reconciliation (mapping : CategoryMapping)
  | progress (time : Timestamp) (count : Nat)
  deriving DecidableEq

def Statement.question : Statement → Question
  | upsertFact key _ => .fact key
  | q => .statement q

def Event.question : Event → Question
  | .control k _ => .control k
  | .rollback => .rollback
  | .statement q _ => q.question
  | .evaluation text time _ => .evaluation text time
  | .reconciliation mapping _ => .reconciliation mapping
  | .progress time count => .progress time count

/-- The key of a fact that is asked to be put in. -/
def Question.key? : Question → Option FactKey
  | fact key => some key
  | _ => none

theorem key?_question (e : Event) : e.question.key? = e.factWrite?.map Prod.fst := by
  cases e with
  | statement q reply => cases q <;> rfl
  | _ => rfl

/-- The questions tell the keys of the facts. -/
theorem keys_factWrites (steps : List Event) :
    (factWrites steps).map Prod.fst = (steps.map Event.question).filterMap Question.key? := by
  rw [factWrites, List.map_filterMap, List.filterMap_map]
  exact congrArg (List.filterMap · steps) (funext fun e => (key?_question e).symm)

/-! ### Ledgers -/

/-- An outside whose database answers each lookup always alike, and keeps the facts in a table:
putting one in overwrites the quantity of its key, and nothing else changes the table. -/
structure Ledger (σ : Type) extends Environment σ where
  /-- The reply to each lookup. -/
  answer : Statement → Reply
  facts : σ → FactTable
  execute_eq : ∀ {q s reply s'}, q.isLookup → execute q s = (reply, s') → reply = answer q
  facts_execute : ∀ {q s outcome s'}, execute q s = (.ok outcome, s') →
    facts s' = (facts s).writeAll q.factWrite?.toList
  facts_control : ∀ {k s s'}, control k s = (none, s') → facts s' = facts s
  facts_evaluate : ∀ {text time s answer s'}, evaluate text time s = (answer, s') →
    facts s' = facts s
  facts_reconcile : ∀ {mapping s answer s'}, reconcile mapping s = (answer, s') →
    facts s' = facts s

/-- The reply in a step is that of a database that answers lookups by a function. -/
def Event.RepliedBy (answer : Statement → Reply) : Event → Prop
  | .statement q reply => q.isLookup → reply = answer q
  | .control _ _ | .rollback | .evaluation _ _ _ | .reconciliation _ _ | .progress _ _ => True

namespace Ledger

variable {ledger : Ledger σ} {s s' : σ} {steps : List Event}

theorem repliedBy_of_answers (h : ledger.Answers s steps s') :
    ∀ e ∈ steps, e.RepliedBy ledger.answer := by
  induction h with
  | nil => simp
  | @cons _ _ _ e _ he _ ih =>
    refine List.forall_mem_cons.2 ⟨?_, ih⟩
    cases e with
    | statement q reply => exact fun hq => ledger.execute_eq hq he
    | _ => trivial

/-- **All facts that are put in are in the table**, unless a step is refused. -/
theorem facts_of_answers (h : ledger.Answers s steps s') (hsteps : ∀ e ∈ steps, e.refusal? = none) :
    ledger.facts s' = (ledger.facts s).writeAll (factWrites steps) := by
  induction h with
  | nil => rfl
  | @cons s s₁ s₂ e steps he _ ih =>
    obtain ⟨hfirst, hrest⟩ := List.forall_mem_cons.1 hsteps
    have hstep : ledger.facts s₁ = (ledger.facts s).writeAll e.factWrite?.toList := by
      cases e with
      | control k refusal =>
        obtain rfl : refusal = none := hfirst
        exact ledger.facts_control he
      | rollback | progress =>
        obtain rfl := he
        rfl
      | statement q reply =>
        cases reply with
        | ok outcome => exact ledger.facts_execute he
        | error r => cases hfirst
      | evaluation text time answer => exact ledger.facts_evaluate he
      | reconciliation mapping answer => exact ledger.facts_reconcile he
    have hwrites : factWrites (e :: steps) = e.factWrite?.toList ++ factWrites steps := by
      cases hw : e.factWrite? <;> simp [factWrites, hw]
    rw [ih hrest, hstep, hwrites, FactTable.writeAll_append]

/-- A call with a result was refused nothing, so all its facts are in the table. -/
theorem facts_of_takes {α : Type} {x : Session σ α} (hx : Obeys x Surrenders) {c : Course α}
    {a : α} (h : Takes ledger.toEnvironment s x c s') (hok : c.result = .ok a) :
    ledger.facts s' = (ledger.facts s).writeAll (factWrites c.steps) := by
  obtain ⟨hanswers, hsurrenders⟩ := hx.of_takes h
  have hstop : c.stop? = none := by rw [Course.stop?, hok]
  rw [hstop] at hsurrenders
  exact facts_of_answers hanswers hsurrenders.refusal?_eq_none

end Ledger

/-! ### Steady ledgers -/

/-- The same answer, with the samples in another order. -/
inductive Evaluation.Reordered : Evaluation → Evaluation → Prop
  | silent : Reordered .silent .silent
  | failed (elapsed : Duration) (e : BillingError) :
      Reordered (.answered elapsed (.error e)) (.answered elapsed (.error e))
  | answered (elapsed : Duration) {samples samples' : List Sample} : samples.Perm samples' →
      Reordered (.answered elapsed (.ok samples)) (.answered elapsed (.ok samples'))

/-- A ledger that takes a fact or does not, for what the fact is, and whose source of metrics has
its answers ready: the `n`-th evaluation to come gets the `n`-th of them, whatever is asked of the
database before. -/
structure SteadyLedger (σ : Type) extends Ledger σ where
  accepts : FactKey → Float → Bool
  upcoming : σ → Nat → String → Timestamp → Evaluation
  accepts_eq : ∀ {key quantity s reply s'}, execute (.upsertFact key quantity) s = (reply, s') →
    (Reply.first? Fact.ofRow? reply).isSome = accepts key quantity
  evaluate_eq : ∀ {text time s answer s'}, evaluate text time s = (answer, s') →
    answer = upcoming s 0 text time
  upcoming_evaluate : ∀ {text time s answer s'}, evaluate text time s = (answer, s') →
    upcoming s' = fun n => upcoming s (n + 1)
  upcoming_execute : ∀ {q s reply s'}, execute q s = (reply, s') → upcoming s' = upcoming s

/-- The same answers are to come, with their samples in another order. -/
def SteadyLedger.Similar (books : SteadyLedger σ) (s t : σ) : Prop :=
  ∀ n text time, (books.upcoming s n text time).Reordered (books.upcoming t n text time)

/-! ### A ledger in memory -/

/-- The facts put in so far, and the answers that the source of metrics has left. -/
structure Books where
  writes : List (FactKey × Float)
  evaluations : List Evaluation

namespace Books

/-- The number of the record that answers a statement. -/
def number : Statement → Nat
  | .findQuery _ _ => 1
  | .subQueries _ _ => 2
  | .upsertHour _ => 3
  | .upsertFact _ _ => 4
  | .findRecord .products keys _ => 100 + (keys.headD "").length
  | .findRecord .discounts keys _ => 200 + (keys.headD "").length
  | .upsertTenant source => 300 + source.length
  | .upsertCategory source => 400 + source.length
  | _ => 0

def environment : Environment Books where
  reachable := fun _ => true
  control := fun _ s => (none, s)
  execute := fun q s => (.ok (.rows [Report.anyRow (number q) "memory"]),
    { s with writes := s.writes ++ q.factWrite?.toList })
  evaluate := fun _ _ s =>
    (s.evaluations.headD .silent, { s with evaluations := s.evaluations.tail })
  reconcile := fun _ s => (.error [], s)

/-- Every fact is taken, under identifiers that the texts in a statement decide. -/
def ledger : SteadyLedger Books where
  toEnvironment := environment
  answer := fun q => .ok (.rows [Report.anyRow (number q) "memory"])
  facts := fun s => FactTable.writeAll (fun _ => none) s.writes
  execute_eq := by
    intro q s reply s' _ h
    exact (congrArg Prod.fst h).symm
  facts_execute := by
    intro q s outcome s' h
    obtain rfl := congrArg Prod.snd h
    exact FactTable.writeAll_append _ _ _
  facts_control := by
    intro k s s' h
    obtain rfl := congrArg Prod.snd h
    rfl
  facts_evaluate := by
    intro text time s answer s' h
    obtain rfl := congrArg Prod.snd h
    rfl
  facts_reconcile := by
    intro mapping s answer s' h
    obtain rfl := congrArg Prod.snd h
    rfl
  accepts := fun _ _ => true
  upcoming := fun s n _ _ => s.evaluations.getD n .silent
  accepts_eq := by
    intro key quantity s reply s' h
    obtain rfl := congrArg Prod.fst h
    rfl
  evaluate_eq := by
    intro text time s answer s' h
    obtain rfl := congrArg Prod.fst h
    cases s with
    | mk writes evaluations => cases evaluations <;> rfl
  upcoming_evaluate := by
    intro text time s answer s' h
    obtain rfl := congrArg Prod.snd h
    cases s with
    | mk writes evaluations => cases evaluations <;> rfl
  upcoming_execute := by
    intro q s reply s' h
    obtain rfl := congrArg Prod.snd h
    rfl

/-- No facts yet, and samples to come for a query and for the one under it. -/
def ofSamples (main below : List Sample) : Books :=
  ⟨[], [.answered ⟨5⟩ (.ok main), .answered ⟨5⟩ (.ok below)]⟩

theorem similar_ofSamples {main main' below below' : List Sample} (hmain : main.Perm main')
    (hbelow : below.Perm below') :
    ledger.Similar (.ofSamples main below) (.ofSamples main' below') := by
  intro n text time
  match n with
  | 0 => exact .answered _ hmain
  | 1 => exact .answered _ hbelow
  | n + 2 => exact .silent

/-- The same facts, and the samples of other books to come. -/
def restock (s other : Books) : Books := { s with evaluations := other.evaluations }

theorem facts_restock (s other : Books) : ledger.facts (s.restock other) = ledger.facts s := rfl

end Books

end UsageBilling
