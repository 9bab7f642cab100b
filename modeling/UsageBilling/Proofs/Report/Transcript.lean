import UsageBilling.Proofs.Store.Reply
import UsageBilling.Report.Run
import UsageBilling.Session.Script

/-!
# The transcript of an ingested hour

Which statements an hour is stored by, with which identifiers.  `Report.SampleSteps` is the block of
a sample, `Report.QuerySteps` that of a query: one evaluation at the end of the hour and then one
block for each sample it brought.

`Report.ingest_steps` : whenever an hour is ingested, the steps are the lookup of the query, its
block, the lookup of the queries right under it, and one block for each of these in the order of
the reply.  A fact bears the identifiers from the replies to its own sample, the identifier of the
query whose sample it is, and the value of the sample.
-/

namespace UsageBilling.Report

open Session Store

variable {σ : Type}

/-! ### Blocks of steps -/

/-- The steps that store a sample of a query for the hour that starts at a time: its tenant, its
category, its product, its discount, the hour with its place in the calendar, and the fact with the
identifiers of these six. -/
inductive SampleSteps (query : Query) (time : Timestamp) (sample : Sample) : List Event → Prop
  | intro {tenantName categoryName productText : String} {key : SourceKey} {tenant : Tenant}
      {category : Category} {product : Product} {discount : Discount} {hour : HourRecord}
      {fact : Fact} {t c p d h f : List Event} :
      sample.label tenantLabel = .ok tenantName →
      sample.label categoryLabel = .ok categoryName →
      sample.label productLabel = .ok productText →
      SourceKey.parse productText = .ok key →
      Settled Tenant.ofRow? (.upsertTenant tenantName) tenant t →
      Settled Category.ofRow? (.upsertCategory categoryName) category c →
      Found Product.ofRow? (.findRecord .products key.lookupKeys time) product p →
      Found Discount.ofRow? (.findRecord .discounts key.lookupKeys time) discount d →
      Settled HourRecord.ofRow?
        (.upsertHour ⟨time, time.date.1, time.date.2.1, time.date.2.2, time.hour⟩) hour h →
      Found Fact.ofRow? (.upsertFact
        ⟨hour.id, query.id, tenant.id, category.id, product.id, discount.id⟩ sample.value) fact f →
      SampleSteps query time sample (t ++ (c ++ (p ++ (d ++ (h ++ f)))))

/-- The steps that store `count` samples of a query for the hour from `time` to `hourEnd`: the
evaluation, and one block for each sample in order. -/
def QuerySteps (time hourEnd : Timestamp) (query : Query) (count : Nat) (steps : List Event) :
    Prop :=
  ∃ (elapsed : Duration) (samples : List Sample) (blocks : List (List Event)),
    List.Forall₂ (SampleSteps query time) samples blocks ∧ count = samples.length ∧
      steps = .evaluation query.query hourEnd (.answered elapsed (.ok samples)) :: blocks.flatten

/-- The steps that store `n` samples for the hour from `time` under a name: the lookup of the
query, its block, the lookup of the queries right under it, and one block for each of these in
order.  `parts` has the number of samples and the block of each. -/
def FamilySteps (name : String) (time : Timestamp) (n : Nat) (steps : List Event) : Prop :=
  ∃ (hourEnd : Timestamp) (main : Query) (found : Reply) (count : Nat) (block : List Event)
    (below : List Query) (listed : Reply) (parts : List (Nat × List Event)),
    time.addHour? = some hourEnd ∧
    Reply.first? Query.ofRow? found = some main ∧
    QuerySteps time hourEnd main count block ∧
    Reply.all? Query.ofRow? listed = some below ∧
    List.Forall₂ (fun query part => QuerySteps time hourEnd query part.1 part.2) below parts ∧
    n = (parts.map Prod.fst).foldl (· + ·) count ∧
    steps = [.statement (.findQuery name time) found] ++ block ++
      [.statement (.subQueries main.id time) listed] ++ (parts.map Prod.snd).flatten

/-! ### One function after the other -/

theorem mapError_eq_ok {ε ε' α : Type} {f : ε → ε'} {x : Except ε α} {a : α} :
    x.mapError f = .ok a ↔ x = .ok a := by
  cases x <;> simp [Except.mapError]

theorem bind_eq_ok {ε α β : Type} {x : Except ε α} {f : α → Except ε β} {b : β} :
    (x >>= f) = .ok b ↔ ∃ a, x = .ok a ∧ f a = .ok b := by
  cases x <;> simp [bind, Except.bind]

/-- A usage holds what the labels and the value of its sample say. -/
theorem ofSample_eq_ok {query : Query} {s : Sample} {u : Usage}
    (h : Usage.ofSample query s = .ok u) :
    s.label tenantLabel = .ok u.tenant ∧ s.label categoryLabel = .ok u.category ∧
      (∃ text, s.label productLabel = .ok text ∧ SourceKey.parse text = .ok u.product) ∧
      u.quantity = s.value := by
  simp only [Usage.ofSample, bind_eq_ok, mapError_eq_ok] at h
  obtain ⟨category, hc, tenant, ht, text, hp, key, hk, hfinite⟩ := h
  split at hfinite
  · cases hfinite
    exact ⟨ht, hc, ⟨text, hp, hk⟩, rfl⟩
  · cases hfinite

theorem yields_requireHourStart {time : Timestamp} :
    Yields (requireHourStart time : Session σ Unit) fun _ steps =>
      time.isHourStart ∧ steps = [] := by
  unfold requireHourStart
  split
  · next h => exact .pure ⟨h, rfl⟩
  · exact .fail

theorem yields_evaluate {o : ReportOptions} {text : String} {time : Timestamp} :
    Yields (evaluate o text time : Session σ (List Sample)) fun samples steps =>
      ∃ elapsed, steps = [.evaluation text time (.answered elapsed (.ok samples))] := by
  refine Yields.ask.bind ?_
  rintro answer _ rfl
  refine Yields.record.bind ?_
  rintro _ _ rfl
  cases answer with
  | silent =>
    cases o.queryLimit with
    | none => exact .stop
    | some limit => exact .fail
  | answered elapsed outcome =>
    by_cases hw : (o.queryLimit.all fun l => elapsed.nanos ≤ l.nanos) = true
    · simp only [Evaluation.within, hw, if_true]
      have hout : Yields (Session.ofExcept id outcome : Session σ (List Sample))
          fun samples steps => ∃ t, [Event.evaluation text time (.answered elapsed outcome)] ++
            steps = [.evaluation text time (.answered t (.ok samples))] := by
        refine Yields.ofExcept.mono ?_
        rintro samples _ ⟨rfl, rfl⟩
        exact ⟨elapsed, rfl⟩
      split
      · refine Yields.measure.bind ?_
        rintro _ _ rfl
        exact hout
      · exact hout
    · simp only [Evaluation.within, hw]
      cases o.queryLimit with
      | none => exact .stop
      | some limit => exact .fail

theorem yields_store {query : Query} {time : Timestamp} {s : Sample} {u : Usage}
    (hu : Usage.ofSample query s = .ok u) :
    Yields (store query (.ofTimestamp time) u : Session σ Fact) fun _ steps =>
      SampleSteps query time s steps := by
  obtain ⟨ht, hc, ⟨text, hp, hk⟩, hq⟩ := ofSample_eq_ok hu
  refine yields_insertOrSelect.bind fun tenant _ htenant => ?_
  refine yields_insertOrSelect.bind fun category _ hcategory => ?_
  refine yields_findRecord.bind fun product _ hproduct => ?_
  refine yields_findRecord.bind fun discount _ hdiscount => ?_
  refine yields_insertOrSelect.bind fun hour _ hhour => ?_
  refine yields_upsertFact.mono fun fact _ hfact => ?_
  rw [hq] at hfact
  exact .intro ht hc hp hk htenant hcategory hproduct hdiscount hhour hfact

theorem yields_ingestSample {query : Query} {time : Timestamp} (s : Sample) :
    Yields (ingestSample query (.ofTimestamp time) s : Session σ Unit) fun _ steps =>
      SampleSteps query time s steps := by
  refine Yields.ofExcept.bind ?_
  rintro u _ ⟨hu, rfl⟩
  refine (yields_store hu).bind fun _ steps hsteps => .pure ?_
  simpa using hsteps

theorem yields_ingestQuery {o : ReportOptions} {time : Timestamp} (query : Query) :
    Yields (ingestQuery o time query : Session σ Nat) fun count steps =>
      ∃ hourEnd, time.addHour? = some hourEnd ∧ QuerySteps time hourEnd query count steps := by
  refine Yields.inRange.bind ?_
  rintro hourEnd _ ⟨hend, rfl⟩
  refine yields_evaluate.bind ?_
  rintro samples _ ⟨elapsed, rfl⟩
  refine (Yields.forM yields_ingestSample samples).bind ?_
  rintro _ _ ⟨blocks, hblocks, rfl⟩
  exact .pure ⟨hourEnd, hend, elapsed, samples, blocks, hblocks, rfl, by simp⟩

theorem yields_ingestFamily {o : ReportOptions} {name : String} {time : Timestamp} :
    Yields (ingestFamily o name time : Session σ Nat) (FamilySteps name time) := by
  refine yields_findQuery.bind ?_
  rintro main _ ⟨found, hmain, rfl⟩
  refine (yields_ingestQuery main).bind ?_
  rintro count block ⟨hourEnd, hend, hblock⟩
  refine yields_subQueries.bind ?_
  rintro below _ ⟨listed, hbelow, rfl⟩
  -- all queries look at the end of the same hour
  have hquery : ∀ query, Yields (ingestQuery o time query : Session σ Nat) fun count steps =>
      QuerySteps time hourEnd query count steps := by
    refine fun query => (yields_ingestQuery query).mono ?_
    rintro count steps ⟨hourEnd', hend', hsteps⟩
    obtain rfl : hourEnd = hourEnd' := Option.some.inj (hend.symm.trans hend')
    exact hsteps
  refine (Yields.mapM hquery below).bind ?_
  rintro _ _ ⟨parts, hparts, rfl, rfl⟩
  exact .pure ⟨hourEnd, main, found, count, block, below, listed, parts, hend, hmain, hblock,
    hbelow, hparts, rfl, by simp⟩

theorem yields_ingest {o : ReportOptions} {name : String} {time : Timestamp} :
    Yields (ingest o name time : Session σ Nat) fun n steps =>
      time.isHourStart ∧ FamilySteps name time n steps := by
  refine yields_requireHourStart.bind ?_
  rintro _ _ ⟨hstart, rfl⟩
  exact yields_ingestFamily.mono fun n steps h => ⟨hstart, h⟩

/-! ### Nothing but statements and queries -/

theorem plain_requireHourStart (time : Timestamp) :
    Plain (requireHourStart time : Session σ Unit) := by
  unfold requireHourStart
  split
  · exact .pure ()
  · exact .fail _

theorem plain_evaluate (o : ReportOptions) (text : String) (time : Timestamp) :
    Plain (evaluate o text time : Session σ (List Sample)) := by
  refine .evaluate fun answer => ?_
  cases answer.within o.queryLimit with
  | none =>
    cases o.queryLimit with
    | none => exact .stop .stalled
    | some limit => exact .fail _
  | some answered =>
    obtain ⟨elapsed, outcome⟩ := answered
    by_cases hm : o.measured
    · simp only [hm, if_true]
      exact .bind (.measure _) fun _ => .ofExcept id outcome
    · simp only [hm]
      exact .ofExcept id outcome

theorem plain_store (query : Query) (hour : HourBucket) (u : Usage) :
    Plain (store query hour u : Session σ Fact) :=
  .bind (plain_insertOrSelect _ _ _ _) fun _ =>
  .bind (plain_insertOrSelect _ _ _ _) fun _ =>
  .bind (plain_findRecord _ _ _ _) fun _ =>
  .bind (plain_findRecord _ _ _ _) fun _ =>
  .bind (plain_insertOrSelect _ _ _ _) fun _ =>
  plain_upsertFact _ _

theorem plain_ingestSample (query : Query) (hour : HourBucket) (s : Sample) :
    Plain (ingestSample query hour s : Session σ Unit) :=
  .bind (.ofExcept id _) fun u => .bind (plain_store query hour u) fun _ => .pure ()

theorem plain_ingestQuery (o : ReportOptions) (time : Timestamp) (query : Query) :
    Plain (ingestQuery o time query : Session σ Nat) :=
  .bind (.inRange _) fun hourEnd =>
  .bind (plain_evaluate o query.query hourEnd) fun samples =>
  .bind (.forM (plain_ingestSample query _) samples) fun _ => .pure _

theorem plain_ingestFamily (o : ReportOptions) (name : String) (time : Timestamp) :
    Plain (ingestFamily o name time : Session σ Nat) :=
  .bind (plain_findQuery name time) fun main =>
  .bind (plain_ingestQuery o time main) fun _ =>
  .bind (.fetchAll Query.ofRow? _) fun below =>
  .bind (.mapM (plain_ingestQuery o time) below) fun _ => .pure _

theorem plain_ingest (o : ReportOptions) (name : String) (time : Timestamp) :
    Plain (ingest o name time : Session σ Nat) :=
  .bind (plain_requireHourStart time) fun _ => plain_ingestFamily o name time

/-! ### The transcript -/

/-- **Every fact belongs to the sample it came from.**  When an hour is ingested, the steps are
those of `FamilySteps`, and the replies in them are those of the outside, in order. -/
theorem ingest_steps {env : Environment σ} {w w' : World σ} {o : ReportOptions} {name : String}
    {time : Timestamp} {n : Nat} (h : runIn env w (ingest o name time) = (.ok n, w')) :
    ∃ steps, w'.trace = w.trace ++ steps ∧ env.Answers w.outside steps w'.outside ∧
      time.isHourStart ∧ FamilySteps name time n steps :=
  yields_ingest.exists_answers (plain_ingest o name time) h

/-! ### An hour of memory -/

def smallId (n : Nat) : Uuid := ⟨⟨n % twoPow 128, Nat.mod_lt n (by decide)⟩⟩

/-- A row with a cell for every column that is read while an hour is ingested. -/
def anyRow (n : Nat) (text : String) : Row :=
  let id := Cell.uuid (smallId n)
  [("id", id), ("source", .text text), ("name", .text text), ("description", .text text),
    ("query", .text text), ("unit", .text text), ("during", .range Validity.unbounded.toRange),
    ("amount", .decimal .zero), ("discount", .decimal .zero),
    ("timestamp", .timestamp ⟨0, 0, by decide⟩), ("year", .int 1970), ("month", .int 1),
    ("day", .int 1), ("hour", .int 0), ("date_time_id", id), ("query_id", id), ("tenant_id", id),
    ("category_id", id), ("product_id", id), ("discount_id", id), ("quantity", .float 0)]

/-- Replies of one row each, but none at `0`. -/
def rowReplies (ids : List Nat) : List Reply :=
  ids.map fun n => .ok (.rows (if n = 0 then [] else [anyRow n "memory"]))

/-- Two samples of the query itself and one of the only query under it; the first tenant takes a
second try. -/
def memoryScript : Script where
  reachable := true
  faults := []
  replies := rowReplies [1, 0, 2, 3, 4, 5, 6, 7, 8, 9, 10, 11, 6, 12, 13, 2, 3, 4, 5, 6, 14]
  evaluations :=
    [.answered ⟨5⟩ (.ok [.withDimensions "c:namespace" "acme" "memory:c:acme:namespace" 4,
      .withDimensions "c:other" "umbrella" "memory:c:umbrella:other" 2]),
     .answered ⟨5⟩ (.ok [.withDimensions "c:namespace" "acme" "memory:c:acme:namespace" 1])]
  reconciliations := []

/-- The hour from 23 January 2020, 17:00. -/
def memoryHour : Timestamp := ⟨1579798800, 0, by decide⟩

/-- How the hour is ingested. -/
def memoryRun : Except Stop Nat × World Script :=
  runIn Script.environment ⟨memoryScript, [], .zero⟩
    (ingest ⟨none, false, true⟩ "memory" memoryHour)

theorem ingest_steps_memory :
    memoryRun = (.ok 3, memoryRun.2) ∧
      ∃ steps, memoryRun.2.trace = steps ∧
        Script.environment.Answers memoryScript steps memoryRun.2.outside ∧
        memoryHour.isHourStart ∧ FamilySteps "memory" memoryHour 3 steps := by
  have hok : memoryRun.1 = .ok 3 := by decide +kernel
  have h : memoryRun = (.ok 3, memoryRun.2) := by rw [← hok]
  exact ⟨h, ingest_steps h⟩

end UsageBilling.Report
