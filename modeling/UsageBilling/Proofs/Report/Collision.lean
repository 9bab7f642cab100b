import Mathlib.Data.List.Nodup
import Mathlib.Data.Option.Basic
import UsageBilling.Proofs.Report.Atomicity
import UsageBilling.Proofs.Store.FactTable

/-!
# Samples that share a fact

A fact bears identifiers, not labels.  A `Directory` is what a database that answers consistently
goes by; it decides which `Dimensions` the usage in a sample is filed under.  Labels beyond the
three that are read play no part in it, and neither does what two source keys differ in when they
come down to the same product and the same discount.

* `Directory.factKey?_inj` : the key of a fact tells the query and the dimensions.
* `Report.Files` : steps that store samples under queries, and when their keys are different.
* `Report.run_keeps_samples_iff` : a successful run writes as many facts as it says exactly if the
  samples of each query have dimensions of their own.
* `Report.run_overwrites_sample` : two classes of one namespace can share a fact.
-/

namespace UsageBilling

open Session Store

/-! ### Consistent answers -/

/-- What a database that answers consistently goes by. -/
structure Directory where
  /-- The identifier of the tenant of a source. -/
  tenant : String → Option Uuid
  /-- The identifier of the category of a source. -/
  category : String → Option Uuid
  /-- The identifier of an hour. -/
  hour : HourBucket → Option Uuid
  /-- The identifier of the record of a source key at a time. -/
  record : CatalogTable → Timestamp → String → Option Uuid
  tenant_inj : ∀ {source source' id}, tenant source = some id → tenant source' = some id →
    source = source'
  category_inj : ∀ {source source' id}, category source = some id →
    category source' = some id → source = source'

namespace Directory

theorem eq_of_lookup_eq {table : List (String × Uuid)} (h : (table.map Prod.snd).Nodup)
    {a b : String} {id : Uuid} (ha : table.lookup a = some id) (hb : table.lookup b = some id) :
    a = b := by
  obtain ⟨l₁, l₂, rfl, -⟩ := List.lookup_eq_some_iff.1 ha
  obtain ⟨l₃, l₄, heq, -⟩ := List.lookup_eq_some_iff.1 hb
  have hmem : (b, id) ∈ l₁ ++ (a, id) :: l₂ := by
    rw [heq]
    exact List.mem_append_right _ List.mem_cons_self
  exact congrArg Prod.fst (List.inj_on_of_nodup_map h
    (List.mem_append_right _ List.mem_cons_self) hmem rfl)

/-- A directory for one hour, from tables without repeated identifiers. -/
def ofTables (hour : Uuid) (tenants categories products discounts : List (String × Uuid))
    (htenants : (tenants.map Prod.snd).Nodup) (hcategories : (categories.map Prod.snd).Nodup) :
    Directory where
  tenant := fun source => tenants.lookup source
  category := fun source => categories.lookup source
  hour := fun _ => some hour
  record
    | .products, _, key => products.lookup key
    | .discounts, _, key => discounts.lookup key
  tenant_inj := eq_of_lookup_eq htenants
  category_inj := eq_of_lookup_eq hcategories

/-- The record that the first fitting key has. -/
def resolve (d : Directory) (table : CatalogTable) (keys : List String) (time : Timestamp) :
    Option Uuid :=
  keys.findSome? (d.record table time)

/-- The records in the reply of a step are those of the directory, and the queries under a query
have identifiers of their own. -/
def agrees (d : Directory) : Event → Bool
  | .statement (.upsertTenant source) reply =>
    (Reply.first? Tenant.ofRow? reply).all fun tenant => d.tenant source = some tenant.id
  | .statement (.upsertCategory source) reply =>
    (Reply.first? Category.ofRow? reply).all fun category => d.category source = some category.id
  | .statement (.upsertHour bucket) reply =>
    (Reply.first? HourRecord.ofRow? reply).all fun hour => d.hour bucket = some hour.id
  | .statement (.findRecord .products keys time) reply =>
    (Reply.first? Product.ofRow? reply).all fun product =>
      d.resolve .products keys time = some product.id
  | .statement (.findRecord .discounts keys time) reply =>
    (Reply.first? Discount.ofRow? reply).all fun discount =>
      d.resolve .discounts keys time = some discount.id
  | .statement (.subQueries parent _) reply =>
    (Reply.all? Query.ofRow? reply).all fun below => (parent :: below.map Query.id).Nodup
  | _ => true

end Directory

/-! ### Dimensions -/

/-- What the usage in a sample is filed under, apart from the query and the hour. -/
structure Dimensions where
  tenant : String
  category : String
  product : Uuid
  discount : Uuid
  deriving DecidableEq

namespace Directory

variable {d : Directory} {time : Timestamp}

/-- The dimensions of a sample in an hour. -/
def dimensions? (d : Directory) (time : Timestamp) (s : Sample) : Option Dimensions := do
  let tenant ← (s.label tenantLabel).toOption
  let category ← (s.label categoryLabel).toOption
  let text ← (s.label productLabel).toOption
  let key ← (SourceKey.parse text).toOption
  let product ← d.resolve .products key.lookupKeys time
  let discount ← d.resolve .discounts key.lookupKeys time
  some ⟨tenant, category, product, discount⟩

/-- The key of the fact with the dimensions. -/
def factKey? (d : Directory) (time : Timestamp) (query : Uuid) (dims : Dimensions) :
    Option FactKey := do
  let hour ← d.hour ⟨time, time.date.1, time.date.2.1, time.date.2.2, time.hour⟩
  let tenant ← d.tenant dims.tenant
  let category ← d.category dims.category
  some ⟨hour, query, tenant, category, dims.product, dims.discount⟩

/-- A key tells the query and the dimensions. -/
theorem factKey?_inj {query query' : Uuid} {dims dims' : Dimensions} {key : FactKey}
    (h : d.factKey? time query dims = some key) (h' : d.factKey? time query' dims' = some key) :
    query = query' ∧ dims = dims' := by
  simp only [factKey?, Option.bind_eq_bind, Option.bind_eq_some_iff, Option.some.injEq] at h h'
  obtain ⟨hour, -, tenant, ht, category, hc, rfl⟩ := h
  obtain ⟨hour', -, tenant', ht', category', hc', heq⟩ := h'
  obtain ⟨-, hq, rfl, rfl, hp, hd⟩ := FactKey.mk.inj heq
  refine ⟨hq.symm, ?_⟩
  obtain ⟨t, c, p, disc⟩ := dims
  obtain ⟨t', c', p', disc'⟩ := dims'
  obtain rfl : t = t' := d.tenant_inj ht ht'
  obtain rfl : c = c' := d.category_inj hc hc'
  obtain rfl : p' = p := hp
  obtain rfl : disc' = disc := hd
  rfl

end Directory

/-! ### The facts of samples -/

/-- The samples that a step brought. -/
def Event.samples? : Event → Option (List Sample)
  | .evaluation _ _ (.answered _ (.ok samples)) => some samples
  | _ => none

/-- The samples that steps brought, one list for each evaluation. -/
def sampleVectors (steps : List Event) : List (List Sample) := steps.filterMap Event.samples?

theorem sampleVectors_append (steps steps' : List Event) :
    sampleVectors (steps ++ steps') = sampleVectors steps ++ sampleVectors steps' :=
  List.filterMap_append

section Records

variable {α : Type} {read? : Row → Option α} {q : Statement} {a : α} {steps : List Event}

theorem Store.Found.exists_reply (h : Found read? q a steps) :
    ∃ reply, .statement q reply ∈ steps ∧ Reply.first? read? reply = some a := by
  obtain ⟨reply, hreply, rfl⟩ := h
  exact ⟨reply, List.mem_singleton.2 rfl, hreply⟩

theorem Store.Settled.exists_reply (h : Settled read? q a steps) :
    ∃ reply, .statement q reply ∈ steps ∧ Reply.first? read? reply = some a := by
  rcases h with h | ⟨_, again, -, h, rfl⟩
  · exact h.exists_reply
  · obtain ⟨reply, hmem, hreply⟩ := h.exists_reply
    exact ⟨reply, List.mem_cons_of_mem _ hmem, hreply⟩

theorem Store.Found.sampleVectors_eq (h : Found read? q a steps) : sampleVectors steps = [] := by
  obtain ⟨reply, -, rfl⟩ := h
  rfl

theorem Store.Settled.sampleVectors_eq (h : Settled read? q a steps) :
    sampleVectors steps = [] := by
  rcases h with h | ⟨_, again, -, h, rfl⟩
  · exact h.sampleVectors_eq
  · exact h.sampleVectors_eq

theorem Store.Found.factWrites_eq (h : Found read? q a steps) :
    factWrites steps = q.factWrite?.toList := by
  obtain ⟨reply, -, rfl⟩ := h
  cases hq : q.factWrite? <;> simp [factWrites, Event.factWrite?, hq]

theorem Store.Settled.factWrites_eq (h : Settled read? q a steps)
    (hq : q.factWrite? = none) : factWrites steps = [] := by
  have hfound : ∀ {steps}, Found read? q a steps → factWrites steps = [] := by
    intro steps h
    rw [h.factWrites_eq, hq]
    rfl
  rcases h with h | ⟨reply, again, -, h, rfl⟩
  · exact hfound h
  · rw [factWrites_cons_of_none (e := Event.statement q reply) hq, hfound h]

end Records

namespace Directory

variable {d : Directory} {time : Timestamp} {steps : List Event}

theorem tenant_eq {source : String} {tenant : Tenant} (hagrees : ∀ e ∈ steps, d.agrees e)
    (h : Settled Tenant.ofRow? (.upsertTenant source) tenant steps) :
    d.tenant source = some tenant.id := by
  obtain ⟨reply, hmem, hreply⟩ := h.exists_reply
  simpa [agrees, hreply] using hagrees _ hmem

theorem category_eq {source : String} {category : Category} (hagrees : ∀ e ∈ steps, d.agrees e)
    (h : Settled Category.ofRow? (.upsertCategory source) category steps) :
    d.category source = some category.id := by
  obtain ⟨reply, hmem, hreply⟩ := h.exists_reply
  simpa [agrees, hreply] using hagrees _ hmem

theorem hour_eq {bucket : HourBucket} {hour : HourRecord} (hagrees : ∀ e ∈ steps, d.agrees e)
    (h : Settled HourRecord.ofRow? (.upsertHour bucket) hour steps) :
    d.hour bucket = some hour.id := by
  obtain ⟨reply, hmem, hreply⟩ := h.exists_reply
  simpa [agrees, hreply] using hagrees _ hmem

theorem resolve_products_eq {keys : List String} {product : Product}
    (hagrees : ∀ e ∈ steps, d.agrees e)
    (h : Found Product.ofRow? (.findRecord .products keys time) product steps) :
    d.resolve .products keys time = some product.id := by
  obtain ⟨reply, hmem, hreply⟩ := h.exists_reply
  simpa [agrees, hreply] using hagrees _ hmem

theorem resolve_discounts_eq {keys : List String} {discount : Discount}
    (hagrees : ∀ e ∈ steps, d.agrees e)
    (h : Found Discount.ofRow? (.findRecord .discounts keys time) discount steps) :
    d.resolve .discounts keys time = some discount.id := by
  obtain ⟨reply, hmem, hreply⟩ := h.exists_reply
  simpa [agrees, hreply] using hagrees _ hmem

end Directory

namespace Report

variable {d : Directory} {time : Timestamp}

/-- The key of the fact that a sample of a query gets. -/
def sampleKey? (d : Directory) (time : Timestamp) (query : Uuid) (s : Sample) : Option FactKey :=
  (d.dimensions? time s).bind (d.factKey? time query)

/-- A sample that is stored has dimensions, and its fact has their key. -/
theorem SampleSteps.exists_key {query : Query} {s : Sample} {steps : List Event}
    (h : SampleSteps query time s steps) (hagrees : ∀ e ∈ steps, d.agrees e) :
    ∃ key, sampleKey? d time query.id s = some key ∧ factWrites steps = [(key, s.value)] ∧
      sampleVectors steps = [] := by
  obtain @⟨tenantName, categoryName, text, key, tenant, category, product, discount, hour, fact,
    t, c, p, disc, hs, f, ht, hc, hp, hk, htenant, hcategory, hproduct, hdiscount, hhour,
    hfact⟩ := h
  simp only [List.forall_mem_append] at hagrees
  obtain ⟨at', ac, ap, ad, ah, -⟩ := hagrees
  refine ⟨⟨hour.id, query.id, tenant.id, category.id, product.id, discount.id⟩, ?_, ?_, ?_⟩
  · simp [sampleKey?, Directory.dimensions?, Directory.factKey?, ht, hc, hp, hk, Except.toOption,
      Directory.tenant_eq at' htenant, Directory.category_eq ac hcategory,
      Directory.resolve_products_eq ap hproduct, Directory.resolve_discounts_eq ad hdiscount,
      Directory.hour_eq ah hhour]
  · simp only [factWrites_append, htenant.factWrites_eq rfl, hcategory.factWrites_eq rfl,
      hproduct.factWrites_eq, hdiscount.factWrites_eq, hhour.factWrites_eq rfl,
      hfact.factWrites_eq]
    rfl
  · simp only [sampleVectors_append, htenant.sampleVectors_eq, hcategory.sampleVectors_eq,
      hproduct.sampleVectors_eq, hdiscount.sampleVectors_eq, hhour.sampleVectors_eq,
      hfact.sampleVectors_eq]
    rfl

theorem factKey?_queryId {query : Uuid} {dims : Dimensions} {key : FactKey}
    (h : d.factKey? time query dims = some key) : key.queryId = query := by
  simp only [Directory.factKey?, Option.bind_eq_bind, Option.bind_eq_some_iff,
    Option.some.injEq] at h
  obtain ⟨hour, -, tenant, -, category, -, rfl⟩ := h
  rfl

/-- Two samples of a query get one key exactly if they have the same dimensions. -/
theorem sampleKey?_eq_iff {query : Uuid} {s s' : Sample} (hs : (sampleKey? d time query s).isSome) :
    sampleKey? d time query s = sampleKey? d time query s' ↔
      d.dimensions? time s = d.dimensions? time s' := by
  refine ⟨fun h => ?_, fun h => by rw [sampleKey?, sampleKey?, h]⟩
  obtain ⟨key, hkey⟩ := Option.isSome_iff_exists.1 hs
  rw [hkey] at h
  obtain ⟨dims, hdims, hd⟩ := Option.bind_eq_some_iff.1 hkey
  obtain ⟨dims', hdims', hd'⟩ := Option.bind_eq_some_iff.1 h.symm
  rw [hdims, hdims', (Directory.factKey?_inj hd hd').2]

/-! ### The facts of a run -/

/-- Steps that store `n` samples under queries with the given identifiers: one write for each
sample they bring, in order, and as long as the queries are different, the keys are so exactly if
the dimensions of the samples of each query are. -/
structure Files (d : Directory) (time : Timestamp) (queries : List Uuid) (n : Nat)
    (steps : List Event) : Prop where
  count : (factWrites steps).length = n
  values : (factWrites steps).map Prod.snd = (sampleVectors steps).flatten.map Sample.value
  query_mem : ∀ key ∈ (factWrites steps).map Prod.fst, key.queryId ∈ queries
  nodup_iff : queries.Nodup → (((factWrites steps).map Prod.fst).Nodup ↔
    ∀ samples ∈ sampleVectors steps, (samples.map (d.dimensions? time)).Nodup)

/-- Steps without samples and facts. -/
theorem Files.of_nil {steps : List Event} (hwrites : factWrites steps = [])
    (hsamples : sampleVectors steps = []) : Files d time [] 0 steps where
  count := by rw [hwrites, List.length_nil]
  values := by rw [hwrites, hsamples]; rfl
  query_mem := by simp [hwrites]
  nodup_iff := by simp [hwrites, hsamples]

theorem Files.append {queries queries' : List Uuid} {n n' : Nat} {steps steps' : List Event}
    (h : Files d time queries n steps) (h' : Files d time queries' n' steps') :
    Files d time (queries ++ queries') (n + n') (steps ++ steps') where
  count := by rw [factWrites_append, List.length_append, h.count, h'.count]
  values := by
    rw [factWrites_append, sampleVectors_append, List.map_append, h.values, h'.values,
      List.flatten_append, List.map_append]
  query_mem := by
    rw [factWrites_append, List.map_append]
    intro key hkey
    rcases List.mem_append.1 hkey with hkey | hkey
    · exact List.mem_append_left _ (h.query_mem key hkey)
    · exact List.mem_append_right _ (h'.query_mem key hkey)
  nodup_iff := by
    intro hnodup
    obtain ⟨hq, hq', hdisjoint⟩ := List.nodup_append.1 hnodup
    rw [factWrites_append, List.map_append, sampleVectors_append, List.nodup_append,
      List.forall_mem_append, h.nodup_iff hq, h'.nodup_iff hq']
    -- keys of different queries are different anyway
    refine ⟨fun hkeys => ⟨hkeys.1, hkeys.2.1⟩, fun hdims => ⟨hdims.1, hdims.2, ?_⟩⟩
    rintro key hkey _ hkey' rfl
    exact hdisjoint _ (h.query_mem key hkey) _ (h'.query_mem key hkey') rfl

/-- The blocks of samples write their keys and values in order. -/
theorem writes_of_forall₂ {query : Query} {samples : List Sample} {blocks : List (List Event)}
    (h : List.Forall₂ (SampleSteps query time) samples blocks)
    (hagrees : ∀ e ∈ blocks.flatten, d.agrees e) :
    (factWrites blocks.flatten).map (fun w => (some w.1, w.2)) =
        samples.map (fun s => (sampleKey? d time query.id s, s.value)) ∧
      sampleVectors blocks.flatten = [] := by
  induction h with
  | nil => exact ⟨rfl, rfl⟩
  | cons hs _ ih =>
    rw [List.flatten_cons, List.forall_mem_append] at hagrees
    obtain ⟨key, hkey, hwrites, hsamples⟩ := hs.exists_key hagrees.1
    obtain ⟨ih, ih'⟩ := ih hagrees.2
    rw [List.flatten_cons, factWrites_append, sampleVectors_append, hwrites, hsamples, ih',
      List.map_append, ih, List.map_cons, List.map_cons, hkey]
    exact ⟨rfl, rfl⟩

/-- The keys of the samples of one query are different exactly if their dimensions are. -/
theorem nodup_keys_iff {query : Uuid} {samples : List Sample} {keys : List FactKey}
    (h : keys.map some = samples.map (sampleKey? d time query)) :
    keys.Nodup ↔ (samples.map (d.dimensions? time)).Nodup := by
  -- every sample has a key, since each is one of the keys written
  have hsome : ∀ s ∈ samples, (sampleKey? d time query s).isSome := by
    intro s hs
    have hmem := List.mem_map_of_mem (f := sampleKey? d time query) hs
    rw [← h] at hmem
    obtain ⟨key, -, hkey⟩ := List.mem_map.1 hmem
    rw [← hkey]
    rfl
  rw [← List.nodup_map_iff (Option.some_injective FactKey), h, List.Nodup, List.Nodup,
    List.pairwise_map, List.pairwise_map]
  exact List.Pairwise.iff_of_mem fun hs _ => (sampleKey?_eq_iff (hsome _ hs)).not

theorem QuerySteps.files {hourEnd : Timestamp} {query : Query} {count : Nat} {steps : List Event}
    (h : QuerySteps time hourEnd query count steps) (hagrees : ∀ e ∈ steps, d.agrees e) :
    Files d time [query.id] count steps := by
  obtain ⟨elapsed, samples, blocks, hblocks, rfl, rfl⟩ := h
  obtain ⟨hwrites, hsamples⟩ :=
    writes_of_forall₂ hblocks fun e he => hagrees e (List.mem_cons_of_mem _ he)
  have hkeys := congrArg (List.map Prod.fst) hwrites
  have hvalues := congrArg (List.map Prod.snd) hwrites
  simp only [List.map_map, Function.comp_def] at hkeys hvalues
  have hvectors : sampleVectors (.evaluation query.query hourEnd (.answered elapsed (.ok samples))
      :: blocks.flatten) = [samples] := by
    rw [← hsamples]
    rfl
  have hfacts : factWrites (.evaluation query.query hourEnd (.answered elapsed (.ok samples))
      :: blocks.flatten) = factWrites blocks.flatten := factWrites_cons_of_none rfl _
  have hmap : ((factWrites blocks.flatten).map Prod.fst).map some =
      samples.map (sampleKey? d time query.id) := by
    rw [List.map_map]
    exact hkeys
  refine ⟨?_, ?_, ?_, ?_⟩
  · have hlength := congrArg List.length hvalues
    simpa [hfacts] using hlength
  · rw [hfacts, hvectors]
    simpa using hvalues
  · rw [hfacts]
    intro key hkey
    have hmem := List.mem_map_of_mem (f := some) hkey
    rw [hmap] at hmem
    obtain ⟨s, -, hs⟩ := List.mem_map.1 hmem
    obtain ⟨dims, -, hdims⟩ := Option.bind_eq_some_iff.1 hs
    exact List.mem_singleton.2 (factKey?_queryId hdims)
  · intro _
    rw [hfacts, hvectors, List.forall_mem_singleton]
    exact nodup_keys_iff hmap

/-- Further queries file their samples one after the other. -/
theorem Files.append_forall₂ {hourEnd : Timestamp} {ids : List Uuid} {n : Nat}
    {steps : List Event} {queries : List Query} {parts : List (Nat × List Event)}
    (hfiles : Files d time ids n steps)
    (h : List.Forall₂ (fun query part => QuerySteps time hourEnd query part.1 part.2) queries parts)
    (hagrees : ∀ e ∈ (parts.map Prod.snd).flatten, d.agrees e) :
    Files d time (ids ++ queries.map Query.id) ((parts.map Prod.fst).foldl (· + ·) n)
      (steps ++ (parts.map Prod.snd).flatten) := by
  induction h generalizing ids n steps with
  | nil => simpa using hfiles
  | cons hq _ ih =>
    rw [List.map_cons, List.flatten_cons, List.forall_mem_append] at hagrees
    have hmore := ih (hfiles.append (hq.files hagrees.1)) hagrees.2
    rw [List.append_assoc, List.append_assoc] at hmore
    exact hmore

theorem FamilySteps.files {name : String} {n : Nat} {steps : List Event}
    (h : FamilySteps name time n steps) (hagrees : ∀ e ∈ steps, d.agrees e) :
    ∃ queries : List Uuid, queries.Nodup ∧ Files d time queries n steps := by
  obtain ⟨hourEnd, main, found, count, block, below, listed, parts, -, -, hblock, hbelow, hparts,
    rfl, rfl⟩ := h
  simp only [List.forall_mem_append, List.forall_mem_singleton] at hagrees
  obtain ⟨⟨⟨-, hmain⟩, hlisted⟩, hunder⟩ := hagrees
  have hnodup : (main.id :: below.map Query.id).Nodup := by
    simpa [Directory.agrees, hbelow] using hlisted
  refine ⟨_, hnodup, ?_⟩
  have hfound : Files d time [] 0 [.statement (.findQuery name time) found] := .of_nil rfl rfl
  have hlist : Files d time [] 0 [.statement (.subQueries main.id time) listed] := .of_nil rfl rfl
  have hmore := ((hfound.append (hblock.files hmain)).append hlist).append_forall₂ hparts hunder
  simpa using hmore

/-- The samples of each query have dimensions of their own. -/
def Apart (d : Directory) (time : Timestamp) (steps : List Event) : Prop :=
  ∀ samples ∈ sampleVectors steps, (samples.map (d.dimensions? time)).Nodup

/-- **Samples overwrite each other exactly if they share their dimensions.**  A successful run puts
in one fact for each sample, in order and with its value.  The keys of these are different, and as
many facts are written as the run says, exactly if the samples of each query have dimensions of
their own; then each quantity survives the run. -/
theorem run_keeps_samples_iff {o : ReportOptions} {name : String} {σ : Type}
    {env : Environment σ} {s s' : σ} {steps : List Event} {n : Nat}
    {measured : ReportMetrics → ReportMetrics}
    (h : Takes env s (run o name time) ⟨steps, .ok n, measured⟩ s')
    (hagrees : ∀ e ∈ steps, d.agrees e) :
    (factWrites steps).length = n ∧
      (factWrites steps).map Prod.snd = (sampleVectors steps).flatten.map Sample.value ∧
      (((factWrites steps).map Prod.fst).Nodup ↔ Apart d time steps) ∧
      (((factWrites steps).map Prod.fst).dedup.length = n ↔ Apart d time steps) ∧
      (Apart d time steps → ∀ table : FactTable, ∀ w ∈ factWrites steps,
        table.writeAll (factWrites steps) w.1 = some w.2) := by
  -- the start and the commit around the ingestion bring no samples and write no facts
  obtain ⟨inner, hfamily, -, hsteps : steps = _⟩ := run_ok_steps h rfl
  have hinner : ∀ e ∈ inner, d.agrees e := by
    intro e he
    refine hagrees e ?_
    rw [hsteps]
    exact List.mem_cons_of_mem _ (List.mem_append_left _ he)
  obtain ⟨queries, hnodup, hfiles⟩ := hfamily.files hinner
  have hwrites : factWrites steps = factWrites inner := by
    rw [hsteps, factWrites_cons_of_none rfl, factWrites_append]
    exact List.append_nil _
  have hvectors : sampleVectors steps = sampleVectors inner := by
    rw [hsteps, ← List.singleton_append, sampleVectors_append, sampleVectors_append]
    exact List.append_nil _
  have hkeys : ((factWrites steps).map Prod.fst).Nodup ↔ Apart d time steps := by
    rw [hwrites, Apart, hvectors]
    exact hfiles.nodup_iff hnodup
  have hcount : (factWrites steps).length = n := by rw [hwrites, hfiles.count]
  refine ⟨hcount, ?_, hkeys, ?_, fun hapart table w hw => ?_⟩
  · rw [hwrites, hvectors, hfiles.values]
  · rw [← hkeys, ← length_dedup_eq_iff, List.length_map, hcount]
  · exact FactTable.writeAll_of_nodup (hkeys.2 hapart) hw

/-! ### Two hours -/

/-- What the replies of `memoryScript` go by. -/
def memoryDirectory : Directory :=
  .ofTables (smallId 6) [("acme", smallId 2), ("umbrella", smallId 8)]
    [("c:namespace", smallId 3), ("c:other", smallId 9)]
    [("memory:c:acme:namespace", smallId 4), ("memory:c:umbrella:other", smallId 10)]
    [("memory:c:acme:namespace", smallId 5), ("memory:c:umbrella:other", smallId 11)]
    (by decide) (by decide)

/-- The course of a run, as far as it can be read off the world it leaves. -/
theorem exists_takes_of_runIn {o : ReportOptions} {name : String} {s : Script} {n : Nat}
    {trace : List Event}
    (hok : (runIn Script.environment ⟨s, [], .zero⟩ (run o name time)).1 = .ok n)
    (htrace : (runIn Script.environment ⟨s, [], .zero⟩ (run o name time)).2.trace = trace) :
    ∃ g s', Takes Script.environment s (run o name time) ⟨trace, .ok n, g⟩ s' := by
  obtain ⟨g, h⟩ := exists_takes_run_of_ok hok
  rw [htrace] at h
  exact ⟨g, _, h⟩

/-- What a run of one hour of memory adds to the trace. -/
def memorySteps : List Event :=
  (runIn Script.environment ⟨memoryScript, [], .zero⟩
    (run ⟨none, false, true⟩ "memory" memoryHour)).2.trace

theorem run_keeps_samples_memory :
    (∀ e ∈ memorySteps, memoryDirectory.agrees e) ∧
      Apart memoryDirectory memoryHour memorySteps ∧
      (factWrites memorySteps).length = 3 ∧
      (factWrites memorySteps).map Prod.snd = (sampleVectors memorySteps).flatten.map Sample.value ∧
      (((factWrites memorySteps).map Prod.fst).Nodup ↔
        Apart memoryDirectory memoryHour memorySteps) ∧
      (((factWrites memorySteps).map Prod.fst).dedup.length = 3 ↔
        Apart memoryDirectory memoryHour memorySteps) ∧
      (Apart memoryDirectory memoryHour memorySteps → ∀ table : FactTable,
        ∀ w ∈ factWrites memorySteps,
          table.writeAll (factWrites memorySteps) w.1 = some w.2) := by
  have hagrees : ∀ e ∈ memorySteps, memoryDirectory.agrees e := by decide +kernel
  have hapart : Apart memoryDirectory memoryHour memorySteps := by
    unfold Apart
    decide +kernel
  have h : ∃ g s', Takes Script.environment memoryScript
      (run ⟨none, false, true⟩ "memory" memoryHour) ⟨memorySteps, .ok 3, g⟩ s' :=
    exists_takes_of_runIn (by decide +kernel) rfl
  obtain ⟨g, s', h⟩ := h
  have hkept := run_keeps_samples_iff h hagrees
  exact ⟨hagrees, hapart, hkept⟩

/-- Two storage classes of one namespace, of which the catalog knows the namespace only. -/
def classScript : Script where
  reachable := true
  faults := []
  replies := rowReplies [1, 2, 3, 4, 5, 6, 7, 2, 3, 4, 5, 6, 7, 0]
  evaluations :=
    [.answered ⟨5⟩ (.ok [.withDimensions "c:namespace" "acme" "storage:c:acme:namespace:ssd" 4,
      .withDimensions "c:namespace" "acme" "storage:c:acme:namespace:hdd" 2]),
     .answered ⟨5⟩ (.ok [])]
  reconciliations := []

/-- What the replies of `classScript` go by. -/
def classDirectory : Directory :=
  .ofTables (smallId 6) [("acme", smallId 2)] [("c:namespace", smallId 3)]
    [("storage:c:acme:namespace", smallId 4)] [("storage:c", smallId 5)] (by decide) (by decide)

/-- What a run of that hour adds to the trace. -/
def classSteps : List Event :=
  (runIn Script.environment ⟨classScript, [], .zero⟩
    (run ⟨none, false, true⟩ "storage" memoryHour)).2.trace

/-- Samples with different labels can share a fact: the run says two, and one is there. -/
theorem run_overwrites_sample :
    (∃ g s', Takes Script.environment classScript (run ⟨none, false, true⟩ "storage" memoryHour)
        ⟨classSteps, .ok 2, g⟩ s') ∧
      (∀ e ∈ classSteps, classDirectory.agrees e) ∧
      (∀ samples ∈ sampleVectors classSteps, (samples.map Sample.labels).Nodup) ∧
      ¬ ((factWrites classSteps).map Prod.fst).Nodup ∧
      ((factWrites classSteps).map Prod.fst).dedup.length = 1 := by
  refine ⟨exists_takes_of_runIn (by decide +kernel) rfl, ?_, ?_, ?_, ?_⟩
  · decide +kernel
  · decide +kernel
  · decide +kernel
  · decide +kernel

end Report

end UsageBilling
