import UsageBilling.Proofs.Report.Conformance
import UsageBilling.Proofs.SourceKey.RoundTrip

/-!
# Samples that are refused

A sample is checked before anything is asked for it, and the first check that fails ends the storing
of the samples it is among.

* `Sample.Malformed` : what makes a sample malformed; `Defect` has the error for it, which is that
  of the first check that fails.
* `Report.Fetches p` : courses that ask for records by statements of `p` and give up at the first
  that they do not get.
* `Report.conforms_ingestSample` : a sample is refused, interrupted or stored.
* `Report.conforms_samples` : so are samples one after the other, and `Report.Halted` says what is
  done when one is not stored.
-/

namespace UsageBilling

/-! ### Defects -/

/-- A number that is not finite is not a number or infinite. -/
theorem isFinite_eq_false_iff {x : Float} : x.isFinite = false ↔ x.isNaN ∨ x.isInf := by
  unfold Float.isFinite Float.isNaN Float.isInf Float.Model.isFinite Float.Model.isNaN
    Float.Model.isInf
  cases x.toModel.unpack with
  | notANumber => exact ⟨fun _ => .inl rfl, fun _ => rfl⟩
  | infinity => exact ⟨fun _ => .inr rfl, fun _ => rfl⟩
  | zero | finite => exact ⟨nofun, by rintro (h | h) <;> cases h⟩

/-- The text has four or five segments. -/
def SourceKey.IsKeyText (s : String) : Prop := separatorCount s = 3 ∨ separatorCount s = 4

/-- The sample lacks a label that ingestion needs, its product is no source key, or its value is no
finite number. -/
def Sample.Malformed (s : Sample) : Prop :=
  s.labels.get? categoryLabel = none ∨ s.labels.get? tenantLabel = none ∨
    s.labels.get? productLabel = none ∨
    (∃ text, s.labels.get? productLabel = some text ∧ ¬ SourceKey.IsKeyText text) ∨
    s.value.isNaN ∨ s.value.isInf

/-- What a malformed sample of a query is told of with: the first of its defects in the order
category, tenant, product, source key, value. -/
inductive Defect (query : Query) (s : Sample) : BillingError → Prop
  | category : s.labels.get? categoryLabel = none →
      Defect query s (.validation (.missingLabel categoryLabel))
  | tenant {category : String} : s.labels.get? categoryLabel = some category →
      s.labels.get? tenantLabel = none → Defect query s (.validation (.missingLabel tenantLabel))
  | product {category tenant : String} : s.labels.get? categoryLabel = some category →
      s.labels.get? tenantLabel = some tenant → s.labels.get? productLabel = none →
      Defect query s (.validation (.missingLabel productLabel))
  | sourceKey {category tenant text : String} : s.labels.get? categoryLabel = some category →
      s.labels.get? tenantLabel = some tenant → s.labels.get? productLabel = some text →
      ¬ SourceKey.IsKeyText text →
      Defect query s (.sourceKey ⟨text, SourceKey.separatorCount text + 1⟩)
  | value {category tenant text : String} : s.labels.get? categoryLabel = some category →
      s.labels.get? tenantLabel = some tenant → s.labels.get? productLabel = some text →
      SourceKey.IsKeyText text → s.value.isNaN ∨ s.value.isInf →
      Defect query s (.validation (.nonFiniteValue query.name text s.value))

section Defects

variable {query : Query} {s : Sample} {e : BillingError}

theorem malformed_of_value (h : s.value.isFinite = false) : s.Malformed :=
  .inr (.inr (.inr (.inr (isFinite_eq_false_iff.1 h))))

/-- What is left to check when the three labels are there. -/
theorem ofSample_of_labels {category tenant text : String}
    (hc : s.labels.get? categoryLabel = some category)
    (ht : s.labels.get? tenantLabel = some tenant)
    (hp : s.labels.get? productLabel = some text) :
    Usage.ofSample query s =
      match SourceKey.parse text with
      | .error e => .error (.sourceKey e)
      | .ok key => if s.value.isFinite then .ok ⟨category, tenant, key, s.value⟩
        else .error (.validation (.nonFiniteValue query.name text s.value)) := by
  unfold Usage.ofSample Sample.label
  rw [hc, ht, hp]
  show ((SourceKey.parse text).mapError BillingError.sourceKey >>= _) = _
  cases SourceKey.parse text <;> rfl

/-- **A sample is refused with the first of its defects**, and one without defects has a usage. -/
theorem ofSample_cases (query : Query) (s : Sample) :
    (∃ e, Usage.ofSample query s = .error e ∧ Defect query s e) ∨
      ∃ u, Usage.ofSample query s = .ok u ∧ ¬ s.Malformed := by
  cases hc : s.labels.get? categoryLabel with
  | none => exact .inl ⟨_, by simp [Usage.ofSample, Sample.label, hc]; rfl, .category hc⟩
  | some category =>
  cases ht : s.labels.get? tenantLabel with
  | none => exact .inl ⟨_, by simp [Usage.ofSample, Sample.label, hc, ht]; rfl, .tenant hc ht⟩
  | some tenant =>
  cases hp : s.labels.get? productLabel with
  | none =>
    exact .inl ⟨_, by simp [Usage.ofSample, Sample.label, hc, ht, hp]; rfl, .product hc ht hp⟩
  | some text =>
  rw [ofSample_of_labels hc ht hp]
  cases hk : SourceKey.parse text with
  | error e =>
    have hnot : ¬ SourceKey.IsKeyText text := fun h => by
      obtain ⟨k, hok⟩ := SourceKey.exists_parse_iff.2 h
      rw [hk] at hok
      cases hok
    obtain rfl := SourceKey.eq_of_parse_eq_error hk
    exact .inl ⟨_, rfl, .sourceKey hc ht hp hnot⟩
  | ok k =>
    have hkey : SourceKey.IsKeyText text := SourceKey.exists_parse_iff.1 ⟨k, hk⟩
    cases hv : s.value.isFinite with
    | false => exact .inl ⟨_, rfl, .value hc ht hp hkey (isFinite_eq_false_iff.1 hv)⟩
    | true =>
      refine .inr ⟨_, rfl, ?_⟩
      rintro (h | h | h | ⟨text', h, hnot⟩ | h)
      · simp [hc] at h
      · simp [ht] at h
      · simp [hp] at h
      · obtain rfl : text = text' := Option.some.inj (hp.symm.trans h)
        exact hnot hkey
      · rw [← isFinite_eq_false_iff, hv] at h
        cases h

end Defects

namespace Session

/-- What is known of the results of a session is known of its courses. -/
theorem Conforms.yields {σ α : Type} {x : Session σ α} {P : Course α → Prop}
    {spec : α → List Event → Prop} (hx : Conforms x P) (hspec : Yields x spec) :
    Conforms x fun c => P c ∧ ∀ a, c.result = .ok a → spec a c.steps := by
  intro env s
  obtain ⟨c, s', htakes, hanswers, hc⟩ := hx env s
  exact ⟨c, s', htakes, hanswers, hc, fun a hok => hspec.of_takes htakes hok⟩

end Session

namespace Report

open Session Store

variable {σ α : Type} {query : Query} {time : Timestamp}

/-! ### Storing a sample -/

/-- The statements that store a sample of a query for the hour that starts at a time. -/
inductive Stores (query : Query) (time : Timestamp) (s : Sample) : Statement → Prop
  | tenant {name : String} : s.label tenantLabel = .ok name → Stores query time s (.upsertTenant name)
  | category {name : String} : s.label categoryLabel = .ok name →
      Stores query time s (.upsertCategory name)
  | record {text : String} {key : SourceKey} (table : CatalogTable) :
      s.label productLabel = .ok text → SourceKey.parse text = .ok key →
      Stores query time s (.findRecord table key.lookupKeys time)
  | hour : Stores query time s
      (.upsertHour ⟨time, time.date.1, time.date.2.1, time.date.2.2, time.hour⟩)
  | fact {key : FactKey} : key.queryId = query.id → Stores query time s (.upsertFact key s.value)

/-- The reply does not bring the record that a statement for a sample asks for. -/
def Lacks : Statement → Reply → Prop
  | .upsertTenant _, reply => reply.first? Tenant.ofRow? = none
  | .upsertCategory _, reply => reply.first? Category.ofRow? = none
  | .findRecord .products _ _, reply => reply.first? Product.ofRow? = none
  | .findRecord .discounts _ _, reply => reply.first? Discount.ofRow? = none
  | .upsertHour _, reply => reply.first? HourRecord.ofRow? = none
  | .upsertFact _ _, reply => reply.first? Fact.ofRow? = none
  | _, _ => False

/-- Statements of `p` only. -/
def Asks (p : Statement → Prop) (steps : List Event) : Prop :=
  ∀ e ∈ steps, ∃ q reply, e = .statement q reply ∧ p q

/-- Statements of `p`, of which the last does not bring what it asks for. -/
structure Fails (p : Statement → Prop) (steps : List Event) : Prop where
  asks : Asks p steps
  last : ∃ lead q reply, steps = lead ++ [.statement q reply] ∧ Lacks q reply

/-- The courses that ask for records by statements of `p` and give up at the first that they do not
get. -/
structure Fetches (p : Statement → Prop) (c : Course α) : Prop where
  asks : Asks p c.steps
  fails : ∀ stop, c.result = .error stop → ∃ e, stop = .failed e ∧ Fails p c.steps

section Fetches

variable {p : Statement → Prop} {read? : Row → Option α} {q : Statement}

theorem Asks.append {steps steps' : List Event} (h : Asks p steps) (h' : Asks p steps') :
    Asks p (steps ++ steps') := List.forall_mem_append.2 ⟨h, h'⟩

theorem Asks.single (hq : p q) (reply : Reply) : Asks p [.statement q reply] :=
  fun _ he => ⟨q, reply, List.mem_singleton.1 he, hq⟩

theorem Fails.after {steps steps' : List Event} (h : Asks p steps) (h' : Fails p steps') :
    Fails p (steps ++ steps') := by
  obtain ⟨lead, q, reply, rfl, hlacks⟩ := h'.last
  exact ⟨h.append h'.asks, steps ++ lead, q, reply, (List.append_assoc ..).symm, hlacks⟩

theorem Fetches.pure (a : α) : Fetches p (⟨[], .ok a, id⟩ : Course α) :=
  ⟨fun _ he => absurd he List.not_mem_nil, fun _ h => by cases h⟩

theorem Fetches.after {steps : List Event} {g : ReportMetrics → ReportMetrics} {c : Course α}
    (h : Asks p steps) (hc : Fetches p c) : Fetches p (c.after steps g) where
  asks := h.append hc.asks
  fails := fun stop hstop => by
    obtain ⟨e, he, hfails⟩ := hc.fails stop hstop
    exact ⟨e, he, .after h hfails⟩

theorem Fetches.bind {β : Type} {x : Session σ α} {f : α → Session σ β}
    (hx : Conforms x (Fetches p)) (hf : ∀ a, Conforms (f a) (Fetches p)) :
    Conforms (x >>= f) (Fetches p) :=
  Conforms.bind hx (fun _ a _ hc => (hf a).mono fun _ hd => .after hc.asks hd)
    fun _ _ _ hc => ⟨hc.asks, fun stop h => hc.fails stop (by cases h; rfl)⟩

/-- Asking for a record, and going on with something else if there is none. -/
theorem conforms_fetch {k : Option α → Session σ α} (hq : p q)
    (hlacks : ∀ reply : Reply, reply.first? read? = none → Lacks q reply)
    (hsome : ∀ a, k (some a) = Pure.pure a)
    (hnone : ∀ reply, Lacks q reply →
      Conforms (k none) fun d => Fetches p (d.after [.statement q reply] id)) :
    Conforms (Session.fetchFirst? read? q >>= k) (Fetches p) := by
  refine (Conforms.fetchFirst? read? q).bind (fun _ a? _ hc => ?_) fun _ _ _ hc => ?_
  · obtain ⟨reply, hc⟩ := hc
    obtain ⟨rfl, hresult, rfl⟩ := Course.mk.inj hc
    cases a? with
    | some a =>
      rw [hsome]
      exact .pure (.after (.single hq reply) (.pure a))
    | none =>
      exact hnone reply (hlacks reply
        (Reply.first?_of_isEmpty (Reply.firstResult_eq_none_iff.1 hresult.symm)))
  · obtain ⟨reply, hc⟩ := hc
    obtain ⟨rfl, hresult, rfl⟩ := Course.mk.inj hc
    obtain ⟨⟨e, rfl⟩, hfirst⟩ := Reply.first?_of_firstResult_eq_error hresult.symm
    refine ⟨.single hq reply, fun stop h => ?_⟩
    cases h
    exact ⟨e, rfl, .single hq reply, [], q, reply, rfl, hlacks reply hfirst⟩

/-- Demanding a record. -/
theorem conforms_demand {k : Option α → Session σ α} {e : BillingError} (hq : p q)
    (hlacks : ∀ reply : Reply, reply.first? read? = none → Lacks q reply)
    (hsome : ∀ a, k (some a) = Pure.pure a) (hnone : k none = Session.fail e) :
    Conforms (Session.fetchFirst? read? q >>= k) (Fetches p) := by
  refine conforms_fetch hq hlacks hsome fun reply hreply => ?_
  rw [hnone]
  refine .stop ⟨.single hq reply, fun stop h => ?_⟩
  cases h
  exact ⟨e, rfl, .single hq reply, [], q, reply, rfl, hreply⟩

theorem conforms_insert {table key : String} (hq : p q)
    (hlacks : ∀ reply : Reply, reply.first? read? = none → Lacks q reply) :
    Conforms (insertOrSelect read? table key q : Session σ α) (Fetches p) :=
  conforms_fetch hq hlacks (fun _ => rfl) fun reply _ =>
    (conforms_demand hq hlacks (fun _ => rfl) rfl).mono fun _ hd => .after (.single hq reply) hd

end Fetches

/-- Storing asks for the records of the sample, and gives up at the first that it does not get. -/
theorem conforms_store {s : Sample} {u : Usage} (hu : Usage.ofSample query s = .ok u) :
    Conforms (store query (.ofTimestamp time) u : Session σ Fact)
      (Fetches (Stores query time s)) := by
  obtain ⟨ht, hc, ⟨text, hp, hk⟩, hq⟩ := ofSample_eq_ok hu
  have htenant : Conforms (upsertTenant u.tenant : Session σ Tenant)
      (Fetches (Stores query time s)) := conforms_insert (.tenant ht) (fun _ h => h)
  have hcategory : Conforms (upsertCategory u.category : Session σ Category)
      (Fetches (Stores query time s)) := conforms_insert (.category hc) (fun _ h => h)
  have hproduct : Conforms (findProduct u.product.lookupKeys time : Session σ Product)
      (Fetches (Stores query time s)) :=
    conforms_demand (.record .products hp hk) (fun _ h => h) (fun _ => rfl) rfl
  have hdiscount : Conforms (findDiscount u.product.lookupKeys time : Session σ Discount)
      (Fetches (Stores query time s)) :=
    conforms_demand (.record .discounts hp hk) (fun _ h => h) (fun _ => rfl) rfl
  have hhour : Conforms (upsertHour (.ofTimestamp time) : Session σ HourRecord)
      (Fetches (Stores query time s)) := conforms_insert .hour (fun _ h => h)
  have hfact (key : FactKey) (hkey : key.queryId = query.id) :
      Conforms (upsertFact key u.quantity : Session σ Fact) (Fetches (Stores query time s)) :=
    conforms_demand (hq ▸ .fact hkey) (fun _ h => h) (fun _ => rfl) rfl
  exact Fetches.bind htenant fun _ => Fetches.bind hcategory fun _ => Fetches.bind hproduct fun _ =>
    Fetches.bind hdiscount fun _ => Fetches.bind hhour fun _ => hfact _ rfl

/-- The courses of a sample of a query for the hour that starts at a time. -/
inductive Ingests (query : Query) (time : Timestamp) (s : Sample) : Course Unit → Prop
  | refused {e : BillingError} : Defect query s e → Ingests query time s ⟨[], .error (.failed e), id⟩
  | interrupted {steps : List Event} {e : BillingError} {g : ReportMetrics → ReportMetrics} :
      ¬ s.Malformed → Fails (Stores query time s) steps →
      Ingests query time s ⟨steps, .error (.failed e), g⟩
  | stored {steps : List Event} {g : ReportMetrics → ReportMetrics} :
      ¬ s.Malformed → Asks (Stores query time s) steps → SampleSteps query time s steps →
      Ingests query time s ⟨steps, .ok (), g⟩

/-- **A sample is checked before anything is asked for it.** -/
theorem conforms_ingestSample (query : Query) (time : Timestamp) (s : Sample) :
    Conforms (ingestSample query (.ofTimestamp time) s : Session σ Unit)
      (Ingests query time s) := by
  unfold ingestSample
  rcases ofSample_cases query s with ⟨e, hu, hdefect⟩ | ⟨u, hu, hwell⟩
  · rw [hu]
    exact .stop (.refused hdefect)
  · rw [hu]
    refine ((conforms_store hu).yields (yields_store hu)).bind (fun steps fact g hc => ?_)
      fun steps stop g hc => ?_
    · have hstored : Ingests query time s ⟨steps, .ok (), g⟩ :=
        .stored hwell hc.1.asks (hc.2 fact rfl)
      exact .pure (by simpa [Course.after] using hstored)
    · obtain ⟨e, rfl, hfails⟩ := hc.1.fails stop rfl
      exact .interrupted hwell hfails

/-! ### The samples of an answer -/

/-- The storing of samples comes to an early end: at a sample that is refused, before anything is
asked for it, or at one that is not malformed, by a statement for it.  The samples in front are
stored completely and in order. -/
inductive Halted (query : Query) (time : Timestamp) :
    List Sample → List Event → BillingError → Prop
  | refused {good rest : List Sample} {x : Sample} {blocks : List (List Event)}
      {e : BillingError} : (∀ y ∈ good, ¬ y.Malformed) →
      List.Forall₂ (SampleSteps query time) good blocks → Defect query x e →
      Halted query time (good ++ x :: rest) blocks.flatten e
  | interrupted {good rest : List Sample} {x : Sample} {blocks : List (List Event)}
      {block : List Event} {e : BillingError} : (∀ y ∈ good, ¬ y.Malformed) →
      List.Forall₂ (SampleSteps query time) good blocks → ¬ x.Malformed →
      Fails (Stores query time x) block →
      Halted query time (good ++ x :: rest) (blocks.flatten ++ block) e

theorem Halted.cons {s : Sample} {samples : List Sample} {block steps : List Event}
    {e : BillingError} (hwell : ¬ s.Malformed) (hblock : SampleSteps query time s block)
    (h : Halted query time samples steps e) :
    Halted query time (s :: samples) (block ++ steps) e := by
  cases h with
  | refused hgood hblocks hdefect =>
    exact .refused (List.forall_mem_cons.2 ⟨hwell, hgood⟩) (.cons hblock hblocks) hdefect
  | interrupted hgood hblocks hx hfails =>
    rw [← List.append_assoc]
    exact .interrupted (List.forall_mem_cons.2 ⟨hwell, hgood⟩) (.cons hblock hblocks) hx hfails

/-- The courses of the samples of an answer. -/
inductive IngestsAll (query : Query) (time : Timestamp) (samples : List Sample) :
    Course Unit → Prop
  | halted {steps : List Event} {e : BillingError} {g : ReportMetrics → ReportMetrics} :
      Asks (fun _ => True) steps → Halted query time samples steps e →
      IngestsAll query time samples ⟨steps, .error (.failed e), g⟩
  | stored {steps : List Event} {g : ReportMetrics → ReportMetrics} :
      Asks (fun _ => True) steps → (∀ s ∈ samples, ¬ s.Malformed) →
      IngestsAll query time samples ⟨steps, .ok (), g⟩

theorem Asks.any {p : Statement → Prop} {steps : List Event} (h : Asks p steps) :
    Asks (fun _ => True) steps := fun e he => by
  obtain ⟨q, reply, heq, -⟩ := h e he
  exact ⟨q, reply, heq, trivial⟩

/-- **Samples are stored one after the other until one is refused or not stored.** -/
theorem conforms_samples (query : Query) (time : Timestamp) (samples : List Sample) :
    Conforms (samples.forM (ingestSample query (.ofTimestamp time)) : Session σ Unit)
      (IngestsAll query time samples) := by
  induction samples with
  | nil => exact .pure (.stored (by simp [Asks]) (by simp))
  | cons s samples ih =>
    refine (conforms_ingestSample query time s).bind (fun steps _ g hc => ?_)
      fun steps stop g hc => ?_
    · cases hc with
      | stored hwell hasks hblock =>
        refine ih.mono fun d hd => ?_
        cases hd with
        | halted hrest hhalted =>
          exact .halted (hasks.any.append hrest) (hhalted.cons hwell hblock)
        | stored hrest hall =>
          exact .stored (hasks.any.append hrest) (List.forall_mem_cons.2 ⟨hwell, hall⟩)
    · cases hc with
      | refused hdefect =>
        exact .halted (by simp [Asks]) (.refused (List.forall_mem_nil _) .nil hdefect)
      | interrupted hwell hfails =>
        exact .halted hfails.asks.any
          (.interrupted (List.forall_mem_nil _) .nil hwell hfails)

end Report

end UsageBilling
