import UsageBilling.Proofs.Report.Collision
import UsageBilling.Proofs.Store.Ledger

/-!
# Running an hour again

What a run asks depends on the labels of the samples it is brought, not on their values.  On a
`Ledger`, two runs of an hour that are brought samples with the same labels ask the same questions,
so they put in facts under the same keys, and the later quantities replace the earlier ones.

* `Report.labelVectors` : the labels of the samples that steps brought.
* `Report.SampleSteps.questions_eq`, `Report.QuerySteps.alike`, `Report.FamilySteps.alike` : from
  the samples up to the whole hour, the same labels lead to the same questions.
* `Report.run_replaces` : running an hour again replaces the facts of the first run.
-/

namespace UsageBilling

open Session Store

variable {α σ : Type} {steps steps' : List Event} {answer : Statement → Reply}

/-! ### Lookups that are answered alike -/

section Lookups

variable {read? : Row → Option α} {q : Statement} {a b : α}

theorem Store.Found.of_repliedBy (h : Found read? q a steps) (hq : q.isLookup)
    (hsteps : ∀ e ∈ steps, e.RepliedBy answer) :
    (answer q).first? read? = some a ∧ steps = [.statement q (answer q)] := by
  obtain ⟨reply, hfirst, rfl⟩ := h
  obtain rfl : reply = answer q := hsteps _ (List.mem_singleton_self _) hq
  exact ⟨hfirst, rfl⟩

/-- A lookup that is answered alike each time is asked once. -/
theorem Store.Settled.of_repliedBy (h : Settled read? q a steps) (hq : q.isLookup)
    (hsteps : ∀ e ∈ steps, e.RepliedBy answer) :
    (answer q).first? read? = some a ∧ steps = [.statement q (answer q)] := by
  rcases h with h | ⟨reply, again, hempty, h, rfl⟩
  · exact h.of_repliedBy hq hsteps
  · -- the first reply has no rows, but the second one, which is the same, has some
    obtain ⟨hfirst, hagain⟩ := List.forall_mem_cons.1 hsteps
    obtain rfl : reply = answer q := hfirst hq
    have hsome := (h.of_repliedBy hq hagain).1
    rw [Reply.first?_of_isEmpty hempty] at hsome
    cases hsome

/-- The same lookup brings the same record. -/
theorem Store.Settled.unique (h : Settled read? q a steps) (h' : Settled read? q b steps')
    (hq : q.isLookup) (hsteps : ∀ e ∈ steps, e.RepliedBy answer)
    (hsteps' : ∀ e ∈ steps', e.RepliedBy answer) : a = b ∧ steps = steps' := by
  obtain ⟨hfirst, rfl⟩ := h.of_repliedBy hq hsteps
  obtain ⟨hfirst', rfl⟩ := h'.of_repliedBy hq hsteps'
  exact ⟨Option.some.inj (hfirst.symm.trans hfirst'), rfl⟩

theorem Store.Found.unique (h : Found read? q a steps) (h' : Found read? q b steps')
    (hq : q.isLookup) (hsteps : ∀ e ∈ steps, e.RepliedBy answer)
    (hsteps' : ∀ e ∈ steps', e.RepliedBy answer) : a = b ∧ steps = steps' :=
  Settled.unique (.inl h) (.inl h') hq hsteps hsteps'

end Lookups

namespace Report

variable {name : String} {time hourEnd : Timestamp} {query : Query} {a b : Sample}

/-! ### The labels of samples -/

/-- The labels of the samples that steps brought, one list for each evaluation. -/
def labelVectors (steps : List Event) : List (List Labels) :=
  (sampleVectors steps).map (List.map Sample.labels)

theorem labelVectors_append (steps steps' : List Event) :
    labelVectors (steps ++ steps') = labelVectors steps ++ labelVectors steps' := by
  rw [labelVectors, sampleVectors_append, List.map_append]
  rfl

theorem label_congr (h : a.labels = b.labels) (label : String) : a.label label = b.label label := by
  rw [Sample.label, Sample.label, h]

/-- **The block of a sample is decided by its labels**, up to the quantity of the fact. -/
theorem SampleSteps.questions_eq (h : SampleSteps query time a steps)
    (h' : SampleSteps query time b steps') (hlabels : a.labels = b.labels)
    (hsteps : ∀ e ∈ steps, e.RepliedBy answer) (hsteps' : ∀ e ∈ steps', e.RepliedBy answer) :
    steps.map Event.question = steps'.map Event.question := by
  obtain @⟨tenantName, categoryName, text, key, tenant, category, product, discount, hour, fact,
    t, c, p, d, hs, f, ht, hc, hp, hk, htenant, hcategory, hproduct, hdiscount, hhour, hfact⟩ := h
  obtain @⟨tenantName', categoryName', text', key', tenant', category', product', discount', hour',
    fact', t', c', p', d', hs', f', ht', hc', hp', hk', htenant', hcategory', hproduct', hdiscount',
    hhour', hfact'⟩ := h'
  -- the same labels name the same dimensions
  rw [label_congr hlabels] at ht hc hp
  obtain rfl : tenantName = tenantName' := Except.ok.inj (ht.symm.trans ht')
  obtain rfl : categoryName = categoryName' := Except.ok.inj (hc.symm.trans hc')
  obtain rfl : text = text' := Except.ok.inj (hp.symm.trans hp')
  obtain rfl : key = key' := Except.ok.inj (hk.symm.trans hk')
  -- and the same lookups bring the same records
  simp only [List.forall_mem_append] at hsteps hsteps'
  obtain ⟨at₁, ac, ap, ad, ah, -⟩ := hsteps
  obtain ⟨at', ac', ap', ad', ah', -⟩ := hsteps'
  obtain ⟨rfl, rfl⟩ := htenant.unique htenant' rfl at₁ at'
  obtain ⟨rfl, rfl⟩ := hcategory.unique hcategory' rfl ac ac'
  obtain ⟨rfl, rfl⟩ := hproduct.unique hproduct' rfl ap ap'
  obtain ⟨rfl, rfl⟩ := hdiscount.unique hdiscount' rfl ad ad'
  obtain ⟨rfl, rfl⟩ := hhour.unique hhour' rfl ah ah'
  obtain ⟨reply, -, rfl⟩ := hfact
  obtain ⟨reply', -, rfl⟩ := hfact'
  simp only [List.map_append]
  rfl

/-- The block of a sample brings no samples and writes its value. -/
theorem SampleSteps.writes_value (h : SampleSteps query time a steps) :
    (factWrites steps).map Prod.snd = [a.value] ∧ sampleVectors steps = [] := by
  obtain ⟨-, -, -, -, htenant, hcategory, hproduct, hdiscount, hhour, hfact⟩ := h
  constructor
  · simp only [factWrites_append, htenant.factWrites_eq rfl, hcategory.factWrites_eq rfl,
      hproduct.factWrites_eq, hdiscount.factWrites_eq, hhour.factWrites_eq rfl,
      hfact.factWrites_eq]
    rfl
  · simp only [sampleVectors_append, htenant.sampleVectors_eq, hcategory.sampleVectors_eq,
      hproduct.sampleVectors_eq, hdiscount.sampleVectors_eq, hhour.sampleVectors_eq,
      hfact.sampleVectors_eq]
    rfl

/-! ### From samples to the hour -/

theorem blocks_questions_eq {samples samples' : List Sample} {blocks blocks' : List (List Event)}
    (h : List.Forall₂ (SampleSteps query time) samples blocks)
    (h' : List.Forall₂ (SampleSteps query time) samples' blocks')
    (hlabels : samples.map Sample.labels = samples'.map Sample.labels)
    (hsteps : ∀ e ∈ blocks.flatten, e.RepliedBy answer)
    (hsteps' : ∀ e ∈ blocks'.flatten, e.RepliedBy answer) :
    blocks.flatten.map Event.question = blocks'.flatten.map Event.question := by
  induction h generalizing samples' blocks' with
  | nil =>
    cases h' with
    | nil => rfl
    | cons _ _ => cases hlabels
  | cons hs _ ih =>
    cases h' with
    | nil => cases hlabels
    | cons hs' hrest' =>
      obtain ⟨hfirst, hlabels⟩ := List.cons.inj hlabels
      rw [List.flatten_cons, List.forall_mem_append] at hsteps hsteps'
      rw [List.flatten_cons, List.flatten_cons, List.map_append, List.map_append,
        hs.questions_eq hs' hfirst hsteps.1 hsteps'.1, ih hrest' hlabels hsteps.2 hsteps'.2]

theorem blocks_write_values {samples : List Sample} {blocks : List (List Event)}
    (h : List.Forall₂ (SampleSteps query time) samples blocks) :
    (factWrites blocks.flatten).map Prod.snd = samples.map Sample.value ∧
      sampleVectors blocks.flatten = [] := by
  induction h with
  | nil => exact ⟨rfl, rfl⟩
  | cons hs _ ih =>
    obtain ⟨hvalue, hsamples⟩ := hs.writes_value
    rw [List.flatten_cons, factWrites_append, sampleVectors_append, List.map_append, hvalue,
      hsamples, ih.1, ih.2]
    exact ⟨rfl, rfl⟩

/-- The steps of a query bring one vector of samples and write the values of these. -/
theorem QuerySteps.exists_samples {count : Nat} (h : QuerySteps time hourEnd query count steps) :
    ∃ samples, sampleVectors steps = [samples] ∧
      (factWrites steps).map Prod.snd = samples.map Sample.value := by
  obtain ⟨elapsed, samples, blocks, hblocks, -, rfl⟩ := h
  obtain ⟨hvalues, hsamples⟩ := blocks_write_values hblocks
  refine ⟨samples, ?_, hvalues⟩
  rw [← List.singleton_append, sampleVectors_append, hsamples]
  rfl

/-- Each query brings one vector, so lists of vectors fall apart query by query. -/
theorem QuerySteps.append_inj {count count' : Nat} {rest rest' : List (List Labels)}
    (h : QuerySteps time hourEnd query count steps)
    (h' : QuerySteps time hourEnd query count' steps')
    (hlabels : labelVectors steps ++ rest = labelVectors steps' ++ rest') :
    labelVectors steps = labelVectors steps' ∧ rest = rest' := by
  obtain ⟨samples, hsamples, -⟩ := h.exists_samples
  obtain ⟨samples', hsamples', -⟩ := h'.exists_samples
  refine List.append_inj hlabels ?_
  rw [labelVectors, labelVectors, hsamples, hsamples']
  rfl

/-- The steps of a query are decided by the labels of its samples, up to quantities. -/
theorem QuerySteps.alike {count count' : Nat} (h : QuerySteps time hourEnd query count steps)
    (h' : QuerySteps time hourEnd query count' steps')
    (hlabels : labelVectors steps = labelVectors steps')
    (hsteps : ∀ e ∈ steps, e.RepliedBy answer) (hsteps' : ∀ e ∈ steps', e.RepliedBy answer) :
    count = count' ∧ steps.map Event.question = steps'.map Event.question := by
  obtain ⟨elapsed, samples, blocks, hblocks, rfl, rfl⟩ := h
  obtain ⟨elapsed', samples', blocks', hblocks', rfl, rfl⟩ := h'
  obtain ⟨-, hsamples⟩ := blocks_write_values hblocks
  obtain ⟨-, hsamples'⟩ := blocks_write_values hblocks'
  have hvector : samples.map Sample.labels = samples'.map Sample.labels := by
    rw [← List.singleton_append, ← List.singleton_append (l := blocks'.flatten),
      labelVectors_append, labelVectors_append, labelVectors, labelVectors, labelVectors,
      labelVectors, hsamples, hsamples'] at hlabels
    exact (List.cons.inj hlabels).1
  refine ⟨by simpa using congrArg List.length hvector, ?_⟩
  rw [List.map_cons, List.map_cons, blocks_questions_eq hblocks hblocks' hvector
    (List.forall_mem_cons.1 hsteps).2 (List.forall_mem_cons.1 hsteps').2]
  rfl

/-- The steps of several queries, one after the other. -/
theorem parts_alike {below : List Query} {parts parts' : List (Nat × List Event)}
    (h : List.Forall₂ (fun query part => QuerySteps time hourEnd query part.1 part.2) below parts)
    (h' : List.Forall₂ (fun query part => QuerySteps time hourEnd query part.1 part.2) below parts')
    (hlabels :
      labelVectors (parts.map Prod.snd).flatten = labelVectors (parts'.map Prod.snd).flatten)
    (hsteps : ∀ e ∈ (parts.map Prod.snd).flatten, e.RepliedBy answer)
    (hsteps' : ∀ e ∈ (parts'.map Prod.snd).flatten, e.RepliedBy answer) :
    parts.map Prod.fst = parts'.map Prod.fst ∧
      (parts.map Prod.snd).flatten.map Event.question =
        (parts'.map Prod.snd).flatten.map Event.question := by
  induction h generalizing parts' with
  | nil =>
    cases h'
    exact ⟨rfl, rfl⟩
  | cons hq _ ih =>
    cases h' with
    | cons hq' hrest' =>
      rw [List.map_cons, List.flatten_cons, List.forall_mem_append] at hsteps hsteps'
      rw [List.map_cons, List.map_cons, List.flatten_cons, List.flatten_cons, labelVectors_append,
        labelVectors_append] at hlabels
      obtain ⟨hfirst, hrest⟩ := hq.append_inj hq' hlabels
      obtain ⟨hcount, hquestions⟩ := hq.alike hq' hfirst hsteps.1 hsteps'.1
      obtain ⟨hcounts, hmore⟩ := ih hrest' hrest hsteps.2 hsteps'.2
      simp only [List.map_cons, List.flatten_cons, List.map_append, hcount, hcounts, hquestions,
        hmore, and_self]

theorem parts_write_values {below : List Query} {parts : List (Nat × List Event)}
    (h : List.Forall₂ (fun query part => QuerySteps time hourEnd query part.1 part.2) below parts) :
    (factWrites (parts.map Prod.snd).flatten).map Prod.snd =
      (sampleVectors (parts.map Prod.snd).flatten).flatten.map Sample.value := by
  induction h with
  | nil => rfl
  | cons hq _ ih =>
    obtain ⟨samples, hsamples, hvalues⟩ := hq.exists_samples
    rw [List.map_cons, List.flatten_cons, factWrites_append, sampleVectors_append, List.map_append,
      hvalues, hsamples, ih, List.flatten_append, List.map_append]
    simp

/-- **An hour is decided by the labels of its samples**, up to quantities. -/
theorem FamilySteps.alike {n n' : Nat} (h : FamilySteps name time n steps)
    (h' : FamilySteps name time n' steps') (hlabels : labelVectors steps = labelVectors steps')
    (hsteps : ∀ e ∈ steps, e.RepliedBy answer) (hsteps' : ∀ e ∈ steps', e.RepliedBy answer) :
    n = n' ∧ steps.map Event.question = steps'.map Event.question := by
  obtain ⟨hourEnd, main, found, count, block, below, listed, parts, hend, hmain, hblock, hbelow,
    hparts, rfl, rfl⟩ := h
  obtain ⟨hourEnd', main', found', count', block', below', listed', parts', hend', hmain', hblock',
    hbelow', hparts', rfl, rfl⟩ := h'
  simp only [List.forall_mem_append, List.forall_mem_singleton] at hsteps hsteps'
  obtain ⟨⟨⟨hfound, ab⟩, hlisted⟩, ap⟩ := hsteps
  obtain ⟨⟨⟨hfound', ab'⟩, hlisted'⟩, ap'⟩ := hsteps'
  obtain rfl : hourEnd = hourEnd' := Option.some.inj (hend.symm.trans hend')
  obtain rfl : found = found' := (hfound rfl).trans (hfound' rfl).symm
  obtain rfl : main = main' := Option.some.inj (hmain.symm.trans hmain')
  obtain rfl : listed = listed' := (hlisted rfl).trans (hlisted' rfl).symm
  obtain rfl : below = below' := Option.some.inj (hbelow.symm.trans hbelow')
  -- the lookups bring no samples, and the query itself brings the first vector
  have hvectors : labelVectors block ++ labelVectors (parts.map Prod.snd).flatten =
      labelVectors block' ++ labelVectors (parts'.map Prod.snd).flatten := by
    simp only [labelVectors_append, List.append_assoc] at hlabels
    exact hlabels
  obtain ⟨hfirst, hrest⟩ := hblock.append_inj hblock' hvectors
  obtain ⟨rfl, hquestions⟩ := hblock.alike hblock' hfirst ab ab'
  obtain ⟨hcounts, hmore⟩ := parts_alike hparts hparts' hrest ap ap'
  refine ⟨by rw [hcounts], ?_⟩
  simp only [List.map_append, hquestions, hmore]

/-- The quantities are the values of the samples, in order. -/
theorem FamilySteps.write_values {n : Nat} (h : FamilySteps name time n steps) :
    (factWrites steps).map Prod.snd = (sampleVectors steps).flatten.map Sample.value := by
  obtain ⟨hourEnd, main, found, count, block, below, listed, parts, -, -, hblock, -, hparts, -,
    rfl⟩ := h
  obtain ⟨samples, hsamples, hvalues⟩ := hblock.exists_samples
  have hlookup (q : Statement) (reply : Reply) (hq : q.factWrite? = none) :
      factWrites [.statement q reply] = [] ∧ sampleVectors [.statement q reply] = [] :=
    ⟨factWrites_cons_of_none (e := Event.statement q reply) hq [], rfl⟩
  obtain ⟨hwrites, hvectors⟩ := hlookup (.findQuery name time) found rfl
  obtain ⟨hwrites', hvectors'⟩ := hlookup (.subQueries main.id time) listed rfl
  simp only [factWrites_append, sampleVectors_append, List.map_append, List.flatten_append,
    parts_write_values hparts, hvalues, hsamples, hwrites, hwrites', hvectors, hvectors']
  simp

/-! ### Runs -/

theorem eq_of_map_fst_of_map_snd {β : Type} {l l' : List (α × β)}
    (hfst : l.map Prod.fst = l'.map Prod.fst) (hsnd : l.map Prod.snd = l'.map Prod.snd) :
    l = l' := by
  rw [← List.zip_unzip l, ← List.zip_unzip l', List.unzip_eq_map, List.unzip_eq_map, hfst, hsnd]

section Runs

variable {ledger : Ledger σ} {o o' : ReportOptions} {s s₁ t t₁ : σ} {c c' : Course Nat} {n n' : Nat}

/-- The quantities of a run are the values of its samples, in order. -/
theorem run_write_values {env : Environment σ} (h : Takes env s (run o name time) c s₁)
    (hok : c.result = .ok n) :
    (factWrites c.steps).map Prod.snd = (sampleVectors c.steps).flatten.map Sample.value := by
  obtain ⟨inner, hfamily, -, hsteps⟩ := run_ok_steps h hok
  have hcommit : factWrites [.control .commit none] = [] := rfl
  have hvectors : sampleVectors [.control .commit none] = [] := rfl
  have hinner := hfamily.write_values
  rw [hsteps, factWrites_cons_of_none rfl, factWrites_append, hcommit, List.append_nil, hinner,
    ← List.singleton_append, sampleVectors_append, sampleVectors_append, hvectors, List.append_nil]
  rfl

/-- Runs that are brought samples with the same labels ask the same questions. -/
theorem run_alike (h : Takes ledger.toEnvironment s (run o name time) c s₁)
    (hok : c.result = .ok n) (h' : Takes ledger.toEnvironment t (run o' name time) c' t₁)
    (hok' : c'.result = .ok n') (hlabels : labelVectors c.steps = labelVectors c'.steps) :
    n = n' ∧ c.steps.map Event.question = c'.steps.map Event.question := by
  have hreplied : ∀ e ∈ c.steps, e.RepliedBy ledger.answer :=
    Ledger.repliedBy_of_answers ((Surrenders.universal.obeys_run o name time).of_takes h).1
  have hreplied' : ∀ e ∈ c'.steps, e.RepliedBy ledger.answer :=
    Ledger.repliedBy_of_answers ((Surrenders.universal.obeys_run o' name time).of_takes h').1
  obtain ⟨inner, hfamily, -, hsteps⟩ := run_ok_steps h hok
  obtain ⟨inner', hfamily', -, hsteps'⟩ := run_ok_steps h' hok'
  rw [hsteps, List.forall_mem_cons, List.forall_mem_append] at hreplied
  rw [hsteps', List.forall_mem_cons, List.forall_mem_append] at hreplied'
  have hinner (steps : List Event) :
      labelVectors (.control .start none :: (steps ++ [.control .commit none])) =
        labelVectors steps := by
    rw [← List.singleton_append, labelVectors_append, labelVectors_append]
    exact List.append_nil _
  rw [hsteps, hsteps', hinner, hinner] at hlabels
  obtain ⟨hcount, hquestions⟩ := hfamily.alike hfamily' hlabels hreplied.2.1 hreplied'.2.1
  refine ⟨hcount, ?_⟩
  rw [hsteps, hsteps', List.map_cons, List.map_cons, List.map_append, List.map_append, hquestions]

/-- The same labels and the same values lead to the same writes. -/
theorem factWrites_eq_of_samples (h : Takes ledger.toEnvironment s (run o name time) c s₁)
    (hok : c.result = .ok n) (h' : Takes ledger.toEnvironment t (run o' name time) c' t₁)
    (hok' : c'.result = .ok n') (hsamples : sampleVectors c.steps = sampleVectors c'.steps) :
    factWrites c.steps = factWrites c'.steps := by
  have hlabels : labelVectors c.steps = labelVectors c'.steps := by
    rw [labelVectors, labelVectors, hsamples]
  refine eq_of_map_fst_of_map_snd ?_ ?_
  · rw [keys_factWrites, keys_factWrites, (run_alike h hok h' hok' hlabels).2]
  · rw [run_write_values h hok, run_write_values h' hok', hsamples]

/-- **Running an hour again replaces what was there.**  Two successful runs of an hour that are
brought samples with the same labels ask the same, quantities apart, and have the same count.  When
the second starts with the table that the first left, the table afterwards is that of the second
alone: each of its facts has the value of its last sample, and nothing is left of the first.  In
particular the same samples leave the table as it is. -/
theorem run_replaces (h : Takes ledger.toEnvironment s (run o name time) c s₁)
    (hok : c.result = .ok n) (h' : Takes ledger.toEnvironment t (run o' name time) c' t₁)
    (hok' : c'.result = .ok n') (hlabels : labelVectors c.steps = labelVectors c'.steps) :
    c.steps.map Event.question = c'.steps.map Event.question ∧ n = n' ∧
      (factWrites c'.steps).map Prod.snd = (sampleVectors c'.steps).flatten.map Sample.value ∧
      (ledger.facts t = ledger.facts s₁ →
        (∀ {o'' : ReportOptions} {u u₁ : σ} {d : Course Nat} {m : Nat},
          Takes ledger.toEnvironment u (run o'' name time) d u₁ → d.result = .ok m →
          sampleVectors d.steps = sampleVectors c'.steps → ledger.facts u = ledger.facts s →
          ledger.facts t₁ = ledger.facts u₁) ∧
        (∀ before key quantity after, factWrites c'.steps = before ++ (key, quantity) :: after →
          key ∉ after.map Prod.fst → ledger.facts t₁ key = some quantity) ∧
        (∀ key, key ∉ (factWrites c'.steps).map Prod.fst →
          ledger.facts t₁ key = ledger.facts s key) ∧
        (sampleVectors c.steps = sampleVectors c'.steps → ledger.facts t₁ = ledger.facts s₁)) := by
  obtain ⟨hcount, hquestions⟩ := run_alike h hok h' hok' hlabels
  refine ⟨hquestions, hcount, run_write_values h' hok', fun hfacts => ?_⟩
  have hkeys : (factWrites c.steps).map Prod.fst = (factWrites c'.steps).map Prod.fst := by
    rw [keys_factWrites, keys_factWrites, hquestions]
  have hfirst := Ledger.facts_of_takes (Surrenders.universal.obeys_run o name time) h hok
  have hsecond := Ledger.facts_of_takes (Surrenders.universal.obeys_run o' name time) h' hok'
  have hlast : ledger.facts t₁ = (ledger.facts s).writeAll (factWrites c'.steps) := by
    rw [hsecond, hfacts, hfirst, FactTable.writeAll_writeAll]
    rw [hkeys]
    exact List.Subset.refl _
  refine ⟨?_, ?_, ?_, ?_⟩
  · intro o'' u u₁ d m hd hdok hsamples hu
    rw [hlast, Ledger.facts_of_takes (Surrenders.universal.obeys_run o'' name time) hd hdok, hu,
      factWrites_eq_of_samples hd hdok h' hok' hsamples]
  · intro before key quantity after hwrites hkey
    rw [hlast, hwrites]
    exact FactTable.writeAll_of_last hkey
  · intro key hkey
    rw [hlast]
    exact FactTable.writeAll_of_not_mem hkey
  · intro hsamples
    rw [hlast, hfirst, factWrites_eq_of_samples h hok h' hok' hsamples]

end Runs

/-! ### Two runs of one hour -/

/-- Two samples of memory, the first with the given value, and one under them. -/
def memoryBooks (value : Float) : Books :=
  .ofSamples [.withDimensions "c:namespace" "acme" "memory:c:acme:namespace" value,
    .withDimensions "c:other" "umbrella" "memory:c:umbrella:other" 2]
    [.withDimensions "c:namespace" "acme" "memory:c:acme:namespace" 1]

/-- What a run of the hour comes to, and the world it leaves. -/
def memoryOutcome (s : Books) : Except Stop Nat × World Books :=
  runIn Books.ledger.toEnvironment ⟨s, [], .zero⟩ (run ⟨none, false, true⟩ "memory" memoryHour)

theorem exists_takes_memory {s : Books} (hok : (memoryOutcome s).1 = .ok n) :
    ∃ g, Takes Books.ledger.toEnvironment s (run ⟨none, false, true⟩ "memory" memoryHour)
      ⟨(memoryOutcome s).2.trace, .ok n, g⟩ (memoryOutcome s).2.outside :=
  exists_takes_run_of_ok hok

/-- The books after a run with a value of 4, before one with a value of 5. -/
def booksBetween : Books := (memoryOutcome (memoryBooks 4)).2.outside.restock (memoryBooks 5)

/-- The key of the first fact. -/
def memoryKey : FactKey :=
  ⟨smallId 3, smallId 1, smallId 304, smallId 411, smallId 123, smallId 223⟩

theorem run_replaces_memory :
    (memoryOutcome (memoryBooks 4)).2.trace.map Event.question =
        (memoryOutcome booksBetween).2.trace.map Event.question ∧
      Books.ledger.facts booksBetween memoryKey = some 4 ∧
      Books.ledger.facts (memoryOutcome booksBetween).2.outside memoryKey = some 5 := by
  have hok : (memoryOutcome (memoryBooks 4)).1 = .ok 3 := by decide +kernel
  have hok' : (memoryOutcome booksBetween).1 = .ok 3 := by decide +kernel
  have hlabels : labelVectors (memoryOutcome (memoryBooks 4)).2.trace =
      labelVectors (memoryOutcome booksBetween).2.trace := by decide +kernel
  -- the first fact is written once
  have hwrites : factWrites (memoryOutcome booksBetween).2.trace =
      [] ++ (memoryKey, 5) :: (factWrites (memoryOutcome booksBetween).2.trace).tail := by
    decide +kernel
  have honce : memoryKey ∉ (factWrites (memoryOutcome booksBetween).2.trace).tail.map Prod.fst := by
    decide +kernel
  have hbefore : Books.ledger.facts booksBetween memoryKey = some 4 := by decide +kernel
  have hbetween : Books.ledger.facts booksBetween =
      Books.ledger.facts (memoryOutcome (memoryBooks 4)).2.outside := Books.facts_restock _ _
  obtain ⟨g, hfirst⟩ := exists_takes_memory hok
  obtain ⟨g', hsecond⟩ := exists_takes_memory hok'
  generalize (memoryOutcome (memoryBooks 4)).2.trace = first at *
  generalize (memoryOutcome booksBetween).2.trace = second at *
  obtain ⟨hquestions, -, -, htable⟩ := run_replaces hfirst rfl hsecond rfl hlabels
  obtain ⟨-, hlast, -, -⟩ := htable hbetween
  exact ⟨hquestions, hbefore, hlast [] memoryKey 5 _ hwrites honce⟩

end Report

end UsageBilling
