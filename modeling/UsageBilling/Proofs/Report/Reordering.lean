import UsageBilling.Proofs.Store.Ledger

/-!
# The order of samples

The source of metrics lists its samples in no particular order.  On a `SteadyLedger` the order does
not matter: what a sample comes to depends on nothing but the sample.

* `SteadyLedger.Determines books x r` : from every state `x` comes to `r`, a result with the facts
  that are put in, or nothing if it stops.
* `SteadyLedger.Matches books R x y` : in states that differ in the order of the samples to come,
  `x` and `y` both stop, or both have results, related by `R`, and put in the same facts in some
  order.
* `Report.ingest_reordered` : an hour is ingested in every order of its samples or in none.
-/

namespace UsageBilling

open Session

variable {σ α β γ δ : Type}

namespace SteadyLedger

variable {books : SteadyLedger σ}

/-! ### Sessions that always come to the same -/

/-- A result with the facts put in, or nothing for a stop. -/
abbrev Yield (α : Type) := Option (α × List (FactKey × Float))

/-- The course has the result and puts in the facts, or it stops if there are none. -/
def ComesTo (c : Course α) : Yield α → Prop
  | some (a, writes) => c.result = .ok a ∧ factWrites c.steps = writes
  | none => ∃ e, c.result = .error e

/-- From every state the session comes to the same, and it evaluates nothing. -/
def Determines (books : SteadyLedger σ) (x : Session σ α) (r : Yield α) : Prop :=
  ∀ s, ∃ c s', Takes books.toEnvironment s x c s' ∧ books.upcoming s' = books.upcoming s ∧
    ComesTo c r

namespace Determines

variable {x : Session σ α}

theorem pure (a : α) : books.Determines (Pure.pure a) (some (a, [])) :=
  fun s => ⟨_, s, takes_pure a, rfl, rfl, rfl⟩

theorem stop (e : Stop) : books.Determines (throw e : Session σ α) none :=
  fun s => ⟨_, s, takes_throw e, rfl, e, rfl⟩

theorem bind {a : α} {writes : List (FactKey × Float)} {f : α → Session σ β} {r : Yield β}
    (hx : books.Determines x (some (a, writes))) (hf : books.Determines (f a) r) :
    books.Determines (x >>= f) (r.map fun p => (p.1, writes ++ p.2)) := by
  intro s
  obtain ⟨⟨steps, result, g⟩, s₁, htakes, hupcoming, hresult, rfl⟩ := hx s
  obtain rfl : result = .ok a := hresult
  obtain ⟨d, s₂, htakes', hupcoming', hd⟩ := hf s₁
  refine ⟨_, s₂, htakes.bind htakes', hupcoming'.trans hupcoming, ?_⟩
  cases r with
  | none => exact hd
  | some p => exact ⟨hd.1, by rw [Course.after, factWrites_append, hd.2]⟩

theorem bind_stop {f : α → Session σ β} (hx : books.Determines x none) :
    books.Determines (x >>= f) none := by
  intro s
  obtain ⟨⟨steps, result, g⟩, s₁, htakes, hupcoming, e, hresult⟩ := hx s
  obtain rfl : result = .error e := hresult
  exact ⟨_, s₁, htakes.bind_stop, hupcoming, e, rfl⟩

end Determines

/-- The session always comes to the same, whatever that is. -/
def Determined (books : SteadyLedger σ) (x : Session σ α) : Prop := ∃ r, books.Determines x r

namespace Determined

theorem pure (a : α) : books.Determined (Pure.pure a : Session σ α) := ⟨_, .pure a⟩

theorem fail (e : BillingError) : books.Determined (Session.fail e : Session σ α) := ⟨_, .stop _⟩

theorem bind {x : Session σ α} {f : α → Session σ β} (hx : books.Determined x)
    (hf : ∀ a, books.Determined (f a)) : books.Determined (x >>= f) := by
  obtain ⟨_ | ⟨a, writes⟩, hx⟩ := hx
  · exact ⟨none, hx.bind_stop⟩
  · obtain ⟨r, hr⟩ := hf a
    exact ⟨_, hx.bind hr⟩

theorem ofExcept {ε : Type} (toError : ε → BillingError) (x : Except ε α) :
    books.Determined (Session.ofExcept toError x : Session σ α) := by
  cases x with
  | ok a => exact pure a
  | error e => exact fail (toError e)

theorem inRange (x : Option α) : books.Determined (Session.inRange x : Session σ α) := by
  cases x with
  | some a => exact pure a
  | none => exact ⟨_, .stop _⟩

section Lookups

variable {read? : Row → Option α} {q : Statement}

/-- A session that asks one lookup, with a result that the reply decides. -/
theorem of_lookup {x : Session σ β} {toResult : Reply → Except Stop β} (hq : q.isLookup)
    (h : ∀ s reply s', books.execute q s = (reply, s') →
      Takes books.toEnvironment s x ⟨[.statement q reply], toResult reply, id⟩ s') :
    books.Determined x := by
  have hwrites (reply : Reply) : factWrites [.statement q reply] = [] := by
    cases q with
    | upsertFact => cases hq
    | _ => rfl
  refine ⟨(toResult (books.answer q)).toOption.map fun b => (b, []), fun s => ?_⟩
  rcases hexecute : books.execute q s with ⟨reply, s'⟩
  obtain rfl : reply = books.answer q := books.execute_eq hq hexecute
  refine ⟨_, s', h s _ s' hexecute, books.upcoming_execute hexecute, ?_⟩
  cases hresult : toResult (books.answer q) with
  | ok b => exact ⟨rfl, hwrites _⟩
  | error e => exact ⟨e, rfl⟩

theorem fetchFirst? (hq : q.isLookup) :
    books.Determined (Session.fetchFirst? read? q : Session σ (Option α)) :=
  of_lookup hq fun _ _ _ h => takes_fetchFirst? h

theorem fetchAll (hq : q.isLookup) :
    books.Determined (Session.fetchAll read? q : Session σ (List α)) :=
  of_lookup hq fun _ _ _ h => takes_fetchAll h

theorem orFail (hq : q.isLookup) {k : Option α → Session σ α} {e : BillingError}
    (hsome : ∀ a, k (some a) = Pure.pure a) (hnone : k none = Session.fail e) :
    books.Determined (Session.fetchFirst? read? q >>= k) := by
  refine bind (fetchFirst? hq) fun a? => ?_
  cases a? with
  | some a => rw [hsome]; exact pure a
  | none => rw [hnone]; exact fail e

theorem insertOrSelect (hq : q.isLookup) (table key : String) :
    books.Determined (Store.insertOrSelect read? table key q : Session σ α) := by
  refine bind (fetchFirst? hq) fun a? => ?_
  cases a? with
  | some a => exact pure a
  | none => exact orFail hq (fun _ => rfl) rfl

end Lookups

/-- A fact is taken or not.  Its record may be another each time, so it has to be dropped. -/
theorem upsertFact (key : FactKey) (quantity : Float) :
    books.Determined
      (Store.upsertFact key quantity >>= fun _ => (Pure.pure () : Session σ Unit)) := by
  refine ⟨if books.accepts key quantity then some ((), [(key, quantity)]) else none, fun s => ?_⟩
  rcases hexecute : books.execute (.upsertFact key quantity) s with ⟨reply, s'⟩
  have haccepts := books.accepts_eq hexecute
  have hfact : ∃ result : Except Stop Fact,
      Takes books.toEnvironment s (Store.upsertFact key quantity)
        ⟨[.statement (.upsertFact key quantity) reply], result, id⟩ s' ∧
      ∀ fact, result = .ok fact ↔ reply.first? Fact.ofRow? = some fact := takes_fetchFirst hexecute
  obtain ⟨_ | fact, htakes, hresult⟩ := hfact
  · have hnone : reply.first? Fact.ofRow? = none := by
      refine Option.eq_none_iff_forall_not_mem.2 fun fact hfact => ?_
      cases (hresult fact).2 hfact
    rw [hnone] at haccepts
    refine ⟨_, s', htakes.bind_stop, books.upcoming_execute hexecute, ?_⟩
    rw [← haccepts]
    exact ⟨_, rfl⟩
  · rw [(hresult fact).1 rfl] at haccepts
    refine ⟨_, s', htakes.bind_step (takes_pure ()), books.upcoming_execute hexecute, ?_⟩
    rw [← haccepts]
    exact ⟨rfl, rfl⟩

/-! ### Samples -/

theorem store (query : Query) (hour : HourBucket) (usage : Usage) :
    books.Determined (Report.store query hour usage >>= fun _ =>
      (Pure.pure () : Session σ Unit)) := by
  unfold Report.store
  simp only [bind_assoc]
  refine bind (insertOrSelect rfl _ _) fun tenant => ?_
  refine bind (insertOrSelect rfl _ _) fun category => ?_
  refine bind (orFail rfl (fun _ => rfl) rfl) fun product => ?_
  refine bind (orFail rfl (fun _ => rfl) rfl) fun discount => ?_
  exact bind (insertOrSelect rfl _ _) fun hourRecord => upsertFact _ _

theorem ingestSample (query : Query) (hour : HourBucket) (sample : Sample) :
    books.Determined (Report.ingestSample query hour sample : Session σ Unit) :=
  bind (ofExcept id _) fun usage => store query hour usage

end Determined

/-! ### Loops in any order -/

/-- What a loop comes to: nothing if one of its parts stops, and all facts of its parts
otherwise. -/
def collected (outcome : α → Yield Unit) (as : List α) : Yield Unit :=
  if as.all fun a => (outcome a).isSome then
    some ((), as.flatMap fun a => ((outcome a).map Prod.snd).getD [])
  else none

theorem Determines.forM {f : α → Session σ Unit} {outcome : α → Yield Unit}
    (h : ∀ a, books.Determines (f a) (outcome a)) (as : List α) :
    books.Determines (as.forM f) (collected outcome as) := by
  induction as with
  | nil => exact .pure ()
  | cons a as ih =>
    have hfirst := h a
    cases ha : outcome a with
    | none =>
      rw [ha] at hfirst
      have hstop : collected outcome (a :: as) = none := by simp [collected, ha]
      rw [hstop]
      exact hfirst.bind_stop
    | some p =>
      rw [ha] at hfirst
      have hmore : collected outcome (a :: as) =
          (collected outcome as).map fun p' => (p'.1, p.2 ++ p'.2) := by
        simp only [collected, List.all_cons, ha, Option.isSome_some, Bool.true_and,
          List.flatMap_cons, Option.map_some, Option.getD_some]
        split <;> rfl
      rw [hmore]
      exact hfirst.bind ih

theorem collected_perm (outcome : α → Yield Unit) {as as' : List α} (h : as.Perm as') :
    (collected outcome as = none ∧ collected outcome as' = none) ∨
      ∃ writes writes', writes.Perm writes' ∧ collected outcome as = some ((), writes) ∧
        collected outcome as' = some ((), writes') := by
  have hall : (as.all fun a => (outcome a).isSome) = as'.all fun a => (outcome a).isSome :=
    h.all_eq
  unfold collected
  rw [← hall]
  split
  · exact .inr ⟨_, _, h.flatMap_right _, rfl, rfl⟩
  · exact .inl ⟨rfl, rfl⟩

/-! ### Two orders side by side -/

/-- Two courses and the states they leave: both have results, and then the facts that are put in are
the same in some order and similar answers are left, or both stop. -/
inductive Paired (books : SteadyLedger σ) (R : α → β → Prop) (c : Course α) (s : σ) (d : Course β)
    (t : σ) : Prop
  | ok {a : α} {b : β} : c.result = .ok a → d.result = .ok b → R a b →
      (factWrites c.steps).Perm (factWrites d.steps) → books.Similar s t → Paired books R c s d t
  | stopped {e e' : Stop} : c.result = .error e → d.result = .error e' → Paired books R c s d t

/-- From similar states the sessions take courses that pair. -/
def Matches (books : SteadyLedger σ) (R : α → β → Prop) (x : Session σ α) (y : Session σ β) :
    Prop :=
  ∀ s t, books.Similar s t → ∃ c s' d t', Takes books.toEnvironment s x c s' ∧
    Takes books.toEnvironment t y d t' ∧ books.Paired R c s' d t'

namespace Matches

/-- Sessions that always come to the same, up to the order of the facts. -/
theorem of_determines {R : α → β → Prop} {x : Session σ α} {y : Session σ β} {a : α} {b : β}
    {writes writes' : List (FactKey × Float)} (hx : books.Determines x (some (a, writes)))
    (hy : books.Determines y (some (b, writes'))) (hab : R a b) (hwrites : writes.Perm writes') :
    books.Matches R x y := by
  intro s t hsimilar
  obtain ⟨c, s', htakes, hupcoming, hc, rfl⟩ := hx s
  obtain ⟨d, t', htakes', hupcoming', hd, rfl⟩ := hy t
  refine ⟨c, s', d, t', htakes, htakes', .ok hc hd hab hwrites ?_⟩
  rw [Similar, hupcoming, hupcoming']
  exact hsimilar

theorem of_determines_none {R : α → β → Prop} {x : Session σ α} {y : Session σ β}
    (hx : books.Determines x none) (hy : books.Determines y none) : books.Matches R x y := by
  intro s t _
  obtain ⟨c, s', htakes, -, e, hc⟩ := hx s
  obtain ⟨d, t', htakes', -, e', hd⟩ := hy t
  exact ⟨c, s', d, t', htakes, htakes', .stopped hc hd⟩

/-- What always comes to the same does so on both sides. -/
theorem of_determined {x : Session σ α} (hx : books.Determined x) : books.Matches Eq x x := by
  obtain ⟨_ | ⟨a, writes⟩, hx⟩ := hx
  · exact of_determines_none hx hx
  · exact of_determines hx hx rfl (.refl writes)

theorem bind {R : α → β → Prop} {Q : γ → δ → Prop} {x : Session σ α} {y : Session σ β}
    {f : α → Session σ γ} {g : β → Session σ δ} (h : books.Matches R x y)
    (hfg : ∀ a b, R a b → books.Matches Q (f a) (g b)) : books.Matches Q (x >>= f) (y >>= g) := by
  intro s t hsimilar
  obtain ⟨⟨steps, result, m⟩, s₁, ⟨steps', result', m'⟩, t₁, hx, hy, hpaired⟩ := h s t hsimilar
  cases hpaired with
  | stopped hc hd =>
    cases hc
    cases hd
    exact ⟨_, s₁, _, t₁, hx.bind_stop, hy.bind_stop, .stopped rfl rfl⟩
  | ok hc hd hab hwrites hsimilar₁ =>
    cases hc
    cases hd
    obtain ⟨c, s₂, d, t₂, hf, hg, hpaired⟩ := hfg _ _ hab s₁ t₁ hsimilar₁
    refine ⟨_, s₂, _, t₂, hx.bind hf, hy.bind hg, ?_⟩
    cases hpaired with
    | stopped hc hd => exact .stopped hc hd
    | ok hc hd hQ hwrites' hsimilar₂ =>
      refine .ok hc hd hQ ?_ hsimilar₂
      rw [Course.after, Course.after, factWrites_append, factWrites_append]
      exact hwrites.append hwrites'

theorem mapM {f : α → Session σ β} (h : ∀ a, books.Matches Eq (f a) (f a)) (as : List α) :
    books.Matches Eq (as.mapM f) (as.mapM f) := by
  induction as with
  | nil => exact of_determined (.pure [])
  | cons a as ih =>
    rw [List.mapM_cons]
    refine bind (h a) ?_
    rintro b _ rfl
    refine bind ih ?_
    rintro bs _ rfl
    exact of_determined (.pure (b :: bs))

/-- A loop over the same elements in another order. -/
theorem forM_perm {f : α → Session σ Unit} (h : ∀ a, books.Determined (f a)) {as as' : List α}
    (hperm : as.Perm as') : books.Matches Eq (as.forM f) (as'.forM f) := by
  choose outcome houtcome using h
  have hfirst := Determines.forM houtcome as
  have hsecond := Determines.forM houtcome as'
  rcases collected_perm outcome hperm with ⟨hnone, hnone'⟩ | ⟨writes, writes', hwrites, h, h'⟩
  · rw [hnone] at hfirst
    rw [hnone'] at hsecond
    exact of_determines_none hfirst hsecond
  · rw [h] at hfirst
    rw [h'] at hsecond
    exact of_determines hfirst hsecond rfl hwrites

end Matches

/-! ### Hours -/

section Hours

variable {o : ReportOptions}

/-- An answer that comes too late, or never, is a stop. -/
theorem evaluated_of_within_eq_none {answer : Evaluation}
    (h : answer.within o.queryLimit = none) : ∃ e, Report.evaluated o answer = .error e := by
  obtain ⟨limit, showProgress, measured⟩ := o
  unfold Report.evaluated
  cases limit with
  | none => exact ⟨.stalled, by rw [h]⟩
  | some limit => exact ⟨.failed (.metricsSource (.timeout limit)), by rw [h]⟩

theorem evaluated_of_within_eq_some {answer : Evaluation} {elapsed : Duration}
    {outcome : Except BillingError (List Sample)}
    (h : answer.within o.queryLimit = some (elapsed, outcome)) :
    Report.evaluated o answer = outcome.mapError .failed := by
  unfold Report.evaluated
  rw [h]

/-- Reordered answers come to the same samples in another order, or to stops. -/
theorem evaluated_reordered {answer answer' : Evaluation} (h : answer.Reordered answer') :
    (∃ samples samples', samples.Perm samples' ∧ Report.evaluated o answer = .ok samples ∧
      Report.evaluated o answer' = .ok samples') ∨
    ∃ e e', Report.evaluated o answer = .error e ∧ Report.evaluated o answer' = .error e' := by
  -- whether an answer comes in time does not depend on its outcome
  have hwithin (elapsed : Duration) (outcome : Except BillingError (List Sample)) :
      (Evaluation.answered elapsed outcome).within o.queryLimit =
        if o.queryLimit.all fun l => elapsed.nanos ≤ l.nanos then some (elapsed, outcome)
        else none := rfl
  cases h with
  | silent =>
    have hsilent : Evaluation.silent.within o.queryLimit = none := rfl
    obtain ⟨e, he⟩ := evaluated_of_within_eq_none hsilent
    exact .inr ⟨e, e, he, he⟩
  | failed elapsed e =>
    by_cases hintime : o.queryLimit.all fun l => elapsed.nanos ≤ l.nanos
    · have he := evaluated_of_within_eq_some ((hwithin elapsed (.error e)).trans (if_pos hintime))
      exact .inr ⟨_, _, he, he⟩
    · obtain ⟨e', he'⟩ :=
        evaluated_of_within_eq_none ((hwithin elapsed (.error e)).trans (if_neg hintime))
      exact .inr ⟨e', e', he', he'⟩
  | @answered elapsed samples samples' hperm =>
    by_cases hintime : o.queryLimit.all fun l => elapsed.nanos ≤ l.nanos
    · exact .inl ⟨samples, samples', hperm,
        evaluated_of_within_eq_some ((hwithin elapsed (.ok samples)).trans (if_pos hintime)),
        evaluated_of_within_eq_some ((hwithin elapsed (.ok samples')).trans (if_pos hintime))⟩
    · obtain ⟨e, he⟩ :=
        evaluated_of_within_eq_none ((hwithin elapsed (.ok samples)).trans (if_neg hintime))
      obtain ⟨e', he'⟩ :=
        evaluated_of_within_eq_none ((hwithin elapsed (.ok samples')).trans (if_neg hintime))
      exact .inr ⟨e, e', he, he'⟩

theorem matches_evaluate (text : String) (time : Timestamp) :
    books.Matches List.Perm (Report.evaluate o text time) (Report.evaluate o text time) := by
  intro s t hsimilar
  rcases hs : books.evaluate text time s with ⟨answer, s'⟩
  rcases ht : books.evaluate text time t with ⟨answer', t'⟩
  refine ⟨_, s', _, t', Report.takes_evaluate hs, Report.takes_evaluate ht, ?_⟩
  have hanswers : answer.Reordered answer' := by
    rw [books.evaluate_eq hs, books.evaluate_eq ht]
    exact hsimilar 0 text time
  have hsimilar' : books.Similar s' t' := by
    rw [Similar, books.upcoming_evaluate hs, books.upcoming_evaluate ht]
    exact fun n => hsimilar (n + 1)
  rcases evaluated_reordered hanswers with ⟨samples, samples', hperm, h, h'⟩ | ⟨e, e', h, h'⟩
  · exact .ok h h' hperm (.refl _) hsimilar'
  · exact .stopped h h'

theorem matches_ingestQuery (time : Timestamp) (query : Query) :
    books.Matches Eq (Report.ingestQuery o time query) (Report.ingestQuery o time query) := by
  refine .bind (.of_determined (.inRange _)) ?_
  rintro hourEnd _ rfl
  refine (matches_evaluate query.query hourEnd).bind fun samples samples' hperm => ?_
  refine (Matches.forM_perm (Determined.ingestSample query _) hperm).bind ?_
  rintro _ _ rfl
  rw [hperm.length_eq]
  exact .of_determined (.pure _)

theorem matches_ingest (name : String) (time : Timestamp) :
    books.Matches Eq (Report.ingest o name time) (Report.ingest o name time) := by
  have hstart : books.Determined (Report.requireHourStart time : Session σ Unit) := by
    unfold Report.requireHourStart
    split
    · exact .pure ()
    · exact .fail _
  refine .bind (.of_determined hstart) ?_
  rintro _ _ rfl
  refine .bind (.of_determined (.orFail rfl (fun _ => rfl) rfl)) ?_
  rintro main _ rfl
  refine (matches_ingestQuery time main).bind ?_
  rintro count _ rfl
  refine .bind (.of_determined (.fetchAll rfl)) ?_
  rintro below _ rfl
  refine (Matches.mapM (matches_ingestQuery time) below).bind ?_
  rintro counts _ rfl
  exact .of_determined (.pure _)

end Hours

end SteadyLedger

namespace Report

/-- **The order of samples does not matter.**  On a steady ledger an hour is ingested from two
sources whose answers differ in the order of their samples: it succeeds with both or with neither,
with the same count, and puts in the same facts in some order.  If the keys of these are different,
the fact table is the same afterwards. -/
theorem ingest_reordered (books : SteadyLedger σ) (o : ReportOptions) (name : String)
    (time : Timestamp) {s t : σ} (h : books.Similar s t) :
    ∃ c s' d t', Takes books.toEnvironment s (ingest o name time) c s' ∧
      Takes books.toEnvironment t (ingest o name time) d t' ∧
      (∀ n, c.result = .ok n ↔ d.result = .ok n) ∧
      ∀ n, c.result = .ok n → (factWrites c.steps).Perm (factWrites d.steps) ∧
        (((factWrites c.steps).map Prod.fst).Nodup → books.facts s = books.facts t →
          books.facts s' = books.facts t') := by
  obtain ⟨c, s', d, t', hs, ht, hpaired⟩ := SteadyLedger.matches_ingest name time s t h
  refine ⟨c, s', d, t', hs, ht, ?_⟩
  have hobeys : Obeys (ingest o name time : Session σ Nat) Surrenders :=
    Surrenders.universal.obeys_request (.ingest o name time)
  cases hpaired with
  | @ok a b hc hd hab hwrites _ =>
    subst hab
    refine ⟨fun n => by rw [hc, hd], fun n _ => ⟨hwrites, fun hnodup hfacts => ?_⟩⟩
    rw [Ledger.facts_of_takes hobeys hs hc, Ledger.facts_of_takes hobeys ht hd, hfacts]
    exact FactTable.writeAll_perm hwrites hnodup _
  | stopped hc hd => exact ⟨fun n => by simp [hc, hd], fun n hn => by simp [hc] at hn⟩

/-- Two samples of memory, and two under them. -/
def memoryInOrder : Books :=
  .ofSamples [.withDimensions "c:namespace" "acme" "memory:c:acme:namespace" 4,
    .withDimensions "c:other" "umbrella" "memory:c:umbrella:other" 2]
    [.withDimensions "c:namespace" "acme" "memory:c:acme:namespace" 1,
      .withDimensions "c:other" "umbrella" "memory:c:umbrella:other" 3]

/-- The same samples, the second of each query first. -/
def memoryReversed : Books :=
  .ofSamples [.withDimensions "c:other" "umbrella" "memory:c:umbrella:other" 2,
    .withDimensions "c:namespace" "acme" "memory:c:acme:namespace" 4]
    [.withDimensions "c:other" "umbrella" "memory:c:umbrella:other" 3,
      .withDimensions "c:namespace" "acme" "memory:c:acme:namespace" 1]

/-- How the hour is ingested in that order. -/
def memoryIngested : Except Stop Nat × World Books :=
  runIn Books.ledger.toEnvironment ⟨memoryInOrder, [], .zero⟩
    (ingest ⟨none, false, true⟩ "memory" memoryHour)

theorem ingest_reordered_memory :
    Books.ledger.Similar memoryInOrder memoryReversed ∧
      ∃ (c : Course Nat) (s' : Books) (d : Course Nat) (t' : Books),
        Takes Books.ledger.toEnvironment memoryInOrder
          (ingest ⟨none, false, true⟩ "memory" memoryHour) c s' ∧
        Takes Books.ledger.toEnvironment memoryReversed
          (ingest ⟨none, false, true⟩ "memory" memoryHour) d t' ∧
        c.result = .ok 4 ∧ d.result = .ok 4 ∧
        (factWrites c.steps).Perm (factWrites d.steps) ∧
        Books.ledger.facts s' = Books.ledger.facts t' := by
  have hsimilar : Books.ledger.Similar memoryInOrder memoryReversed :=
    Books.similar_ofSamples (.swap _ _ _) (.swap _ _ _)
  have hok : memoryIngested.1 = .ok 4 := by decide +kernel
  have hnodup : ((factWrites memoryIngested.2.trace).map Prod.fst).Nodup := by decide +kernel
  obtain ⟨c, s', d, t', hs, ht, hiff, hsame⟩ :=
    ingest_reordered Books.ledger ⟨none, false, true⟩ "memory" memoryHour hsimilar
  rw [memoryIngested, hs [] .zero] at hok hnodup
  obtain ⟨hwrites, hfacts⟩ := hsame 4 hok
  exact ⟨hsimilar, c, s', d, t', hs, ht, hok, (hiff 4).1 hok, hwrites, hfacts hnodup rfl⟩

end Report

end UsageBilling
