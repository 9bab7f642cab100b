import UsageBilling.Proofs.Number.FloatGrammar
import UsageBilling.Proofs.Prometheus.Shape

/-!
# What an answer decodes to

Every answer falls into one of seven classes, of which one has samples.  Several of the faults that
the others tell of can be in one answer; the order of the constructors of `Verdict` says which is
told of.

* `Prometheus.Verdict` : the classes, in terms of the shapes of `IsResponse` and `IsVector` and of
  the grammar of numbers.
* `Prometheus.reads_or_firstInvalid` : a vector is read whole, or it has a first value that is no
  number.
* `Prometheus.decode_eq_iff_verdict` : an answer decodes to what the verdict on it says.
-/

namespace UsageBilling.Prometheus

open FloatText

variable {body : String} {r : ApiResponse} {data : QueryData}
  {entries : List (Labels × String)} {v : Except BillingError (List Sample)}

/-- The text of an answer says this. -/
def Answers (body : String) (r : ApiResponse) : Prop :=
  ∃ j, Json.parse? body = some j ∧ IsResponse j r

/-- What a value is told of with that is no number. -/
def invalidValue (text : String) : BillingError :=
  .metricsSource (.decode (s!"invalid sample value '{text}': " ++
    if text = "" then "cannot parse float from empty string" else "invalid float literal"))

/-- The values are those that the texts stand for, under the same labels and in the same order. -/
def Reads (entries : List (Labels × String)) (samples : List Sample) : Prop :=
  List.Forall₂ (fun entry s => s.labels = entry.1 ∧ parse entry.2 = .ok s.value) entries samples

/-- The first text that is no number. -/
def FirstInvalid (entries : List (Labels × String)) (text : String) : Prop :=
  ∃ good labels rest, entries = good ++ (labels, text) :: rest ∧
    (∀ entry ∈ good, IsFloatText entry.2) ∧ ¬ IsFloatText text

/-- The classes of answers, each behind those in front of it. -/
inductive Verdict (body : String) : Except BillingError (List Sample) → Prop
  | malformed : (¬ ∃ r, Answers body r) → Verdict body (.error (.metricsSource .malformed))
  | failed {r : ApiResponse} : Answers body r → r.status ≠ "success" →
      Verdict body (.error (.metricsSource (.api (r.errorType.getD r.status) (r.error.getD ""))))
  | noData {r : ApiResponse} : Answers body r → r.status = "success" → r.data = none →
      Verdict body (.error (.metricsSource (.decode "response has no data")))
  | noVector {r : ApiResponse} {data : QueryData} : Answers body r → r.status = "success" →
      r.data = some data → data.resultType ≠ "vector" →
      Verdict body (.error (.validation (.unexpectedResultType data.resultType)))
  | unreadable {r : ApiResponse} {data : QueryData} : Answers body r → r.status = "success" →
      r.data = some data → data.resultType = "vector" →
      (¬ ∃ entries, IsVector data.result entries) →
      Verdict body (.error (.metricsSource .malformed))
  | invalid {r : ApiResponse} {data : QueryData} {entries : List (Labels × String)}
      {text : String} : Answers body r → r.status = "success" → r.data = some data →
      data.resultType = "vector" → IsVector data.result entries → FirstInvalid entries text →
      Verdict body (.error (invalidValue text))
  | samples {r : ApiResponse} {data : QueryData} {entries : List (Labels × String)}
      {samples : List Sample} : Answers body r → r.status = "success" → r.data = some data →
      data.resultType = "vector" → IsVector data.result entries → Reads entries samples →
      Verdict body (.ok samples)

/-! ### Values -/

theorem sampleOf_eq_ok_iff {labels : Labels} {text : String} {s : Sample} :
    sampleOf labels text = .ok s ↔ s.labels = labels ∧ parse text = .ok s.value := by
  obtain ⟨labels', value⟩ := s
  unfold sampleOf
  cases parse text with
  | ok x => simp [eq_comm]
  | error e => simp

theorem sampleOf_of_invalid {labels : Labels} {text : String} (h : ¬ IsFloatText text) :
    sampleOf labels text = .error (invalidValue text) := by
  unfold sampleOf invalidValue
  cases hparse : parse text with
  | ok x => exact absurd (exists_parse_iff.1 ⟨x, hparse⟩) h
  | error e =>
    obtain rfl := eq_of_parse_eq_error hparse
    by_cases htext : text = "" <;> simp [htext, Error.message]

/-! ### Vectors -/

/-- The samples of the entries of a vector. -/
def samplesOfEntries (entries : List (Labels × String)) : Except BillingError (List Sample) :=
  entries.mapM fun (labels, text) => sampleOf labels text

theorem samplesOfEntries_cons (labels : Labels) (text : String)
    (rest : List (Labels × String)) :
    samplesOfEntries ((labels, text) :: rest) =
      (sampleOf labels text).bind fun s => (samplesOfEntries rest).map (s :: ·) := by
  rw [samplesOfEntries, List.mapM_cons]
  show (sampleOf labels text).bind (fun s => (samplesOfEntries rest).bind fun ss => .ok (s :: ss)) = _
  cases sampleOf labels text <;> cases samplesOfEntries rest <;> rfl

theorem samplesOfEntries_of_reads {samples : List Sample} (h : Reads entries samples) :
    samplesOfEntries entries = .ok samples := by
  induction h with
  | nil => rfl
  | @cons entry s rest samples hentry _ ih =>
    rw [samplesOfEntries_cons, sampleOf_eq_ok_iff.2 hentry, ih]
    rfl

theorem samplesOfEntries_of_firstInvalid {text : String} (h : FirstInvalid entries text) :
    samplesOfEntries entries = .error (invalidValue text) := by
  obtain ⟨good, labels, rest, rfl, hgood, hinvalid⟩ := h
  induction good with
  | nil =>
    rw [List.nil_append, samplesOfEntries_cons, sampleOf_of_invalid hinvalid]
    rfl
  | cons entry good ih =>
    obtain ⟨hentry, hgood⟩ := List.forall_mem_cons.1 hgood
    obtain ⟨x, hx⟩ := exists_parse_iff.2 hentry
    have hsample : sampleOf entry.1 entry.2 = .ok ⟨entry.1, x⟩ := sampleOf_eq_ok_iff.2 ⟨rfl, hx⟩
    rw [List.cons_append, samplesOfEntries_cons, hsample, ih hgood]
    rfl

/-- All texts are numbers, or there is a first that is none. -/
theorem reads_or_firstInvalid (entries : List (Labels × String)) :
    (∃ samples, Reads entries samples) ∨ ∃ text, FirstInvalid entries text := by
  induction entries with
  | nil => exact .inl ⟨[], .nil⟩
  | cons entry rest ih =>
    obtain ⟨labels, text⟩ := entry
    by_cases hvalid : IsFloatText text
    · obtain ⟨x, hx⟩ := exists_parse_iff.2 hvalid
      rcases ih with ⟨samples, hsamples⟩ | ⟨text', good, labels', rest', rfl, hgood, hinvalid⟩
      · exact .inl ⟨⟨labels, x⟩ :: samples, .cons ⟨rfl, hx⟩ hsamples⟩
      · exact .inr ⟨text', (labels, text) :: good, labels', rest', rfl,
          List.forall_mem_cons.2 ⟨hvalid, hgood⟩, hinvalid⟩
    · exact .inr ⟨text, [], labels, rest, rfl, by simp, hvalid⟩

theorem samplesOf_of_isVector {j : Json} (h : IsVector j entries) :
    samplesOf j = samplesOfEntries entries := by
  rw [samplesOf, asListOf?_eq_some_iff.2 h, samplesOfEntries]

theorem samplesOf_of_not_isVector {j : Json} (h : ¬ ∃ entries, IsVector j entries) :
    samplesOf j = .error (.metricsSource .malformed) := by
  unfold samplesOf
  split
  · next entries hread => exact absurd ⟨entries, asListOf?_eq_some_iff.1 hread⟩ h
  · rfl

/-! ### Answers -/

theorem decode_of_answers (h : Answers body r) : decode body = r.samples := by
  obtain ⟨j, hj, hr⟩ := h
  rw [decode, hj, Option.bind_some, ofJson?_eq_some_iff_isResponse.2 hr]

theorem decode_of_not_answers (h : ¬ ∃ r, Answers body r) :
    decode body = .error (.metricsSource .malformed) := by
  unfold decode
  split
  · next r hread =>
    obtain ⟨j, hj, hr⟩ := Option.bind_eq_some_iff.1 hread
    exact absurd ⟨r, j, hj, ofJson?_eq_some_iff_isResponse.1 hr⟩ h
  · rfl

theorem samples_of_vector (hstatus : r.status = "success") (hdata : r.data = some data)
    (htype : data.resultType = "vector") : r.samples = samplesOf data.result := by
  simp [ApiResponse.samples, hstatus, hdata, htype]

/-- Each class has one outcome. -/
theorem Verdict.decode_eq (h : Verdict body v) : decode body = v := by
  cases h with
  | malformed hnone => exact decode_of_not_answers hnone
  | failed hr hstatus => rw [decode_of_answers hr, ApiResponse.samples, if_pos hstatus]
  | noData hr hstatus hdata => simp [decode_of_answers hr, ApiResponse.samples, hstatus, hdata]
  | noVector hr hstatus hdata htype =>
    simp [decode_of_answers hr, ApiResponse.samples, hstatus, hdata, htype]
  | unreadable hr hstatus hdata htype hnone =>
    rw [decode_of_answers hr, samples_of_vector hstatus hdata htype,
      samplesOf_of_not_isVector hnone]
  | invalid hr hstatus hdata htype hvector hinvalid =>
    rw [decode_of_answers hr, samples_of_vector hstatus hdata htype, samplesOf_of_isVector hvector,
      samplesOfEntries_of_firstInvalid hinvalid]
  | samples hr hstatus hdata htype hvector hreads =>
    rw [decode_of_answers hr, samples_of_vector hstatus hdata htype, samplesOf_of_isVector hvector,
      samplesOfEntries_of_reads hreads]

/-- Every answer is of a class. -/
theorem exists_verdict (body : String) : ∃ v, Verdict body v := by
  by_cases hr : ∃ r, Answers body r
  · obtain ⟨r, hr⟩ := hr
    by_cases hstatus : r.status = "success"
    · cases hdata : r.data with
      | none => exact ⟨_, .noData hr hstatus hdata⟩
      | some data =>
        by_cases htype : data.resultType = "vector"
        · by_cases hvector : ∃ entries, IsVector data.result entries
          · obtain ⟨entries, hvector⟩ := hvector
            rcases reads_or_firstInvalid entries with ⟨samples, hreads⟩ | ⟨text, hinvalid⟩
            · exact ⟨_, .samples hr hstatus hdata htype hvector hreads⟩
            · exact ⟨_, .invalid hr hstatus hdata htype hvector hinvalid⟩
          · exact ⟨_, .unreadable hr hstatus hdata htype hvector⟩
        · exact ⟨_, .noVector hr hstatus hdata htype⟩
    · exact ⟨_, .failed hr hstatus⟩
  · exact ⟨_, .malformed hr⟩

/-- **An answer decodes to what the verdict on it says**, and to nothing else. -/
theorem decode_eq_iff_verdict (body : String) (v : Except BillingError (List Sample)) :
    decode body = v ↔ Verdict body v := by
  obtain ⟨v', hverdict⟩ := exists_verdict body
  refine ⟨?_, Verdict.decode_eq⟩
  rintro rfl
  rwa [hverdict.decode_eq]

/-- A body with several faults: the status is told of, although the data are no vector. -/
example : decode "\x7b\"status\":\"error\",\"data\":\x7b\"resultType\":\"scalar\"\x7d\x7d" =
    .error (.metricsSource (.api "error" "")) := by decide +kernel

end UsageBilling.Prometheus
