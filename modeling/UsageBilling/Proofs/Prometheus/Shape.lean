import Mathlib.Data.List.Nodup
import Mathlib.Data.List.Induction
import Mathlib.Data.Set.List
import UsageBilling.Proofs.Json.Record
import UsageBilling.Prometheus.Response

/-!
# The shape of an answer

What the parts of an answer look like, against the functions that read them.

* `Labels.ext_get?` : label sets with the same values are equal.
* `Prometheus.IsResponse` : what every answer says; it is what is read
  (`Prometheus.ofJson?_eq_some_iff_isResponse`).
* `Prometheus.LastField` : where an object repeats a name, its last member counts.
* `Prometheus.IsSample` : a sample with its labels and the text of its value; it is what is read
  (`Prometheus.readSample?_eq_some_iff`).
* `Prometheus.IsVector` : an array of samples.
-/

namespace UsageBilling

/-! ### Labels -/

namespace Labels

theorem nodup_names (l : Labels) : (l.entries.map Prod.fst).Nodup :=
  List.pairwise_map.2 (l.sorted.imp fun hlt heq => by
    rw [heq] at hlt
    exact String.lt_irrefl _ hlt)

/-- Label sets with the same values are equal. -/
theorem ext_get? {l l' : Labels} (h : ∀ name, l.get? name = l'.get? name) : l = l' := by
  have hperm : l.entries.Perm l'.entries :=
    (List.perm_ext_iff_of_nodup (List.Nodup.of_map _ l.nodup_names)
      (List.Nodup.of_map _ l'.nodup_names)).2
      fun ⟨name, value⟩ => by
        rw [← lookup_eq_some_iff_of_nodup l.nodup_names,
          ← lookup_eq_some_iff_of_nodup l'.nodup_names]
        exact Eq.congr_left (h name)
  have heq : l.entries = l'.entries := hperm.eq_of_pairwise
    (fun a b _ _ hab hba => absurd (String.lt_trans hab hba) (String.lt_irrefl _)) l.sorted l'.sorted
  cases l
  cases l'
  cases heq
  rfl

/-- The last entry of a name counts. -/
theorem get?_ofList (entries : List (String × String)) (name : String) :
    (ofList entries).get? name = entries.reverse.lookup name := by
  induction entries using List.reverseRecOn with
  | nil => rfl
  | append_singleton entries entry ih =>
    obtain ⟨first, value⟩ := entry
    rw [List.reverse_append, List.reverse_singleton, List.singleton_append, lookup_cons_ite, ← ih]
    rw [ofList, List.foldl_concat, get?_insert]
    rfl

theorem get?_ofList_eq_some_iff {entries : List (String × String)}
    (h : (entries.map Prod.fst).Nodup) {name value : String} :
    (ofList entries).get? name = some value ↔ (name, value) ∈ entries := by
  have hreverse : (entries.reverse.map Prod.fst).Nodup := by
    rw [List.map_reverse]
    exact List.nodup_reverse.2 h
  rw [get?_ofList, lookup_eq_some_iff_of_nodup hreverse, List.mem_reverse]

end Labels

namespace Prometheus

open Json

variable {name : String} {members : List (JsonText × Json)}

/-! ### Repeated names -/

/-- The last member of the name, if there is one. -/
def LastField (name : String) (members : List (JsonText × Json)) : Option Json → Prop
  | none => Lacks name members
  | some j => ∃ before after, members = before ++ (some name, j) :: after ∧ Lacks name after

theorem mem_names_lastMembers {key : JsonText} :
    key ∈ (lastMembers members).map Prod.fst ↔ key ∈ members.map Prod.fst := by
  induction members with
  | nil => simp [lastMembers]
  | cons member rest ih =>
    rw [lastMembers]
    split
    · next hagain =>
      have hmem : member.1 ∈ rest.map Prod.fst := by simpa using hagain
      rw [ih, List.map_cons, List.mem_cons]
      exact ⟨.inr, fun h => h.elim (fun heq => heq ▸ hmem) id⟩
    · rw [List.map_cons, List.map_cons, List.mem_cons, List.mem_cons, ih]

/-- No name is left twice. -/
theorem nodup_lastMembers (members : List (JsonText × Json)) :
    ((lastMembers members).map Prod.fst).Nodup := by
  induction members with
  | nil => exact .nil
  | cons member rest ih =>
    rw [lastMembers]
    split
    · exact ih
    · next honce =>
      rw [List.map_cons]
      refine List.nodup_cons.2 ⟨fun hmem => honce ?_, ih⟩
      simpa using mem_names_lastMembers.1 hmem

/-- What is left is the last member of each name. -/
theorem mem_lastMembers_iff {j : Json} :
    (some name, j) ∈ lastMembers members ↔ LastField name members (some j) := by
  induction members with
  | nil => simp [lastMembers, LastField]
  | cons member rest ih =>
    -- the members behind the first decide, unless it is the last of its name
    have hcons : LastField name (member :: rest) (some j) ↔
        (member = (some name, j) ∧ Lacks name rest) ∨ LastField name rest (some j) := by
      constructor
      · rintro ⟨before, after, heq, hafter⟩
        cases before with
        | nil =>
          obtain ⟨rfl, rfl⟩ := List.cons.inj heq
          exact .inl ⟨rfl, hafter⟩
        | cons first before =>
          obtain ⟨-, rfl⟩ := List.cons.inj heq
          exact .inr ⟨before, after, rfl, hafter⟩
      · rintro (⟨rfl, hlacks⟩ | ⟨before, after, rfl, hafter⟩)
        · exact ⟨[], rest, rfl, hlacks⟩
        · exact ⟨member :: before, after, rfl, hafter⟩
    rw [hcons, ← ih, lastMembers]
    split
    · next hagain =>
      refine ⟨.inr, fun h => h.elim (fun ⟨heq, hlacks⟩ => ?_) id⟩
      obtain ⟨again, hmem, hname⟩ := List.any_eq_true.1 hagain
      rw [heq] at hname
      exact absurd (of_decide_eq_true hname) (hlacks again hmem)
    · next honce =>
      rw [List.mem_cons]
      refine or_congr_left ⟨fun heq => ⟨heq.symm, fun again hmem hname => honce ?_⟩,
        fun h => h.1.symm⟩
      rw [← heq]
      exact List.any_eq_true.2 ⟨again, hmem, decide_eq_true hname⟩

theorem field_eq_some_iff_of_nodup (h : (members.map Prod.fst).Nodup) {j : Json} :
    Field name members (some j) ↔ (some name, j) ∈ members := by
  constructor
  · rintro ⟨before, after, rfl, -, -⟩
    simp
  · intro hmem
    obtain ⟨before, after, rfl⟩ := List.append_of_mem hmem
    rw [List.map_append, List.map_cons, List.nodup_middle, List.nodup_cons, List.mem_append,
      not_or] at h
    exact ⟨before, after, rfl, fun m hm heq => h.1.1 (List.mem_map.2 ⟨m, hm, heq⟩),
      fun m hm heq => h.1.2 (List.mem_map.2 ⟨m, hm, heq⟩)⟩

/-- **Without repetitions the last member is the only one.** -/
theorem field_lastMembers_iff {field : Option Json} :
    Field name (lastMembers members) field ↔ LastField name members field := by
  cases field with
  | none =>
    have hlacks (members : List (JsonText × Json)) :
        Lacks name members ↔ some name ∉ members.map Prod.fst := by
      simp only [Lacks, List.mem_map, not_exists, not_and, ne_eq]
    show Lacks _ _ ↔ Lacks _ _
    rw [hlacks, hlacks, mem_names_lastMembers]
  | some j => rw [field_eq_some_iff_of_nodup (nodup_lastMembers members), mem_lastMembers_iff]

theorem hasTextNames_lastMembers_iff :
    HasTextNames (lastMembers members) ↔ HasTextNames members := by
  have hnames (members : List (JsonText × Json)) :
      HasTextNames members ↔ none ∉ members.map Prod.fst := by
    simp only [HasTextNames, List.mem_map, not_exists, not_and, ne_eq]
  rw [hnames, hnames, mem_names_lastMembers]

/-- There is only one last member. -/
theorem LastField.unique {field field' : Option Json} (h : LastField name members field)
    (h' : LastField name members field') : field = field' :=
  (field_lastMembers_iff.2 h).unique (field_lastMembers_iff.2 h')

/-! ### What every answer says -/

/-- The data of an answer: the type of the result, and the result, `null` if it is left out. -/
def IsQueryData (j : Json) (d : QueryData) : Prop :=
  ∃ resultType result, IsRecord ["resultType", "result"] 1 j [some resultType, result] ∧
    IsText resultType d.resultType ∧ d.result = result.getD .null ∧ d.result.isProper ∧
    d.result.depth ≤ maxResultDepth

/-- What every answer says: a status, and optionally data, the type of an error and its text. -/
def IsResponse (j : Json) (r : ApiResponse) : Prop :=
  ∃ status data errorType error,
    IsRecord ["status", "data", "errorType", "error"] 0 j [some status, data, errorType, error] ∧
    IsText status r.status ∧ Optional IsQueryData data r.data ∧
    Optional IsText errorType r.errorType ∧ Optional IsText error r.error

theorem ofJson?_eq_some_iff_isQueryData (j : Json) (d : QueryData) :
    QueryData.ofJson? j = some d ↔ IsQueryData j d := by
  unfold QueryData.ofJson? IsQueryData
  simp only [← fieldsWithSpare?_eq_some_iff]
  constructor
  · intro h
    obtain ⟨fields, hfields, h⟩ := Option.bind_eq_some_iff.1 h
    split at h
    · next resultType result =>
      split at h
      · next hresult =>
        obtain ⟨typeText, htype, hd⟩ := Option.bind_eq_some_iff.1 h
        obtain ⟨resultType, rfl, htext⟩ := (required_eq_some_iff asText?_eq_some_iff).1 htype
        obtain rfl := Option.some.inj hd
        rw [Bool.and_eq_true, decide_eq_true_eq] at hresult
        exact ⟨resultType, result, hfields, htext, rfl, hresult⟩
      · cases h
    · cases h
  · rintro ⟨resultType, result, hfields, htype, hresult, hproper, hdepth⟩
    have htype := (required_eq_some_iff asText?_eq_some_iff).2 ⟨resultType, rfl, htype⟩
    obtain ⟨typeText, _⟩ := d
    obtain rfl := hresult
    simp [hfields, htype, hproper, hdepth]

theorem ofJson?_eq_some_iff_isResponse {j : Json} {r : ApiResponse} :
    ApiResponse.ofJson? j = some r ↔ IsResponse j r := by
  unfold ApiResponse.ofJson? IsResponse fields?
  simp only [← fieldsWithSpare?_eq_some_iff]
  constructor
  · intro h
    obtain ⟨fields, hfields, h⟩ := Option.bind_eq_some_iff.1 h
    split at h
    · next status data errorType error =>
      obtain ⟨status', hstatus, h⟩ := Option.bind_eq_some_iff.1 h
      obtain ⟨data', hdata, h⟩ := Option.bind_eq_some_iff.1 h
      obtain ⟨errorType', herrorType, h⟩ := Option.bind_eq_some_iff.1 h
      obtain ⟨error', herror, hr⟩ := Option.bind_eq_some_iff.1 h
      obtain ⟨status, rfl, htext⟩ := (required_eq_some_iff asText?_eq_some_iff).1 hstatus
      obtain rfl := Option.some.inj hr
      exact ⟨status, data, errorType, error, hfields, htext,
        (nullable_eq_some_iff ofJson?_eq_some_iff_isQueryData).1 hdata,
        (nullable_eq_some_iff asText?_eq_some_iff).1 herrorType,
        (nullable_eq_some_iff asText?_eq_some_iff).1 herror⟩
    · cases h
  · rintro ⟨status, data, errorType, error, hfields, hstatus, hdata, herrorType, herror⟩
    have hstatus := (required_eq_some_iff asText?_eq_some_iff).2 ⟨status, rfl, hstatus⟩
    have hdata := (nullable_eq_some_iff ofJson?_eq_some_iff_isQueryData).2 hdata
    have herrorType := (nullable_eq_some_iff asText?_eq_some_iff).2 herrorType
    have herror := (nullable_eq_some_iff asText?_eq_some_iff).2 herror
    simp [hfields, hstatus, hdata, herrorType, herror]

/-! ### Samples -/

/-- The labels of a sample: an object of texts, where the last member of a name counts; there are
none if they are left out. -/
inductive IsMetric : Option Json → Labels → Prop
  | missing : IsMetric none .empty
  | object {members : List (JsonText × Json)} {labels : Labels} : HasTextNames members →
      (∀ name, LastField name members ((labels.get? name).map .text)) →
      IsMetric (some (.object members)) labels

/-- The value of a sample: a number, the time, and a text. -/
def IsValue (j : Json) (text : String) : Prop :=
  ∃ time, j = .array [.number time, .string (some text)]

/-- A sample with its labels and the text of its value: an object, in which the last member of a
name counts, or an array. -/
inductive IsSample : Json → Labels × String → Prop
  | object {members : List (JsonText × Json)} {metric : Option Json} {value : Json}
      {labels : Labels} {text : String} : HasTextNames members →
      LastField "metric" members metric → LastField "value" members (some value) →
      IsMetric metric labels → IsValue value text → IsSample (.object members) (labels, text)
  | array {metric value : Json} {labels : Labels} {text : String} :
      IsMetric (some metric) labels → IsValue value text →
      IsSample (.array [metric, value]) (labels, text)

theorem valueText?_eq_some_iff (j : Json) (text : String) :
    valueText? j = some text ↔ IsValue j text := by
  unfold valueText? IsValue
  split
  · next time s => simp
  · next h =>
    refine ⟨nofun, ?_⟩
    rintro ⟨time, rfl⟩
    exact absurd rfl (h _ _)

/-- Entries as the members of an object of texts. -/
def textMembers (entries : List (String × String)) : List (JsonText × Json) :=
  entries.map fun (name, value) => (some name, .text value)

theorem asMembersOf?_eq_some_iff {entries : List (String × String)} :
    asMembersOf? asText? (.object members) = some entries ↔ members = textMembers entries := by
  have hmember (member : JsonText × Json) (entry : String × String) :
      (member.1.bind fun key => (asText? member.2).map (key, ·)) = some entry ↔
        member = (some entry.1, .text entry.2) := by
    obtain ⟨key, j⟩ := member
    obtain ⟨name, value⟩ := entry
    cases key with
    | none => simp
    | some key => cases j <;> simp [asText?, Json.text, and_comm]
  rw [asMembersOf?, mapM_eq_some_iff, textMembers, ← List.forall₂_eq_eq_eq,
    List.forall₂_map_right_iff]
  exact ⟨.imp fun m e => (hmember m e).1, .imp fun m e => (hmember m e).2⟩

/-- The labels that are read are what the last members say. -/
theorem isMetric_of_lastMembers {entries : List (String × String)}
    (h : lastMembers members = textMembers entries) :
    IsMetric (some (.object members)) (.ofList entries) := by
  have hnodup : ((textMembers entries).map Prod.fst).Nodup := h ▸ nodup_lastMembers members
  have hnames : (entries.map Prod.fst).Nodup := by
    have hsome : (textMembers entries).map Prod.fst = (entries.map Prod.fst).map some := by
      simp [textMembers]
    exact List.Nodup.of_map _ (hsome ▸ hnodup)
  refine .object (hasTextNames_lastMembers_iff.1 ?_) fun name => field_lastMembers_iff.1 ?_
  · rw [h]
    intro member hmember
    obtain ⟨_, -, rfl⟩ := List.mem_map.1 hmember
    exact Option.some_ne_none _
  · rw [h]
    cases hget : (Labels.ofList entries).get? name with
    | none =>
      rintro member hmember heq
      obtain ⟨⟨_, value⟩, hentry, rfl⟩ := List.mem_map.1 hmember
      obtain rfl := Option.some.inj heq
      rw [(Labels.get?_ofList_eq_some_iff hnames).2 hentry] at hget
      cases hget
    | some value =>
      have hentry := (Labels.get?_ofList_eq_some_iff hnames).1 hget
      exact (field_eq_some_iff_of_nodup hnodup).2 (List.mem_map.2 ⟨_, hentry, rfl⟩)

theorem exists_entries {labels : Labels} (h : IsMetric (some (.object members)) labels) :
    ∃ entries, lastMembers members = textMembers entries ∧ labels = .ofList entries := by
  cases h with
  | object hnames hlast =>
    have htexts : ∀ member ∈ lastMembers members,
        member ∈ Set.range fun entry : String × String => (some entry.1, Json.text entry.2) := by
      rintro ⟨key, j⟩ hmem
      cases key with
      | none => exact absurd rfl (hasTextNames_lastMembers_iff.2 hnames _ hmem)
      | some name =>
        have hfield := (mem_lastMembers_iff.1 hmem).unique (hlast name)
        obtain ⟨value, -, rfl⟩ := Option.map_eq_some_iff.1 hfield.symm
        exact ⟨(name, value), rfl⟩
    obtain ⟨entries, hentries⟩ :
        lastMembers members ∈ Set.range (List.map fun entry : String × String =>
          (some entry.1, Json.text entry.2)) := by
      rw [Set.range_list_map]
      exact htexts
    refine ⟨entries, hentries.symm, Labels.ext_get? fun name => ?_⟩
    cases isMetric_of_lastMembers hentries.symm with
    | object _ hlast' =>
      exact Option.map_injective (fun _ _ h => by cases h; rfl) ((hlast name).unique (hlast' name))

theorem isMetric_iff {metric : Json} {labels : Labels} :
    IsMetric (some metric) labels ↔
      ∃ entries, asMembersOf? asText? (settled metric) = some entries ∧
        labels = .ofList entries := by
  cases metric with
  | object members =>
    simp only [settled, asMembersOf?_eq_some_iff]
    refine ⟨exists_entries, ?_⟩
    rintro ⟨entries, hentries, rfl⟩
    exact isMetric_of_lastMembers hentries
  | null | bool | number | string | array =>
    refine ⟨nofun, ?_⟩
    rintro ⟨entries, h, -⟩
    cases h

/-- Sample and array of its two parts, or object with the last member of each name. -/
theorem isSample_iff {j : Json} {labels : Labels} {text : String} :
    IsSample j (labels, text) ↔ ∃ metric value,
      IsRecord ["metric", "value"] 0 (settled j) [metric, some value] ∧
        IsMetric metric labels ∧ IsValue value text := by
  constructor
  · intro h
    cases h with
    | object hnames hmetric hvalue hlabels htext =>
      exact ⟨_, _, .object (hasTextNames_lastMembers_iff.2 hnames)
        (.cons (field_lastMembers_iff.2 hmetric) (.cons (field_lastMembers_iff.2 hvalue) .nil)),
        hlabels, htext⟩
    | @array metric value _ _ hlabels htext =>
      have hboth : IsRecord ["metric", "value"] 0 (.array [metric, value])
          ([metric, value].map some ++ List.replicate 0 none) := .array rfl (Nat.le_refl 0)
      exact ⟨_, _, hboth, hlabels, htext⟩
  · rintro ⟨metric, value, hrecord, hlabels, htext⟩
    cases j with
    | object members =>
      cases hrecord with
      | object hnames hfields =>
        obtain ⟨hmetric, hfields⟩ := List.forall₂_cons.1 hfields
        obtain ⟨hvalue, -⟩ := List.forall₂_cons.1 hfields
        exact .object (hasTextNames_lastMembers_iff.1 hnames) (field_lastMembers_iff.1 hmetric)
          (field_lastMembers_iff.1 hvalue) hlabels htext
    | array items =>
      generalize hfields : [metric, some value] = fields at hrecord
      cases hrecord with
      | @array _ missing _ hmissing =>
        obtain rfl := Nat.le_zero.1 hmissing
        match items, hfields with
        | [_, _], hfields =>
          cases hfields
          exact .array hlabels htext
    | null | bool | number | string => cases hrecord

theorem readSample?_eq_some_iff (j : Json) (entry : Labels × String) :
    readSample? j = some entry ↔ IsSample j entry := by
  obtain ⟨labels, text⟩ := entry
  rw [isSample_iff]
  simp only [← fieldsWithSpare?_eq_some_iff]
  unfold readSample?
  constructor
  · intro h
    obtain ⟨fields, hfields, h⟩ := Option.bind_eq_some_iff.1 h
    split at h
    · next metric value =>
      have hsample {entries : List (String × String)}
          (h : (required valueText? value).bind (fun text => some (Labels.ofList entries, text)) =
            some (labels, text)) : ∃ j, value = some j ∧ IsValue j text ∧ labels = .ofList entries := by
        obtain ⟨_, hvalue, hentry⟩ := Option.bind_eq_some_iff.1 h
        obtain ⟨j, rfl, htext⟩ := (required_eq_some_iff valueText?_eq_some_iff).1 hvalue
        obtain ⟨rfl, rfl⟩ := Prod.mk.inj (Option.some.inj hentry)
        exact ⟨j, rfl, htext, rfl⟩
      cases metric with
      | none =>
        obtain ⟨value, rfl, htext, rfl⟩ := hsample h
        exact ⟨none, value, hfields, .missing, htext⟩
      | some metric =>
        obtain ⟨entries, hentries, h⟩ := Option.bind_eq_some_iff.1 h
        obtain ⟨value, rfl, htext, rfl⟩ := hsample h
        exact ⟨some metric, value, hfields, isMetric_iff.2 ⟨entries, hentries, rfl⟩, htext⟩
    · cases h
  · rintro ⟨metric, value, hfields, hlabels, htext⟩
    have hvalue := (required_eq_some_iff valueText?_eq_some_iff).2 ⟨value, rfl, htext⟩
    cases metric with
    | none =>
      cases hlabels
      have hempty : Labels.ofList [] = .empty := rfl
      simp [hfields, hvalue, hempty]
    | some metric =>
      obtain ⟨entries, hentries, rfl⟩ := isMetric_iff.1 hlabels
      simp [hfields, hvalue, hentries]

/-- A vector: an array of samples. -/
def IsVector (j : Json) (entries : List (Labels × String)) : Prop :=
  ∃ items, j = .array items ∧ List.Forall₂ IsSample items entries

theorem asListOf?_eq_some_iff {j : Json} {entries : List (Labels × String)} :
    asListOf? readSample? j = some entries ↔ IsVector j entries := by
  cases j with
  | array items =>
    rw [asListOf?, mapM_eq_some_iff]
    simp only [readSample?_eq_some_iff, IsVector, Json.array.injEq, exists_eq_left']
  | null | bool | number | string | object => simp [asListOf?, IsVector]

end Prometheus

end UsageBilling
