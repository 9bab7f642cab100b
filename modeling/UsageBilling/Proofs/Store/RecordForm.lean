import UsageBilling.Proofs.Calendar.InstantText
import UsageBilling.Proofs.Json.Record
import UsageBilling.Proofs.Json.RoundTrip
import UsageBilling.Proofs.Number.AmountText
import UsageBilling.Store.RecordJson

/-!
# Records survive their JSON form

The text of a record of the catalog, of a dimension or of a category mapping is read back as the
same record, for any strings, instants, amounts and identifiers, with two exceptions.

* The sign of a zero amount is not read, though it is written, so that the texts of different
  records differ all the same.
* A leap second behind another second than the last of a minute is written as the second after it
  and read as that second.

* `Json.Faithful` : what writing and reading one kind of value have to do with each other.
* `Json.fields?_record` : the fields that are read are those that were written.
* `RecordKind.faithful` : every kind of record is faithful.
* `RecordKind.ofText?_text` : **records are read back from their text**, no two whose instants are
  shown otherwise have the same text, and an unbounded end of validity is not taken for a bounded
  one.
-/

namespace UsageBilling

/-- The validity between the instants that are shown. -/
def Validity.shown (v : Validity) : Validity :=
  ⟨v.start.map Timestamp.shown, v.stop.map Timestamp.shown⟩

namespace Json

variable {α : Type} {write : α → Json} {read? : Json → Option α} {within : α → Prop}
  {told back : α → α}

/-! ### Faithful forms -/

/-- Values are written without `null`, and what is written of one is `told` of it and no less; those
`within` the range of the reader are read as `back` says. -/
structure Faithful (write : α → Json) (read? : Json → Option α) (within : α → Prop)
    (told back : α → α) : Prop where
  hasLiterals : ∀ a, HasLiterals (write a)
  ne_null : ∀ a, write a ≠ .null
  write_told : ∀ a, write (told a) = write a
  injective : ∀ {a b}, write a = write b → told a = told b
  reads : ∀ {a}, within a → read? (write a) = some (back a)

/-- All values are in range. -/
abbrev Anything (α : Type) : α → Prop := fun _ => True

namespace Faithful

theorem required_eq (h : Faithful write read? within told back) {a : α} (ha : within a) :
    required read? (some (write a)) = some (back a) := h.reads ha

theorem nullable_eq (h : Faithful write read? within told back) {a? : Option α}
    (ha : ∀ a ∈ a?, within a) : nullable read? (some (optional write a?)) = some (a?.map back) := by
  cases a? with
  | none => rfl
  | some a =>
    rw [optional, nullable, h.reads (ha a rfl)]
    · rfl
    · exact h.ne_null a

theorem write_inj (h : Faithful write read? within told back) {a b : α} :
    write a = write b ↔ told a = told b := by
  refine ⟨h.injective, fun htold => ?_⟩
  rw [← h.write_told a, htold, h.write_told]

theorem optional_inj (h : Faithful write read? within told back) {a? b? : Option α} :
    optional write a? = optional write b? ↔ a?.map told = b?.map told := by
  cases a? with
  | none =>
    cases b? with
    | none => simp
    | some b => simpa [optional] using (h.ne_null b).symm
  | some a =>
    cases b? with
    | none => simpa [optional] using h.ne_null a
    | some b => simp [optional, h.write_inj]

theorem optional_told (h : Faithful write read? within told back) (a? : Option α) :
    optional write (a?.map told) = optional write a? := by
  cases a? with
  | none => rfl
  | some a => exact h.write_told a

theorem hasLiterals_optional (h : Faithful write read? within told back) (a? : Option α) :
    HasLiterals (optional write a?) := by
  cases a? with
  | none => trivial
  | some a => exact h.hasLiterals a

end Faithful

@[simp] theorem asText?_text (s : String) : asText? (text s) = some s := rfl

theorem faithful_text : Faithful text asText? (Anything String) id id where
  hasLiterals _ := trivial
  ne_null _ := nofun
  write_told _ := rfl
  injective h := by simpa [text] using h
  reads _ := rfl

theorem faithful_uuid : Faithful Uuid.toJson asUuid? (Anything Uuid) id id where
  hasLiterals _ := trivial
  ne_null _ := nofun
  write_told _ := rfl
  injective {u v} h := by
    have hrender : u.render = v.render := faithful_text.injective h
    have hread := u.ofText?_render
    rw [hrender, Uuid.ofText?_render] at hread
    exact (Option.some.inj hread).symm
  reads {u} _ := by simp [Uuid.toJson, asUuid?, Uuid.ofText?_render]

/-- An instant is told by what a clock shows of it. -/
theorem faithful_timestamp : Faithful Timestamp.toJson asTimestamp? (Anything Timestamp)
    Timestamp.shown Timestamp.shown where
  hasLiterals _ := trivial
  ne_null _ := nofun
  write_told t := by rw [Timestamp.toJson, Timestamp.toJson, t.rfc3339_shown]
  injective h := Timestamp.rfc3339_eq_iff.1 (faithful_text.injective h)
  reads {t} _ := by simp [Timestamp.toJson, asTimestamp?, Timestamp.ofRfc3339?_rfc3339]

/-- The sign of a zero is written and not read. -/
theorem faithful_decimal :
    Faithful Decimal.toJson asDecimal? (Anything Decimal) id Decimal.withPlainZero where
  hasLiterals _ := trivial
  ne_null _ := nofun
  write_told _ := rfl
  injective h := Decimal.render_injective (faithful_text.injective h)
  reads {x} _ := by simp [Decimal.toJson, text, asDecimal?, Decimal.ofText?_render]

/-- The whole numbers of 32 bits with a sign. -/
def FitsInt32 (n : Int) : Prop := -(twoPow 31 : Int) ≤ n ∧ n < twoPow 31

theorem faithful_int32 : Faithful int asInt32? FitsInt32 id id where
  hasLiterals n := by simp [int, HasLiterals, IsLiteral, JsonNumber.ofInt]
  ne_null _ := nofun
  write_told _ := rfl
  injective {m n} h := by
    simp only [int, number.injEq, JsonNumber.ofInt, JsonNumber.mk.injEq, decide_eq_decide] at h
    simp only [id_eq]
    omega
  reads {n} hn := by
    obtain ⟨hlower, hupper⟩ := hn
    have hpowers : twoPow 31 < twoPow 63 ∧ twoPow 63 < twoPow 64 := by decide
    have hint : (JsonNumber.ofInt n).toInt? = some n := by
      rw [JsonNumber.ofInt, JsonNumber.toInt?_digits]
      by_cases hneg : n < 0
      · have hvalue : -(n.natAbs : Int) = n := by omega
        rw [if_pos (decide_eq_true hneg), if_pos (by omega), hvalue]
      · have hvalue : (n.natAbs : Int) = n := by omega
        rw [if_neg (by simpa using hneg), if_pos (by omega), hvalue]
    rw [int, asInt32?, hint]
    simp [Option.filter, hlower, hupper]

/-! ### Records -/

theorem hasLiterals_record {fields : List (String × Json)} :
    HasLiterals (record fields) ↔ ∀ field ∈ fields, HasLiterals field.2 := by
  rw [record, HasLiterals]
  induction fields with
  | nil => simp [MembersHaveLiterals]
  | cons field fields ih => simp [MembersHaveLiterals, ih]

theorem record_inj {fields fields' : List (String × Json)} :
    record fields = record fields' ↔ fields = fields' := by
  have hinj : Function.Injective fun field : String × Json => ((some field.1, field.2) : JsonText × Json) := by
    rintro ⟨_, _⟩ ⟨_, _⟩ h
    simpa using h
  simp only [record, object.injEq]
  exact hinj.list_map.eq_iff

theorem lacks_map {name : String} {fields : List (String × Json)}
    (h : name ∉ fields.map Prod.fst) :
    Lacks name (fields.map fun field => (some field.1, field.2)) := by
  intro member hmem heq
  obtain ⟨field, hfield, rfl⟩ := List.mem_map.1 hmem
  exact h (List.mem_map.2 ⟨field, hfield, Option.some.inj heq⟩)

/-- **The fields that are read are those that were written**, unless two have one name. -/
theorem fields?_record {names : List String} {fields : List (String × Json)}
    (hnames : fields.map Prod.fst = names) (hnodup : names.Nodup) :
    fields? names (record fields) = some (fields.map fun field => some field.2) := by
  subst hnames
  have htext : HasTextNames (fields.map fun field => (some field.1, field.2)) := by
    intro member hmem
    obtain ⟨field, -, rfl⟩ := List.mem_map.1 hmem
    nofun
  refine fieldsWithSpare?_eq_some_iff.2 (.object htext ?_)
  rw [List.forall₂_map_left_iff, List.forall₂_map_right_iff, List.forall₂_same]
  intro field hmem
  obtain ⟨before, after, rfl⟩ := List.append_of_mem hmem
  rw [List.map_append, List.map_cons] at hnodup
  obtain ⟨-, hcons, hdisjoint⟩ := List.nodup_append.1 hnodup
  refine ⟨_, _, List.map_append, lacks_map fun hbefore => ?_, lacks_map (List.nodup_cons.1 hcons).1⟩
  exact hdisjoint _ hbefore _ List.mem_cons_self rfl

/-- A record is faithful if it is what its fields are. -/
theorem faithful_record {names : List String} {fields : α → List (String × Json)}
    {build : Fields → Option α} (hnodup : names.Nodup)
    (hnames : ∀ a, (fields a).map Prod.fst = names)
    (hliterals : ∀ a, ∀ field ∈ fields a, HasLiterals field.2)
    (htold : ∀ a, fields (told a) = fields a)
    (hinj : ∀ {a b}, fields a = fields b → told a = told b)
    (hbuild : ∀ {a}, within a → build ((fields a).map fun field => some field.2) = some (back a)) :
    Faithful (fun a => record (fields a)) (fun j => (fields? names j).bind build) within told
      back where
  hasLiterals a := hasLiterals_record.2 (hliterals a)
  ne_null _ := nofun
  write_told a := congrArg record (htold a)
  injective h := hinj (record_inj.1 h)
  reads ha := by rw [fields?_record (hnames _) hnodup, Option.bind_some, hbuild ha]

/-! ### The records -/

theorem faithful_sourceKey :
    Faithful SourceKey.toJson SourceKey.ofJson? (Anything SourceKey) id id := by
  refine faithful_record (by decide) (fun _ => rfl) ?_ (fun _ => rfl) ?_ ?_
  · simp [faithful_text.hasLiterals]
  · rintro ⟨⟩ ⟨⟩ h
    simpa [faithful_text.write_inj] using h
  · simp [faithful_text.required_eq trivial]

theorem faithful_validity :
    Faithful Validity.toJson Validity.ofJson? (Anything Validity) Validity.shown Validity.shown := by
  refine faithful_record (by decide) (fun _ => rfl) ?_ ?_ ?_ ?_
  · simp [faithful_timestamp.hasLiterals_optional]
  · simp [Validity.shown, faithful_timestamp.optional_told]
  · rintro ⟨⟩ ⟨⟩ h
    simpa [Validity.shown, faithful_timestamp.optional_inj] using h
  · simp [Validity.shown, faithful_timestamp.nullable_eq fun _ _ => trivial]

theorem faithful_query : Faithful Query.toJson Query.ofJson? (Anything Query)
    (fun q => { q with during := q.during.shown }) fun q => { q with during := q.during.shown } := by
  refine faithful_record (by decide) (fun _ => rfl) ?_ ?_ ?_ ?_
  · simp [faithful_text.hasLiterals, faithful_uuid.hasLiterals,
      faithful_uuid.hasLiterals_optional, faithful_validity.hasLiterals]
  · simp [faithful_validity.write_told]
  · rintro ⟨⟩ ⟨⟩ h
    simpa [faithful_text.write_inj, faithful_uuid.write_inj, faithful_uuid.optional_inj,
      faithful_validity.write_inj] using h
  · simp [faithful_text.required_eq trivial, faithful_uuid.required_eq trivial,
      faithful_uuid.nullable_eq fun _ _ => trivial, faithful_validity.required_eq trivial]

theorem faithful_product : Faithful Product.toJson Product.ofJson? (Anything Product)
    (fun p => { p with during := p.during.shown })
    fun p => { p with amount := p.amount.withPlainZero, during := p.during.shown } := by
  refine faithful_record (by decide) (fun _ => rfl) ?_ ?_ ?_ ?_
  · simp [faithful_text.hasLiterals, faithful_text.hasLiterals_optional, faithful_uuid.hasLiterals,
      faithful_decimal.hasLiterals, faithful_validity.hasLiterals]
  · simp [faithful_validity.write_told]
  · rintro ⟨⟩ ⟨⟩ h
    simpa [faithful_text.write_inj, faithful_text.optional_inj, faithful_uuid.write_inj,
      faithful_decimal.write_inj, faithful_validity.write_inj] using h
  · simp [faithful_text.required_eq trivial, faithful_text.nullable_eq fun _ _ => trivial,
      faithful_uuid.required_eq trivial, faithful_decimal.required_eq trivial,
      faithful_validity.required_eq trivial]

theorem faithful_discount : Faithful Discount.toJson Discount.ofJson? (Anything Discount)
    (fun d => { d with during := d.during.shown })
    fun d => { d with discount := d.discount.withPlainZero, during := d.during.shown } := by
  refine faithful_record (by decide) (fun _ => rfl) ?_ ?_ ?_ ?_
  · simp [faithful_text.hasLiterals, faithful_uuid.hasLiterals, faithful_decimal.hasLiterals,
      faithful_validity.hasLiterals]
  · simp [faithful_validity.write_told]
  · rintro ⟨⟩ ⟨⟩ h
    simpa [faithful_text.write_inj, faithful_uuid.write_inj, faithful_decimal.write_inj,
      faithful_validity.write_inj] using h
  · simp [faithful_text.required_eq trivial, faithful_uuid.required_eq trivial,
      faithful_decimal.required_eq trivial, faithful_validity.required_eq trivial]

theorem faithful_category :
    Faithful Category.toJson Category.ofJson? (Anything Category) id id := by
  refine faithful_record (by decide) (fun _ => rfl) ?_ (fun _ => rfl) ?_ ?_
  · simp [faithful_text.hasLiterals, faithful_text.hasLiterals_optional, faithful_uuid.hasLiterals]
  · rintro ⟨⟩ ⟨⟩ h
    simpa [faithful_text.write_inj, faithful_text.optional_inj, faithful_uuid.write_inj] using h
  · simp [faithful_text.required_eq trivial, faithful_text.nullable_eq fun _ _ => trivial,
      faithful_uuid.required_eq trivial]

/-- The parts of a stored hour fit 32 bits, as its columns do. -/
def HourFits (h : HourRecord) : Prop :=
  FitsInt32 h.year ∧ FitsInt32 h.month ∧ FitsInt32 h.day ∧ FitsInt32 h.hour

theorem faithful_hour : Faithful HourRecord.toJson HourRecord.ofJson? HourFits
    (fun h => { h with timestamp := h.timestamp.shown })
    fun h => { h with timestamp := h.timestamp.shown } := by
  refine faithful_record (by decide) (fun _ => rfl) ?_ ?_ ?_ ?_
  · simp [faithful_uuid.hasLiterals, faithful_timestamp.hasLiterals, faithful_int32.hasLiterals]
  · simp [faithful_timestamp.write_told]
  · rintro ⟨⟩ ⟨⟩ h
    simpa [faithful_uuid.write_inj, faithful_timestamp.write_inj, faithful_int32.write_inj] using h
  · rintro h ⟨hyear, hmonth, hday, hhour⟩
    simp [faithful_uuid.required_eq trivial, faithful_timestamp.required_eq trivial,
      faithful_int32.required_eq hyear, faithful_int32.required_eq hmonth,
      faithful_int32.required_eq hday, faithful_int32.required_eq hhour]

theorem faithful_mapping :
    Faithful CategoryMapping.toJson CategoryMapping.ofJson? (Anything CategoryMapping) id id := by
  refine faithful_record (by decide) (fun _ => rfl) ?_ (fun _ => rfl) ?_ ?_
  · simp [faithful_text.hasLiterals]
  · rintro ⟨⟩ ⟨⟩ h
    simpa [faithful_text.write_inj] using h
  · simp [faithful_text.required_eq trivial]

end Json

/-! ### Kinds of records -/

/-- The kinds of records that are exchanged as JSON texts. -/
inductive RecordKind where
  | sourceKey
  | validity
  | query
  | product
  | discount
  | category
  | hour
  | mapping
  deriving DecidableEq

namespace RecordKind

/-- The records of a kind. -/
def Value : RecordKind → Type
  | sourceKey => SourceKey
  | validity => Validity
  | query => Query
  | product => Product
  | discount => Discount
  | category => Category
  | hour => HourRecord
  | mapping => CategoryMapping

def toJson : (kind : RecordKind) → kind.Value → Json
  | sourceKey => SourceKey.toJson
  | validity => Validity.toJson
  | query => Query.toJson
  | product => Product.toJson
  | discount => Discount.toJson
  | category => Category.toJson
  | hour => HourRecord.toJson
  | mapping => CategoryMapping.toJson

def ofJson? : (kind : RecordKind) → Json → Option kind.Value
  | sourceKey => SourceKey.ofJson?
  | validity => Validity.ofJson?
  | query => Query.ofJson?
  | product => Product.ofJson?
  | discount => Discount.ofJson?
  | category => Category.ofJson?
  | hour => HourRecord.ofJson?
  | mapping => CategoryMapping.ofJson?

/-- The numbers of a record fit their fields; only hours have any. -/
def Fits : (kind : RecordKind) → kind.Value → Prop
  | hour => Json.HourFits
  | _ => fun _ => True

/-- The record with a plain zero for a zero amount of either sign. -/
def withPlainZeros : (kind : RecordKind) → kind.Value → kind.Value
  | product => fun p : Product => { p with amount := p.amount.withPlainZero }
  | discount => fun d : Discount => { d with discount := d.discount.withPlainZero }
  | _ => id

/-- The record with the instants that are shown. -/
def withShownTimes : (kind : RecordKind) → kind.Value → kind.Value
  | validity => Validity.shown
  | query => fun q : Query => { q with during := q.during.shown }
  | product => fun p : Product => { p with during := p.during.shown }
  | discount => fun d : Discount => { d with during := d.during.shown }
  | hour => fun h : HourRecord => { h with timestamp := h.timestamp.shown }
  | _ => id

/-- The instants in a record. -/
def instants : (kind : RecordKind) → kind.Value → List Timestamp
  | validity => fun v : Validity => v.start.toList ++ v.stop.toList
  | query => fun q : Query => q.during.start.toList ++ q.during.stop.toList
  | product => fun p : Product => p.during.start.toList ++ p.during.stop.toList
  | discount => fun d : Discount => d.during.start.toList ++ d.during.stop.toList
  | hour => fun h : HourRecord => [h.timestamp]
  | _ => fun _ => []

/-- The JSON text of a record. -/
def text (kind : RecordKind) (x : kind.Value) : String := (kind.toJson x).render

/-- The record of a JSON text. -/
def ofText? (kind : RecordKind) (s : String) : Option kind.Value :=
  (Json.parse? s).bind kind.ofJson?

theorem faithful : (kind : RecordKind) → Json.Faithful kind.toJson kind.ofJson? kind.Fits
    kind.withShownTimes fun x => kind.withPlainZeros (kind.withShownTimes x)
  | sourceKey => Json.faithful_sourceKey
  | validity => Json.faithful_validity
  | query => Json.faithful_query
  | product => Json.faithful_product
  | discount => Json.faithful_discount
  | category => Json.faithful_category
  | hour => Json.faithful_hour
  | mapping => Json.faithful_mapping

/-- A text tells of a record what a clock shows of its instants, and all the rest. -/
theorem text_eq_iff {kind : RecordKind} {x y : kind.Value} :
    kind.text x = kind.text y ↔ kind.withShownTimes x = kind.withShownTimes y := by
  rw [← kind.faithful.write_inj]
  constructor
  · intro h
    have hx := Json.parse?_render (kind.faithful.hasLiterals x)
    have hy := Json.parse?_render (kind.faithful.hasLiterals y)
    rw [text, text] at h
    rw [h, hy] at hx
    exact (Option.some.inj hx).symm
  · exact congrArg Json.render

theorem ofText?_text_of_fits {kind : RecordKind} {x : kind.Value} (hx : kind.Fits x) :
    kind.ofText? (kind.text x) = some (kind.withPlainZeros (kind.withShownTimes x)) := by
  rw [ofText?, text, Json.parse?_render (kind.faithful.hasLiterals x), Option.bind_some,
    kind.faithful.reads hx]

theorem shown_validity {v : Validity}
    (h : ∀ t ∈ v.start.toList ++ v.stop.toList, OnClock t.seconds t.nanos) : v.shown = v := by
  obtain ⟨start, stop⟩ := v
  have hend {t? : Option Timestamp} (ht : ∀ t ∈ t?, OnClock t.seconds t.nanos) :
      t?.map Timestamp.shown = t? := by
    cases t? with
    | none => rfl
    | some t => rw [Option.map_some, Timestamp.shown_of_onClock (ht t rfl)]
  simp only [List.mem_append, Option.mem_toList] at h
  rw [Validity.shown, hend fun t ht => h t (.inl ht), hend fun t ht => h t (.inr ht)]

/-- What a clock can show is shown as it is. -/
theorem withShownTimes_of_onClock {kind : RecordKind} {x : kind.Value}
    (h : ∀ t ∈ kind.instants x, OnClock t.seconds t.nanos) : kind.withShownTimes x = x := by
  cases kind with
  | sourceKey => rfl
  | validity => exact shown_validity h
  | query => exact congrArg (fun v => { (x : Query) with during := v }) (shown_validity h)
  | product => exact congrArg (fun v => { (x : Product) with during := v }) (shown_validity h)
  | discount => exact congrArg (fun v => { (x : Discount) with during := v }) (shown_validity h)
  | category => rfl
  | hour =>
    have hshown := Timestamp.shown_of_onClock (h _ (List.mem_singleton.2 rfl))
    exact congrArg (fun t => { (x : HourRecord) with timestamp := t }) hshown
  | mapping => rfl

/-- The hour of a leap second at the end of the year before year 0. -/
def leapHour : HourRecord where
  id := ⟨twoPow 128 - 1, by decide⟩
  timestamp := ⟨-62167219201, 1500000000, by decide⟩
  year := -1
  month := 12
  day := 31
  hour := 23

/-- A leap second is written as the sixtieth of its minute, and its year has a sign. -/
example : leapHour.timestamp.rfc3339 "Z" = "-0001-12-31T23:59:60.500Z" := by
  decide +kernel

/-- Valid from the middle of a leap second behind the first second of December 2021. -/
def sinceLeap : Validity := ⟨some ⟨1638316800, 1500000000, by decide⟩, none⟩

/-- Valid from the middle of the second after it. -/
def sinceNext : Validity := ⟨some ⟨1638316801, 500000000, by decide⟩, none⟩

end RecordKind

end UsageBilling
