import Mathlib.Data.List.Forall2
import UsageBilling.Json.Record

/-!
# What a record holds

The fields of a record in terms of the members of an object, or of the items of an array.

* `Json.Field name members field` : what an object has for a name, if no other member has that name.
* `Json.IsRecord names spare j fields` : the value is a record with these fields;
  `Json.fieldsWithSpare?_eq_some_iff` : these are the fields that are read.
* `Json.Optional P` : a field that may be missing or `null`.
-/

namespace UsageBilling.Json

variable {α β : Type} {name : String} {members : List (JsonText × Json)}

/-- The parts of a list are read all or none. -/
theorem mapM_eq_some_iff {f : α → Option β} {as : List α} {bs : List β} :
    as.mapM f = some bs ↔ List.Forall₂ (fun a b => f a = some b) as bs := by
  induction as generalizing bs with
  | nil => simp [eq_comm]
  | cons a as ih =>
    rw [List.mapM_cons]
    cases bs with
    | nil => cases f a <;> cases as.mapM f <;> simp
    | cons b bs =>
      rw [List.forall₂_cons, ← ih]
      cases f a <;> cases as.mapM f <;> simp

/-! ### Members of an object -/

/-- No member has the name. -/
def Lacks (name : String) (members : List (JsonText × Json)) : Prop :=
  ∀ member ∈ members, member.1 ≠ some name

/-- All names are text. -/
def HasTextNames (members : List (JsonText × Json)) : Prop := ∀ member ∈ members, member.1 ≠ none

/-- The only member of the name, if there is one. -/
def Field (name : String) (members : List (JsonText × Json)) : Option Json → Prop
  | none => Lacks name members
  | some j => ∃ before after, members = before ++ (some name, j) :: after ∧
      Lacks name before ∧ Lacks name after

theorem membersNamed_eq_nil_iff : membersNamed name members = [] ↔ Lacks name members := by
  simp [membersNamed, Lacks]

theorem membersNamed_eq_singleton_iff {j : Json} :
    membersNamed name members = [j] ↔ Field name members (some j) := by
  simp only [membersNamed, List.map_eq_singleton_iff]
  constructor
  · rintro ⟨⟨key, _⟩, hfilter, rfl⟩
    obtain ⟨before, after, rfl, hbefore, hkey, hafter⟩ := List.filter_eq_cons_iff.1 hfilter
    obtain rfl : key = some name := by simpa using hkey
    exact ⟨before, after, rfl, by simpa [Lacks] using hbefore, by simpa [Lacks] using hafter⟩
  · rintro ⟨before, after, rfl, hbefore, hafter⟩
    refine ⟨(some name, j), List.filter_eq_cons_iff.2 ⟨before, after, rfl, ?_, by simp, ?_⟩, rfl⟩
    · simpa [Lacks] using hbefore
    · simpa [Lacks] using hafter

/-- A name has one member only, or none. -/
theorem Field.unique {field field' : Option Json} (h : Field name members field)
    (h' : Field name members field') : field = field' := by
  have hmembers {field : Option Json} (h : Field name members field) :
      membersNamed name members = field.toList := by
    cases field with
    | none => exact membersNamed_eq_nil_iff.2 h
    | some j => exact membersNamed_eq_singleton_iff.2 h
  simpa using congrArg List.head? ((hmembers h).symm.trans (hmembers h'))

theorem fieldsOfObject?_eq_some_iff {names : List String} {fields : Fields} :
    fieldsOfObject? names members = some fields ↔
      HasTextNames members ∧
        List.Forall₂ (fun name field => Field name members field) names fields := by
  unfold fieldsOfObject?
  split
  · next h =>
    have htext : HasTextNames members := by
      simpa [HasTextNames, Option.isSome_iff_ne_none] using h
    rw [mapM_eq_some_iff, and_iff_right htext]
    refine iff_of_eq (congrArg (fun R => List.Forall₂ R names fields) ?_)
    funext name field
    cases field with
    | none =>
      rw [Field, ← membersNamed_eq_nil_iff]
      split <;> simp_all
    | some j =>
      rw [← membersNamed_eq_singleton_iff]
      split <;> simp_all
  · next h =>
    have htext : ¬ HasTextNames members := by
      simpa [HasTextNames, Option.isSome_iff_ne_none] using h
    simp [htext]

/-! ### Records -/

/-- The value is a record with these fields: an object that has each name once at most, or an array
of the fields in order, of which the last `spare` may be left out. -/
inductive IsRecord (names : List String) (spare : Nat) : Json → Fields → Prop
  | object {members : List (JsonText × Json)} {fields : Fields} : HasTextNames members →
      List.Forall₂ (fun name field => Field name members field) names fields →
      IsRecord names spare (.object members) fields
  | array {items : List Json} {missing : Nat} : items.length + missing = names.length →
      missing ≤ spare →
      IsRecord names spare (.array items) (items.map some ++ List.replicate missing none)

/-- **The fields that are read are those of the record.** -/
theorem fieldsWithSpare?_eq_some_iff {names : List String} {spare : Nat} {j : Json}
    {fields : Fields} :
    fieldsWithSpare? names spare j = some fields ↔ IsRecord names spare j fields := by
  cases j with
  | object members =>
    rw [fieldsWithSpare?, fieldsOfObject?_eq_some_iff]
    exact ⟨fun ⟨h, h'⟩ => .object h h', fun h => by cases h with | object h h' => exact ⟨h, h'⟩⟩
  | array items =>
    rw [fieldsWithSpare?]
    constructor
    · intro h
      split at h
      · next hlength =>
        obtain rfl := Option.some.inj h
        exact .array (by omega) (by omega)
      · cases h
    · intro h
      cases h with
      | @array _ missing hlength hspare =>
        rw [if_pos (by omega)]
        congr 3
        omega
  | null | bool | number | string =>
    rw [fieldsWithSpare?]
    · exact ⟨nofun, nofun⟩
    · nofun
    · nofun

/-! ### Single fields -/

theorem required_eq_some_iff {read? : Json → Option α} {P : Json → α → Prop}
    (hread : ∀ j a, read? j = some a ↔ P j a) {field : Option Json} {a : α} :
    required read? field = some a ↔ ∃ j, field = some j ∧ P j a := by
  simp [required, Option.bind_eq_some_iff, hread]

/-- A field that may be missing or `null`, and otherwise is of `P`. -/
inductive Optional (P : Json → α → Prop) : Option Json → Option α → Prop
  | missing : Optional P none none
  | null : Optional P (some .null) none
  | present {j : Json} {a : α} : j ≠ .null → P j a → Optional P (some j) (some a)

theorem nullable_eq_some_iff {read? : Json → Option α} {P : Json → α → Prop}
    (hread : ∀ j a, read? j = some a ↔ P j a) {field : Option Json} {a? : Option α} :
    nullable read? field = some a? ↔ Optional P field a? := by
  constructor
  · intro h
    unfold nullable at h
    split at h
    · cases h
      exact .missing
    · cases h
      exact .null
    · next j hj =>
      obtain ⟨a, ha, rfl⟩ := Option.map_eq_some_iff.1 h
      exact .present hj ((hread j a).1 ha)
  · intro h
    cases h with
    | missing => rfl
    | null => rfl
    | present hj ha => simp [nullable, (hread _ _).2 ha]

/-- A text. -/
def IsText (j : Json) (s : String) : Prop := j = .string (some s)

theorem asText?_eq_some_iff (j : Json) (s : String) : asText? j = some s ↔ IsText j s := by
  cases j <;> simp [asText?, IsText]

end UsageBilling.Json
