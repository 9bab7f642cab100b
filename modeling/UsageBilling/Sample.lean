import UsageBilling.Error
import UsageBilling.Json.Record
import UsageBilling.Lookup

/-!
# Samples of the metrics source

A sample is a value with labels.  `Labels` keeps its entries sorted by name with one value per
name, so two label sets are equal as soon as they give the same value for every name.
-/

namespace UsageBilling

/-- Label names with their values, sorted by name. -/
structure Labels where
  entries : List (String × String)
  sorted : entries.Pairwise (·.1 < ·.1)
  deriving DecidableEq

namespace Labels

def empty : Labels := ⟨[], .nil⟩

/-- An entry put in its place, instead of one with the same name. -/
def insertEntry (name value : String) : List (String × String) → List (String × String)
  | [] => [(name, value)]
  | entry :: rest =>
    if name < entry.1 then (name, value) :: entry :: rest
    else if name = entry.1 then (name, value) :: rest
    else entry :: insertEntry name value rest

theorem lt_of_mem_insertEntry {name value first : String} {entries : List (String × String)}
    (hname : first < name) (h : ∀ e ∈ entries, first < e.1) :
    ∀ e ∈ insertEntry name value entries, first < e.1 := by
  induction entries with
  | nil => simpa [insertEntry] using hname
  | cons entry rest ih =>
    have hrest := ih fun e he => h e (List.mem_cons_of_mem _ he)
    intro e he
    simp only [insertEntry] at he
    split at he
    · rcases List.mem_cons.1 he with rfl | he
      · exact hname
      · exact h e he
    · split at he
      · rcases List.mem_cons.1 he with rfl | he
        · exact hname
        · exact h e (List.mem_cons_of_mem _ he)
      · rcases List.mem_cons.1 he with rfl | he
        · exact h e List.mem_cons_self
        · exact hrest e he

theorem sorted_insertEntry (name value : String) {entries : List (String × String)}
    (h : entries.Pairwise (·.1 < ·.1)) : (insertEntry name value entries).Pairwise (·.1 < ·.1) := by
  induction entries with
  | nil => simp [insertEntry]
  | cons entry rest ih =>
    obtain ⟨hfirst, hrest⟩ := List.pairwise_cons.1 h
    simp only [insertEntry]
    split
    · next hlt =>
      refine List.pairwise_cons.2 ⟨fun e he => ?_, h⟩
      rcases List.mem_cons.1 he with rfl | he
      · exact hlt
      · exact String.lt_trans hlt (hfirst e he)
    · next hlt =>
      split
      · next heq => exact List.pairwise_cons.2 ⟨fun e he => heq ▸ hfirst e he, hrest⟩
      · next hne =>
        have hgt : entry.1 < name := by
          by_cases hc : entry.1 < name
          · exact hc
          · exact absurd (String.le_antisymm (String.not_lt.1 hc) (String.not_lt.1 hlt)) hne
        exact List.pairwise_cons.2 ⟨lt_of_mem_insertEntry hgt hfirst, ih hrest⟩

/-- Set the value of a name. -/
def insert (l : Labels) (name value : String) : Labels :=
  ⟨insertEntry name value l.entries, sorted_insertEntry name value l.sorted⟩

/-- Labels from a list, where the last value of a name counts. -/
def ofList (entries : List (String × String)) : Labels :=
  entries.foldl (fun l (name, value) => l.insert name value) empty

/-- The value of a name. -/
def get? (l : Labels) (name : String) : Option String := l.entries.lookup name

theorem lookup_insertEntry (name value other : String) (entries : List (String × String)) :
    (insertEntry name value entries).lookup other =
      if other = name then some value else entries.lookup other := by
  induction entries with
  | nil => simp [insertEntry]
  | cons entry rest ih =>
    obtain ⟨first, old⟩ := entry
    simp only [insertEntry]
    split
    · rw [lookup_cons_ite]
    · split
      · next heq =>
        subst heq
        simp only [lookup_cons_ite]
        split <;> rfl
      · next hne =>
        simp only [lookup_cons_ite, ih]
        split
        · next heq => simp [heq, Ne.symm hne]
        · rfl

/-- Setting the value of a name changes that one only. -/
theorem get?_insert (l : Labels) (name value other : String) :
    (l.insert name value).get? other = if other = name then some value else l.get? other :=
  lookup_insertEntry name value other l.entries

end Labels

/-- The label that holds the category of a sample, `zone:namespace`. -/
def categoryLabel : String := "category"

/-- The label that holds the tenant of a sample. -/
def tenantLabel : String := "tenant"

/-- The label that holds the source key of a sample. -/
def productLabel : String := "product"

/-- A value with labels. -/
structure Sample where
  labels : Labels
  value : Float
  deriving DecidableEq

namespace Sample

/-- A sample with the three labels that ingestion needs. -/
def withDimensions (category tenant product : String) (value : Float) : Sample where
  labels := .ofList [(categoryLabel, category), (tenantLabel, tenant), (productLabel, product)]
  value := value

/-- The value of a label that has to be there. -/
def label (s : Sample) (name : String) : Except ValidationError String :=
  match s.labels.get? name with
  | some value => .ok value
  | none => .error (.missingLabel name)

def toJson (s : Sample) : Json :=
  .record [("labels", .record (s.labels.entries.map fun (name, value) => (name, .text value))),
    ("value", .float s.value)]

def ofJson? (j : Json) : Option Sample := do
  let [labels, value] ← Json.fields? ["labels", "value"] j | none
  let labels ← Json.required (Json.asMembersOf? Json.asText?) labels
  some ⟨.ofList labels, ← Json.required Json.asFloat? value⟩

end Sample

end UsageBilling
