import UsageBilling.Json.Parser
import UsageBilling.Json.Record
import UsageBilling.Sample

/-!
# Answers of a Prometheus server

`Prometheus.decode` reads the answer to an instant query.  Either every sample of the answer is
read or none is.  An answer that reports a failure is told from one that is no answer, and only a
vector of samples will do.
-/

namespace UsageBilling.Prometheus

/-- The result of a query. -/
structure QueryData where
  resultType : String
  /-- `null` if it is left out. -/
  result : Json

/-- What every answer says. -/
structure ApiResponse where
  status : String
  data : Option QueryData
  errorType : Option String
  error : Option String

/-- How deep a result may be nested. -/
def maxResultDepth : Nat := 125

def QueryData.ofJson? (j : Json) : Option QueryData := do
  let [resultType, result] ← Json.fieldsWithSpare? ["resultType", "result"] 1 j | none
  let result := result.getD .null
  if result.isProper && result.depth ≤ maxResultDepth then
    some ⟨← Json.required Json.asText? resultType, result⟩
  else none

def ApiResponse.ofJson? (j : Json) : Option ApiResponse := do
  let [status, data, errorType, error] ←
    Json.fields? ["status", "data", "errorType", "error"] j | none
  some {
    status := ← Json.required Json.asText? status
    data := ← Json.nullable QueryData.ofJson? data
    errorType := ← Json.nullable Json.asText? errorType
    error := ← Json.nullable Json.asText? error }

/-! ### Samples -/

/-- The members of an object without those that a later member of the same key replaces. -/
def lastMembers : List (JsonText × Json) → List (JsonText × Json)
  | [] => []
  | member :: rest =>
    if rest.any (·.1 = member.1) then lastMembers rest else member :: lastMembers rest

/-- An object with each key once; other values are as they are. -/
def settled : Json → Json
  | .object members => .object (lastMembers members)
  | j => j

/-- The value of a sample: a time and a text. -/
def valueText? : Json → Option String
  | .array [.number _, .string s] => s
  | _ => none

/-- The labels of a sample, none if they are left out, and the text of its value. -/
def readSample? (j : Json) : Option (Labels × String) := do
  let [metric, value] ← Json.fieldsWithSpare? ["metric", "value"] 0 (settled j) | none
  let labels ← match metric with
    | none => some []
    | some metric => Json.asMembersOf? Json.asText? (settled metric)
  some (.ofList labels, ← Json.required valueText? value)

/-- The sample of labels and the text of a value. -/
def sampleOf (labels : Labels) (text : String) : Except BillingError Sample :=
  match FloatText.parse text with
  | .ok value => .ok ⟨labels, value⟩
  | .error e =>
    .error (.metricsSource (.decode (s!"invalid sample value '{text}': " ++ e.message)))

/-- The samples of a vector. -/
def samplesOf (result : Json) : Except BillingError (List Sample) :=
  match Json.asListOf? readSample? result with
  | some samples => samples.mapM fun (labels, text) => sampleOf labels text
  | none => .error (.metricsSource .malformed)

/-! ### Answers -/

/-- The samples of an answer. -/
def ApiResponse.samples (r : ApiResponse) : Except BillingError (List Sample) :=
  if r.status ≠ "success" then
    .error (.metricsSource (.api (r.errorType.getD r.status) (r.error.getD "")))
  else
    match r.data with
    | none => .error (.metricsSource (.decode "response has no data"))
    | some data =>
      if data.resultType = "vector" then samplesOf data.result
      else .error (.validation (.unexpectedResultType data.resultType))

/-- The samples that the text of an answer holds. -/
def decode (body : String) : Except BillingError (List Sample) :=
  match (Json.parse? body).bind ApiResponse.ofJson? with
  | some r => r.samples
  | none => .error (.metricsSource .malformed)

/-- The text that comes with a status: answers 204 and 304 have none, and a byte order mark in
front does not count. -/
def textOf (status : Nat) (body : String) : String :=
  if status = 204 || status = 304 then ""
  else
    match body.toList with
    | '\ufeff' :: rest => String.ofList rest
    | _ => body

end UsageBilling.Prometheus
