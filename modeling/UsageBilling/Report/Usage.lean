import UsageBilling.Sample
import UsageBilling.Store.Records

/-!
# Usage in a sample

A sample can be stored if it has the labels of its category, tenant and product, if the product
label is a source key, and if its value is finite.  `Usage.ofSample` looks at these in this order,
so the first that is wrong is the one it tells of.
-/

namespace UsageBilling

/-- What a sample says about the use of a product. -/
structure Usage where
  category : String
  tenant : String
  product : SourceKey
  quantity : Float
  deriving DecidableEq

/-- The usage in a sample of a query. -/
def Usage.ofSample (query : Query) (s : Sample) : Except BillingError Usage := do
  let category ← (s.label categoryLabel).mapError .validation
  let tenant ← (s.label tenantLabel).mapError .validation
  let productText ← (s.label productLabel).mapError .validation
  let product ← (SourceKey.parse productText).mapError .sourceKey
  if s.value.isFinite then .ok ⟨category, tenant, product, s.value⟩
  else .error (.validation (.nonFiniteValue query.name productText s.value))

end UsageBilling
