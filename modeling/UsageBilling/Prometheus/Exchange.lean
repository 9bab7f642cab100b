import UsageBilling.Prometheus.Request
import UsageBilling.Prometheus.Response

/-!
# Queries to a Prometheus server

`exchange` puts request and answer together: a query sends one request and yields the samples of the
answer.  Where the address allows no request, none is sent and the query has failed.
-/

namespace UsageBilling.Prometheus

/-- What the server sees of a query, and what comes of it. -/
structure Exchange where
  requests : List Request
  outcome : Except BillingError (List Sample)

/-- A query to a server whose address has the path `base` and that answers every request with
`status` and `body`. -/
def exchange (base query : String) (time : Timestamp) (status : Nat) (body : String) : Exchange :=
  match request base query time with
  | .ok r => ⟨[r], decode (textOf status body)⟩
  | .error e => ⟨[], .error (.metricsSource (.transport ("builder error: " ++ e.message)))⟩

end UsageBilling.Prometheus
