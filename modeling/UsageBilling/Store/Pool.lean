import UsageBilling.Session

/-!
# Connections

The settings of the connection pool, which has to allow at least one connection, and a wait that
ends before the clock does.
-/

namespace UsageBilling

/-- How many connections may be open, and how long to wait for one. -/
structure PoolConfig where
  maxConnections : Nat
  acquireTimeoutSecs : Nat
  deriving DecidableEq

namespace PoolConfig

/-- Five connections and half a minute. -/
def standard : PoolConfig := ⟨5, 30⟩

/-- At least one connection is allowed. -/
def validate (c : PoolConfig) : Except BillingError Unit :=
  if c.maxConnections = 0 then .error (.config "max_connections must be > 0") else .ok ()

/-- The seconds that the clock can still count: it started at least a minute ago and ends at
`2 ^ 63`. -/
def clockSeconds : Nat := twoPow 63 - 60

/-- The wait for a connection in seconds, if the clock lasts that long. -/
def wait? (c : PoolConfig) : Option Nat :=
  if c.acquireTimeoutSecs < clockSeconds then some c.acquireTimeoutSecs else none

end PoolConfig

/-- Connect to the database: the settings in effect. -/
def Store.connect {σ : Type} (c : PoolConfig) : Session σ PoolConfig := do
  Session.ofExcept id c.validate
  let _ ← Session.inRange c.wait?
  Session.connected
  pure c

end UsageBilling
