import UsageBilling.Number.Power
import UsageBilling.Text.Digits

/-!
# Spans of time

A span has less than `2 ^ 64` seconds (`Duration.ofParts?`).  As text, it is written in the largest
unit of s, ms, µs and ns that it reaches, with as many decimals as it needs.
-/

namespace UsageBilling

/-- A span of time in nanoseconds. -/
structure Duration where
  nanos : Nat
  deriving DecidableEq

namespace Duration

def ofMillis (n : Nat) : Duration := ⟨n * 1000000⟩

/-- The span of seconds and nanoseconds, unless it is too long. -/
def ofParts? (seconds nanos : Nat) : Option Duration :=
  if seconds + nanos / 1000000000 < twoPow 64 then some ⟨seconds * 1000000000 + nanos⟩ else none

/-- The span in seconds. -/
def seconds (d : Duration) : Float :=
  (d.nanos / 1000000000).toFloat + (d.nanos % 1000000000).toFloat / 1000000000

/-- A whole part and a fraction of `width` digits, without trailing zeros. -/
def decimalText (whole fraction width : Nat) : List Char :=
  let digits := ((Text.padded width fraction).reverse.dropWhile (· == '0')).reverse
  Text.decimal whole ++ if fraction = 0 then [] else '.' :: digits

/-- The span in its largest unit, such as `1.5s` or `100ms`. -/
def render (d : Duration) : String :=
  let n := d.nanos
  if 1000000000 ≤ n then String.ofList (decimalText (n / 1000000000) (n % 1000000000) 9) ++ "s"
  else if 1000000 ≤ n then String.ofList (decimalText (n / 1000000) (n % 1000000) 6) ++ "ms"
  else if 1000 ≤ n then String.ofList (decimalText (n / 1000) (n % 1000) 3) ++ "µs"
  else String.ofList (Text.decimal n) ++ "ns"

end Duration

end UsageBilling
