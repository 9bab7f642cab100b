import UsageBilling.Selection
import UsageBilling.Text.Split

/-!
# Source keys

A source key names a dimension of usage as `query:zone:tenant:namespace`, with an optional class
as fifth segment.  Catalog records are stored under sources that may be the start of such a key
and may hold `*` in place of a segment.  `SourceKey.lookupKeys` lists the sources that fit a key,
the most specific first, so the first one that the catalog holds decides.

* `SourceKey.parse` reads a key and `SourceKey.render` writes it;
* `SourceKey.lookupKeys` is the candidate list.
-/

namespace UsageBilling

/-- What separates the segments of a key. -/
def segmentSeparator : Char := ':'

/-- The segment that stands for any segment. -/
def wildcard : String := "*"

/-- A usage dimension, one field per segment. -/
structure SourceKey where
  query : String
  zone : String
  tenant : String
  namespaceName : String
  /-- Storage or instance class, empty when the key has none. -/
  className : String
  deriving DecidableEq, Repr

/-- A text with another number of segments than four or five. -/
structure SegmentCountError where
  raw : String
  count : Nat
  deriving DecidableEq, Repr

namespace SourceKey

/-- Read a key of four or five segments. -/
def parse (raw : String) : Except SegmentCountError SourceKey :=
  match Text.splitText segmentSeparator raw with
  | [query, zone, tenant, namespaceName] => .ok ⟨query, zone, tenant, namespaceName, ""⟩
  | [query, zone, tenant, namespaceName, className] => .ok ⟨query, zone, tenant, namespaceName, className⟩
  | segments => .error ⟨raw, segments.length⟩

/-- The segments, without an empty class. -/
def segments (k : SourceKey) : List String :=
  [k.query, k.zone, k.tenant, k.namespaceName] ++ if k.className = "" then [] else [k.className]

/-- The key as text. -/
def render (k : SourceKey) : String := Text.joinText segmentSeparator k.segments

/-! ### Lookup keys -/

/-- The segments with a wildcard at each of the given positions. -/
def mask (segments : List String) (positions : List Nat) : List String :=
  positions.foldl (fun acc p => acc.set p wildcard) segments

/-- The candidates that keep the first `len` segments: the bare ones, then every choice of
wildcard positions, fewer first and, among as many, the higher positions first. -/
def keysOfLength (segments : List String) (wildcards : List Nat) (len : Nat) : List String :=
  let bare := segments.take len
  let choices := (List.range wildcards.length).flatMap fun k =>
    (selections wildcards (k + 1)).reverse
  ([] :: choices).map fun positions => Text.joinText segmentSeparator (mask bare positions)

/-- The candidates for all lengths from `len` down to one.  Each time a segment is given up while
more than two are left, the highest wildcard position goes with it. -/
def keysUpToLength (segments : List String) : (wildcards : List Nat) → (len : Nat) → List String
  | _, 0 => []
  | wildcards, len + 1 =>
    keysOfLength segments wildcards (len + 1) ++
      keysUpToLength segments (if len + 1 > 2 then wildcards.dropLast else wildcards) len

/-- The sources that fit a key, the most specific first.  Zone and tenant may be wildcards, the
namespace only while a class follows it. -/
def lookupKeys (k : SourceKey) : List String :=
  let wildcards := if k.className = "" then [1, 2] else [1, 2, 3]
  keysUpToLength k.segments wildcards k.segments.length

end SourceKey

end UsageBilling
