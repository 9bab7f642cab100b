import UsageBilling.Calendar.Rfc3339
import UsageBilling.Prometheus.Address

/-!
# Requests to a Prometheus server

An instant query is a `GET` request to the path `/api/v1/query` under the address of the server,
with the text of the query and the time as parameters.  The path of the address is brought into its
normal form; parameters the address has of its own come first.
-/

namespace UsageBilling.Prometheus

/-- A request as the server sees it. -/
structure Request where
  method : String
  path : String
  /-- Names and values of the parameters, in order. -/
  params : List (String × String)
  deriving DecidableEq

/-! ### Paths -/

/-- The character stands for itself in a path. -/
def standsInPath (c : Char) : Bool :=
  ' ' < c && c < '\x7f' && !(['"', '#', '<', '>', '?', '\x60', '\x7b', '\x7d'].contains c)

/-- The segment means the place it stands in. -/
def isHere (segment : List Char) : Bool :=
  [".", "%2e"].contains (String.ofList (segment.map Char.toLower))

/-- The segment means the place above. -/
def isAbove (segment : List Char) : Bool :=
  ["..", ".%2e", "%2e.", "%2e%2e"].contains (String.ofList (segment.map Char.toLower))

/-- The segments of a path, after those in `above`, the nearest first, without those that mean a
place relative to them. -/
def resolve : (above : List (List Char)) → (segments : List (List Char)) → List (List Char)
  | above, [] => above.reverse
  | above, segment :: rest =>
    if isAbove segment then resolve (keepOpen rest (above.drop 1)) rest
    else if isHere segment then resolve (keepOpen rest above) rest
    else resolve (Text.percentEncode standsInPath segment :: above) rest
where
  /-- A path that ends in a relative segment ends in a slash. -/
  keepOpen (rest : List (List Char)) (above : List (List Char)) : List (List Char) :=
    if rest = [] then [] :: above else above

/-- The normal form of a path. -/
def normalPath (path : List Char) : List Char :=
  let segments := Text.split '/' (path.map fun c => if c = '\\' then '/' else c)
  '/' :: Text.join '/' (resolve [] (segments.drop 1))

/-! ### Parameters -/

/-- A name or a value of a parameter. -/
def formText (cs : List Char) : String :=
  String.ofList (Text.percentDecode (cs.map fun c => if c = '+' then ' ' else c))

/-- The parameters in the query part of an address. -/
def formParams (query : List Char) : List (String × String) :=
  ((Text.split '&' query).filter (· ≠ [])).map fun pair =>
    (formText (pair.takeWhile (· ≠ '=')), formText ((pair.dropWhile (· ≠ '=')).drop 1))

/-! ### Requests -/

/-- The request for an instant query to a server whose address has the path `base`. -/
def request (base query : String) (time : Timestamp) : Except AddressError Request :=
  let address := queryAddress base
  match authorityError? (inFrontOfPath address) with
  | some e => .error e
  | none =>
    let address := address.takeWhile (· ≠ '#')
    .ok
      { method := "GET"
        path := String.ofList (normalPath (address.takeWhile (· ≠ '?')))
        params := formParams ((address.dropWhile (· ≠ '?')).drop 1) ++
          [("query", query), ("time", time.rfc3339Seconds "Z")] }

end UsageBilling.Prometheus
