import UsageBilling.Number.Power
import UsageBilling.Text.Percent
import UsageBilling.Text.Split

/-!
# Addresses of Prometheus servers

The address of instant queries is the server's name and port, its base path without slashes at the
end, and `/api/v1/query`.  A base path need not start with a slash.  What it holds in front
of its first one then continues the port, or, up to an `@`, turns the name of the server into
credentials for another host.  `authorityError?` says what is wrong with such an address.
-/

namespace UsageBilling.Prometheus

/-- Why nothing can be sent to an address. -/
inductive AddressError where
  | emptyHost
  | invalidDomain
  | invalidIpv4
  | invalidIpv6
  | invalidPort
  /-- The address leads to another host than the server. -/
  | otherHost
  deriving DecidableEq

def AddressError.message : AddressError → String
  | .emptyHost => "empty host"
  | .invalidDomain => "invalid international domain name"
  | .invalidIpv4 => "invalid IPv4 address"
  | .invalidIpv6 => "invalid IPv6 address"
  | .invalidPort => "invalid port number"
  | .otherHost => "address of another host"

/-- The path of instant queries. -/
def queryPath : List Char := "/api/v1/query".toList

/-- The address of instant queries behind the server's port.  Tabs and line breaks do not count. -/
def queryAddress (base : String) : List Char :=
  ((base.toList.reverse.dropWhile (· = '/')).reverse ++ queryPath).filter
    fun c => c ≠ '\t' && c ≠ '\n' && c ≠ '\r'

/-! ### IPv4 -/

/-- A number in hexadecimal behind `0x`, in octal behind `0`, else in decimal. -/
def ipv4Number? : List Char → Option Nat
  | [] => none
  | '0' :: c :: digits =>
    if c = 'x' || c = 'X' then Text.readHex? digits
    else if (c :: digits).all fun c => '0' ≤ c && c ≤ '7' then
      some ((c :: digits).foldl (fun n c => 8 * n + Text.digitValue c) 0)
    else none
  | digits => if digits.all Text.isDigit then some (Text.value digits) else none

/-- The labels of a domain, without the empty one behind a last dot. -/
def domainLabels (domain : List Char) : List (List Char) :=
  let pieces := Text.split '.' domain
  if pieces.getLast? = some [] then pieces.dropLast else pieces

/-- A domain whose last label is a number has to be an IPv4 address. -/
def endsInNumber (domain : List Char) : Bool :=
  match (domainLabels domain).getLast? with
  | some label => label ≠ [] && label.all Text.isDigit || (ipv4Number? label).isSome
  | none => false

/-- The labels are at most four numbers.  The last of them fills the bytes that the others leave. -/
def isIpv4 (domain : List Char) : Bool :=
  match ((domainLabels domain).mapM ipv4Number?).map List.reverse with
  | some (last :: others) =>
    others.length ≤ 3 && others.all (· < 256) && last < twoPow (32 - 8 * others.length)
  | _ => false

/-! ### IPv6 -/

/-- One to four hexadecimal digits. -/
def isIpv6Group (cs : List Char) : Bool :=
  cs ≠ [] && cs.length ≤ 4 && cs.all fun c => (Text.hexValue? c).isSome

/-- Four numbers below 256 in decimal, without leading zeros. -/
def isDottedQuad (cs : List Char) : Bool :=
  let pieces := Text.split '.' cs
  pieces.length = 4 && pieces.all fun p => p.all Text.isDigit && p = Text.decimal (Text.value p) &&
    Text.value p < 256

/-- The number of groups between colons.  At the end of the address a dotted quad stands for two. -/
def ipv6Groups? (atEnd : Bool) : List (List Char) → Option Nat
  | [] => some 0
  | piece :: rest =>
    if isIpv6Group piece then (ipv6Groups? atEnd rest).map (· + 1)
    else if atEnd && rest = [] && isDottedQuad piece then some 2
    else none

/-- The number of groups in a part of an address. -/
def ipv6Length? (atEnd : Bool) (cs : List Char) : Option Nat :=
  if cs = [] then some 0 else ipv6Groups? atEnd (Text.split ':' cs)

/-- The parts in front of the first double colon and behind it. -/
def cutAtGap? : List Char → Option (List Char × List Char)
  | [] => none
  | ':' :: ':' :: rest => some ([], rest)
  | c :: rest => (cutAtGap? rest).map fun (front, back) => (c :: front, back)

/-- Eight groups, of which a double colon can stand for one or more. -/
def isIpv6 (cs : List Char) : Bool :=
  match cutAtGap? cs with
  | some (front, back) =>
    match ipv6Length? false front, ipv6Length? true back with
    | some m, some n => m + n ≤ 7
    | _, _ => false
  | none => ipv6Length? true cs = some 8

/-! ### Hosts -/

/-- The host at the front of an authority, and the port with its colon.  In brackets a colon belongs
to the host. -/
def cutHost (inBrackets : Bool) : List Char → List Char × List Char
  | [] => ([], [])
  | c :: rest =>
    if c = ':' && !inBrackets then ([], c :: rest)
    else
      let (host, port) := cutHost (c = '[' || inBrackets && c ≠ ']') rest
      (c :: host, port)

/-- The character cannot stand in a domain. -/
def isBarredFromDomain (c : Char) : Bool :=
  c ≤ ' ' || c = '\x7f' || c = '\ufffd' || "%#/:<>?@[\\]^|".toList.contains c

/-- What is wrong with a host. -/
def hostError? : List Char → Option AddressError
  | [] => some .emptyHost
  | '[' :: cs =>
    if cs.getLast? = some ']' && isIpv6 cs.dropLast then none else some .invalidIpv6
  | host =>
    let domain := Text.percentDecode host
    if domain.any isBarredFromDomain then some .invalidDomain
    else if endsInNumber domain && !isIpv4 domain then some .invalidIpv4
    else none

/-- What is wrong with a port, in decimal behind a colon. -/
def portError? (port : List Char) : Option AddressError :=
  let digits := port.drop 1
  if digits.all Text.isDigit && Text.value digits < 65536 then none else some .invalidPort

/-! ### Authorities -/

/-- What stands in front of the path of an address. -/
def inFrontOfPath (address : List Char) : List Char :=
  address.takeWhile fun c => !(['/', '\\', '?', '#'].contains c)

/-- What is wrong with an authority that ends in `rest` behind the server's port.  That port has five
digits and cannot take another one. -/
def authorityError? (rest : List Char) : Option AddressError :=
  if rest = [] then none
  else if rest.contains '@' then
    let (host, port) := cutHost false (rest.reverse.takeWhile (· ≠ '@')).reverse
    (hostError? host).or ((portError? port).or (some .otherHost))
  else some .invalidPort

end UsageBilling.Prometheus
