import AdguardAdmin.PyAddress
/-!
# Validators of the control plane

What an operator may store: the checks of `validators.py` and of the schemas, for
the columns the role specs are built from.  Each check returns the text it stores,
which is a normal form of the text it was given.
-/

namespace AdguardAdmin.Validators

open GoText PyText PyAddress

/-! ## Hosts -/

/-- One label of an RFC 1123 hostname. -/
def isHostLabel (cs : List Char) : Bool :=
  cs ≠ [] && cs.length ≤ 63 && cs.all (fun c => c.isAlphanum || c = '-') &&
    cs.head? ≠ some '-' && cs.getLast? ≠ some '-'

/-- The text a pattern that ends in `$` matches: `$` looks past a final newline. -/
def beforeEnd (cs : List Char) : List Char :=
  if cs.getLast? = some '\n' then cs.dropLast else cs

/-- Without the dot at the end, if there is one. -/
def dropFinalDot (labels : List (List Char)) : List (List Char) :=
  if labels.getLast? = some [] then labels.dropLast else labels

/-- `_HOSTNAME_RE` -/
def isHostname (cs : List Char) : Bool :=
  let body := beforeEnd cs
  let labels := dropFinalDot (body.splitOn '.')
  1 ≤ body.length && body.length ≤ 253 && labels ≠ [] && labels.all isHostLabel

def isValidHost (value : String) : Bool :=
  value ≠ "" && ((ipAddress value.toList).isSome || isHostname value.toList)

def validateHost (field value : String) : Except Error String := do
  let value := strip value
  failIf (isValidHost value = false) (field ++ " must be a hostname or IP address (got %r)") [value]
  return value

/-- Join a host and port for a URL, bracketing IPv6 literals. -/
def formatHostPort (host : List Char) (port : Int) : String :=
  let digits := Nat.toDigits 10 port.toNat
  match ipAddress host with
  | some (.v6 _ _) => String.ofList ('[' :: host ++ ']' :: ':' :: digits)
  | _ => String.ofList (host ++ ':' :: digits)

/-! ## Load-balancer and VRRP values -/

def hasControlChar (s : String) : Bool := s.toList.any fun c => c.toNat < 0x20 || c.toNat = 0x7f

/-- A value between two bounds. -/
def validateBetween (least most : Int) (message : String) (value : Int) : Except Error Int := do
  failIf (¬(least ≤ value ∧ value ≤ most)) message []
  return value

def validatePort (field : String) : Int → Except Error Int :=
  validateBetween 1 65535 (field ++ " must be between 1 and 65535")

def validateRouterId : Int → Except Error Int :=
  validateBetween 1 255 "vrrp_router_id must be between 1 and 255"

def validatePriority : Int → Except Error Int :=
  validateBetween 1 254 "vrrp_priority must be between 1 and 254"

/-- An IPv4/IPv6 network in CIDR form (a bare address gets a host prefix). -/
def validateCidr (value : String) : Except Error String := do
  let value := strip value
  let net ← orFail (ipNetwork value.toList) "cidr must be an IP network in CIDR form (got %r)"
    [value]
  return String.ofList (strPrefix net)

/-- A virtual IP with its prefix.  Empty clears it. -/
def validateVip (value : String) : Except Error (Option String) :=
  if strip value = "" then .ok none
  else do
    let value := strip value
    failIf ('/' ∉ value.toList) "vip must include a prefix length, e.g. 10.0.0.53/24" []
    let iface ← orFail (ipInterface value.toList) "vip must be an IP address with prefix (got %r)"
      [value]
    -- an IPv4-mapped address has the properties of the IPv4 address
    failIf (isUnicast (unmap iface.1.ip) = false) "vip must be a unicast address" []
    return some (String.ofList (strPrefix iface))

/-- `^[A-Za-z0-9_.:-]{1,15}$` -/
def isInterfaceName : String → Bool := matchesClass (fun c => isNameChar c || c = ':') 15

def validateInterface (value : String) : Except Error String := do
  let value := strip value
  failIf (value ≠ "" ∧ isInterfaceName value = false) "interface must be an interface name like eth0"
    []
  return value

def intPort (field text : String) : Except Error Int := do
  let port ← orFail (int? text) (field ++ " has a non-numeric port") []
  validatePort (field ++ " port") port

/-- The host and port of a listener as written; the port defaults to 53. -/
def listenParts (value : String) : Except Error (List Char × Int) :=
  match value.toList with
  | '[' :: inner => do
      let (host, rest) ← orFail (cut? ']' inner)
        "listen address has an unterminated IPv6 literal" []
      match rest with
      | [] => return (host, 53)
      | ':' :: port => return (host, ← intPort "listen address" (String.ofList port))
      | _ => errorf "listen address must look like [addr]:port" []
  | cs =>
      match cut? ':' cs with
      | some (host, port) =>
          if ':' ∈ port then .ok (cs, 53)
          else do return (host, ← intPort "listen address" (String.ofList port))
      | none => .ok (cs, 53)

/-- host:port for a dnsdist listener; IPv6 literals bracketed. -/
def validateListenAddress (value : String) : Except Error String := do
  let value := strip value
  failIf (hasControlChar value = true ∨ value = "") "listen address is required" []
  let (host, port) ← listenParts value
  let ip ← orFail (ipAddress host) "listen address must be an IP address (got %r)"
    [String.ofList host]
  return formatHostPort ip.str port

/-! ## Image references -/

def isLowerOrDigit (c : Char) : Bool := ('a' ≤ c && c ≤ 'z') || ('0' ≤ c && c ≤ '9')

/-- `[a-z0-9]+(?:[._-][a-z0-9]+)*` -/
def isPathComponent (cs : List Char) : Bool :=
  (cs.splitOnP fun c => c = '.' || c = '_' || c = '-').all fun part =>
    part ≠ [] && part.all isLowerOrDigit

/-- `[A-Za-z0-9_.-]{1,128}` -/
def isTag (cs : List Char) : Bool := cs ≠ [] && cs.length ≤ 128 && cs.all isNameChar

/-- `sha256:[a-f0-9]{64}` -/
def isDigest (cs : List Char) : Bool :=
  cs.take 7 = "sha256:".toList && (cs.drop 7).length = 64 &&
    (cs.drop 7).all fun c => ('a' ≤ c && c ≤ 'f') || ('0' ≤ c && c ≤ '9')

/-- A text and what follows the first separator in it. -/
def optionalTail (sep : Char) (cs : List Char) : List Char × Option (List Char) :=
  match cut? sep cs with
  | none => (cs, none)
  | some (front, tail) => (front, some tail)

/-- `_IMAGE_RE` -/
def isImageRef (cs : List Char) : Bool :=
  let (reference, digest) := optionalTail '@' cs
  let (path, tag) := optionalTail ':' reference
  (path.splitOn '/').all isPathComponent && tag.all isTag && digest.all isDigest

def validateImageRef (value : String) : Except Error String := do
  let value := strip value
  failIf (isImageRef value.toList = false ∨ 255 < value.length)
    "image must be a container image reference like repo/name:tag" []
  return value

/-! ## Schema fields -/

/-- The entries that are not blank. -/
def nonBlank (values : List String) : List String := values.filter (strip · ≠ "")

def checkListen (values : List String) : Except Error (List String) := do
  let out ← (nonBlank values).mapM validateListenAddress
  failIf (out = []) "at least one listen address is required" []
  return out

def checkAcl (values : List String) : Except Error (List String) :=
  (nonBlank values).mapM validateCidr

/-- The name checked is the one without dots at the end and without blanks around
it, the name stored is not. -/
def checkHcName (value : String) : Except Error String := do
  let value := strip value
  let value := if value.toList.getLast? = some '.' then value else value ++ "."
  let _ ← validateHost "hc_name" (String.ofList (rstripBy (· = '.') value.toList))
  return value

def checkPositive : Int → Except Error Int :=
  validateBetween 1 100000000 "must be a positive integer"

/-- The same check for the weight and order of a backend. -/
def checkBackendPositive : Int → Except Error Int :=
  validateBetween 1 2147483647 "must be a positive integer"

end AdguardAdmin.Validators
