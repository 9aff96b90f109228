import AdguardAdmin.JsonValue
/-!
# Dnsdist specs

What the agent accepts as a dnsdist spec, and the Lua configuration it renders
from it.  Rendering resolves the hostnames of the backends, so the same spec can
render differently at different times.
-/

namespace AdguardAdmin.Dnsdist

open GoText IpLiterals

structure Backend where
  name : String
  address : String
  port : Int
  weight : Int
  order : Int
  deriving DecidableEq, Repr

structure Cache where
  enabled : Bool
  maxEntries : Int
  deriving DecidableEq, Repr

structure Healthcheck where
  name : String
  intervalS : Int
  maxFailures : Int
  rise : Int
  mode : String
  deriving DecidableEq, Repr

structure Spec where
  enabled : Bool
  installMethod : String
  image : String
  listen : List String
  policy : String
  ecs : Bool
  cache : Cache
  healthcheck : Healthcheck
  acl : List String
  backends : List Backend
  deriving DecidableEq, Repr

/-! ## Reading the body -/

structure Input where
  enabled : Option Bool
  installMethod : String
  image : String
  listen : List String
  policy : String
  ecs : Option Bool
  cache : Option Cache
  healthcheck : Option Healthcheck
  acl : Option (List String)
  backends : List Backend
  deriving DecidableEq, Repr

open Json

def readCache (fields : List (String × Json Int)) : Except Error Cache := do
  return {
    enabled := ← readBool (get fields "enabled")
    maxEntries := ← readInt (get fields "max_entries") }

def readHealthcheck (fields : List (String × Json Int)) : Except Error Healthcheck := do
  return {
    name := ← readString (get fields "name")
    intervalS := ← readInt (get fields "interval_s")
    maxFailures := ← readInt (get fields "max_failures")
    rise := ← readInt (get fields "rise")
    mode := ← readString (get fields "mode") }

def readBackend (v : Json Int) : Except Error Backend := do
  let fields ← members v
  return {
    name := ← readString (get fields "name")
    address := ← readString (get fields "address")
    port := ← readInt (get fields "port")
    weight := ← readInt (get fields "weight")
    order := ← readInt (get fields "order") }

def readInput (raw : Json Int) : Except Error Input := do
  let fields ← members raw
  return {
    enabled := ← readBool? (get fields "enabled")
    installMethod := ← readString (get fields "install_method")
    image := ← readString (get fields "image")
    listen := ← readList readString (get fields "listen")
    policy := ← readString (get fields "policy")
    ecs := ← readBool? (get fields "ecs")
    cache := ← readStruct? readCache (get fields "cache")
    healthcheck := ← readStruct? readHealthcheck (get fields "healthcheck")
    acl := ← readList? readString (get fields "acl")
    backends := ← readList readBackend (get fields "backends") }

/-! ## Validation -/

def defaultImage : String := "powerdns/dnsdist-20:2.0.8"

def defaultAcl : List String :=
  ["127.0.0.0/8", "10.0.0.0/8", "172.16.0.0/12", "192.168.0.0/16", "::1/128", "fc00::/7",
    "fe80::/10"]

def policies : List String :=
  ["leastOutstanding", "roundrobin", "wrandom", "whashed", "firstAvailable"]

/-- `^[A-Za-z0-9_.-]{1,64}$` -/
def isName : String → Bool := matchesClass isNameChar 64

/-- `[A-Za-z0-9-]{1,63}` -/
def isLabel (cs : List Char) : Bool :=
  cs ≠ [] && cs.length ≤ 63 && cs.all fun c => c.isAlphanum || c = '-'

/-- Dot separated labels, with or without a dot at the end. -/
def isFqdn (s : String) : Bool :=
  let labels := s.toList.splitOn '.'
  let front := if labels.getLast? = some [] then labels.dropLast else labels
  front ≠ [] && front.all isLabel

def IsPort (p : Int) : Prop := 1 ≤ p ∧ p ≤ 65535

instance (p : Int) : Decidable (IsPort p) := inferInstanceAs (Decidable (_ ∧ _))

def decodeInstallMethod (method : String) : Except Error String := do
  let chosen := if method = "" then "docker" else method
  failIf (chosen ≠ "docker" ∧ chosen ≠ "bare_metal")
    "install_method must be docker or bare_metal" []
  return chosen

def decodeImage (image : String) : Except Error String := do
  failIf (image ≠ "" ∧ (containsAny image " \t\n\"'" = true ∨ image.toList.head? = some '-'))
    "image reference is not valid" []
  return if image = "" then defaultImage else image

def decodeListenEntry (l : String) : Except Error String := do
  let (host, port) ← orFail (splitHostPort l) "listen %q must be ip:port" [l]
  let _ ← orFail (parseIP host) "listen %q: host must be an IP address" [l]
  failIf (¬ ∃ p ∈ atoi port, IsPort p) "listen %q: bad port" [l]
  return l

def decodeListen (listen : List String) : Except Error (List String) := do
  let checked ← listen.mapM decodeListenEntry
  return if listen = [] then ["0.0.0.0:53"] else checked

def decodePolicy (policy : String) : Except Error String := do
  failIf (policy ≠ "" ∧ policy ∉ policies)
    "policy %q is not one of leastOutstanding, roundrobin, wrandom, whashed, firstAvailable"
    [policy]
  return if policy = "" then "leastOutstanding" else policy

def decodeCache : Option Cache → Cache
  | none => ⟨false, 100000⟩
  | some c => ⟨c.enabled, if 0 < c.maxEntries then c.maxEntries else 100000⟩

def defaultHealthcheck : Healthcheck := ⟨"a.root-servers.net.", 1, 3, 2, "auto"⟩

def decodeHealthcheck : Option Healthcheck → Except Error Healthcheck
  | none => .ok defaultHealthcheck
  | some h => do
      failIf (h.name ≠ "" ∧ (isFqdn h.name = false ∨ 253 < h.name.utf8ByteSize))
        "healthcheck.name %q is not a domain name" [h.name]
      failIf (h.mode ≠ "" ∧ h.mode ≠ "auto" ∧ h.mode ≠ "lazy")
        "healthcheck.mode must be auto or lazy" []
      return {
        name := if h.name = "" then defaultHealthcheck.name else h.name
        intervalS := if 0 < h.intervalS then h.intervalS else 1
        maxFailures := if 0 < h.maxFailures then h.maxFailures else 3
        rise := if 0 < h.rise then h.rise else 2
        mode := if h.mode = "" then "auto" else h.mode }

def decodeAclEntry (a : String) : Except Error String := do
  let _ ← orFail (parseCIDR a) "acl entry %q is not a CIDR network" [a]
  return a

def decodeAcl : Option (List String) → Except Error (List String)
  | none => .ok defaultAcl
  | some acl => acl.mapM decodeAclEntry

/-- Check the backends in order, against the names seen so far. -/
def decodeBackends : List String → List Backend → Except Error (List Backend)
  | _, [] => .ok []
  | seen, b :: rest => do
      failIf (isName b.name = false)
        "backend name %q must match [A-Za-z0-9_.-]\x7b1,64\x7d" [b.name]
      failIf (b.name ∈ seen) "duplicate backend name %q" [b.name]
      failIf (b.address = "" ∨ containsAny b.address " \t\n\"'[]" = true)
        "backend %q: address is not valid" [b.name]
      let port := if b.port = 0 then 53 else b.port
      failIf (¬ IsPort port) "backend %q: bad port" [b.name]
      let checked : Backend := {
        b with
        port := port
        weight := if b.weight ≤ 0 then 1 else b.weight
        order := if b.order ≤ 0 then 1 else b.order }
      return checked :: (← decodeBackends (b.name :: seen) rest)

/-- Validate and default what was read. -/
def decodeInput (i : Input) : Except Error Spec := do
  let enabled := i.enabled.getD true
  let installMethod ← decodeInstallMethod i.installMethod
  let image ← decodeImage i.image
  let listen ← decodeListen i.listen
  let policy ← decodePolicy i.policy
  let healthcheck ← decodeHealthcheck i.healthcheck
  let acl ← decodeAcl i.acl
  let backends ← decodeBackends [] i.backends
  failIf (enabled = true ∧ backends = []) "at least one backend is required" []
  return {
    enabled := enabled
    installMethod := installMethod
    image := image
    listen := listen
    policy := policy
    ecs := i.ecs.getD true
    cache := decodeCache i.cache
    healthcheck := healthcheck
    acl := acl
    backends := backends }

/-- Validate a spec. -/
def decode (raw : Json Int) : Except Error Spec := do
  let i ← wrap "invalid dnsdist spec: " (readInput raw)
  decodeInput i

/-! ## Rendering -/

/-- Three decimal digits. -/
def threeDigits (n : Nat) : List Char :=
  let ds := Nat.toDigits 10 n
  List.replicate (3 - ds.length) '0' ++ ds

def luaChar (c : Char) : List Char :=
  if c = '\\' then ['\\', '\\']
  else if c = '"' then ['\\', '"']
  else if c = '\n' then ['\\', 'n']
  else if c = '\r' then ['\\', 'r']
  else if c.toNat < 0x20 ∨ c.toNat = 0x7f then '\\' :: threeDigits c.toNat
  else [c]

def luaString (s : String) : String :=
  String.ofList ('"' :: s.toList.flatMap luaChar ++ ['"'])

/-- What the resolver answers for a hostname; `none` is a failed lookup. -/
abbrev Resolver := String → Option (List Ip)

def isV4 : Ip → Bool
  | .v4 _ => true
  | .v6 _ => false

/-- The literal itself, or an address of the hostname, IPv4 first. -/
def resolveBackend (resolve : Resolver) (address : String) : Option String :=
  match parseIP address with
  | some ip => some (ipString ip)
  | none =>
      match resolve address with
      | none => none
      | some ips => ((ips.find? isV4).or ips.head?).map ipString

def apiAddr : String := "127.0.0.1:8083"

def consoleAddr : String := "127.0.0.1:5199"

def boolText (b : Bool) : String := if b then "true" else "false"

/-- The keys of the agent, rendered into the configuration. -/
structure Keys where
  api : String
  console : String

def renderListen : List String → String
  | [] => ""
  | first :: rest =>
      "setLocal(" ++ luaString first ++ ")\n" ++
        String.join (rest.map fun l => "addLocal(" ++ luaString l ++ ")\n")

def renderBackend (resolve : Resolver) (s : Spec) (b : Backend) : Option String := do
  let ip ← resolveBackend resolve b.address
  let addr := joinHostPort ip (toString b.port)
  let h := s.healthcheck
  return "newServer(\x7bname=" ++ luaString b.name ++ ", address=" ++ luaString addr ++
    ", weight=" ++ toString b.weight ++ ", order=" ++ toString b.order ++
    ", useClientSubnet=" ++ boolText s.ecs ++ ", checkName=" ++ luaString h.name ++
    ", checkInterval=" ++ toString h.intervalS ++
    ", maxCheckFailures=" ++ toString h.maxFailures ++ ", rise=" ++ toString h.rise ++
    ", healthCheckMode=" ++ luaString h.mode ++ "\x7d)\n"

def renderCache (c : Cache) : String :=
  if c.enabled then
    "pc = newPacketCache(" ++ toString c.maxEntries ++
      ", \x7bmaxTTL=86400, minTTL=0\x7d)\ngetPool(\"\"):setCache(pc)\n"
  else ""

/-- The Lua configuration; fails when a backend does not resolve. -/
def render (keys : Keys) (resolve : Resolver) (s : Spec) (hash : String) : Option String := do
  let servers ← s.backends.mapM (renderBackend resolve s)
  return "-- generated by adguard-admin-agent; hash " ++ hash ++ "\n" ++ renderListen s.listen ++
    "setACL(\x7b" ++ ", ".intercalate (s.acl.map luaString) ++ "\x7d)\n" ++ String.join servers ++
    "setServerPolicy(" ++ s.policy ++ ")\n" ++ renderCache s.cache ++
    "webserver(" ++ luaString apiAddr ++ ")\n" ++
    "setWebserverConfig(\x7bapiKey=" ++ luaString keys.api ++ ", acl=" ++
      luaString "127.0.0.1/32,::1/128" ++ "\x7d)\n" ++
    "controlSocket(" ++ luaString consoleAddr ++ ")\n" ++
    "setKey(" ++ luaString keys.console ++ ")\n"

end AdguardAdmin.Dnsdist
