import AdguardAdmin.JsonValue
/-!
# Keepalived specs

What the agent accepts as a keepalived spec, and the configuration file it
renders from it.
-/

namespace AdguardAdmin.Keepalived

open GoText IpLiterals

/-- One real server of the kernel balancer. -/
structure Backend where
  name : String
  address : String
  port : Int
  weight : Int
  deriving DecidableEq, Repr

/-- The schedule of the real server checks. -/
structure Check where
  intervalS : Int
  timeoutS : Int
  retry : Int
  deriving DecidableEq, Repr

/-- The kernel balancer behind the VIP. -/
structure IpvsSpec where
  enabled : Bool
  vip : String
  ports : List Int
  protocols : List String
  algo : String
  backends : List Backend
  check : Check
  deriving DecidableEq, Repr

structure Spec where
  enabled : Bool
  vip : String
  interface : String
  routerId : Int
  priority : Int
  authPass : String
  peers : List String
  srcIp : String
  checkDns : String
  ipvs : Option IpvsSpec
  deriving DecidableEq, Repr

/-- Whether the kernel balancer is part of the desired state. -/
def Spec.ipvsOn (s : Spec) : Bool := s.enabled && s.ipvs.any (·.enabled)

/-! ## Reading the body -/

structure IpvsInput where
  enabled : Option Bool
  vip : String
  ports : List Int
  protocols : List String
  algo : String
  backends : List Backend
  check : Option Check
  deriving DecidableEq, Repr

structure Input where
  enabled : Option Bool
  vip : String
  interface : String
  routerId : Int
  priority : Int
  authPass : String
  peers : List String
  srcIp : String
  checkDns : Option String
  ipvs : Option IpvsInput
  deriving DecidableEq, Repr

open Json

/-- A pointer to a string. -/
def readString? {ν : Type} : Json ν → Except Error (Option String)
  | .null => .ok none
  | v => do return some (← readString v)

def readBackend (v : Json Int) : Except Error Backend := do
  let fields ← members v
  return {
    name := ← readString (get fields "name")
    address := ← readString (get fields "address")
    port := ← readInt (get fields "port")
    weight := ← readInt (get fields "weight") }

def readCheck (fields : List (String × Json Int)) : Except Error Check := do
  return {
    intervalS := ← readInt (get fields "interval_s")
    timeoutS := ← readInt (get fields "timeout_s")
    retry := ← readInt (get fields "retry") }

def readIpvs (fields : List (String × Json Int)) : Except Error IpvsInput := do
  return {
    enabled := ← readBool? (get fields "enabled")
    vip := ← readString (get fields "vip")
    ports := ← readList readInt (get fields "ports")
    protocols := ← readList readString (get fields "protocols")
    algo := ← readString (get fields "algo")
    backends := ← readList readBackend (get fields "backends")
    check := ← readStruct? readCheck (get fields "check") }

def readInput (raw : Json Int) : Except Error Input := do
  let fields ← members raw
  return {
    enabled := ← readBool? (get fields "enabled")
    vip := ← readString (get fields "vip")
    interface := ← readString (get fields "interface")
    routerId := ← readInt (get fields "router_id")
    priority := ← readInt (get fields "priority")
    authPass := ← readString (get fields "auth_pass")
    peers := ← readList readString (get fields "peers")
    srcIp := ← readString (get fields "src_ip")
    checkDns := ← readString? (get fields "check_dns")
    ipvs := ← readStruct? readIpvs (get fields "ipvs") }

/-! ## Validation -/

/-- `^[A-Za-z0-9_.:-]{1,15}$` -/
def isIface : String → Bool := matchesClass (fun c => isNameChar c || c = ':') 15

/-- `^[A-Za-z0-9._-]{1,8}$` -/
def isAuth : String → Bool := matchesClass isNameChar 8

/-- `^[A-Za-z0-9_.-]{1,64}$` -/
def isName : String → Bool := matchesClass isNameChar 64

def IsPort (p : Int) : Prop := 1 ≤ p ∧ p ≤ 65535

instance (p : Int) : Decidable (IsPort p) := inferInstanceAs (Decidable (_ ∧ _))

def decodeVip (vip : String) : Except Error Ip := do
  let (ip, _) ← orFail (parseCIDR vip)
    "vip %q must be an address with prefix, e.g. 10.0.0.53/24" [vip]
  failIf (isUnicast ip = false) "vip must be a unicast address" []
  return ip

def decodePriority (priority : Int) : Except Error Int := do
  failIf (priority ≠ 0 ∧ ¬(1 ≤ priority ∧ priority ≤ 254))
    "priority must be between 1 and 254" []
  return if priority = 0 then 100 else priority

def decodePeer (p : String) : Except Error String := do
  let _ ← orFail (parseIP p) "peer %q is not an IP address" [p]
  return p

def decodeCheckDns : Option String → Except Error String
  | none => .ok "127.0.0.1:53"
  | some text => do
      failIf (text ≠ "" ∧ splitHostPort text = none) "check_dns must be host:port or empty" []
      return text

def decodePorts (ports : List Int) : Except Error (List Int) := do
  let checked ← ports.mapM fun p => do
    failIf (¬ IsPort p) "ipvs.ports: %d is not a port" [toString p]
    return p
  return if ports = [] then [53] else checked

def decodeProtocols (protocols : List String) : Except Error (List String) := do
  let checked ← protocols.mapM fun text => do
    let pr := text.toLower
    failIf (¬(pr = "udp" ∨ pr = "tcp")) "ipvs.protocols: %q must be udp or tcp" [pr]
    return pr
  return if protocols = [] then ["udp", "tcp"] else checked

def decodeAlgo (algo : String) : Except Error String := do
  failIf (algo ≠ "" ∧ algo ∉ ["rr", "wrr", "lc", "wlc", "sh"])
    "ipvs.algo %q must be one of rr, wrr, lc, wlc, sh" [algo]
  return if algo = "" then "wlc" else algo

/-- Check the backends in order, against the names seen so far. -/
def decodeBackends : List String → List Backend → Except Error (List Backend)
  | _, [] => .ok []
  | seen, b :: rest => do
      failIf (isName b.name = false)
        "ipvs backend name %q must match [A-Za-z0-9_.-]\x7b1,64\x7d" [b.name]
      failIf (b.name ∈ seen) "ipvs backend name %q is duplicated" [b.name]
      let ip ← orFail (parseIP b.address) "ipvs backend %q: address %q must be an IP literal"
        [b.name, b.address]
      failIf (¬ IsPort b.port) "ipvs backend %q: port %d is not a port" [b.name, toString b.port]
      failIf (b.weight < 0 ∨ 65535 < b.weight) "ipvs backend %q: weight must be 0..65535" [b.name]
      return { b with address := ipString ip } :: (← decodeBackends (b.name :: seen) rest)

def decodeCheck : Option Check → Except Error Check
  | none => .ok ⟨2, 2, 2⟩
  | some c => do
      failIf (c.intervalS < 0 ∨ c.timeoutS < 0 ∨ c.retry < 0 ∨ 3600 < c.intervalS ∨
        600 < c.timeoutS ∨ 100 < c.retry) "ipvs.check values are out of range" []
      return {
        intervalS := if 0 < c.intervalS then c.intervalS else 2
        timeoutS := if 0 < c.timeoutS then c.timeoutS else 2
        retry := if c.retry ≠ 0 then c.retry else 2 }

/-- The kernel balancer of a spec whose VRRP address is `vipIp`. -/
def decodeIpvs (vipIp : Ip) (v : IpvsInput) : Except Error IpvsSpec :=
  if v.enabled.getD true then do
    let ip ← orFail (parseIP v.vip) "ipvs.vip %q must be an IP address without prefix" [v.vip]
    failIf (ip ≠ vipIp) "ipvs.vip must be the address of the VRRP vip" []
    let ports ← decodePorts v.ports
    let protocols ← decodeProtocols v.protocols
    let algo ← decodeAlgo v.algo
    let backends ← decodeBackends [] v.backends
    let check ← decodeCheck v.check
    return ⟨true, ipString ip, ports, protocols, algo, backends, check⟩
  else .ok ⟨false, "", [53], ["udp", "tcp"], "wlc", [], ⟨2, 2, 2⟩⟩

def decodeIpvs? (vipIp : Ip) : Option IpvsInput → Except Error (Option IpvsSpec)
  | none => .ok none
  | some v => do return some (← decodeIpvs vipIp v)

/-- Validate and default an enabled spec. -/
def decodeEnabled (i : Input) : Except Error Spec := do
  let vipIp ← decodeVip i.vip
  failIf (i.interface ≠ "" ∧ isIface i.interface = false)
    "interface %q is not a valid interface name" [i.interface]
  failIf (i.routerId < 1 ∨ 255 < i.routerId) "router_id must be between 1 and 255" []
  let priority ← decodePriority i.priority
  failIf (isAuth i.authPass = false) "auth_pass must be 1 to 8 characters of [A-Za-z0-9._-]" []
  let peers ← i.peers.mapM decodePeer
  let _ ← orFail (parseIP i.srcIp) "src_ip must be an IP address" []
  let checkDns ← decodeCheckDns i.checkDns
  let ipvs ← decodeIpvs? vipIp i.ipvs
  return {
    enabled := true
    vip := i.vip
    interface := i.interface
    routerId := i.routerId
    priority := priority
    authPass := i.authPass
    peers := peers
    srcIp := i.srcIp
    checkDns := checkDns
    ipvs := ipvs }

/-- What a disabled spec decodes to, whatever else it says. -/
def disabledSpec : Spec := ⟨false, "", "", 0, 100, "", [], "", "127.0.0.1:53", none⟩

/-- Validate a spec. -/
def decode (raw : Json Int) : Except Error Spec := do
  let i ← wrap "invalid keepalived spec: " (readInput raw)
  if i.enabled.getD true then decodeEnabled i else return disabledSpec

/-! ## Rendering -/

def probeBinary : String := "/usr/local/bin/adguard-admin-agent"

def renderBackend (v : IpvsSpec) (b : Backend) : String :=
  "  real_server " ++ b.address ++ " " ++ toString b.port ++ " \x7b\n" ++
  "    weight " ++ toString b.weight ++ "\n" ++
  "    inhibit_on_failure\n    MISC_CHECK \x7b\n" ++
  "      misc_path \"" ++ probeBinary ++ " probe-dns " ++
    joinHostPort b.address (toString b.port) ++ "\"\n" ++
  "      misc_timeout " ++ toString v.check.timeoutS ++ "\n" ++
  "      retry " ++ toString v.check.retry ++ "\n" ++
  "      delay_before_retry 1\n    \x7d\n  \x7d\n"

def renderVirtualServer (v : IpvsSpec) (port : Int) (proto : String) : String :=
  "virtual_server " ++ v.vip ++ " " ++ toString port ++ " \x7b\n" ++
  "  delay_loop " ++ toString v.check.intervalS ++ "\n" ++
  "  lvs_sched " ++ v.algo ++ "\n  lvs_method DR\n" ++
  "  protocol " ++ proto.toUpper ++ "\n" ++
  String.join (v.backends.map (renderBackend v)) ++ "\x7d\n"

/-- One virtual server per port and protocol. -/
def renderIpvs (v : IpvsSpec) : String :=
  String.join (v.ports.flatMap fun port => v.protocols.map (renderVirtualServer v port))

def renderGlobals (s : Spec) (iface : String) : String :=
  "# generated by adguard-admin-agent\n" ++
  "global_defs \x7b\n  enable_script_security\n  script_user root\n" ++
  (if s.ipvsOn then
    "  lvs_sync_daemon " ++ iface ++ " adguard_admin_" ++ toString s.routerId ++ " id " ++
      toString s.routerId ++ "\n"
  else "") ++ "\x7d\n"

def renderScript (s : Spec) : String :=
  if s.checkDns = "" then ""
  else
    "vrrp_script chk_dns \x7b\n  script \"" ++ probeBinary ++ " probe-dns " ++ s.checkDns ++
      "\"\n  interval 2\n  timeout 2\n  fall 2\n  rise 2\n  weight -60\n\x7d\n"

def renderPeers (peers : List String) : String :=
  if peers = [] then ""
  else
    "  unicast_peer \x7b\n" ++ String.join (peers.map fun p => "    " ++ p ++ "\n") ++ "  \x7d\n"

def renderInstance (s : Spec) (iface : String) : String :=
  "vrrp_instance adguard_admin_" ++ toString s.routerId ++ " \x7b\n  state BACKUP\n" ++
  "  interface " ++ iface ++ "\n" ++
  "  virtual_router_id " ++ toString s.routerId ++ "\n" ++
  "  priority " ++ toString s.priority ++ "\n  advert_int 1\n" ++
  "  authentication \x7b\n    auth_type PASS\n    auth_pass " ++ s.authPass ++ "\n  \x7d\n" ++
  "  unicast_src_ip " ++ s.srcIp ++ "\n" ++ renderPeers s.peers ++
  "  virtual_ipaddress \x7b\n    " ++ s.vip ++ "\n  \x7d\n" ++
  (if s.checkDns = "" then "" else "  track_script \x7b\n    chk_dns\n  \x7d\n") ++ "\x7d\n"

/-- The text of keepalived.conf. -/
def render (s : Spec) (iface : String) : String :=
  renderGlobals s iface ++ renderScript s ++ renderInstance s iface ++
    match s.ipvs with
    | some v => if s.ipvsOn then renderIpvs v else ""
    | none => ""

end AdguardAdmin.Keepalived
