import AdguardAdmin.JsonValue
import Mathlib.Data.List.Sort
/-!
# AdGuard Home specs

What the agent accepts as an adguard spec, the listen addresses it asks for, and the
comparison between them and those in `AdGuardHome.yaml` that a converge makes.
-/

namespace AdguardAdmin.Adguard

open GoText Json

/-- The desired state.  The list of DNS addresses is never empty: the wizard is told
its first entry. -/
structure Spec where
  enabled : Bool
  installMethod : String
  image : String
  webBind : String
  webPort : Int
  dnsBind : List String
  dnsPort : Int
  adminUsername : String
  adminPassword : String
  network : String
  dnsBind_ne : dnsBind ≠ []
  deriving DecidableEq, Repr

/-! ## Reading the body -/

structure Input where
  enabled : Option Bool
  installMethod : String
  image : String
  webBind : String
  webPort : Int
  dnsBind : List String
  dnsPort : Int
  adminUsername : String
  adminPassword : String
  network : String
  deriving DecidableEq, Repr

def readInput (raw : Json Int) : Except Error Input := do
  let fields ← members raw
  return {
    enabled := ← readBool? (get fields "enabled")
    installMethod := ← readString (get fields "install_method")
    image := ← readString (get fields "image")
    webBind := ← readString (get fields "web_bind")
    webPort := ← readInt (get fields "web_port")
    dnsBind := ← readList readString (get fields "dns_bind")
    dnsPort := ← readInt (get fields "dns_port")
    adminUsername := ← readString (get fields "admin_username")
    adminPassword := ← readString (get fields "admin_password")
    network := ← readString (get fields "network") }

/-! ## Validation -/

def defaultImage : String := "adguard/adguardhome:latest"

def decodeNetwork (network : String) : Except Error String := do
  failIf (network ≠ "" ∧ network ≠ "host" ∧ network ≠ "bridge") "network must be host or bridge" []
  return if network = "" then "host" else network

def decodeInstallMethod (method : String) : Except Error String := do
  let chosen := if method = "" then "docker" else method
  failIf (chosen ≠ "docker" ∧ chosen ≠ "bare_metal")
    "install_method must be docker or bare_metal" []
  return chosen

def decodeImage (image : String) : Except Error String := do
  failIf (image ≠ "" ∧ (containsAny image " \t\n\"'" = true ∨ image.toList.head? = some '-'))
    "image reference is not valid" []
  return if image = "" then defaultImage else image

def decodeWebBind (webBind : String) : Except Error String := do
  failIf (webBind ≠ "" ∧ parseIP webBind = none) "web_bind must be an IP address" []
  return if webBind = "" then "127.0.0.1" else webBind

def checkPort (p : Int) : Except Error Unit :=
  failIf (p < 1 ∨ 65535 < p) "port %d out of range" [toString p]

def checkBind (b : String) : Except Error Unit :=
  failIf (parseIP b = none) "dns_bind entry %q is not an IP address" [b]

def decodeDnsBind (dnsBind : List String) : Except Error { binds : List String // binds ≠ [] } := do
  let _ ← dnsBind.mapM checkBind
  return if h : dnsBind = [] then ⟨["0.0.0.0"], List.cons_ne_nil _ _⟩ else ⟨dnsBind, h⟩

/-- Validate and default what was read. -/
def decodeInput (i : Input) : Except Error Spec := do
  let enabled := i.enabled.getD true
  let network ← decodeNetwork i.network
  let installMethod ← decodeInstallMethod i.installMethod
  let image ← decodeImage i.image
  let webBind ← decodeWebBind i.webBind
  let webPort := if i.webPort = 0 then 3000 else i.webPort
  let dnsPort := if i.dnsPort = 0 then 53 else i.dnsPort
  checkPort webPort
  checkPort dnsPort
  let dnsBind ← decodeDnsBind i.dnsBind
  failIf (enabled = true ∧ (i.adminUsername = "" ∨ i.adminPassword = ""))
    "admin_username and admin_password are required" []
  return {
    enabled := enabled
    installMethod := installMethod
    image := image
    webBind := webBind
    webPort := webPort
    dnsBind := dnsBind.val
    dnsPort := dnsPort
    adminUsername := i.adminUsername
    adminPassword := i.adminPassword
    network := network
    dnsBind_ne := dnsBind.property }

/-- Validate a spec. -/
def decode (raw : Json Int) : Except Error Spec := do
  let i ← wrap "invalid adguard spec: " (readInput raw)
  decodeInput i

/-! ## Listen addresses -/

/-- The three settings of `AdGuardHome.yaml` a bind change needs. -/
structure Binds where
  dnsBindHosts : List String
  dnsPort : Int
  httpAddress : String
  deriving DecidableEq, Repr

/-- The listen addresses a spec asks for. -/
def Spec.binds (s : Spec) : Binds :=
  ⟨s.dnsBind, s.dnsPort, joinHostPort s.webBind (toString s.webPort)⟩

/-- The body of the request that answers the first-run wizard. -/
structure ConfigureBody where
  webIp : String
  webPort : Int
  dnsIp : String
  dnsPort : Int
  username : String
  password : String
  deriving DecidableEq, Repr

def configureBody (s : Spec) (webIp : String) (webPort : Int) (dnsIp : String) (dnsPort : Int) :
    ConfigureBody :=
  ⟨webIp, webPort, dnsIp, dnsPort, s.adminUsername, s.adminPassword⟩

/-- What the wizard is told when AdGuard binds the spec's addresses itself. -/
def hostBody (s : Spec) : ConfigureBody :=
  configureBody s s.webBind s.webPort (s.dnsBind.head s.dnsBind_ne) s.dnsPort

/-- What the wizard is told when the published ports do the binding. -/
def bridgeBody (s : Spec) : ConfigureBody := configureBody s "0.0.0.0" 3000 "0.0.0.0" 53

/-- The listen addresses a wizard takes from its request. -/
def ConfigureBody.binds (b : ConfigureBody) : Binds :=
  ⟨[b.dnsIp], b.dnsPort, joinHostPort b.webIp (toString b.webPort)⟩

def sortStrings (hosts : List String) : List String := hosts.insertionSort (· ≤ ·)

def sameBinds (a b : Binds) : Bool :=
  if a.dnsPort ≠ b.dnsPort ∨ a.httpAddress ≠ b.httpAddress ∨
      a.dnsBindHosts.length ≠ b.dnsBindHosts.length then false
  else sortStrings a.dnsBindHosts = sortStrings b.dnsBindHosts

/-- The same addresses: the DNS hosts as a set, the DNS port and the web address. -/
def Binds.Matches (a b : Binds) : Prop :=
  (∀ host, host ∈ a.dnsBindHosts ↔ host ∈ b.dnsBindHosts) ∧
    a.dnsPort = b.dnsPort ∧ a.httpAddress = b.httpAddress

theorem Binds.Matches.refl (a : Binds) : a.Matches a := ⟨fun _ => Iff.rfl, rfl, rfl⟩

/-- What a converge leaves alone has the wanted addresses. -/
theorem matches_of_sameBinds {a b : Binds} (h : sameBinds a b = true) : a.Matches b := by
  unfold sameBinds at h
  split at h
  · exact absurd h Bool.false_ne_true
  · next hparts =>
      push Not at hparts
      obtain ⟨hport, haddress, -⟩ := hparts
      have hsorted : sortStrings a.dnsBindHosts = sortStrings b.dnsBindHosts := by simpa using h
      have hperm : a.dnsBindHosts.Perm b.dnsBindHosts :=
        calc a.dnsBindHosts.Perm (sortStrings a.dnsBindHosts) := (List.perm_insertionSort _ _).symm
          _ = sortStrings b.dnsBindHosts := hsorted
          List.Perm _ b.dnsBindHosts := List.perm_insertionSort _ _
      exact ⟨fun _ => hperm.mem_iff, hport, haddress⟩

end AdguardAdmin.Adguard
