import AdguardAdmin.GoText
import AdguardAdmin.Provisioning
import AdguardAdmin.PyText
import AdguardAdmin.ShellText
/-!
# The install script

A token is redeemed by a script that runs as root.  The name of the token stands in a comment of
it, and four values stand in assignments; everything else is the same for all tokens.  Names
were not always validated, so a token may have any name.

* `script_reads_back` — the shell finds one assignment for each value, with that value, and
  nothing but comments else, whatever the name is.
-/

namespace AdguardAdmin.InstallScript

open ShellText PyText

/-- `[\x00-\x1f\x7f]`. -/
def isControl (c : Char) : Bool := c.toNat < 0x20 || c.toNat = 0x7f

def maxNameLength : Nat := 100

/-- `_comment_safe`. -/
def commentSafe (value : String) : List Char :=
  (value.toList.map fun c => if isControl c then ' ' else c).take maxNameLength

/-- The settings of the control plane that the script depends on. -/
structure Settings where
  publicBaseUrl : String
  agentDefaultPort : Int

def baseUrl (cfg : Settings) : List Char := rstripBy (· = '/') cfg.publicBaseUrl.toList

def anyHost : List Char := ['0', '.', '0', '.', '0', '.', '0', ':']

def listen (cfg : Settings) (t : ProvisioningToken) : List Char :=
  anyHost ++
    (toString (if t.agentPort = 0 then cfg.agentDefaultPort else t.agentPort)).toList

def address (t : ProvisioningToken) : List Char := (t.connectAddress.getD "").toList

def greeting : List Char := " AdGuard Admin — installs and enrolls the host agent for ".toList

/-- The comment with the name. -/
def title (t : ProvisioningToken) : List Char := greeting ++ commentSafe t.name

def purpose : List Char :=
  " Generated for a single-use token. The agent is the only thing this script".toList

def later : List Char :=
  " installs; AdGuard Home / dnsdist are set up by the control plane afterwards.".toList

/-- `set -euo pipefail`. -/
def strictMode : List Char :=
  ['s', 'e', 't', ' ', '-', 'e', 'u', 'o', ' ', 'p', 'i', 'p', 'e', 'f', 'a', 'i', 'l', '\n']

/-- `_render_install_script`; `body` is the part after the assignments. -/
def renderInstallScript (cfg : Settings) (body : List Char) (t : ProvisioningToken) : List Char :=
  '#' :: ("!/usr/bin/env bash".toList ++ '\n' ::
  '#' :: (title t ++ '\n' ::
  '#' :: (purpose ++ '\n' ::
  '#' :: (later ++ '\n' ::
  (strictMode ++ '\n' ::
  ('B' :: "ASE_URL".toList ++ '=' :: (quote (baseUrl cfg) ++ '\n' ::
  ('T' :: "OKEN".toList ++ '=' :: (quote t.token.toList ++ '\n' ::
  ('L' :: "ISTEN".toList ++ '=' :: (quote (listen cfg t) ++ '\n' ::
  ('A' :: "DDRESS".toList ++ '=' :: (quote (address t) ++ '\n' :: body)))))))))))))

def strictWords : List (List Char) :=
  [['s', 'e', 't'], ['-', 'e', 'u', 'o'], ['p', 'i', 'p', 'e', 'f', 'a', 'i', 'l']]

/-- What the script is meant to begin with. -/
def prologue (cfg : Settings) (t : ProvisioningToken) : List Line :=
  [.comment "!/usr/bin/env bash".toList,
    .comment (title t),
    .comment purpose,
    .comment later,
    .command strictWords,
    .blank,
    .assign "BASE_URL".toList (baseUrl cfg),
    .assign "TOKEN".toList t.token.toList,
    .assign "LISTEN".toList (listen cfg t),
    .assign "ADDRESS".toList (address t)]

/-- A comment stays on its line. -/
theorem newline_not_mem_commentSafe (value : String) : '\n' ∉ commentSafe value := by
  intro hmem
  obtain ⟨c, -, hc⟩ := List.mem_map.mp (List.mem_of_mem_take hmem)
  split at hc
  · exact absurd hc (by decide)
  · next hcontrol =>
      subst hc
      exact hcontrol (by decide)

theorem newline_not_mem_greeting : '\n' ∉ greeting := by decide +kernel

theorem newline_not_mem_title (t : ProvisioningToken) : '\n' ∉ title t := by
  rw [title, List.mem_append, not_or]
  exact ⟨newline_not_mem_greeting, newline_not_mem_commentSafe t.name⟩

/-- A number has no zero byte. -/
theorem zero_not_mem_repr (n : Int) : '\x00' ∉ (toString n).toList := by
  have hnat : ∀ m : Nat, '\x00' ∉ (Nat.repr m).toList := by
    intro m hmem
    rw [Nat.repr, String.toList_ofList] at hmem
    exact GoText.not_mem_toDigits (by decide) m hmem
  cases n with
  | ofNat m => exact hnat m
  | negSucc m =>
      intro hmem
      have hrepr : toString (Int.negSucc m) = "-" ++ Nat.repr (m + 1) := rfl
      rw [hrepr, String.toList_append, List.mem_append] at hmem
      rcases hmem with hmem | hmem
      · exact absurd hmem (by decide)
      · exact hnat _ hmem

theorem zero_not_mem_listen (cfg : Settings) (t : ProvisioningToken) :
    '\x00' ∉ listen cfg t := by
  rw [listen, List.mem_append, not_or]
  exact ⟨by decide, zero_not_mem_repr _⟩

/-- **The script says what it was meant to say.** -/
theorem script_reads_back (cfg : Settings) (body : List Char) (t : ProvisioningToken)
    (hbase : '\x00' ∉ cfg.publicBaseUrl.toList) (htoken : '\x00' ∉ t.token.toList)
    (haddress : '\x00' ∉ address t) :
    readLines 10 (renderInstallScript cfg body t) = some (prologue cfg t, body) := by
  have hbase' : '\x00' ∉ baseUrl cfg := fun hmem => hbase ((rstripBy_sublist _ _).mem hmem)
  have hset : ∀ rest, readLine (strictMode ++ rest) =
      some (.command strictWords, rest) := fun rest => rfl
  have hblank : ∀ rest, readLine ('\n' :: rest) = some (.blank, rest) := fun rest => rfl
  unfold renderInstallScript
  rw [readLines_succ (readLine_comment (by decide +kernel)),
    readLines_succ (readLine_comment (newline_not_mem_title t)),
    readLines_succ (readLine_comment (by decide +kernel)), readLines_succ (readLine_comment (by decide +kernel)),
    readLines_succ (hset _), readLines_succ (hblank _),
    readLines_succ (readLine_assign (by decide) (by decide) hbase'),
    readLines_succ (readLine_assign (by decide) (by decide) htoken),
    readLines_succ (readLine_assign (by decide) (by decide) (zero_not_mem_listen cfg t)),
    readLines_succ (readLine_assign (by decide) (by decide) haddress)]
  rfl

/-! A token whose name would end the comment it stands in. -/

def panel : Settings := ⟨"https://panel/", 8443⟩

def oldToken : ProvisioningToken where
  id := 1
  token := "it's"
  name := "box\nreboot"
  zoneId := none
  method := .docker
  prune := false
  connectAddress := some "10.0.0.5"
  adminUsername := "admin"
  adminPasswordEnc := none
  roles := [.adguard]
  agentPort := 8443
  vrrpPriority := 100
  exposeWebUi := false
  lbMode := .dnsdist
  status := .pending
  expiresAt := 0
  completedAt := none
  serverId := none
  agentId := none
  loadBalancerId := none

theorem oldToken_reads_back :
    readLines 10 (renderInstallScript panel [] oldToken) = some (prologue panel oldToken, []) :=
  script_reads_back panel [] oldToken (by decide +kernel) (by decide +kernel) (by decide +kernel)

end AdguardAdmin.InstallScript
