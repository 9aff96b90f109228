import Mathlib
import AdguardAdmin.SingleSignOn
/-!
# Access tokens and proxy tokens

Signing in hands out an access token, and opening the embedded UI of a server hands out a
proxy token for it in a cookie.  Both kinds are signed with one key; a token names an account by
its id, and the account is looked up again for every request.

* `requests_authorised` — in every run, a request is served for an account that is active and
  has the role it takes, and only on a token that was handed out, to that id, no longer ago than
  its lifetime; the UI of a server only on a token that an editor was handed for this server;
* `tokens_stay_with_accounts` — while no account is deleted that has a token left, the account
  is the very one that the token was handed to.
-/

namespace AdguardAdmin.Tokens

open RunLaws TableIds
open Registry (HttpError)
open SingleSignOn (Db User Role given oidcCallback commit orKeep commit_ok eq_of_id)

/-- What a token is good for.  An access token also carries the role and the name of its
account, which nobody reads. -/
inductive Purpose where
  | access (role : Role) (username : String)
  | proxy (psrv : Nat)
  deriving DecidableEq, Repr

structure Payload where
  sub : Nat
  exp : Int
  purpose : Purpose
  deriving DecidableEq, Repr

/-- `jwt.encode` and `jwt.decode` with the secret key, apart from the expiry. -/
structure Jwt where
  encode : Payload → String
  decode : String → Option Payload
  decode_encode : ∀ p, decode (encode p) = some p

structure Settings where
  accessTokenExpireMinutes : Int
  proxyTokenTtlMinutes : Int
  uiProxyEnabled : Bool
  deriving DecidableEq, Repr

/-- How many seconds a token lives. -/
def Settings.lifetime (settings : Settings) : Purpose → Int
  | .access _ _ => 60 * settings.accessTokenExpireMinutes
  | .proxy _ => 60 * settings.proxyTokenTtlMinutes

/-- A token that was handed out, and the account at that time. -/
structure Grant where
  token : String
  holder : User
  purpose : Purpose
  issuedAt : Int
  deriving DecidableEq, Repr

structure System where
  now : Int
  db : Db
  servers : List Nat
  granted : List Grant

/-- `_ROLE_RANK`. -/
def roleRank : Role → Nat
  | .viewer => 0
  | .editor => 1
  | .admin => 2

def Role.value : Role → String
  | .viewer => "viewer"
  | .editor => "editor"
  | .admin => "admin"

def userHasRole (u : User) (minimum : Role) : Bool := roleRank minimum ≤ roleRank u.role

section Requests

variable (jwt : Jwt) (settings : Settings) (s : System)

/-- `decode_access_token`. -/
def decodeAccessToken (token : String) : Option Payload :=
  (jwt.decode token).filter (s.now < ·.exp)

def getCurrentUser (token : String) : Except HttpError User :=
  match decodeAccessToken jwt s token with
  | none => .error ⟨401, "Could not validate credentials"⟩
  | some payload =>
      match s.db.users.find? (·.id = payload.sub) with
      | none => .error ⟨401, "Could not validate credentials"⟩
      | some user =>
          if user.isActive then .ok user else .error ⟨401, "Could not validate credentials"⟩

def requireRole (minimum : Role) (token : String) : Except HttpError User :=
  match getCurrentUser jwt s token with
  | .error e => .error e
  | .ok user =>
      if userHasRole user minimum then .ok user
      else .error ⟨403, "Requires " ++ Role.value minimum ++ " role or higher"⟩

def decodeProxyToken (token : String) (server : Nat) : Option Nat :=
  match decodeAccessToken jwt s token with
  | some ⟨sub, _, .proxy psrv⟩ => if psrv = server then some sub else none
  | _ => none

/-- `_authorize`, with the account that it has checked. -/
def authorize (cookie : Option String) (server : Nat) : Except HttpError User :=
  if settings.uiProxyEnabled = false then .error ⟨404, "Embedded UI proxy is disabled"⟩
  else
    match (given cookie).bind fun token => decodeProxyToken jwt s token server with
    | none => .error ⟨401, "UI session expired — reopen the server UI"⟩
    | some userId =>
        match s.db.users.find? (·.id = userId) with
        | none => .error ⟨403, "Not authorized for this server UI"⟩
        | some user =>
            if user.isActive = false ∨ userHasRole user .editor = false then
              .error ⟨403, "Not authorized for this server UI"⟩
            else if server ∈ s.servers then .ok user
            else .error ⟨404, "Server not found"⟩

/-- `ui_session` up to the cookie. -/
def uiSession (token : String) (server : Nat) : Except HttpError User :=
  match requireRole jwt s .editor token with
  | .error e => .error e
  | .ok user =>
      if settings.uiProxyEnabled = false then .error ⟨404, "Embedded UI proxy is disabled"⟩
      else if server ∈ s.servers then .ok user
      else .error ⟨404, "Server not found"⟩

/-- `login`, for an attempt that is not throttled. -/
def login (verify : String → String → Bool) (username password : String) :
    Except HttpError User :=
  match s.db.users.find? (·.username = username) with
  | none => .error ⟨401, "Incorrect username or password"⟩
  | some user =>
      if (given user.hashedPassword).any (verify password) = false then
        .error ⟨401, "Incorrect username or password"⟩
      else if user.isActive = false then .error ⟨403, "Account disabled"⟩
      else .ok user

end Requests

/-! ## Runs -/

inductive Event where
  | wait (seconds : Nat)
  | accounts (e : SingleSignOn.Event)
  | setServers (ids : List Nat)
  | login (username password : String)
  | uiSession (bearer : String) (server : Nat)
  | request (bearer : String) (minimum : Role)
  | proxyUi (cookie : Option String) (server : Nat)

/-- The token that a request brings. -/
def Event.token : Event → Option String
  | .uiSession bearer _ | .request bearer _ => some bearer
  | .proxyUi cookie _ => given cookie
  | .wait _ | .accounts _ | .setServers _ | .login _ _ => none

/-- The role that a request takes. -/
def Event.minimum : Event → Role
  | .uiSession _ _ | .proxyUi _ _ => .editor
  | .request _ minimum => minimum
  | .wait _ | .accounts _ | .setServers _ | .login _ _ => .viewer

section Runs

variable (jwt : Jwt) (settings : Settings) (hash : String → String)
  (verify : String → String → Bool)

/-- `create_access_token` and `create_proxy_token`. -/
def Grant.payload (g : Grant) : Payload :=
  ⟨g.holder.id, g.issuedAt + settings.lifetime g.purpose, g.purpose⟩

def grant (s : System) (user : User) (purpose : Purpose) : System :=
  { s with
    granted := s.granted ++
      [⟨jwt.encode ⟨user.id, s.now + settings.lifetime purpose, purpose⟩, user, purpose, s.now⟩] }

def grantAccess (s : System) (user : User) : System :=
  grant jwt settings s user (.access user.role user.username)

def step (s : System) : Event → System
  | .wait seconds => { s with now := s.now + seconds }
  | .accounts (.callback sso token) =>
      match oidcCallback sso token s.db with
      | (db, .ok user) => grantAccess jwt settings { s with db := db } user
      | (db, .error _) => { s with db := db }
  | .accounts e => { s with db := SingleSignOn.step hash s.db e }
  | .setServers ids => { s with servers := ids }
  | .login username password =>
      match login s verify username password with
      | .ok user => grantAccess jwt settings s user
      | .error _ => s
  | .uiSession bearer server =>
      match uiSession jwt settings s bearer server with
      | .ok user => grant jwt settings s user (.proxy server)
      | .error _ => s
  | .request _ _ | .proxyUi _ _ => s

/-- The account that a request is served for. -/
def served (s : System) : Event → Option User
  | .uiSession bearer server => (uiSession jwt settings s bearer server).toOption
  | .request bearer minimum => (requireRole jwt s minimum bearer).toOption
  | .proxyUi cookie server => (authorize jwt settings s cookie server).toOption
  | .wait _ | .accounts _ | .setServers _ | .login _ _ => none

/-- Nobody else has the key: a token with its signature was handed out. -/
def Unforged (s : System) (e : Event) : Prop :=
  ∀ token ∈ e.token, ∀ p, jwt.decode token = some p → ∃ g ∈ s.granted, g.token = token

/-- A token that has not expired. -/
def Live (s : System) (g : Grant) : Prop :=
  g.issuedAt ≤ s.now ∧ s.now < g.issuedAt + settings.lifetime g.purpose

/-- No account is deleted that has a token left. -/
def KeepsHolders (s : System) : Event → Prop
  | .accounts (.delete _ id) => ∀ g ∈ s.granted, g.holder.id = id → ¬ Live settings s g
  | _ => True

/-- The embedded UI of a server takes a token for this server. -/
def Fits (g : Grant) : Event → Prop
  | .proxyUi _ server => g.purpose = .proxy server ∧ userHasRole g.holder .editor = true
  | _ => True

/-- A request is served rightly: for an account as it is now, on a token handed out to it. -/
structure Authorised (s : System) (e : Event) (user : User) : Prop where
  current : user ∈ s.db.users
  active : user.isActive = true
  role : userHasRole user e.minimum = true
  granted : ∃ g ∈ s.granted, e.token = some g.token ∧ g.holder.id = user.id ∧
    g.holder.isActive = true ∧ Live settings s g ∧ Fits g e

/-- A grant is what its token was made from, and went to an active account; one for the proxy
went to an editor. -/
structure Proper (s : System) (g : Grant) : Prop where
  made : g.token = jwt.encode (g.payload settings)
  past : g.issuedAt ≤ s.now
  active : g.holder.isActive = true
  editor : ∀ server, g.purpose = .proxy server → userHasRole g.holder .editor = true

def Sound (s : System) : Prop := ∀ g ∈ s.granted, Proper jwt settings s g

/-- The accounts that have a token left are there, under their names. -/
def Held (s : System) : Prop :=
  ∀ g ∈ s.granted, Live settings s g →
    ∃ user ∈ s.db.users, user.id = g.holder.id ∧ user.username = g.holder.username

variable {jwt settings hash verify} {s : System} {user : User} {e : Event}

/-! ## Requests that are served -/

/-- Who is found for a token is active and its subject. -/
theorem getCurrentUser_ok {token : String} (h : getCurrentUser jwt s token = .ok user) :
    ∃ p, decodeAccessToken jwt s token = some p ∧ user ∈ s.db.users ∧ user.id = p.sub ∧
      user.isActive = true := by
  unfold getCurrentUser at h
  split at h
  · cases h
  · next p hp =>
      split at h
      · cases h
      · next found hfound =>
          split at h
          · next hactive =>
              obtain rfl := Except.ok.inj h
              refine ⟨p, hp, List.mem_of_find?_eq_some hfound, ?_, hactive⟩
              simpa using List.find?_some hfound
          · cases h

/-- A role is required on top of that. -/
theorem requireRole_ok {minimum : Role} {token : String}
    (h : requireRole jwt s minimum token = .ok user) :
    getCurrentUser jwt s token = .ok user ∧ userHasRole user minimum = true := by
  unfold requireRole at h
  split at h
  · cases h
  · next found hfound =>
      split at h
      · next hrole =>
          obtain rfl := Except.ok.inj h
          exact ⟨hfound, hrole⟩
      · cases h

/-- A session is opened by editors. -/
theorem uiSession_ok {token : String} {server : Nat}
    (h : uiSession jwt settings s token server = .ok user) :
    requireRole jwt s .editor token = .ok user := by
  unfold uiSession at h
  split at h
  · cases h
  · next found hfound =>
      split at h
      · cases h
      · split at h
        · rwa [← Except.ok.inj h]
        · cases h

/-- The token of the proxy names the server. -/
theorem decodeProxyToken_some {token : String} {server id : Nat}
    (h : decodeProxyToken jwt s token server = some id) :
    ∃ p, decodeAccessToken jwt s token = some p ∧ p.sub = id ∧ p.purpose = .proxy server := by
  unfold decodeProxyToken at h
  split at h
  · next sub exp psrv hp =>
      split at h
      · next hserver =>
          obtain rfl := Option.some.inj h
          exact ⟨_, hp, rfl, congrArg Purpose.proxy hserver⟩
      · cases h
  · cases h

/-- What the proxy serves it serves to an active account with a token for this server. -/
theorem authorize_ok {cookie : Option String} {server : Nat}
    (h : authorize jwt settings s cookie server = .ok user) :
    ∃ token p, given cookie = some token ∧ decodeAccessToken jwt s token = some p ∧
      p.purpose = .proxy server ∧ user ∈ s.db.users ∧ user.id = p.sub ∧ user.isActive = true ∧
        userHasRole user .editor = true := by
  unfold authorize at h
  split at h
  · cases h
  · split at h
    · cases h
    · next id hid =>
        obtain ⟨token, htoken, hdecoded⟩ := Option.bind_eq_some_iff.mp hid
        obtain ⟨p, hp, hsub, hpurpose⟩ := decodeProxyToken_some hdecoded
        split at h
        · cases h
        · next found hfound =>
            split at h
            · cases h
            · next hstanding =>
                split at h
                · obtain rfl := Except.ok.inj h
                  have hrow : found.id = id := by simpa using List.find?_some hfound
                  rw [not_or, Bool.not_eq_false, Bool.not_eq_false] at hstanding
                  exact ⟨token, p, htoken, hp, hpurpose, List.mem_of_find?_eq_some hfound,
                    hrow.trans hsub.symm, hstanding⟩
                · cases h

/-- Who logs in is an active account. -/
theorem login_ok {username password : String} (h : login s verify username password = .ok user) :
    user ∈ s.db.users ∧ user.isActive = true := by
  unfold login at h
  split at h
  · cases h
  · next found hfound =>
      split at h
      · cases h
      · split at h
        · cases h
        · next hactive =>
            obtain rfl := Except.ok.inj h
            exact ⟨List.mem_of_find?_eq_some hfound, by simpa using hactive⟩

/-- An answer that is there was not refused. -/
theorem ok_of_toOption {answer : Except HttpError User} (h : answer.toOption = some user) :
    answer = .ok user := by
  cases answer with
  | ok found => exact congrArg Except.ok (Option.some.inj h)
  | error e => cases h

/-- What a request brings that is served, and for whom it is. -/
theorem served_some (h : served jwt settings s e = some user) :
    ∃ token p, e.token = some token ∧ decodeAccessToken jwt s token = some p ∧
      user ∈ s.db.users ∧ user.id = p.sub ∧ user.isActive = true ∧
        userHasRole user e.minimum = true ∧
          ∀ cookie server, e = .proxyUi cookie server → p.purpose = .proxy server := by
  cases e with
  | wait | accounts | setServers | login => cases h
  | uiSession bearer server =>
      obtain ⟨hcurrent, hrole⟩ := requireRole_ok (uiSession_ok (ok_of_toOption h))
      obtain ⟨p, hp, huser, hid, hactive⟩ := getCurrentUser_ok hcurrent
      exact ⟨bearer, p, rfl, hp, huser, hid, hactive, hrole, by simp⟩
  | request bearer minimum =>
      obtain ⟨hcurrent, hrole⟩ := requireRole_ok (ok_of_toOption h)
      obtain ⟨p, hp, huser, hid, hactive⟩ := getCurrentUser_ok hcurrent
      exact ⟨bearer, p, rfl, hp, huser, hid, hactive, hrole, by simp⟩
  | proxyUi cookie server =>
      obtain ⟨token, p, htoken, hp, hpurpose, huser, hid, hactive, hrole⟩ :=
        authorize_ok (ok_of_toOption h)
      refine ⟨token, p, htoken, hp, huser, hid, hactive, hrole, fun cookie' server' he => ?_⟩
      obtain ⟨-, rfl⟩ := Event.proxyUi.inj he
      exact hpurpose

/-! ## Tokens that are accepted -/

/-- A token that is accepted was handed out, and has not expired. -/
theorem Sound.verified (h : Sound jwt settings s) (hunforged : Unforged jwt s e) {token : String}
    (htoken : e.token = some token) {p : Payload}
    (hp : decodeAccessToken jwt s token = some p) :
    ∃ g ∈ s.granted, g.token = token ∧ g.payload settings = p ∧ Live settings s g := by
  obtain ⟨hdecoded, hexp⟩ := Option.filter_eq_some_iff.mp hp
  obtain ⟨g, hg, hsame⟩ := hunforged token htoken p hdecoded
  have hproper := h g hg
  have hpayload : g.payload settings = p := by
    rw [← hsame, hproper.made, jwt.decode_encode] at hdecoded
    exact Option.some.inj hdecoded
  refine ⟨g, hg, hsame, hpayload, hproper.past, ?_⟩
  rw [← hpayload] at hexp
  exact of_decide_eq_true hexp

/-- In a sound system a request is served to who is authorised. -/
theorem Sound.authorised (h : Sound jwt settings s) (hunforged : Unforged jwt s e)
    (hserved : served jwt settings s e = some user) : Authorised settings s e user := by
  obtain ⟨token, p, htoken, hp, huser, hid, hactive, hrole, hproxy⟩ := served_some hserved
  obtain ⟨g, hg, hsame, rfl, hlive⟩ := h.verified hunforged htoken hp
  refine ⟨huser, hactive, hrole, g, hg, hsame ▸ htoken, hid.symm, (h g hg).active, hlive, ?_⟩
  cases e with
  | proxyUi cookie server =>
      have hpurpose := hproxy cookie server rfl
      exact ⟨hpurpose, (h g hg).editor server hpurpose⟩
  | _ => trivial

/-! ## One step -/

theorem Proper.later {g : Grant} (h : Proper jwt settings s g) {t : System}
    (ht : s.now ≤ t.now) : Proper jwt settings t g :=
  ⟨h.made, h.past.trans ht, h.active, h.editor⟩

theorem Sound.later (h : Sound jwt settings s) {t : System} (hgranted : t.granted = s.granted)
    (ht : s.now ≤ t.now) : Sound jwt settings t :=
  fun g hg => (h g (hgranted ▸ hg)).later ht

/-- A grant to an active account keeps the system sound. -/
theorem Sound.grant (h : Sound jwt settings s) (hactive : user.isActive = true) {purpose : Purpose}
    (heditor : ∀ server, purpose = .proxy server → userHasRole user .editor = true) :
    Sound jwt settings (grant jwt settings s user purpose) := by
  intro g hg
  rcases List.mem_append.mp hg with hold | hnew
  · exact (h g hold).later (le_refl _)
  · obtain rfl := List.mem_singleton.mp hnew
    exact ⟨rfl, le_refl _, hactive, heditor⟩

/-- Whoever a callback signs in is in the table, and active. -/
theorem callback_ok {sso : SingleSignOn.Settings} {token : Except String SingleSignOn.Claims}
    {db after : Db} (h : oidcCallback sso token db = (after, .ok user)) :
    user ∈ after.users ∧ user.isActive = true := by
  have hadmitted : ∀ (rows : List User) (row : User), row ∈ rows →
      SingleSignOn.admitted rows row db = (after, .ok user) →
        user ∈ after.users ∧ user.isActive = true := by
    intro rows row hrow hrows
    unfold SingleSignOn.admitted at hrows
    split at hrows
    · cases hrows
    · next stored hstored =>
        obtain ⟨rfl, huser⟩ := Prod.mk.inj hrows
        split at huser
        · next hactive =>
            obtain rfl := Except.ok.inj huser
            exact ⟨commit_ok hstored ▸ hrow, hactive⟩
        · cases huser
  unfold oidcCallback at h
  split at h
  · cases h
  · split at h
    · cases h
    · split at h
      · cases h
      · dsimp only at h
        split at h
        · next found hfound =>
            have hmem := (SingleSignOn.resolveOidcUser_some hfound).1
            refine hadmitted _ _ ?_ h
            refine List.mem_map.mpr ⟨found, hmem, if_pos ?_⟩
            rfl
        · split at h
          · cases h
          · exact hadmitted _ _ (List.mem_append_right _ (List.mem_singleton_self _)) h

/-- Every event keeps the tokens sound. -/
theorem Sound.step (h : Sound jwt settings s) (e : Event) :
    Sound jwt settings (step jwt settings hash verify s e) := by
  have haccess : ∀ (t : System) (u : User), Sound jwt settings t → u.isActive = true →
      Sound jwt settings (grantAccess jwt settings t u) :=
    fun t u ht hu => ht.grant hu (by simp)
  unfold Tokens.step
  split
  · exact h.later rfl (Int.le_add_of_nonneg_right (Int.natCast_nonneg _))
  · split
    · next db user hcallback =>
        exact haccess _ _ (h.later rfl (le_refl _)) (callback_ok hcallback).2
    · exact h.later rfl (le_refl _)
  · exact h.later rfl (le_refl _)
  · exact h.later rfl (le_refl _)
  · split
    · next user hlogin => exact haccess _ _ h (login_ok hlogin).2
    · exact h
  · split
    · next user hsession =>
        obtain ⟨hcurrent, hrole⟩ := requireRole_ok (uiSession_ok hsession)
        obtain ⟨_, _, _, _, hactive⟩ := getCurrentUser_ok hcurrent
        exact h.grant hactive fun _ _ => hrole
    · exact h
  · exact h
  · exact h

/-! ## Accounts keep their names -/

section Names

variable {db : Db} {u : User}

/-- An account is there, under its name. -/
def Named (u : User) (db : Db) : Prop := ∃ v ∈ db.users, v.id = u.id ∧ v.username = u.username

/-- Accounts that are unchanged keep their names. -/
theorem named_self (hu : u ∈ db.users) : Named u db := ⟨u, hu, rfl, rfl⟩

/-- A request that may be refused keeps the accounts' ids and names as they were found. -/
theorem named_orKeep {answer : Except HttpError Db} (hu : u ∈ db.users)
    (h : ∀ after, answer = .ok after → Named u after) : Named u (orKeep db answer) := by
  cases answer with
  | ok after => exact h after rfl
  | error e => exact named_self hu

/-- A row is edited, but for its id and its name. -/
theorem named_putRow {row new : User} {after : Db} (hu : u ∈ db.users) (hrow : row ∈ db.users)
    (hid : new.id = row.id) (hname : new.username = row.username)
    (hafter : after.users = putRow (·.id) new db.users) : Named u after := by
  have hkey : new.id ∈ db.users.map (·.id) := List.mem_map.mpr ⟨row, hrow, hid.symm⟩
  by_cases hsame : u.id = new.id
  · obtain rfl := eq_of_id hrow hu (hsame.trans hid)
    refine ⟨new, ?_, hid, hname⟩
    rw [hafter]
    exact (mem_putRow hkey).mpr (.inl rfl)
  · refine ⟨u, ?_, rfl, rfl⟩
    rw [hafter]
    exact (mem_putRow hkey).mpr (.inr ⟨hu, hsame⟩)

theorem named_append {rows : List User} {after : Db} (hu : u ∈ db.users)
    (hafter : after.users = db.users ++ rows) : Named u after :=
  named_self (hafter ▸ List.mem_append_left rows hu)

/-- An edit keeps the name. -/
theorem editedUser_username {data : SingleSignOn.UserUpdate} {row new : User}
    (h : SingleSignOn.editedUser hash data row = some new) : new.username = row.username := by
  unfold SingleSignOn.editedUser at h
  split at h
  · rw [← Option.some.inj h]
  · cases h

/-- Only deleting an account takes its id or its name away. -/
theorem named_step (hu : u ∈ db.users) (e : SingleSignOn.Event)
    (hkept : ∀ admin id, e = .delete admin id → u.id ≠ id) :
    Named u (SingleSignOn.step hash db e) := by
  cases e with
  | bootstrap username password =>
      refine named_orKeep hu fun after hafter => ?_
      unfold SingleSignOn.bootstrapAdmin at hafter
      split at hafter
      · next hempty =>
          rw [hempty] at hu
          cases hu
      · obtain rfl := Except.ok.inj hafter
        exact named_self hu
  | create payload =>
      refine named_orKeep hu fun after hafter => ?_
      unfold SingleSignOn.createUser at hafter
      split at hafter
      · cases hafter
      · exact named_append hu (commit_ok hafter)
  | update admin id data =>
      refine named_orKeep hu fun after hafter => ?_
      unfold SingleSignOn.updateUser at hafter
      split at hafter
      · cases hafter
      · next row hrow =>
          split at hafter
          · cases hafter
          · split at hafter
            · cases hafter
            · next new hnew =>
                exact named_putRow hu (List.mem_of_find?_eq_some hrow)
                  (SingleSignOn.editedUser_some hnew).1 (editedUser_username hnew)
                  (commit_ok hafter)
  | delete admin id =>
      refine named_orKeep hu fun after hafter => ?_
      unfold SingleSignOn.deleteUser at hafter
      split at hafter
      · cases hafter
      · split at hafter
        · cases hafter
        · refine named_self ?_
          rw [commit_ok hafter]
          exact List.mem_filter.mpr ⟨hu, decide_eq_true (hkept admin id rfl)⟩
  | callback sso token =>
      change Named u (oidcCallback sso token db).1
      cases SingleSignOn.callback_cases sso token db with
      | refused hsame herror =>
          rw [hsame]
          exact named_self hu
      | found claims sub row htoken hsub hresolved hstored hentered =>
          have hrow := (SingleSignOn.resolveOidcUser_some hresolved).1
          refine named_putRow hu hrow ?_ ?_ hstored <;> rfl
      | created claims sub htoken hsub hstored hentered => exact named_append hu hstored

end Names

/-- A grant is held while time passes. -/
theorem Held.later (h : Held settings s) (hsound : Sound jwt settings s) {t : System}
    (hgranted : t.granted = s.granted) (hdb : t.db = s.db) (ht : s.now ≤ t.now) :
    Held settings t := by
  intro g hg hlive
  rw [hgranted] at hg
  rw [hdb]
  exact h g hg ⟨(hsound g hg).past, ht.trans_lt hlive.2⟩

/-- Making another token keeps those that are held. -/
theorem Held.grant (h : Held settings s) (huser : user ∈ s.db.users) (purpose : Purpose) :
    Held settings (grant jwt settings s user purpose) := by
  intro g hg hlive
  rcases List.mem_append.mp hg with hold | hnew
  · exact h g hold hlive
  · obtain rfl := List.mem_singleton.mp hnew
    exact named_self huser

/-- The table changes, but no account goes that has a token left. -/
theorem Held.setDb (h : Held settings s) {db : Db}
    (hkept : ∀ g ∈ s.granted, Live settings s g → ∀ u ∈ s.db.users, u.id = g.holder.id →
      Named u db) : Held settings { s with db := db } := by
  intro g hg hlive
  obtain ⟨u, hu, hid, hname⟩ := h g hg hlive
  obtain ⟨v, hv, hvid, hvname⟩ := hkept g hg hlive u hu hid
  exact ⟨v, hv, hvid.trans hid, hvname.trans hname⟩

/-- Every event that keeps the holders of tokens keeps what they hold. -/
theorem Held.step (h : Held settings s) (hsound : Sound jwt settings s)
    (hkeeps : KeepsHolders settings s e) :
    Held settings (step jwt settings hash verify s e) := by
  unfold Tokens.step
  split
  · exact h.later hsound rfl rfl (Int.le_add_of_nonneg_right (Int.natCast_nonneg _))
  · next sso token =>
      have hnamed : ∀ g ∈ s.granted, Live settings s g → ∀ u ∈ s.db.users, u.id = g.holder.id →
          Named u (oidcCallback sso token s.db).1 := fun g _ _ u hu _ =>
        show Named u (SingleSignOn.step hash s.db (.callback sso token)) from
          named_step hu _ (by simp)
      split
      · next db user hcallback =>
          rw [hcallback] at hnamed
          exact (h.setDb hnamed).grant (callback_ok hcallback).1 _
      · next db _ hcallback =>
          rw [hcallback] at hnamed
          exact h.setDb hnamed
  · next accounts _ =>
      refine h.setDb fun g hg hlive u hu hid => named_step hu accounts fun admin id he => ?_
      subst he
      exact fun hsame => hkeeps g hg (hid.symm.trans hsame) hlive
  · exact h.later hsound rfl rfl (le_refl _)
  · split
    · next user hlogin => exact h.grant (login_ok hlogin).1 _
    · exact h
  · split
    · next user hsession =>
        obtain ⟨_, _, huser, _⟩ := getCurrentUser_ok (requireRole_ok (uiSession_ok hsession)).1
        exact h.grant huser _
    · exact h
  · exact h
  · exact h

/-! ## Whole runs -/

/-- **Whoever is served has a standing now and was handed the token.** -/
theorem requests_authorised (start : System) (hstart : start.granted = []) (events : List Event)
    (hunforged : Along (step jwt settings hash verify) (Unforged jwt) start events) :
    Along (step jwt settings hash verify)
      (fun s e => ∀ user, served jwt settings s e = some user → Authorised settings s e user)
      start events := by
  have hsound : Sound jwt settings start := by
    intro g hg
    rw [hstart] at hg
    cases hg
  exact along_of_invariant _ (fun s e hs he => ⟨fun _ hserved => hs.authorised he hserved,
    hs.step e⟩) hsound hunforged

/-- **A token stays with its account**, in every run in which no account is deleted that has a
token left. -/
theorem tokens_stay_with_accounts (start : System) (hstart : start.granted = [])
    (events : List Event)
    (hrun : Along (step jwt settings hash verify)
      (fun s e => Unforged jwt s e ∧ KeepsHolders settings s e) start events) :
    Along (step jwt settings hash verify)
      (fun s e => ∀ user, served jwt settings s e = some user →
        ∃ g ∈ s.granted, e.token = some g.token ∧ Live settings s g ∧
          g.holder.id = user.id ∧ g.holder.username = user.username) start events := by
  have hinvariant : Sound jwt settings start ∧ Held settings start := by
    constructor <;> intro g hg <;> rw [hstart] at hg <;> cases hg
  have hkept : ∀ (s : System) (e : Event), Sound jwt settings s ∧ Held settings s →
      Unforged jwt s e ∧ KeepsHolders settings s e →
        (∀ user, served jwt settings s e = some user →
          ∃ g ∈ s.granted, e.token = some g.token ∧ Live settings s g ∧
            g.holder.id = user.id ∧ g.holder.username = user.username) ∧
        Sound jwt settings (step jwt settings hash verify s e) ∧
          Held settings (step jwt settings hash verify s e) := by
    intro s e hs he
    refine ⟨fun user hserved => ?_, hs.1.step e, hs.2.step hs.1 he.2⟩
    obtain ⟨huser, -, -, g, hg, htoken, hid, -, hlive, -⟩ := hs.1.authorised he.1 hserved
    obtain ⟨u, hu, huid, hname⟩ := hs.2 g hg hlive
    obtain rfl := eq_of_id huser hu (huid.trans hid)
    exact ⟨g, hg, htoken, hlive, hid, hname.symm⟩
  exact along_of_invariant _ hkept hinvariant hrun

end Runs

/-! ### An editor opens the UI of a server -/

section Session

/-- A text is the list of its characters' numbers. -/
local instance encodableText : Encodable String :=
  Encodable.ofLeftInverse (fun text => text.toList.map Char.toNat)
    (fun codes => String.ofList (codes.map Char.ofNat)) fun text => by
      simp [Function.comp_def, Char.ofNat_toNat]

deriving instance Encodable for Role
deriving instance Encodable for Purpose

/-- The claims in unary. -/
def unary : Jwt where
  encode p := String.ofList (List.replicate (Encodable.encode (p.sub, p.exp, p.purpose)) '1')
  decode token := (Encodable.decode token.length).map fun (sub, exp, purpose) => ⟨sub, exp, purpose⟩
  decode_encode p := by
    simp only [String.length_ofList, List.length_replicate, Encodable.encodek, Option.map_some]

def hours : Settings := ⟨60, 60, true⟩

/-- Ann, an editor with a password. -/
def ann : User := ⟨1, "ann", none, some "pw", .editor, true, none⟩

def office : System where
  now := 0
  db := ⟨[ann], by decide⟩
  servers := [7]
  granted := []

section Tokens

variable (jwt : Jwt)

def annsToken : String := jwt.encode ⟨1, 3600, .access .editor "ann"⟩

def annsCookie : String := jwt.encode ⟨1, 3660, .proxy 7⟩

/-- Ann signs in, opens the UI of server 7 a minute later, and uses it. -/
def session : List Event :=
  [.login "ann" "pw", .wait 60, .uiSession (annsToken jwt) 7, .proxyUi (some (annsCookie jwt)) 7]

def signedInGrant : Grant := ⟨annsToken jwt, ann, .access .editor "ann", 0⟩

def openedGrant : Grant := ⟨annsCookie jwt, ann, .proxy 7, 60⟩

/-- An editor opens a session. -/
theorem session_opens : uiSession jwt hours
    { office with now := 60, granted := [signedInGrant jwt] } (annsToken jwt) 7 = .ok ann := by
  have hdecoded : decodeAccessToken jwt
      { office with now := 60, granted := [signedInGrant jwt] } (annsToken jwt) =
        some ⟨1, 3600, .access .editor "ann"⟩ := by
    rw [decodeAccessToken, annsToken, jwt.decode_encode]
    rfl
  simp only [uiSession, requireRole, getCurrentUser, hdecoded]
  rfl

/-- The stored hash is the password. -/
def runSession : System → Event → System := step jwt hours id fun p h => p == h

/-- Every token that Ann brings was handed out to her, and nobody is deleted. -/
theorem session_unforged : Along (runSession jwt)
    (fun s e => Unforged jwt s e ∧ KeepsHolders hours s e) office (session jwt) := by
  have hsigned : runSession jwt office (.login "ann" "pw") =
      { office with granted := [signedInGrant jwt] } := rfl
  have hopened : runSession jwt { office with now := 60, granted := [signedInGrant jwt] }
      (.uiSession (annsToken jwt) 7) =
        { office with now := 60, granted := [signedInGrant jwt, openedGrant jwt] } := by
    rw [runSession, step, session_opens]
    rfl
  refine ⟨⟨fun _ htoken => (nomatch htoken), trivial⟩, ?_⟩
  rw [hsigned]
  refine ⟨⟨fun _ htoken => (nomatch htoken), trivial⟩, ⟨?_, trivial⟩, ?_⟩
  · intro token htoken _ _
    obtain rfl := Option.some.inj htoken
    exact ⟨signedInGrant jwt, List.mem_singleton_self _, rfl⟩
  change Along _ _ (runSession jwt { office with now := 60, granted := [signedInGrant jwt] } _) _
  rw [hopened]
  refine ⟨⟨?_, trivial⟩, trivial⟩
  intro token htoken _ _
  have hgiven : given (some (annsCookie jwt)) = some token := htoken
  obtain ⟨hsame, -⟩ := SingleSignOn.given_eq_some.mp hgiven
  obtain rfl := Option.some.inj hsame
  exact ⟨openedGrant jwt, List.mem_cons_of_mem _ (List.mem_singleton_self _), rfl⟩

end Tokens

/-- Whoever is served in this session is served rightly. -/
theorem session_authorised : Along (runSession unary)
    (fun s e => ∀ user, served unary hours s e = some user → Authorised hours s e user)
    office (session unary) :=
  requests_authorised office rfl _
    (along_mono _ (fun _ _ h => h.1) (session_unforged unary))

/-- The session stays with its account. -/
theorem session_stays_anns : Along (runSession unary)
    (fun s e => ∀ user, served unary hours s e = some user →
      ∃ g ∈ s.granted, e.token = some g.token ∧ Live hours s g ∧
        g.holder.id = user.id ∧ g.holder.username = user.username) office (session unary) :=
  tokens_stay_with_accounts office rfl _ (session_unforged unary)

end Session

end AdguardAdmin.Tokens
