import AdguardAdmin.Registry
import AdguardAdmin.PyText
import AdguardAdmin.RunLaws
import AdguardAdmin.TableIds
/-!
# Single sign-on

Accounts are of two kinds.  Administrators create local ones, with a password; a callback
of the identity provider creates others, bound to the subject that the provider names.  A
callback finds the account of its subject; failing that, if this is allowed, the account
of its username, which is the caller's to choose.

* `callback_cases` — what a callback can do, said once;
* `sign_on_safe` — no callback captures a local account, in any run.
-/

namespace AdguardAdmin.SingleSignOn

open RunLaws TableIds
open Registry (HttpError)

/-! ## Accounts -/

inductive Role where
  | admin
  | editor
  | viewer
  deriving DecidableEq, Repr

structure User where
  id : Nat
  username : String
  email : Option String
  hashedPassword : Option String
  role : Role
  isActive : Bool
  oidcSub : Option String
  deriving DecidableEq, Repr

/-- A text that Python takes for true. -/
def given (text : Option String) : Option String := text.filter (· ≠ "")

/-- The subject that an account is bound to. -/
def User.subject (u : User) : Option String := given u.oidcSub

/-- An account with a password that no subject is bound to. -/
def User.IsLocal (u : User) : Prop := given u.hashedPassword ≠ none ∧ u.subject = none

/-- What the columns of the table demand. -/
structure Unique (users : List User) : Prop where
  ids : (users.map (·.id)).Nodup
  usernames : (users.map (·.username)).Nodup
  subjects : (users.filterMap (·.oidcSub)).Nodup

instance (users : List User) : Decidable (Unique users) :=
  decidable_of_iff ((users.map (·.id)).Nodup ∧ (users.map (·.username)).Nodup ∧
      (users.filterMap (·.oidcSub)).Nodup)
    ⟨fun h => ⟨h.1, h.2.1, h.2.2⟩, fun h => ⟨h.ids, h.usernames, h.subjects⟩⟩

structure Db where
  users : List User
  unique : Unique users

/-- The database refuses rows that break its constraints. -/
def commit (users : List User) : Except HttpError Db :=
  if h : Unique users then .ok ⟨users, h⟩ else .error ⟨500, "Internal Server Error"⟩

/-! ## What administrators do -/

structure UserCreate where
  username : String
  password : String
  email : Option String
  role : Role

/-- The fields of an edit, as far as they are set; a field may be set to null. -/
structure UserUpdate where
  email : Option (Option String)
  role : Option (Option Role)
  isActive : Option (Option Bool)
  password : Option (Option String)

section Users

variable (hash : String → String)

/-- `create_user`. -/
def createUser (payload : UserCreate) (db : Db) : Except HttpError Db :=
  if payload.username ∈ db.users.map (·.username) then .error ⟨409, "Username already exists"⟩
  else
    commit (db.users ++ [
      { id := nextId (db.users.map (·.id))
        username := payload.username
        email := payload.email
        hashedPassword := some (hash payload.password)
        role := payload.role
        isActive := true
        oidcSub := none }])

/-- The row that an edit leaves, unless a column is set to null that may not be. -/
def editedUser (data : UserUpdate) (user : User) : Option User :=
  match data.role.getD (some user.role), data.isActive.getD (some user.isActive) with
  | some role, some isActive =>
      some
        { user with
          email := data.email.getD user.email
          role := role
          isActive := isActive
          hashedPassword := match data.password.bind given with
            | some password => some (hash password)
            | none => user.hashedPassword }
  | _, _ => none

/-- `update_user`, asked for by the administrator `admin`. -/
def updateUser (admin id : Nat) (data : UserUpdate) (db : Db) : Except HttpError Db :=
  match db.users.find? (·.id = id) with
  | none => .error ⟨404, "User not found"⟩
  | some user =>
      if user.id = admin ∧
          (data.role.getD (some user.role) ≠ some user.role ∨ data.isActive = some (some false)) then
        .error ⟨400, "You cannot change your own role or disable yourself"⟩
      else
        match editedUser hash data user with
        | none => .error ⟨500, "Internal Server Error"⟩
        | some new => commit (putRow (·.id) new db.users)

/-- `delete_user`. -/
def deleteUser (admin id : Nat) (db : Db) : Except HttpError Db :=
  match db.users.find? (·.id = id) with
  | none => .error ⟨404, "User not found"⟩
  | some user =>
      if user.id = admin then .error ⟨400, "You cannot delete yourself"⟩
      else commit (db.users.filter (·.id ≠ id))

/-- `bootstrap_admin`. -/
def bootstrapAdmin (username password : String) (db : Db) : Except HttpError Db :=
  if db.users = [] then
    commit [
      { id := nextId []
        username := username
        email := none
        hashedPassword := some (hash password)
        role := .admin
        isActive := true
        oidcSub := none }]
  else .ok db

end Users

/-! ## The callback -/

/-- The `groups` claim: a text, an array (with the entries that are no text left empty), or
something else. -/
inductive GroupsClaim where
  | text (raw : String)
  | array (items : List (Option String))
  | other
  deriving DecidableEq, Repr

structure Claims where
  sub : Option String
  email : Option String
  emailVerified : Bool
  preferredUsername : Option String
  groups : GroupsClaim

structure Settings where
  configured : Bool
  defaultRole : Role
  adminGroup : String
  allowUsernameLinking : Bool

/-- `_claim_groups`. -/
def claimGroups : GroupsClaim → List String
  | .text raw => PyText.words raw
  | .array items => ((items.filterMap id).map PyText.strip).filter (· ≠ "")
  | .other => []

/-- What comes before the first `@`. -/
def localPart (group : String) : String := String.ofList (group.toList.takeWhile (· ≠ '@'))

/-- `_in_admin_group`. -/
def inAdminGroup (adminGroup : String) (groups : List String) : Bool :=
  let wanted := PyText.strip adminGroup
  wanted ≠ "" && groups.any fun group =>
    group = wanted || ('@' ∉ wanted.toList && localPart group = wanted)

/-- `_resolve_oidc_user`. -/
def resolveOidcUser (allowLinking : Bool) (sub username : String) (db : Db) : Option User :=
  match db.users.find? (·.oidcSub = some sub) with
  | some user => some user
  | none =>
      if allowLinking then
        match db.users.find? (·.username = username) with
        | none => none
        | some candidate =>
            if candidate.subject ≠ none ∧ candidate.oidcSub ≠ some sub then none
            else if given candidate.hashedPassword ≠ none then none
            else some candidate
      else none

/-- The row of an account that a callback found. -/
def signedIn (sub : String) (email : Option String) (isAdminGroup : Bool) (user : User) : User :=
  { user with
    oidcSub := some sub
    email := if given email = none then user.email else email
    role := if isAdminGroup then .admin else user.role }

/-- The row of an account that a callback creates. -/
def newcomer (defaultRole : Role) (sub username : String) (email : Option String)
    (isAdminGroup : Bool) (db : Db) : User where
  id := nextId (db.users.map (·.id))
  username := username
  email := email
  hashedPassword := none
  role := if isAdminGroup then .admin else defaultRole
  isActive := true
  oidcSub := some sub

/-- The address that the provider has verified. -/
def Claims.verifiedEmail (claims : Claims) : Option String :=
  if claims.emailVerified then claims.email else none

def Claims.username (claims : Claims) (sub : String) : String :=
  ((given claims.preferredUsername).or (given claims.verifiedEmail)).getD sub

/-- Store an account, and hand out a token for it if it is active. -/
def admitted (rows : List User) (user : User) (db : Db) : Db × Except HttpError User :=
  match commit rows with
  | .error e => (db, .error e)
  | .ok stored =>
      (stored, if user.isActive then .ok user else .error ⟨403, "Account disabled"⟩)

/-- `oidc_callback`, with what the provider answers for the code. -/
def oidcCallback (settings : Settings) (token : Except String Claims) (db : Db) :
    Db × Except HttpError User :=
  if settings.configured = false then (db, .error ⟨404, "OIDC not configured"⟩)
  else
    match token with
    | .error e => (db, .error ⟨400, "OIDC error: " ++ e⟩)
    | .ok claims =>
        match given claims.sub with
        | none => (db, .error ⟨400, "OIDC response missing subject"⟩)
        | some sub =>
            let email := claims.verifiedEmail
            let username := claims.username sub
            let isAdminGroup := inAdminGroup settings.adminGroup (claimGroups claims.groups)
            match resolveOidcUser settings.allowUsernameLinking sub username db with
            | some user =>
                let row := signedIn sub email isAdminGroup user
                admitted (putRow (·.id) row db.users) row db
            | none =>
                if username ∈ db.users.map (·.username) then
                  (db, .error ⟨409, "An account with this username already exists. An administrator must link it to your identity provider."⟩)
                else
                  let row := newcomer settings.defaultRole sub username email isAdminGroup db
                  admitted (db.users ++ [row]) row db

/-! ## Groups -/

/-- The claim names a group: as a whole entry, never as a part of one. -/
def NamesGroup (claim : GroupsClaim) (group : String) : Prop :=
  match claim with
  | .text raw => group ≠ "" ∧ PyText.IsPiece PyText.isGap group.toList raw.toList
  | .array items => group ≠ "" ∧ ∃ item, some item ∈ items ∧ PyText.strip item = group
  | .other => False

/-- The claim names the configured group, or, if that is a bare name, that name in a domain. -/
def CarriesAdminGroup (adminGroup : String) (claim : GroupsClaim) : Prop :=
  PyText.strip adminGroup ≠ "" ∧ ∃ group, NamesGroup claim group ∧
    (group = PyText.strip adminGroup ∨ ('@' ∉ (PyText.strip adminGroup).toList ∧
      ∃ domain, group = PyText.strip adminGroup ++ "@" ++ domain))

/-- The groups of a claim are those it names. -/
theorem mem_claimGroups {claim : GroupsClaim} {group : String} :
    group ∈ claimGroups claim ↔ NamesGroup claim group := by
  cases claim with
  | text raw => exact PyText.mem_words
  | array items =>
      simp only [claimGroups, NamesGroup, List.mem_filter, List.mem_map, List.mem_filterMap, id_eq,
        exists_eq_right, decide_eq_true_eq]
      exact and_comm
  | other => simp [claimGroups, NamesGroup]

/-- A group is known by its local part. -/
theorem localPart_eq_iff {group wanted : String} (hbare : '@' ∉ wanted.toList) :
    localPart group = wanted ↔ group = wanted ∨ ∃ domain, group = wanted ++ "@" ++ domain := by
  have hchars : ∀ c ∈ wanted.toList, decide (c ≠ '@') = true := fun c hc =>
    decide_eq_true fun hat => hbare (hat ▸ hc)
  unfold localPart
  constructor
  · intro hlocal
    have hfront : group.toList.takeWhile (· ≠ '@') = wanted.toList := by
      simpa using congrArg String.toList hlocal
    have hsplit := List.takeWhile_append_dropWhile (p := (· ≠ '@')) (l := group.toList)
    rw [hfront] at hsplit
    cases hback : group.toList.dropWhile (· ≠ '@') with
    | nil =>
        left
        rw [hback, List.append_nil] at hsplit
        exact String.toList_injective hsplit.symm
    | cons c domain =>
        right
        have hat : c = '@' := by
          have hnot := List.head?_dropWhile_not (· ≠ '@') group.toList
          rw [hback] at hnot
          simpa using hnot
        rw [hback, hat] at hsplit
        refine ⟨String.ofList domain, String.toList_injective ?_⟩
        simpa using hsplit.symm
  · rintro (rfl | ⟨domain, rfl⟩)
    · rw [List.takeWhile_eq_self_iff.mpr hchars, String.ofList_toList]
    · have hdomain : (wanted ++ "@" ++ domain).toList = wanted.toList ++ '@' :: domain.toList := by
        simp
      rw [hdomain, List.takeWhile_append_of_pos hchars]
      simp

/-- `_in_admin_group` finds exactly the claims that carry the group. -/
theorem inAdminGroup_iff {adminGroup : String} {claim : GroupsClaim} :
    inAdminGroup adminGroup (claimGroups claim) = true ↔ CarriesAdminGroup adminGroup claim := by
  simp only [inAdminGroup, CarriesAdminGroup, Bool.and_eq_true, decide_eq_true_eq, List.any_eq_true,
    mem_claimGroups, Bool.or_eq_true]
  refine and_congr_right fun _ => exists_congr fun group => and_congr_right fun _ => ?_
  constructor
  · rintro (heq | ⟨hbare, hlocal⟩)
    · exact .inl heq
    · exact ((localPart_eq_iff hbare).mp hlocal).imp_right fun hdomain => ⟨hbare, hdomain⟩
  · rintro (heq | ⟨hbare, hdomain⟩)
    · exact .inl heq
    · exact .inr ⟨hbare, (localPart_eq_iff hbare).mpr (.inr hdomain)⟩

/-! ## What a callback can do -/

section Callback

variable {settings : Settings} {token : Except String Claims} {db stored : Db}

/-- What is committed is stored. -/
theorem commit_ok {users : List User} (h : commit users = .ok stored) : stored.users = users := by
  unfold commit at h
  split at h
  · exact congrArg Db.users (Except.ok.inj h).symm
  · cases h

/-- An account that a callback finds is bound to its subject already, or to none and has no
password. -/
theorem resolveOidcUser_some {allowLinking : Bool} {sub username : String} {user : User}
    (h : resolveOidcUser allowLinking sub username db = some user) :
    user ∈ db.users ∧
      (user.oidcSub = some sub ∨ (user.subject = none ∧ given user.hashedPassword = none)) := by
  unfold resolveOidcUser at h
  split at h
  · next found hfind =>
      obtain rfl := Option.some.inj h
      exact ⟨List.mem_of_find?_eq_some hfind, .inl (by simpa using List.find?_some hfind)⟩
  · split at h
    · split at h
      · cases h
      · next candidate hfind =>
          split at h
          · cases h
          · next hfree =>
              split at h
              · cases h
              · next hpassword =>
                  obtain rfl := Option.some.inj h
                  refine ⟨List.mem_of_find?_eq_some hfind, ?_⟩
                  rcases not_and_or.mp hfree with hnone | hsame
                  · exact .inr ⟨not_not.mp hnone, not_not.mp hpassword⟩
                  · exact .inl (not_not.mp hsame)
    · cases h

/-- What a callback leaves: the accounts as they were, one of them signed in, or a new one. -/
inductive Outcome (settings : Settings) (token : Except String Claims) (db after : Db)
    (answer : Except HttpError User) : Prop where
  | refused (same : after = db) (error : ∀ user, answer ≠ .ok user)
  | found (claims : Claims) (sub : String) (user : User) (accepted : token = .ok claims)
      (subject : given claims.sub = some sub)
      (resolved : resolveOidcUser settings.allowUsernameLinking sub (claims.username sub) db =
        some user)
      (stored : after.users = putRow (·.id)
        (signedIn sub claims.verifiedEmail
          (inAdminGroup settings.adminGroup (claimGroups claims.groups)) user) db.users)
      (entered : ∀ u, answer = .ok u → u.id = user.id)
  | created (claims : Claims) (sub : String) (accepted : token = .ok claims)
      (subject : given claims.sub = some sub)
      (stored : after.users = db.users ++ [newcomer settings.defaultRole sub (claims.username sub)
        claims.verifiedEmail (inAdminGroup settings.adminGroup (claimGroups claims.groups)) db])
      (entered : ∀ u, answer = .ok u → u.id ∉ db.users.map (·.id))

/-- An account is admitted, or the database stays as it was. -/
theorem admitted_cases (rows : List User) (user : User) (db : Db) :
    ((admitted rows user db).1 = db ∧ ∀ u, (admitted rows user db).2 ≠ .ok u) ∨
      ((admitted rows user db).1.users = rows ∧
        ∀ u, (admitted rows user db).2 = .ok u → u = user) := by
  unfold admitted
  split
  · exact .inl ⟨rfl, by simp⟩
  · next stored hcommit =>
      refine .inr ⟨commit_ok hcommit, fun u hu => ?_⟩
      dsimp only at hu
      split at hu
      · exact (Except.ok.inj hu).symm
      · cases hu

/-- Every callback ends in one of the outcomes. -/
theorem callback_cases (settings : Settings) (token : Except String Claims) (db : Db) :
    Outcome settings token db (oidcCallback settings token db).1
      (oidcCallback settings token db).2 := by
  unfold oidcCallback
  split
  · exact .refused rfl (by simp)
  · split
    · exact .refused rfl (by simp)
    · next claims =>
        split
        · exact .refused rfl (by simp)
        · next sub hsub =>
            dsimp only
            split
            · next user hresolved =>
                rcases admitted_cases _ _ db with ⟨hsame, herror⟩ | ⟨hstored, hentered⟩
                · exact .refused hsame herror
                · refine .found claims sub user rfl hsub hresolved hstored fun u hu => ?_
                  rw [hentered u hu]
                  rfl
            · split
              · exact .refused rfl (by simp)
              · rcases admitted_cases _ _ db with ⟨hsame, herror⟩ | ⟨hstored, hentered⟩
                · exact .refused hsame herror
                · refine .created claims sub rfl hsub hstored fun u hu => ?_
                  rw [hentered u hu]
                  exact nextId_not_mem _

end Callback

/-! ## Runs -/

inductive Event where
  | bootstrap (username password : String)
  | create (payload : UserCreate)
  | update (admin id : Nat) (data : UserUpdate)
  | delete (admin id : Nat)
  | callback (settings : Settings) (token : Except String Claims)

/-- A refused request leaves the table as it was. -/
def orKeep (db : Db) : Except HttpError Db → Db
  | .ok after => after
  | .error _ => db

section Runs

variable (hash : String → String)

def step (db : Db) : Event → Db
  | .bootstrap username password => orKeep db (bootstrapAdmin hash username password db)
  | .create payload => orKeep db (createUser hash payload db)
  | .update admin id data => orKeep db (updateUser hash admin id data db)
  | .delete admin id => orKeep db (deleteUser admin id db)
  | .callback settings token => (oidcCallback settings token db).1

/-- The account that a callback hands out a token for. -/
def loggedIn (db : Db) : Event → Option Nat
  | .callback settings token =>
      match (oidcCallback settings token db).2 with
      | .ok user => some user.id
      | .error _ => none
  | _ => none

/-- A callback may make an account an administrator: it carries the group, or it creates the
account and new accounts are administrators. -/
def MayPromote (db : Db) (settings : Settings) (token : Except String Claims) (id : Nat) : Prop :=
  (∃ claims, token = .ok claims ∧ CarriesAdminGroup settings.adminGroup claims.groups) ∨
    (id ∉ db.users.map (·.id) ∧ settings.defaultRole = .admin)

/-- What holds of one step: bound accounts stay bound as they are, local ones are neither
bound nor entered, and only what may promote does. -/
structure Safe (db : Db) (e : Event) : Prop where
  bound : ∀ u ∈ db.users, ∀ u' ∈ (step hash db e).users, u'.id = u.id →
    ∀ sub, u.subject = some sub → u'.subject = some sub
  unbound : ∀ u ∈ db.users, u.IsLocal → ∀ u' ∈ (step hash db e).users, u'.id = u.id →
    u'.subject = none
  notEntered : ∀ u ∈ db.users, u.IsLocal → loggedIn db e ≠ some u.id
  promoted : ∀ settings token, e = .callback settings token →
    ∀ u' ∈ (step hash db e).users, u'.role = .admin →
      (∃ u ∈ db.users, u.id = u'.id ∧ u.role = .admin) ∨ MayPromote db settings token u'.id

variable {hash} {db after : Db}

/-- Accounts that stay keep the subject they are bound to. -/
def SubjectsKept (db after : Db) : Prop :=
  ∀ u ∈ db.users, ∀ u' ∈ after.users, u'.id = u.id → u'.oidcSub = u.oidcSub

theorem eq_of_id {u u' : User} (hu : u ∈ db.users) (hu' : u' ∈ db.users) (hid : u'.id = u.id) :
    u' = u :=
  List.inj_on_of_nodup_map db.unique.ids hu' hu hid

/-- What was not touched keeps its subjects. -/
theorem subjectsKept_self : SubjectsKept db db := by
  intro u hu u' hu' hid
  rw [eq_of_id hu hu' hid]

/-- A request that may be refused keeps the subjects, if it does where it is not. -/
theorem subjectsKept_orKeep {answer : Except HttpError Db}
    (h : ∀ after, answer = .ok after → SubjectsKept db after) :
    SubjectsKept db (orKeep db answer) := by
  cases answer with
  | ok after => exact h after rfl
  | error e => exact subjectsKept_self

/-- A new account keeps the subjects. -/
theorem createUser_kept {payload : UserCreate} (h : createUser hash payload db = .ok after) :
    SubjectsKept db after := by
  unfold createUser at h
  split at h
  · cases h
  · intro u hu u' hu' hid
    rw [commit_ok h, List.mem_append, List.mem_singleton] at hu'
    rcases hu' with hold | rfl
    · rw [eq_of_id hu hold hid]
    · have hused : nextId (db.users.map (·.id)) ∈ db.users.map (·.id) :=
        List.mem_map.mpr ⟨u, hu, hid.symm⟩
      exact absurd hused (nextId_not_mem _)

/-- An edit keeps id and subject. -/
theorem editedUser_some {data : UserUpdate} {user new : User}
    (h : editedUser hash data user = some new) :
    new.id = user.id ∧ new.oidcSub = user.oidcSub := by
  unfold editedUser at h
  split at h
  · obtain rfl := Option.some.inj h
    exact ⟨rfl, rfl⟩
  · cases h

/-- An update of an account keeps the subjects. -/
theorem updateUser_kept {admin id : Nat} {data : UserUpdate}
    (h : updateUser hash admin id data db = .ok after) : SubjectsKept db after := by
  unfold updateUser at h
  split at h
  · cases h
  · next user hfind =>
      split at h
      · cases h
      · split at h
        · cases h
        · next new hnew =>
            obtain ⟨hid, hsub⟩ := editedUser_some hnew
            have huser : user ∈ db.users := List.mem_of_find?_eq_some hfind
            intro u hu u' hu' hsame
            rw [commit_ok h, mem_putRow (List.mem_map.mpr ⟨user, huser, hid.symm⟩)] at hu'
            rcases hu' with rfl | ⟨hold, -⟩
            · rw [hsub, eq_of_id hu huser (hid.symm.trans hsame)]
            · rw [eq_of_id hu hold hsame]

/-- A deleted account keeps the subjects of the others. -/
theorem deleteUser_kept {admin id : Nat} (h : deleteUser admin id db = .ok after) :
    SubjectsKept db after := by
  unfold deleteUser at h
  split at h
  · cases h
  · split at h
    · cases h
    · intro u hu u' hu' hid
      rw [commit_ok h] at hu'
      rw [eq_of_id hu (List.mem_filter.mp hu').1 hid]

/-- The first administrator keeps the subjects. -/
theorem bootstrapAdmin_kept {username password : String}
    (h : bootstrapAdmin hash username password db = .ok after) : SubjectsKept db after := by
  unfold bootstrapAdmin at h
  split at h
  · next hempty =>
      intro u hu
      rw [hempty] at hu
      cases hu
  · obtain rfl := Except.ok.inj h
    exact subjectsKept_self

/-- A step that is no callback and keeps the subjects is safe. -/
theorem safe_of_kept {e : Event} (h : SubjectsKept db (step hash db e))
    (hother : ∀ settings token, e ≠ .callback settings token) : Safe hash db e where
  bound u hu u' hu' hid sub hsub := by
    rwa [User.subject, h u hu u' hu' hid]
  unbound u hu hlocal u' hu' hid := by
    rw [User.subject, h u hu u' hu' hid]
    exact hlocal.2
  notEntered u hu hlocal := by
    cases e with
    | callback settings token => exact absurd rfl (hother settings token)
    | _ => simp [loggedIn]
  promoted settings token he := absurd he (hother settings token)

/-- A text is given when it is not empty. -/
theorem given_eq_some {text : Option String} {value : String} :
    given text = some value ↔ text = some value ∧ value ≠ "" := by
  simp [given]

/-- The account that a callback finds is not a local one. -/
theorem not_isLocal_of_resolved {allowLinking : Bool} {sub username : String} {user : User}
    (hsub : sub ≠ "") (h : resolveOidcUser allowLinking sub username db = some user) :
    ¬ user.IsLocal := by
  rintro ⟨hpassword, hfree⟩
  rcases (resolveOidcUser_some h).2 with hbound | ⟨-, hnone⟩
  · rw [User.subject, given_eq_some.mpr ⟨hbound, hsub⟩] at hfree
    cases hfree
  · exact hpassword hnone

/-- Who is logged in by a callback is its account. -/
theorem loggedIn_callback {settings : Settings} {token : Except String Claims} {id : Nat}
    (h : loggedIn db (.callback settings token) = some id) :
    ∃ u, (oidcCallback settings token db).2 = .ok u ∧ u.id = id := by
  unfold loggedIn at h
  dsimp only at h
  split at h
  · next u hu => exact ⟨u, hu, Option.some.inj h⟩
  · cases h

section Cases

variable {settings : Settings} {token : Except String Claims} {claims : Claims} {sub : String}

/-- A callback that is refused is safe. -/
theorem safe_refused (hsame : (oidcCallback settings token db).1 = db)
    (herror : ∀ u, (oidcCallback settings token db).2 ≠ .ok u) :
    Safe hash db (.callback settings token) := by
  have hkept : SubjectsKept db (step hash db (.callback settings token)) := by
    rw [show step hash db (.callback settings token) = db from hsame]
    exact subjectsKept_self
  refine ⟨?_, ?_, ?_, ?_⟩
  · intro u hu u' hu' hid held hheld
    rwa [User.subject, hkept u hu u' hu' hid]
  · intro u hu hislocal u' hu' hid
    rw [User.subject, hkept u hu u' hu' hid]
    exact hislocal.2
  · intro u hu hislocal hlogged
    obtain ⟨v, hv, -⟩ := loggedIn_callback hlogged
    exact herror v hv
  · intro settings' token' he u' hu' hadmin
    rw [show step hash db (.callback settings token) = db from hsame] at hu'
    exact .inl ⟨u', hu', rfl, hadmin⟩

/-- A callback that signs in an account it has found is safe. -/
theorem safe_found {user : User} (htoken : token = .ok claims)
    (hsub : given claims.sub = some sub)
    (hresolved : resolveOidcUser settings.allowUsernameLinking sub (claims.username sub) db =
      some user)
    (hstored : (oidcCallback settings token db).1.users = putRow (·.id)
      (signedIn sub claims.verifiedEmail
        (inAdminGroup settings.adminGroup (claimGroups claims.groups)) user) db.users)
    (hentered : ∀ u, (oidcCallback settings token db).2 = .ok u → u.id = user.id) :
    Safe hash db (.callback settings token) := by
  obtain ⟨-, hne⟩ := given_eq_some.mp hsub
  obtain ⟨huser, hbound⟩ := resolveOidcUser_some hresolved
  have hlocal := not_isLocal_of_resolved hne hresolved
  have hrows : ∀ u' ∈ (step hash db (.callback settings token)).users,
      u' = signedIn sub claims.verifiedEmail
        (inAdminGroup settings.adminGroup (claimGroups claims.groups)) user ∨
          (u' ∈ db.users ∧ u'.id ≠ user.id) := by
    intro u' hu'
    have hkey : (signedIn sub claims.verifiedEmail
        (inAdminGroup settings.adminGroup (claimGroups claims.groups)) user).id ∈
          db.users.map (·.id) := List.mem_map.mpr ⟨user, huser, rfl⟩
    rw [show (step hash db (.callback settings token)).users = _ from hstored] at hu'
    exact (mem_putRow hkey).mp hu'
  refine ⟨?_, ?_, ?_, ?_⟩
  · intro u hu u' hu' hid held hheld
    rcases hrows u' hu' with rfl | ⟨hold, -⟩
    · -- the account was bound, so it was found by its subject
      obtain rfl := eq_of_id hu huser hid
      rcases hbound with hbound | ⟨hfree, -⟩
      · rw [User.subject, hbound] at hheld
        exact hheld
      · rw [hfree] at hheld
        cases hheld
    · rwa [eq_of_id hu hold hid]
  · intro u hu hislocal u' hu' hid
    rcases hrows u' hu' with rfl | ⟨hold, -⟩
    · obtain rfl := eq_of_id hu huser hid
      exact absurd hislocal hlocal
    · rw [eq_of_id hu hold hid]
      exact hislocal.2
  · intro u hu hislocal hlogged
    obtain ⟨v, hv, hid⟩ := loggedIn_callback hlogged
    have hsame : user = u := eq_of_id hu huser ((hentered v hv).symm.trans hid)
    rw [← hsame] at hislocal
    exact hlocal hislocal
  · intro settings' token' he u' hu' hadmin
    obtain ⟨rfl, rfl⟩ := Event.callback.inj he
    rcases hrows u' hu' with rfl | ⟨hold, -⟩
    · by_cases hgroup : inAdminGroup settings.adminGroup (claimGroups claims.groups) = true
      · exact .inr (.inl ⟨claims, htoken, inAdminGroup_iff.mp hgroup⟩)
      · refine .inl ⟨user, huser, rfl, ?_⟩
        simpa [signedIn, hgroup] using hadmin
    · exact .inl ⟨u', hold, rfl, hadmin⟩

/-- A callback that creates an account. -/
theorem safe_created (htoken : token = .ok claims)
    (hstored : (oidcCallback settings token db).1.users = db.users ++ [newcomer
      settings.defaultRole sub (claims.username sub) claims.verifiedEmail
        (inAdminGroup settings.adminGroup (claimGroups claims.groups)) db])
    (hentered : ∀ u, (oidcCallback settings token db).2 = .ok u → u.id ∉ db.users.map (·.id)) :
    Safe hash db (.callback settings token) := by
  have hrows : ∀ u' ∈ (step hash db (.callback settings token)).users, u' ∈ db.users ∨
      u' = newcomer settings.defaultRole sub (claims.username sub) claims.verifiedEmail
        (inAdminGroup settings.adminGroup (claimGroups claims.groups)) db := by
    intro u' hu'
    rwa [show (step hash db (.callback settings token)).users = _ from hstored, List.mem_append,
      List.mem_singleton] at hu'
  have hfresh : nextId (db.users.map (·.id)) ∉ db.users.map (·.id) := nextId_not_mem _
  have hkept : SubjectsKept db (step hash db (.callback settings token)) := by
    intro u hu u' hu' hid
    rcases hrows u' hu' with hold | rfl
    · rw [eq_of_id hu hold hid]
    · exact absurd (List.mem_map.mpr ⟨u, hu, hid.symm⟩) hfresh
  refine ⟨?_, ?_, ?_, ?_⟩
  · intro u hu u' hu' hid held hheld
    rwa [User.subject, hkept u hu u' hu' hid]
  · intro u hu hislocal u' hu' hid
    rw [User.subject, hkept u hu u' hu' hid]
    exact hislocal.2
  · intro u hu hislocal hlogged
    obtain ⟨v, hv, hid⟩ := loggedIn_callback hlogged
    exact hentered v hv (List.mem_map.mpr ⟨u, hu, hid.symm⟩)
  · intro settings' token' he u' hu' hadmin
    obtain ⟨rfl, rfl⟩ := Event.callback.inj he
    rcases hrows u' hu' with hold | rfl
    · exact .inl ⟨u', hold, rfl, hadmin⟩
    · by_cases hgroup : inAdminGroup settings.adminGroup (claimGroups claims.groups) = true
      · exact .inr (.inl ⟨claims, htoken, inAdminGroup_iff.mp hgroup⟩)
      · refine .inr (.inr ⟨hfresh, ?_⟩)
        simpa [newcomer, hgroup] using hadmin

end Cases

/-- Every callback is safe. -/
theorem safe_callback (settings : Settings) (token : Except String Claims) :
    Safe hash db (.callback settings token) := by
  cases callback_cases settings token db with
  | refused hsame herror => exact safe_refused hsame herror
  | found claims sub user htoken hsub hresolved hstored hentered =>
      exact safe_found htoken hsub hresolved hstored hentered
  | created claims sub htoken hsub hstored hentered => exact safe_created htoken hstored hentered

/-- Every step is safe. -/
theorem safe_step (db : Db) (e : Event) : Safe hash db e := by
  cases e with
  | bootstrap username password =>
      refine safe_of_kept ?_ fun _ _ h => by cases h
      unfold step
      exact subjectsKept_orKeep fun _ h => bootstrapAdmin_kept h
  | create payload =>
      refine safe_of_kept ?_ fun _ _ h => by cases h
      unfold step
      exact subjectsKept_orKeep fun _ h => createUser_kept h
  | update admin id data =>
      refine safe_of_kept ?_ fun _ _ h => by cases h
      unfold step
      exact subjectsKept_orKeep fun _ h => updateUser_kept h
  | delete admin id =>
      refine safe_of_kept ?_ fun _ _ h => by cases h
      unfold step
      exact subjectsKept_orKeep fun _ h => deleteUser_kept h
  | callback settings token => exact safe_callback settings token

/-- **Single sign-on captures no local account.**  In every run, from every table of users,
each step leaves the accounts that are bound to a subject bound to it, neither binds nor
enters an account that has a password and no subject, and makes no account an administrator
by a callback that does not carry the group, unless new accounts are administrators. -/
theorem sign_on_safe (hash : String → String) (db : Db) (events : List Event) :
    Along (step hash) (Safe hash) db events :=
  along_of_kept (step hash) (fun db e (_ : True) => ⟨safe_step db e, trivial⟩) trivial events

end Runs

end AdguardAdmin.SingleSignOn
