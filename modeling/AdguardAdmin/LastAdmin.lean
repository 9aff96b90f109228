import AdguardAdmin.SingleSignOn
/-!
# The last administrator

An administrator may demote, disable or delete any account but the own one, so a request
always leaves its caller an administrator.  The caller's row is read before the target's,
and both are read before the commit; in between other requests commit.  Two administrators
who take each other's role away at the same time both pass the check.

* `hasAdmin_step_iff` — what one step has to find for an administrator to be left;
* `admin_left_iff` — the exact runs in which one always is, and that it is enough if the
  callers of such requests are still administrators when these commit.
-/

namespace AdguardAdmin.LastAdmin

open RunLaws TableIds SingleSignOn
open Registry (HttpError)

/-- An account that passes `require_role(Role.admin)`. -/
def IsAdmin (u : User) : Prop := u.role = .admin ∧ u.isActive = true

instance (u : User) : Decidable (IsAdmin u) := inferInstanceAs (Decidable (_ ∧ _))

def HasAdmin (db : Db) : Prop := ∃ u ∈ db.users, IsAdmin u

/-- An administrator besides one account. -/
def OtherAdmin (db : Db) (id : Nat) : Prop := ∃ u ∈ db.users, IsAdmin u ∧ u.id ≠ id

/-! ## Requests under way -/

/-- A flush writes the columns that differ from what was read. -/
def flush (read new current : User) : User :=
  { current with
    email := if new.email = read.email then current.email else new.email
    hashedPassword :=
      if new.hashedPassword = read.hashedPassword then current.hashedPassword
      else new.hashedPassword
    role := if new.role = read.role then current.role else new.role
    isActive := if new.isActive = read.isActive then current.isActive else new.isActive
    oidcSub := if new.oidcSub = read.oidcSub then current.oidcSub else new.oidcSub }

/-- The flush takes the role of an administrator or the activity away. -/
def Drops (read new : User) : Prop :=
  (new.role ≠ read.role ∧ new.role ≠ .admin) ∨
    (new.isActive ≠ read.isActive ∧ new.isActive = false)

inductive Op where
  | update (id : Nat) (data : UserUpdate)
  | delete (id : Nat)

/-- A request between two of its steps.  A caller does not drop the own account. -/
inductive Request where
  /-- The caller's row has been read. -/
  | authorised (admin : User) (op : Op)
  /-- The target's row has been read and edited. -/
  | edit (caller : Nat) (read new : User) (subject : new.oidcSub = read.oidcSub)
      (notSelf : Drops read new → caller ≠ read.id)
  | remove (caller target : Nat) (notSelf : caller ≠ target)
  /-- A callback has found an account. -/
  | signIn (read : User) (sub : String) (email : Option String) (isAdminGroup : Bool)
  /-- A callback has found none. -/
  | register (defaultRole : Role) (sub username : String) (email : Option String)
      (isAdminGroup : Bool)

section Check

variable (hash : String → String)

/-- What an update must not do to the own account. -/
def ForbiddenToSelf (data : UserUpdate) (user : User) : Prop :=
  data.role.getD (some user.role) ≠ some user.role ∨ data.isActive = some (some false)

instance (data : UserUpdate) (user : User) : Decidable (ForbiddenToSelf data user) :=
  inferInstanceAs (Decidable (_ ∨ _))

variable {hash}

/-- Who drops himself is refused. -/
theorem forbidden_of_drops {data : UserUpdate} {user new : User}
    (hedit : editedUser hash data user = some new) (hdrops : Drops user new) :
    ForbiddenToSelf data user := by
  unfold editedUser at hedit
  split at hedit
  · next role isActive hrole hactive =>
      obtain rfl := Option.some.inj hedit
      rcases hdrops with ⟨hchanged, -⟩ | ⟨hchanged, hoff⟩
      · left
        rw [hrole]
        exact fun heq => hchanged (Option.some.inj heq)
      · right
        dsimp only at hchanged hoff
        cases hdata : data.isActive with
        | none =>
            rw [hdata] at hactive
            exact absurd (Option.some.inj hactive).symm hchanged
        | some value =>
            rw [hdata] at hactive
            rw [show value = some isActive from hactive, hoff]
  · cases hedit

/-- `session.get(User, id)` finds the caller's own row in the session. -/
def readUser (db : Db) (admin : User) (id : Nat) : Option User :=
  if id = admin.id then some admin else db.users.find? (·.id = id)

variable (hash)

/-- The body of a request up to its commit.  A null in a column that allows none makes the
commit fail. -/
def check (db : Db) (admin : User) : Op → Except HttpError Request
  | .update id data =>
      match readUser db admin id with
      | none => .error ⟨404, "User not found"⟩
      | some user =>
          if hself : user.id = admin.id ∧ ForbiddenToSelf data user then
            .error ⟨400, "You cannot change your own role or disable yourself"⟩
          else
            match hedit : editedUser hash data user with
            | none => .error ⟨500, "Internal Server Error"⟩
            | some new =>
                .ok (.edit admin.id user new (editedUser_some hedit).2 fun hdrops hsame =>
                  hself ⟨hsame.symm, forbidden_of_drops hedit hdrops⟩)
  | .delete id =>
      match readUser db admin id with
      | none => .error ⟨404, "User not found"⟩
      | some user =>
          if hself : user.id = admin.id then .error ⟨400, "You cannot delete yourself"⟩
          else .ok (.remove admin.id user.id fun hsame => hself hsame.symm)

end Check

/-- A callback up to its commit. -/
def readCallback (settings : Settings) (token : Except String Claims) (db : Db) :
    Except HttpError Request :=
  if settings.configured = false then .error ⟨404, "OIDC not configured"⟩
  else
    match token with
    | .error e => .error ⟨400, "OIDC error: " ++ e⟩
    | .ok claims =>
        match given claims.sub with
        | none => .error ⟨400, "OIDC response missing subject"⟩
        | some sub =>
            let email := claims.verifiedEmail
            let username := claims.username sub
            let isAdminGroup := inAdminGroup settings.adminGroup (claimGroups claims.groups)
            match resolveOidcUser settings.allowUsernameLinking sub username db with
            | some user => .ok (.signIn user sub email isAdminGroup)
            | none =>
                if username ∈ db.users.map (·.username) then
                  .error ⟨409, "An account with this username already exists. An administrator must link it to your identity provider."⟩
                else .ok (.register settings.defaultRole sub username email isAdminGroup)

/-- Flush an edited row; there is none to update when it has been deleted. -/
def putFlushed (db : Db) (read new : User) : Db :=
  match db.users.find? (·.id = read.id) with
  | none => db
  | some current => orKeep db (commit (putRow (·.id) (flush read new current) db.users))

/-- What the commit of a request leaves. -/
def committed (db : Db) : Request → Db
  | .authorised _ _ => db
  | .edit _ read new _ _ => putFlushed db read new
  | .remove _ target _ => orKeep db (commit (db.users.filter (·.id ≠ target)))
  | .signIn read sub email isAdminGroup =>
      putFlushed db read (signedIn sub email isAdminGroup read)
  | .register defaultRole sub username email isAdminGroup =>
      orKeep db (commit (db.users ++ [newcomer defaultRole sub username email isAdminGroup db]))

/-! ## Nothing in between -/

section Uninterrupted

variable {hash : String → String} {db : Db} {admin : User} {r : Request}

/-- The account is read as it is. -/
theorem readUser_eq (hadmin : admin ∈ db.users) (id : Nat) :
    readUser db admin id = db.users.find? (·.id = id) := by
  unfold readUser
  split
  · rename_i hid
    rw [hid]
    exact (find?_key db.unique.ids hadmin).symm
  · rfl

/-- A row that nobody has written since it was read becomes the edited one. -/
theorem flush_self {read new : User} (hid : new.id = read.id)
    (hname : new.username = read.username) : flush read new read = new := by
  cases read
  cases new
  simp only [flush] at *
  subst hid hname
  congr <;> split <;> simp_all

/-- With nothing in between, the whole row is what is put. -/
theorem putFlushed_self {read new : User} (hread : db.users.find? (·.id = read.id) = some read)
    (hid : new.id = read.id) (hname : new.username = read.username) :
    putFlushed db read new = orKeep db (commit (putRow (·.id) new db.users)) := by
  simp only [putFlushed, hread, flush_self hid hname]

/-- An update that nothing comes between is `update_user`. -/
theorem committed_update {id : Nat} {data : UserUpdate} (hadmin : admin ∈ db.users)
    (h : check hash db admin (.update id data) = .ok r) :
    committed db r = orKeep db (updateUser hash admin.id id data db) := by
  simp only [check, readUser_eq hadmin] at h
  split at h
  · cases h
  · rename_i user hfind
    have huser : user ∈ db.users := List.mem_of_find?_eq_some hfind
    split at h
    · cases h
    · rename_i hallowed
      split at h
      · cases h
      · rename_i new hedit
        obtain rfl := Except.ok.inj h
        have hname : new.username = user.username := by
          unfold editedUser at hedit
          split at hedit
          · rw [← Option.some.inj hedit]
          · cases hedit
        have hput := putFlushed_self (find?_key db.unique.ids huser) (editedUser_some hedit).1 hname
        refine hput.trans ?_
        unfold ForbiddenToSelf at hallowed
        simp only [updateUser, hfind, if_neg hallowed, hedit]

/-- A deletion that nothing comes between is `delete_user`. -/
theorem committed_delete {id : Nat} (hadmin : admin ∈ db.users)
    (h : check hash db admin (.delete id) = .ok r) :
    committed db r = orKeep db (deleteUser admin.id id db) := by
  simp only [check, readUser_eq hadmin] at h
  split at h
  · cases h
  · rename_i user hfind
    have hid : user.id = id := by simpa using List.find?_some hfind
    split at h
    · cases h
    · rename_i hother
      obtain rfl := Except.ok.inj h
      simp only [committed, deleteUser, hfind, if_neg hother]
      rw [hid]

end Uninterrupted

/-! ## The system -/

structure State where
  db : Db
  requests : List Request

inductive Event where
  | bootstrap (username password : String)
  | create (payload : UserCreate)
  /-- A request with a token of `caller` arrives. -/
  | authorise (caller : Nat) (op : Op)
  | check (i : Nat)
  | callback (settings : Settings) (token : Except String Claims)
  | commit (i : Nat)

namespace State

variable (s : State)

/-- A request that goes on, or is answered with an error. -/
def goOn : Except HttpError Request → State
  | .ok r => { s with requests := s.requests ++ [r] }
  | .error _ => s

variable (hash : String → String)

def step : Event → State
  | .bootstrap username password =>
      { s with db := orKeep s.db (bootstrapAdmin hash username password s.db) }
  | .create payload => { s with db := orKeep s.db (createUser hash payload s.db) }
  | .authorise caller op =>
      match s.db.users.find? (·.id = caller) with
      | none => s
      | some admin =>
          if IsAdmin admin then { s with requests := s.requests ++ [.authorised admin op] } else s
  | .check i =>
      match s.requests[i]? with
      | some (.authorised admin op) =>
          { s with requests := s.requests.eraseIdx i }.goOn (LastAdmin.check hash s.db admin op)
      | _ => s
  | .callback settings token => s.goOn (readCallback settings token s.db)
  | .commit i =>
      match s.requests[i]? with
      | none | some (.authorised _ _) => s
      | some r => { db := committed s.db r, requests := s.requests.eraseIdx i }

end State

/-! ## The law -/

/-- When a request that drops or deletes an account commits, another account is an
administrator: its caller or a third one. -/
def Left (s : State) : Event → Prop
  | .commit i =>
      match s.requests[i]? with
      | some (.edit _ read new _ _) => Drops read new → OtherAdmin s.db read.id
      | some (.remove _ target _) => OtherAdmin s.db target
      | _ => True
  | _ => True

/-- When a request that drops or deletes an account commits, its caller is still an
administrator. -/
def CallersStay (s : State) : Event → Prop
  | .commit i =>
      match s.requests[i]? with
      | some (.edit caller read new _ _) =>
          Drops read new → ∃ u ∈ s.db.users, IsAdmin u ∧ u.id = caller
      | some (.remove caller _ _) => ∃ u ∈ s.db.users, IsAdmin u ∧ u.id = caller
      | _ => True
  | _ => True

/-! ## What a commit leaves -/

section Commit

variable {db : Db} {read new current : User}

/-- An account that does not drop stays an administrator. -/
theorem flush_isAdmin (hkeeps : ¬ Drops read new) (h : IsAdmin current) :
    IsAdmin (flush read new current) := by
  obtain ⟨hrole, hactive⟩ := not_or.mp hkeeps
  constructor
  · by_cases hsame : new.role = read.role
    · simpa [flush, hsame] using h.1
    · have hadmin : new.role = .admin := by
        by_contra hother
        exact hrole ⟨hsame, hother⟩
      exact (if_neg hsame).trans hadmin
  · by_cases hsame : new.isActive = read.isActive
    · simpa [flush, hsame] using h.2
    · have hon : new.isActive = true := by
        by_contra hoff
        exact hactive ⟨hsame, Bool.not_eq_true _ ▸ hoff⟩
      exact (if_neg hsame).trans hon

/-- An account that drops its role is no administrator. -/
theorem not_isAdmin_flush (hdrops : Drops read new) : ¬ IsAdmin (flush read new current) := by
  rintro ⟨hrole, hactive⟩
  rcases hdrops with ⟨hchanged, hother⟩ | ⟨hchanged, hoff⟩
  · simp only [flush, if_neg hchanged] at hrole
    exact hother hrole
  · simp only [flush, if_neg hchanged] at hactive
    rw [hoff] at hactive
    cases hactive

/-- Accounts that are told apart are stored. -/
theorem orKeep_commit {users : List User} (h : Unique users) :
    (orKeep db (commit users)).users = users := by
  rw [commit, dif_pos h]
  rfl

/-- A row in the place of one with its username and subject breaks no constraint. -/
theorem unique_put (hsame : ∀ u ∈ db.users, u.id = new.id →
    new.username = u.username ∧ new.oidcSub = u.oidcSub) :
    Unique (putRow (·.id) new db.users) := by
  have husername : (putRow (·.id) new db.users).map (·.username) = db.users.map (·.username) := by
    rw [putRow, List.map_map]
    refine List.map_congr_left fun u hu => ?_
    by_cases hid : u.id = new.id
    · simp [hid, (hsame u hu hid).1]
    · simp [hid]
  have hsubject : (putRow (·.id) new db.users).filterMap (·.oidcSub) =
      db.users.filterMap (·.oidcSub) := by
    rw [putRow, List.filterMap_map]
    refine List.filterMap_congr fun u hu => ?_
    by_cases hid : u.id = new.id
    · simp [hid, (hsame u hu hid).2]
    · simp [hid]
  refine ⟨nodup_putRow db.unique.ids new, ?_, ?_⟩
  · rw [husername]
    exact db.unique.usernames
  · rw [hsubject]
    exact db.unique.subjects

/-- Fewer accounts are still told apart. -/
theorem unique_filter (keep : User → Bool) : Unique (db.users.filter keep) where
  ids := nodup_filter db.unique.ids keep
  usernames := nodup_filter db.unique.usernames keep
  subjects := db.unique.subjects.sublist (List.filter_sublist.filterMap _)

/-- A flush that keeps what makes an administrator, whether or not it succeeds. -/
theorem hasAdmin_putFlushed (h : HasAdmin db) (hkeeps : ¬ Drops read new) :
    HasAdmin (putFlushed db read new) := by
  unfold putFlushed
  split
  · exact h
  · rename_i current hfind
    by_cases hunique : Unique (putRow (·.id) (flush read new current) db.users)
    · have hcurrent : current ∈ db.users := List.mem_of_find?_eq_some hfind
      have hkey : (flush read new current).id ∈ db.users.map (·.id) :=
        List.mem_map_of_mem (f := (·.id)) hcurrent
      obtain ⟨u, hu, hadmin⟩ := h
      unfold HasAdmin
      rw [orKeep_commit hunique]
      by_cases hid : u.id = current.id
      · obtain rfl := eq_of_id hcurrent hu hid
        exact ⟨_, (mem_putRow hkey).mpr (.inl rfl), flush_isAdmin hkeeps hadmin⟩
      · exact ⟨u, (mem_putRow hkey).mpr (.inr ⟨hu, hid⟩), hadmin⟩
    · rw [commit, dif_neg hunique]
      exact h

/-- **A flush that drops an account** leaves an administrator exactly if there is another. -/
theorem hasAdmin_dropped_iff (h : HasAdmin db) (hsubject : new.oidcSub = read.oidcSub)
    (hdrops : Drops read new) :
    HasAdmin (putFlushed db read new) ↔ OtherAdmin db read.id := by
  unfold putFlushed
  cases hfind : db.users.find? (·.id = read.id) with
  | none =>
      refine iff_of_true h ?_
      obtain ⟨u, hu, hadmin⟩ := h
      have hother := List.find?_eq_none.mp hfind u hu
      exact ⟨u, hu, hadmin, by simpa using hother⟩
  | some current =>
      have hcurrent : current ∈ db.users := List.mem_of_find?_eq_some hfind
      have hid : current.id = read.id := by simpa using List.find?_some hfind
      have hkey : (flush read new current).id ∈ db.users.map (·.id) :=
        List.mem_map_of_mem (f := (·.id)) hcurrent
      have hunique : Unique (putRow (·.id) (flush read new current) db.users) := by
        refine unique_put fun u hu hsame => ?_
        obtain rfl := eq_of_id hcurrent hu hsame
        exact ⟨rfl, by simp [flush, hsubject]⟩
      unfold HasAdmin OtherAdmin
      rw [orKeep_commit hunique]
      constructor
      · rintro ⟨u, hu, hadmin⟩
        rcases (mem_putRow hkey).mp hu with rfl | ⟨hold, hne⟩
        · exact absurd hadmin (not_isAdmin_flush hdrops)
        · exact ⟨u, hold, hadmin, hid ▸ hne⟩
      · rintro ⟨u, hu, hadmin, hne⟩
        exact ⟨u, (mem_putRow hkey).mpr (.inr ⟨hu, hid ▸ hne⟩), hadmin⟩

/-- After a deletion there is an administrator exactly when there was another one. -/
theorem hasAdmin_deleted_iff (target : Nat) :
    HasAdmin (orKeep db (commit (db.users.filter (·.id ≠ target)))) ↔ OtherAdmin db target := by
  unfold HasAdmin OtherAdmin
  rw [orKeep_commit (unique_filter _)]
  constructor
  · rintro ⟨u, hu, hadmin⟩
    obtain ⟨hold, hne⟩ := List.mem_filter.mp hu
    exact ⟨u, hold, hadmin, of_decide_eq_true hne⟩
  · rintro ⟨u, hu, hadmin, hne⟩
    exact ⟨u, List.mem_filter.mpr ⟨hu, decide_eq_true hne⟩, hadmin⟩

/-- More rows lose no administrator. -/
theorem hasAdmin_append (h : HasAdmin db) (rows : List User) :
    HasAdmin (orKeep db (commit (db.users ++ rows))) := by
  by_cases hunique : Unique (db.users ++ rows)
  · obtain ⟨u, hu, hadmin⟩ := h
    unfold HasAdmin
    rw [orKeep_commit hunique]
    exact ⟨u, List.mem_append_left _ hu, hadmin⟩
  · rw [commit, dif_neg hunique]
    exact h

/-- A callback promotes or leaves the role alone. -/
theorem not_drops_signedIn (sub : String) (email : Option String) (isAdminGroup : Bool) :
    ¬ Drops read (signedIn sub email isAdminGroup read) := by
  rintro (⟨hchanged, hother⟩ | ⟨hchanged, -⟩)
  · cases isAdminGroup with
    | true => exact hother rfl
    | false => exact hchanged rfl
  · exact hchanged rfl

end Commit

/-! ## Steps and runs -/

section Runs

variable (hash : String → String)

/-- **One step leaves an administrator exactly when it finds another one** than the account
it drops or deletes. -/
theorem hasAdmin_step_iff (s : State) (e : Event) (h : HasAdmin s.db) :
    HasAdmin (s.step hash e).db ↔ Left s e := by
  cases e with
  | bootstrap username password =>
      refine iff_of_true ?_ trivial
      have hne : s.db.users ≠ [] := List.ne_nil_of_mem h.choose_spec.1
      simp only [State.step, bootstrapAdmin, if_neg hne]
      exact h
  | create payload =>
      refine iff_of_true ?_ trivial
      simp only [State.step, createUser]
      split
      · exact h
      · exact hasAdmin_append h _
  | authorise caller op =>
      refine iff_of_true ?_ trivial
      simp only [State.step]
      split
      · exact h
      · split <;> exact h
  | check i =>
      refine iff_of_true ?_ trivial
      simp only [State.step]
      split
      · unfold State.goOn
        split <;> exact h
      · exact h
  | callback settings token =>
      refine iff_of_true ?_ trivial
      simp only [State.step, State.goOn]
      split <;> exact h
  | commit i =>
      simp only [State.step, Left]
      cases hrequest : s.requests[i]? with
      | none => exact iff_of_true h trivial
      | some r =>
          cases r with
          | authorised admin op => exact iff_of_true h trivial
          | edit caller read new hsubject hself =>
              by_cases hdrops : Drops read new
              · refine (hasAdmin_dropped_iff h hsubject hdrops).trans ?_
                exact (imp_iff_right hdrops).symm
              · exact iff_of_true (hasAdmin_putFlushed h hdrops) fun hdrops' => absurd hdrops' hdrops
          | remove caller target hself => exact hasAdmin_deleted_iff target
          | signIn read sub email isAdminGroup =>
              exact iff_of_true (hasAdmin_putFlushed h (not_drops_signedIn sub email isAdminGroup))
                trivial
          | register defaultRole sub username email isAdminGroup =>
              exact iff_of_true (hasAdmin_append h _) trivial

/-- The caller of a request is not its target, so a caller that stays is another
administrator. -/
theorem left_of_callersStay (s : State) (e : Event) (h : CallersStay s e) : Left s e := by
  cases e with
  | commit i =>
      simp only [CallersStay, Left] at h ⊢
      cases hrequest : s.requests[i]? with
      | none => trivial
      | some r =>
          rw [hrequest] at h
          cases r with
          | edit caller read new hsubject hself =>
              intro hdrops
              obtain ⟨u, hu, hadmin, rfl⟩ := h hdrops
              exact ⟨u, hu, hadmin, hself hdrops⟩
          | remove caller target hself =>
              obtain ⟨u, hu, hadmin, rfl⟩ := h
              exact ⟨u, hu, hadmin, hself⟩
          | _ => trivial
  | _ => trivial

/-- **An administrator is left throughout exactly the runs in which each request that drops
or deletes an account finds another administrator when it commits**; it is enough that the
callers of these requests still are administrators then. -/
theorem admin_left_iff (s : State) (events : List Event) (h : HasAdmin s.db) :
    (Throughout (State.step · hash) (fun s => HasAdmin s.db) s events ↔
      Along (State.step · hash) Left s events) ∧
    (Along (State.step · hash) CallersStay s events →
      Throughout (State.step · hash) (fun s => HasAdmin s.db) s events) := by
  have hiff := throughout_iff_along (State.step · hash)
    (fun s e (hs : HasAdmin s.db) => hasAdmin_step_iff hash s e hs) h events
  refine ⟨hiff, fun hstay => hiff.mpr ?_⟩
  exact along_mono (State.step · hash) left_of_callersStay hstay

end Runs

/-! ## Two administrators -/

def administrator (id : Nat) (username : String) : User :=
  ⟨id, username, none, some "hash", .admin, true, none⟩

/-- Two administrators and no request under way. -/
def twoAdmins : State where
  db := ⟨[administrator 1 "anna", administrator 2 "ben"], by decide⟩
  requests := []

def demotion : UserUpdate := ⟨none, some (some .viewer), none, none⟩

/-- The first administrator demotes the second. -/
def oneDemotes : List Event := [.authorise 1 (.update 2 demotion), .check 0, .commit 0]

/-- Each demotes the other, and both are checked before either commits. -/
def bothDemote : List Event :=
  [.authorise 1 (.update 2 demotion), .authorise 2 (.update 1 demotion), .check 0, .check 0,
    .commit 0, .commit 0]

theorem hasAdmin_twoAdmins : HasAdmin twoAdmins.db :=
  ⟨administrator 1 "anna", List.mem_cons_self, by decide⟩

/-- The theorem applies where one of two gives up. -/
theorem admin_left_after_one :
    Throughout (State.step · id) (fun s => HasAdmin s.db) twoAdmins oneDemotes := by
  refine (admin_left_iff id twoAdmins oneDemotes hasAdmin_twoAdmins).2 ⟨trivial, trivial, ?_, trivial⟩
  intro _
  exact ⟨administrator 1 "anna", List.mem_cons_self, by decide, rfl⟩

/-- There are runs that leave no administrator. -/
theorem no_admin_left :
    ¬ ∀ (hash : String → String) (s : State) (events : List Event), HasAdmin s.db →
      Throughout (State.step · hash) (fun s => HasAdmin s.db) s events := by
  intro h
  obtain ⟨u, hu, hadmin⟩ :=
    throughout_last (State.step · id) (h id twoAdmins bothDemote hasAdmin_twoAdmins)
  have hnone : ∀ u ∈ (after (State.step · id) twoAdmins bothDemote).db.users, ¬ IsAdmin u := by
    decide +kernel
  exact hnone u hu hadmin

end AdguardAdmin.LastAdmin
