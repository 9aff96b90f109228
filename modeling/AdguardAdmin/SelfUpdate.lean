import AdguardAdmin.FileSystem
import AdguardAdmin.GoText
import AdguardAdmin.PyText
import AdguardAdmin.RunLaws
/-!
# The agent replaces its own binary

A call downloads a binary, compares its checksum, writes it to a file beside the
executable, asks that file for its version and renames it over the executable.  The file
has the same name for every call, and nothing keeps two calls apart: what is renamed is
whatever that name leads to.

* `exclusive_calls_install_verified` — as long as no call opens the file while another
  one is not done with it, the executable is what it was or a verified binary;
* `truncated_file_is_installed` — two calls are enough to install an empty file.
-/

namespace AdguardAdmin.SelfUpdate

open RunLaws GoText

abbrev Body := List UInt8

/-! ## Requests -/

/-- The body of a request. -/
structure Request where
  version : String
  url : String
  sha256 : String
  deriving DecidableEq, Repr

structure Response where
  ok : Bool
  version : String
  restarting : Bool
  message : String
  deriving DecidableEq, Repr

/-- A failure with its HTTP status. -/
structure Failure where
  status : Nat
  err : GoText.Error
  deriving DecidableEq, Repr

/-- The agent: its version, where its binary is, and what it takes from the standard
library and from the host. -/
structure Updater where
  version : String
  exe : String
  underSystemd : Bool
  toLower : String → String
  /-- The scheme and the host of a URL. -/
  parseUrl : String → Option (String × String)
  /-- The checksum in hex. -/
  sha256 : Body → String
  /-- What a binary prints as its version, or `none` when it does not run. -/
  reports : Body → Option String

/-- How a download ends. -/
inductive Download where
  | notLocated (err : String)
  | notRequested (err : String)
  | failed (err : String)
  | answered (status : Nat) (body : Body)
  | interrupted (err : String)
  deriving DecidableEq, Repr

def maxSize : Nat := 64 * 1024 * 1024

/-- `strings.TrimSpace`. -/
def trimSpace (s : String) : String :=
  String.ofList (PyText.stripBy
    (fun c => PyText.isSpace c && !(0x1c ≤ c.toNat && c.toNat ≤ 0x1f)) s.toList)

def isHexDigit (c : Char) : Bool :=
  c.isDigit || ('a' ≤ c && c ≤ 'f') || ('A' ≤ c && c ≤ 'F')

def fail {α : Type} (status : Nat) (format : String) (args : List String) : Except Failure α :=
  .error ⟨status, ⟨format, args⟩⟩

def failIf (p : Prop) [Decidable p] (status : Nat) (format : String) (args : List String) :
    Except Failure Unit :=
  if p then fail status format args else .ok ()

variable (u : Updater)

/-- The request as it is used. -/
def Updater.normal (req : Request) : Request :=
  { req with
    version := trimSpace req.version
    sha256 := u.toLower (trimSpace req.sha256) }

def Updater.checkRequest (req : Request) : Except Failure Unit := do
  failIf (req.version = "") 400 "version is required" []
  failIf (req.sha256.utf8ByteSize ≠ 64) 400 "sha256 must be 64 hex characters" []
  failIf (req.sha256.toList.all isHexDigit = false) 400 "sha256 must be hex" []
  failIf ((u.parseUrl req.url).all (fun (scheme, host) =>
    (scheme ≠ "http" && scheme ≠ "https") || host = "")) 400 "url must be an http(s) URL" []
  failIf (req.version = u.version) 409 "already running version %s" [u.version]

def download : Download → Except Failure Body
  | .notLocated err => fail 500 "locate executable: %w" [err]
  | .notRequested err => fail 400 "%w" [err]
  | .failed err => fail 502 "download: %w" [err]
  | .interrupted err => fail 502 "download: %w" [err]
  | .answered status body =>
      if status ≠ 200 then fail 502 "download: HTTP %d" [toString status]
      else if maxSize < body.length then fail 502 "download exceeds %d bytes" [toString maxSize]
      else .ok body

/-- What comes before the first file operation. -/
def Updater.fetch (req : Request) (d : Download) : Except Failure Body := do
  u.checkRequest req
  let body ← download d
  failIf (u.sha256 body ≠ req.sha256) 409 "checksum mismatch: downloaded %s, expected %s"
    [u.sha256 body, req.sha256]
  return body

/-! ## Calls -/

/-- The next operation of a call. -/
inductive Phase where
  | opening
  | writing (fd : Nat)
  | chmodding (fd : Nat)
  | closing (fd : Nat)
  | probing
  | renaming
  | removing (e : Failure)
  | done (reply : Except Failure Response)

/-- A call, with what it has shown of its binary and whether an operation of its own has
changed the executable. -/
structure Call where
  version : String
  sha256 : String
  body : Body
  phase : Phase
  probed : Bool
  changed : Bool

structure Host where
  fs : FileSystem String UInt8
  calls : List Call

/-- How an operation ends; a write that fails may have written a part. -/
inductive Outcome where
  | done
  | failed (err : String) (written : Nat)
  deriving DecidableEq, Repr

inductive Event where
  | request (req : Request) (d : Download)
  | operation (k : Nat) (o : Outcome)
  deriving DecidableEq, Repr

/-- The file beside the executable. -/
def Updater.tmp : String := u.exe ++ ".new"

def Updater.installed (c : Call) : Response where
  ok := true
  version := c.version
  restarting := u.underSystemd
  message := if u.underSystemd then ""
    else "binary replaced; restart the agent by hand (not running under systemd)"

/-- What the probe makes of the file it finds. -/
def Updater.judge (c : Call) (found : Option Body) : Except Failure Unit :=
  match found.bind u.reports with
  | none => fail 409 "downloaded binary does not run: %w" []
  | some reported =>
      if reported = c.version then .ok ()
      else fail 409 "downloaded binary reports version %q, expected %q" [reported, c.version]

/-- One operation of a call. -/
def Updater.operate (fs : FileSystem String UInt8) (c : Call) (o : Outcome) :
    FileSystem String UInt8 × Call :=
  let goes (phase : Phase) : Call := { c with phase := phase }
  let gives (status : Nat) (format : String) (args : List String) : Call :=
    goes (.removing ⟨status, ⟨format, args⟩⟩)
  match c.phase, o with
  | .opening, .done => ((fs.openTrunc u.tmp).1, goes (.writing (fs.openTrunc u.tmp).2))
  | .opening, .failed err _ => (fs, goes (.done (fail 500 "write %s: %w" [u.tmp, err])))
  | .writing fd, .done => (fs.write fd c.body, goes (.chmodding fd))
  | .writing fd, .failed err written =>
      (fs.write fd (c.body.take written), gives 500 "write %s: %w" [u.tmp, err])
  | .chmodding fd, .done => (fs, goes (.closing fd))
  | .chmodding _, .failed err _ => (fs, gives 500 "%w" [err])
  | .closing _, .done => (fs, goes .probing)
  | .closing _, .failed err _ => (fs, gives 500 "%w" [err])
  | .probing, .done =>
      match u.judge c (fs.content u.tmp) with
      | .ok () => (fs, { c with phase := .renaming, probed := true })
      | .error e => (fs, goes (.removing e))
  | .probing, .failed err _ => (fs, gives 409 "downloaded binary does not run: %w" [err])
  | .renaming, .done =>
      match fs.rename u.tmp u.exe with
      | some fs' => (fs', goes (.done (.ok (u.installed c))))
      | none => (fs, gives 500 "replace %s: %w" [u.exe, "no such file"])
  | .renaming, .failed err _ => (fs, gives 500 "replace %s: %w" [u.exe, err])
  | .removing e, .done => (fs.remove u.tmp, goes (.done (.error e)))
  | .removing e, .failed _ _ => (fs, goes (.done (.error e)))
  | .done _, _ => (fs, c)

def Updater.newCall (req : Request) (d : Download) : Call :=
  let req := u.normal req
  match u.fetch req d with
  | .ok body => ⟨req.version, req.sha256, body, .opening, false, false⟩
  | .error e => ⟨req.version, req.sha256, [], .done (.error e), false, false⟩

/-- An operation is charged to its call when the executable reads differently after it. -/
def Updater.step (s : Host) (e : Event) : Host :=
  match e with
  | .request req d => { s with calls := s.calls ++ [u.newCall req d] }
  | .operation k o =>
      match s.calls[k]? with
      | none => s
      | some c =>
          let (fs, c') := u.operate s.fs c o
          let changed := c.changed || fs.content u.exe ≠ s.fs.content u.exe
          ⟨fs, s.calls.set k { c' with changed := changed }⟩

/-- An agent whose executable holds `original`; a file may be left from an earlier run. -/
def Updater.Starts (s : Host) (original : Body) : Prop :=
  s.fs.content u.exe = some original ∧ s.fs.Apart u.tmp u.exe ∧ s.calls = []

/-! ## What is promised -/

/-- The whole body of a call whose checksum matched and whose probe gave its version. -/
def Updater.Verified (s : Host) (b : Body) : Prop :=
  ∃ c ∈ s.calls, c.body = b ∧ u.sha256 c.body = c.sha256 ∧ c.probed = true

structure Updater.Safe (original : Body) (s : Host) : Prop where
  executable : s.fs.content u.exe = some original ∨
    ∃ b, s.fs.content u.exe = some b ∧ u.Verified s b
  blameless : ∀ c ∈ s.calls, ∀ e, c.phase = .done (.error e) → c.changed = false

/-- The call is not done with the file. -/
def Phase.usesTemp : Phase → Bool
  | .opening | .done _ => false
  | _ => true

/-- A call opens the file when no other one is using it. -/
def Exclusive (s : Host) : Event → Prop
  | .request _ _ => True
  | .operation k _ => ∀ c ∈ s.calls[k]?, c.phase = .opening →
      ∀ d ∈ s.calls, d.phase.usesTemp = false

instance (phase : Phase) : Decidable (phase = .opening) :=
  match phase with
  | .opening => isTrue rfl
  | .writing _ | .chmodding _ | .closing _ | .probing | .renaming | .removing _ | .done _ =>
      isFalse nofun

instance (s : Host) : DecidablePred (Exclusive s)
  | .request _ _ => isTrue trivial
  | .operation k _ => inferInstanceAs (Decidable (∀ c ∈ s.calls[k]?, _ → _))

/-! ## One operation -/

section Operations

variable {u}

/-- The temporary file is not the executable. -/
theorem exe_ne_tmp : u.exe ≠ u.tmp := by
  intro h
  have hlength := congrArg String.length h
  simp [Updater.tmp] at hlength

/-- What a call has achieved so far, as long as nobody else touches the file. -/
def Updater.Holds (u : Updater) (fs : FileSystem String UInt8) (c : Call) : Prop :=
  match c.phase with
  | .opening | .removing _ | .done _ => True
  | .writing fd => fs.names u.tmp = some fd ∧ fs.files fd = []
  | .chmodding fd | .closing fd => fs.names u.tmp = some fd ∧ fs.files fd = c.body
  | .probing => fs.content u.tmp = some c.body
  | .renaming => fs.content u.tmp = some c.body ∧ c.probed = true

/-- What an operation of `c` leaves, when it becomes `c'`. -/
structure Updater.Advances (u : Updater) (fs fs' : FileSystem String UInt8) (c c' : Call) :
    Prop where
  same : c'.body = c.body ∧ c'.sha256 = c.sha256 ∧ c'.changed = c.changed
  probed : c.probed = true → c'.probed = true
  alive : (∀ e, c'.phase ≠ .done (.error e)) → ∀ e, c.phase ≠ .done (.error e)
  apart : fs'.Apart u.tmp u.exe
  holds : u.Holds fs' c'
  frame : c.phase.usesTemp = true ∨ c.phase = .opening ∨ fs' = fs ∧ c'.phase.usesTemp = false
  executable : fs'.content u.exe = fs.content u.exe ∨
    fs'.content u.exe = some c.body ∧ c'.probed = true ∧ ∃ r, c'.phase = .done (.ok r)

/-- A call that is under way has not failed. -/
theorem not_done {c : Call} (h : c.phase.usesTemp = true ∨ c.phase = .opening) (e : Failure) :
    c.phase ≠ .done (.error e) := by
  intro hdone
  rw [hdone] at h
  rcases h with h | h <;> cases h

/-- Operations that do not touch the files. -/
theorem advances_same {fs : FileSystem String UInt8} {c : Call} {phase : Phase}
    (hactive : c.phase.usesTemp = true ∨ c.phase = .opening) (hapart : fs.Apart u.tmp u.exe)
    (hholds : u.Holds fs { c with phase := phase }) :
    u.Advances fs fs c { c with phase := phase } where
  same := ⟨rfl, rfl, rfl⟩
  probed := id
  alive _ := not_done hactive
  apart := hapart
  holds := hholds
  frame := hactive.imp_right .inl
  executable := .inl rfl

/-- A write goes to the file beside the executable. -/
theorem advances_write {fs : FileSystem String UInt8} {c : Call} {fd : Nat} {bytes : Body}
    {phase : Phase} (hphase : c.phase = .writing fd) (hapart : fs.Apart u.tmp u.exe)
    (hname : fs.names u.tmp = some fd)
    (hholds : u.Holds (fs.write fd bytes) { c with phase := phase }) :
    u.Advances fs (fs.write fd bytes) c { c with phase := phase } where
  same := ⟨rfl, rfl, rfl⟩
  probed := id
  alive _ := not_done (.inl (by rw [hphase]; rfl))
  apart := hapart
  holds := hholds
  frame := .inl (by rw [hphase]; rfl)
  executable := .inl (FileSystem.write_content bytes (hapart fd hname))

/-- One operation of a call advances it. -/
theorem operate_advances {fs : FileSystem String UInt8} {c : Call} {o : Outcome}
    (hapart : fs.Apart u.tmp u.exe) (hholds : u.Holds fs c) :
    u.Advances fs (u.operate fs c o).1 c (u.operate fs c o).2 := by
  unfold Updater.Holds at hholds
  unfold Updater.operate
  dsimp only
  split
  · -- the file is created, or emptied
    rename_i hphase
    exact
      { same := ⟨rfl, rfl, rfl⟩
        probed := id
        alive := fun _ => not_done (.inr hphase)
        apart := hapart.openTrunc exe_ne_tmp
        holds := ⟨FileSystem.openTrunc_names_self, FileSystem.openTrunc_files_self⟩
        frame := .inr (.inl hphase)
        executable := .inl (FileSystem.openTrunc_content hapart exe_ne_tmp) }
  · rename_i hphase
    exact advances_same (.inr hphase) hapart trivial
  · rename_i fd hphase
    rw [hphase] at hholds
    refine advances_write hphase hapart hholds.1 ⟨hholds.1, ?_⟩
    simp [hholds.2]
  · rename_i fd err written hphase
    rw [hphase] at hholds
    exact advances_write hphase hapart hholds.1 trivial
  · rename_i fd hphase
    rw [hphase] at hholds
    exact advances_same (.inl (by rw [hphase]; rfl)) hapart hholds
  · rename_i fd err _ hphase
    exact advances_same (.inl (by rw [hphase]; rfl)) hapart trivial
  · rename_i fd hphase
    rw [hphase] at hholds
    refine advances_same (.inl (by rw [hphase]; rfl)) hapart ?_
    change fs.content u.tmp = some c.body
    simp [FileSystem.content, hholds.1, hholds.2]
  · rename_i fd err _ hphase
    exact advances_same (.inl (by rw [hphase]; rfl)) hapart trivial
  · rename_i hphase
    rw [hphase] at hholds
    have hactive : c.phase.usesTemp = true ∨ c.phase = .opening := .inl (by rw [hphase]; rfl)
    split
    · exact
        { same := ⟨rfl, rfl, rfl⟩
          probed := fun _ => rfl
          alive := fun _ => not_done hactive
          apart := hapart
          holds := ⟨hholds, rfl⟩
          frame := hactive.imp_right .inl
          executable := .inl rfl }
    · exact advances_same hactive hapart trivial
  · rename_i err _ hphase
    exact advances_same (.inl (by rw [hphase]; rfl)) hapart trivial
  · rename_i hphase
    rw [hphase] at hholds
    have hactive : c.phase.usesTemp = true ∨ c.phase = .opening := .inl (by rw [hphase]; rfl)
    split
    · -- what is renamed is what was probed
      rename_i fs' hrename
      obtain ⟨hexe, htmp⟩ := FileSystem.rename_eq_some exe_ne_tmp hrename
      exact
        { same := ⟨rfl, rfl, rfl⟩
          probed := id
          alive := fun _ => not_done hactive
          apart := fun n hn => by rw [htmp] at hn; cases hn
          holds := trivial
          frame := hactive.imp_right .inl
          executable := .inr ⟨hexe.trans hholds.1, hholds.2, u.installed c, rfl⟩ }
    · exact advances_same hactive hapart trivial
  · rename_i err _ hphase
    exact advances_same (.inl (by rw [hphase]; rfl)) hapart trivial
  · rename_i e hphase
    have hactive : c.phase.usesTemp = true ∨ c.phase = .opening := .inl (by rw [hphase]; rfl)
    exact
      { same := ⟨rfl, rfl, rfl⟩
        probed := id
        alive := fun _ => not_done hactive
        apart := fun n hn => by rw [FileSystem.remove_names_self] at hn; cases hn
        holds := trivial
        frame := hactive.imp_right .inl
        executable := .inl (FileSystem.remove_content exe_ne_tmp) }
  · rename_i e err _ hphase
    exact advances_same (.inl (by rw [hphase]; rfl)) hapart trivial
  · rename_i reply hphase
    exact
      { same := ⟨rfl, rfl, rfl⟩
        probed := id
        alive := id
        apart := hapart
        holds := by simp [Updater.Holds, hphase]
        frame := .inr (.inr ⟨rfl, by rw [hphase]; rfl⟩)
        executable := .inl rfl }

/-- A call that is done does nothing more. -/
theorem operate_done {fs : FileSystem String UInt8} {c : Call} {o : Outcome}
    {reply : Except Failure Response} (h : c.phase = .done reply) :
    u.operate fs c o = (fs, c) := by
  unfold Updater.operate
  simp only [h]

/-- A call that is not using the file has nothing to lose by it. -/
theorem holds_of_idle {fs : FileSystem String UInt8} {c : Call} (h : c.phase.usesTemp = false) :
    u.Holds fs c := by
  unfold Updater.Holds
  split <;> simp_all [Phase.usesTemp]

/-- What is fetched has the checksum of the request. -/
theorem fetch_ok {req : Request} {d : Download} {body : Body} (h : u.fetch req d = .ok body) :
    u.sha256 body = req.sha256 := by
  unfold Updater.fetch at h
  simp only [bind_ok] at h
  obtain ⟨_, -, body', -, _, hsum, heq⟩ := h
  cases heq
  unfold failIf at hsum
  split at hsum
  · cases hsum
  · rename_i hsame
    exact not_not.mp hsame

end Operations

/-! ## Calls one after the other -/

/-- What holds as long as one call at a time uses the file. -/
structure Updater.Orderly (u : Updater) (original : Body) (s : Host) : Prop where
  apart : s.fs.Apart u.tmp u.exe
  single : ∀ (j k : Nat) (c d : Call), s.calls[j]? = some c → s.calls[k]? = some d →
    c.phase.usesTemp = true → d.phase.usesTemp = true → j = k
  holds : ∀ c ∈ s.calls, u.Holds s.fs c
  checked : ∀ c ∈ s.calls, (∀ e, c.phase ≠ .done (.error e)) → u.sha256 c.body = c.sha256
  unchanged : ∀ c ∈ s.calls, c.changed = true → ∃ r, c.phase = .done (.ok r)
  executable : s.fs.content u.exe = some original ∨
    ∃ b, s.fs.content u.exe = some b ∧ u.Verified s b

section Orderly

variable {u} {original : Body} {s : Host}

/-- An orderly host is safe. -/
theorem Updater.Orderly.safe (h : u.Orderly original s) : u.Safe original s where
  executable := h.executable
  blameless c hc e hphase := by
    by_contra hchanged
    obtain ⟨r, hr⟩ := h.unchanged c hc (by simpa using hchanged)
    rw [hphase] at hr
    cases hr

/-- A host that starts is orderly. -/
theorem orderly_start (h : u.Starts s original) : u.Orderly original s := by
  obtain ⟨hexe, hapart, hnone⟩ := h
  exact
    { apart := hapart
      single := by simp [hnone]
      holds := by simp [hnone]
      checked := by simp [hnone]
      unchanged := by simp [hnone]
      executable := .inl hexe }

/-- A new call has done nothing. -/
theorem newCall_idle (req : Request) (d : Download) :
    (u.newCall req d).phase.usesTemp = false ∧ (u.newCall req d).changed = false := by
  unfold Updater.newCall
  dsimp only
  split <;> exact ⟨rfl, rfl⟩

/-- A new call that was not refused has a body with the right checksum. -/
theorem newCall_checked (req : Request) (d : Download)
    (h : ∀ e, (u.newCall req d).phase ≠ .done (.error e)) :
    u.sha256 (u.newCall req d).body = (u.newCall req d).sha256 := by
  unfold Updater.newCall at h ⊢
  dsimp only at h ⊢
  split
  · rename_i body hfetch
    exact fetch_ok hfetch
  · rename_i e hfetch
    simp [hfetch] at h

/-- A body stays verified while its call goes on. -/
theorem Updater.Verified.mono {t : Host} {b : Body} (h : u.Verified s b)
    (hcalls : ∀ c ∈ s.calls, ∃ c' ∈ t.calls, c'.body = c.body ∧ c'.sha256 = c.sha256 ∧
      (c.probed = true → c'.probed = true)) : u.Verified t b := by
  obtain ⟨c, hc, hbody, hsum, hprobed⟩ := h
  obtain ⟨c', hc', hbody', hsum', hprobed'⟩ := hcalls c hc
  exact ⟨c', hc', hbody'.trans hbody, by rw [hbody', hsum', hsum], hprobed' hprobed⟩

/-- A request keeps the host orderly. -/
theorem orderly_request (h : u.Orderly original s) (req : Request) (d : Download) :
    u.Orderly original (u.step s (.request req d)) := by
  obtain ⟨hidle, hunchanged⟩ := newCall_idle (u := u) req d
  refine
    { apart := h.apart
      single := ?_
      holds := forall_mem_append h.holds (holds_of_idle hidle)
      checked := forall_mem_append h.checked (newCall_checked req d)
      unchanged := forall_mem_append h.unchanged (by simp [hunchanged])
      executable := ?_ }
  · intro j k c e hc he huse huse'
    refine single_append (P := fun c : Call => c.phase.usesTemp = true) (g := fun _ => ()) ?_
      (by simp [hidle]) hc he huse huse' rfl
    exact fun j k c e hc he huse huse' _ => h.single j k c e hc he huse huse'
  · refine h.executable.imp_right fun hb => ?_
    obtain ⟨b, hread, hverified⟩ := hb
    exact ⟨b, hread, hverified.mono fun c hc =>
      ⟨c, List.mem_append_left _ hc, rfl, rfl, id⟩⟩

/-- A call that advances keeps the host orderly. -/
theorem orderly_set (h : u.Orderly original s) {k : Nat} {c c' x : Call}
    {fs : FileSystem String UInt8} (hc : s.calls[k]? = some c)
    (hopening : c.phase = .opening → ∀ d ∈ s.calls, d.phase.usesTemp = false)
    (hadvances : u.Advances s.fs fs c c') (hx : ∃ changed, x = { c' with changed := changed })
    (hchanged : x.changed = true → ∃ r, c'.phase = .done (.ok r)) :
    u.Orderly original ⟨fs, s.calls.set k x⟩ := by
  have hmem : c ∈ s.calls := List.mem_of_getElem? hc
  have hxmem : x ∈ s.calls.set k x := List.mem_set (List.getElem?_eq_some_iff.mp hc).1 x
  obtain ⟨hbody, hsum, -⟩ := hadvances.same
  obtain ⟨changed, rfl⟩ := hx
  generalize hx : ({ c' with changed := changed } : Call) = x at hxmem hchanged ⊢
  have hxbody : x.body = c.body := by rw [← hx]; exact hbody
  have hxsum : x.sha256 = c.sha256 := by rw [← hx]; exact hsum
  have hxphase : x.phase = c'.phase := by rw [← hx]
  have hxprobed : x.probed = c'.probed := by rw [← hx]
  -- the other calls are not using the file, or it is as it was
  have hothers : ∀ (j : Nat) (d : Call), j ≠ k → s.calls[j]? = some d →
      d.phase.usesTemp = false ∨ fs = s.fs ∧ x.phase.usesTemp = false := by
    intro j d hjk hd
    rcases hadvances.frame with huses | hphase | hsame
    · cases hd' : d.phase.usesTemp with
      | false => exact .inl rfl
      | true => exact absurd (h.single j k d c hd hc hd' huses) hjk
    · exact .inl (hopening hphase d (List.mem_of_getElem? hd))
    · exact .inr (hxphase ▸ hsame)
  have hchecked : (∀ e, x.phase ≠ .done (.error e)) → u.sha256 x.body = x.sha256 := by
    intro halive
    rw [hxbody, hxsum]
    exact h.checked c hmem (hadvances.alive (hxphase ▸ halive))
  refine
    { apart := hadvances.apart
      single := ?_
      holds := forall_mem_set ?_ ?_
      checked := forall_mem_set hchecked fun j d _ hd => h.checked d (List.mem_of_getElem? hd)
      unchanged := forall_mem_set (hxphase ▸ hchanged) fun j d _ hd =>
        h.unchanged d (List.mem_of_getElem? hd)
      executable := ?_ }
  · intro i j d e hd he huse huse'
    refine single_set (P := fun c : Call => c.phase.usesTemp = true) (g := fun _ => ()) ?_ ?_ hd
      he huse huse' rfl
    · exact fun i j d e _ _ hd he huse huse' _ => h.single i j d e hd he huse huse'
    · intro j d hjk hd huse _ huse'
      rcases hothers j d hjk hd with hidle | ⟨-, hidle⟩
      · rw [hidle] at huse'
        cases huse'
      · rw [hidle] at huse
        cases huse
  · rw [← hx]
    exact hadvances.holds
  · intro j d hjk hd
    rcases hothers j d hjk hd with hidle | ⟨hsame, -⟩
    · exact holds_of_idle hidle
    · rw [hsame]
      exact h.holds d (List.mem_of_getElem? hd)
  · rcases hadvances.executable with hsame | ⟨hread, hprobed, r, hr⟩
    · rw [hsame]
      refine h.executable.imp_right fun hb => ?_
      obtain ⟨b, hread, hb⟩ := hb
      refine ⟨b, hread, hb.mono fun d hd => ?_⟩
      obtain ⟨j, hj⟩ := List.mem_iff_getElem?.mp hd
      by_cases hjk : j = k
      · subst hjk
        obtain rfl := Option.some.inj (hc.symm.trans hj)
        exact ⟨x, hxmem, hxbody, hxsum, fun hp => hxprobed.trans (hadvances.probed hp)⟩
      · refine ⟨d, List.mem_iff_getElem?.mpr ⟨j, ?_⟩, rfl, rfl, id⟩
        rw [List.getElem?_set_ne (Ne.symm hjk), hj]
    · refine .inr ⟨c.body, hread, x, hxmem, hxbody, hchecked fun e => ?_, hxprobed.trans hprobed⟩
      rw [hxphase, hr]
      simp

/-- An operation keeps the host orderly, if no other call uses the temporary file. -/
theorem orderly_operation (h : u.Orderly original s) {k : Nat} {o : Outcome}
    (hexclusive : Exclusive s (.operation k o)) :
    u.Orderly original (u.step s (.operation k o)) := by
  simp only [Updater.step]
  split
  · exact h
  · rename_i c hc
    have hmem : c ∈ s.calls := List.mem_of_getElem? hc
    have hadvances := operate_advances (o := o) h.apart (h.holds c hmem)
    refine orderly_set h hc (hexclusive c hc) hadvances ⟨_, rfl⟩ fun hchanged => ?_
    rcases Bool.or_eq_true_iff.mp hchanged with hold | hnew
    · obtain ⟨r, hr⟩ := h.unchanged c hmem hold
      exact ⟨r, by rw [operate_done hr]; exact hr⟩
    · rcases hadvances.executable with hsame | ⟨-, -, hdone⟩
      · simp [hsame] at hnew
      · exact hdone

end Orderly

/-- **One call at a time installs only what it has verified.**  In every run in which no
call opens the file while another one is using it, whatever operations fail, the
executable is what it was or the whole of a verified body, and no call that ends with an
error has changed it. -/
theorem exclusive_calls_install_verified {original : Body} {s : Host} (h : u.Starts s original)
    {events : List Event} (hrun : Along u.step Exclusive s events) :
    Throughout u.step (u.Safe original) s events := by
  refine throughout_mono _ (P := u.Orderly original) (fun _ hs => hs.safe) ?_
  refine throughout_of_invariant u.step ?_ (orderly_start h) hrun
  intro t e ht hexclusive
  cases e with
  | request req d => exact orderly_request ht req d
  | operation k o => exact orderly_operation ht hexclusive

/-! ## Two calls at a time -/

/-- A call that opens the file of one that is about to rename it makes it install nothing. -/
theorem opened_file_is_renamed_empty {fs : FileSystem String UInt8} {c d : Call}
    (hc : c.phase = .renaming) (hd : d.phase = .opening) :
    (u.operate (u.operate fs d .done).1 c .done).1.content u.exe = some [] := by
  have hopened : u.operate fs d .done =
      ((fs.openTrunc u.tmp).1, { d with phase := .writing (fs.openTrunc u.tmp).2 }) := by
    simp only [Updater.operate, hd]
  have hempty : (fs.openTrunc u.tmp).1.content u.tmp = some [] := by
    simp [FileSystem.content, FileSystem.openTrunc_names_self, FileSystem.openTrunc_files_self]
  rw [hopened]
  simp only [Updater.operate, hc]
  split
  · rename_i fs' hrename
    exact (FileSystem.rename_eq_some exe_ne_tmp hrename).1.trans hempty
  · rename_i hnone
    unfold FileSystem.rename at hnone
    split at hnone
    · cases hnone
    · rename_i hmissing
      rw [FileSystem.openTrunc_names_self] at hmissing
      cases hmissing

/-- Checksums of the texts `a` and `b`, and binaries that print their own text. -/
def agent : Updater where
  version := "1.0"
  exe := "/usr/local/bin/agent"
  underSystemd := true
  toLower := String.toLower
  parseUrl _ := some ("http", "10.0.0.1")
  sha256 body :=
    if body = [0x61] then "ca978112ca1bbdcafac231b39a23dc4da786eff8147c4e72b9807785afee48bb"
    else if body = [0x62] then "3e23e8160039594a33894f6564e1b1348bbd7a0088d42c4acb73eeaed59c009d"
    else ""
  reports body := if body = [0x61] then some "1.1" else if body = [0x62] then some "1.2" else none

def firstRequest : Event :=
  .request ⟨"1.1", "http://10.0.0.1/agent",
    "ca978112ca1bbdcafac231b39a23dc4da786eff8147c4e72b9807785afee48bb"⟩ (.answered 200 [0x61])

def secondRequest : Event :=
  .request ⟨"1.2", "http://10.0.0.1/agent",
    "3e23e8160039594a33894f6564e1b1348bbd7a0088d42c4acb73eeaed59c009d"⟩ (.answered 200 [0x62])

/-- The executable has the first file. -/
theorem installed_fresh {p : String} {n : Nat}
    (h : (if p = agent.exe then some 0 else none) = some n) : n < 1 := by
  split at h
  · cases h
    exact Nat.zero_lt_one
  · cases h

/-- The host of `agent`, with its binary in place. -/
def freshHost : Host where
  fs :=
    { names := fun p => if p = agent.exe then some 0 else none
      files := fun _ => [0x30]
      next := 1
      fresh := fun _ _ => installed_fresh }
  calls := []

/-- The fresh host has the old binary and no calls. -/
theorem starts_freshHost : agent.Starts freshHost [0x30] := by
  refine ⟨rfl, fun n hn => ?_, rfl⟩
  have htmp : freshHost.fs.names agent.tmp = none := by decide +kernel
  rw [htmp] at hn
  cases hn

/-- Open, write, set the mode, close and probe. -/
def untilProbed (k : Nat) : List Event := List.replicate 5 (.operation k .done)

/-- The second call comes while the first one is at it, and waits for it. -/
def inTurn : List Event :=
  firstRequest :: untilProbed 0 ++ [secondRequest, .operation 0 .done] ++ untilProbed 1 ++
    [.operation 1 .done]

/-- Two calls in turn install what was verified. -/
theorem calls_in_turn_install_verified :
    (after agent.step freshHost inTurn).fs.content agent.exe = some [0x62] ∧
      Throughout agent.step (agent.Safe [0x30]) freshHost inTurn :=
  ⟨by decide +kernel,
    exclusive_calls_install_verified agent starts_freshHost (by decide +kernel)⟩

/-- The second call empties the file that the first one has just probed. -/
theorem truncated_file_is_installed :
    ¬ ∀ events, Throughout agent.step (agent.Safe [0x30]) freshHost events := by
  intro h
  let events := firstRequest :: secondRequest ::
    untilProbed 0 ++ [.operation 1 .done, .operation 0 .done]
  have hsafe := throughout_last _ (h events)
  have hempty : (after agent.step freshHost events).fs.content agent.exe = some [] := by
    decide +kernel
  have hbodies : ∀ c ∈ (after agent.step freshHost events).calls, c.body ≠ [] := by
    decide +kernel
  rcases hsafe.executable with horiginal | ⟨b, hread, c, hc, hbody, -⟩
  · rw [hempty] at horiginal
    cases horiginal
  · rw [hempty] at hread
    cases hread
    exact hbodies c hc hbody

end AdguardAdmin.SelfUpdate
