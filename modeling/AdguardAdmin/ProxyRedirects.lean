import Mathlib.Data.Bool.AllAny
import AdguardAdmin.PyText
import AdguardAdmin.UrlText
/-!
# Redirects through the UI proxy

The UI of a server is served under a prefix of the control plane.  A `Location` of the server
that stays on it has to be moved under the prefix, and one that leads elsewhere must not be.
`_rewrite_location` decides by comparing texts: it takes the server URL off the front, and puts
the prefix in front of what then starts with a slash.

`redirects_iff` says for which locations that is what the URLs mean.
-/

namespace AdguardAdmin.Proxy

open PyText UrlText

/-- `/api/servers/{id}/ui` -/
def uiPrefix (serverId : Nat) : List Char :=
  "/api/servers/".toList ++ Nat.toDigits 10 serverId ++ "/ui".toList

/-- `loc or "/"` -/
def orRoot : List Char → List Char
  | [] => ['/']
  | loc => loc

/-- The first half of `_rewrite_location`: a location without the server URL in front of it. -/
def withoutServer (base loc : List Char) : List Char :=
  if base.isPrefixOf loc then orRoot (loc.drop base.length) else loc

/-- The second half: the prefix in front of a location that starts with one slash. -/
def withPrefix (pre loc : List Char) : List Char :=
  if ['/'].isPrefixOf loc && !(['/', '/'].isPrefixOf loc) && !pre.isPrefixOf loc then pre ++ loc
  else loc

def rewriteLocation (loc serverUrl pre : List Char) : List Char :=
  withPrefix pre (withoutServer (rstripBy (· = '/') serverUrl) loc)

/-! ## What the URLs mean -/

/-- A server URL: without the slashes at its end it is an absolute URL. -/
structure ServerUrl where
  text : List Char
  url : Url
  trimmed : rstripBy (· = '/') text = url.text

/-- `loc` is a URL on the server, `below` is what its path has more than the server's. -/
structure OnServer (server : ServerUrl) (loc : List Char) (l : Url) (below : List Char) : Prop where
  text : l.text = loc
  origin : l.origin = server.url.origin
  path : l.path = server.url.path ++ below
  segment : below = [] ∨ below.head? = some '/'

/-- An absolute location that leads to another origin. -/
def Elsewhere (server : ServerUrl) (loc : List Char) : Prop :=
  (∃ scheme rest, loc = scheme ++ ':' :: rest ∧ isScheme scheme = true) ∧
    ∀ l : Url, l.text = loc → l.origin ≠ server.url.origin

def RootRelative (loc : List Char) : Prop := ['/'] <+: loc ∧ ¬ ['/', '/'] <+: loc

/-- The location is the prefix, or below it. -/
def Under (pre loc : List Char) : Prop :=
  ∃ rest, loc = pre ++ rest ∧ (rest = [] ∨ rest.head?.any (fun c => !notDelimiter c) = true)

/-- What a redirect through the proxy should become. -/
structure Redirects (server : ServerUrl) (serverId : Nat) (loc : List Char) : Prop where
  inside : ∀ l below, OnServer server loc l below →
    rewriteLocation loc server.text (uiPrefix serverId) =
      uiPrefix serverId ++ (orRoot below ++ l.rest)
  outside : Elsewhere server loc → rewriteLocation loc server.text (uiPrefix serverId) = loc
  schemeRelative : ['/', '/'] <+: loc → rewriteLocation loc server.text (uiPrefix serverId) = loc
  rootRelative : RootRelative loc → ¬ Under (uiPrefix serverId) loc →
    rewriteLocation loc server.text (uiPrefix serverId) = uiPrefix serverId ++ loc

/-! ## When the texts say so -/

/-- What is left of a location is nothing, or a path with one slash in front that is not the
prefix already. -/
def Plain (pre rest : List Char) : Prop := rest = [] ∨ (RootRelative rest ∧ ¬ pre <+: rest)

/-- The texts say what the URLs mean. -/
structure Spelled (server : ServerUrl) (serverId : Nat) (loc : List Char) : Prop where
  inside : ∀ l below, OnServer server loc l below → server.url.rest = [] ∧
    ∃ rest, loc = server.url.text ++ rest ∧ Plain (uiPrefix serverId) rest
  outside : Elsewhere server loc → ¬ server.url.text <+: loc
  rootRelative : RootRelative loc → ¬ Under (uiPrefix serverId) loc → ¬ uiPrefix serverId <+: loc

/-! ## The two halves -/

section Halves

variable {pre loc base rest : List Char}

/-- The prefix is put before a location that has none. -/
theorem withPrefix_of (hroot : RootRelative loc) (hpre : ¬ pre <+: loc) :
    withPrefix pre loc = pre ++ loc := by
  obtain ⟨hslash, hdouble⟩ := hroot
  rw [← List.isPrefixOf_iff_prefix] at hslash hdouble hpre
  simp only [withPrefix, hslash, hdouble, hpre, Bool.not_false, Bool.and_self,
    if_true]

/-- A location that is not rooted, or has the prefix already, is left as it is. -/
theorem withPrefix_of_not (h : RootRelative loc → pre <+: loc) : withPrefix pre loc = loc := by
  unfold withPrefix
  split
  · next hcond =>
      simp only [Bool.and_eq_true, Bool.not_eq_true'] at hcond
      obtain ⟨⟨hslash, hdouble⟩, hpre⟩ := hcond
      have hroot : RootRelative loc := by
        refine ⟨List.isPrefixOf_iff_prefix.mp hslash, ?_⟩
        rw [← List.isPrefixOf_iff_prefix, hdouble]
        simp
      rw [← Bool.not_eq_true, List.isPrefixOf_iff_prefix] at hpre
      exact (hpre (h hroot)).elim
  · rfl

theorem withoutServer_append : withoutServer base (base ++ rest) = orRoot rest := by
  simp [withoutServer]

theorem withoutServer_of_not (h : ¬ base <+: loc) : withoutServer base loc = loc := by
  rw [← List.isPrefixOf_iff_prefix] at h
  exact if_neg h

theorem length_le_orRoot (rest : List Char) : rest.length ≤ (orRoot rest).length := by
  cases rest <;> simp [orRoot]

/-- A rest that is not empty is left as it is. -/
theorem orRoot_of_ne_nil (h : rest ≠ []) : orRoot rest = rest := by
  cases rest with
  | nil => exact (h rfl).elim
  | cons c tail => rfl

end Halves

theorem uiPrefix_eq (serverId : Nat) : ∃ tail, uiPrefix serverId = '/' :: 'a' :: tail :=
  ⟨_, rfl⟩

variable {server : ServerUrl} {serverId : Nat} {loc : List Char}

/-- What begins with a letter does not begin with a slash. -/
theorem not_slash_of_alpha {c : Char} (h : c.isAlpha = true) (tail rest : List Char) :
    ¬ ['/'] <+: c :: tail ++ rest := by
  intro hslash
  obtain rfl : '/' = c := by simpa using hslash
  cases h

/-- A text that starts like a URL starts with no slash. -/
theorem not_slash_url (u : Url) (rest : List Char) : ¬ ['/'] <+: u.text ++ rest := by
  obtain ⟨c, tail, htext, halpha⟩ := u.head_text
  rw [htext]
  exact not_slash_of_alpha halpha tail rest

/-- A path does not begin with the server's URL. -/
theorem not_server_of_slash (h : ['/'] <+: loc) : ¬ server.url.text <+: loc := by
  rintro ⟨rest, rfl⟩
  exact not_slash_url _ _ h

/-- Outside of the server only the prefix is put before a location. -/
theorem rewriteLocation_of_not (h : ¬ server.url.text <+: loc) (pre : List Char) :
    rewriteLocation loc server.text pre = withPrefix pre loc := by
  rw [rewriteLocation, server.trimmed, withoutServer_of_not h]

/-- A location on the server loses the server's URL first. -/
theorem rewriteLocation_append (rest pre : List Char) :
    rewriteLocation (server.url.text ++ rest) server.text pre = withPrefix pre (orRoot rest) := by
  rw [rewriteLocation, server.trimmed, withoutServer_append]

/-- What is left is moved under the prefix when it is plain. -/
theorem withPrefix_of_plain {rest : List Char} (h : Plain (uiPrefix serverId) rest) :
    withPrefix (uiPrefix serverId) (orRoot rest) = uiPrefix serverId ++ orRoot rest := by
  obtain ⟨tail, htail⟩ := uiPrefix_eq serverId
  rcases h with rfl | ⟨hroot, hpre⟩
  · refine withPrefix_of ⟨List.prefix_rfl, by simp [orRoot]⟩ ?_
    rw [htail]
    simp [orRoot]
  · have hne : rest ≠ [] := by
      rintro rfl
      simpa using hroot.1
    rw [orRoot_of_ne_nil hne]
    exact withPrefix_of hroot hpre

/-- What is not plain behind the server's URL gets no prefix. -/
theorem withPrefix_of_not_plain {rest : List Char} (h : ¬ Plain (uiPrefix serverId) rest) :
    withPrefix (uiPrefix serverId) (orRoot rest) = rest := by
  have hne : rest ≠ [] := fun hnil => h (.inl hnil)
  rw [orRoot_of_ne_nil hne]
  refine withPrefix_of_not fun hroot => ?_
  by_contra hpre
  exact h (.inr ⟨hroot, hpre⟩)

/-! ## Locations on the server -/

/-- What a location on the server has behind the text of the server URL. -/
theorem OnServer.below_append {l : Url} {below rest : List Char}
    (h : OnServer server loc l below) (hloc : loc = server.url.text ++ rest)
    (hrest : rest = [] ∨ rest.head? = some '/') :
    below ++ l.rest = server.url.rest ++ rest := by
  have htext : l.text = server.url.text ++ rest := h.text.trans hloc
  simp only [Url.text, List.append_assoc, List.cons_append] at htext
  obtain ⟨-, htail⟩ := append_inj_of_stops l.scheme_chars server.url.scheme_chars
    (Url.stops_colon _) (Url.stops_colon _) htext
  simp only [List.cons.injEq, true_and] at htail
  have hstops : Stops notDelimiter (server.url.path ++ (server.url.rest ++ rest)) := by
    intro c hc
    rw [← List.append_assoc] at hc
    cases htext : server.url.path ++ server.url.rest with
    | cons d tail =>
        refine server.url.tail_stops c ?_
        simpa [htext] using hc
    | nil =>
        rw [htext, List.nil_append] at hc
        rcases hrest with rfl | hslash
        · cases hc
        · obtain rfl : '/' = c := by simpa [hslash] using hc
          rfl
  obtain ⟨-, hafter⟩ := append_inj_of_stops l.netloc_chars server.url.netloc_chars l.tail_stops
    hstops htail
  rw [h.path, List.append_assoc] at hafter
  exact List.append_cancel_left hafter

/-- A path from the root begins with a slash. -/
theorem head_of_rootRelative {rest : List Char} (h : RootRelative rest) :
    rest.head? = some '/' := by
  obtain ⟨tail, rfl⟩ := h.1
  rfl

theorem head_of_plain {pre rest : List Char} (h : Plain pre rest) :
    rest = [] ∨ rest.head? = some '/' := h.imp_right fun hroot => head_of_rootRelative hroot.1

/-- A query or fragment does not start with a slash. -/
theorem rest_ne_slash (u : Url) : u.rest.head? ≠ some '/' := by
  intro h
  have hstop := u.rest_stops '/' h
  cases hstop

/-- Where the server URL has no query, what is left is the path below it and the rest. -/
theorem orRoot_below {l : Url} {below rest : List Char} (hbelow : below ++ l.rest = rest)
    (hrest : rest = [] ∨ rest.head? = some '/') : orRoot below ++ l.rest = orRoot rest := by
  by_cases hnil : below = []
  · rw [hnil, List.nil_append] at hbelow
    have hempty : rest = [] := by
      refine hrest.resolve_right fun hslash => rest_ne_slash l ?_
      rw [hbelow, hslash]
    rw [hnil, hbelow, hempty, List.append_nil]
  · have hne : rest ≠ [] := by
      rw [← hbelow]
      simp [hnil]
    rw [orRoot_of_ne_nil hnil, orRoot_of_ne_nil hne, hbelow]

/-- A query of the server URL would have to be in what is left, and is not. -/
theorem query_eq_nil {l : Url} {below rest : List Char}
    (hafter : below ++ l.rest = server.url.rest ++ rest)
    (hsame : orRoot rest = orRoot below ++ l.rest) : server.url.rest = [] := by
  have hlength := congrArg List.length hafter
  have hsame_length := congrArg List.length hsame
  have hbelow := length_le_orRoot below
  simp only [List.length_append] at hlength hsame_length
  rw [← List.length_eq_zero_iff]
  cases rest with
  | cons c tail =>
      rw [orRoot_of_ne_nil (List.cons_ne_nil c tail)] at hsame_length
      omega
  | nil =>
      by_cases hnil : below = []
      · simp only [hnil, orRoot, List.length_cons, List.length_nil] at hlength hsame_length
        omega
      · rw [orRoot_of_ne_nil hnil, hafter, List.append_nil] at hsame
        exact (rest_ne_slash server.url (by rw [← hsame]; rfl)).elim

/-- A location on the server is rewritten as it should be exactly when it is plain behind the
server's URL. -/
theorem inside_iff {l : Url} {below : List Char} (h : OnServer server loc l below) :
    rewriteLocation loc server.text (uiPrefix serverId) =
        uiPrefix serverId ++ (orRoot below ++ l.rest) ↔
      server.url.rest = [] ∧
        ∃ rest, loc = server.url.text ++ rest ∧ Plain (uiPrefix serverId) rest := by
  obtain ⟨tail, hstart⟩ := uiPrefix_eq serverId
  constructor
  · intro heq
    by_cases hbase : server.url.text <+: loc
    · obtain ⟨rest, rfl⟩ := hbase
      rw [rewriteLocation_append] at heq
      by_cases hplain : Plain (uiPrefix serverId) rest
      · rw [withPrefix_of_plain hplain] at heq
        have hsame := List.append_cancel_left heq
        have hafter := h.below_append rfl (head_of_plain hplain)
        exact ⟨query_eq_nil hafter hsame, rest, rfl, hplain⟩
      · rw [withPrefix_of_not_plain hplain] at heq
        have hslash : rest.head? = some '/' := by rw [heq, hstart]; rfl
        have hlength := congrArg List.length (h.below_append rfl (.inr hslash))
        have hlonger := congrArg List.length heq
        have hroot := length_le_orRoot below
        simp only [hstart, List.length_append, List.length_cons] at hlength hlonger
        omega
    · have hno : ¬ ['/'] <+: loc := by
        rw [← h.text, ← List.append_nil l.text]
        exact not_slash_url l []
      rw [rewriteLocation_of_not hbase, withPrefix_of_not fun hroot => (hno hroot.1).elim] at heq
      refine (hno ?_).elim
      rw [heq, hstart]
      exact ⟨_, rfl⟩
  · rintro ⟨hquery, rest, hloc, hplain⟩
    have hafter := h.below_append hloc (head_of_plain hplain)
    rw [hquery, List.nil_append] at hafter
    rw [orRoot_below hafter (head_of_plain hplain), hloc, rewriteLocation_append,
      withPrefix_of_plain hplain]

/-! ## The other locations -/

/-- Another location is left alone exactly when it does not begin with that URL. -/
theorem outside_iff (h : Elsewhere server loc) :
    rewriteLocation loc server.text (uiPrefix serverId) = loc ↔ ¬ server.url.text <+: loc := by
  obtain ⟨⟨scheme, after, hscheme, hisScheme⟩, -⟩ := h
  have hno : ¬ ['/'] <+: loc := by
    obtain ⟨c, more, hhead, halpha⟩ := head_of_isScheme hisScheme
    rw [hscheme, hhead]
    exact not_slash_of_alpha halpha more _
  constructor
  · rintro heq ⟨rest, rfl⟩
    rw [rewriteLocation_append] at heq
    obtain ⟨tail, hstart⟩ := uiPrefix_eq serverId
    by_cases hplain : Plain (uiPrefix serverId) rest
    · rw [withPrefix_of_plain hplain, hstart] at heq
      exact hno ⟨_, heq⟩
    · rw [withPrefix_of_not_plain hplain] at heq
      obtain ⟨c, more, htext, -⟩ := server.url.head_text
      have hlength := congrArg List.length heq
      rw [htext] at hlength
      simp only [List.length_append, List.length_cons] at hlength
      omega
  · intro hbase
    rw [rewriteLocation_of_not hbase, withPrefix_of_not fun hroot => (hno hroot.1).elim]

/-- A location with two slashes before it is left alone. -/
theorem rewriteLocation_schemeRelative (h : ['/', '/'] <+: loc) :
    rewriteLocation loc server.text (uiPrefix serverId) = loc := by
  have hslash : ['/'] <+: loc := (show ['/'] <+: ['/', '/'] from ⟨_, rfl⟩).trans h
  rw [rewriteLocation_of_not (not_server_of_slash hslash),
    withPrefix_of_not fun hroot => (hroot.2 h).elim]

/-- A path is put below the prefix exactly when it is not below it already. -/
theorem rootRelative_iff (h : RootRelative loc) :
    rewriteLocation loc server.text (uiPrefix serverId) = uiPrefix serverId ++ loc ↔
      ¬ uiPrefix serverId <+: loc := by
  rw [rewriteLocation_of_not (not_server_of_slash h.1)]
  constructor
  · intro heq hpre
    rw [withPrefix_of_not fun _ => hpre] at heq
    obtain ⟨tail, hstart⟩ := uiPrefix_eq serverId
    have hlength := congrArg List.length heq
    rw [hstart] at hlength
    simp only [List.length_append, List.length_cons] at hlength
    omega
  · exact withPrefix_of h

/-- **When redirects stay where they belong.**  For every server URL and every location the
rewriting does what the URLs mean exactly when the texts say what the URLs mean. -/
theorem redirects_iff (server : ServerUrl) (serverId : Nat) (loc : List Char) :
    Redirects server serverId loc ↔ Spelled server serverId loc := by
  constructor
  · intro h
    exact
      { inside := fun l below hon => (inside_iff hon).mp (h.inside l below hon)
        outside := fun helse => (outside_iff helse).mp (h.outside helse)
        rootRelative := fun hroot hunder => (rootRelative_iff hroot).mp (h.rootRelative hroot hunder) }
  · intro h
    exact
      { inside := fun l below hon => (inside_iff hon).mpr (h.inside l below hon)
        outside := fun helse => (outside_iff helse).mpr (h.outside helse)
        schemeRelative := rewriteLocation_schemeRelative
        rootRelative := fun hroot hunder =>
          (rootRelative_iff hroot).mpr (h.rootRelative hroot hunder) }

/-- A server at `http://10.0.0.1`. -/
def plainServer : ServerUrl where
  text := "http://10.0.0.1".toList
  url :=
    { scheme := "http".toList
      netloc := "10.0.0.1".toList
      path := []
      rest := []
      isScheme_scheme := by decide
      netloc_chars := List.all_iff_forall_prop.mp (by decide)
      path_head := .inl rfl
      path_chars := List.forall_mem_nil _
      rest_stops := stops_nil _ }
  trimmed := by decide

/-- A redirect to another host, whose address starts like that of the server. -/
def otherHost : List Char := "http://10.0.0.10/login".toList

/-- The address of another host that begins like the server's is cut in two. -/
theorem other_host_is_cut : ¬ ∀ (server : ServerUrl) (serverId : Nat) (loc : List Char),
    Redirects server serverId loc := by
  intro h
  have helsewhere : Elsewhere plainServer otherHost := by
    refine ⟨⟨"http".toList, "//10.0.0.10/login".toList, by decide, by decide⟩, ?_⟩
    intro l hl horigin
    have hread : (url? otherHost).map Url.origin = some plainServer.url.origin := by
      rw [url?_eq_some_iff.mpr hl, Option.map_some, horigin]
    revert hread
    decide
  have hkept := (h plainServer 1 otherHost).outside helsewhere
  revert hkept
  decide

end AdguardAdmin.Proxy
