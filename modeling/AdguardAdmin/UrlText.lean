import AdguardAdmin.GoText
/-!
# Absolute URLs as texts

An absolute URL is a scheme, `://`, a network location up to the next `/`, `?` or `#`, a path up
to the next `?` or `#`, and the rest.  `Url` carries what makes this division the only one, so
that a text is the text of at most one `Url` (`text_injective`), the one that `url?` finds.

The network location holds the host and the port, behind an optional `user@`; an IPv6 literal
stands in brackets.  Scheme, host and port are the origin.
-/

namespace UrlText

open GoText IpLiterals

variable {α : Type}

/-! ## Texts cut at a delimiter -/

/-- `b` does not carry on a text of characters that satisfy `p`. -/
def Stops (p : α → Bool) (b : List α) : Prop := ∀ c, b.head? = some c → p c = false

/-- An empty list of characters stops at once. -/
theorem stops_nil (p : α → Bool) : Stops p [] := fun _ h => nomatch h

/-- What is left behind a run of characters stops at once. -/
theorem stops_dropWhile (p : α → Bool) (cs : List α) : Stops p (cs.dropWhile p) := by
  intro c hc
  induction cs with
  | nil => cases hc
  | cons d rest ih =>
      rw [List.dropWhile_cons] at hc
      split at hc
      · exact ih hc
      · next hd =>
          obtain rfl : d = c := by simpa using hc
          simpa using hd

/-- A run ends where what follows stops it. -/
theorem takeWhile_of_stops {p : α → Bool} {a b : List α} (ha : ∀ c ∈ a, p c = true)
    (hb : Stops p b) : (a ++ b).takeWhile p = a := by
  rw [List.takeWhile_append_of_pos ha]
  cases b with
  | nil => simp
  | cons c rest => simp [hb c rfl]

/-- **Cuts are unique.** -/
theorem append_inj_of_stops {p : α → Bool} {a b a' b' : List α} (ha : ∀ c ∈ a, p c = true)
    (ha' : ∀ c ∈ a', p c = true) (hb : Stops p b) (hb' : Stops p b') (h : a ++ b = a' ++ b') :
    a = a' ∧ b = b' := by
  have hfront : a = a' := by
    rw [← takeWhile_of_stops ha hb, h, takeWhile_of_stops ha' hb']
  subst hfront
  exact ⟨rfl, List.append_cancel_left h⟩

/-! ## Absolute URLs -/

def isSchemeChar (c : Char) : Bool := c.isAlphanum || c = '+' || c = '-' || c = '.'

/-- A letter, and scheme characters behind it. -/
def isScheme (cs : List Char) : Bool := cs.head?.any Char.isAlpha && cs.all isSchemeChar

/-- A scheme begins with a letter. -/
theorem head_of_isScheme {cs : List Char} (h : isScheme cs = true) :
    ∃ c tail, cs = c :: tail ∧ c.isAlpha = true := by
  simp only [isScheme, Bool.and_eq_true] at h
  cases cs with
  | nil => simp at h
  | cons c tail => exact ⟨c, tail, rfl, by simpa using h.1⟩

def notDelimiter (c : Char) : Bool := c ≠ '/' && c ≠ '?' && c ≠ '#'

def notQuery (c : Char) : Bool := c ≠ '?' && c ≠ '#'

@[ext]
structure Url where
  scheme : List Char
  netloc : List Char
  path : List Char
  /-- Query and fragment. -/
  rest : List Char
  isScheme_scheme : isScheme scheme = true
  netloc_chars : ∀ c ∈ netloc, notDelimiter c = true
  path_head : path = [] ∨ path.head? = some '/'
  path_chars : ∀ c ∈ path, notQuery c = true
  rest_stops : Stops notQuery rest

namespace Url

def text (u : Url) : List Char :=
  u.scheme ++ ':' :: '/' :: '/' :: (u.netloc ++ (u.path ++ u.rest))

/-- What ends a path and a query ends an authority, too. -/
theorem notDelimiter_of_notQuery {c : Char} (h : notQuery c = false) : notDelimiter c = false := by
  simp only [notQuery, notDelimiter, Bool.and_eq_false_iff] at h ⊢
  rcases h with h | h <;> simp [h]

/-- The network location ends where the path or the rest begins. -/
theorem tail_stops (u : Url) : Stops notDelimiter (u.path ++ u.rest) := by
  intro c hc
  rcases u.path_head with hnil | hslash
  · rw [hnil, List.nil_append] at hc
    exact notDelimiter_of_notQuery (u.rest_stops c hc)
  · obtain ⟨tail, htail⟩ : ∃ tail, u.path = '/' :: tail := by
      cases hpath : u.path with
      | nil => simp [hpath] at hslash
      | cons d tail => exact ⟨tail, by simpa [hpath] using hslash⟩
    obtain rfl : '/' = c := by simpa [htail] using hc
    rfl

/-- A scheme consists of its characters. -/
theorem scheme_chars (u : Url) : ∀ c ∈ u.scheme, isSchemeChar c = true := by
  have h := u.isScheme_scheme
  simp only [isScheme, Bool.and_eq_true, List.all_eq_true] at h
  exact h.2

/-- A colon ends a scheme. -/
theorem stops_colon (cs : List Char) : Stops isSchemeChar (':' :: cs) := by
  intro c hc
  obtain rfl : ':' = c := by simpa using hc
  rfl

/-- A text is the text of one URL. -/
theorem text_injective : Function.Injective text := by
  intro u v h
  obtain ⟨hscheme, htail⟩ := append_inj_of_stops u.scheme_chars v.scheme_chars
    (stops_colon _) (stops_colon _) h
  simp only [List.cons.injEq, true_and] at htail
  obtain ⟨hnetloc, hafter⟩ := append_inj_of_stops u.netloc_chars v.netloc_chars u.tail_stops
    v.tail_stops htail
  obtain ⟨hpath, hrest⟩ := append_inj_of_stops u.path_chars v.path_chars u.rest_stops
    v.rest_stops hafter
  exact Url.ext hscheme hnetloc hpath hrest

/-- A URL starts with a letter. -/
theorem head_text (u : Url) : ∃ c tail, u.text = c :: tail ∧ c.isAlpha = true := by
  obtain ⟨c, tail, hscheme, halpha⟩ := head_of_isScheme u.isScheme_scheme
  have htext : u.text = c :: (tail ++ ':' :: '/' :: '/' :: (u.netloc ++ (u.path ++ u.rest))) := by
    rw [text, hscheme, List.cons_append]
  exact ⟨c, _, htext, halpha⟩

end Url

theorem takeWhile_chars (p : α → Bool) (cs : List α) : ∀ c ∈ cs.takeWhile p, p c = true :=
  fun _ hc => List.mem_takeWhile_imp hc

/-- Behind a network location a path starts with a slash, or there is none. -/
theorem path_head_dropWhile (tail : List Char) :
    (tail.dropWhile notDelimiter).takeWhile notQuery = [] ∨
      ((tail.dropWhile notDelimiter).takeWhile notQuery).head? = some '/' := by
  have hstops := stops_dropWhile notDelimiter tail
  cases hdrop : tail.dropWhile notDelimiter with
  | nil => simp
  | cons c after =>
      have hc := hstops c (by rw [hdrop]; rfl)
      by_cases hquery : notQuery c = true
      · have hslash : c = '/' := by
          by_contra hne
          simp_all [notDelimiter, notQuery]
        simp [hslash, notQuery]
      · simp [hquery]

/-- The URL with this text. -/
def url? (cs : List Char) : Option Url :=
  match cs.dropWhile isSchemeChar with
  | ':' :: '/' :: '/' :: tail =>
      if hscheme : isScheme (cs.takeWhile isSchemeChar) = true then
        some
          { scheme := cs.takeWhile isSchemeChar
            netloc := tail.takeWhile notDelimiter
            path := (tail.dropWhile notDelimiter).takeWhile notQuery
            rest := (tail.dropWhile notDelimiter).dropWhile notQuery
            isScheme_scheme := hscheme
            netloc_chars := takeWhile_chars notDelimiter tail
            path_head := path_head_dropWhile tail
            path_chars := takeWhile_chars notQuery _
            rest_stops := stops_dropWhile notQuery _ }
      else none
  | _ => none

/-- A URL is written as it was read. -/
theorem url?_text {cs : List Char} {u : Url} (h : url? cs = some u) : u.text = cs := by
  unfold url? at h
  split at h
  · next tail hdrop =>
      split at h
      · obtain rfl := Option.some.inj h
        simp only [Url.text, List.takeWhile_append_dropWhile]
        calc cs.takeWhile isSchemeChar ++ (':' :: '/' :: '/' :: tail)
            = cs.takeWhile isSchemeChar ++ cs.dropWhile isSchemeChar := by rw [hdrop]
          _ = cs := List.takeWhile_append_dropWhile
      · cases h
  · cases h

/-- The reader finds the one URL that has the text. -/
theorem url?_eq_some_iff {cs : List Char} {u : Url} : url? cs = some u ↔ u.text = cs := by
  constructor
  · exact url?_text
  · intro h
    have hscheme : cs.takeWhile isSchemeChar = u.scheme := by
      rw [← h]
      exact takeWhile_of_stops u.scheme_chars (Url.stops_colon _)
    have hdrop : cs.dropWhile isSchemeChar =
        ':' :: '/' :: '/' :: (u.netloc ++ (u.path ++ u.rest)) := by
      have hsplit := List.takeWhile_append_dropWhile (p := isSchemeChar) (l := cs)
      rw [hscheme] at hsplit
      exact List.append_cancel_left (hsplit.trans h.symm)
    have hfound : ∃ v, url? cs = some v := by
      simp only [url?, hdrop, hscheme, u.isScheme_scheme, dite_true]
      exact ⟨_, rfl⟩
    obtain ⟨v, hv⟩ := hfound
    rw [hv, Url.text_injective ((url?_text hv).trans h.symm)]

/-! ## Origins -/

/-- The text behind the last `c`. -/
def afterLast (c : Char) (cs : List Char) : List Char := (cs.reverse.takeWhile (· ≠ c)).reverse

/-- The text before the first `c` and the text behind it. -/
def partition (c : Char) (cs : List Char) : List Char × List Char := (cut? c cs).getD (cs, [])

/-- Host and port of a network location, as they are written. -/
def hostPort (netloc : List Char) : List Char × List Char :=
  let info := afterLast '@' netloc
  match cut? '[' info with
  | some (_, bracketed) =>
      let (host, after) := partition ']' bracketed
      (host, (partition ':' after).2)
  | none => partition ':' info

def lower (cs : List Char) : List Char := cs.map Char.toLower

/-- The port a scheme has when none is written. -/
def defaultPort (scheme : List Char) : Option Nat :=
  if scheme = "http".toList then some 80
  else if scheme = "https".toList then some 443
  else none

structure Origin where
  scheme : List Char
  host : List Char
  port : Option Nat
  deriving DecidableEq, Repr

/-- Scheme and host do not depend on case, and the port of the scheme can be left out. -/
def Url.origin (u : Url) : Origin :=
  let (host, port) := hostPort u.netloc
  { scheme := lower u.scheme
    host := lower host
    port := if port = [] then defaultPort (lower u.scheme) else decimal? port }

end UrlText
