import AdguardAdmin.IpLiterals
/-!
# Text functions of the agent's standard library

The agent reads addresses, ports and numbers with Go's `net` and `strconv`
packages.  `net.IP` does not tell an IPv4 address from its IPv4-mapped IPv6 form,
so parsing ends with `unmap` and every address here is in unmapped form.
-/

namespace GoText

open IpLiterals

/-! ## Addresses -/

def isMapped (x : Ipv6) : Bool := (x.groups.take 6).map (·.val) = [0, 0, 0, 0, 0, 0xffff]

/-- The lower 8 bits of a number. -/
abbrev low8 (n : Nat) : Fin 256 := Fin.ofNat 256 n

def highByte (g : Fin 65536) : Fin 256 := Fin.ofNat 256 (g.val / 256)

def lowByte (g : Fin 65536) : Fin 256 := Fin.ofNat 256 g.val

/-- The IPv4 address in the last two groups. -/
def embedded (x : Ipv6) : Ipv4 :=
  match x.groups.drop 6 with
  | [g, h] => ⟨highByte g, lowByte g, highByte h, lowByte h⟩
  | _ => ⟨0, 0, 0, 0⟩

/-- `IP.To4` makes the mapped form of an IPv4 address the same address. -/
def unmap : Ip → Ip
  | .v4 x => .v4 x
  | .v6 x => if isMapped x then .v4 (embedded x) else .v6 x

/-- `netip.ParseAddr` on a text without a zone. -/
def parseAddr (cs : List Char) : Option Ip :=
  match parseIpv4 cs with
  | some x => some (.v4 x)
  | none => (parseIpv6 cs).map .v6

/-- `net.ParseIP`, which refuses zones. -/
def parseIP (s : String) : Option Ip := (parseAddr s.toList).map unmap

/-- `IP.String`. -/
def ipString : Ip → String
  | .v4 x => String.ofList x.format
  | .v6 x => String.ofList x.format

def isUnspecified : Ip → Bool
  | .v4 x => [x.a, x.b, x.c, x.d].all (·.val = 0)
  | .v6 x => x.groups.all (·.val = 0)

def isLoopback : Ip → Bool
  | .v4 x => x.a.val = 127
  | .v6 x => x.groups.map (·.val) = [0, 0, 0, 0, 0, 0, 0, 1]

def isMulticast : Ip → Bool
  | .v4 x => 224 ≤ x.a.val ∧ x.a.val ≤ 239
  | .v6 x => x.groups.head?.any (fun g => 0xff00 ≤ g.val)

def isUnicast (ip : Ip) : Bool := !(isUnspecified ip || isLoopback ip || isMulticast ip)

/-- The width of an address as it was written. -/
def bitLen : Ip → Nat
  | .v4 _ => 32
  | .v6 _ => 128

/-- The text before and after the first occurrence of a character. -/
def cut? (sep : Char) : List Char → Option (List Char × List Char)
  | [] => none
  | c :: rest =>
      if c = sep then some ([], rest) else (cut? sep rest).map fun p => (c :: p.1, p.2)

/-- A text is cut at the first separator. -/
theorem cut?_eq_some {sep : Char} {cs l r : List Char} :
    cut? sep cs = some (l, r) ↔ cs = l ++ sep :: r ∧ sep ∉ l := by
  induction cs generalizing l with
  | nil => simp [cut?]
  | cons c cs ih =>
      unfold cut?
      by_cases hc : c = sep
      · subst hc
        rw [if_pos rfl]
        constructor
        · intro h
          obtain ⟨rfl, rfl⟩ : [] = l ∧ cs = r := by simpa using h
          simp
        · rintro ⟨hcs, hsep⟩
          cases l with
          | nil => simpa [eq_comm] using hcs
          | cons d l =>
              obtain ⟨rfl, -⟩ : c = d ∧ _ := by simpa using hcs
              exact absurd List.mem_cons_self hsep
      · rw [if_neg hc]
        constructor
        · intro h
          obtain ⟨p, hp, hpair⟩ := Option.map_eq_some_iff.mp h
          obtain ⟨rfl, rfl⟩ : c :: p.1 = l ∧ p.2 = r := by simpa using hpair
          obtain ⟨rfl, hsep⟩ := ih.mp hp
          exact ⟨rfl, by simpa [Ne.symm hc] using hsep⟩
        · rintro ⟨hcs, hsep⟩
          cases l with
          | nil =>
              obtain ⟨rfl, -⟩ : c = sep ∧ _ := by simpa using hcs
              exact absurd rfl hc
          | cons d l =>
              obtain ⟨rfl, htail⟩ : c = d ∧ cs = l ++ sep :: r := by simpa using hcs
              have hrest : sep ∉ l := fun hmem => hsep (List.mem_cons_of_mem _ hmem)
              rw [ih.mpr ⟨htail, hrest⟩]
              rfl

/-- `net.ParseCIDR`: address and prefix length. -/
def parseCIDR (s : String) : Option (Ip × Nat) := do
  let (addr, mask) ← cut? '/' s.toList
  let ip ← parseAddr addr
  let n ← decimal? mask
  if n ≤ bitLen ip then some (unmap ip, n) else none

/-! ## Ports and numbers -/

/-- `net.SplitHostPort`. -/
def splitHostPort (s : String) : Option (String × String) :=
  match s.toList with
  | '[' :: rest => do
      let (host, tail) ← cut? ']' rest
      match tail with
      | ':' :: port =>
          if ':' ∉ port ∧ '[' ∉ rest ∧ ']' ∉ port then
            some (String.ofList host, String.ofList port)
          else none
      | _ => none
  | cs => do
      let (host, port) ← cut? ':' cs
      if ':' ∉ port ∧ '[' ∉ cs ∧ ']' ∉ cs then
        some (String.ofList host, String.ofList port)
      else none

/-- `net.JoinHostPort`. -/
def joinHostPort (host port : String) : String :=
  if ':' ∈ host.toList then "[" ++ host ++ "]:" ++ port else host ++ ":" ++ port

/-- The range of the `int` type. -/
def IsInt64 (n : Int) : Prop := -0x8000000000000000 ≤ n ∧ n ≤ 0x7fffffffffffffff

instance (n : Int) : Decidable (IsInt64 n) := inferInstanceAs (Decidable (_ ∧ _))

/-- `strconv.Atoi`: an optional sign and decimal digits. -/
def atoi (s : String) : Option Int := do
  let n ← match s.toList with
    | '+' :: ds => (decimal? ds).map Int.ofNat
    | '-' :: ds => (decimal? ds).map fun n => -Int.ofNat n
    | ds => (decimal? ds).map Int.ofNat
  if IsInt64 n then some n else none

/-- `strings.ContainsAny`. -/
def containsAny (s chars : String) : Bool := s.toList.any (· ∈ chars.toList)

/-! ## Character classes -/

/-- A text of one to `most` characters of a class. -/
def matchesClass (p : Char → Bool) (most : Nat) (s : String) : Bool :=
  s.toList ≠ [] && s.toList.length ≤ most && s.toList.all p

/-- A letter or digit is one of three ranges. -/
theorem isAlphanum_iff {c : Char} :
    c.isAlphanum = true ↔
      ((c.val ≥ 'A'.val ∧ c.val ≤ 'Z'.val) ∨ (c.val ≥ 'a'.val ∧ c.val ≤ 'z'.val)) ∨
        (c.val ≥ '0'.val ∧ c.val ≤ '9'.val) := by
  change ((decide (c.val ≥ 'A'.val ∧ c.val ≤ 'Z'.val) || (c.val ≥ 'a'.val && c.val ≤ 'z'.val)) ||
    (c.val ≥ '0'.val && c.val ≤ '9'.val)) = true ↔ _
  simp only [Bool.or_eq_true, Bool.and_eq_true, decide_eq_true_eq]

/-- The code points of letters and digits are in three ranges. -/
theorem toNat_of_isAlphanum {c : Char} (h : c.isAlphanum = true) :
    (48 ≤ c.toNat ∧ c.toNat ≤ 57) ∨ (65 ≤ c.toNat ∧ c.toNat ≤ 90) ∨
      (97 ≤ c.toNat ∧ c.toNat ≤ 122) := by
  simp only [isAlphanum_iff, ge_iff_le, UInt32.le_iff_toNat_le] at h
  have hbounds : 'A'.val.toNat = 65 ∧ 'Z'.val.toNat = 90 ∧ 'a'.val.toNat = 97 ∧
      'z'.val.toNat = 122 ∧ '0'.val.toNat = 48 ∧ '9'.val.toNat = 57 := by decide
  simp only [Char.toNat]
  omega

/-- `[A-Za-z0-9_.-]`. -/
def isNameChar (c : Char) : Bool := c.isAlphanum || c = '_' || c = '.' || c = '-'

/-! ## Errors -/

/-- `fmt.Errorf`: the format and the arguments it quotes. -/
structure Error where
  format : String
  args : List String
  deriving DecidableEq, Repr

def errorf {α : Type} (format : String) (args : List String) : Except Error α :=
  .error ⟨format, args⟩

/-- Refuse when a check fails. -/
def failIf (p : Prop) [Decidable p] (format : String) (args : List String) : Except Error Unit :=
  if p then errorf format args else .ok ()

/-- Insist on a value. -/
def orFail {α : Type} (x : Option α) (format : String) (args : List String) : Except Error α :=
  match x with
  | some a => .ok a
  | none => errorf format args

theorem orFail_ok {α : Type} {x : Option α} {format : String} {args : List String} {a : α} :
    orFail x format args = .ok a ↔ x = some a := by
  cases x <;> simp [orFail, errorf]

/-- `fmt.Errorf` with `%w`: put a text in front of an error. -/
def wrap {α : Type} (front : String) : Except Error α → Except Error α
  | .ok a => .ok a
  | .error e => .error ⟨front ++ e.format, e.args⟩

@[simp] theorem wrap_ok {α : Type} {front : String} {x : Except Error α} {a : α} :
    wrap front x = .ok a ↔ x = .ok a := by
  cases x <;> simp [wrap]

/-- A check passes exactly when it has nothing to object to. -/
theorem failIf_ok {p : Prop} [Decidable p] {format : String} {args : List String} {u : Unit} :
    failIf p format args = .ok u ↔ ¬ p := by
  unfold failIf errorf
  by_cases h : p <;> simp [h]

/-- A chain of checks succeeds exactly when each of them does. -/
theorem bind_ok {ε α β : Type} {x : Except ε α} {k : α → Except ε β} {b : β} :
    (x >>= k) = .ok b ↔ ∃ a, x = .ok a ∧ k a = .ok b := by
  cases x with
  | error e => simp [bind, Except.bind]
  | ok a => simp [bind, Except.bind]

@[simp] theorem pure_ok {ε α : Type} {a b : α} : (pure a : Except ε α) = .ok b ↔ a = b := by
  constructor
  · exact Except.ok.inj
  · exact congrArg Except.ok

/-! ## Acceptance -/

/-- A chain of checks ends without an error. -/
def Accepts {ε α : Type} (x : Except ε α) : Prop := ∃ a, x = .ok a

section Acceptance

variable {ε α β : Type}

@[simp] theorem accepts_ok (a : α) : Accepts (.ok a : Except ε α) := ⟨a, rfl⟩

@[simp] theorem accepts_pure (a : α) : Accepts (pure a : Except ε α) := ⟨a, rfl⟩

/-- A check is passed exactly when its condition does not hold. -/
theorem accepts_failIf {p : Prop} [Decidable p] {format : String} {args : List String} :
    Accepts (failIf p format args) ↔ ¬ p := by
  unfold Accepts
  simp only [failIf_ok, exists_const]

/-- A value that has to be there is accepted when it is. -/
theorem accepts_orFail {x : Option α} {format : String} {args : List String} :
    Accepts (orFail x format args) ↔ ∃ a, x = some a := by
  unfold Accepts
  simp only [orFail_ok]

/-- Two steps accept when the first returns and the second accepts. -/
theorem accepts_bind {x : Except ε α} {k : α → Except ε β} :
    Accepts (x >>= k) ↔ ∃ a, x = .ok a ∧ Accepts (k a) := by
  unfold Accepts
  constructor
  · rintro ⟨b, h⟩
    obtain ⟨a, ha, hk⟩ := bind_ok.mp h
    exact ⟨a, ha, b, hk⟩
  · rintro ⟨a, ha, b, hk⟩
    exact ⟨b, bind_ok.mpr ⟨a, ha, hk⟩⟩

/-- When the rest of the chain accepts whatever the first check yields, or nothing
of it, the two are independent. -/
theorem accepts_bind_iff {x : Except ε α} {k : α → Except ε β} {q : Prop}
    (hk : ∀ a, x = .ok a → (Accepts (k a) ↔ q)) : Accepts (x >>= k) ↔ Accepts x ∧ q := by
  rw [accepts_bind]
  constructor
  · rintro ⟨a, ha, hrest⟩
    exact ⟨⟨a, ha⟩, (hk a ha).mp hrest⟩
  · rintro ⟨⟨a, ha⟩, hq⟩
    exact ⟨a, ha, (hk a ha).mpr hq⟩

/-- A list is accepted when each of its items is. -/
theorem accepts_mapM {f : α → Except ε β} {l : List α} :
    Accepts (l.mapM f) ↔ ∀ a ∈ l, Accepts (f a) := by
  induction l with
  | nil => simp
  | cons a l ih =>
      have htail : ∀ b, f a = .ok b →
          (Accepts (do let rest ← l.mapM f; pure (b :: rest)) ↔ ∀ a ∈ l, Accepts (f a)) := by
        intro b _
        rw [accepts_bind_iff (q := True) (fun _ _ => by simp), ih, and_true]
      rw [List.mapM_cons, accepts_bind_iff htail, List.forall_mem_cons]

/-- Items that are read back when they fit are read back together. -/
theorem mapM_eq_ok {f : α → Except ε β} {g : α → β} {p : α → Prop}
    (hf : ∀ a b, f a = .ok b ↔ p a ∧ g a = b) {l : List α} {r : List β} :
    l.mapM f = .ok r ↔ (∀ a ∈ l, p a) ∧ l.map g = r := by
  induction l generalizing r with
  | nil => simp
  | cons a l ih =>
      simp only [List.mapM_cons, bind_ok, hf, ih, pure_ok, List.forall_mem_cons, List.map_cons]
      constructor
      · rintro ⟨b, ⟨ha, rfl⟩, rest, ⟨hrest, rfl⟩, rfl⟩
        exact ⟨⟨ha, hrest⟩, rfl⟩
      · rintro ⟨⟨ha, hrest⟩, rfl⟩
        exact ⟨g a, ⟨ha, rfl⟩, l.map g, ⟨hrest, rfl⟩, rfl⟩

end Acceptance

/-! ## Canonical addresses -/

/-- An address literal consists of characters of literals. -/
theorem parseAddr_chars {cs : List Char} {ip : Ip} (h : parseAddr cs = some ip) :
    ∀ c ∈ cs, isLiteralChar c = true := by
  unfold parseAddr at h
  split at h
  · next x hx => exact parseIpv4_chars hx
  · obtain ⟨x, hx, -⟩ := Option.map_eq_some_iff.mp h
    exact parseIpv6_chars hx

theorem parseIP_chars {s : String} {ip : Ip} (h : parseIP s = some ip) :
    ∀ c ∈ s.toList, isLiteralChar c = true := by
  obtain ⟨ip', hip, -⟩ := Option.map_eq_some_iff.mp h
  exact parseAddr_chars hip

/-- Groups with colons have no dot. -/
theorem dot_not_mem_colonChars (gs : List (Fin 65536)) : '.' ∉ colonChars gs := by
  induction gs with
  | nil => simp
  | cons g gs ih =>
      cases gs with
      | nil => simpa using dot_not_mem_hextetChars g
      | cons g' gs => simpa [colonChars_cons_cons, dot_not_mem_hextetChars] using ih

/-- No IPv6 literal is taken for an IPv4 one. -/
theorem parseIpv4_formatIpv6 (x : Ipv6) : parseIpv4 x.format = none := by
  have hdot : '.' ∉ x.format := by
    unfold Ipv6.format
    split
    · exact dot_not_mem_colonChars _
    · simp [dot_not_mem_colonChars]
  unfold parseIpv4
  rw [List.splitOn_eq_singleton hdot]

/-- The canonical text of an address reads back as that address. -/
theorem parseAddr_ipString (ip : Ip) : parseAddr (ipString ip).toList = some ip := by
  cases ip with
  | v4 x => simp [ipString, parseAddr, parseIpv4_format]
  | v6 x => simp [ipString, parseAddr, parseIpv4_formatIpv6, parseIpv6_format]

/-! ## Printed numbers and endpoints -/

/-- A number is read back. -/
theorem decimal?_toDigits (n : Nat) : decimal? (Nat.toDigits 10 n) = some n := by
  unfold decimal?
  rw [if_neg Nat.toDigits_ne_nil]
  exact number?_toDigits (by decide) readsDigits_dec n

/-- The digits of a number are decimal. -/
theorem decDigit?_of_mem_toDigits {n : Nat} {c : Char} (hc : c ∈ Nat.toDigits 10 n) :
    (decDigit? c).isSome = true :=
  number?_isSome (number?_toDigits (by decide) readsDigits_dec n) c hc

/-- Other characters do not occur in a printed number. -/
theorem not_mem_toDigits {c : Char} (hc : (decDigit? c).isSome = false) (n : Nat) :
    c ∉ Nat.toDigits 10 n := by
  intro hmem
  rw [decDigit?_of_mem_toDigits hmem] at hc
  cases hc

/-- A number with a minus sign is read. -/
theorem atoi_minus {s : String} {ds : List Char} {m : Nat} {n : Int} (hs : s.toList = '-' :: ds)
    (hds : decimal? ds = some m) (hn : -Int.ofNat m = n) (hrange : IsInt64 n) : atoi s = some n := by
  subst hn
  unfold atoi
  rw [hs]
  simp only [hds]
  exact if_pos hrange

/-- A plain number is read. -/
theorem atoi_plain {s : String} {n : Nat} (hs : s.toList = Nat.toDigits 10 n)
    (hrange : IsInt64 (Int.ofNat n)) : atoi s = some (Int.ofNat n) := by
  have hplus := not_mem_toDigits (c := '+') (by decide) n
  have hminus := not_mem_toDigits (c := '-') (by decide) n
  unfold atoi
  rw [hs]
  split
  · next ds heq => simp [heq] at hplus
  · next ds heq => simp [heq] at hminus
  · rw [decimal?_toDigits]
    exact if_pos hrange

/-- Ports are numbers that are read back. -/
theorem atoi_toDigits {n : Nat} (hn : n ≤ 65535) :
    atoi (String.ofList (Nat.toDigits 10 n)) = some (Int.ofNat n) := by
  refine atoi_plain String.toList_ofList ⟨?_, ?_⟩
  · exact le_trans (by decide) (Int.natCast_nonneg n)
  · exact le_trans (Int.ofNat_le.mpr hn) (by decide)

/-- A number is read back from its print. -/
theorem atoi_toString {n : Int} (hn : IsInt64 n) : atoi (toString n) = some n := by
  cases n with
  | ofNat m => exact atoi_plain String.toList_ofList hn
  | negSucc m =>
      have hdigits : (Nat.repr (m + 1)).toList = Nat.toDigits 10 (m + 1) := String.toList_ofList
      have htext : toString (Int.negSucc m) = "-" ++ Nat.repr (m + 1) := rfl
      have hchars : (toString (Int.negSucc m)).toList = '-' :: Nat.toDigits 10 (m + 1) := by
        rw [htext, String.toList_append, hdigits]
        rfl
      exact atoi_minus hchars (decimal?_toDigits (m + 1)) rfl hn

/-- Every character of a number is a sign or a digit. -/
theorem atoi_chars {s : String} {n : Int} (h : atoi s = some n) :
    ∀ c ∈ s.toList, c = '+' ∨ c = '-' ∨ (decDigit? c).isSome = true := by
  have hdecimal : ∀ (ds : List Char) (m : Nat), decimal? ds = some m →
      ∀ c ∈ ds, (decDigit? c).isSome = true := by
    intro ds m hm
    unfold decimal? at hm
    split at hm
    · cases hm
    · exact number?_isSome hm
  unfold atoi at h
  intro c hc
  split at h
  · next ds heq =>
      obtain ⟨m, hm, -⟩ := Option.bind_eq_some_iff.mp h
      obtain ⟨k, hk, -⟩ := Option.map_eq_some_iff.mp hm
      rw [heq] at hc
      rcases List.mem_cons.mp hc with rfl | hc
      · exact Or.inl rfl
      · exact Or.inr (Or.inr (hdecimal ds k hk c hc))
  · next ds heq =>
      obtain ⟨m, hm, -⟩ := Option.bind_eq_some_iff.mp h
      obtain ⟨k, hk, -⟩ := Option.map_eq_some_iff.mp hm
      rw [heq] at hc
      rcases List.mem_cons.mp hc with rfl | hc
      · exact Or.inr (Or.inl rfl)
      · exact Or.inr (Or.inr (hdecimal ds k hk c hc))
  · obtain ⟨m, hm, -⟩ := Option.bind_eq_some_iff.mp h
    obtain ⟨k, hk, -⟩ := Option.map_eq_some_iff.mp hm
    exact Or.inr (Or.inr (hdecimal _ k hk c hc))

/-- The characters an endpoint uses for itself. -/
def NoBrackets (cs : List Char) : Prop := '[' ∉ cs ∧ ']' ∉ cs

/-- A host without colons is divided from its port. -/
theorem splitHostPort_plain {host port : List Char} (hcolon : ':' ∉ host) (hhost : NoBrackets host)
    (hport : ':' ∉ port ∧ NoBrackets port) :
    splitHostPort (String.ofList (host ++ ':' :: port)) =
      some (String.ofList host, String.ofList port) := by
  obtain ⟨hopen, hclose⟩ := hhost
  obtain ⟨hcolon', hopen', hclose'⟩ := hport
  have hcut : cut? ':' (host ++ ':' :: port) = some (host, port) := cut?_eq_some.mpr ⟨rfl, hcolon⟩
  unfold splitHostPort
  rw [String.toList_ofList]
  split
  · next rest heq =>
      have hmem : '[' ∈ host ++ ':' :: port := by simp [heq]
      simp [hopen, hopen'] at hmem
  · rw [hcut]
    simp [hcolon', hopen, hopen', hclose, hclose']

/-- A host in brackets is divided from its port. -/
theorem splitHostPort_bracketed {host port : List Char} (hhost : NoBrackets host)
    (hport : ':' ∉ port ∧ NoBrackets port) :
    splitHostPort (String.ofList ('[' :: host ++ ']' :: ':' :: port)) =
      some (String.ofList host, String.ofList port) := by
  obtain ⟨hopen, hclose⟩ := hhost
  obtain ⟨hcolon', hopen', hclose'⟩ := hport
  have hcut : cut? ']' (host ++ ']' :: ':' :: port) = some (host, ':' :: port) :=
    cut?_eq_some.mpr ⟨rfl, hclose⟩
  unfold splitHostPort
  rw [String.toList_ofList, List.cons_append]
  simp [hcut, hcolon', hopen, hopen', hclose']

/-- **Joined and split again**: neither part has the characters of the other. -/
theorem splitHostPort_joinHostPort {host port : String} (hhost : NoBrackets host.toList)
    (hport : ':' ∉ port.toList ∧ NoBrackets port.toList) :
    splitHostPort (joinHostPort host port) = some (host, port) := by
  unfold joinHostPort
  split
  · have hchars : "[" ++ host ++ "]:" ++ port =
        String.ofList ('[' :: host.toList ++ ']' :: ':' :: port.toList) := by
      apply String.ext
      simp
    rw [hchars, splitHostPort_bracketed hhost hport, String.ofList_toList, String.ofList_toList]
  · next hcolon =>
      have hchars : host ++ ":" ++ port = String.ofList (host.toList ++ ':' :: port.toList) := by
        apply String.ext
        simp
      rw [hchars, splitHostPort_plain hcolon hhost hport, String.ofList_toList,
        String.ofList_toList]

theorem noBrackets_of_literal {cs : List Char} (h : ∀ c ∈ cs, isLiteralChar c = true) :
    NoBrackets cs :=
  ⟨fun hmem => absurd (h _ hmem) (by decide), fun hmem => absurd (h _ hmem) (by decide)⟩

/-- A number has neither brackets nor colons. -/
theorem noBrackets_repr (n : Nat) : ':' ∉ n.repr.toList ∧ NoBrackets n.repr.toList := by
  have hchars : n.repr.toList = Nat.toDigits 10 n := String.toList_ofList
  rw [hchars]
  exact ⟨not_mem_toDigits (by decide) n, not_mem_toDigits (by decide) n,
    not_mem_toDigits (by decide) n⟩

theorem ipString_chars (ip : Ip) : ∀ c ∈ (ipString ip).toList, isLiteralChar c = true :=
  parseAddr_chars (parseAddr_ipString ip)

@[simp] theorem unmap_unmap (ip : Ip) : unmap (unmap ip) = unmap ip := by
  cases ip with
  | v4 x => rfl
  | v6 x =>
      by_cases hmapped : isMapped x = true
      · simp [unmap, hmapped]
      · simp [unmap, hmapped]

/-- A canonical address stays as it is. -/
theorem parseIP_ipString {s : String} {ip : Ip} (h : parseIP s = some ip) :
    parseIP (ipString ip) = some ip := by
  obtain ⟨raw, -, rfl⟩ := Option.map_eq_some_iff.mp h
  rw [parseIP, parseAddr_ipString, Option.map_some, unmap_unmap]

/-- The endpoint of an address and a port. -/
theorem splitHostPort_endpoint (ip : Ip) (n : Nat) :
    splitHostPort (joinHostPort (ipString ip) (toString n)) = some (ipString ip, toString n) :=
  splitHostPort_joinHostPort (noBrackets_of_literal (ipString_chars ip)) (noBrackets_repr n)

/-- Different addresses are printed differently. -/
theorem ipString_injective {ip ip' : Ip} (h : ipString ip = ipString ip') : ip = ip' := by
  have hparse := parseAddr_ipString ip
  rw [h, parseAddr_ipString ip'] at hparse
  exact (Option.some.inj hparse).symm

/-- An endpoint is its host, its port and the characters that join them. -/
theorem mem_of_splitHostPort {s host port : String} (h : splitHostPort s = some (host, port)) :
    ∀ c ∈ s.toList, c ∈ host.toList ∨ c ∈ port.toList ∨ c = '[' ∨ c = ']' ∨ c = ':' := by
  unfold splitHostPort at h
  intro c hc
  split at h
  · next rest heq =>
      obtain ⟨⟨front, tail⟩, hp, h⟩ := Option.bind_eq_some_iff.mp h
      have hrest := (cut?_eq_some.mp hp).1
      dsimp only at h
      split at h
      · next port' =>
          split at h
          · obtain ⟨rfl, rfl⟩ : String.ofList front = host ∧ String.ofList port' = port := by
              simpa using h
            rw [heq, hrest] at hc
            simp only [List.mem_cons, List.mem_append, String.toList_ofList] at hc ⊢
            grind
          · cases h
      · cases h
  · obtain ⟨⟨front, tail⟩, hp, h⟩ := Option.bind_eq_some_iff.mp h
    have heq := (cut?_eq_some.mp hp).1
    dsimp only at h
    split at h
    · obtain ⟨rfl, rfl⟩ : String.ofList front = host ∧ String.ofList tail = port := by
        simpa using h
      rw [heq] at hc
      simp only [List.mem_cons, List.mem_append, String.toList_ofList] at hc ⊢
      grind
    · cases h

end GoText
