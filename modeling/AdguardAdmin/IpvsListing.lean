import Mathlib
import AdguardAdmin.CursorReader
import AdguardAdmin.Fields
import AdguardAdmin.GoText
/-!
# The kernel's IPVS table as text

The agent reads the table of virtual services from three prints of `ipvsadm -Ln`, or from
`/proc/net/ip_vs` when there is no `ipvsadm`.  Both are read row by row under a cursor: a
row of an address-based service moves it, and every other row that is no destination,
that of a firewall mark among them, leaves it where it is.
-/

namespace AdguardAdmin.Ipvs

open GoText IpLiterals CursorReader

/-! ## Rows -/

/-- `unicode.IsSpace`. -/
def isSpace (c : Char) : Bool :=
  c.toNat ∈ [0x09, 0x0a, 0x0b, 0x0c, 0x0d, 0x20, 0x85, 0xa0, 0x1680, 0x2028, 0x2029, 0x202f,
    0x205f, 0x3000] || (0x2000 ≤ c.toNat && c.toNat ≤ 0x200a)

/-- The lines of a text as `strings.Fields` takes them apart. -/
def rowsOf (text : String) : List (List String) :=
  (text.toList.splitOn '\n').map fun line => (Fields.fields isSpace line).map String.ofList

/-- One real server inside a service, merged from the three listings. -/
structure IpvsDest where
  addr : String
  weight : Nat
  activeConns : Nat
  inactConns : Nat
  conns : Nat
  inPkts : Nat
  inBytes : Nat
  cps : Nat
  inPps : Nat
  seenWeight : Bool
  deriving DecidableEq, Repr

/-- One virtual service; its key is the protocol and the address as printed. -/
abbrev IpvsService := Block (String × String) IpvsDest

def newDest (addr : String) : IpvsDest := ⟨addr, 0, 0, 0, 0, 0, 0, 0, 0, false⟩

def isProtoLine : List String → Bool
  | proto :: _ :: _ => proto ∈ ["TCP", "UDP", "SCTP"]
  | _ => false

/-- The numbers of a listing, which may end in a unit.  They are whole; Go reads them as
float64, which is exact for them up to `2 ^ 53`. -/
def bigNum (s : String) : Nat :=
  let (digits, mult) :=
    match s.toList.getLast? with
    | some 'K' => (s.toList.dropLast, 1000)
    | some 'M' => (s.toList.dropLast, 1000000)
    | some 'G' => (s.toList.dropLast, 1000000000)
    | _ => (s.toList, 1)
  (decimal? digits).getD 0 * mult

/-! ## Listings of `ipvsadm` -/

inductive Kind where
  | plain
  | stats
  | rate
  deriving DecidableEq, Repr

/-- What the columns behind a destination's address say of it. -/
def fill (kind : Kind) (nums : List String) (d : IpvsDest) : IpvsDest :=
  match kind, nums with
  | .plain, _ :: weight :: active :: inact :: _ =>
      { d with
        weight := bigNum weight
        seenWeight := true
        activeConns := bigNum active
        inactConns := bigNum inact }
  | .stats, conns :: inPkts :: _ :: inBytes :: _ :: _ =>
      { d with conns := bigNum conns, inPkts := bigNum inPkts, inBytes := bigNum inBytes }
  | .rate, cps :: inPps :: _ :: _ :: _ :: _ => { d with cps := bigNum cps, inPps := bigNum inPps }
  | _, _ => d

/-- What `parseListing` makes of one row. -/
def listRow (kind : Kind) (fields : List String) : Row (String × String) String IpvsDest :=
  match fields with
  | proto :: addr :: nums =>
      if isProtoLine fields then .opens (proto, addr)
      else if proto = "->" ∧ addr ≠ "RemoteAddress:Port" then .entry (addr, fill kind nums)
      else .other
  | _ => .other

/-- The services the rows of a listing open, in order. -/
def opened (rows : List (Row (String × String) String IpvsDest)) : List (String × String) :=
  rows.filterMap fun
    | .opens k => some k
    | _ => none

/-- Merge a listing into the services read so far. -/
def parseListing (text : String) (kind : Kind) (into : List (IpvsService)) :
    List (IpvsService) × List (String × String) :=
  let rows := (rowsOf text).map (listRow kind)
  ((scan IpvsDest.addr newDest ⟨into, none⟩ rows).blocks, opened rows)

/-! ## `/proc/net/ip_vs` -/

/-- `hex.DecodeString`. -/
def hexBytes? : List Char → Option (List (Fin 256))
  | [] => some []
  | [_] => none
  | high :: low :: rest => do
      return low8 (16 * (← hexDigit? high) + (← hexDigit? low)) :: (← hexBytes? rest)

/-- Two bytes in network order. -/
def group (high low : Fin 256) : Fin 65536 := low16 (256 * high.val + low.val)

/-- The address of four or sixteen bytes. -/
def ipOfBytes : List (Fin 256) → Option Ip
  | [a, b, c, d] => some (.v4 ⟨a, b, c, d⟩)
  | [a, b, c, d, e, f, g, h, i, j, k, l, m, n, o, p] =>
      some (unmap (.v6 ⟨[group a b, group c d, group e f, group g h, group i j, group k l,
        group m n, group o p], rfl⟩))
  | _ => none

/-- `strconv.ParseUint` in base 16 with 16 bits. -/
def parseHexPort (cs : List Char) : Option Nat := do
  let n ← if cs = [] then none else number? hexDigit? 16 cs
  if n ≤ 0xffff then some n else none

/-- The text before and after the last colon. -/
def cutLast (cs : List Char) : Option (List Char × List Char) :=
  (cut? ':' cs.reverse).map fun p => (p.2.reverse, p.1.reverse)

/-- One pair of brackets around an address. -/
def trimBrackets (cs : List Char) : List Char :=
  let front := if cs.head? = some '[' then cs.tail else cs
  if front.getLast? = some ']' then front.dropLast else front

/-- `C0A80237:0035` is `192.168.2.55:53`. -/
def decodeProcAddr (s : String) : Option String := do
  let (hexAddr, hexPort) ← cutLast s.toList
  let port ← parseHexPort hexPort
  let raw ← hexBytes? (trimBrackets hexAddr)
  let ip ← ipOfBytes raw
  return joinHostPort (ipString ip) (toString port)

/-- What `parseProcIPVS` makes of one row. -/
def procRow (fields : List String) : Row (String × String) String IpvsDest :=
  match fields with
  | proto :: addr :: nums =>
      if isProtoLine fields then
        match decodeProcAddr addr with
        | none => .closes
        | some addr => .opens (proto, addr)
      else
        match decide (proto = "->"), nums, decodeProcAddr addr with
        | true, _ :: _ :: _ :: _ :: _, some addr => .entry (addr, fill .plain nums)
        | _, _, _ => .other
  | _ => .other

/-- A service is put into the order when it is put into the map. -/
def parseProcIPVS (text : String) : List (IpvsService) × List (String × String) :=
  let services := (scan IpvsDest.addr newDest ⟨[], none⟩
    ((rowsOf text).map procRow)).blocks
  (services, services.map (·.key))

/-! ## Reading the table -/

/-- What the commands and the file answer; a failing `ipvsadm -Ln` leaves a message. -/
structure Answers where
  installed : Bool
  plain : Except String String
  stats : Option String
  rate : Option String
  proc : Option String

structure Reading where
  services : List (IpvsService)
  order : List (String × String)
  counters : Bool
  message : String
  deriving DecidableEq, Repr

/-- The listings of `ipvsadm`, of which two may be missing. -/
def readListings (plain : String) (stats rate : Option String) : Reading :=
  let (services, order) := parseListing plain .plain []
  let services := (stats.map fun text => (parseListing text .stats services).1).getD services
  let services := (rate.map fun text => (parseListing text .rate services).1).getD services
  ⟨services, order, true, ""⟩

def readProc (proc : Option String) (message : String) : Reading :=
  match proc with
  | none => ⟨[], [], false, message⟩
  | some text =>
      let (services, order) := parseProcIPVS text
      ⟨services, order, false, message⟩

def readIPVS (a : Answers) : Reading :=
  if a.installed then
    match a.plain with
    | .ok text => readListings text a.stats a.rate
    | .error message => readProc a.proc ("ipvsadm -Ln: " ++ message)
  else readProc a.proc "ipvsadm is not installed"

end AdguardAdmin.Ipvs
