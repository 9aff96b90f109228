import AdguardAdmin.NewestEntries
import AdguardAdmin.PyJson
import AdguardAdmin.PyText
import AdguardAdmin.PyTime
/-!
# The query log of the fleet

`query_log` asks every selected server for its newest entries, tags them with the server and
merges them by time.  A server that does not answer contributes nothing.
-/

namespace AdguardAdmin.QueryLog

open NewestEntries (descending)

variable {ν : Type}

/-! ## Times -/

/-- What Python makes of numbers, and of times in forms other than the usual one. -/
structure Interpreter (ν : Type) where
  isZero : ν → Bool
  otherForms : List Char → Option Int

variable (py : Interpreter ν)

/-- `_EPOCH`, the earliest time of all, for an entry whose time does not parse. -/
def epoch : Int := 0

/-- `Z` is written as an offset. -/
def spellOut (text : List Char) : List Char :=
  if text.getLast? = some 'Z' ∨ text.getLast? = some 'z' then
    text.dropLast ++ ['+', '0', '0', ':', '0', '0']
  else text

/-- `_parse_time` -/
def Interpreter.parseTime : Json ν → Int
  | .str s =>
      if s = "" then epoch
      else
        (PyTime.fromisoformat py.otherForms
          (spellOut (PyText.stripBy PyText.isSpace s.toList))).getD epoch
  | _ => epoch

/-! ## Asking the servers -/

structure Server where
  id : Nat
  name : String
  enabled : Bool
  zoneId : Option Nat
  deriving DecidableEq, Repr

/-- The parameters of a request. -/
structure Query where
  zoneId : Option Nat
  serverId : Option Nat
  search : Option String
  responseStatus : String
  limit : Nat
  limit_mem : 1 ≤ limit ∧ limit ≤ 500

/-- What a server is asked for. -/
structure Params where
  limit : Nat
  search : Option String
  responseStatus : Option String
  deriving DecidableEq, Repr

/-- A client that fails raises, for whatever reason. -/
inductive Reply (ν : Type) where
  | raises
  | json (data : Json ν)

def Query.targets (q : Query) (servers : List Server) : List Server :=
  servers.filter fun s =>
    s.enabled && (q.zoneId.isNone || s.zoneId = q.zoneId) &&
      (q.serverId.isNone || some s.id = q.serverId)

def Query.params (q : Query) : Params where
  limit := q.limit
  search := q.search.filter (· ≠ "")
  responseStatus := if q.responseStatus ≠ "" ∧ q.responseStatus ≠ "all" then
      some q.responseStatus
    else none

/-- `_fetch`: every exception is caught. -/
def Interpreter.fetch : Reply ν → Json ν
  | .json (.obj fields) => orElse py.isZero (Json.get fields "data") (.arr [])
  | .json _ | .raises => .arr []

/-! ## The response -/

structure Row (ν : Type) where
  serverId : Nat
  server : String
  time : Json ν
  client : Json ν
  clientName : Json ν
  question : Json ν
  type : Json ν
  answer : String
  reason : String
  blocked : Bool
  elapsedMs : Json ν
  upstream : Json ν
  cached : Json ν

/-- `_answer` -/
def Interpreter.answer (entry : List (String × Json ν)) : Option String := do
  let items ← iterate (orElse py.isZero (Json.get entry "answer") (.arr []))
  let answers ← items.mapM asObject?
  let values := (answers.map fun a => Json.get a "value").filter (truthy py.isZero)
  let texts ← values.mapM asText?
  return ", ".intercalate texts

/-- The row of an entry. -/
def Interpreter.row (srv : Server) (e : List (String × Json ν)) : Option (Row ν) := do
  let reason ← asText? (orElse py.isZero (Json.get e "reason") (.str ""))
  let q ← asObject? (orElse py.isZero (Json.get e "question") (.obj []))
  let info ← asObject? (orElse py.isZero (Json.get e "client_info") (.obj []))
  let answer ← py.answer e
  return {
    serverId := srv.id
    server := srv.name
    time := Json.get e "time"
    client := orElse py.isZero (Json.get e "client") (.str "")
    clientName := orElse py.isZero (Json.get info "name")
      (orElse py.isZero (Json.get e "client_id") (.str ""))
    question := orElse py.isZero (Json.get q "unicode_name")
      (orElse py.isZero (Json.get q "name") (Json.get q "host"))
    type := Json.get q "type"
    answer := answer
    reason := reason
    blocked := "Filtered".toList.isPrefixOf reason.toList
    elapsedMs := Json.get e "elapsedMs"
    upstream := Json.get e "upstream"
    cached := getOr e "cached" (.bool false) }

/-- The rows of what one server returned. -/
def Interpreter.rows (srv : Server) (data : Json ν) : Option (List (Row ν)) := do
  let items ← iterate data
  (items.filterMap asObject?).mapM (py.row srv)

structure Response (ν : Type) where
  entries : List (Row ν)
  serversQueried : Nat
  totalFetched : Nat

/-- `query_log`; `control` is how the servers answer. -/
def Interpreter.queryLog (servers : List Server) (control : Server → Params → Reply ν)
    (q : Query) : Option (Response ν) := do
  let targets := q.targets servers
  let results := targets.map fun srv => (srv, py.fetch (control srv q.params))
  let entries ← results.mapM fun result => py.rows result.1 result.2
  let entries := entries.flatten
  let sorted := descending (fun x => py.parseTime x.time) entries
  return {
    entries := sorted.take q.limit
    serversQueried := targets.length
    totalFetched := entries.length }

end AdguardAdmin.QueryLog
