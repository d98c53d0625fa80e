import Ahunter.Lib.Heap
import Ahunter.Lib.Text
import Ahunter.Products.Conflicts
import Mathlib.Data.List.ReduceOption
import Mathlib.Data.List.Sort
import Mathlib.Data.Prod.Lex

/-!
# Ranked rows

A query ranks the rows of a product by the number in a field and answers the
first of them. A product that is held in memory is sorted; one that is read row
by row keeps the best rows so far in a heap whose first entry is the worst of
them, together with the size that the answer would have.

A row is the object that its line decodes to, and an error is its message, or
the name of a class that the query does not expect.
-/

namespace Ahunter.Research

open Ahunter.Lib Ahunter.Products

abbrev Row := List (String × Payload)

structure Python where
  /-- `float(text)`, where it is a double -/
  floatText : String → Option Double
  /-- `str(value)` of a value that is no text -/
  str : Payload → String
  /-- the length of `json.dumps(item, sort_keys=True, …).encode("utf-8")` -/
  jsonBytes : Row → ℕ

/-! ## Parameters -/

/-- What `_FIELD` matches. -/
def isField (text : String) : Bool :=
  match text.toList with
  | [] => false
  | c :: cs =>
      c.isLower && decide (cs.length ≤ 63) &&
        cs.all fun c => c.isLower || c.isDigit || c = '_'

/-- What `_DATE` matches. -/
def isDate (text : String) : Bool :=
  match text.toList with
  | [a, b, c, d, '-', e, f, '-', g, h] => [a, b, c, d, e, f, g, h].all isDecimal
  | _ => false

/-- What `\d{6}` matches. -/
def isCode (text : String) : Bool :=
  decide (text.length = 6) && text.toList.all isDecimal

/-- `_field(params.get("field", "change_pct"))` -/
def fieldOf : Option Payload → Except String String
  | none => .ok "change_pct"
  | some (.leaf (.text field)) =>
      if isField field then .ok field else .error "query field is invalid"
  | _ => .error "query field is invalid"

inductive Direction
  | asc
  | desc
deriving DecidableEq, Repr

/-- `params.get("direction", "desc")` -/
def directionOf : Option Payload → Except String Direction
  | none => .ok .desc
  | some (.leaf (.text direction)) =>
      if direction = "desc" then .ok .desc
      else if direction = "asc" then .ok .asc
      else .error "query rank direction is invalid"
  | some (.leaf _) => .error "query rank direction is invalid"
  | _ => .error "TypeError"

/-- `params.get("limit", 50)` -/
def limitOf : Option Payload → Except String ℕ
  | none => .ok 50
  | some (.leaf (.int limit)) =>
      if limit < 1 then .error "query rank limit is invalid" else .ok limit.toNat
  | _ => .error "query rank limit is invalid"

/-- `_filter_spec` of parameters without a field -/
structure FilterSpec where
  codes : Option (List String)
  start : Option String
  stop : Option String

/-- A text among the codes. -/
def codeOf : Payload → Except String String
  | .leaf (.text code) => if isCode code then .ok code else .error "query codes are invalid"
  | _ => .error "query codes are invalid"

def codesOf : Option Payload → Except String (Option (List String))
  | none | some (.leaf .null) => .ok none
  | some (.list items) => do
      let codes ← gather codeOf items
      pure (some codes)
  | _ => .error "query codes are invalid"

/-- `_date(value, name=name)` of a value that is there -/
def dateOf (name : String) : Option Payload → Except String (Option String)
  | none | some (.leaf .null) => .ok none
  | some (.leaf (.text date)) =>
      if isDate date then .ok (some date) else .error ("query " ++ name ++ " is invalid")
  | _ => .error ("query " ++ name ++ " is invalid")

def filterSpec (params : Row) : Except String FilterSpec := do
  let codes ← codesOf (valueOf? params "codes")
  let start ← dateOf "start_date" (valueOf? params "start_date")
  let stop ← dateOf "end_date" (valueOf? params "end_date")
  refuse (∃ s ∈ start, ∃ e ∈ stop, e < s) "query date window is invalid"
  pure ⟨codes, start, stop⟩

/-! ## Rows -/

/-- `item.get("code") in code_set`; what cannot be hashed raises. -/
def codeMatches (codes : Option (List String)) (code : Option Payload) : Except String Bool :=
  match codes with
  | none => .ok true
  | some codes =>
      match code with
      | some (.list _) | some (.dict _) => .error "TypeError"
      | some (.leaf (.text text)) => .ok (codes.contains text)
      | _ => .ok false

def dateMatches (spec : FilterSpec) (date : Option Payload) : Bool :=
  match spec.start, spec.stop with
  | none, none => true
  | start, stop =>
      match date with
      | some (.leaf (.text text)) =>
          isDate text && start.all (fun s => s ≤ text) && stop.all fun e => text ≤ e
      | _ => false

/-- `_matches_filter(item, spec)` -/
def matchesFilter (spec : FilterSpec) (row : Row) : Except String Bool := do
  let code ← codeMatches spec.codes (valueOf? row "code")
  pure (code && dateMatches spec (valueOf? row "trade_date"))

/-- `_numeric(value)` -/
def numeric (py : Python) : Option Payload → Except String (Option ℚ)
  | none | some (.list _) | some (.dict _) | some (.leaf (.bool _)) => .ok none
  | some (.leaf leaf) => leaf.finiteNumber py.floatText

/-- `str(item.get(key, ""))` -/
def keyText (py : Python) : Option Payload → String
  | none => ""
  | some (.leaf (.text text)) => text
  | some value => py.str value

abbrev RankKey := ℚ ×ₗ String ×ₗ String

def rankKey (py : Python) (direction : Direction) (row : Row) (number : ℚ) : RankKey :=
  toLex (match direction with | .asc => number | .desc => -number,
    toLex (keyText py (valueOf? row "code"), keyText py (valueOf? row "trade_date")))

/-- `{"rank": rank, **item}` -/
def ranked (rank : ℕ) (row : Row) : Row :=
  ("rank", (valueOf? row "rank").getD (.leaf (.int rank))) :: row.filter fun e => e.1 ≠ "rank"

/-- `[{"rank": index + 1, **item} for index, item in enumerate(rows)]` -/
def enumerated (rows : List Row) : List Row :=
  rows.mapIdx fun index row => ranked (index + 1) row

/-! ## In memory -/

/-- `_rows(payload)` -/
def payloadRows (payload : Payload) : Except String (List Row) :=
  let value := match payload with
    | .dict entries => ((valueOf? entries "rows").or (valueOf? entries "items")).getD (.list [])
    | value => value
  match value with
  | .list items => .ok (items.filterMap fun
      | .dict row => some row
      | _ => none)
  | _ => .error "query product has no tabular rows"

/-- `_filtered_rows(payload, params)` of parameters without a field -/
def filteredRows (payload : Payload) (params : Row) : Except String (List Row) := do
  let rows ← payloadRows payload
  let spec ← filterSpec params
  let values ← gather (fun row => do
    let found ← matchesFilter spec row
    pure (if found then some row else none)) rows
  pure values.reduceOption

/-- `_rank(payload, params)` -/
def rank (py : Python) (payload : Payload) (params : Row) : Except String (List Row) := do
  let values ← filteredRows payload params
  let field ← fieldOf (valueOf? params "field")
  let direction ← directionOf (valueOf? params "direction")
  let limit ← limitOf (valueOf? params "limit")
  let keyed ← gather (fun row => do
    let number ← numeric py (valueOf? row field)
    pure (number.map fun x => (rankKey py direction row x, row))) values
  let sorted := keyed.reduceOption.insertionSort fun a b => a.1 ≤ b.1
  pure (enumerated ((sorted.take limit).map Prod.snd))

/-! ## Row by row -/

/-- An entry of `selected_heap` -/
structure Entry where
  key : RankKey
  sequence : ℕ
  row : Row
  bytes : ℤ

/-- The order of the entries in the heap: `_ReverseKey` reverses that of the keys, two of
them are never equal, and so what else an entry has is not compared. -/
def Entry.reverseKey (entry : Entry) : RankKeyᵒᵈ := OrderDual.toDual entry.key

structure Selection where
  heap : Array Entry
  bytes : ℤ
  sequence : ℕ

def Selection.start : Selection := ⟨#[], 2, 0⟩

/-- The check of a size against `remaining_bytes` -/
def withinBytes (remainingBytes : Option ℤ) (projected : ℤ) : Except String Unit :=
  refuse (∃ remaining ∈ remainingBytes, remaining < projected) "query result exceeds byte budget"

def admitEntry (limit : ℕ) (remainingBytes : Option ℤ) (s : Selection) (entry : Entry) :
    Except String Selection :=
  if s.heap.size < limit then do
    let projected := s.bytes + entry.bytes + if s.heap.size = 0 then 0 else 1
    withinBytes remainingBytes projected
    pure ⟨heappush Entry.reverseKey s.heap entry, projected, s.sequence + 1⟩
  else do
    let worst ← need s.heap[0]? "IndexError"
    if entry.key < worst.key then do
      let (removed, heap) ← need (heapreplace Entry.reverseKey s.heap entry) "IndexError"
      let projected := s.bytes - removed.bytes + entry.bytes
      withinBytes remainingBytes projected
      pure ⟨heap, projected, s.sequence + 1⟩
    else pure { s with sequence := s.sequence + 1 }

def rowKey (py : Python) (spec : FilterSpec) (field : String) (direction : Direction) (row : Row) :
    Except String (Option RankKey) := do
  let found ← matchesFilter spec row
  if found = false then pure none
  else do
    let number ← numeric py (valueOf? row field)
    pure (number.map (rankKey py direction row))

def rankStep (py : Python) (spec : FilterSpec) (field : String) (direction : Direction)
    (limit : ℕ) (remainingBytes : Option ℤ) (s : Selection) (row : Row) :
    Except String Selection := do
  match ← rowKey py spec field direction row with
  | none => pure s
  | some key => admitEntry limit remainingBytes s ⟨key, s.sequence, row, py.jsonBytes row + 32⟩

def Selection.rows (s : Selection) : List Row :=
  (s.heap.toList.insertionSort fun a b => toLex (a.key, a.sequence) ≤ toLex (b.key, b.sequence)).map
    Entry.row

/-- `_stream_rank(path, params, remaining_rows=…, remaining_bytes=…)`, of the rows of the
file -/
def streamRank (py : Python) (rows : List Row) (params : Row)
    (remainingRows remainingBytes : Option ℤ) : Except String (List Row) := do
  let spec ← filterSpec params
  let field ← fieldOf (valueOf? params "field")
  let direction ← directionOf (valueOf? params "direction")
  let limit ← limitOf (valueOf? params "limit")
  refuse (∃ remaining ∈ remainingRows, remaining < limit) "query result exceeds row budget"
  let s ← walk (rankStep py spec field direction limit remainingBytes) .start rows
  pure (enumerated s.rows)

end Ahunter.Research
