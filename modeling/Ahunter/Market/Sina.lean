import Ahunter.Market.Universe
import Ahunter.Products.Conflicts

/-!
# The Sina source of daily bars

One provider answers three questions from one endpoint: the daily bars of a
security, those of an index, and which sessions it takes for suspended. The
endpoint is asked for a number of rows, which it counts back from today; the
window is cut out of what comes back. A session of the last window for which
no bar was kept is proof of an absence.

The web is a function from a request and its attempt to what comes back, so
that the limiter and the sleeps between attempts are left out. So are the
adjustment factors, the node pages and the time zone checks of a clock, which
here returns an aware time or none.
-/

namespace Ahunter.Market.Sina

open Ahunter.Lib
open Ahunter.Products (Payload Leaf Double valueOf?)
open Ahunter.Sim (Date Stamp)

/-- `MarketProviderError(message)` -/
def providerError (message : String) : MarketError := ⟨.provider, message⟩

/-! ## Fields of a row -/

structure Python where
  /-- `float(text)`, if it is the text of a number -/
  floatText : String → Option Double
  /-- `date.fromisoformat(text)` -/
  dateText : String → Option Date
  /-- `repr(number)` -/
  repr : Double → String

/-- `str(value)`; that of a list or an object begins with a bracket, and nothing
here reads such a text. -/
def Python.str (py : Python) : Payload → Option String
  | .leaf .null => some "None"
  | .leaf (.bool value) => some (if value then "True" else "False")
  | .leaf (.int value) => some (toString value)
  | .leaf (.number value) => some (py.repr value)
  | .leaf (.text value) => some value
  | _ => none

/-- `float(value)`, where it does not raise and is finite. -/
def Python.float (py : Python) : Payload → Option ℚ
  | .leaf leaf =>
      match leaf.finiteNumber py.floatText with
      | .ok value => value
      | .error _ => none
  | _ => none

/-- `isinstance(value, bool)` -/
def isBool : Payload → Bool
  | .leaf (.bool _) => true
  | _ => false

def digitOf (c : Char) : ℕ :=
  match decimalZeros.find? fun start => decide (start ≤ c.toNat ∧ c.toNat < start + 10) with
  | some start => c.toNat - start
  | none => 0

/-- `int(text)` of a text of digits -/
def natOf (digits : List Char) : ℕ := digits.foldl (fun n c => 10 * n + digitOf c) 0

section Fields

variable (py : Python)

/-- `_positive_number(value, field_name)` -/
def positiveNumber (value : Payload) (fieldName : String) : Attempt ℚ := do
  refuse (isBool value = true) (providerError s!"新浪{fieldName}无效")
  let result ← need (py.float value) (providerError s!"新浪{fieldName}无效")
  refuse (result ≤ 0) (providerError s!"新浪{fieldName}无效")
  pure result

/-- `_share_volume(value)`; `int` refuses a text of more than 4300 digits -/
def shareVolume (value : Payload) : Attempt ℕ := do
  refuse (isBool value = true) (providerError "新浪成交量无效")
  let text ← need (py.str value) (providerError "新浪成交量必须是整数股")
  let digits := (strip text).toList
  refuse (digits = [] ∨ digits.all isDecimal = false) (providerError "新浪成交量必须是整数股")
  refuse (4300 < digits.length) (valueError
    (s!"Exceeds the limit (4300 digits) for integer string conversion: value has "
      ++ s!"{digits.length} digits; use sys.set_int_max_str_digits() to increase the limit"))
  pure (natOf digits)

abbrev Entries := List (String × Payload)

/-- `row[key]` -/
def item (row : Entries) (key : String) : Attempt Payload :=
  need (valueOf? row key) ⟨.key, "\x27" ++ key ++ "\x27"⟩

/-- `_is_suspension_placeholder(row)` -/
def isSuspensionPlaceholder (row : Entries) : Bool :=
  let fields := ["open", "high", "low", "close", "volume"].map (valueOf? row)
  if fields.any (fun field => field.any isBool) then false
  else
    match (valueOf? row "open").bind py.float, (valueOf? row "high").bind py.float,
      (valueOf? row "low").bind py.float,
      item row "close" >>= fun value => positiveNumber py value "收盘价",
      item row "volume" >>= shareVolume py with
    | some opening, some high, some low, .ok _, .ok volume =>
        opening = 0 ∧ high = 0 ∧ low = 0 ∧ volume = 0
    | _, _, _, _, _ => false

/-- `date.fromisoformat(str(row["day"]))` -/
def rowDay (row : Entries) : Attempt Date := do
  let value ← item row "day"
  need ((py.str value).bind py.dateText) (providerError "新浪日线日期无效")

end Fields

/-! ## Parsing -/

/-- `_validate_window(start, end, fetched_at)` -/
def validateWindow (start finish : Date) (fetchedAt : Stamp) : Attempt Unit := do
  refuse (finish < start) (providerError "新浪日线结束日期无效")
  refuse (marketDate fetchedAt < finish) (providerError "不能请求未来日期的新浪日线")
  refuse (2000 < finish - start + 10)
    (providerError "新浪公开接口单次请求不能完整覆盖该日期范围")

/-- `_datalen(start, end)` -/
def datalen (start finish : Date) : ℕ :=
  (min 2000 (max 10 (finish - start + 1))).toNat

def canonicalBar (code : String) (day : Date) (opening high low close : ℚ) (volume : ℕ)
    (fetchedAt : Stamp) : Attempt (Fetched CanonicalDailyBar) :=
  if h : isCode code = true ∧ day ≤ marketDate fetchedAt ∧
      (0 < opening ∧ 0 < high ∧ 0 < low ∧ 0 < close) ∧
      (low ≤ opening ∧ opening ≤ high) ∧ low ≤ close ∧ close ≤ high then
    .ok ⟨{ code := code, tradeDate := day, opening := opening, high := high, low := low,
           close := close, volume := volume, amount := none, source := "sina",
           sourceAt := fetchedAt, asOfDate := day, codeValid := h.1,
           observed := ⟨le_refl day, h.2.1⟩, pricesPositive := h.2.2.1,
           bounds := h.2.2.2, amountNonneg := noAmount_nonneg, sourceText := by decide }, fetchedAt⟩
  else .error (providerError "新浪日线不满足规范契约")

/-- What the loop over the rows carries. -/
structure Parsing where
  previous : Option Date
  parsed : List (Fetched CanonicalDailyBar)

/-- `{"day", "open", "high", "low", "close", "volume"}` -/
def allowedFields : List String := ["day", "open", "high", "low", "close", "volume"]

section Parse

variable (py : Python) (code : String) (start finish : Date) (fetchedAt : Stamp)

def parseTraded (row : Entries) (day : Date) (bars : List (Fetched CanonicalDailyBar)) :
    Attempt (List (Fetched CanonicalDailyBar)) := do
  let opening ← item row "open" >>= fun value => positiveNumber py value "开盘价"
  let high ← item row "high" >>= fun value => positiveNumber py value "最高价"
  let low ← item row "low" >>= fun value => positiveNumber py value "最低价"
  let close ← item row "close" >>= fun value => positiveNumber py value "收盘价"
  let volume ← item row "volume" >>= shareVolume py
  if start ≤ day ∧ day ≤ finish then do
    let bar ← canonicalBar code day opening high low close volume fetchedAt
    pure (bars ++ [bar])
  else pure bars

/-- `row` as the loop takes it: an object with exactly the fields of the contract. -/
def rowFields : Payload → Attempt Entries
  | .dict row => do
      refuse (¬ ((∀ e ∈ row, e.1 ∈ allowedFields) ∧ ∀ key ∈ allowedFields, key ∈ row.map Prod.fst))
        (providerError "新浪日线字段集合不符合公开接口契约")
      pure row
  | _ => .error (providerError "新浪日线字段集合不符合公开接口契约")

/-- One round of the loop of `parse_sina_daily_bars`. -/
def parseRow (p : Parsing) (payload : Payload) : Attempt Parsing := do
  let row ← rowFields payload
  let day ← rowDay py row
  refuse (∃ previous ∈ p.previous, day ≤ previous)
    (providerError "新浪日线日期必须严格升序且唯一")
  refuse (marketDate fetchedAt < day) (providerError "新浪日线包含未来日期")
  if isSuspensionPlaceholder py row then pure ⟨some day, p.parsed⟩
  else do
    let bars ← parseTraded py code start finish fetchedAt row day p.parsed
    pure ⟨some day, bars⟩

/-- `parse_sina_daily_bars(payload, …, allow_empty=True)` -/
def parseSinaDailyBars (rows : List Payload) : Attempt (List (Fetched CanonicalDailyBar)) := do
  validateWindow start finish fetchedAt
  let p ← walk (parseRow py code start finish fetchedAt) ⟨none, []⟩ rows
  pure p.parsed

end Parse

/-! ## Requests -/

/-- What `_request` and its caller read of a response. -/
structure Response where
  statusCode : Option ℤ
  /-- `raise_for_status()` returns -/
  accepted : Bool
  contentType : String
  /-- `json()`, unless it raises -/
  payload : Option Payload

inductive Reply
  | raised
  | response (r : Response)

/-- What a request for a symbol and a number of rows comes to at an attempt. -/
abbrev Web := String → ℕ → ℕ → Reply

/-- `status == 429 or 500 <= status <= 599` -/
def Response.unavailable (r : Response) : Bool :=
  r.statusCode.any fun status => decide (status = 429 ∨ 500 ≤ status ∧ status ≤ 599)

/-- `_request(url, purpose)` from an attempt on, with some of them left -/
def request (purpose : String) (replies : ℕ → Reply) : ℕ → ℕ → Attempt Response
  | _, 0 => .error (providerError s!"{purpose}在有界重试后仍不可用")
  | attempt, left + 1 =>
      match replies attempt with
      | .raised => request purpose replies (attempt + 1) left
      | .response r =>
          if r.unavailable then request purpose replies (attempt + 1) left
          else if r.accepted then .ok r
          else .error (providerError s!"{purpose}请求被拒绝")

/-- `payload[key] if isinstance(payload, dict) else None` -/
def field (key : String) : Option Payload → Option Payload
  | some (.dict entries) => valueOf? entries key
  | _ => none

/-- `code in {0, "0"}`, of a code that has a hash -/
def isSuccess : Option Payload → Bool
  | some (.leaf (.text code)) => code = "0"
  | some (.leaf leaf) => leaf.exact = some (.finite 0)
  | _ => false

/-- `_openapi_daily_rows(payload)` -/
def openapiDailyRows (payload : Payload) : Attempt (List Payload) := do
  let result := field "result" (some payload)
  match field "code" (field "status" result) with
  | some (.list _) => .error ⟨.other, "unhashable type: \x27list\x27"⟩
  | some (.dict _) => .error ⟨.other, "unhashable type: \x27dict\x27"⟩
  | code =>
      match isSuccess code, field "data" result with
      | true, some (.list rows) => .ok rows
      | _, _ => .error (providerError "新浪日线响应状态或数据无效")

/-! ## The provider -/

/-- The last fetch that came through. -/
structure Cache where
  symbol : String
  code : String
  start : Date
  finish : Date
  bars : List (Fetched CanonicalDailyBar)
  fetchedAt : Stamp

structure Provider where
  maxAttempts : ℕ
  cached : Option Cache
  attemptsBounded : 1 ≤ maxAttempts ∧ maxAttempts ≤ 3

section Fetches

variable (py : Python) (web : Web) (clock : Option Stamp)

/-- `_fetch_symbol(symbol, code, start, end)` -/
def fetchSymbol (symbol code : String) (start finish : Date) (p : Provider) :
    Attempt (List (Fetched CanonicalDailyBar) × Provider) := do
  let fetchedAt ← need clock (providerError "新浪抓取时钟必须带时区")
  validateWindow start finish fetchedAt
  let response ← request "新浪日线" (web symbol (datalen start finish)) 1 p.maxAttempts
  refuse (response.contentType.startsWith "application/json" = false)
    (providerError "新浪日线返回了非 JSON 内容")
  let payload ← need response.payload (providerError "新浪日线 JSON 无法解析")
  let rows ← openapiDailyRows payload
  let bars ← parseSinaDailyBars py code start finish fetchedAt rows
  pure (bars, { p with cached := some ⟨symbol, code, start, finish, bars, fetchedAt⟩ })

/-- `f"{'sh' if exchange == 'SH' else 'sz'}{code}"` -/
def symbolOf (exchange : Exchange) (code : String) : String :=
  match exchange with
  | .sh => "sh" ++ code
  | .sz => "sz" ++ code

/-- `fetch_daily_bars(code, start, end)` -/
def fetchDailyBars (code : String) (start finish : Date) (p : Provider) :
    Attempt (List (Fetched CanonicalDailyBar) × Provider) :=
  match exchangeForCode code with
  | .error _ => .error (providerError "证券代码不属于沪深 A 股范围")
  | .ok exchange => do
      refuse (code.startsWith "689" = true) (providerError "CDR 不在 Market Daily 范围内")
      fetchSymbol py web clock (symbolOf exchange code) code start finish p

end Fetches

/-- `MarketAbsence(code, trade_date, "suspended", "sina_no_daily_bar", at, at)` -/
def marketAbsence (code : String) (fetchedAt : Stamp) (day : Date) :
    Attempt (Fetched MarketAbsence) :=
  if hcode : isCode code = true then
    if hday : day ≤ marketDate fetchedAt then
      .ok ⟨⟨code, day, "sina_no_daily_bar", fetchedAt, hcode, hday, by decide⟩, fetchedAt⟩
    else .error (contractError "absence trade_date cannot be after source_at")
  else .error (contractError "code must be a six-digit Shanghai or Shenzhen code")

/-- `absences_for(code, sessions, now)` -/
def absencesFor (code : String) (sessions : List Date) (now : Option Stamp) (p : Provider) :
    Attempt (List (Fetched MarketAbsence)) :=
  if sessions = [] then .ok []
  else
    match p.cached with
    | none => .ok []
    | some c =>
        if c.code ≠ code ∨ ∃ day ∈ sessions, ¬ (c.start ≤ day ∧ day ≤ c.finish) then .ok []
        else do
          let _ ← need now (providerError "新浪停牌观察时间必须带时区")
          let observed := c.bars.map fun b => b.content.tradeDate
          gather (marketAbsence code c.fetchedAt) (sessions.filter fun day => day ∉ observed)

end Ahunter.Market.Sina
