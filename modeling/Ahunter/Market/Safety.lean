import Ahunter.Lib.Pattern
import Ahunter.Lib.Text
import Ahunter.Products.Conflicts

/-!
# The safety of what a market report says

A report on the market may not turn into advice on a named security. What a
reader would see of an output, the keys included, is searched for fields and
phrases that are forbidden in themselves, and for an action on a security:
words of action and a security's code or name in one text, or apart in the
texts of the whole output set one below the other. The names of sources in the
evidence that the contract provides for take no part in the latter.

Which characters are letters or digits is the Unicode database's and is taken as
given.
-/

namespace Ahunter.Market

open Ahunter.Lib Ahunter.Products

/-! ## The patterns -/

def foldCase (c : Char) : Char :=
  if c = '\u0130' ∨ c = '\u0131' then 'i'
  else if c = '\u017f' then 's'
  else if c = '\u212a' then 'k'
  else c.toLower

def word (text : String) : Pattern := .literal (fun c d => c = foldCase d) text

def words (texts : List String) : Pattern := .alts (texts.map word)

def exactly (text : String) : Pattern := .literal (fun c d => c = d) text

/-- `[ab]` -/
def among (chars : String) : Pattern := .char fun c => chars.toList.contains c

/-- `[0-9A-Za-z]` in either case -/
def codeChar (c : Char) : Bool := (foldCase c).isAlphanum

def digits (n : ℕ) : Pattern := .seqs (List.replicate n (.char Char.isDigit))

/-- `_A_SHARE_CODE` -/
def aShareCode : Pattern :=
  .seqs [
    .notBehind codeChar,
    .opt (.seq (words ["sh", "sz", "bj"]) (.opt (among "._-"))),
    .alts [.seq (exactly "00") (among "0123"), .seq (exactly "30") (among "01"),
      .seq (exactly "60") (among "0135"), .seq (exactly "68") (among "89"),
      .seq (among "489") (digits 2)],
    digits 3,
    .notAhead codeChar]

/-- `\d{n}` -/
def decimals (n : ℕ) : Pattern := .seqs (List.replicate n (.char isDecimal))

/-- `_TIMESTAMP` -/
def timestamp : Pattern :=
  .seqs [
    .notBehind Char.isAlphanum,
    decimals 4, exactly "-", decimals 2, exactly "-", decimals 2, among "T ",
    decimals 2, exactly ":", decimals 2, exactly ":", decimals 2,
    .opt (.seq (exactly ".") (.oneOrMore isDecimal)),
    .opt (.alts [exactly "Z", .seqs [among "+-", decimals 2, exactly ":", decimals 2]]),
    .notAhead Char.isAlphanum]

/-- `_SECURITY_ACTION` -/
def securityAction : Pattern :=
  .alts [
    words ["买入", "卖出", "持有", "加仓", "减仓", "建仓", "清仓", "推荐", "看多", "看空", "看好",
      "做多", "做空", "关注", "回避", "布局", "增持", "减持", "超配", "低配", "介入", "止损", "持仓",
      "值得买", "可以买", "可买入", "适合买入", "适合做多", "低吸", "上车", "加大配置", "配置", "首选",
      "优选", "投资价值", "高估", "低估", "上涨", "下跌", "跑赢", "跑输", "强势", "弱势", "买", "卖",
      "buy", "sell", "hold", "long", "short", "bullish", "bearish"],
    .seqs [word "top", .opt (among " -"), word "pick"],
    words ["overweight", "underweight"]]

/-- What is advised, of the words that are no advice by themselves. -/
def stances : List String :=
  ["投资", "持仓", "配置", "布局", "建仓", "买入", "卖出", "加仓", "减仓", "做多", "做空", "关注"]

def advising : Pattern :=
  .alts [words ["建议", "推荐", "值得", "适合", "应该", "应当", "宜", "可以"],
    .seq (word "可") (words stances)]

/-- `_RECOMMENDATION_CONSTRUCT` -/
def recommendationConstruct : Pattern := advising.before (words stances)

/-- `FORBIDDEN_MARKET_CONCLUSION_KEYS` -/
def forbiddenMarketConclusionKeys : List String :=
  ["candidate", "candidates", "research_candidate", "stance", "price_range", "target_price",
    "position", "position_limit", "trade", "trade_action", "security_recommendation",
    "child_request", "child_requests", "buy", "sell"]

/-- `_FORBIDDEN_MARKET_TEXT` -/
def forbiddenMarketText (isAlnum : Char → Bool) : Pattern :=
  .alts [
    words ["候选股", "股票候选", "个股推荐"],
    .seq (words ["建议", "推荐"]) (words ["买入", "卖出", "加仓", "减仓"]),
    words ["目标价", "仓位", "交易指令"],
    .seq (words ["watch_buy", "watch_add", "watch_reduce", "watch_exit", "buy", "sell"])
      (.boundary fun c => isAlnum c || c = '_')]

/-! ## Texts -/

/-- `_TIMESTAMP.sub(" ", text)` -/
def withoutTimestamps (text : List Char) : List Char := timestamp.sub [' '] text

/-- `contains_per_security_action` of the characters of a text -/
def actsOnSecurity (securityNames : List String) (text : List Char) : Bool :=
  let text := withoutTimestamps text
  if securityAction.search text || recommendationConstruct.search text then
    aShareCode.search text ||
      securityNames.any fun name => name ≠ "" && decide (name.toList <:+: text)
  else false

def containsPerSecurityAction (text : String) (securityNames : List String) : Bool :=
  actsOnSecurity securityNames text.toList

def containsForbiddenMarketText (isAlnum : Char → Bool) (text : String) : Bool :=
  (forbiddenMarketText isAlnum).search text.toList

/-! ## Values -/

mutual

def containsForbiddenMarketFields : Payload → Bool
  | .leaf _ => false
  | .list items => forbiddenInItems items
  | .dict entries =>
      (entries.any fun e => forbiddenMarketConclusionKeys.contains e.1.toLower) ||
        forbiddenInEntries entries

def forbiddenInItems : List Payload → Bool
  | [] => false
  | item :: items => containsForbiddenMarketFields item || forbiddenInItems items

def forbiddenInEntries : List (String × Payload) → Bool
  | [] => false
  | (_, child) :: entries => containsForbiddenMarketFields child || forbiddenInEntries entries

end

mutual

def readerTextValues : Payload → List String
  | .leaf (.text text) => [text]
  | .leaf _ => []
  | .list items => textsOfItems items
  | .dict entries => textsOfEntries entries

def textsOfItems : List Payload → List String
  | [] => []
  | item :: items => readerTextValues item ++ textsOfItems items

def textsOfEntries : List (String × Payload) → List String
  | [] => []
  | (key, child) :: entries => key :: readerTextValues child ++ textsOfEntries entries

end

def containsPerSecurityActionInValues (values securityNames : List String) : Bool :=
  (values.any fun value => containsPerSecurityAction value securityNames) ||
    containsPerSecurityAction ("\n".intercalate values) securityNames

/-- An item of evidence without the fields that say where it is from. -/
def uncited : Payload → Payload
  | .dict entries =>
      .dict (entries.filter fun e =>
        e.1 ∉ ["source", "locator", "evidence_id", "observed_at"])
  | item => item

mutual

/-- `_without_evidence_provenance` -/
def withoutEvidenceProvenance : Payload → Payload
  | .dict entries => .dict (entriesWithoutProvenance entries)
  | value => value

def itemsWithoutProvenance : List Payload → List Payload
  | [] => []
  | item :: items => withoutEvidenceProvenance item :: itemsWithoutProvenance items

/-- Only the keys `evidence` and `insights` are looked at, and only lists there. -/
def entriesWithoutProvenance : List (String × Payload) → List (String × Payload)
  | [] => []
  | (key, .list items) :: entries =>
      (key,
        if key = "evidence" then .list (items.map uncited)
        else if key = "insights" then .list (itemsWithoutProvenance items)
        else .list items) :: entriesWithoutProvenance entries
  | entry :: entries => entry :: entriesWithoutProvenance entries

end

def containsUnsafeMarketOutput (isAlnum : Char → Bool) (value : Payload)
    (securityNames : List String) : Bool :=
  let textValues := readerTextValues value
  containsForbiddenMarketFields value ||
    (textValues.any fun text => containsForbiddenMarketText isAlnum text) ||
    (textValues.any fun text => containsPerSecurityAction text securityNames) ||
    containsPerSecurityActionInValues (readerTextValues (withoutEvidenceProvenance value))
      securityNames

end Ahunter.Market
