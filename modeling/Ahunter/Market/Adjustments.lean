import Ahunter.Market.Repository

/-!
# Adjustment factors and research prices

A source of factors has a scale of its own. What is kept of a fetch are its
ratios, scaled so that the last date of the fetch has the factor one, and a
research price is a raw price times the factor of its date. Exact rationals
stand for the numbers; the hashes of rows and series are left out.
-/

namespace Ahunter.Market

open Ahunter.Lib
open Ahunter.Sim (Date Stamp civil)

/-- `AdjustmentError(message)` -/
def adjustmentError (message : String) : MarketError := ⟨.other, message⟩

/-- The text of `KeyError(trade_date)`. -/
def dateKeyError (day : Date) : MarketError :=
  let (y, m, d) := civil day
  ⟨.key, s!"datetime.date({y}, {m}, {d})"⟩

/-! ## The contract of a factor -/

theorem strip_isText {value : String} (h : strip value ≠ "" ∧ value.length ≤ 128) :
    IsText (strip value) :=
  ⟨strip_strip value, h.1, (length_strip value).trans h.2⟩

/-- `_require_text(value, field_name, maximum=128)` -/
def contractText (value field : String) : Attempt {text : String // IsText text} :=
  if h : strip value ≠ "" ∧ value.length ≤ 128 then .ok ⟨strip value, strip_isText h⟩
  else .error (valueError s!"{field} must be non-empty text")

/-- `AdjustmentFactor(code, trade_date, factor, source, source_at, …)` -/
def adjustmentFactor (code : String) (day : Date) (factor : ℚ) (source : String)
    (sourceAt : Stamp) (version : String) : Attempt AdjustmentFactor :=
  if hcode : isCode code = true then
    if hfactor : 0 < factor then
      if hday : day ≤ marketDate sourceAt then do
        let source ← contractText source "source"
        let version ← contractText version "algorithm_version"
        pure ⟨code, day, factor, source.1, sourceAt, version.1, hcode, hfactor, hday,
          source.2, version.2⟩
      else .error (valueError "factor trade_date cannot be after source_at")
    else .error (valueError "factor must be finite and positive")
  else .error (valueError "code must be a six-digit Shanghai or Shenzhen code")

theorem adjustmentFactor_ok {code : String} {day : Date} {factor : ℚ} {source : String}
    {sourceAt : Stamp} {version : String} {f : AdjustmentFactor}
    (h : adjustmentFactor code day factor source sourceAt version = .ok f) :
    f.code = code ∧ f.tradeDate = day ∧ f.factor = factor := by
  rw [adjustmentFactor] at h
  split at h
  · split at h
    · split at h
      · simp only [bind_ok, pure_ok] at h
        obtain ⟨text, -, label, -, rfl⟩ := h
        exact ⟨rfl, rfl, rfl⟩
      · cases h
    · cases h
  · cases h

/-- `normalize_forward_factors(code, raw_factors, source=…, source_at=…, …)` -/
def normalizeForwardFactors (code : String) (raw : List (Date × ℚ)) (source : String)
    (sourceAt fetchedAt : Stamp) (version : String) :
    Attempt (List (Fetched AdjustmentFactor)) := do
  let latest ← need raw.getLast? (adjustmentError "复权来源没有返回因子")
  refuse (∃ e ∈ raw, e.2 ≤ 0) (adjustmentError "复权因子必须为正有限数")
  refuse (¬ (raw.map Prod.fst).Pairwise (· < ·)) (adjustmentError "复权因子日期必须升序且唯一")
  let factors ← gather
    (fun e => adjustmentFactor code e.1 (e.2 / latest.2) source sourceAt version) raw
  refuse (∃ f ∈ factors.getLast?, f.factor ≠ 1) (adjustmentError "最新复权因子必须为 1")
  pure (factors.map fun f => ⟨f, fetchedAt⟩)

/-! ## Research prices -/

structure ResearchPriceBar where
  code : String
  tradeDate : Date
  opening : ℚ
  high : ℚ
  low : ℚ
  close : ℚ
  factor : ℚ
deriving DecidableEq, Repr

/-- A `ResearchPriceSeries`; the proofs are its `__post_init__`. -/
structure ResearchPriceSeries where
  code : String
  bars : List ResearchPriceBar
  nonempty : bars ≠ []
  sameCode : ∀ b ∈ bars, b.code = code
  ascending : (bars.map ResearchPriceBar.tradeDate).Pairwise (· < ·)
deriving DecidableEq

/-- `ResearchPriceSeries(code=…, bars=…)` -/
def researchPriceSeries (code : String) (bars : List ResearchPriceBar) :
    Attempt ResearchPriceSeries :=
  if hbars : bars ≠ [] then
    if hcode : ∀ b ∈ bars, b.code = code then
      if hdates : (bars.map ResearchPriceBar.tradeDate).Pairwise (· < ·) then
        .ok ⟨code, bars, hbars, hcode, hdates⟩
      else .error (adjustmentError "研究价格日期必须升序且唯一")
    else .error (adjustmentError "研究价格序列包含其他证券")
  else .error (adjustmentError "研究价格序列不能为空")

theorem researchPriceSeries_ok {code : String} {bars : List ResearchPriceBar}
    {series : ResearchPriceSeries} (h : researchPriceSeries code bars = .ok series) :
    series.bars = bars := by
  rw [researchPriceSeries] at h
  split at h
  · split at h
    · split at h
      · cases h
        rfl
      · cases h
    · cases h
  · cases h

def adjustedBar (code : String) (bar : CanonicalDailyBar) (factor : ℚ) : ResearchPriceBar :=
  ⟨code, bar.tradeDate, bar.opening * factor, bar.high * factor, bar.low * factor,
    bar.close * factor, factor⟩

/-- `low <= open_price <= high and low <= close <= high` -/
def ResearchPriceBar.Bounded (b : ResearchPriceBar) : Prop :=
  (b.low ≤ b.opening ∧ b.opening ≤ b.high) ∧ b.low ≤ b.close ∧ b.close ≤ b.high

instance (b : ResearchPriceBar) : Decidable b.Bounded :=
  inferInstanceAs (Decidable (_ ∧ _))

/-- The round of `derive_forward_adjusted_prices` for one bar. -/
def deriveBar (code : String) (factors : Dict Date (Fetched AdjustmentFactor))
    (bar : Fetched CanonicalDailyBar) : Attempt ResearchPriceBar := do
  let factor ← need (factors.get? bar.content.tradeDate) (dateKeyError bar.content.tradeDate)
  refuse (factor.content.code ≠ code) (adjustmentError "复权因子与原始日线证券不匹配")
  refuse (¬ (adjustedBar code bar.content factor.content.factor).Bounded)
    (adjustmentError "前复权价格违反 OHLC 边界")
  pure (adjustedBar code bar.content factor.content.factor)

/-- `{factor.trade_date: factor for factor in factor_rows}` -/
def factorByDate (factors : List (Fetched AdjustmentFactor)) :
    Dict Date (Fetched AdjustmentFactor) :=
  Dict.ofList (factors.map fun f => (f.content.tradeDate, f))

def barDates (bars : List (Fetched CanonicalDailyBar)) : List Date :=
  bars.map fun b => b.content.tradeDate

/-- `derive_forward_adjusted_prices(bars, factors)` -/
def deriveForwardAdjustedPrices (bars : List (Fetched CanonicalDailyBar))
    (factors : List (Fetched AdjustmentFactor)) : Attempt ResearchPriceSeries := do
  let first ← need bars.head? (adjustmentError "原始日线不能为空")
  let code := first.content.code
  refuse ((∃ b ∈ bars, b.content.code ≠ code) ∨ ¬ (barDates bars).Pairwise (· < ·))
    (adjustmentError "原始日线必须是单证券升序唯一序列")
  let byDate := factorByDate factors
  refuse (byDate.entries.length ≠ factors.length) (adjustmentError "复权因子日期重复")
  refuse (¬ ((∀ day ∈ byDate.keys, day ∈ barDates bars) ∧
      ∀ day ∈ barDates bars, day ∈ byDate.keys))
    (adjustmentError "原始日线与复权因子日期不完整匹配")
  let research ← gather (deriveBar code byDate) bars
  researchPriceSeries code research

end Ahunter.Market
