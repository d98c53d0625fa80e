import Ahunter.Lib.Attempt
import Ahunter.Lib.Rounding
import Mathlib.Data.Int.Log

/-!
# Conflicting observations

When a product has a tolerance every provider's observation of it is kept and
the payloads are compared before one of them is published. Payloads are JSON
values: objects with the same keys and arrays of the same length are compared
part by part, two numbers by their relative distance and everything else by
equality. A number is whatever `float` makes a finite double of, so a truth
value and the text of a number are numbers too, and an integer beyond the
doubles makes the comparison raise.

Doubles are rational numbers; the one rounding that matters here is that of a
distance, which is never negative.
-/

namespace Ahunter.Products

open Ahunter.Lib

/-! ## Doubles -/

inductive Double
  | finite (value : ℚ)
  | infinite (negative : Bool)
  | nan
deriving DecidableEq

/-- The double nearest to a number that is not negative; `none` is infinity. -/
def nearestDouble (x : ℚ) : Option ℚ :=
  if x = 0 then some 0
  else
    let unit : ℚ := 2 ^ max (Int.log 2 x - 52) (-1074)
    let rounded := halfEven (x / unit) * unit
    if rounded < 2 ^ 1024 then some rounded else none

/-- `distance > tolerance` -/
def exceeds : Option ℚ → Double → Bool
  | some distance, .finite tolerance => tolerance < distance
  | none, .finite _ => true
  | _, .infinite negative => negative
  | _, .nan => false

/-- `abs(left - right) / max(abs(left), abs(right), 1.0) > tolerance` -/
def farApart (tolerance : Double) (left right : ℚ) : Bool :=
  exceeds ((nearestDouble |left - right|).bind fun distance =>
    nearestDouble (distance / max (max |left| |right|) 1)) tolerance

/-! ## Payloads -/

inductive Leaf
  | null
  | bool (value : Bool)
  | int (value : ℤ)
  | number (value : Double)
  | text (value : String)
deriving DecidableEq

/-- A JSON value; the entries of an object are in the order it lists them. -/
inductive Payload
  | leaf (value : Leaf)
  | list (items : List Payload)
  | dict (entries : List (String × Payload))

/-- `payload[key]` -/
def valueOf? (entries : List (String × Payload)) (key : String) : Option Payload :=
  (entries.find? fun e => e.1 = key).map Prod.snd

mutual

def Payload.Distinct : Payload → Prop
  | .leaf _ => True
  | .list items => distinctItems items
  | .dict entries => (entries.map Prod.fst).Nodup ∧ distinctEntries entries

def distinctItems : List Payload → Prop
  | [] => True
  | item :: items => item.Distinct ∧ distinctItems items

def distinctEntries : List (String × Payload) → Prop
  | [] => True
  | (_, value) :: entries => value.Distinct ∧ distinctEntries entries

end

/-- `float(value)`, where it is a double, with `floatText` for texts; an
integer beyond the doubles raises. -/
def Leaf.float (floatText : String → Option Double) :
    Leaf → Except String (Option Double)
  | .null => .ok none
  | .bool value => .ok (some (.finite (if value then 1 else 0)))
  | .int value =>
      match nearestDouble |(value : ℚ)| with
      | some size => .ok (some (.finite (if value < 0 then -size else size)))
      | none => .error "OverflowError"
  | .number value => .ok (some value)
  | .text value => .ok (floatText value)

/-- `_finite_number(value)`, with the number. -/
def Leaf.finiteNumber (floatText : String → Option Double) (leaf : Leaf) :
    Except String (Option ℚ) := do
  let value ← leaf.float floatText
  match value with
  | some (.finite x) => .ok (some x)
  | _ => .ok none

/-- The number that equality compares. -/
def Leaf.exact : Leaf → Option Double
  | .bool value => some (.finite (if value then 1 else 0))
  | .int value => some (.finite value)
  | .number value => some value
  | _ => none

/-- Two numbers that are not equal; nothing is equal to what is no number. -/
def unequal : Option Double → Option Double → Bool
  | some x, some y => x = .nan || x ≠ y
  | _, _ => true

/-- `left != right` -/
def Leaf.differs : Leaf → Leaf → Bool
  | .null, .null => false
  | .text left, .text right => left ≠ right
  | left, right => unequal left.exact right.exact

/-- `_payload_conflict` of two values that are not objects or arrays. -/
def leafConflict (floatText : String → Option Double) (tolerance : Double)
    (left right : Leaf) : Except String Bool := do
  let x ← left.finiteNumber floatText
  match x with
  | none => .ok (left.differs right)
  | some x => do
      let y ← right.finiteNumber floatText
      match y with
      | none => .ok (left.differs right)
      | some y => .ok (farApart tolerance x y)

mutual

/-- `_payload_conflict(left, right, tolerance)` -/
def payloadConflict (floatText : String → Option Double) (tolerance : Double) :
    Payload → Payload → Except String Bool
  | .dict left, .dict right =>
      if (∀ e ∈ left, e.1 ∈ right.map Prod.fst) ∧ ∀ e ∈ right, e.1 ∈ left.map Prod.fst then
        entriesConflict floatText tolerance left right
      else .ok true
  | .list left, .list right =>
      if left.length = right.length then itemsConflict floatText tolerance left right
      else .ok true
  | .leaf left, .leaf right => leafConflict floatText tolerance left right
  | .leaf left, _ => do
      let _ ← left.finiteNumber floatText
      .ok true
  | _, _ => .ok true

def itemsConflict (floatText : String → Option Double) (tolerance : Double) :
    List Payload → List Payload → Except String Bool
  | left :: lefts, right :: rights => do
      let conflict ← payloadConflict floatText tolerance left right
      if conflict then .ok true else itemsConflict floatText tolerance lefts rights
  | _, _ => .ok false

def entriesConflict (floatText : String → Option Double) (tolerance : Double) :
    List (String × Payload) → List (String × Payload) → Except String Bool
  | [], _ => .ok false
  | (key, left) :: lefts, rights =>
      match valueOf? rights key with
      | none => .error "KeyError"
      | some right => do
          let conflict ← payloadConflict floatText tolerance left right
          if conflict then .ok true else entriesConflict floatText tolerance lefts rights

end

/-! ## Observations -/

/-- The loop of `_conflicts`. -/
def conflictsWith (floatText : String → Option Double) (tolerance : Double)
    (first : Payload) : List Payload → Except String Bool
  | [] => .ok false
  | other :: others => do
      let conflict ← payloadConflict floatText tolerance first other
      if conflict then .ok true else conflictsWith floatText tolerance first others

/-- `_conflicts(payloads, tolerance)` -/
def conflicts (floatText : String → Option Double) (tolerance : Double) :
    List Payload → Except String Bool
  | [] => .ok false
  | [_] => .ok false
  | first :: others => conflictsWith floatText tolerance first others

/-- What becomes of the observations of a product with a tolerance. -/
inductive Verdict
  | published (payload : Payload)
  | conflicted
  | raised (error : String)

def settleProduct (floatText : String → Option Double) (tolerance : Double)
    (lastError : String) : List Payload → Verdict
  | [] => .raised lastError
  | first :: others =>
      match conflicts floatText tolerance (first :: others) with
      | .ok false => .published first
      | .ok true => .conflicted
      | .error error => .raised error

end Ahunter.Products
