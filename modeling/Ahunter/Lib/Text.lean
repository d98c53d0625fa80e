import Mathlib.Data.List.DropRight
import Mathlib.Data.String.Basic

/-!
# Text

The classes of characters that the patterns and the trimming of a text go
by, over the whole of Unicode and not its first block.
-/

namespace Ahunter.Lib

/-- The characters `str.strip()` removes. -/
def isSpace (c : Char) : Bool :=
  let n := c.toNat
  decide (0x09 ≤ n ∧ n ≤ 0x0D ∨ 0x1C ≤ n ∧ n ≤ 0x20 ∨ n = 0x85 ∨ n = 0xA0 ∨ n = 0x1680
    ∨ 0x2000 ≤ n ∧ n ≤ 0x200A ∨ n = 0x2028 ∨ n = 0x2029 ∨ n = 0x202F ∨ n = 0x205F
    ∨ n = 0x3000)

/-- `text.strip()` -/
def strip (text : String) : String :=
  String.ofList ((text.toList.dropWhile isSpace).reverse.dropWhile isSpace).reverse

theorem toList_strip (text : String) :
    (strip text).toList = (text.toList.dropWhile isSpace).rdropWhile isSpace := by
  rw [strip, String.toList_ofList, List.rdropWhile]

theorem strip_strip (text : String) : strip (strip text) = strip text := by
  have hpre := List.rdropWhile_prefix isSpace (l := text.toList.dropWhile isSpace)
  have hhead : ((text.toList.dropWhile isSpace).rdropWhile isSpace).dropWhile isSpace
      = (text.toList.dropWhile isSpace).rdropWhile isSpace := by
    rw [List.dropWhile_eq_self_iff]
    intro hlength
    rw [hpre.getElem hlength]
    exact List.dropWhile_get_zero_not _ _ _
  apply String.toList_inj.mp
  rw [toList_strip, toList_strip, hhead, List.rdropWhile_idempotent]

theorem length_strip (text : String) : (strip text).length ≤ text.length := by
  rw [← String.length_toList, ← String.length_toList, toList_strip]
  calc ((text.toList.dropWhile isSpace).rdropWhile isSpace).length
      ≤ (text.toList.dropWhile isSpace).length :=
        (List.rdropWhile_prefix isSpace _).length_le
    _ ≤ text.toList.length := List.length_dropWhile_le _ _

def decimalZeros : List ℕ := [
  0x30, 0x660, 0x6F0, 0x7C0, 0x966, 0x9E6, 0xA66, 0xAE6, 0xB66, 0xBE6, 0xC66, 0xCE6, 0xD66,
  0xDE6, 0xE50, 0xED0, 0xF20, 0x1040, 0x1090, 0x17E0, 0x1810, 0x1946, 0x19D0, 0x1A80, 0x1A90,
  0x1B50, 0x1BB0, 0x1C40, 0x1C50, 0xA620, 0xA8D0, 0xA900, 0xA9D0, 0xA9F0, 0xAA50, 0xABF0,
  0xFF10, 0x104A0, 0x10D30, 0x11066, 0x110F0, 0x11136, 0x111D0, 0x112F0, 0x11450, 0x114D0,
  0x11650, 0x116C0, 0x11730, 0x118E0, 0x11950, 0x11C50, 0x11D50, 0x11DA0, 0x16A60, 0x16AC0,
  0x16B50, 0x1D7CE, 0x1D7D8, 0x1D7E2, 0x1D7EC, 0x1D7F6, 0x1E140, 0x1E2F0, 0x1E950, 0x1FBF0]

/-- What `\d` matches. -/
def isDecimal (c : Char) : Bool :=
  decimalZeros.any fun start => decide (start ≤ c.toNat ∧ c.toNat < start + 10)

/-- What `[0-9a-f]{64}` matches. -/
def isHash (text : String) : Bool :=
  decide (text.length = 64) && text.toList.all fun c =>
    c.isDigit || decide ('a' ≤ c ∧ c ≤ 'f')

end Ahunter.Lib
