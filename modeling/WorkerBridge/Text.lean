import Mathlib.Data.List.DropRight
import Mathlib.Data.List.Infix

/-- Python's `str`, as the list of its code points. -/
abbrev Text := List Char

namespace Text

instance : LawfulBEq Text := inferInstance

def isSpace (c : Char) : Bool :=
  let n := c.toNat
  (0x09 ≤ n && n ≤ 0x0D) || (0x1C ≤ n && n ≤ 0x20) || n == 0x85 || n == 0xA0 || n == 0x1680 ||
    (0x2000 ≤ n && n ≤ 0x200A) || n == 0x2028 || n == 0x2029 || n == 0x202F || n == 0x205F ||
    n == 0x3000

def strip (t : Text) : Text := (t.dropWhile isSpace).rdropWhile isSpace

/-- `str.lower()` on ASCII letters.  The only use looks for `timeout` in the result.
Of the other letters only `İ` gives one of these seven, an `i` with a combining
dot after it, so they neither make nor break a match. -/
def lower (t : Text) : Text := t.map Char.toLower

/-- `str.upper()` of one character, for those that become ASCII letters. -/
def upperChar : Char → Text
  | 'ı' => ['I']
  | 'ſ' => ['S']
  | 'ﬅ' | 'ﬆ' => ['S', 'T']
  | c => [c.toUpper]

/-- `str.upper()`.  The only use looks the result up among ASCII names, none of which has two
equal letters or an `F` before `F`, `I` or `L`, as the other ligatures would give. -/
def upper (t : Text) : Text := t.flatMap upperChar

/-- `needle in t`. -/
def has (t needle : Text) : Bool := decide (needle <:+: t)

def orElse (a b : Text) : Text := if a.isEmpty then b else a

theorem orElse_ne_nil {a b : Text} (h : b ≠ []) : orElse a b ≠ [] := by
  unfold orElse
  split
  · exact h
  · next ha => exact fun he => ha (List.isEmpty_iff.mpr he)

theorem forall_mem_of_all {p : Char → Prop} [DecidablePred p] {t : Text}
    (h : (t.all fun c => decide (p c)) = true) : ∀ c ∈ t, p c := by
  intro c hc
  simpa using List.all_eq_true.mp h c hc

def joinComma (parts : List Text) : Text := ", ".toList.intercalate parts

end Text
