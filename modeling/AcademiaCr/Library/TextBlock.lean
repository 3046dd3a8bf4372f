import AcademiaCr.Library.CArray

/-!
# Strings in blocks of memory

A block from `malloc` or `realloc` that holds a string. Writing a string that does not fit, with
its NUL, has no result.

## Main definitions

- `TextBlock`: a block, with the string in it
- `TextBlock.hold`, `strcat`, `realloc`: what the functions of C do with it
-/

namespace CLang

/-- A block of memory that holds a string and its NUL. -/
structure TextBlock where
  size : Nat
  text : CString
  fits : text.length < size

namespace TextBlock

variable {size : Nat} {text : CString}

/-- A string is copied into a block of this size. -/
def hold (size : Nat) (text : CString) : Option TextBlock :=
  if h : text.length < size then some ⟨size, text, h⟩ else none

/-- `realloc`: the string is kept in a block of another size. -/
def realloc (block : TextBlock) (size : Nat) : Option TextBlock := hold size block.text

theorem hold_of_lt (h : text.length < size) : hold size text = some ⟨size, text, h⟩ := dif_pos h

/-- A block that grows keeps its string. -/
theorem realloc_of_le {block : TextBlock} (h : block.size ≤ size) :
    ∃ grown, block.realloc size = some grown ∧ grown.size = size ∧ grown.text = block.text :=
  ⟨_, hold_of_lt (Nat.lt_of_lt_of_le block.fits h), rfl, rfl⟩

end TextBlock

/-! ## Lengths of strings -/

theorem length_str_lt {n : Nat} {a : CArray UInt8 n} (h : a.Terminated) : a.str.length < n := by
  have hle := length_str_le a
  by_contra hcut
  -- a string that takes the whole array has the NUL among its bytes
  have hwhole : a.str.1 = a.toList := by
    refine (List.takeWhile_prefix _).eq_of_length ?_
    show a.str.length = _
    rw [a.length_toList]
    omega
  exact a.str.2 (hwhole ▸ h)

namespace CString

theorem length_ofString_le (s : String) : (ofString s).length ≤ s.length := by
  refine Nat.le_trans (List.length_filter_le _ _) ?_
  exact Nat.le_of_eq ((List.length_map _).trans String.length_toList)

end CString

end CLang
