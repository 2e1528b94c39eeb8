import Mathlib.Data.List.Basic

namespace Lib
set_option autoImplicit true

/-- The `i`-th piece of `s` elements, counted from 0; past the end of the list it is empty. -/
def chunk (s : Nat) (xs : List α) (i : Nat) : List α := (xs.drop (i * s)).take s

theorem drop_chunk (s : Nat) (xs : List α) (i : Nat) :
    (xs.drop (i * s)).drop s = xs.drop ((i + 1) * s) := by
  rw [List.drop_drop, Nat.succ_mul]

end Lib
