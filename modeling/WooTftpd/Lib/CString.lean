import Mathlib.Data.List.TakeWhile
import WooTftpd.Lib.Memory

namespace Lib
set_option autoImplicit true

/-- A string of C without its terminating NUL. -/
@[ext]
structure CString where
  bytes : List UInt8
  nulFree : 0 ∉ bytes

def CString.length (s : CString) : Nat := s.bytes.length

/-- The string that begins with these bytes: it ends before the first NUL. -/
def CString.ofBytes (bs : List UInt8) : CString where
  bytes := bs.takeWhile (· ≠ 0)
  nulFree := by
    intro h
    have hne := List.mem_takeWhile_imp h
    exact absurd rfl (of_decide_eq_true hne)

def Mem.strcpy (m : Mem) (a : Nat) (s : CString) : Mem := m.store a (s.bytes ++ [0])

theorem Mem.strcpy_frame (m : Mem) (s : CString) (h : i < a ∨ a + s.length + 1 ≤ i) :
    m.strcpy a s i = m i := by
  have hl : (s.bytes ++ [0]).length = s.length + 1 := List.length_append
  rcases h with h | h
  · exact store_below m _ h
  · exact store_above m _ (by omega)

/-- `n` is the room at address `a` for a string: its text and its NUL fit, and no other byte
changes. -/
structure CopiedWithin (m m' : Mem) (a n : Nat) (s : CString) : Prop where
  fits : s.length + 1 ≤ n
  stored : m'.load a (s.length + 1) = s.bytes ++ [0]
  frame : ∀ i, i < a ∨ a + n ≤ i → m' i = m i

theorem copiedWithin_strcpy_iff (m : Mem) (a n : Nat) (s : CString) :
    CopiedWithin m (m.strcpy a s) a n s ↔ s.length < n := by
  constructor
  · intro h
    exact h.fits
  · intro h
    constructor
    · exact h
    · have hl : (s.bytes ++ [0]).length = s.length + 1 := List.length_append
      rw [← hl]
      exact Mem.load_store m a _
    · intro i hi
      apply Mem.strcpy_frame
      omega

end Lib
