import WooTftpd.Access

namespace WooTftpd
open Lib
set_option autoImplicit true

/-- A component `..` after a slash, with a slash or the end of the name behind it. -/
def HasReverse (name : List UInt8) : Prop :=
  ∃ pre post, name = pre ++ [slash, period, period] ++ post ∧
    (post = [] ∨ post.head? = some slash)

theorem append_reverse_append (pre post : List UInt8) :
    pre ++ reverse ++ post = pre ++ [slash, period, period] ++ slash :: post := by
  rw [List.append_assoc, List.append_assoc]
  rfl

theorem HasReverse.goesOn (h : HasReverse pre) (hs : rest.head? = some slash)
    (hl : 1 < rest.length) : reversePath (pre ++ rest) = true := by
  obtain ⟨a, b, rfl, hb⟩ := h
  obtain ⟨tl, ht⟩ : ∃ tl, b ++ rest = slash :: tl := by
    rcases hb with rfl | hb
    · exact ⟨_, List.eq_cons_of_mem_head? hs⟩
    · refine ⟨_, List.eq_cons_of_mem_head? ?_⟩
      rw [List.head?_append, hb]
      rfl
  refine (reversePath_iff _).2 ⟨a, tl, ?_, ?_⟩
  · rw [append_reverse_append, List.append_assoc _ b, ht]
  · rintro rfl
    have hlen := congrArg List.length ht
    rw [List.length_append, List.length_singleton] at hlen
    omega

end WooTftpd
