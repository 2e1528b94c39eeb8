import Mathlib.Data.Nat.Log
import Mathlib.Order.Bounds.Basic
import WooTftpd.BlockSize

namespace WooTftpd
open Lib
set_option autoImplicit true

/-- The loop of `set_blksize2` doubles as often as the size can be halved. -/
theorem halve_eq (fuel : Nat) (h : sz < 2 ^ fuel) (hpos : 0 < sz) (sz1 : Nat) :
    halve fuel sz sz1 = sz1 * 2 ^ Nat.log 2 sz := by
  induction fuel generalizing sz sz1 with
  | zero => omega
  | succ fuel ih =>
    rw [halve]
    split
    · rename_i hz
      have hlt : sz < 2 := by omega
      rw [Nat.log_of_lt hlt, Nat.pow_zero, Nat.mul_one]
    · rename_i hz
      have hle : 2 ≤ sz := by omega
      have hlog : Nat.log 2 sz = Nat.log 2 (sz / 2) + 1 :=
        Nat.log_of_one_lt_of_le (by decide) hle
      have hhalf : sz / 2 < 2 ^ fuel := by
        rw [Nat.pow_succ] at h
        omega
      rw [ih hhalf (Nat.pos_of_ne_zero hz), hlog, Nat.pow_succ, Nat.mul_assoc, Nat.mul_comm 2]

/-- The sizes that `blksize2` may negotiate for a limit. -/
def PowersUpTo (limit : Nat) : Set Nat := { p | p.isPowerOfTwo ∧ p ≤ limit }

theorem isGreatest_log (h : limit ≠ 0) : IsGreatest (PowersUpTo limit) (2 ^ Nat.log 2 limit) := by
  refine ⟨⟨⟨_, rfl⟩, Nat.pow_log_le_self 2 h⟩, ?_⟩
  rintro p ⟨⟨k, rfl⟩, hp⟩
  exact Nat.pow_le_pow_right Nat.two_pos (Nat.le_log_of_pow_le Nat.one_lt_two hp)

theorem isGreatest_self_iff (limit : Nat) :
    IsGreatest (PowersUpTo limit) limit ↔ limit.isPowerOfTwo := by
  constructor
  · intro h
    exact h.1.1
  · intro h
    exact ⟨⟨h, Nat.le_refl _⟩, fun p hp => hp.2⟩

/-- The size that `set_blksize2` negotiates. -/
def blksize2 (maxBlksize v : Nat) : Nat :=
  if maxBlksize < v then maxBlksize
  else if v &&& (v - 1) ≠ 0 then halve 64 v 1 else v

theorem setBlksize2_eq (maxBlksize : Nat) {n : Negotiated} (hn : n.blksizeSet = false)
    (hv : 8 ≤ v) :
    setBlksize2 maxBlksize v n = some (blksize2 maxBlksize v,
      { n with segsize := blksize2 maxBlksize v, blksizeSet := true }) := by
  simp only [setBlksize2, hn, Bool.false_eq_true, if_false, if_neg (Nat.not_lt_of_le hv)]
  rfl

/-- A size within the limit becomes a power of two. -/
theorem blksize2_isGreatest (hv : 8 ≤ v) (hlt : v < uintmaxLimit) (hle : v ≤ maxBlksize) :
    IsGreatest (PowersUpTo v) (blksize2 maxBlksize v) := by
  have hne : v ≠ 0 := by omega
  rw [blksize2, if_neg (Nat.not_lt_of_le hle)]
  by_cases hp : v &&& (v - 1) = 0
  · rw [if_neg (not_not_intro hp), isGreatest_self_iff]
    exact (Nat.and_sub_one_eq_zero_iff_isPowerOfTwo hne).1 hp
  · rw [if_pos hp, halve_eq 64 hlt (Nat.pos_of_ne_zero hne), Nat.one_mul]
    exact isGreatest_log hne

/-- `blksize2` is answered with the greatest power of two up to the size asked for and the
limit, exactly if the size is within the limit or the limit is itself a power of two. -/
theorem setBlksize2_powerOfTwo_iff (maxBlksize v : Nat) (n : Negotiated)
    (hn : n.blksizeSet = false) (hv : 8 ≤ v) (hlt : v < uintmaxLimit) :
    (∃ sz, setBlksize2 maxBlksize v n = some (sz, { n with segsize := sz, blksizeSet := true }) ∧
      IsGreatest (PowersUpTo (min v maxBlksize)) sz) ↔
    v ≤ maxBlksize ∨ maxBlksize.isPowerOfTwo := by
  simp only [setBlksize2_eq maxBlksize hn hv, Option.some.injEq, Prod.mk.injEq]
  constructor
  · rintro ⟨sz, ⟨rfl, _⟩, hg⟩
    by_cases hle : v ≤ maxBlksize
    · exact .inl hle
    · have hlt' : maxBlksize < v := Nat.lt_of_not_le hle
      rw [blksize2, if_pos hlt', Nat.min_eq_right (Nat.le_of_lt hlt'), isGreatest_self_iff] at hg
      exact .inr hg
  · intro h
    refine ⟨_, ⟨rfl, rfl⟩, ?_⟩
    by_cases hle : v ≤ maxBlksize
    · rw [Nat.min_eq_left hle]
      exact blksize2_isGreatest hv hlt hle
    · have hlt' : maxBlksize < v := Nat.lt_of_not_le hle
      rw [blksize2, if_pos hlt', Nat.min_eq_right (Nat.le_of_lt hlt'), isGreatest_self_iff]
      exact h.resolve_left hle

theorem blksize2_thousand :
    ∃ sz, setBlksize2 maxSegsize 1000 .default =
        some (sz, { Negotiated.default with segsize := sz, blksizeSet := true }) ∧
      IsGreatest (PowersUpTo (min 1000 maxSegsize)) sz :=
  (setBlksize2_powerOfTwo_iff maxSegsize 1000 .default rfl (by decide) (by decide)).2
    (.inl (by decide))

/-- The greatest size that can be asked for gets the limit of 65464 bytes as it is. -/
theorem blksize2_overLimit :
    setBlksize2 maxSegsize 65535 .default = some (65464,
        { Negotiated.default with segsize := 65464, blksizeSet := true }) ∧
      ¬ ∃ sz, setBlksize2 maxSegsize 65535 .default =
          some (sz, { Negotiated.default with segsize := sz, blksizeSet := true }) ∧
        IsGreatest (PowersUpTo (min 65535 maxSegsize)) sz := by
  refine ⟨rfl, ?_⟩
  rintro ⟨sz, h, hg⟩
  cases h
  have hpow := (isGreatest_self_iff maxSegsize).1 hg
  revert hpow
  decide

end WooTftpd
