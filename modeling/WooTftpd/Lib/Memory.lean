import Mathlib.Algebra.Group.Nat.Defs
import Mathlib.Data.List.Basic
import Mathlib.Data.List.GetD

namespace Lib
set_option autoImplicit true

/-- A flat byte memory. An array of a program is a range of its addresses. -/
def Mem := Nat → UInt8

namespace Mem

def zero : Mem := fun _ => 0

def store (m : Mem) (a : Nat) (bs : List UInt8) : Mem :=
  fun i => if a ≤ i then bs.getD (i - a) (m i) else m i

def load (m : Mem) (a n : Nat) : List UInt8 := (List.range n).map fun i => m (a + i)

theorem store_below (m : Mem) (bs : List UInt8) (h : i < a) : m.store a bs i = m i := by
  simp only [store, if_neg (Nat.not_le_of_lt h)]

theorem store_above (m : Mem) (bs : List UInt8) (h : a + bs.length ≤ i) :
    m.store a bs i = m i := by
  have hl : bs.length ≤ i - a := by omega
  simp only [store, List.getD_eq_default _ _ hl, ite_self]

theorem store_inside (m : Mem) (bs : List UInt8) (h : k < bs.length) :
    m.store a bs (a + k) = bs[k] := by
  simp only [store, Nat.le_add_right, if_true, Nat.add_sub_cancel_left]
  exact List.getD_eq_getElem _ _ h

@[simp] theorem length_load (m : Mem) (a n : Nat) : (m.load a n).length = n := by
  simp only [load, List.length_map, List.length_range]

theorem getElem_load (m : Mem) (h : i < (m.load a n).length) : (m.load a n)[i] = m (a + i) := by
  simp only [load, List.getElem_map, List.getElem_range]

theorem load_add (m : Mem) (a n k : Nat) :
    m.load a (n + k) = m.load a n ++ m.load (a + n) k := by
  simp only [load, List.range_add, List.map_append, List.map_map, List.append_cancel_left_eq]
  apply List.map_congr_left
  intro i _
  simp only [Function.comp_apply, Nat.add_assoc]

theorem load_congr (m m' : Mem) (h : ∀ i, a ≤ i → i < a + n → m i = m' i) :
    m.load a n = m'.load a n := by
  apply List.map_congr_left
  intro i hi
  have hin := List.mem_range.1 hi
  exact h (a + i) (by omega) (by omega)

theorem load_store_take (m : Mem) (a : Nat) (bs : List UInt8) (h : n ≤ bs.length) :
    (m.store a bs).load a n = bs.take n := by
  apply List.ext_getElem
  · simp only [length_load, List.length_take]
    omega
  · intro i hi _
    rw [length_load] at hi
    rw [getElem_load, List.getElem_take]
    exact store_inside m bs (by omega)

theorem load_store (m : Mem) (a : Nat) (bs : List UInt8) :
    (m.store a bs).load a bs.length = bs := by
  rw [load_store_take m a bs (Nat.le_refl _), List.take_length]

theorem load_store_drop (m : Mem) (a k : Nat) (bs : List UInt8) :
    (m.store a bs).load (a + k) (bs.length - k) = bs.drop k := by
  apply List.ext_getElem
  · rw [length_load, List.length_drop]
  · intro i hi _
    rw [length_load] at hi
    rw [getElem_load, List.getElem_drop, Nat.add_assoc]
    exact store_inside m bs (by omega)

theorem load_store_disjoint (m : Mem) (bs : List UInt8)
    (h : b + n ≤ a ∨ a + bs.length ≤ b) : (m.store a bs).load b n = m.load b n := by
  apply load_congr
  intro i hi hi'
  rcases h with h | h
  · exact store_below m bs (by omega)
  · exact store_above m bs (by omega)

theorem store_append (m : Mem) (a : Nat) (bs cs : List UInt8) :
    m.store a (bs ++ cs) = (m.store a bs).store (a + bs.length) cs := by
  funext i
  by_cases ha : a ≤ i
  · by_cases hb : i < a + bs.length
    · rw [store_below _ cs hb]
      simp only [store, if_pos ha]
      exact List.getD_append _ _ _ _ (by omega)
    · have hb' := Nat.le_of_not_lt hb
      have hs : i - a - bs.length = i - (a + bs.length) := by omega
      simp only [store, if_pos ha, if_pos hb']
      rw [List.getD_append_right _ _ _ _ (by omega), hs,
        List.getD_eq_default bs _ (by omega)]
  · have ha' := Nat.lt_of_not_le ha
    rw [store_below _ _ ha', store_below _ cs (by omega), store_below _ _ ha']

def be16 (x : UInt16) : List UInt8 := [.ofNat (x.toNat / 256), .ofNat x.toNat]

def u16 (m : Mem) (a : Nat) : UInt16 := .ofNat ((m a).toNat * 256 + (m (a + 1)).toNat)

theorem u16_store (m : Mem) (a : Nat) (x : UInt16) (bs : List UInt8) :
    (m.store a (be16 x ++ bs)).u16 a = x := by
  have h0 : m.store a (be16 x ++ bs) a = .ofNat (x.toNat / 256) :=
    store_inside (k := 0) m (be16 x ++ bs) (Nat.succ_pos _)
  have h1 : m.store a (be16 x ++ bs) (a + 1) = .ofNat x.toNat :=
    store_inside (k := 1) m (be16 x ++ bs) (Nat.succ_lt_succ (Nat.succ_pos _))
  have hx := x.toNat_lt
  apply UInt16.toNat_inj.1
  rw [u16, h0, h1]
  simp only [UInt16.toNat_ofNat', UInt8.toNat_ofNat']
  omega

theorem u16_eq_iff (m : Mem) (a : Nat) (x : UInt16) : m.u16 a = x ↔ m.load a 2 = be16 x := by
  have hload : m.load a 2 = [m a, m (a + 1)] := rfl
  have hx := x.toNat_lt
  have h0 := (m a).toNat_lt
  have h1 := (m (a + 1)).toNat_lt
  rw [hload]
  constructor
  · rintro rfl
    simp only [be16, u16, UInt16.toNat_ofNat', List.cons.injEq, ← UInt8.toNat_inj,
      UInt8.toNat_ofNat', and_true]
    omega
  · intro h
    obtain ⟨ha, hb⟩ : m a = .ofNat (x.toNat / 256) ∧ m (a + 1) = .ofNat x.toNat := by
      simpa only [be16, List.cons.injEq, and_true] using h
    rw [u16, ha, hb, ← UInt16.toNat_inj]
    simp only [UInt16.toNat_ofNat', UInt8.toNat_ofNat']
    omega

/-- A 32-bit number in the byte order of the host, which is little-endian. -/
def le32 (x : UInt32) : List UInt8 :=
  [.ofNat x.toNat, .ofNat (x.toNat / 2 ^ 8), .ofNat (x.toNat / 2 ^ 16), .ofNat (x.toNat / 2 ^ 24)]

@[simp] theorem length_le32 (x : UInt32) : (le32 x).length = 4 := rfl

def u32 (m : Mem) (a : Nat) : UInt32 :=
  .ofNat ((m a).toNat + (m (a + 1)).toNat * 2 ^ 8 + (m (a + 2)).toNat * 2 ^ 16 +
    (m (a + 3)).toNat * 2 ^ 24)

theorem u32_congr {m m' : Mem} (h : ∀ i, a ≤ i → i < a + 4 → m' i = m i) :
    m'.u32 a = m.u32 a := by
  rw [u32, u32, h a (by omega) (by omega), h (a + 1) (by omega) (by omega),
    h (a + 2) (by omega) (by omega), h (a + 3) (by omega) (by omega)]

theorem u32_store (m : Mem) (a : Nat) (x : UInt32) : (m.store a (le32 x)).u32 a = x := by
  have h0 : m.store a (le32 x) a = .ofNat x.toNat :=
    store_inside (k := 0) m (le32 x) (by rw [length_le32]; decide)
  have h1 : m.store a (le32 x) (a + 1) = .ofNat (x.toNat / 2 ^ 8) :=
    store_inside (k := 1) m (le32 x) (by rw [length_le32]; decide)
  have h2 : m.store a (le32 x) (a + 2) = .ofNat (x.toNat / 2 ^ 16) :=
    store_inside (k := 2) m (le32 x) (by rw [length_le32]; decide)
  have h3 : m.store a (le32 x) (a + 3) = .ofNat (x.toNat / 2 ^ 24) :=
    store_inside (k := 3) m (le32 x) (by rw [length_le32]; decide)
  have hx := x.toNat_lt
  apply UInt32.toNat_inj.1
  rw [u32, h0, h1, h2, h3]
  simp only [UInt32.toNat_ofNat', UInt8.toNat_ofNat']
  omega

theorem u32_store_disjoint (m : Mem) (bs : List UInt8) (h : b + 4 ≤ a ∨ a + bs.length ≤ b) :
    (m.store a bs).u32 b = m.u32 b := by
  apply u32_congr
  intro i hi hi'
  rcases h with h | h
  · exact store_below m bs (by omega)
  · exact store_above m bs (by omega)

end Mem

end Lib
