import Mathlib.Data.List.Nodup
import Mathlib.Data.Nat.ModEq
import WooTftpd.Packet

namespace WooTftpd
open Lib
set_option autoImplicit true

/-- What `bind` returns for a port. -/
inductive Bind where
  | bound
  | failed (errno : Nat)
  deriving DecidableEq

def einval : Nat := 22
def eaddrinuse : Nat := 98

def Bind.busy : Bind → Bool
  | .bound => false
  | .failed errno => errno = einval ∨ errno = eaddrinuse

def nextPort (low high port : Nat) : Nat := if high < port + 1 then low else port + 1

/-- The loop of `pick_port_bind`: the ports that `bind` was called for, and the result. A port
goes through `htons`, which takes 16 bits. `none` if the fuel did not last. -/
def bindPorts (bind : UInt16 → Bind) (portRange : Bool) (low high firstport : Nat) :
    Nat → Nat → Option (List UInt16 × Int)
  | 0, _ => none
  | fuel + 1, port =>
    match bind (.ofNat port) with
    | .bound => some ([.ofNat port], 0)
    | .failed errno =>
      if !(portRange && (Bind.failed errno).busy) then some ([.ofNat port], -1)
      else
        let next := nextPort low high port
        if next = firstport then some ([.ofNat port], -1)
        else (bindPorts bind portRange low high firstport fuel next).map fun r =>
          (.ofNat port :: r.1, r.2)

/-- `low` and `high` are `port_range_from` and `port_range_to`, and `rand` is what `rand`
returns. -/
def pickPortBind (bind : UInt16 → Bind) (rand low high fuel : Nat) : Option (List UInt16 × Int) :=
  let portRange : Bool := low ≠ 0 ∧ high ≠ 0
  let firstport := if portRange then low + rand % (high - low + 1) else 0
  bindPorts bind portRange low high firstport fuel firstport

/-- The ports of the range, `i` steps round from the port `low + x`. -/
def walkPort (low high x i : Nat) : Nat := low + (x + i) % (high - low + 1)

section Range

variable {low high x : Nat}

theorem mod_size_lt (low high n : Nat) : n % (high - low + 1) < high - low + 1 :=
  Nat.mod_lt n (Nat.succ_pos _)

theorem walkPort_bounds (h : low ≤ high) (i : Nat) :
    low ≤ walkPort low high x i ∧ walkPort low high x i ≤ high := by
  have hlt := mod_size_lt low high (x + i)
  rw [walkPort]
  omega

theorem nextPort_walkPort (h : low ≤ high) (i : Nat) :
    nextPort low high (walkPort low high x i) = walkPort low high x (i + 1) := by
  have hlt := mod_size_lt low high (x + i)
  have hmod : (x + (i + 1)) % (high - low + 1) =
      ((x + i) % (high - low + 1) + 1) % (high - low + 1) := by
    rw [← Nat.add_assoc, Nat.mod_add_mod]
  rw [nextPort, walkPort, walkPort, hmod]
  by_cases hlast : (x + i) % (high - low + 1) = high - low
  · rw [hlast, Nat.mod_self, if_pos (by omega)]
    rfl
  · rw [Nat.mod_eq_of_lt (by omega : (x + i) % (high - low + 1) + 1 < high - low + 1),
      if_neg (by omega)]
    rfl

/-- Two numbers of steps below the size of the range lead to different ports. -/
theorem walkPort_inj (hi : i < high - low + 1) (hj : j < high - low + 1)
    (he : walkPort low high x i = walkPort low high x j) : i = j := by
  have hmod : (x + i) % (high - low + 1) = (x + j) % (high - low + 1) :=
    Nat.add_left_cancel he
  have hcancel : i % (high - low + 1) = j % (high - low + 1) :=
    Nat.ModEq.add_left_cancel' x hmod
  rwa [Nat.mod_eq_of_lt hi, Nat.mod_eq_of_lt hj] at hcancel

theorem walkPort_round (i : Nat) :
    walkPort low high x (i + (high - low + 1)) = walkPort low high x i := by
  rw [walkPort, walkPort, ← Nat.add_assoc, Nat.add_mod_right]

/-- The walk is back at its first port after as many steps as the range has ports. -/
theorem walkPort_eq_first_iff (hi : i < high - low + 1) :
    walkPort low high x (i + 1) = walkPort low high x 0 ↔ i = high - low := by
  constructor
  · intro h
    by_contra hne
    have hlt : i + 1 < high - low + 1 := by omega
    have hz := walkPort_inj hlt (Nat.succ_pos _) h
    cases hz
  · rintro rfl
    have hround : walkPort low high x (0 + (high - low + 1)) = walkPort low high x 0 :=
      walkPort_round 0
    rwa [Nat.zero_add] at hround

theorem walkPort_surj (hp : low ≤ port) (hp' : port ≤ high) :
    ∃ i < high - low + 1, walkPort low high x i = port := by
  -- As many steps as there are from `x` up to the port, or round to it.
  refine ⟨(port - low + (high - low + 1 - x % (high - low + 1))) % (high - low + 1),
    mod_size_lt low high _, ?_⟩
  have hx := mod_size_lt low high x
  have hsum : (x + (port - low + (high - low + 1 - x % (high - low + 1)))) % (high - low + 1) =
      port - low := by
    have hsplit : x + (port - low + (high - low + 1 - x % (high - low + 1))) =
        port - low + (high - low + 1) * (x / (high - low + 1) + 1) := by
      have hdiv := Nat.div_add_mod x (high - low + 1)
      rw [Nat.mul_add, Nat.mul_one]
      omega
    rw [hsplit, Nat.add_mul_mod_self_left, Nat.mod_eq_of_lt (by omega)]
  rw [walkPort, Nat.add_mod_mod, hsum]
  omega

end Range

/-- How the search ends with the port that was tried last, and the result. -/
inductive EndsAt (bind : UInt16 → Bind) (low high : Nat) (ports : List UInt16) (port : UInt16) :
    Int → Prop where
  | bound : bind port = .bound → EndsAt bind low high ports port 0
  | failed : bind port = .failed errno → (bind port).busy = false →
      EndsAt bind low high ports port (-1)
  | exhausted : (bind port).busy = true →
      (∀ p : UInt16, low ≤ p.toNat → p.toNat ≤ high → p ∈ ports) →
      EndsAt bind low high ports port (-1)

/-- The ports that were tried are ports of the range, each at most once, and all but the last of
them are busy. -/
structure Searched (bind : UInt16 → Bind) (low high : Nat) (ports : List UInt16) (result : Int) :
    Prop where
  inside : ∀ p ∈ ports, low ≤ p.toNat ∧ p.toNat ≤ high
  once : ports.Nodup
  stops : ∃ pre last, ports = pre ++ [last] ∧ (∀ p ∈ pre, (bind p).busy = true) ∧
    EndsAt bind low high ports last result

section Search

variable {bind : UInt16 → Bind} {low high x : Nat}

/-- The ports that are `i` to `i + n` steps round. -/
def walk (low high x i n : Nat) : List UInt16 :=
  (List.range' i n).map fun j => .ofNat (walkPort low high x j)

theorem walk_succ (low high x i n : Nat) :
    walk low high x i (n + 1) = .ofNat (walkPort low high x i) :: walk low high x (i + 1) n := by
  rw [walk, List.range'_succ, List.map_cons, walk]

theorem walk_concat (low high x i n : Nat) :
    walk low high x i (n + 1) = walk low high x i n ++ [.ofNat (walkPort low high x (i + n))] := by
  rw [walk, List.range'_concat, List.map_append, Nat.one_mul, walk]
  rfl

theorem toNat_walkPort (hle : low ≤ high) (hmax : high < 65535) (i : Nat) :
    (UInt16.ofNat (walkPort low high x i)).toNat = walkPort low high x i := by
  have hport := (walkPort_bounds (x := x) hle i).2
  exact UInt16.toNat_ofNat_of_lt' (Nat.lt_of_le_of_lt hport (Nat.lt_succ_of_lt hmax))

/-- Where the loop may end, once it has come `i` steps round. -/
inductive LoopEnds (bind : UInt16 → Bind) (low high x i : Nat) : Int → Prop where
  | bound : bind (.ofNat (walkPort low high x i)) = .bound → LoopEnds bind low high x i 0
  | failed : bind (.ofNat (walkPort low high x i)) = .failed errno →
      (bind (.ofNat (walkPort low high x i))).busy = false → LoopEnds bind low high x i (-1)
  | round : (bind (.ofNat (walkPort low high x i))).busy = true → i = high - low →
      LoopEnds bind low high x i (-1)

theorem bindPorts_bound (h : bind (.ofNat port) = .bound) (portRange : Bool)
    (low high firstport fuel : Nat) :
    bindPorts bind portRange low high firstport (fuel + 1) port = some ([.ofNat port], 0) := by
  simp only [bindPorts, h]

theorem bindPorts_failed (h : bind (.ofNat port) = .failed errno)
    (hb : (bind (.ofNat port)).busy = false) (portRange : Bool) (low high firstport fuel : Nat) :
    bindPorts bind portRange low high firstport (fuel + 1) port = some ([.ofNat port], -1) := by
  rw [h] at hb
  simp only [bindPorts, h, hb, Bool.and_false, Bool.not_false, if_true]

theorem bindPorts_busy (h : (bind (.ofNat port)).busy = true) (low high firstport fuel : Nat) :
    bindPorts bind true low high firstport (fuel + 1) port =
      if nextPort low high port = firstport then some ([.ofNat port], -1)
      else (bindPorts bind true low high firstport fuel (nextPort low high port)).map fun r =>
        (.ofNat port :: r.1, r.2) := by
  cases hb : bind (.ofNat port) with
  | bound =>
    rw [hb] at h
    cases h
  | failed errno =>
    rw [hb] at h
    simp only [bindPorts, hb, h, Bool.and_true, Bool.not_true, Bool.false_eq_true, if_false]

/-- From `i` steps round, with `d` ports still to come, the loop tries this port and up to `d`
more. -/
def Walks (bind : UInt16 → Bind) (low high x i d : Nat) : Prop :=
  ∃ n result, (∀ fuel, d < fuel →
      bindPorts bind true low high (walkPort low high x 0) fuel (walkPort low high x i) =
        some (walk low high x i (n + 1), result)) ∧
    n ≤ d ∧ (∀ p ∈ walk low high x i n, (bind p).busy = true) ∧
    LoopEnds bind low high x (i + n) result

theorem mem_walk_zero (p : UInt16) (h : p ∈ walk low high x i 0) : (bind p).busy = true := by
  cases h

theorem walks_free (h : (bind (.ofNat (walkPort low high x i))).busy = false) (d : Nat) :
    Walks bind low high x i d := by
  cases hb : bind (.ofNat (walkPort low high x i)) with
  | bound =>
    refine ⟨0, 0, ?_, Nat.zero_le d, mem_walk_zero, .bound hb⟩
    intro fuel hf
    obtain ⟨k, rfl⟩ := Nat.exists_eq_add_of_lt hf
    exact bindPorts_bound hb true low high _ _
  | failed errno =>
    refine ⟨0, -1, ?_, Nat.zero_le d, mem_walk_zero, .failed hb h⟩
    intro fuel hf
    obtain ⟨k, rfl⟩ := Nat.exists_eq_add_of_lt hf
    exact bindPorts_failed hb h true low high _ _

theorem walks (bind : UInt16 → Bind) (hle : low ≤ high) (d i : Nat) (hi : i + d = high - low) :
    Walks bind low high x i d := by
  induction d generalizing i with
  | zero =>
    cases hbusy : (bind (.ofNat (walkPort low high x i))).busy with
    | false => exact walks_free hbusy 0
    | true =>
      have hfirst := (walkPort_eq_first_iff (x := x) (by omega : i < high - low + 1)).2 hi
      refine ⟨0, -1, ?_, Nat.le_refl 0, mem_walk_zero, .round hbusy hi⟩
      intro fuel hf
      obtain ⟨k, rfl⟩ := Nat.exists_eq_add_of_lt hf
      rw [bindPorts_busy hbusy, nextPort_walkPort hle, if_pos hfirst]
      rfl
  | succ d ih =>
    cases hbusy : (bind (.ofNat (walkPort low high x i))).busy with
    | false => exact walks_free hbusy (d + 1)
    | true =>
      have hfirst := (walkPort_eq_first_iff (x := x) (by omega : i < high - low + 1)).not.2
        (by omega)
      obtain ⟨n, result, he, hn, hpre, hend⟩ := ih (i + 1) (by omega)
      refine ⟨n + 1, result, ?_, Nat.succ_le_succ hn, ?_, ?_⟩
      · intro fuel hf
        obtain ⟨k, rfl⟩ := Nat.exists_eq_add_of_lt hf
        rw [bindPorts_busy hbusy, nextPort_walkPort hle, if_neg hfirst, he _ (by omega),
          walk_succ low high x i]
        rfl
      · intro p hp
        rw [walk_succ] at hp
        rcases List.mem_cons.1 hp with rfl | hp
        · exact hbusy
        · exact hpre p hp
      · rwa [Nat.add_assoc, Nat.add_comm 1 n] at hend

theorem walk_nodup (hle : low ≤ high) (hmax : high < 65535) (h : n ≤ high - low + 1) :
    (walk low high x 0 n).Nodup := by
  apply List.Nodup.map_on
  · intro i hi j hj he
    have hlt (k : Nat) (hk : k ∈ List.range' 0 n) : k < high - low + 1 := by
      have hk' := (List.mem_range'_1.1 hk).2
      omega
    have hport := congrArg UInt16.toNat he
    rw [toNat_walkPort hle hmax, toNat_walkPort hle hmax] at hport
    exact walkPort_inj (hlt i hi) (hlt j hj) hport
  · exact List.nodup_range'

theorem mem_walk (hp : low ≤ p.toNat) (hp' : p.toNat ≤ high) :
    p ∈ walk low high x 0 (high - low + 1) := by
  obtain ⟨i, hi, he⟩ := walkPort_surj (x := x) hp hp'
  refine List.mem_map.2 ⟨i, List.mem_range'_1.2 ⟨Nat.zero_le i, by omega⟩, ?_⟩
  rw [he]
  exact UInt16.ofNat_toNat

theorem LoopEnds.endsAt (h : LoopEnds bind low high x i result) :
    EndsAt bind low high (walk low high x 0 (i + 1)) (.ofNat (walkPort low high x i)) result := by
  cases h with
  | bound hb => exact .bound hb
  | failed hb hbusy => exact .failed hb hbusy
  | round hbusy hlast =>
    rw [hlast] at hbusy ⊢
    exact .exhausted hbusy fun p hp hp' => mem_walk hp hp'

end Search

/-- With a port range the search ends, whatever `rand` returns, and has tried ports of the range
only, each at most once: up to the first one that is bound or fails for good, or all of them. -/
theorem pickPortBind_exhaustive (bind : UInt16 → Bind) (rand low high : Nat) (hlow : 0 < low)
    (hle : low ≤ high) (hmax : high < 65535) :
    ∃ ports result, (∀ fuel, high - low < fuel →
        pickPortBind bind rand low high fuel = some (ports, result)) ∧
      Searched bind low high ports result := by
  have hrange : decide (low ≠ 0 ∧ high ≠ 0) = true := decide_eq_true (by omega)
  have hfirst : low + rand % (high - low + 1) = walkPort low high rand 0 := rfl
  obtain ⟨n, result, he, hn, hpre, hend⟩ := walks (x := rand) bind hle (high - low) 0
    (Nat.zero_add _)
  rw [Nat.zero_add] at hend
  refine ⟨walk low high rand 0 (n + 1), result, ?_, ?_, ?_, ?_⟩
  · intro fuel hf
    rw [pickPortBind, hrange, if_pos rfl, hfirst]
    exact he fuel hf
  · intro p hp
    obtain ⟨i, _, rfl⟩ := List.mem_map.1 hp
    rw [toNat_walkPort hle hmax]
    exact walkPort_bounds hle i
  · exact walk_nodup hle hmax (Nat.succ_le_succ hn)
  · refine ⟨_, _, walk_concat low high rand 0 n, hpre, ?_⟩
    rw [Nat.zero_add]
    exact hend.endsAt

/-- Three ports of which the middle one is free, beginning with the last one. -/
theorem pickPortBind_three :
    let bind : UInt16 → Bind := fun p => if p = 2001 then .bound else .failed eaddrinuse
    (∀ fuel, 2 < fuel → pickPortBind bind 5 2000 2002 fuel = some ([2002, 2000, 2001], 0)) ∧
      Searched bind 2000 2002 [2002, 2000, 2001] 0 := by
  intro bind
  obtain ⟨ports, result, he, hs⟩ := pickPortBind_exhaustive bind 5 2000 2002 (by decide)
    (by decide) (by decide)
  have hrun : pickPortBind bind 5 2000 2002 3 = some ([2002, 2000, 2001], 0) := by decide
  have heq := (he 3 (by decide)).symm.trans hrun
  cases heq
  exact ⟨he, hs⟩

end WooTftpd
