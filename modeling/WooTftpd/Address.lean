import WooTftpd.Lib.CString
import WooTftpd.Packet

namespace WooTftpd
open Lib
set_option autoImplicit true

inductive SockAddr where
  | inet (addr : Fin 4 → UInt8)
  | inet6 (addr : Fin 16 → UInt8)

def inet6Addrstrlen : Nat := 46

def ascii (cs : List Char) : List UInt8 := cs.map fun c => .ofNat c.toNat

@[simp] theorem length_ascii (cs : List Char) : (ascii cs).length = cs.length := List.length_map _

def decimal (n : Nat) : List UInt8 := ascii (Nat.toDigits 10 n)

def hexLower (n : Nat) : List UInt8 := ascii (Nat.toDigits 16 n)

def upperDigit (d : Nat) : UInt8 := .ofNat (if d < 10 then 48 + d else 55 + d)

/-- The format `%0wX` of a number that has at most `w` digits. -/
def hexUpper : Nat → Nat → List UInt8
  | 0, _ => []
  | w + 1, n => hexUpper w (n / 16) ++ [upperDigit (n % 16)]

@[simp] theorem length_hexUpper (w n : Nat) : (hexUpper w n).length = w := by
  induction w generalizing n with
  | zero => rfl
  | succ w ih =>
    rw [hexUpper, List.length_append, ih]
    rfl

theorem length_decimal_octet (b : UInt8) : (decimal b.toNat).length ≤ 3 := by
  rw [decimal, length_ascii, Nat.length_toDigits_le_iff (by decide) (by decide)]
  exact Nat.lt_trans b.toNat_lt (by decide)

theorem length_hexLower_group (x : UInt16) : (hexLower x.toNat).length ≤ 4 := by
  rw [hexLower, length_ascii, Nat.length_toDigits_le_iff (by decide) (by decide)]
  exact x.toNat_lt

theorem digitChar_ne_nul : ∀ d < 16, UInt8.ofNat (Nat.digitChar d).toNat ≠ 0 := by decide

theorem nul_notMem_digits (hb : 1 < b) (hb' : b ≤ 16) (n : Nat) :
    0 ∉ ascii (Nat.toDigits b n) := by
  induction n using Nat.strongRecOn with
  | _ n ih =>
    rw [Nat.toDigits_eq_if hb]
    split
    · rename_i hn
      simp only [ascii, List.map_cons, List.map_nil, List.mem_singleton]
      exact (digitChar_ne_nul n (by omega)).symm
    · rename_i hn
      have hlt : n % b < b := Nat.mod_lt n (by omega)
      simp only [ascii, List.map_append, List.map_cons, List.map_nil, List.mem_append,
        List.mem_singleton, not_or]
      constructor
      · exact ih (n / b) (Nat.div_lt_self (by omega) hb)
      · exact (digitChar_ne_nul (n % b) (by omega)).symm

def dot : UInt8 := 46
def colon : UInt8 := 58

def inetNtoa (a : Fin 4 → UInt8) : List UInt8 :=
  decimal (a 0).toNat ++ dot :: decimal (a 1).toNat ++ dot :: decimal (a 2).toNat ++
    dot :: decimal (a 3).toNat

def group (a : Fin 16 → UInt8) (i : Fin 8) : UInt16 :=
  .ofNat ((a ⟨2 * i, by omega⟩).toNat * 256 + (a ⟨2 * i + 1, by omega⟩).toNat)

def groups (a : Fin 16 → UInt8) : List UInt8 :=
  (List.finRange 8).flatMap fun i => hexLower (group a i).toNat ++ [colon]

/-- `inet_ntop`, which does not compress runs of zeros. `none` stands for NULL. -/
def inetNtop (addr : SockAddr) (cnt : Nat) : Option (List UInt8) :=
  match addr with
  | .inet a => if cnt ≤ (inetNtoa a).length then none else some (inetNtoa a)
  | .inet6 a => if cnt < 40 then none else some (groups a).dropLast

def hexAddress : SockAddr → List UInt8
  | .inet a =>
    hexUpper 8 ((((a 0).toNat * 256 + (a 1).toNat) * 256 + (a 2).toNat) * 256 + (a 3).toNat)
  | .inet6 a => (List.finRange 16).flatMap fun i => hexUpper 2 (a i).toNat

theorem length_inetNtoa_le (a : Fin 4 → UInt8) : (inetNtoa a).length ≤ 15 := by
  have h (i : Fin 4) := length_decimal_octet (a i)
  have h0 := h 0
  have h1 := h 1
  have h2 := h 2
  have h3 := h 3
  simp only [inetNtoa, List.length_append, List.length_cons]
  omega

theorem length_groups_le (a : Fin 16 → UInt8) : (groups a).length ≤ 40 := by
  have h (is : List (Fin 8)) :
      (is.flatMap fun i => hexLower (group a i).toNat ++ [colon]).length ≤ 5 * is.length := by
    induction is with
    | nil => exact Nat.zero_le _
    | cons i is ih =>
      have hi := length_hexLower_group (group a i)
      simp only [List.flatMap_cons, List.length_append, List.length_cons, List.length_nil]
      omega
  exact h (List.finRange 8)

theorem inetNtop_fits (addr : SockAddr) :
    ∃ p, inetNtop addr inet6Addrstrlen = some p ∧ p.length < inet6Addrstrlen := by
  cases addr with
  | inet a =>
    have hl := length_inetNtoa_le a
    have hc : ¬ inet6Addrstrlen ≤ (inetNtoa a).length := by
      simp only [inet6Addrstrlen]
      omega
    refine ⟨inetNtoa a, if_neg hc, by omega⟩
  | inet6 a =>
    have hl := length_groups_le a
    refine ⟨(groups a).dropLast, rfl, ?_⟩
    rw [List.length_dropLast, inet6Addrstrlen]
    omega

theorem nul_notMem_inetNtoa (a : Fin 4 → UInt8) : 0 ∉ inetNtoa a := by
  have h (i : Fin 4) : 0 ∉ decimal (a i).toNat := nul_notMem_digits (by decide) (by decide) _
  have hd : 0 ≠ dot := by decide
  simp only [inetNtoa, List.mem_append, List.mem_cons, not_or]
  exact ⟨⟨⟨h 0, hd, h 1⟩, hd, h 2⟩, hd, h 3⟩

theorem nul_notMem_groups (a : Fin 16 → UInt8) : 0 ∉ groups a := by
  have hc : 0 ≠ colon := by decide
  simp only [groups, List.mem_flatMap, List.mem_append, List.mem_singleton, not_exists, not_and,
    not_or]
  intro i _
  exact ⟨nul_notMem_digits (by decide) (by decide) _, hc⟩

/-- The text of a peer address, as `woo_set_ip_port_from_socket_id` makes it. -/
def ipString (peer : SockAddr) : CString where
  bytes := (inetNtop peer inet6Addrstrlen).getD []
  nulFree := by
    cases peer with
    | inet a =>
      simp only [inetNtop]
      split
      · exact List.not_mem_nil
      · exact nul_notMem_inetNtoa a
    | inet6 a =>
      intro h
      exact nul_notMem_groups a ((List.dropLast_subset _) h)

theorem ipString_fits (peer : SockAddr) : (ipString peer).length < inet6Addrstrlen := by
  obtain ⟨p, hp, hl⟩ := inetNtop_fits peer
  have hb : (ipString peer).bytes = p := by
    simp only [ipString, hp, Option.getD_some]
  rw [CString.length, hb]
  exact hl

end WooTftpd
