import Mathlib.Logic.Function.Basic
import WooTftpd.Packet

namespace WooTftpd
open Lib
set_option autoImplicit true

/-- The datagrams that are pending on each descriptor. -/
def Sockets := Nat → List (List UInt8)

/-- `select` without waiting: the descriptors of the set that are below `nfds` and can be
read. -/
def select (nfds : Nat) (fds : List Nat) (socks : Sockets) : List Nat :=
  fds.filter fun fd => fd < nfds ∧ socks fd ≠ []

def Sockets.recvfrom (socks : Sockets) (f : Nat) : Sockets :=
  Function.update socks f (socks f).tail

/-- The loop of `synchnet` with the number of packets drained so far. `none` if the fuel did not
last. -/
def drainPackets (f : Nat) : Nat → Nat → Sockets → Option (Nat × Sockets)
  | 0, _, _ => none
  | fuel + 1, pktcount, socks =>
    if (select f [f] socks).length = 0 then some (pktcount, socks)
    else drainPackets f fuel (pktcount + 1) (socks.recvfrom f)

def synchnet (f fuel : Nat) (socks : Sockets) : Option (Nat × Sockets) :=
  drainPackets f fuel 0 socks

/-- The next datagram that `recv_time` returns, or `none` if it times out. -/
def recvTime (s : Nat) (socks : Sockets) : Option (List UInt8) :=
  if (select (s + 1) [s] socks).length = 0 then none else (socks s).head?

/-- All datagrams on the socket are counted and gone, and no other ones. -/
structure Drained (f : Nat) (socks : Sockets) (pktcount : Nat) (socks' : Sockets) : Prop where
  count : pktcount = (socks f).length
  empty : socks' f = []
  others : ∀ g, g ≠ f → socks' g = socks g
  quiet : recvTime f socks' = none

variable {socks : Sockets}

/-- No descriptor is below itself. -/
theorem select_self (f : Nat) (socks : Sockets) : select f [f] socks = [] := by
  simp only [select, List.filter_cons, List.filter_nil, Nat.lt_irrefl, false_and, decide_false,
    Bool.false_eq_true, if_false]

theorem synchnet_eq (f fuel : Nat) (socks : Sockets) :
    synchnet f (fuel + 1) socks = some (0, socks) := by
  rw [synchnet, drainPackets, select_self]
  rfl

theorem recvTime_eq (f : Nat) (socks : Sockets) : recvTime f socks = (socks f).head? := by
  cases h : socks f with
  | nil => simp [recvTime, select, h]
  | cons d ds => simp [recvTime, select, h]

/-- `synchnet` drains a socket exactly if there is nothing to drain. -/
theorem synchnet_drains_iff (f : Nat) (socks : Sockets) :
    (∃ fuel pktcount socks', synchnet f fuel socks = some (pktcount, socks') ∧
      Drained f socks pktcount socks') ↔ socks f = [] := by
  constructor
  · rintro ⟨fuel, pktcount, socks', h, hd⟩
    cases fuel with
    | zero => cases h
    | succ fuel =>
      rw [synchnet_eq] at h
      cases h
      exact hd.empty
  · intro h
    refine ⟨1, 0, socks, synchnet_eq f 0 socks, ?_, h, fun _ _ => rfl, ?_⟩
    · rw [h]
      rfl
    · rw [recvTime_eq, h]
      rfl

/-- The packet that was queued is still there, and the next one that `recv_time` returns. -/
theorem onePacket_notDrained :
    let socks : Sockets := Function.update (fun _ => []) 4 [tftphdr ACK 1]
    synchnet 4 1 socks = some (0, socks) ∧ recvTime 4 socks = some (tftphdr ACK 1) ∧
      ¬ ∃ fuel pktcount socks', synchnet 4 fuel socks = some (pktcount, socks') ∧
        Drained 4 socks pktcount socks' := by
  intro socks
  refine ⟨synchnet_eq 4 0 socks, by decide, ?_⟩
  rintro ⟨fuel, pktcount, socks', h, hd⟩
  cases fuel with
  | zero => cases h
  | succ fuel =>
    rw [synchnet_eq] at h
    cases h
    cases hd.empty

end WooTftpd
