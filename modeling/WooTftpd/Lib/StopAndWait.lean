import Mathlib.Data.List.Basic
import Mathlib.Logic.Function.Basic

namespace Lib
set_option autoImplicit true

/-- The event on which a stop-and-wait sender first sends its `i`-th packet: packet 0 is sent
unasked, each later one on the acknowledgement of the packet before it. -/
def firstCause (ack : Nat → ε) : Nat → Option ε
  | 0 => none
  | i + 1 => some (ack i)

/-- The sends of a stop-and-wait sender that has sent `n` packets: packet `i` once on its
first cause and then `again i` times, each time on a timeout. -/
def stopAndWait (timeout : ε) (ack : Nat → ε) (packet : Nat → β) (again : Nat → Nat) (n : Nat) :
    List (Option ε × β) :=
  (List.range n).flatMap fun i =>
    (firstCause ack i, packet i) :: List.replicate (again i) (some timeout, packet i)

theorem stopAndWait_congr (timeout : ε) (ack : Nat → ε) (hp : ∀ i < n, packet i = packet' i)
    (ha : ∀ i < n, again i = again' i) :
    stopAndWait timeout ack packet again n = stopAndWait timeout ack packet' again' n := by
  apply List.flatMap_congr
  intro i hi
  rw [hp i (List.mem_range.1 hi), ha i (List.mem_range.1 hi)]

theorem stopAndWait_succ (timeout : ε) (ack : Nat → ε) (packet : Nat → β) (again : Nat → Nat)
    (n : Nat) :
    stopAndWait timeout ack packet again (n + 1) =
      stopAndWait timeout ack packet again n ++
        (firstCause ack n, packet n) :: List.replicate (again n) (some timeout, packet n) := by
  simp only [stopAndWait, List.range_succ, List.flatMap_append, List.flatMap_cons,
    List.flatMap_nil, List.append_nil]

theorem stopAndWait_advance (timeout : ε) (ack : Nat → ε) (packet : Nat → β)
    (again : Nat → Nat) (n : Nat) :
    stopAndWait timeout ack packet (Function.update again n 0) (n + 1) =
      stopAndWait timeout ack packet again n ++ [(firstCause ack n, packet n)] := by
  rw [stopAndWait_succ, Function.update_self, List.replicate_zero]
  congr 1
  apply stopAndWait_congr _ _ fun _ _ => rfl
  intro i hi
  exact Function.update_of_ne (Nat.ne_of_lt hi) _ _

/-- The next packet may be settled only when it is sent. -/
theorem stopAndWait_next (timeout : ε) (ack : Nat → ε) (packet : Nat → β) (again : Nat → Nat)
    (n : Nat) (d : β) :
    stopAndWait timeout ack (Function.update packet n d) (Function.update again n 0) (n + 1) =
      stopAndWait timeout ack packet again n ++ [(firstCause ack n, d)] := by
  rw [stopAndWait_advance, Function.update_self]
  congr 1
  apply stopAndWait_congr _ _ _ fun _ _ => rfl
  intro i hi
  exact Function.update_of_ne (Nat.ne_of_lt hi) _ _

theorem stopAndWait_resend (timeout : ε) (ack : Nat → ε) (packet : Nat → β)
    (again : Nat → Nat) (n : Nat) :
    stopAndWait timeout ack packet (Function.update again n (again n + 1)) (n + 1) =
      stopAndWait timeout ack packet again (n + 1) ++ [(some timeout, packet n)] := by
  rw [stopAndWait_succ, stopAndWait_succ, Function.update_self, List.replicate_succ',
    List.append_assoc, List.cons_append]
  congr 1
  apply stopAndWait_congr _ _ fun _ _ => rfl
  intro i hi
  exact Function.update_of_ne (Nat.ne_of_lt hi) _ _

end Lib
