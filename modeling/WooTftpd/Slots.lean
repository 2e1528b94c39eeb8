import Mathlib.Data.Fintype.Basic
import Mathlib.Data.Finset.Card
import WooTftpd.Lib.Machine
import WooTftpd.Monitor

namespace WooTftpd
open Lib
set_option autoImplicit true

/-- A server process, as far as the shared memory goes. It is finished after its last write. -/
inductive Server where
  | fresh
  | running (opid : Slot)
  | finished
  deriving DecidableEq

/-- The servers, the GUI and their shared memory. `owner` remembers who allocated a slot last;
no step depends on it. -/
structure World where
  mem : Mem
  gui : Gui
  clock : Int
  servers : Nat → Server
  owner : Slot → Option Nat

inductive Step where
  | alloc (p : Nat)
  | call (p : Nat) (c : Call)
  | exit (p : Nat)
  | visit (x : Slot) (now : Int)

namespace World

variable (w : World)

def setServer (p : Nat) (s : Server) : World :=
  { w with servers := Function.update w.servers p s }

/-- `woo_alloc_operation`. A server that gets no slot goes on without the shared memory. -/
def alloc (p : Nat) : Option World :=
  match w.servers p with
  | .fresh =>
    match wooAllocOperation w.mem with
    | .ok (x, m) =>
      some ({ w with mem := m, owner := Function.update w.owner x (some p) }.setServer p
        (.running x))
    | .error _ => some (w.setServer p .finished)
  | _ => none

def call (p : Nat) (c : Call) : Option World :=
  match w.servers p with
  | .running x =>
    let w' := { w with mem := c.run ⟨true, x⟩ w.mem }
    match c with
    | .endOperation => some (w'.setServer p .finished)
    | _ => some w'
  | _ => none

def exit (p : Nat) : Option World :=
  match w.servers p with
  | .running _ => some (w.setServer p .finished)
  | _ => none

def visit (x : Slot) (now : Int) : Option World :=
  if w.clock ≤ now then
    let r := monitorOperation x now w.gui w.mem
    some { w with mem := r.2, gui := r.1, clock := now }
  else none

def next : Step → Option World
  | .alloc p => w.alloc p
  | .call p c => w.call p c
  | .exit p => w.exit p
  | .visit x now => w.visit x now

end World

def World.Initial (w : World) : Prop :=
  (∃ pid m, w.mem = initializeData pid m) ∧ (∃ endTime, w.gui = .start endTime) ∧
    (∀ p, w.servers p = .fresh) ∧ ∀ x, w.owner x = none

def slotSystem : System World Step := ⟨World.Initial, World.next⟩

variable {w w' : World} {m m' : Mem} {g : Gui}

theorem wooAllocOperation_ok (h : wooAllocOperation m = .ok (x, m')) :
    enabled m x = false ∧ nbOperation m' = nbOperation m + 1 ∧ (nbOperation m).toNat < 5 ∧
      ∀ y, oflags m' y = if y = x then wootftpdEnable else oflags m y := by
  simp only [wooAllocOperation] at h
  split at h
  · cases h
  rename_i hnb
  split at h
  · cases h
  rename_i hf
  cases h
  have hen := List.find?_some hf
  have hsame := sameFlags_block (setOflags (setNbOperation m (nbOperation m + 1)) x
    (wootftpdReset ||| wootftpdEnable)) x 0
  refine ⟨?_, ?_, Nat.lt_of_not_le hnb, ?_⟩
  · simpa using hen
  · rw [hsame.nb, nbOperation_setOflags, nbOperation_setNbOperation]
  · intro z
    rw [hsame.oflags, oflags_setOflags, oflags_setNbOperation]
    rfl

theorem wooAllocOperation_error (h : wooAllocOperation m = .error code) :
    5 ≤ (nbOperation m).toNat ∨ ∀ x, enabled m x = true := by
  simp only [wooAllocOperation] at h
  split at h
  · rename_i hnb
    exact .inl hnb
  split at h
  · rename_i hf
    right
    intro x
    have hx := List.find?_eq_none.1 hf x (List.mem_finRange x)
    simpa using hx
  · cases h

theorem setServer_cases (h : (w.setServer p s).servers q = .running x) :
    (q = p ∧ s = .running x) ∨ (q ≠ p ∧ w.servers q = .running x) := by
  by_cases hq : q = p
  · subst hq
    rw [World.setServer] at h
    simp only [Function.update_self] at h
    exact .inl ⟨rfl, h⟩
  · rw [World.setServer] at h
    simp only [Function.update_of_ne hq] at h
    exact .inr ⟨hq, h⟩

/-- All that an allocation can do; the lemmas below say the same of the other steps. -/
theorem alloc_cases (h : w.alloc p = some w') :
    w.servers p = .fresh ∧
      ((∃ x m, wooAllocOperation w.mem = .ok (x, m) ∧
        w' = { w with mem := m, owner := Function.update w.owner x (some p) }.setServer p
          (.running x)) ∨
      (∃ code, wooAllocOperation w.mem = .error code) ∧ w' = w.setServer p .finished) := by
  simp only [World.alloc] at h
  split at h
  · rename_i hp
    split at h
    · rename_i x m ha
      cases h
      exact ⟨hp, .inl ⟨x, m, ha, rfl⟩⟩
    · rename_i code ha
      cases h
      exact ⟨hp, .inr ⟨⟨code, ha⟩, rfl⟩⟩
  · cases h

theorem call_cases (h : w.call p c = some w') :
    ∃ x, w.servers p = .running x ∧
      (w' = { w with mem := c.run ⟨true, x⟩ w.mem } ∨
        w' = { w with mem := c.run ⟨true, x⟩ w.mem }.setServer p .finished) := by
  simp only [World.call] at h
  split at h
  · rename_i x hx
    split at h
    · cases h
      exact ⟨x, hx, .inr rfl⟩
    · cases h
      exact ⟨x, hx, .inl rfl⟩
  · cases h

theorem exit_cases (h : w.exit p = some w') :
    ∃ x, w.servers p = .running x ∧ w' = w.setServer p .finished := by
  simp only [World.exit] at h
  split at h
  · rename_i x hx
    cases h
    exact ⟨x, hx, rfl⟩
  · cases h

theorem visit_cases (h : w.visit x now = some w') :
    w.clock ≤ now ∧
      w' = { w with
        mem := (monitorOperation x now w.gui w.mem).2
        gui := (monitorOperation x now w.gui w.mem).1
        clock := now } := by
  simp only [World.visit] at h
  split at h
  · rename_i hle
    cases h
    exact ⟨hle, rfl⟩
  · cases h

/-- No two servers run with the same slot, and every running server may write to its slot. -/
structure SlotOwnership (w : World) : Prop where
  unique : ∀ p q x, w.servers p = .running x → w.servers q = .running x → p = q
  owned : ∀ p x, w.servers p = .running x → enabled w.mem x = true ∧ w.owner x = some p

/-- The condition on a step: a file name fits its field, and the GUI does not remove the
operation of a server that is still running. -/
def SparesRunning (w : World) : Step → Prop
  | .call _ c => c.Fits
  | .visit x now => expires x now w.gui w.mem = true → ∀ p, w.servers p ≠ .running x
  | _ => True

theorem Call.flags_not_enable (c : Call) : c.flags &&& wootftpdEnable = 0 := by
  cases c <;> simp only [Call.flags] <;> decide

namespace SlotOwnership

theorem of_owned (h : ∀ p x, w.servers p = .running x →
    enabled w.mem x = true ∧ w.owner x = some p) : SlotOwnership w where
  unique := by
    intro p q x hp hq
    exact Option.some.inj ((h p x hp).2.symm.trans (h q x hq).2)
  owned := h

theorem stop (h : SlotOwnership w) (p : Nat) : SlotOwnership (w.setServer p .finished) := by
  apply of_owned
  intro q x hq
  rcases setServer_cases hq with ⟨_, hq⟩ | ⟨_, hq⟩
  · cases hq
  · exact h.owned q x hq

theorem alloc (h : SlotOwnership w) (hn : w.alloc p = some w') : SlotOwnership w' := by
  obtain ⟨_, ⟨x, m, ha, rfl⟩ | ⟨_, rfl⟩⟩ := alloc_cases hn
  · obtain ⟨hx, _, _, hflags⟩ := wooAllocOperation_ok ha
    apply of_owned
    intro q y hq
    rcases setServer_cases hq with ⟨rfl, hy⟩ | ⟨_, hq⟩
    · cases hy
      constructor
      · simp only [World.setServer, enabled, hflags, if_true]
        rfl
      · simp only [World.setServer, Function.update_self]
    · obtain ⟨he, ho⟩ := h.owned q y hq
      have hne : y ≠ x := by
        rintro rfl
        rw [hx] at he
        cases he
      constructor
      · simp only [World.setServer, enabled, hflags, if_neg hne]
        exact he
      · simp only [World.setServer, Function.update_of_ne hne]
        exact ho
  · exact h.stop p

theorem write (h : SlotOwnership w) (x : Slot) (c : Call) (hc : c.Fits) :
    SlotOwnership { w with mem := c.run ⟨true, x⟩ w.mem } := by
  apply of_owned
  intro q y hq
  obtain ⟨he, ho⟩ := h.owned q y hq
  have hen := (Call.run_addsFlags w.mem x c hc).enabled c.flags_not_enable y
  exact ⟨hen.trans he, ho⟩

theorem call (h : SlotOwnership w) (hc : c.Fits) (hn : w.call p c = some w') :
    SlotOwnership w' := by
  obtain ⟨x, _, hw'⟩ := call_cases hn
  have hw := h.write x c hc
  rcases hw' with rfl | rfl
  · exact hw
  · exact hw.stop p

theorem exit (h : SlotOwnership w) (hn : w.exit p = some w') : SlotOwnership w' := by
  obtain ⟨_, _, rfl⟩ := exit_cases hn
  exact h.stop p

theorem visit (h : SlotOwnership w)
    (hs : expires x now w.gui w.mem = true → ∀ p, w.servers p ≠ .running x)
    (hn : w.visit x now = some w') : SlotOwnership w' := by
  obtain ⟨_, rfl⟩ := visit_cases hn
  obtain ⟨_, hen, _⟩ := visited_spec x now w.gui w.mem
  apply of_owned
  intro q y hq
  obtain ⟨he, ho⟩ := h.owned q y hq
  refine ⟨?_, ho⟩
  simp only [monitorOperation]
  split
  · rename_i hexp
    have hne : y ≠ x := by
      rintro rfl
      exact hs hexp q hq
    simp only [enabled, oflags_setNbOperation, oflags_setOflags, if_neg hne]
    exact (hen y).trans he
  · exact (hen y).trans he

theorem next (h : SlotOwnership w) (hs : SparesRunning w e) (hn : w.next e = some w') :
    SlotOwnership w' := by
  cases e with
  | alloc p => exact h.alloc hn
  | call p c => exact h.call hs hn
  | exit p => exact h.exit hn
  | visit x now => exact h.visit hs hn

end SlotOwnership

/-- Slots have one owner in every run in which file names fit and the GUI removes no operation
whose server is still running. -/
theorem slotOwnership_of_spared (h : slotSystem.Reach SparesRunning w) : SlotOwnership w := by
  apply h.invariant
  · intro w hi
    obtain ⟨_, _, hf, _⟩ := hi
    apply SlotOwnership.of_owned
    intro p x hp
    rw [hf p] at hp
    cases hp
  · intro w e w' hw hs hn
    exact hw.next hs hn

def bootWorld : World :=
  ⟨initializeData 4242 .zero, .start 3, 1500000000, fun _ => .fresh, fun _ => none⟩

theorem bootWorld_reach (ok : World → Step → Prop) : slotSystem.Reach ok bootWorld :=
  .init ⟨⟨_, _, rfl⟩, ⟨_, rfl⟩, fun _ => rfl, fun _ => rfl⟩

def shortFilename : CString where
  bytes := [97]
  nulFree := by decide

theorem shortFilename_fits : (Call.setFilename shortFilename).Fits := by
  simp only [Call.Fits]
  decide

def tick (now : Int) : List Step := (List.finRange wootftpdMaxNbop).map (.visit · now)

def sideBySide : List Step :=
  [.alloc 0, .call 0 (.setFilename shortFilename), .alloc 1, .call 0 (.incrementBlock 512)]

theorem slotOwnership_sideBySide :
    ∃ w, slotSystem.Reach SparesRunning w ∧ w.servers 0 = .running 0 ∧ w.servers 1 = .running 1 ∧
      SlotOwnership w := by
  have hrun : (slotSystem.exec bootWorld sideBySide).map
      (fun w => (w.servers 0, w.servers 1)) = some (.running 0, .running 1) := by decide +kernel
  obtain ⟨w, hw, hs⟩ := Option.map_eq_some_iff.1 hrun
  obtain ⟨h0, h1⟩ := Prod.mk.inj hs
  have hr : slotSystem.Reach SparesRunning w := by
    apply (bootWorld_reach _).exec _ hw
    simp only [sideBySide, List.forall_mem_cons]
    exact ⟨fun _ => trivial, fun _ => shortFilename_fits, fun _ => trivial, fun _ => trivial,
      fun _ h => absurd h List.not_mem_nil⟩
  exact ⟨w, hr, h0, h1, slotOwnership_of_spared hr⟩

/-- The GUI times out a server that waits for its first ACK and removes its operation; the slot
then goes to another server. -/
def takeover : List Step :=
  [.alloc 0] ++ tick 1500000001 ++ tick 1500000005 ++ [.alloc 1]

theorem takeover_shares_slot :
    ∃ w, slotSystem.Reachable w ∧ w.servers 0 = .running 0 ∧ w.servers 1 = .running 0 ∧
      ¬ SlotOwnership w := by
  have hrun : (slotSystem.exec bootWorld takeover).map
      (fun w => (w.servers 0, w.servers 1)) = some (.running 0, .running 0) := by decide +kernel
  obtain ⟨w, hw, hs⟩ := Option.map_eq_some_iff.1 hrun
  obtain ⟨h0, h1⟩ := Prod.mk.inj hs
  refine ⟨w, (bootWorld_reach _).exec (fun _ _ _ => trivial) hw, h0, h1, ?_⟩
  intro h
  exact absurd (h.unique 0 1 0 h0 h1) (by decide)

end WooTftpd
