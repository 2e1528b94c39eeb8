import WooTftpd.Slots

namespace WooTftpd
open Lib
set_option autoImplicit true

/-- Where the GUI is: between two calls of `work`, in the loop of `monitor_operations` with slots
still to be visited, in `hide_and_sleep` before it waits, or blocked in `sigwait`. -/
inductive GuiPhase where
  | idle
  | monitoring (slots : List Slot) (current : Int)
  | hiding
  | sleeping
  deriving DecidableEq

/-- The servers and the GUI with the signal between them. SIGUSR1 is blocked, so that it stays
pending until `sigwait` takes it; more of them are one. `unsignalled` are the servers that have
allocated their slot and have not called `woo_wake_up_gui`. -/
structure Session where
  world : World
  phase : GuiPhase
  pending : Bool
  unsignalled : Nat → Bool

inductive SessionStep where
  | alloc (p : Nat)
  | wakeUpGui (p : Nat)
  | call (p : Nat) (c : Call)
  | exit (p : Nat)
  | work (current : Int)
  | monitor
  | sigwait
  | wake

namespace Session

variable (s : Session)

/-- A server that gets no slot sends no signal. -/
def alloc (p : Nat) : Option Session :=
  (s.world.alloc p).map fun w =>
    match w.servers p with
    | .running _ => { s with world := w, unsignalled := Function.update s.unsignalled p true }
    | _ => { s with world := w }

def wakeUpGui (p : Nat) : Option Session :=
  if s.unsignalled p then
    some { s with pending := true, unsignalled := Function.update s.unsignalled p false }
  else none

def call (p : Nat) (c : Call) : Option Session :=
  if s.unsignalled p then none else (s.world.call p c).map fun w => { s with world := w }

def exit (p : Nat) : Option Session :=
  if s.unsignalled p then none else (s.world.exit p).map fun w => { s with world := w }

/-- The GUI reads `nb_operation` without the semaphore. -/
def work (current : Int) : Option Session :=
  if s.phase = .idle then
    if nbOperation s.world.mem = 0 then some { s with phase := .hiding }
    else some { s with phase := .monitoring (List.finRange wootftpdMaxNbop) current }
  else none

def monitor : Option Session :=
  match s.phase with
  | .monitoring [] _ => some { s with phase := .idle }
  | .monitoring (x :: slots) current =>
    (s.world.visit x current).map fun w =>
      { s with world := w, phase := .monitoring slots current }
  | _ => none

def sigwait : Option Session :=
  if s.phase = .hiding then some { s with phase := .sleeping } else none

def wake : Option Session :=
  if s.phase = .sleeping ∧ s.pending then some { s with phase := .idle, pending := false }
  else none

def next : SessionStep → Option Session
  | .alloc p => s.alloc p
  | .wakeUpGui p => s.wakeUpGui p
  | .call p c => s.call p c
  | .exit p => s.exit p
  | .work current => s.work current
  | .monitor => s.monitor
  | .sigwait => s.sigwait
  | .wake => s.wake

end Session

/-- A signal may be left over from before. -/
def Session.Initial (s : Session) : Prop :=
  s.world.Initial ∧ s.phase = .idle ∧ ∀ p, s.unsignalled p = false

def sessionSystem : System Session SessionStep := ⟨Session.Initial, Session.next⟩

theorem nbOperation_call (x : Slot) (m : Mem) (c : Call) :
    nbOperation (c.run ⟨true, x⟩ m) = nbOperation m := by
  by_cases h : c.Fits
  · exact (Call.run_addsFlags m x c h).nb
  · cases c with
    | setFilename filename =>
      apply Mem.store_below
      rw [filenameAt, operationAt, nbOperationAt]
      omega
    | _ => exact absurd trivial h

/-- Once the GUI has read that there is no operation, a server that adds one still has to send its
signal, or the signal is there. -/
structure WakeInv (s : Session) : Prop where
  asleep : s.phase = .hiding ∨ s.phase = .sleeping →
    nbOperation s.world.mem = 0 ∨ s.pending = true ∨ ∃ p, s.unsignalled p = true
  allocated : ∀ p, s.unsignalled p = true → ∃ x, s.world.servers p = .running x

namespace WakeInv

variable {s s' : Session}

theorem alloc (h : WakeInv s) (hn : s.alloc p = some s') : WakeInv s' := by
  obtain ⟨w, hw, rfl⟩ := Option.map_eq_some_iff.1 hn
  obtain ⟨hfresh, ⟨x, m, ha, rfl⟩ | ⟨_, rfl⟩⟩ := alloc_cases hw
  · simp only [World.setServer, Function.update_self]
    constructor
    · intro _
      exact .inr (.inr ⟨p, Function.update_self _ _ _⟩)
    · intro q hq
      by_cases hqp : q = p
      · subst hqp
        exact ⟨x, Function.update_self _ _ _⟩
      · simp only [Function.update_of_ne hqp] at hq ⊢
        exact h.allocated q hq
  · simp only [World.setServer, Function.update_self]
    constructor
    · exact h.asleep
    · intro q hq
      obtain ⟨x, hx⟩ := h.allocated q hq
      have hqp : q ≠ p := by
        rintro rfl
        rw [hfresh] at hx
        cases hx
      simp only [Function.update_of_ne hqp]
      exact ⟨x, hx⟩

theorem wakeUpGui (h : WakeInv s) (hn : s.wakeUpGui p = some s') : WakeInv s' := by
  simp only [Session.wakeUpGui] at hn
  split at hn
  · cases hn
    constructor
    · intro _
      exact .inr (.inl rfl)
    · intro q hq
      by_cases hqp : q = p
      · subst hqp
        simp only [Function.update_self] at hq
        cases hq
      · simp only [Function.update_of_ne hqp] at hq
        exact h.allocated q hq
  · cases hn

/-- A step of a server that has sent its signal, which leaves the count and the other servers as
they are. -/
theorem server (h : WakeInv s) (hp : s.unsignalled p = false)
    (hnb : nbOperation w.mem = nbOperation s.world.mem)
    (hs : ∀ q, q ≠ p → w.servers q = s.world.servers q) : WakeInv { s with world := w } where
  asleep := by
    dsimp only
    rw [hnb]
    exact h.asleep
  allocated := by
    intro q hq
    have hqp : q ≠ p := by
      rintro rfl
      rw [hp] at hq
      cases hq
    dsimp only
    rw [hs q hqp]
    exact h.allocated q hq

theorem call (h : WakeInv s) (hn : s.call p c = some s') : WakeInv s' := by
  simp only [Session.call] at hn
  split at hn
  · cases hn
  · rename_i hp
    obtain ⟨w, hw, rfl⟩ := Option.map_eq_some_iff.1 hn
    obtain ⟨x, _, rfl | rfl⟩ := call_cases hw
    · exact h.server (Bool.eq_false_iff.2 hp) (nbOperation_call x _ c) fun q _ => rfl
    · exact h.server (Bool.eq_false_iff.2 hp) (nbOperation_call x _ c)
        fun q hq => Function.update_of_ne hq _ _

theorem exit (h : WakeInv s) (hn : s.exit p = some s') : WakeInv s' := by
  simp only [Session.exit] at hn
  split at hn
  · cases hn
  · rename_i hp
    obtain ⟨w, hw, rfl⟩ := Option.map_eq_some_iff.1 hn
    obtain ⟨_, _, rfl⟩ := exit_cases hw
    exact h.server (Bool.eq_false_iff.2 hp) rfl fun q hq => Function.update_of_ne hq _ _

/-- While the GUI is awake it will read the count before it sleeps. -/
theorem awake (hh : s.phase ≠ .hiding) (hs : s.phase ≠ .sleeping)
    (ha : ∀ p, s.unsignalled p = true → ∃ x, s.world.servers p = .running x) : WakeInv s := by
  refine ⟨?_, ha⟩
  rintro (hp | hp)
  · exact absurd hp hh
  · exact absurd hp hs

theorem work (h : WakeInv s) (hn : s.work current = some s') : WakeInv s' := by
  simp only [Session.work] at hn
  split at hn
  · split at hn
    · rename_i hz
      cases hn
      exact ⟨fun _ => .inl hz, h.allocated⟩
    · cases hn
      exact awake GuiPhase.noConfusion GuiPhase.noConfusion h.allocated
  · cases hn

theorem monitor (h : WakeInv s) (hn : s.monitor = some s') : WakeInv s' := by
  simp only [Session.monitor] at hn
  split at hn
  · cases hn
    exact awake GuiPhase.noConfusion GuiPhase.noConfusion h.allocated
  · obtain ⟨w, hw, rfl⟩ := Option.map_eq_some_iff.1 hn
    obtain ⟨_, rfl⟩ := visit_cases hw
    exact awake GuiPhase.noConfusion GuiPhase.noConfusion h.allocated
  · cases hn

theorem sigwait (h : WakeInv s) (hn : s.sigwait = some s') : WakeInv s' := by
  simp only [Session.sigwait] at hn
  split at hn
  · rename_i hp
    cases hn
    exact ⟨fun _ => h.asleep (.inl hp), h.allocated⟩
  · cases hn

theorem wake (h : WakeInv s) (hn : s.wake = some s') : WakeInv s' := by
  simp only [Session.wake] at hn
  split at hn
  · cases hn
    exact awake GuiPhase.noConfusion GuiPhase.noConfusion h.allocated
  · cases hn

theorem next (h : WakeInv s) (hn : s.next e = some s') : WakeInv s' := by
  cases e with
  | alloc p => exact h.alloc hn
  | wakeUpGui p => exact h.wakeUpGui hn
  | call p c => exact h.call hn
  | exit p => exact h.exit hn
  | work current => exact h.work hn
  | monitor => exact h.monitor hn
  | sigwait => exact h.sigwait hn
  | wake => exact h.wake hn

end WakeInv

theorem wakeInv_of_reachable (h : sessionSystem.Reachable s) : WakeInv s := by
  apply h.invariant
  · intro s hi
    obtain ⟨_, hp, hu⟩ := hi
    apply WakeInv.awake
    · rw [hp]
      exact GuiPhase.noConfusion
    · rw [hp]
      exact GuiPhase.noConfusion
    · intro p hp
      rw [hu p] at hp
      cases hp
  · intro s e s' hs _ hn
    exact hs.next hn

/-- While the GUI is blocked and there are operations, its signal is pending or a server is about
to send it. -/
theorem wakeUp_not_lost (s : Session) (h : sessionSystem.Reachable s)
    (hp : s.phase = .sleeping) (hnb : 0 < nbOperation s.world.mem) :
    s.pending = true ∨
      ∃ p x, s.world.servers p = .running x ∧ s.unsignalled p = true := by
  have hinv := wakeInv_of_reachable h
  rcases hinv.asleep (.inr hp) with hz | hpend | ⟨p, hu⟩
  · rw [hz] at hnb
    exact absurd hnb (by decide)
  · exact .inl hpend
  · obtain ⟨x, hx⟩ := hinv.allocated p hu
    exact .inr ⟨p, x, hx, hu⟩

def bootSession : Session := ⟨bootWorld, .idle, false, fun _ => false⟩

/-- A server comes between the check of the GUI and its sleep, and another one after it. -/
def checkThenSleep : List SessionStep :=
  [.work 1500000000, .alloc 0, .wakeUpGui 0, .sigwait, .alloc 1]

theorem checkThenSleep_notLost :
    ∃ s, sessionSystem.Reachable s ∧ s.phase = .sleeping ∧ nbOperation s.world.mem = 2 ∧
      (s.pending = true ∨ ∃ p x, s.world.servers p = .running x ∧ s.unsignalled p = true) := by
  have hrun : (sessionSystem.exec bootSession checkThenSleep).map
      (fun s => (s.phase, nbOperation s.world.mem)) = some (.sleeping, 2) := by decide +kernel
  obtain ⟨s, hs, he⟩ := Option.map_eq_some_iff.1 hrun
  obtain ⟨hp, hnb⟩ := Prod.mk.inj he
  have hinit : sessionSystem.init bootSession := by
    refine ⟨?_, rfl, fun _ => rfl⟩
    exact ⟨⟨_, _, rfl⟩, ⟨_, rfl⟩, fun _ => rfl, fun _ => rfl⟩
  have hr : sessionSystem.Reachable s :=
    (System.Reach.init hinit).exec (fun _ _ _ => trivial) hs
  refine ⟨s, hr, hp, hnb, wakeUp_not_lost s hr hp ?_⟩
  rw [hnb]
  decide

end WooTftpd
