import WooTftpd.Slots

namespace WooTftpd
open Lib
set_option autoImplicit true

/-- The call of `data::initialize` that comes next, or how it has ended. -/
inductive InitStage where
  | forceBoot (force : Bool)
  | semOpen
  | semCreate
  | shmOpen
  | ftruncate
  | mmap
  | clientPid
  | nbOperation
  | operations (slots : List Slot)
  | semPost
  | working
  | failed (status : Nat)
  | destroyed
  deriving DecidableEq

/-- How far a server is in `woo_init`: what it has opened, that it has found the process of the GUI,
that it is behind `sem_wait`, that it has called `woo_alloc_operation` up to its `sem_post`, that
it goes on without the shared memory, or that a read of an empty segment has killed it. -/
inductive WooInit where
  | fresh
  | semaphore
  | segment
  | mapped
  | checked
  | locked
  | allocated
  | done
  | off (status : Nat)
  | killed
  deriving DecidableEq

/-- The semaphore and the segment with their names, and what is done with them. A segment is empty
until it is resized. The servers of `world` have a slot. -/
structure Boot where
  semName : Bool
  sem : Nat
  shmName : Bool
  sized : Bool
  world : World
  stage : InitStage
  posted : Bool
  servers : Nat → WooInit

inductive BootStep where
  | dataInitialize (ok : Bool) (pid : UInt32)
  | destroy
  | wooInit (p : Nat) (ok : Bool)
  | call (p : Nat) (c : Call)
  | exit (p : Nat)
  | visit (x : Slot) (now : Int)

namespace Boot

variable (b : Boot)

def goto (stage : InitStage) : Boot := { b with stage := stage }

def write (m : Mem) (stage : InitStage) : Boot :=
  { b with world := { b.world with mem := m }, stage := stage }

/-- One call of `data::initialize`. `ok` is what the system says to it. -/
def dataInitialize (ok : Bool) (pid : UInt32) : Option Boot :=
  match b.stage with
  | .forceBoot force =>
    some { b with
      semName := b.semName && !force
      shmName := b.shmName && !force
      stage := .semOpen }
  | .semOpen => some (b.goto (if b.semName then .failed 10 else .semCreate))
  | .semCreate =>
    some (if ok then { b with semName := true, sem := 0, stage := .shmOpen } else b.goto (.failed 20))
  | .shmOpen =>
    some (if ok then
      { b with shmName := true, sized := b.shmName && b.sized, stage := .ftruncate }
      else b.goto (.failed 30))
  | .ftruncate =>
    some (if ok then { b with sized := true, stage := .mmap } else b.goto (.failed 40))
  | .mmap => some (b.goto (if ok then .clientPid else .failed 50))
  | .clientPid => some (b.write (b.world.mem.store 0 (Mem.le32 pid)) .nbOperation)
  | .nbOperation =>
    some (b.write (setNbOperation b.world.mem 0) (.operations (List.finRange wootftpdMaxNbop)))
  | .operations [] => some (b.goto .semPost)
  | .operations (x :: slots) =>
    some (b.write (setOflags b.world.mem x wootftpdReset) (.operations slots))
  | .semPost => some { b with sem := b.sem + 1, posted := true, stage := .working }
  | .working | .failed _ | .destroyed => none

/-- A name is removed if `m_semaphore` or `m_smdata` is not 0: `SEM_FAILED` is 0, `MAP_FAILED` is
not. Whoever has opened what the names stood for keeps it. -/
def destroy : Option Boot :=
  match b.stage with
  | .working => some { b with semName := false, shmName := false, stage := .destroyed }
  | .failed status =>
    some { b with
      semName := b.semName && status == 20
      shmName := b.shmName && status != 50
      stage := .destroyed }
  | _ => none

def setServer (p : Nat) (s : WooInit) : Boot :=
  { b with servers := Function.update b.servers p s }

/-- One call of `woo_init`. At a wait for the semaphore the server may be blocked. -/
def wooInit (p : Nat) (ok : Bool) : Option Boot :=
  match b.servers p with
  | .fresh => some (b.setServer p (if b.semName then .semaphore else .off 20))
  | .semaphore => some (b.setServer p (if b.shmName ∧ ok then .segment else .off 30))
  | .segment => some (b.setServer p (if ok then .mapped else .off 40))
  | .mapped => some (b.setServer p (if b.sized then (if ok then .checked else .off 50) else .killed))
  | .checked => if 0 < b.sem then some { b.setServer p .locked with sem := b.sem - 1 } else none
  | .locked => (b.world.alloc p).map fun w => { b.setServer p .allocated with world := w }
  | .allocated => some { b.setServer p .done with sem := b.sem + 1 }
  | .done | .off _ | .killed => none

def call (p : Nat) (c : Call) : Option Boot :=
  if b.servers p = .done then (b.world.call p c).map fun w => { b with world := w } else none

def exit (p : Nat) : Option Boot :=
  if b.servers p = .done then (b.world.exit p).map fun w => { b with world := w } else none

/-- To remove an operation the GUI takes the semaphore. -/
def visit (x : Slot) (now : Int) : Option Boot :=
  if b.stage = .working ∧ (expires x now b.world.gui b.world.mem → 0 < b.sem) then
    (b.world.visit x now).map fun w => { b with world := w }
  else none

def next : BootStep → Option Boot
  | .dataInitialize ok pid => b.dataInitialize ok pid
  | .destroy => b.destroy
  | .wooInit p ok => b.wooInit p ok
  | .call p c => b.call p c
  | .exit p => b.exit p
  | .visit x now => b.visit x now

end Boot

/-- Nothing has the name of the semaphore. There may be a segment from before. -/
structure Boot.Initial (b : Boot) : Prop where
  semName : b.semName = false
  sem : b.sem = 0
  stage : ∃ force, b.stage = .forceBoot force
  posted : b.posted = false
  servers : ∀ p, b.servers p = .fresh
  gui : ∃ endTime, b.world.gui = .start endTime
  world : ∀ p, b.world.servers p = .fresh
  owner : ∀ x, b.world.owner x = none

/-- The server holds the semaphore. -/
def WooInit.inside : WooInit → Bool
  | .locked | .allocated => true
  | _ => false

/-- The server has not called `woo_alloc_operation` yet. -/
def WooInit.waits : WooInit → Bool
  | .allocated | .done => false
  | _ => true

/-- The memory in the course of its initialization: what is still to be written makes it an
initialized one. -/
def InitStage.Prepared (m : Mem) : InitStage → Prop
  | .nbOperation => ∃ (pid : UInt32) (m₀ : Mem), m = m₀.store 0 (Mem.le32 pid)
  | .operations slots => ∃ pid m₀,
      slots.foldl (fun m x => setOflags m x wootftpdReset) m = initializeData pid m₀
  | .semPost => ∃ pid m₀, m = initializeData pid m₀
  | _ => True

/-- Before the GUI has released the semaphore for the first time. -/
structure Boot.Unposted (b : Boot) : Prop where
  sem : b.sem = 0
  prepared : b.stage.Prepared b.world.mem
  stage : b.stage ≠ .working
  outside : ∀ p, (b.servers p).inside = false ∧ b.servers p ≠ .done
  gui : ∃ endTime, b.world.gui = .start endTime
  servers : ∀ p, b.world.servers p = .fresh
  owner : ∀ x, b.world.owner x = none

/-- Afterwards. -/
structure Boot.Posted (b : Boot) : Prop where
  reached : slotSystem.Reachable b.world
  stage : b.stage = .working ∨ b.stage = .destroyed
  sem : (b.sem = 1 ∧ ∀ p, (b.servers p).inside = false) ∨
    (b.sem = 0 ∧ ∃ p, (b.servers p).inside = true ∧ ∀ q, (b.servers q).inside = true → q = p)
  waiting : ∀ p, (b.servers p).waits = true → b.world.servers p = .fresh

def Boot.Sound (b : Boot) : Prop :=
  (b.posted = false ∧ b.Unposted) ∨ (b.posted = true ∧ b.Posted)

section Steps

variable {b b' : Boot}

theorem Boot.servers_setServer (b : Boot) (p : Nat) (s : WooInit) (q : Nat) :
    (b.setServer p s).servers q = if q = p then s else b.servers q := by
  simp only [setServer, Function.update_apply]

/-- A step of `data::initialize` other than the last one leaves the servers where they are. -/
theorem Boot.Unposted.dataInitialize (h : b.Unposted) (hp : b.posted = false)
    (hn : b.dataInitialize ok pid = some b') : b'.Sound := by
  have hmove {b' : Boot} (hsem : b'.sem = 0) (hprep : b'.stage.Prepared b'.world.mem)
      (hstage : b'.stage ≠ .working) (hservers : b'.servers = b.servers)
      (hworld : b'.world = { b.world with mem := b'.world.mem }) (hposted : b'.posted = b.posted) :
      b'.Sound := by
    left
    refine ⟨hposted.trans hp, hsem, hprep, hstage, ?_, ?_, ?_, ?_⟩
    · rw [hservers]
      exact h.outside
    · rw [hworld]
      exact h.gui
    · rw [hworld]
      exact h.servers
    · rw [hworld]
      exact h.owner
  have hprep := h.prepared
  simp only [Boot.dataInitialize] at hn
  split at hn
  · cases hn
    exact hmove h.sem trivial InitStage.noConfusion rfl rfl rfl
  · cases hn
    split
    · exact hmove h.sem trivial InitStage.noConfusion rfl rfl rfl
    · exact hmove h.sem trivial InitStage.noConfusion rfl rfl rfl
  · cases hn
    split
    · exact hmove rfl trivial InitStage.noConfusion rfl rfl rfl
    · exact hmove h.sem trivial InitStage.noConfusion rfl rfl rfl
  · cases hn
    split
    · exact hmove h.sem trivial InitStage.noConfusion rfl rfl rfl
    · exact hmove h.sem trivial InitStage.noConfusion rfl rfl rfl
  · cases hn
    split
    · exact hmove h.sem trivial InitStage.noConfusion rfl rfl rfl
    · exact hmove h.sem trivial InitStage.noConfusion rfl rfl rfl
  · cases hn
    cases ok
    · exact hmove h.sem trivial InitStage.noConfusion rfl rfl rfl
    · exact hmove h.sem trivial InitStage.noConfusion rfl rfl rfl
  · cases hn
    exact hmove h.sem ⟨pid, b.world.mem, rfl⟩ InitStage.noConfusion rfl rfl rfl
  · rename_i hs
    cases hn
    rw [hs] at hprep
    obtain ⟨pid, m₀, hm⟩ := hprep
    refine hmove h.sem ⟨pid, m₀, ?_⟩ InitStage.noConfusion rfl rfl rfl
    rw [initializeData, ← hm]
    rfl
  · rename_i hs
    cases hn
    rw [hs] at hprep
    exact hmove h.sem hprep InitStage.noConfusion rfl rfl rfl
  · rename_i x slots hs
    cases hn
    rw [hs] at hprep
    exact hmove h.sem hprep InitStage.noConfusion rfl rfl rfl
  · rename_i hs
    cases hn
    rw [hs] at hprep
    right
    refine ⟨rfl, .init ⟨hprep, h.gui, h.servers, h.owner⟩, .inl rfl, .inl ⟨?_, fun p => (h.outside p).1⟩,
      fun p _ => h.servers p⟩
    dsimp only
    rw [h.sem]
  · cases hn
  · cases hn
  · cases hn

/-- All that a call of `woo_init` can do. -/
theorem Boot.wooInit_opens (hn : b.wooInit p ok = some b') :
    (∃ s, b' = b.setServer p s ∧ s.inside = false ∧ s ≠ .done ∧ (b.servers p).inside = false ∧
      (b.servers p).waits = true) ∨
    (b.servers p = .checked ∧ 0 < b.sem ∧ b' = { b.setServer p .locked with sem := b.sem - 1 }) ∨
    (b.servers p = .locked ∧ ∃ w, b.world.alloc p = some w ∧
      b' = { b.setServer p .allocated with world := w }) ∨
    (b.servers p = .allocated ∧ b' = { b.setServer p .done with sem := b.sem + 1 }) := by
  simp only [Boot.wooInit] at hn
  split at hn
  · rename_i hs
    left
    cases hn
    rw [hs]
    split <;> exact ⟨_, rfl, rfl, WooInit.noConfusion, rfl, rfl⟩
  · rename_i hs
    left
    cases hn
    rw [hs]
    split <;> exact ⟨_, rfl, rfl, WooInit.noConfusion, rfl, rfl⟩
  · rename_i hs
    left
    cases hn
    rw [hs]
    split <;> exact ⟨_, rfl, rfl, WooInit.noConfusion, rfl, rfl⟩
  · rename_i hs
    left
    cases hn
    rw [hs]
    split
    · split <;> exact ⟨_, rfl, rfl, WooInit.noConfusion, rfl, rfl⟩
    · exact ⟨_, rfl, rfl, WooInit.noConfusion, rfl, rfl⟩
  · rename_i hs
    obtain ⟨hsem, he⟩ := Option.ite_none_right_eq_some.1 hn
    cases he
    exact .inr (.inl ⟨hs, hsem, rfl⟩)
  · rename_i hs
    obtain ⟨w, hw, rfl⟩ := Option.map_eq_some_iff.1 hn
    exact .inr (.inr (.inl ⟨hs, w, hw, rfl⟩))
  · rename_i hs
    cases hn
    exact .inr (.inr (.inr ⟨hs, rfl⟩))
  · cases hn
  · cases hn
  · cases hn

theorem Boot.posted_wooInit (hn : b.wooInit p ok = some b') : b'.posted = b.posted := by
  rcases wooInit_opens hn with ⟨s, rfl, -⟩ | ⟨-, -, rfl⟩ | ⟨-, w, -, rfl⟩ | ⟨-, rfl⟩
  · rfl
  · rfl
  · rfl
  · rfl

theorem Boot.Unposted.wooInit (h : b.Unposted) (hn : b.wooInit p ok = some b') : b'.Unposted := by
  have hp := (h.outside p).1
  rcases wooInit_opens hn with ⟨s, rfl, hi, hd, -, -⟩ | ⟨-, hsem, -⟩ | ⟨hs, -⟩ | ⟨hs, -⟩
  · refine ⟨h.sem, h.prepared, h.stage, ?_, h.gui, h.servers, h.owner⟩
    intro q
    rw [servers_setServer]
    split
    · exact ⟨hi, hd⟩
    · exact h.outside q
  · exact absurd h.sem (Nat.ne_of_gt hsem)
  · rw [hs] at hp
    cases hp
  · rw [hs] at hp
    cases hp

/-- The server has the semaphore, and is the only one. -/
theorem Boot.Posted.alone (h : b.Posted) (hp : (b.servers p).inside = true) :
    b.sem = 0 ∧ ∀ q, (b.servers q).inside = true → q = p := by
  rcases h.sem with ⟨-, hnone⟩ | ⟨hzero, p', -, hu⟩
  · rw [hnone p] at hp
    cases hp
  · refine ⟨hzero, fun q hq => ?_⟩
    rw [hu q hq, hu p hp]

theorem Boot.inside_setServer (s : WooInit) (h : q ≠ p) :
    ((b.setServer p s).servers q).inside = (b.servers q).inside := by
  rw [servers_setServer, if_neg h]

theorem Boot.Posted.waiting_setServer (h : b.Posted)
    (hs : s.waits = true → (b.servers p).waits = true) (q : Nat)
    (hq : ((b.setServer p s).servers q).waits = true) : b.world.servers q = .fresh := by
  rw [servers_setServer] at hq
  split at hq
  · rename_i he
    rw [he]
    exact h.waiting p (hs hq)
  · exact h.waiting q hq

theorem Boot.Posted.opens (h : b.Posted) (hi : s.inside = false)
    (hp : (b.servers p).inside = false) (hw : (b.servers p).waits = true) :
    (b.setServer p s).Posted := by
  have hin (q : Nat) : ((b.setServer p s).servers q).inside = (b.servers q).inside := by
    rw [servers_setServer]
    split
    · rename_i hq
      rw [hq, hi, hp]
    · rfl
  refine ⟨h.reached, h.stage, ?_, h.waiting_setServer fun _ => hw⟩
  simp only [hin]
  exact h.sem

theorem Boot.Posted.locks (h : b.Posted) (hs : b.servers p = .checked) (hsem : 0 < b.sem) :
    Posted { b.setServer p .locked with sem := b.sem - 1 } := by
  rcases h.sem with ⟨hone, hnone⟩ | ⟨hzero, -⟩
  · refine ⟨h.reached, h.stage, .inr ⟨?_, p, ?_, ?_⟩, h.waiting_setServer fun _ => by rw [hs]; rfl⟩
    · dsimp only
      rw [hone]
    · dsimp only
      rw [servers_setServer, if_pos rfl]
      rfl
    · intro q hq
      by_contra hne
      rw [inside_setServer _ hne, hnone q] at hq
      cases hq
  · exact absurd hzero (Nat.ne_of_gt hsem)

theorem Boot.Posted.allocates (h : b.Posted) (hs : b.servers p = .locked)
    (hw : b.world.alloc p = some w) : Posted { b.setServer p .allocated with world := w } := by
  obtain ⟨hzero, hu⟩ := h.alone (p := p) (by rw [hs]; rfl)
  have hreached : slotSystem.Reachable w := .step (e := Step.alloc p) h.reached trivial hw
  refine ⟨hreached, h.stage, .inr ⟨hzero, p, ?_, ?_⟩, ?_⟩
  · dsimp only
    rw [servers_setServer, if_pos rfl]
    rfl
  · intro q hq
    by_contra hne
    rw [inside_setServer _ hne] at hq
    exact hne (hu q hq)
  · intro q hq
    dsimp only at hq ⊢
    rw [servers_setServer] at hq
    split at hq
    · cases hq
    · rename_i hne
      have hq' := h.waiting q hq
      obtain ⟨-, ⟨x, m, -, rfl⟩ | ⟨-, rfl⟩⟩ := alloc_cases hw
      · exact (Function.update_of_ne hne _ _).trans hq'
      · exact (Function.update_of_ne hne _ _).trans hq'

theorem Boot.Posted.posts (h : b.Posted) (hs : b.servers p = .allocated) :
    Posted { b.setServer p .done with sem := b.sem + 1 } := by
  obtain ⟨hzero, hu⟩ := h.alone (p := p) (by rw [hs]; rfl)
  refine ⟨h.reached, h.stage, .inl ⟨?_, ?_⟩, h.waiting_setServer nofun⟩
  · dsimp only
    rw [hzero]
  · intro q
    dsimp only
    rw [servers_setServer]
    split
    · rfl
    · rename_i hne
      rw [Bool.eq_false_iff]
      exact fun hq => hne (hu q hq)

theorem Boot.Posted.wooInit (h : b.Posted) (hn : b.wooInit p ok = some b') : b'.Posted := by
  rcases wooInit_opens hn with ⟨s, rfl, hi, -, hp, hw⟩ | ⟨hs, hsem, rfl⟩ | ⟨hs, w, hw, rfl⟩ |
    ⟨hs, rfl⟩
  · exact h.opens hi hp hw
  · exact h.locks hs hsem
  · exact h.allocates hs hw
  · exact h.posts hs

/-- A step of a server that has its slot, or of the GUI, in a world that has been initialized. -/
theorem Boot.Posted.world (h : b.Posted) (hn : b.world.next e = some w)
    (hs : ∀ q, b.world.servers q = .fresh → (b.servers q).waits = true → w.servers q = .fresh) :
    Posted { b with world := w } where
  reached := .step h.reached trivial hn
  stage := h.stage
  sem := h.sem
  waiting := fun q hq => hs q (h.waiting q hq) hq

theorem Boot.Posted.step (h : b.Posted) (hp : b.posted = true) (hn : b.next e = some b') :
    b'.posted = true ∧ b'.Posted := by
  cases e with
  | dataInitialize ok pid =>
    simp only [Boot.next, Boot.dataInitialize] at hn
    rcases h.stage with hs | hs
    · rw [hs] at hn
      cases hn
    · rw [hs] at hn
      cases hn
  | destroy =>
    simp only [Boot.next, Boot.destroy] at hn
    split at hn
    · cases hn
      exact ⟨hp, h.reached, .inr rfl, h.sem, h.waiting⟩
    · cases hn
      exact ⟨hp, h.reached, .inr rfl, h.sem, h.waiting⟩
    · cases hn
  | wooInit p ok => exact ⟨(posted_wooInit hn).trans hp, h.wooInit hn⟩
  | call p c =>
    obtain ⟨hd, hm⟩ := Option.ite_none_right_eq_some.1 hn
    obtain ⟨w, hw, rfl⟩ := Option.map_eq_some_iff.1 hm
    refine ⟨hp, h.world (e := .call p c) hw ?_⟩
    intro q hq hwait
    have hne : q ≠ p := by
      rintro rfl
      rw [hd] at hwait
      cases hwait
    obtain ⟨x, -, rfl | rfl⟩ := call_cases hw
    · exact hq
    · exact (Function.update_of_ne hne _ _).trans hq
  | exit p =>
    obtain ⟨hd, hm⟩ := Option.ite_none_right_eq_some.1 hn
    obtain ⟨w, hw, rfl⟩ := Option.map_eq_some_iff.1 hm
    refine ⟨hp, h.world (e := .exit p) hw ?_⟩
    intro q hq hwait
    have hne : q ≠ p := by
      rintro rfl
      rw [hd] at hwait
      cases hwait
    obtain ⟨x, -, rfl⟩ := exit_cases hw
    exact (Function.update_of_ne hne _ _).trans hq
  | visit x now =>
    obtain ⟨-, hm⟩ := Option.ite_none_right_eq_some.1 hn
    obtain ⟨w, hw, rfl⟩ := Option.map_eq_some_iff.1 hm
    refine ⟨hp, h.world (e := .visit x now) hw ?_⟩
    intro q hq _
    obtain ⟨-, rfl⟩ := visit_cases hw
    exact hq

theorem Boot.Unposted.step (h : b.Unposted) (hp : b.posted = false) (hn : b.next e = some b') :
    b'.Sound := by
  cases e with
  | dataInitialize ok pid => exact h.dataInitialize hp hn
  | destroy =>
    left
    simp only [Boot.next, Boot.destroy] at hn
    split at hn
    · rename_i hs
      exact absurd hs h.stage
    · cases hn
      exact ⟨hp, h.sem, trivial, InitStage.noConfusion, h.outside, h.gui, h.servers, h.owner⟩
    · cases hn
  | wooInit p ok => exact .inl ⟨(posted_wooInit hn).trans hp, h.wooInit hn⟩
  | call p c =>
    obtain ⟨hd, -⟩ := Option.ite_none_right_eq_some.1 hn
    exact absurd hd (h.outside p).2
  | exit p =>
    obtain ⟨hd, -⟩ := Option.ite_none_right_eq_some.1 hn
    exact absurd hd (h.outside p).2
  | visit x now =>
    obtain ⟨hs, -⟩ := Option.ite_none_right_eq_some.1 hn
    exact absurd hs.1 h.stage

end Steps

end WooTftpd
