import WooTftpd.Reads

namespace WooTftpd
open Lib
set_option autoImplicit true

/-- What a child was asked for. The OACK is the one that it builds for the size it has seen; `err`
are the offsets at which the kernel fails its reads. -/
structure Job where
  write : Bool
  create : Bool
  transfer : Transfer
  oack : Nat → Option Nat
  ackbuf : Nat → Mem
  err : Nat → Bool

/-- `tftp_sendfile` of a child that has seen a file of `size` bytes, over one content of it. -/
def Job.sendfile (j : Job) (size : Nat) (content : List UInt8) : Machine SendState Event Action :=
  tftpSendfile j.transfer (j.oack size) (j.ackbuf size) ⟨content, 0, j.err⟩

/-- How far a child has come in `validate_access` and behind it. `version` remembers the content
of the file at the time of the lock; no step depends on it. -/
inductive Stage where
  | forked
  | opened
  | sampled (size : Nat)
  | locked (size : Nat) (version : List UInt8)
  | sending (size : Nat) (version : List UInt8) (c : Config SendState Event Action)
  | receiving
  | sent (size : Nat) (version : List UInt8) (c : Config SendState Event Action)
  | gone

/-- Between the successful `lock_file` and the close of the file. -/
def Stage.between : Stage → Bool
  | .locked _ _ => true
  | .sending _ _ _ => true
  | .receiving => true
  | _ => false

/-- The file that all children were asked for, its record locks with their owners (`true` for a
write lock), and the children. -/
structure Shared where
  file : Option (List UInt8)
  locks : List (Nat × Bool)
  stage : Nat → Stage

inductive ChildStep where
  | openFile (p : Nat)
  | fstat (p : Nat)
  | lockFile (p : Nat)
  | truncate (p : Nat)
  | sendfile (p : Nat)
  | event (p : Nat) (e : Event)
  | write (p : Nat) (content : List UInt8)
  | close (p : Nat)
  | exit (p : Nat)

namespace Shared

def content (s : Shared) : List UInt8 := s.file.getD []

def setStage (s : Shared) (p : Nat) (st : Stage) : Shared :=
  { s with stage := Function.update s.stage p st }

/-- The locks of a process are released by its `close` and at its end. -/
def release (s : Shared) (p : Nat) (st : Stage) : Shared :=
  { s.setStage p st with locks := s.locks.filter fun l => l.1 ≠ p }

def overwrite (s : Shared) (p : Nat) (content : List UInt8) : Shared :=
  { s.setStage p .receiving with file := some content }

/-- `F_SETLK`: a write lock excludes the locks of all other processes. -/
def grants (s : Shared) (p : Nat) (write : Bool) : Bool :=
  s.locks.all fun l => l.1 = p ∨ (l.2 = false ∧ write = false)

variable (jobs : Nat → Job) (s : Shared)

/-- The file is created here, but not truncated. -/
def openFile (p : Nat) : Option Shared :=
  match s.stage p with
  | .forked =>
    match s.file with
    | some _ => some (s.setStage p .opened)
    | none =>
      if (jobs p).write ∧ (jobs p).create then some { s.setStage p .opened with file := some [] }
      else some (s.setStage p .gone)
  | _ => none

def fstat (p : Nat) : Option Shared :=
  match s.stage p with
  | .opened => some (s.setStage p (.sampled s.content.length))
  | _ => none

/-- A child that does not get its lock exits. -/
def lockFile (p : Nat) : Option Shared :=
  match s.stage p with
  | .sampled size =>
    if s.grants p (jobs p).write then
      some { s.setStage p (.locked size s.content) with locks := (p, (jobs p).write) :: s.locks }
    else some (s.setStage p .gone)
  | _ => none

def truncate (p : Nat) : Option Shared :=
  match s.stage p with
  | .locked _ _ =>
    if (jobs p).write then some (s.overwrite p []) else none
  | _ => none

def sendfile (p : Nat) : Option Shared :=
  match s.stage p with
  | .locked size version =>
    if (jobs p).write then none
    else some (s.setStage p (.sending size version ((jobs p).sendfile size s.content).init))
  | _ => none

/-- Whatever `tftp_sendfile` reads in a step comes from the file as it then is. -/
def event (p : Nat) (e : Event) : Option Shared :=
  match s.stage p with
  | .sending size version c =>
    let c := { c with state := { c.state with file := { c.state.file with content := s.content } } }
    some (s.setStage p (.sending size version (((jobs p).sendfile size s.content).next c e)))
  | _ => none

/-- All that may reach the file from `write`, or from the buffer of the stream when it is full,
when `fseek` or `fclose` is called, or at the exit of the process. -/
def write (p : Nat) (content : List UInt8) : Option Shared :=
  match s.stage p with
  | .receiving => some (s.overwrite p content)
  | _ => none

def close (p : Nat) : Option Shared :=
  match s.stage p with
  | .sending size version c =>
    if c.state.phase = .ended .completed ∨ c.state.phase = .ended .aborted then
      some (s.release p (.sent size version c))
    else none
  | .receiving => some (s.release p .gone)
  | _ => none

/-- A child may end anywhere: a file that cannot be opened or has not the permissions, an option
that is refused, a timeout. -/
def exit (p : Nat) : Option Shared :=
  match s.stage p with
  | .sent _ _ _ => none
  | _ => some (s.release p .gone)

def next : ChildStep → Option Shared
  | .openFile p => s.openFile jobs p
  | .fstat p => s.fstat p
  | .lockFile p => s.lockFile jobs p
  | .truncate p => s.truncate jobs p
  | .sendfile p => s.sendfile jobs p
  | .event p e => s.event jobs p e
  | .write p content => s.write p content
  | .close p => s.close p
  | .exit p => s.exit p

end Shared

def Shared.Initial (s : Shared) : Prop := s.locks = [] ∧ ∀ p, s.stage p = .forked

def childSystem (jobs : Nat → Job) : System Shared ChildStep :=
  ⟨Shared.Initial, fun s e => s.next jobs e⟩

/-- What a child has read is what it would have read from the content of the file at its lock, and
until its close the file still has that content. -/
def Stage.Consistent (j : Job) (content : List UInt8) : Stage → Prop
  | .locked _ version => j.write = false → content = version
  | .sending size version c =>
    j.write = false ∧ content = version ∧ ∃ es, c = (j.sendfile size version).run es
  | .receiving => j.write = true
  | .sent size version c => j.write = false ∧ ∃ es, c = (j.sendfile size version).run es
  | _ => True

structure LockInv (jobs : Nat → Job) (s : Shared) : Prop where
  held : ∀ p, (s.stage p).between = true → (p, (jobs p).write) ∈ s.locks
  exclusive : ∀ p q, (s.stage p).between = true → (s.stage q).between = true →
    (jobs p).write = true → q = p
  consistent : ∀ p, (s.stage p).Consistent (jobs p) s.content

theorem Job.sendfile_content (j : Job) (size : Nat) (content : List UInt8) (es : List Event) :
    ((j.sendfile size content).run es).state.file.content = content :=
  (sendfile_reads j.transfer (j.oack size) (j.ackbuf size) ⟨content, 0, j.err⟩ es).content

/-- The file is read again where it has not changed. -/
theorem Job.sendfile_reread (j : Job) (size : Nat) (content : List UInt8) (es : List Event) :
    let c := (j.sendfile size content).run es
    { c with state := { c.state with file := { c.state.file with content := content } } } = c := by
  intro c
  have hc : c.state.file.content = content := j.sendfile_content size content es
  rw [← hc]

section Locks

variable {jobs : Nat → Job} {s s' : Shared}

@[simp] theorem Shared.stage_setStage_self (s : Shared) (p : Nat) (st : Stage) :
    (s.setStage p st).stage p = st := Function.update_self _ _ _

theorem Shared.stage_setStage_ne (s : Shared) (st : Stage) (h : q ≠ p) :
    (s.setStage p st).stage q = s.stage q := Function.update_of_ne h _ _

theorem Stage.Consistent.unlocked {st : Stage} (h : st.Consistent j content)
    (hb : st.between = false) (content' : List UInt8) : st.Consistent j content' := by
  cases st with
  | locked size version => cases hb
  | sending size version c => cases hb
  | receiving => cases hb
  | _ => exact h

namespace LockInv

theorem setStage (h : LockInv jobs s) (hb : st.between = true → (s.stage p).between = true)
    (hc : st.Consistent (jobs p) s.content) : LockInv jobs (s.setStage p st) := by
  have hold (q : Nat) (hq : ((s.setStage p st).stage q).between = true) :
      (s.stage q).between = true := by
    by_cases hqp : q = p
    · subst hqp
      simp only [Shared.stage_setStage_self] at hq
      exact hb hq
    · simp only [Shared.stage_setStage_ne _ _ hqp] at hq
      exact hq
  constructor
  · intro q hq
    exact h.held q (hold q hq)
  · intro q r hq hr
    exact h.exclusive q r (hold q hq) (hold r hr)
  · intro q
    by_cases hqp : q = p
    · subst hqp
      simp only [Shared.stage_setStage_self]
      exact hc
    · simp only [Shared.stage_setStage_ne _ _ hqp]
      exact h.consistent q

theorem release (h : LockInv jobs s) (hb : st.between = false)
    (hc : st.Consistent (jobs p) s.content) : LockInv jobs (s.release p st) := by
  have hset : LockInv jobs (s.setStage p st) := by
    apply h.setStage _ hc
    intro he
    rw [hb] at he
    cases he
  refine ⟨?_, hset.exclusive, hset.consistent⟩
  intro q hq
  have hqp : q ≠ p := by
    rintro rfl
    simp only [Shared.release, Shared.stage_setStage_self, hb] at hq
    cases hq
  exact List.mem_filter.2 ⟨hset.held q hq, decide_eq_true hqp⟩

/-- A writer that holds its lock changes a file that no other child has locked. -/
theorem overwrite (h : LockInv jobs s) (hb : (s.stage p).between = true)
    (hw : (jobs p).write = true) (content : List UInt8) :
    LockInv jobs (s.overwrite p content) := by
  have hother (q : Nat) (hqp : q ≠ p) : (s.stage q).between = false := by
    rw [← Bool.not_eq_true]
    intro hq
    exact hqp (h.exclusive p q hb hq hw)
  have hset : LockInv jobs (s.setStage p .receiving) := h.setStage (fun _ => hb) hw
  refine ⟨hset.held, hset.exclusive, ?_⟩
  intro q
  by_cases hqp : q = p
  · subst hqp
    simp only [Shared.overwrite, Shared.stage_setStage_self]
    exact hw
  · simp only [Shared.overwrite, Shared.stage_setStage_ne _ _ hqp]
    exact (h.consistent q).unlocked (hother q hqp) _

theorem of_grants (h : LockInv jobs s) (hg : s.grants p write = true)
    (hq : (s.stage q).between = true) (hqp : q ≠ p) :
    (jobs q).write = false ∧ write = false := by
  have hall := List.all_eq_true.1 hg _ (h.held q hq)
  rcases of_decide_eq_true hall with he | he
  · exact absurd he hqp
  · exact he

theorem lockFile (h : LockInv jobs s) (hn : s.lockFile jobs p = some s') : LockInv jobs s' := by
  simp only [Shared.lockFile] at hn
  split at hn
  · rename_i size hs
    split at hn
    · rename_i hg
      cases hn
      constructor
      · intro q hq
        by_cases hqp : q = p
        · rw [hqp]
          exact List.mem_cons_self
        · simp only [Shared.stage_setStage_ne _ _ hqp] at hq
          exact List.mem_cons_of_mem _ (h.held q hq)
      · intro q r hq hr hw
        by_contra hne
        by_cases hqp : q = p
        · subst hqp
          simp only [Shared.stage_setStage_ne _ _ hne] at hr
          have hf := (h.of_grants hg hr hne).2
          rw [hw] at hf
          cases hf
        · simp only [Shared.stage_setStage_ne _ _ hqp] at hq
          by_cases hrp : r = p
          · have hf := (h.of_grants hg hq hqp).1
            rw [hw] at hf
            cases hf
          · simp only [Shared.stage_setStage_ne _ _ hrp] at hr
            exact hne (h.exclusive q r hq hr hw)
      · intro q
        by_cases hqp : q = p
        · subst hqp
          simp only [Shared.stage_setStage_self]
          exact fun _ => rfl
        · simp only [Shared.stage_setStage_ne _ _ hqp]
          exact h.consistent q
    · cases hn
      exact h.setStage (fun he => by cases he) trivial
  · cases hn

theorem openFile (h : LockInv jobs s) (hn : s.openFile jobs p = some s') : LockInv jobs s' := by
  have hopened : LockInv jobs (s.setStage p .opened) := h.setStage (fun he => by cases he) trivial
  simp only [Shared.openFile] at hn
  split at hn
  · split at hn
    · cases hn
      exact hopened
    · rename_i hf
      split at hn
      · cases hn
        have hempty : s.content = [] := by rw [Shared.content, hf, Option.getD_none]
        refine ⟨hopened.held, hopened.exclusive, ?_⟩
        intro q
        have hq := hopened.consistent q
        exact hempty ▸ hq
      · cases hn
        exact h.setStage (fun he => by cases he) trivial
  · cases hn

theorem fstat (h : LockInv jobs s) (hn : s.fstat p = some s') : LockInv jobs s' := by
  simp only [Shared.fstat] at hn
  split at hn
  · cases hn
    exact h.setStage (fun he => by cases he) trivial
  · cases hn

theorem truncate (h : LockInv jobs s) (hn : s.truncate jobs p = some s') : LockInv jobs s' := by
  simp only [Shared.truncate] at hn
  split at hn
  · rename_i hs
    split at hn
    · rename_i hw
      cases hn
      exact h.overwrite (by rw [hs]; rfl) hw []
    · cases hn
  · cases hn

theorem sendfile (h : LockInv jobs s) (hn : s.sendfile jobs p = some s') : LockInv jobs s' := by
  simp only [Shared.sendfile] at hn
  split at hn
  · rename_i size version hs
    split at hn
    · cases hn
    · rename_i hw
      cases hn
      have hw' : (jobs p).write = false := Bool.eq_false_iff.2 hw
      have hv : s.content = version := by
        have hp := h.consistent p
        rw [hs] at hp
        exact hp hw'
      apply h.setStage
      · intro _
        rw [hs]
        rfl
      · rw [← hv]
        exact ⟨hw', rfl, [], rfl⟩
  · cases hn

theorem event (h : LockInv jobs s) (hn : s.event jobs p e = some s') : LockInv jobs s' := by
  simp only [Shared.event] at hn
  split at hn
  · rename_i size version c hs
    cases hn
    have hp := h.consistent p
    rw [hs] at hp
    obtain ⟨hw, hv, es, hc⟩ := hp
    apply h.setStage
    · intro _
      rw [hs]
      rfl
    · refine ⟨hw, hv, es ++ [e], ?_⟩
      rw [hv, hc, Job.sendfile_reread, Machine.run_concat]
  · cases hn

theorem write (h : LockInv jobs s) (hn : s.write p content = some s') : LockInv jobs s' := by
  simp only [Shared.write] at hn
  split at hn
  · rename_i hs
    cases hn
    have hp := h.consistent p
    rw [hs] at hp
    exact h.overwrite (by rw [hs]; rfl) hp content
  · cases hn

theorem close (h : LockInv jobs s) (hn : s.close p = some s') : LockInv jobs s' := by
  simp only [Shared.close] at hn
  split at hn
  · rename_i size version c hs
    split at hn
    · cases hn
      have hp := h.consistent p
      rw [hs] at hp
      exact h.release rfl ⟨hp.1, hp.2.2⟩
    · cases hn
  · cases hn
    exact h.release rfl trivial
  · cases hn

theorem exit (h : LockInv jobs s) (hn : s.exit p = some s') : LockInv jobs s' := by
  simp only [Shared.exit] at hn
  split at hn
  · cases hn
  · cases hn
    exact h.release rfl trivial

theorem next (h : LockInv jobs s) (hn : s.next jobs e = some s') : LockInv jobs s' := by
  cases e with
  | openFile p => exact h.openFile hn
  | fstat p => exact h.fstat hn
  | lockFile p => exact h.lockFile hn
  | truncate p => exact h.truncate hn
  | sendfile p => exact h.sendfile hn
  | event p e => exact h.event hn
  | write p content => exact h.write hn
  | close p => exact h.close hn
  | exit p => exact h.exit hn

end LockInv

theorem lockInv_of_reachable (h : (childSystem jobs).Reachable s) : LockInv jobs s := by
  apply h.invariant
  · intro s hi
    obtain ⟨_, hf⟩ := hi
    constructor
    · intro p hp
      rw [hf p] at hp
      cases hp
    · intro p q hp
      rw [hf p] at hp
      cases hp
    · intro p
      rw [hf p]
      trivial
  · intro s e s' hs _ hn
    exact hs.next hn

end Locks

/-- The child that truncates the file or writes to it in this step. -/
def ChildStep.modifier? : ChildStep → Option Nat
  | .truncate p => some p
  | .write p _ => some p
  | _ => none

/-- The log of a child that sends, or has sent, with the size and the content of the file that it
has found. -/
def Stage.sends? : Stage → Option (Nat × List UInt8 × Config SendState Event Action)
  | .sending size version c => some (size, version, c)
  | .sent size version c => some (size, version, c)
  | _ => none

theorem modifier_between {jobs : Nat → Job} {s : Shared} (h : LockInv jobs s)
    (hn : s.next jobs e = some s') (he : e.modifier? = some p) :
    (s.stage p).between = true ∧ (jobs p).write = true := by
  cases e with
  | truncate q =>
    cases he
    simp only [Shared.next, Shared.truncate] at hn
    split at hn
    · rename_i hs
      split at hn
      · rename_i hw
        rw [hs]
        exact ⟨rfl, hw⟩
      · cases hn
    · cases hn
  | write q content =>
    cases he
    simp only [Shared.next, Shared.write] at hn
    split at hn
    · rename_i hs
      have hp := h.consistent p
      rw [hs] at hp ⊢
      exact ⟨rfl, hp⟩
    · cases hn
  | _ => cases he

theorem LockInv.sends_version {jobs : Nat → Job} {s : Shared} (h : LockInv jobs s)
    (hs : (s.stage p).sends? = some (size, version, c)) :
    ∃ es, c = ((jobs p).sendfile size version).run es := by
  have hp := h.consistent p
  cases hst : s.stage p with
  | sending size' version' c' =>
    rw [hst] at hs hp
    cases hs
    exact hp.2.2
  | sent size' version' c' =>
    rw [hst] at hs hp
    cases hs
    exact hp.2
  | _ =>
    rw [hst] at hs
    cases hs

/-- No child truncates or writes the file while another one is between its lock and its close,
and what a child sends is what it would send of the content at its lock alone. -/
theorem children_keep_apart (jobs : Nat → Job) (s : Shared)
    (h : (childSystem jobs).Reachable s) :
    (∀ e s' p q, s.next jobs e = some s' → e.modifier? = some p →
      (s.stage q).between = true → q = p) ∧
    ∀ p size version c, (s.stage p).sends? = some (size, version, c) →
      ∃ es, c = ((jobs p).sendfile size version).run es := by
  have hinv := lockInv_of_reachable h
  constructor
  · intro e s' p q hn he hq
    obtain ⟨hp, hw⟩ := modifier_between hinv hn he
    exact hinv.exclusive p q hp hq hw
  · intro p size version c hs
    exact hinv.sends_version hs

/-- The odd children write and the even ones read. -/
def oddWriters (p : Nat) : Job where
  write := p % 2 = 1
  create := false
  transfer := octetTransfer
  oack := fun _ => none
  ackbuf := fun _ => .zero
  err := fun _ => false

/-- Child 0 reads the file; child 1 comes while it does so, and child 3 when it has finished. -/
def readThenWrite : List ChildStep :=
  [.openFile 0, .fstat 0, .lockFile 0, .sendfile 0, .openFile 1, .fstat 1, .lockFile 1,
    .event 0 (.datagram (tftphdr ACK 1)), .close 0, .openFile 3, .fstat 3, .lockFile 3,
    .truncate 3, .write 3 [98, 99]]

theorem forked_initial (jobs : Nat → Job) (file : Option (List UInt8)) :
    (childSystem jobs).Reachable ⟨file, [], fun _ => .forked⟩ :=
  .init ⟨rfl, fun _ => rfl⟩

theorem readThenWrite_apart :
    ∃ s c, (childSystem oddWriters).Reachable s ∧ (s.stage 0).sends? = some (1, [97], c) ∧
      s.content = [98, 99] ∧
      (∀ e s' p, s.next oddWriters e = some s' → e.modifier? = some p → 3 = p) ∧
      ∃ es, c = ((oddWriters 0).sendfile 1 [97]).run es := by
  have hrun : ((childSystem oddWriters).exec ⟨some [97], [], fun _ => .forked⟩ readThenWrite).map
      (fun s => ((s.stage 0).sends?.map fun r => (r.1, r.2.1), s.content, (s.stage 3).between)) =
      some (some (1, [97]), [98, 99], true) := by decide +kernel
  obtain ⟨s, hs, he⟩ := Option.map_eq_some_iff.1 hrun
  obtain ⟨hsent, he⟩ := Prod.mk.inj he
  obtain ⟨hcontent, hb⟩ := Prod.mk.inj he
  obtain ⟨⟨size, version, c⟩, hc, hr⟩ := Option.map_eq_some_iff.1 hsent
  cases hr
  have hreach := (forked_initial oddWriters (some [97])).exec (fun _ _ _ => trivial) hs
  obtain ⟨happart, hsame⟩ := children_keep_apart oddWriters s hreach
  exact ⟨s, c, hreach, hc, hcontent, fun e s' p hn hm => happart e s' p 3 hn hm hb,
    hsame 0 1 [97] c hc⟩

end WooTftpd
