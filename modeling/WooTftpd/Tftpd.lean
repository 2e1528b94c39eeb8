import WooTftpd.Daemon
import WooTftpd.Service

namespace WooTftpd
open Lib
set_option autoImplicit true

/-- What does not change while the server runs. `rewrite` is the mapping with a set of rules. -/
structure Setup (ρ : Type) where
  started : Started ρ
  opened : Input → Bool
  rewrite : ρ → CString → UInt16 → Except (Option String) CString
  strerror : Nat → CString

namespace Setup

variable (c : Setup ρ)

def listener : Listener where
  standalone := c.started.vars.standalone
  opened := c.opened
  rewriteFile := c.started.vars.rewriteFile.isSome
  pidfile := c.started.vars.pidfile.isSome

/-- Without rules the name stays. -/
def rewriteAccess : Option ρ → CString → UInt16 → Except (Option String) CString
  | none => fun name _ => .ok name
  | some rules => c.rewrite rules

def config (rules : Option ρ) : ServerConfig := c.started.config (c.rewriteAccess rules)

end Setup

def Forked.size (c : Forked ρ) : Nat := (received c.datagram.bytes).length

/-- The process that listens, the files, and what the children are about: nothing before they have
looked at their requests. -/
structure Tftpd (ρ : Type) where
  daemon : Daemon ρ
  fs : FileSystem
  tasks : Nat → Option Task

inductive TftpdEvent (ρ : Type) where
  | loop (e : LoopEvent ρ)
  | request (i : Nat) (k : Kernel) (fate : Fate)
  | child (i : Nat) (e : Event)

/-- A child reads its file as it is by now. -/
def Task.refresh (fs : FileSystem) : Task → Task
  | .sending t oacklen filename s =>
    .sending t oacklen filename { s with file := { s.file with content := fs.content filename.bytes } }
  | task => task

@[simp] theorem Task.received?_refresh (task : Task) (fs : FileSystem) :
    (task.refresh fs).received? = task.received? := by
  cases task <;> rfl

namespace Tftpd

variable (c : Setup ρ) (s : Tftpd ρ)

def set (i : Nat) (child : Child) : Tftpd ρ :=
  { s with fs := child.fs, tasks := Function.update s.tasks i (some child.task) }

def request (i : Nat) (k : Kernel) (fate : Fate) : Option (Tftpd ρ) :=
  match s.daemon.children[i]?, s.tasks i with
  | some f, none =>
    some (s.set i (Child.start (c.config f.rules) k c.strerror fate f.buf f.size s.fs).1)
  | _, _ => none

def child (i : Nat) (e : Event) : Option (Tftpd ρ) :=
  (s.tasks i).map fun task => s.set i (Child.step c.strerror ⟨s.fs, task.refresh s.fs⟩ e).1

def next : TftpdEvent ρ → Option (Tftpd ρ)
  | .loop e => (s.daemon.next c.listener e).map fun d => { s with daemon := d }
  | .request i k fate => s.request c i k fate
  | .child i e => s.child c i e

def initial (fs : FileSystem) : Tftpd ρ := ⟨.initial c.started.rules, fs, fun _ => none⟩

end Tftpd

section Modes

variable {cfg : AccessConfig} {k : Kernel} {fs fs' : FileSystem} {filename : CString}

/-- No file is removed, and none changes its permissions. -/
def KeepsModes (fs fs' : FileSystem) : Prop :=
  ∀ name f, fs name = some f → ∃ f', fs' name = some f' ∧ f'.othersRead = f.othersRead ∧
    f'.othersWrite = f.othersWrite

theorem KeepsModes.refl (fs : FileSystem) : KeepsModes fs fs := fun _ f h => ⟨f, h, rfl, rfl⟩

theorem KeepsModes.trans (h : KeepsModes fs fs') (h' : KeepsModes fs' fs'') :
    KeepsModes fs fs'' := by
  intro name f hf
  obtain ⟨f', hf', hr, hw⟩ := h name f hf
  obtain ⟨f'', hf'', hr', hw'⟩ := h' name f' hf'
  exact ⟨f'', hf'', hr'.trans hr, hw'.trans hw⟩

theorem KeepsModes.set (h : ∀ f, fs name = some f → f'.othersRead = f.othersRead ∧
    f'.othersWrite = f.othersWrite) : KeepsModes fs (fs.set name f') := by
  intro name' f hf
  by_cases he : name' = name
  · subst he
    exact ⟨f', FileSystem.set_same fs name' f', h f hf⟩
  · exact ⟨f, (FileSystem.set_other fs f' he).trans hf, rfl, rfl⟩

theorem KeepsModes.write (fs : FileSystem) (name content : List UInt8) :
    KeepsModes fs (fs.write name content) := by
  unfold FileSystem.write
  cases hf : fs name with
  | none => exact .refl fs
  | some f =>
    apply KeepsModes.set
    intro f' hf'
    rw [hf] at hf'
    cases hf'
    exact ⟨rfl, rfl⟩

theorem checkFile_files (cfg : AccessConfig) (k : Kernel) (opcode : UInt16) (convert : Bool)
    (filename : CString) (f : File) (fs : FileSystem) :
    (checkFile cfg k opcode convert filename f fs).2 = fs ∨
      (checkFile cfg k opcode convert filename f fs).2 =
        fs.set filename.bytes { f with content := [] } := by
  simp only [checkFile]
  repeat' split
  all_goals first | exact .inl rfl | exact .inr rfl

theorem accessFile_modes (cfg : AccessConfig) (k : Kernel) (opcode : UInt16) (convert : Bool)
    (filename : CString) (fs : FileSystem) :
    KeepsModes fs (accessFile cfg k opcode convert filename fs).2 := by
  rw [accessFile]
  cases nameError cfg filename.bytes with
  | some msg => exact .refl fs
  | none =>
    cases hopen : openFile cfg k opcode filename fs with
    | error errno => exact .refl fs
    | ok r =>
      obtain ⟨f, fs₁⟩ := r
      have hopened : KeepsModes fs fs₁ ∧ fs₁ filename.bytes = some f := by
        rcases openFile_ok hopen with ⟨hf, rfl⟩ | ⟨hf, rfl⟩
        · exact ⟨.refl _, hf⟩
        · refine ⟨.set ?_, FileSystem.set_same fs _ _⟩
          intro f' hf'
          rw [hf] at hf'
          cases hf'
      dsimp only
      rcases checkFile_files cfg k opcode convert filename f fs₁ with he | he
      · rw [he]
        exact hopened.1
      · rw [he]
        refine hopened.1.trans (.set ?_)
        intro f' hf'
        rw [hopened.2] at hf'
        cases hf'
        exact ⟨rfl, rfl⟩

theorem Child.start_modes (cfg : ServerConfig) (k : Kernel) (strerror : Nat → CString) (fate : Fate)
    (buf : Mem) (n : Nat) (fs : FileSystem) :
    KeepsModes fs (Child.start cfg k strerror fate buf n fs).1.fs := by
  have hkeeps : KeepsModes fs (handleDatagram cfg k buf n fs).2.fs :=
    handleDatagram_files (.refl fs) fun convert filename _ _ => accessFile_modes _ _ _ _ _ _
  simp only [Child.start]
  split
  · simp only [Child.serve]
    split
    · exact hkeeps.trans (.write _ _ _)
    · exact hkeeps
  · exact hkeeps
  · exact hkeeps

theorem Child.step_modes (strerror : Nat → CString) (c : Child) (e : Event) :
    KeepsModes c.fs (Child.step strerror c e).1.fs := by
  simp only [Child.step]
  split
  · exact .refl c.fs
  · exact .refl c.fs
  · exact .write _ _ _

end Modes

section Files

variable {c : Setup ρ} {fs : FileSystem} {s s' : Tftpd ρ}

/-- The file of a request that a child has got, where the request may change it. -/
structure Changeable (c : Setup ρ) (fs : FileSystem) (children : List (Forked ρ))
    (filename : CString) : Prop where
  asked : ∃ f ∈ children, thOpcode f.buf = WRQ ∧
    requestedFile (c.config f.rules) f.buf f.size = some filename
  named : nameError (c.config c.started.rules).access filename.bytes = none
  permitted : match fs filename.bytes with
    | some f => (c.started.vars.unixperms || f.othersWrite) = true
    | none => c.started.vars.cancreate = true

theorem Changeable.mono (h : Changeable c fs children filename) (hsub : children ⊆ children') :
    Changeable c fs children' filename where
  asked := by
    obtain ⟨f, hf, hr⟩ := h.asked
    exact ⟨f, hsub hf, hr⟩
  named := h.named
  permitted := h.permitted

structure Tftpd.Sound (c : Setup ρ) (fs : FileSystem) (s : Tftpd ρ) : Prop where
  kept : KeepsModes fs s.fs
  framed : Framed (Changeable c fs s.daemon.children) fs s.fs
  receives : ∀ i filename, (s.tasks i).bind Task.received? = some filename →
    Changeable c fs s.daemon.children filename

theorem Framed.mono {P Q : CString → Prop} (h : Framed P fs fs') (hpq : ∀ f, P f → Q f) :
    Framed Q fs fs' := by
  intro name hne
  obtain ⟨filename, hp, he⟩ := h name hne
  exact ⟨filename, hpq filename hp, he⟩

theorem Framed.trans {P : CString → Prop} (h : Framed P fs fs') (h' : Framed P fs' fs'') :
    Framed P fs fs'' := by
  intro name hne
  by_cases he : fs' name = fs name
  · exact h' name fun he' => hne (he'.trans he)
  · exact h name he

/-- What a child may do to the files as they are, the server may do to them as they were. -/
theorem Tftpd.Sound.changeable (h : s.Sound c fs) (hf : f ∈ s.daemon.children)
    (ht : Target (c.config f.rules) f.buf f.size s.fs filename) :
    Changeable c fs s.daemon.children filename where
  asked := ⟨f, hf, ht.opcode, ht.requested⟩
  named := ht.writable.named
  permitted := by
    have hperm := ht.writable.permitted
    cases hfs : fs filename.bytes with
    | some f₀ =>
      obtain ⟨f₁, hf₁, -, hw⟩ := h.kept filename.bytes f₀ hfs
      rw [hf₁] at hperm
      have hnow : (c.started.vars.unixperms || f₁.othersWrite) = true := hperm
      rw [hw] at hnow
      exact hnow
    | none =>
      cases hnow : s.fs filename.bytes with
      | none =>
        rw [hnow] at hperm
        exact hperm
      | some f₁ =>
        -- A child has created it since.
        have hne : s.fs filename.bytes ≠ fs filename.bytes := by
          rw [hnow, hfs]
          exact Option.some_ne_none f₁
        obtain ⟨filename', hc, he⟩ := h.framed _ hne
        have hcreate := hc.permitted
        rw [he, hfs] at hcreate
        exact hcreate

theorem Tftpd.Sound.set (h : s.Sound c fs) (i : Nat) {child : Child}
    (hk : KeepsModes s.fs child.fs)
    (hc : Child.Confined (Changeable c fs s.daemon.children) s.fs child) :
    (s.set i child).Sound c fs where
  kept := h.kept.trans hk
  framed := h.framed.trans hc.framed
  receives := by
    intro j filename hj
    simp only [Tftpd.set, Function.update_apply] at hj
    split at hj
    · exact hc.receives filename hj
    · exact h.receives j filename hj

theorem Daemon.next_children {d d' : Daemon ρ} (hn : d.next l e = some d') :
    d.children ⊆ d'.children := by
  by_cases htop : ∃ unlinked, e = .top unlinked
  · obtain ⟨unlinked, rfl⟩ := htop
    obtain ⟨-, rfl⟩ := next_top hn
    rw [(top_idles l d unlinked).children]
    exact List.Subset.refl _
  · rw [not_exists] at htop
    rcases next_place hn htop with ⟨-, hk⟩ | ⟨map, -, -, rfl⟩ | ⟨-, hk⟩ | ⟨fd, r, -, rfl⟩
    · rw [hk.children]
      exact List.Subset.refl _
    · rw [(reread_idles d map).children]
      exact List.Subset.refl _
    · rw [hk.children]
      exact List.Subset.refl _
    · exact List.subset_append_left _ _

theorem Tftpd.Sound.step (h : s.Sound c fs) (hn : s.next c e = some s') : s'.Sound c fs := by
  cases e with
  | loop e =>
    obtain ⟨d, hd, rfl⟩ := Option.map_eq_some_iff.1 hn
    have hsub := Daemon.next_children hd
    exact ⟨h.kept, h.framed.mono fun _ hc => hc.mono hsub,
      fun i filename hi => (h.receives i filename hi).mono hsub⟩
  | request i k fate =>
    simp only [Tftpd.next, Tftpd.request] at hn
    split at hn
    · rename_i f hf _
      cases hn
      have hmem : f ∈ s.daemon.children := List.mem_of_getElem? hf
      have hconf := Child.start_confined (c.config f.rules) k c.strerror fate f.buf f.size s.fs
      apply h.set i (Child.start_modes _ _ _ _ _ _ _)
      exact ⟨hconf.framed.mono fun _ ht => h.changeable hmem ht,
        fun filename ht => h.changeable hmem (hconf.receives filename ht)⟩
    · cases hn
  | child i e =>
    obtain ⟨task, htask, rfl⟩ := Option.map_eq_some_iff.1 hn
    have hconf : Child.Confined (Changeable c fs s.daemon.children) s.fs
        ⟨s.fs, task.refresh s.fs⟩ := by
      refine ⟨.refl _ _, ?_⟩
      intro filename ht
      apply h.receives i filename
      rw [htask, Option.bind_some, ← Task.received?_refresh task s.fs]
      exact ht
    exact h.set i (Child.step_modes c.strerror ⟨s.fs, task.refresh s.fs⟩ e) (hconf.step e)

end Files

end WooTftpd
