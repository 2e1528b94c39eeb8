import WooTftpd.Access
import WooTftpd.FileLocks

namespace WooTftpd
open Lib
set_option autoImplicit true

theorem openFile_content (h : openFile cfg k mode filename fs = .ok (f, fs')) :
    fs' filename.bytes = some f ∧
      (fs filename.bytes = some f ∨
        (fs filename.bytes = none ∧ f.content = [] ∧ mode ≠ RRQ ∧ cfg.cancreate = true)) := by
  simp only [openFile] at h
  split at h
  · cases h
  · rename_i hf
    cases h
    exact ⟨hf, .inl hf⟩
  · rename_i hf
    split at h
    · rename_i hc
      cases h
      exact ⟨Function.update_self _ _ _, .inr ⟨hf, rfl, hc⟩⟩
    · cases h

/-- What a child does from `open` up to its transfer. -/
def accessSteps (mode : UInt16) (p : Nat) : List ChildStep :=
  [.openFile p, .fstat p, .lockFile p, if mode = RRQ then .sendfile p else .truncate p]

theorem granted_cases (h : accessFile cfg k mode convert filename fs = (.granted tsize ok, fs')) :
    ∃ f fs₁, openFile cfg k mode filename fs = .ok (f, fs₁) ∧ k.locked = false ∧
      ((mode = RRQ ∧ tsize = f.content.length ∧ fs' = fs₁) ∨
        (mode ≠ RRQ ∧ fs' = fs₁.set filename.bytes { f with content := [] })) := by
  simp only [accessFile] at h
  split at h
  · cases h
  split at h
  · cases h
  rename_i f fs₁ ho
  refine ⟨f, fs₁, ho, ?_⟩
  simp only [checkFile] at h
  split at h
  · cases h
  rename_i hl
  refine ⟨Bool.eq_false_iff.2 (not_or.1 hl).2, ?_⟩
  split at h
  · rename_i hm
    split at h
    · cases h
    split at h
    · cases h
    · cases h
      exact .inl ⟨hm, rfl, rfl⟩
  · rename_i hm
    split at h
    · cases h
    split at h
    · cases h
    split at h
    · cases h
    · cases h
      exact .inr ⟨hm, rfl⟩

/-- A child that has the file open and is granted its lock. -/
theorem opened_exec (jobs : Nat → Job) (s : Shared) (p : Nat) (hs : s.stage p = .opened)
    (hl : s.grants p (jobs p).write = true) (es : List ChildStep) :
    (childSystem jobs).exec s (.fstat p :: .lockFile p :: es) =
      (childSystem jobs).exec { s.setStage p (.locked s.content.length s.content) with
        locks := (p, (jobs p).write) :: s.locks } es := by
  have hstat : (childSystem jobs).next s (.fstat p) =
      some (s.setStage p (.sampled s.content.length)) := by
    simp only [childSystem, Shared.next, Shared.fstat, hs]
  have hlock : (childSystem jobs).next (s.setStage p (.sampled s.content.length)) (.lockFile p) =
      some { s.setStage p (.locked s.content.length s.content) with
        locks := (p, (jobs p).write) :: s.locks } := by
    have hg : (s.setStage p (.sampled s.content.length)).grants p (jobs p).write = true := hl
    simp only [childSystem, Shared.next, Shared.lockFile, hg, if_true]
    simp only [Shared.setStage, Function.update_self, Function.update_idem]
    rfl
  rw [System.exec_cons hstat, System.exec_cons hlock]

/-- A request that is granted at once takes the steps of its child without interruption, and these
leave the file as `accessFile` does. -/
theorem granted_steps (jobs : Nat → Job) (s : Shared) (p : Nat) (filename : CString)
    (hw : (jobs p).write = decide (mode ≠ RRQ)) (hc : (jobs p).create = cfg.cancreate)
    (hs : s.stage p = .forked) (hf : s.file = (fs filename.bytes).map File.content)
    (hl : s.grants p (jobs p).write = !k.locked)
    (h : accessFile cfg k mode convert filename fs = (.granted tsize ok, fs')) :
    ∃ s', (childSystem jobs).exec s (accessSteps mode p) = some s' ∧
      s'.file = (fs' filename.bytes).map File.content ∧
      (mode = RRQ → (s'.stage p).sends? =
        some (tsize, s.content, ((jobs p).sendfile tsize s.content).init)) := by
  obtain ⟨f, fs₁, ho, hk, hm⟩ := granted_cases h
  obtain ⟨hfs₁, hfs⟩ := openFile_content ho
  rw [hk] at hl
  have hopen : ∃ s₁, (childSystem jobs).next s (.openFile p) = some s₁ ∧ s₁.stage p = .opened ∧
      s₁.file = some f.content ∧ s₁.content = s.content ∧ s₁.locks = s.locks := by
    rcases hfs with hfs | ⟨hfs, hempty, hne, hcreate⟩
    · have hfile : s.file = some f.content := by rw [hf, hfs, Option.map_some]
      refine ⟨s.setStage p .opened, ?_, Function.update_self _ _ _, hfile, rfl, rfl⟩
      simp only [childSystem, Shared.next, Shared.openFile, hs, hfile]
    · have hfile : s.file = none := by rw [hf, hfs, Option.map_none]
      refine ⟨{ s.setStage p .opened with file := some [] }, ?_, Function.update_self _ _ _, ?_,
        ?_, rfl⟩
      · simp only [childSystem, Shared.next, Shared.openFile, hs, hfile, hw, hc, hcreate, hne,
          ne_eq, not_false_eq_true, decide_true, and_self, if_true]
      · rw [hempty]
      · rw [Shared.content, Shared.content, hfile]
        rfl
  obtain ⟨s₁, hn, hs₁, hf₁, hc₁, hl₁⟩ := hopen
  have hg : s₁.grants p (jobs p).write = true := by
    rw [Shared.grants, hl₁]
    exact hl
  rw [accessSteps, System.exec_cons hn, opened_exec jobs s₁ p hs₁ hg]
  rcases hm with ⟨hm, rfl, rfl⟩ | ⟨hm, rfl⟩
  · have hwf : (jobs p).write = false := by
      rw [hw, hm]
      rfl
    have hlen : s₁.content.length = f.content.length := by
      rw [Shared.content, hf₁, Option.getD_some]
    simp only [hm, if_true, System.exec, childSystem, Shared.next, Shared.sendfile, Shared.setStage,
      Function.update_self, hwf, Bool.false_eq_true, if_false, Option.bind_some]
    refine ⟨_, rfl, ?_, ?_⟩
    · rw [hfs₁]
      exact hf₁
    · intro _
      simp only [Function.update_self, Stage.sends?]
      rw [hlen, hc₁]
      exact congrArg
        (fun v => some (f.content.length, s.content, ((jobs p).sendfile _ v).init)) hc₁
  · have hwt : (jobs p).write = true := by
      rw [hw]
      exact decide_eq_true hm
    simp only [hm, if_false, System.exec, childSystem, Shared.next, Shared.truncate,
      Shared.setStage, Function.update_self, hwt, if_true, Option.bind_some]
    refine ⟨_, rfl, ?_, ?_⟩
    · have hset : (fs₁.set filename.bytes { f with content := [] }) filename.bytes =
          some { f with content := [] } := Function.update_self _ _ _
      rw [hset]
      rfl
    · intro he
      exact he.elim

end WooTftpd
