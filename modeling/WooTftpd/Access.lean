import Mathlib.Logic.Function.Basic
import WooTftpd.SharedData

namespace WooTftpd
open Lib
set_option autoImplicit true

def slash : UInt8 := 47
def period : UInt8 := 46

structure AccessConfig where
  secure : Bool
  cancreate : Bool
  unixperms : Bool
  dirs : List CString

def reverse : List UInt8 := [slash, period, period, slash]

/-- The loop over `i`, which is `j + 1` here, from 1 to below `len - 3`. -/
def reversePath (filename : List UInt8) : Bool :=
  (List.range (filename.length - 4)).any fun j =>
    filename[j + 1]? = some period ∧ (filename.drop j).take 4 = reverse

/-- The checks of `validate_access` on the name alone: the message of the one that fails. -/
def nameError (cfg : AccessConfig) (filename : List UInt8) : Option String :=
  if cfg.secure then none
  else if filename.head? ≠ some slash then some "Only absolute filenames allowed"
  else if reversePath filename then some "Reverse path not allowed"
  else if !cfg.dirs.any (·.bytes.isPrefixOf filename) && !cfg.dirs.isEmpty then
    some "Forbidden directory"
  else none

structure File where
  content : List UInt8
  othersRead : Bool
  othersWrite : Bool

def FileSystem := List UInt8 → Option File

def FileSystem.set (fs : FileSystem) (name : List UInt8) (f : File) : FileSystem :=
  Function.update fs name (some f)

structure Kernel where
  /-- The error of `open`, if it does not even look at the file. -/
  openErrno : Option Nat
  fstatFails : Bool
  locked : Bool
  truncateFails : Bool
  fdopenFails : Bool
  createdRead : Bool
  createdWrite : Bool

def enoent : Nat := 2
def eexist : Nat := 17
def enotdir : Nat := 20
def enospc : Nat := 28

def openFile (cfg : AccessConfig) (k : Kernel) (mode : UInt16) (filename : CString)
    (fs : FileSystem) : Except Nat (File × FileSystem) :=
  match k.openErrno, fs filename.bytes with
  | some errno, _ => .error errno
  | none, some f => .ok (f, fs)
  | none, none =>
    if mode ≠ RRQ ∧ cfg.cancreate then
      let f : File := ⟨[], k.createdRead, k.createdWrite⟩
      .ok (f, fs.set filename.bytes f)
    else .error enoent

def openError (errno : Nat) : Nat :=
  if errno = enoent ∨ errno = enotdir then ENOTFOUND
  else if errno = enospc then ENOSPACE
  else if errno = eexist then EEXISTS
  else errno + 100

inductive AccessResult where
  | denied (ecode : Nat) (errmsg : Option String)
  | exits
  | granted (tsize : Nat) (tsizeOk : Bool)

structure AccessOutcome where
  result : AccessResult
  fs : FileSystem
  calls : List Call

/-- The checks on a file that was opened. A file to be written is truncated last of all. -/
def checkFile (cfg : AccessConfig) (k : Kernel) (mode : UInt16) (convert : Bool)
    (filename : CString) (f : File) (fs : FileSystem) : AccessResult × FileSystem :=
  if k.fstatFails ∨ k.locked then (.exits, fs)
  else if mode = RRQ then
    if ¬ cfg.unixperms ∧ ¬ f.othersRead then
      (.denied EACCESS (some "File must have global read permissions"), fs)
    else if k.fdopenFails then (.exits, fs)
    else (.granted f.content.length (!convert), fs)
  else if ¬ cfg.unixperms ∧ ¬ f.othersWrite then
    (.denied EACCESS (some "File must have global write permissions"), fs)
  else if k.truncateFails then (.denied EACCESS (some "Cannot reset file size"), fs)
  else
    let fs := fs.set filename.bytes { f with content := [] }
    if k.fdopenFails then (.exits, fs) else (.granted 0 true, fs)

def accessFile (cfg : AccessConfig) (k : Kernel) (mode : UInt16) (convert : Bool)
    (filename : CString) (fs : FileSystem) : AccessResult × FileSystem :=
  match nameError cfg filename.bytes with
  | some msg => (.denied EACCESS (some msg), fs)
  | none =>
    match openFile cfg k mode filename fs with
    | .error errno => (.denied (openError errno) none, fs)
    | .ok (f, fs) => checkFile cfg k mode convert filename f fs

def AccessResult.calls : AccessResult → List Call
  | .granted tsize _ => [.setTotalBlock (.ofNat tsize)]
  | _ => []

/-- Validate file access. The name is recorded before anything is checked. -/
def validateAccess (cfg : AccessConfig) (k : Kernel) (mode : UInt16) (convert : Bool)
    (filename : CString) (fs : FileSystem) : AccessOutcome :=
  let r := accessFile cfg k mode convert filename fs
  ⟨r.1, r.2, .setFilename filename :: r.1.calls⟩

theorem nameError_eq_none_iff (hs : cfg.secure = false) (filename : List UInt8) :
    nameError cfg filename = none ↔ filename.head? = some slash ∧ reversePath filename = false ∧
      (cfg.dirs = [] ∨ ∃ d ∈ cfg.dirs, d.bytes <+: filename) := by
  have hdirs : (cfg.dirs.any (·.bytes.isPrefixOf filename)) = true ↔
      ∃ d ∈ cfg.dirs, d.bytes <+: filename := by
    simp only [List.any_eq_true, List.isPrefixOf_iff_prefix]
  rw [← hdirs, ← List.isEmpty_iff]
  simp only [nameError, hs, Bool.false_eq_true, if_false]
  by_cases ha : filename.head? = some slash
  · cases hr : reversePath filename
    · cases hd : cfg.dirs.any (·.bytes.isPrefixOf filename) <;> cases cfg.dirs.isEmpty <;> simp [ha]
    · simp [ha]
  · simp [ha]

theorem reversePath_iff (filename : List UInt8) :
    reversePath filename = true ↔ ∃ pre post, filename = pre ++ reverse ++ post ∧ post ≠ [] := by
  simp only [reversePath, List.any_eq_true, List.mem_range, decide_eq_true_eq]
  constructor
  · rintro ⟨j, hj, _, hr⟩
    refine ⟨filename.take j, filename.drop (j + 4), ?_, ?_⟩
    · rw [← hr, List.append_assoc, ← List.drop_drop, List.take_append_drop, List.take_append_drop]
    · intro hnil
      have hl := congrArg List.length hnil
      rw [List.length_drop, List.length_nil] at hl
      omega
  · rintro ⟨pre, post, rfl, hpost⟩
    have hpos := List.length_pos_iff.2 hpost
    have hl : reverse.length = 4 := rfl
    refine ⟨pre.length, ?_, ?_, ?_⟩
    · rw [List.length_append, List.length_append, hl]
      omega
    · rw [List.append_assoc, List.getElem?_append_right (Nat.le_add_right _ _),
        Nat.add_sub_cancel_left]
      rfl
    · rw [List.append_assoc, List.drop_left]
      exact List.take_left' hl

end WooTftpd
