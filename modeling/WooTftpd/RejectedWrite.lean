import WooTftpd.Request

namespace WooTftpd
open Lib
set_option autoImplicit true

variable {cfg : ServerConfig} {acc : AccessConfig} {k : Kernel} {fs : FileSystem} {filename : CString}

def KeepsFiles (fs fs' : FileSystem) : Prop :=
  ∀ name f, fs name = some f → ∃ f', fs' name = some f' ∧ f'.content = f.content

theorem KeepsFiles.refl (fs : FileSystem) : KeepsFiles fs fs :=
  fun _ f h => ⟨f, h, rfl⟩

theorem FileSystem.set_same (fs : FileSystem) (name : List UInt8) (f : File) :
    fs.set name f name = some f := Function.update_self _ _ _

theorem FileSystem.set_other (fs : FileSystem) (f : File) (h : name' ≠ name) :
    fs.set name f name' = fs name' := Function.update_of_ne h _ _

theorem keepsFiles_set_iff (fs : FileSystem) (name : List UInt8) (f' : File) :
    KeepsFiles fs (fs.set name f') ↔ ∀ f, fs name = some f → f'.content = f.content := by
  constructor
  · intro h f hf
    obtain ⟨f'', hf'', hc⟩ := h name f hf
    rw [FileSystem.set_same] at hf''
    cases hf''
    exact hc
  · intro h name' f hf
    by_cases hn : name' = name
    · subst hn
      exact ⟨f', FileSystem.set_same _ _ _, h f hf⟩
    · exact ⟨f, by rw [FileSystem.set_other _ _ hn]; exact hf, rfl⟩

theorem openFile_ok (h : openFile acc k mode filename fs = .ok (f, fs')) :
    (fs filename.bytes = some f ∧ fs' = fs) ∨
      (fs filename.bytes = none ∧ fs' = fs.set filename.bytes f) := by
  simp only [openFile] at h
  split at h
  · cases h
  · rename_i hf
    cases h
    exact .inl ⟨hf, rfl⟩
  · rename_i hf
    split at h
    · cases h
      exact .inr ⟨hf, rfl⟩
    · cases h

theorem openFile_keeps (h : openFile acc k mode filename fs = .ok (f, fs')) :
    KeepsFiles fs fs' := by
  rcases openFile_ok h with ⟨_, rfl⟩ | ⟨hn, rfl⟩
  · exact KeepsFiles.refl _
  · rw [keepsFiles_set_iff]
    intro f' hf'
    rw [hn] at hf'
    cases hf'

/-- A check that fails leaves the files alone; the last step of a check that passes truncates
the file. -/
theorem checkFile_write (acc : AccessConfig) (k : Kernel) (convert : Bool) (filename : CString)
    (f : File) (fs : FileSystem) :
    let r := checkFile acc k WRQ convert filename f fs
    (∀ ecode msg, r.1 = .denied ecode msg → r.2 = fs) ∧
      (∀ tsize tsizeOk, r.1 = .granted tsize tsizeOk →
        r.2 = fs.set filename.bytes { f with content := [] }) := by
  have hop : ¬ WRQ = RRQ := by decide
  simp only [checkFile, if_neg hop]
  repeat' split
  all_goals constructor <;> intro _ _ h <;> first | rfl | cases h

theorem FileSystem.set_set (fs : FileSystem) (name : List UInt8) (f f' : File) :
    (fs.set name f).set name f' = fs.set name f' := Function.update_idem ..

theorem accessFile_denied {convert : Bool}
    (h : (accessFile acc k WRQ convert filename fs).1 = .denied ecode msg) :
    KeepsFiles fs (accessFile acc k WRQ convert filename fs).2 := by
  cases hname : nameError acc filename.bytes with
  | some msg =>
    simp only [accessFile, hname]
    exact KeepsFiles.refl fs
  | none =>
    cases hopen : openFile acc k WRQ filename fs with
    | error errno =>
      simp only [accessFile, hname, hopen]
      exact KeepsFiles.refl fs
    | ok r =>
      obtain ⟨f, fs'⟩ := r
      obtain ⟨hden, _⟩ := checkFile_write acc k convert filename f fs'
      simp only [accessFile, hname, hopen] at h ⊢
      rw [hden _ _ h]
      exact openFile_keeps hopen

theorem accessFile_granted {convert : Bool}
    (h : (accessFile acc k WRQ convert filename fs).1 = .granted tsize tsizeOk) :
    KeepsFiles fs (accessFile acc k WRQ convert filename fs).2 ↔
      ∀ f, fs filename.bytes = some f → f.content = [] := by
  cases hname : nameError acc filename.bytes with
  | some msg =>
    simp only [accessFile, hname] at h
    cases h
  | none =>
    cases hopen : openFile acc k WRQ filename fs with
    | error errno =>
      simp only [accessFile, hname, hopen] at h
      cases h
    | ok r =>
      obtain ⟨f, fs'⟩ := r
      obtain ⟨_, hgr⟩ := checkFile_write acc k convert filename f fs'
      simp only [accessFile, hname, hopen] at h ⊢
      rw [hgr _ _ h]
      rcases openFile_ok hopen with ⟨_, rfl⟩ | ⟨_, rfl⟩
      · rw [keepsFiles_set_iff]
        exact forall_congr' fun f' => imp_congr_right fun _ => eq_comm
      · rw [FileSystem.set_set, keepsFiles_set_iff]
        exact forall_congr' fun f' => imp_congr_right fun _ => eq_comm

def stringEnd (buf : Mem) (size cp : Nat) : Option Nat :=
  if cp < size ∧ buf cp ≠ 0 then
    let stop := scanString buf (size - (cp + 1)) (cp + 1)
    if buf stop = 0 then some stop else none
  else none

def requestHead (buf : Mem) (size : Nat) : Option (CString × List UInt8) :=
  match stringEnd buf size 2 with
  | none => none
  | some stop =>
    match stringEnd buf size (stop + 1) with
    | none => none
    | some stop' => some (stringAt buf 2 stop, buf.load (stop + 1) (stop' - (stop + 1)))

def permitsWrite (acc : AccessConfig) (k : Kernel) : Option File → Bool
  | some f => acc.unixperms || f.othersWrite
  | none => acc.cancreate && (acc.unixperms || k.createdWrite)

/-- The checks on the name and the file of a write request, as they come out in the state
before the request. -/
def grantsWrite (acc : AccessConfig) (k : Kernel) (filename : CString) (fs : FileSystem) : Bool :=
  nameError acc filename.bytes = none ∧ k.openErrno = none ∧
    permitsWrite acc k (fs filename.bytes) ∧
    ¬ (k.fstatFails ∨ k.locked ∨ k.truncateFails ∨ k.fdopenFails)

/-- The file that a write request names, if the request passes all checks on the mode, the name
and the file. -/
def acceptedFile (cfg : ServerConfig) (k : Kernel) (buf : Mem) (size : Nat) (fs : FileSystem) :
    Option CString :=
  match requestHead buf size with
  | none => none
  | some (name, mode) =>
    match selectFormat (mode.map tolower), cfg.rewriteAccess name WRQ with
    | some _, .ok filename => if grantsWrite cfg.access k filename fs then some filename else none
    | _, _ => none

theorem checkFile_granted_iff (acc : AccessConfig) (k : Kernel) (convert : Bool)
    (filename : CString) (f : File) (fs : FileSystem) :
    (∃ tsize tsizeOk, (checkFile acc k WRQ convert filename f fs).1 = .granted tsize tsizeOk) ↔
      (acc.unixperms || f.othersWrite) = true ∧
        ¬ (k.fstatFails ∨ k.locked ∨ k.truncateFails ∨ k.fdopenFails) := by
  have hop : ¬ WRQ = RRQ := by decide
  simp only [checkFile, if_neg hop]
  cases k.fstatFails <;> cases k.locked <;> cases k.truncateFails <;> cases k.fdopenFails <;>
    cases acc.unixperms <;> cases f.othersWrite <;> simp

theorem accessFile_granted_iff (acc : AccessConfig) (k : Kernel) (convert : Bool)
    (filename : CString) (fs : FileSystem) :
    (∃ tsize tsizeOk, (accessFile acc k WRQ convert filename fs).1 = .granted tsize tsizeOk) ↔
      grantsWrite acc k filename fs = true := by
  have hop : WRQ ≠ RRQ := by decide
  rw [grantsWrite, decide_eq_true_iff]
  cases hname : nameError acc filename.bytes with
  | some msg => simp [accessFile, hname]
  | none =>
    cases ho : k.openErrno with
    | some errno => simp [accessFile, openFile, hname, ho]
    | none =>
      cases hf : fs filename.bytes with
      | some f =>
        simp only [accessFile, openFile, permitsWrite, hname, ho, hf, true_and]
        exact checkFile_granted_iff acc k convert filename f fs
      | none =>
        by_cases hc : acc.cancreate = true
        · simp only [accessFile, openFile, permitsWrite, hname, ho, hf, true_and, ne_eq, hop,
            not_false_eq_true, hc, if_true, Bool.true_and]
          exact checkFile_granted_iff acc k convert filename _ _
        · simp [accessFile, openFile, permitsWrite, hname, ho, hf, hc]

theorem argument_fs (cfg : ServerConfig) (k : Kernel) (stop : Nat) (s : Request)
    (h : 2 < s.argn) : (argument cfg k stop s).request.fs = s.fs := by
  have h1 : ¬ s.argn = 1 := by omega
  have h2 : ¬ s.argn = 2 := by omega
  simp only [argument, if_neg h1, if_neg h2]
  split
  · rfl
  split
  · rfl
  · rfl

theorem Request.stringEnd_eq (s : Request) :
    stringEnd s.buf s.size s.cp =
      if s.cp < s.size ∧ s.buf s.cp ≠ 0 then
        if s.buf s.stop = 0 then some s.stop else none
      else none := rfl

theorem tftpLoop_end (cfg : ServerConfig) (k : Kernel) (n : Nat) (s : Request)
    (h : stringEnd s.buf s.size s.cp = none) : (tftpLoop cfg k n s).request.fs = s.fs := by
  cases n with
  | zero => rfl
  | succ n =>
    rw [s.stringEnd_eq] at h
    rw [tftpLoop]
    split
    · rename_i hc
      rw [if_pos hc] at h
      split
      · rfl
      · rename_i hs
        rw [if_pos (not_not.1 hs)] at h
        cases h
    · rfl

theorem tftpLoop_string (cfg : ServerConfig) (k : Kernel) (n : Nat) (s : Request)
    (h : stringEnd s.buf s.size s.cp = some stop) :
    tftpLoop cfg k (n + 1) s =
      (argument cfg k stop { s with argn := s.argn + 1 }).andThen (tftpLoop cfg k n) := by
  rw [s.stringEnd_eq] at h
  split at h
  · rename_i hc
    split at h
    · rename_i hs
      cases h
      rw [tftpLoop, if_pos hc, if_neg (not_not.2 hs)]
    · cases h
  · cases h

theorem tftpLoop_fs (cfg : ServerConfig) (k : Kernel) (n : Nat) (s : Request) (h : 2 ≤ s.argn) :
    (tftpLoop cfg k n s).request.fs = s.fs := by
  induction n generalizing s with
  | zero => rfl
  | succ n ih =>
    cases hstop : stringEnd s.buf s.size s.cp with
    | none => exact tftpLoop_end cfg k (n + 1) s hstop
    | some stop =>
      have hfs := argument_fs cfg k stop { s with argn := s.argn + 1 } (Nat.lt_succ_of_le h)
      rw [tftpLoop_string cfg k n s hstop]
      cases hs : argument cfg k stop { s with argn := s.argn + 1 } with
      | stop o s' =>
        rw [hs] at hfs
        exact hfs
      | go s' =>
        obtain ⟨_, _, hargn⟩ := argument_go hs
        rw [hs] at hfs
        have hle : 2 ≤ s'.argn := by
          rw [hargn]
          exact Nat.le_succ_of_le h
        exact (ih s' hle).trans hfs

/-- What becomes of a write request whose first two strings are `name` and `mode`. -/
inductive HeadOutcome (cfg : ServerConfig) (k : Kernel) (fs : FileSystem) (name : CString)
    (mode : List UInt8) : Next → Prop where
  | refused (hs : s.fs = fs)
      (hn : selectFormat (mode.map tolower) = none ∨ ∃ msg, cfg.rewriteAccess name WRQ = .error msg) :
      HeadOutcome cfg k fs name mode (.stop o s)
  | denied (hm : selectFormat (mode.map tolower) = some convert)
      (hr : cfg.rewriteAccess name WRQ = .ok target)
      (ha : (accessFile cfg.access k WRQ convert target fs).1 = .denied ecode msg)
      (hs : s.fs = (accessFile cfg.access k WRQ convert target fs).2) :
      HeadOutcome cfg k fs name mode (.stop o s)
  | exits : HeadOutcome cfg k fs name mode (.stop .exits s)
  | granted (hm : selectFormat (mode.map tolower) = some convert)
      (hr : cfg.rewriteAccess name WRQ = .ok target)
      (ha : (accessFile cfg.access k WRQ convert target fs).1 = .granted tsize tsizeOk)
      (hs : s.fs = (accessFile cfg.access k WRQ convert target fs).2) (hargn : 2 ≤ s.argn) :
      HeadOutcome cfg k fs name mode (.go s)

theorem modeArgument_write (hop : thOpcode s.buf = WRQ) (hmode : 3 ≤ s.mode)
    (hargn : 2 ≤ s.argn) :
    HeadOutcome cfg k s.fs (stringAt s.buf 2 (s.mode - 1))
      (s.buf.load s.mode (stop - s.mode)) (modeArgument cfg k stop s) := by
  have hname : stringAt (s.buf.store s.mode ((s.buf.load s.mode (stop - s.mode)).map tolower)) 2
      (s.mode - 1) = stringAt s.buf 2 (s.mode - 1) := by
    rw [stringAt, stringAt, Mem.load_store_disjoint _ _ (.inl (by omega))]
  simp only [modeArgument, hop, hname, validateAccess]
  cases hm : selectFormat ((s.buf.load s.mode (stop - s.mode)).map tolower) with
  | none => exact .refused rfl (.inl hm)
  | some convert =>
    cases hr : cfg.rewriteAccess (stringAt s.buf 2 (s.mode - 1)) WRQ with
    | error msg => exact .refused rfl (.inr ⟨msg, hr⟩)
    | ok filename =>
      cases ha : (accessFile cfg.access k WRQ convert filename s.fs).1 with
      | denied ecode msg =>
        simp only [ha]
        exact .denied hm hr ha rfl
      | exits =>
        simp only [ha]
        exact .exits
      | granted tsize tsizeOk =>
        simp only [ha]
        exact .granted hm hr ha rfl hargn

theorem lt_stringEnd (h : stringEnd buf size cp = some stop) : cp < stop ∧ cp < size := by
  simp only [stringEnd] at h
  split at h
  · rename_i hc
    split at h
    · cases h
      exact ⟨le_scanString _ _ _, hc.1⟩
    · cases h
  · cases h

/-- What becomes of a write request: it fails before the mode is known, or as its first two
strings say; options come after that. -/
theorem tftpLoop_write (cfg : ServerConfig) (k : Kernel) (size : Nat) (fs : FileSystem)
    (hop : thOpcode buf = WRQ) :
    let r := tftpLoop cfg k size (requestStart cfg buf size fs)
    (requestHead buf size = none ∧ r.request.fs = fs) ∨
      ∃ name mode n next, requestHead buf size = some (name, mode) ∧
        HeadOutcome cfg k fs name mode next ∧ r = next.andThen (tftpLoop cfg k n) := by
  cases h₀ : stringEnd buf size 2 with
  | none =>
    left
    constructor
    · simp only [requestHead, h₀]
    · exact tftpLoop_end cfg k size _ h₀
  | some stop =>
    obtain ⟨hstop, hsize⟩ := lt_stringEnd h₀
    -- The bound of the loop is the size of the datagram, which leaves room for the mode.
    obtain ⟨n, hn⟩ : ∃ n, size = n + 2 := ⟨size - 2, by omega⟩
    let s₁ : Request :=
      { requestStart cfg buf size fs with argn := 1, mode := stop + 1, cp := stop + 1 }
    have hr : tftpLoop cfg k size (requestStart cfg buf size fs) = tftpLoop cfg k (n + 1) s₁ := by
      nth_rewrite 1 [hn]
      exact tftpLoop_string cfg k (n + 1) _ h₀
    cases h₁ : stringEnd buf size (stop + 1) with
    | none =>
      left
      constructor
      · simp only [requestHead, h₀, h₁]
      · rw [hr]
        exact tftpLoop_end cfg k (n + 1) s₁ h₁
    | some stop' =>
      right
      have hhead : requestHead buf size =
          some (stringAt buf 2 stop, buf.load (stop + 1) (stop' - (stop + 1))) := by
        simp only [requestHead, h₀, h₁]
      have hmode : 3 ≤ stop + 1 := Nat.le_succ_of_le hstop
      refine ⟨_, _, n, modeArgument cfg k stop' { s₁ with argn := 2 }, hhead, ?_, ?_⟩
      · exact modeArgument_write (s := { s₁ with argn := 2 }) hop hmode (Nat.le_refl 2)
      · rw [hr]
        exact tftpLoop_string cfg k n s₁ h₁

theorem tftp_request (cfg : ServerConfig) (k : Kernel) (buf : Mem) (size : Nat)
    (fs : FileSystem) :
    (tftp cfg k buf size fs).2 = (tftpLoop cfg k size (requestStart cfg buf size fs)).request := by
  simp only [tftp]
  split
  · rename_i h
    rw [h]
    rfl
  · rename_i h
    rw [h]
    split
    · rfl
    · rfl

theorem tftp_stop (h : tftpLoop cfg k size (requestStart cfg buf size fs) = .stop o s) :
    (tftp cfg k buf size fs).1 = o := by
  simp only [tftp, h]

theorem acceptedFile_refused (hh : requestHead buf size = some (name, mode))
    (hn : selectFormat (mode.map tolower) = none ∨ ∃ msg, cfg.rewriteAccess name WRQ = .error msg) :
    acceptedFile cfg k buf size fs = none := by
  rcases hn with hn | ⟨msg, hn⟩
  · simp only [acceptedFile, hh, hn]
  · simp only [acceptedFile, hh, hn]
    cases selectFormat (mode.map tolower) <;> rfl

theorem acceptedFile_checked (k : Kernel) (fs : FileSystem)
    (hh : requestHead buf size = some (name, mode))
    (hm : selectFormat (mode.map tolower) = some convert)
    (hr : cfg.rewriteAccess name WRQ = .ok filename) :
    acceptedFile cfg k buf size fs =
      if grantsWrite cfg.access k filename fs then some filename else none := by
  simp only [acceptedFile, hh, hm, hr]

/-- After a write request that is answered with an error, every file is as it was, exactly if
the request was not accepted before its options were looked at, or its file was empty. -/
theorem rejectedWrite_keepsFiles_iff (cfg : ServerConfig) (k : Kernel) (buf : Mem) (size : Nat)
    (fs : FileSystem) (hop : thOpcode buf = WRQ)
    (hnak : (tftp cfg k buf size fs).1 = .nak error msg) :
    KeepsFiles fs (tftp cfg k buf size fs).2.fs ↔
      ∀ filename, acceptedFile cfg k buf size fs = some filename →
        ∀ f, fs filename.bytes = some f → f.content = [] := by
  have hnone {fs' : FileSystem} (ha : acceptedFile cfg k buf size fs = none)
      (hk : KeepsFiles fs fs') :
      KeepsFiles fs fs' ↔ ∀ filename, acceptedFile cfg k buf size fs = some filename →
        ∀ f, fs filename.bytes = some f → f.content = [] := by
    rw [ha]
    exact iff_of_true hk fun _ h => by cases h
  rw [tftp_request]
  rcases tftpLoop_write cfg k size fs hop with ⟨hh, hs⟩ | ⟨name, mode, n, next, hh, ho, hr⟩
  · rw [hs]
    apply hnone
    · simp only [acceptedFile, hh]
    · exact KeepsFiles.refl fs
  · rw [hr]
    cases ho with
    | refused hs hn =>
      apply hnone (acceptedFile_refused hh hn)
      rw [Next.andThen, Next.request, hs]
      exact KeepsFiles.refl fs
    | denied hm ho ha hs =>
      apply hnone
      · rw [acceptedFile_checked k fs hh hm ho, if_neg]
        rw [← accessFile_granted_iff, ha]
        rintro ⟨_, _, h⟩
        cases h
      · rw [Next.andThen, Next.request, hs]
        exact accessFile_denied ha
    | exits =>
      rw [tftp_stop hr] at hnak
      cases hnak
    | granted hm ho ha hs hargn =>
      have haccepted := acceptedFile_checked k fs hh hm ho
      rw [if_pos ((accessFile_granted_iff _ _ _ _ _).1 ⟨_, _, ha⟩)] at haccepted
      rw [Next.andThen, tftpLoop_fs cfg k n _ hargn, hs, accessFile_granted ha, haccepted]
      constructor
      · intro h target ht
        cases ht
        exact h
      · intro h
        exact h _ rfl

def plainServer : ServerConfig where
  access := ⟨false, false, false, []⟩
  options := ⟨maxSegsize, fun _ => false⟩
  rewriteAccess := fun name _ => .ok name
  negotiated := .default

def goodKernel : Kernel := ⟨none, false, false, false, false, true, true⟩

def oneFile : FileSystem := fun name =>
  if name = [47, 102] then some ⟨[1, 2, 3], true, true⟩ else none

def writeRequest (strings : List (List UInt8)) : List UInt8 :=
  Mem.be16 WRQ ++ ([47, 102] :: strings).flatMap (· ++ [NUL])

def handleWrite (strings : List (List UInt8)) : Outcome × Request :=
  tftp plainServer goodKernel (Mem.zero.store 0 (writeRequest strings))
    (writeRequest strings).length oneFile

theorem unknownMode_keepsFiles :
    let r := handleWrite [ascii ['m', 'a', 'i', 'l']]
    r.1 = .nak EBADOP (some "Unknown mode") ∧ KeepsFiles oneFile r.2.fs := by
  intro r
  have hnak : r.1 = .nak EBADOP (some "Unknown mode") := by decide +kernel
  have hno : (acceptedFile plainServer goodKernel
      (Mem.zero.store 0 (writeRequest [ascii ['m', 'a', 'i', 'l']]))
      (writeRequest [ascii ['m', 'a', 'i', 'l']]).length oneFile).isNone = true := by decide +kernel
  refine ⟨hnak, (rejectedWrite_keepsFiles_iff _ _ _ _ _ (by decide +kernel) hnak).2 ?_⟩
  intro filename h
  rw [h] at hno
  cases hno

/-- The option `blksize` with the value 0 is refused after the file was truncated. -/
theorem refusedOption_truncates :
    let r := handleWrite [ascii ['o', 'c', 't', 'e', 't'], OptionName.blksize.text, ascii ['0']]
    r.1 = .nak EOPTNEG (some "Unsupported option(s) requested") ∧
      (oneFile [47, 102]).map File.content = some [1, 2, 3] ∧
      (r.2.fs [47, 102]).map File.content = some [] ∧ ¬ KeepsFiles oneFile r.2.fs := by
  intro r
  have hempty : (r.2.fs [47, 102]).map File.content = some [] := by decide +kernel
  refine ⟨by decide +kernel, by decide, hempty, ?_⟩
  intro h
  obtain ⟨f, hf, hc⟩ := h [47, 102] ⟨[1, 2, 3], true, true⟩ rfl
  rw [hf, Option.map_some, hc] at hempty
  exact absurd hempty (by decide)

end WooTftpd
