import WooTftpd.Network
import WooTftpd.StartUp

namespace WooTftpd
open Lib
set_option autoImplicit true

/-- The file that a request is about, after the mapping of its name. -/
def requestedFile (cfg : ServerConfig) (buf : Mem) (size : Nat) : Option CString :=
  (mappedName buf size).bind fun name => (cfg.rewriteAccess name (thOpcode buf)).toOption

/-- What the system calls of a process will answer during its transfer. -/
structure Fate where
  sendOk : Nat → Bool
  errno : Nat
  readFails : Nat → Bool
  bufsiz : Nat
  writeFaults : Faults

/-- The transfer that a request has led to. -/
def View.transfer (v : View) (convert : Bool) (fate : Fate) : Transfer where
  convert := convert
  segsize := v.negotiated.segsize
  rolloverVal := v.negotiated.rolloverVal
  rexmtval := v.negotiated.rexmtval
  maxtimeout := v.negotiated.maxtimeout
  sendOk := fate.sendOk
  errno := fate.errno
  bufsiz := fate.bufsiz
  faults := fate.writeFaults

def FileSystem.content (fs : FileSystem) (name : List UInt8) : List UInt8 :=
  ((fs name).map File.content).getD []

def FileSystem.write (fs : FileSystem) (name content : List UInt8) : FileSystem :=
  match fs name with
  | some f => fs.set name { f with content := content }
  | none => fs

inductive Task where
  | ended
  | sending (t : Transfer) (oacklen : Nat) (filename : CString) (s : SendState)
  | receiving (t : Transfer) (oacklen : Nat) (filename : CString) (s : RecvState)

/-- The process that was forked for a datagram, with the files as it has left them. -/
structure Child where
  fs : FileSystem
  task : Task

/-- The datagrams that a step of a transfer sends. -/
def datagrams (strerror : Nat → CString) (as : List Action) : List (List UInt8) :=
  (socket strerror).sends as

/-- The received file on the disk. The process exits when its transfer has ended, which writes what
is still in the buffer of the stream. -/
def RecvState.onDisk (t : Transfer) (s : RecvState) : List UInt8 :=
  match s.phase with
  | .ended _ => (s.file.fflush t.faults).1.stored
  | _ => s.file.stored

/-- The file that is received. -/
def Task.received? : Task → Option CString
  | .receiving _ _ filename _ => some filename
  | _ => none

def Child.sending (fs : FileSystem) (strerror : Nat → CString) (t : Transfer) (oacklen : Nat)
    (filename : CString) (r : SendState × List Action) : Child × List (List UInt8) :=
  (⟨fs, .sending t oacklen filename r.1⟩, datagrams strerror r.2)

def Child.receiving (fs : FileSystem) (strerror : Nat → CString) (t : Transfer) (oacklen : Nat)
    (filename : CString) (r : RecvState × List Action) : Child × List (List UInt8) :=
  (⟨fs.write filename.bytes (r.1.onDisk t), .receiving t oacklen filename r.1⟩,
    datagrams strerror r.2)

/-- The call of `f_send` or `f_recv` at the end of `tftp()`. -/
def Child.serve (strerror : Nat → CString) (fate : Fate) (opcode : UInt16) (filename : CString)
    (convert : Bool) (oack : Option Nat) (v : View) : Child × List (List UInt8) :=
  let t := v.transfer convert fate
  if opcode = WRQ then
    Child.receiving v.fs strerror t (oack.getD 0) filename (tftpRecvfile t oack v.oack.ackbuf).start
  else
    Child.sending v.fs strerror t (oack.getD 0) filename
      (tftpSendfile t oack v.oack.ackbuf ⟨v.fs.content filename.bytes, 0, fate.readFails⟩).start

def Child.start (cfg : ServerConfig) (k : Kernel) (strerror : Nat → CString) (fate : Fate)
    (buf : Mem) (n : Nat) (fs : FileSystem) : Child × List (List UInt8) :=
  let r := handleDatagram cfg k buf n fs
  match r.1, requestedFile cfg buf n with
  | .serve convert oack, some filename =>
    Child.serve strerror fate (thOpcode buf) filename convert oack r.2
  | .nak error msg, _ => (⟨r.2.fs, .ended⟩, [nak strerror error msg])
  | _, _ => (⟨r.2.fs, .ended⟩, [])

def Child.step (strerror : Nat → CString) (c : Child) (e : Event) : Child × List (List UInt8) :=
  match c.task with
  | .ended => (c, [])
  | .sending t oacklen filename s =>
    Child.sending c.fs strerror t oacklen filename (sendStep t oacklen s e)
  | .receiving t oacklen filename s =>
    Child.receiving c.fs strerror t oacklen filename (recvStep t oacklen s e)

/-- The process for the datagram of `n` bytes in `buf`. -/
def child (cfg : ServerConfig) (k : Kernel) (strerror : Nat → CString) (fate : Fate) (buf : Mem)
    (n : Nat) (fs : FileSystem) : Machine Child Event (List UInt8) where
  start := Child.start cfg k strerror fate buf n fs
  step := Child.step strerror

section Files

variable {cfg : AccessConfig} {k : Kernel} {fs fs' : FileSystem} {filename : CString}

/-- The file may be written for a request, as it was before: a file there is to be writable, and
where there is none one may be created. -/
structure Writable (cfg : AccessConfig) (fs : FileSystem) (opcode : UInt16) (filename : CString) :
    Prop where
  opcode : opcode ≠ RRQ
  named : nameError cfg filename.bytes = none
  permitted : match fs filename.bytes with
    | some f => (cfg.unixperms || f.othersWrite) = true
    | none => cfg.cancreate = true

/-- The files are as they were, but for those that may be written. -/
def Framed (P : CString → Prop) (fs fs' : FileSystem) : Prop :=
  ∀ name, fs' name ≠ fs name → ∃ filename : CString, P filename ∧ filename.bytes = name

theorem Framed.refl (P : CString → Prop) (fs : FileSystem) : Framed P fs fs :=
  fun _ h => absurd rfl h

theorem Framed.set {P : CString → Prop} (h : Framed P fs fs') (hp : P filename) (f : File) :
    Framed P fs (fs'.set filename.bytes f) := by
  intro name hne
  by_cases he : name = filename.bytes
  · exact ⟨filename, hp, he.symm⟩
  · have hsame : fs'.set filename.bytes f name = fs' name := Function.update_of_ne he _ _
    rw [hsame] at hne
    exact h name hne

theorem Framed.write {P : CString → Prop} (h : Framed P fs fs') (hp : P filename)
    (content : List UInt8) : Framed P fs (fs'.write filename.bytes content) := by
  rw [FileSystem.write]
  split
  · exact h.set hp _
  · exact h

theorem checkFile_framed {P : CString → Prop} {f : File} (h : Framed P fs fs')
    (hp : opcode ≠ RRQ → (cfg.unixperms || f.othersWrite) = true → P filename) (convert : Bool) :
    Framed P fs (checkFile cfg k opcode convert filename f fs').2 := by
  simp only [checkFile]
  split
  · exact h
  split
  · split
    · exact h
    split
    · exact h
    · exact h
  split
  · exact h
  split
  · exact h
  · rename_i hop hperm _
    have hor : (cfg.unixperms || f.othersWrite) = true := by
      rw [Bool.or_eq_true]
      by_contra hno
      exact hperm (not_or.1 hno)
    have hset := h.set (hp hop hor) { f with content := [] }
    split
    · exact hset
    · exact hset

/-- What `validate_access` does to the files. -/
theorem accessFile_framed (cfg : AccessConfig) (k : Kernel) (opcode : UInt16) (convert : Bool)
    (filename : CString) (fs : FileSystem) :
    Framed (fun name => name = filename ∧ Writable cfg fs opcode filename) fs
      (accessFile cfg k opcode convert filename fs).2 := by
  have hrefl := Framed.refl (fun name => name = filename ∧ Writable cfg fs opcode filename) fs
  cases hname : nameError cfg filename.bytes with
  | some msg =>
    simp only [accessFile, hname]
    exact hrefl
  | none =>
    cases ho : k.openErrno with
    | some errno =>
      simp only [accessFile, openFile, hname, ho]
      exact hrefl
    | none =>
      cases hf : fs filename.bytes with
      | some f =>
        simp only [accessFile, openFile, hname, ho, hf]
        apply checkFile_framed hrefl
        intro hop hperm
        refine ⟨rfl, hop, hname, ?_⟩
        rw [hf]
        exact hperm
      | none =>
        simp only [accessFile, openFile, hname, ho, hf]
        by_cases hc : opcode ≠ RRQ ∧ cfg.cancreate = true
        · have hw : Writable cfg fs opcode filename := by
            refine ⟨hc.1, hname, ?_⟩
            rw [hf]
            exact hc.2
          have hmayChange : filename = filename ∧ Writable cfg fs opcode filename := ⟨rfl, hw⟩
          rw [if_pos hc]
          exact checkFile_framed (hrefl.set hmayChange _) (fun _ _ => hmayChange) convert
        · rw [if_neg hc]
          exact hrefl

end Files

section Requests

variable {cfg : ServerConfig} {k : Kernel} {buf : Mem} {size : Nat} {fs : FileSystem}

/-- The file of a write request, if it may be written. -/
structure Target (cfg : ServerConfig) (buf : Mem) (size : Nat) (fs : FileSystem)
    (filename : CString) : Prop where
  opcode : thOpcode buf = WRQ
  requested : requestedFile cfg buf size = some filename
  writable : Writable cfg.access fs (thOpcode buf) filename

theorem handleMode_cases (cfg : ServerConfig) (k : Kernel) (opcode : UInt16) (name mode : CString)
    (v : View) :
    (handleMode cfg k opcode name mode v).view = v ∨
      ∃ convert filename, selectFormat (mode.bytes.map tolower) = some convert ∧
        cfg.rewriteAccess name opcode = .ok filename ∧
        (handleMode cfg k opcode name mode v).view.fs =
          (accessFile cfg.access k opcode convert filename v.fs).2 ∧
        ∀ u, handleMode cfg k opcode name mode v = .go u → u.convert = some convert ∧
          ∃ tsize tsizeOk, (accessFile cfg.access k opcode convert filename v.fs).1 =
            .granted tsize tsizeOk := by
  cases hf : selectFormat (mode.bytes.map tolower) with
  | none =>
    left
    simp only [handleMode, hf]
    rfl
  | some convert =>
    cases hr : cfg.rewriteAccess name opcode with
    | error msg =>
      left
      simp only [handleMode, hf, hr]
      rfl
    | ok filename =>
      right
      refine ⟨convert, filename, rfl, rfl, ?_⟩
      simp only [handleMode, hf, hr, validateAccess]
      cases (accessFile cfg.access k opcode convert filename v.fs).1 with
      | denied ecode msg => exact ⟨rfl, fun _ => Handled.noConfusion⟩
      | exits => exact ⟨rfl, fun _ => Handled.noConfusion⟩
      | granted tsize tsizeOk =>
        refine ⟨rfl, ?_⟩
        rintro u ⟨⟩
        exact ⟨rfl, tsize, tsizeOk, rfl⟩

theorem handleOption_fs (options : OptionConfig) (opt val : CString) (v : View) :
    (handleOption options opt val v).view.fs = v.fs := by
  simp only [handleOption]
  split
  · rfl
  · rfl

theorem handleOption_convert (options : OptionConfig) (opt val : CString) (v : View) :
    (handleOption options opt val v).view.convert = v.convert := by
  simp only [handleOption]
  split
  · rfl
  · rfl

/-- What a request does to the files is what `validate_access` does, for the file it is about. -/
theorem handleDatagram_files {P : FileSystem → Prop} (hs : P fs)
    (ha : ∀ convert filename, (thOpcode buf = RRQ ∨ thOpcode buf = WRQ) →
      requestedFile cfg buf size = some filename →
      P (accessFile cfg.access k (thOpcode buf) convert filename fs).2) :
    P (handleDatagram cfg k buf size fs).2.fs := by
  rw [handleDatagram]
  split
  · rename_i hop
    apply handleRequest_view (P := fun v => P v.fs) k buf size fs hs
    · intro name mode hm
      rcases handleMode_cases cfg k (thOpcode buf) name mode (startView cfg fs) with
        hv | ⟨convert, filename, hf, hr, hv, -⟩
      · rw [hv]
        exact hs
      · rw [hv]
        apply ha convert filename hop
        rw [requestedFile, hm, hf, Option.map_some, Option.bind_some, hr]
        rfl
    · intro opt val v hv
      rw [handleOption_fs]
      exact hv
  · exact hs

theorem handleDatagram_framed (cfg : ServerConfig) (k : Kernel) (buf : Mem) (n : Nat)
    (fs : FileSystem) :
    Framed (Target cfg buf n fs) fs (handleDatagram cfg k buf n fs).2.fs := by
  apply handleDatagram_files (.refl _ fs)
  intro convert filename hop hfile name hne
  obtain ⟨_, ⟨rfl, hw⟩, hname⟩ := accessFile_framed cfg.access k _ convert filename fs name hne
  exact ⟨_, ⟨hop.resolve_left hw.opcode, hfile, hw⟩, hname⟩

/-- No request is stopped in order to be served. -/
def Handled.Unserved (x : Handled) : Prop := ∀ convert oack v, x ≠ .stop (.serve convert oack) v

theorem Handled.Unserved.andThen {x : Handled} (h : x.Unserved) {f : View → Handled}
    (hf : ∀ v, (f v).Unserved) : (x.andThen f).Unserved := by
  cases x with
  | stop o v => exact h
  | go v => exact hf v

theorem Handled.unserved_nak (error : Nat) (msg : Option String) (v : View) :
    (Handled.stop (.nak error msg) v).Unserved :=
  fun _ _ _ he => Outcome.noConfusion (Handled.stop.inj he).1

theorem Handled.unserved_exits (v : View) : (Handled.stop .exits v).Unserved :=
  fun _ _ _ he => Outcome.noConfusion (Handled.stop.inj he).1

theorem Handled.unserved_go (v : View) : (Handled.go v).Unserved :=
  fun _ _ _ => Handled.noConfusion

theorem handleOption_unserved (options : OptionConfig) (opt val : CString) (v : View) :
    (handleOption options opt val v).Unserved := by
  simp only [handleOption]
  split
  · exact Handled.unserved_nak _ _ _
  · exact Handled.unserved_go _

theorem handleOptions_unserved (options : OptionConfig) (pending : Option CString)
    (ss : List CString) (v : View) : (handleOptions options pending ss v).Unserved := by
  induction ss generalizing pending v with
  | nil => cases pending <;> exact Handled.unserved_go v
  | cons s ss ih =>
    cases pending with
    | none => exact ih (some s) v
    | some opt => exact (handleOption_unserved options opt s v).andThen (ih none)

theorem handleMode_unserved (cfg : ServerConfig) (k : Kernel) (opcode : UInt16)
    (name mode : CString) (v : View) : (handleMode cfg k opcode name mode v).Unserved := by
  simp only [handleMode]
  split
  · exact Handled.unserved_nak _ _ _
  split
  · exact Handled.unserved_nak _ _ _
  split
  · exact Handled.unserved_nak _ _ _
  · exact Handled.unserved_exits _
  · exact Handled.unserved_go _

theorem handleStrings_unserved (cfg : ServerConfig) (k : Kernel) (opcode : UInt16)
    (ss : List CString) (cut : Bool) (v : View) :
    ((handleStrings cfg k opcode ss v).andThen (finish cut)).Unserved := by
  apply Handled.Unserved.andThen
  · match ss with
    | [] => exact Handled.unserved_go v
    | [_] => exact Handled.unserved_go v
    | name :: mode :: ss =>
      exact (handleMode_unserved cfg k opcode name mode v).andThen
        (handleOptions_unserved cfg.options none ss)
  · intro v
    cases cut
    · exact Handled.unserved_go v
    · exact Handled.unserved_nak _ _ v

theorem conclude_serve {x : Handled} (hx : x.Unserved) (h : x.conclude.1 = .serve convert oack) :
    ∃ v, x = .go v ∧ v.convert = some convert := by
  cases x with
  | stop o v =>
    have ho : o = .serve convert oack := h
    exact absurd (ho ▸ rfl) (hx convert oack v)
  | go v =>
    refine ⟨v, rfl, ?_⟩
    simp only [Handled.conclude] at h
    split at h
    · cases h
    · rename_i c hc
      cases h
      exact hc

theorem andThen_eq_go {x : Handled} {f : View → Handled} (h : x.andThen f = .go v) :
    ∃ u, x = .go u ∧ f u = .go v := by
  cases x with
  | stop o u => cases h
  | go u => exact ⟨u, rfl, h⟩

theorem handleOptions_kept (options : OptionConfig) (pending : Option CString)
    (ss : List CString) (u : View) :
    (handleOptions options pending ss u).view.fs = u.fs ∧
      (handleOptions options pending ss u).view.convert = u.convert :=
  handleOptions_view (P := fun v => v.fs = u.fs ∧ v.convert = u.convert)
    (fun opt val v hv => ⟨(handleOption_fs options opt val v).trans hv.1,
      (handleOption_convert options opt val v).trans hv.2⟩) pending ss u ⟨rfl, rfl⟩

/-- A request is served with the file that was opened for it. -/
theorem handleRequest_serve (h : (handleRequest cfg k buf size fs).1 = .serve convert oack) :
    ∃ filename tsize tsizeOk, requestedFile cfg buf size = some filename ∧
      accessFile cfg.access k (thOpcode buf) convert filename fs =
        (.granted tsize tsizeOk, (handleRequest cfg k buf size fs).2.fs) := by
  obtain ⟨ss, cut, hscan⟩ := exists_scanned buf size 2
  rw [handleRequest_strings cfg k fs hscan] at h ⊢
  rw [Handled.conclude_snd]
  obtain ⟨v, hx, hc⟩ := conclude_serve (handleStrings_unserved _ _ _ _ _ _) h
  obtain ⟨u, hu, hfin⟩ := andThen_eq_go hx
  rw [hx]
  have huv : u = v := by
    cases cut with
    | true => cases hfin
    | false => exact Handled.go.inj hfin
  subst huv
  match ss, hscan with
  | [], _ =>
    cases hu
    cases hc
  | [_], _ =>
    cases hu
    cases hc
  | name :: mode :: ss, hscan =>
    obtain ⟨w, hw, ho⟩ := andThen_eq_go hu
    obtain ⟨hfs, hconvert⟩ := handleOptions_kept cfg.options none ss w
    rw [ho] at hfs hconvert
    rcases handleMode_cases cfg k (thOpcode buf) name mode (startView cfg fs) with
      hv | ⟨convert', filename, hf, hr, hv, hgo⟩
    · rw [hw] at hv
      have hstart : w.convert = none := congrArg View.convert hv
      have hnone : u.convert = none := hconvert.trans hstart
      rw [hnone] at hc
      cases hc
    · obtain ⟨hcw, tsize, tsizeOk, hgrant⟩ := hgo w hw
      have he : u.convert = some convert' := hconvert.trans hcw
      rw [he] at hc
      cases hc
      have hm : mappedName buf size =
          (selectFormat (mode.bytes.map tolower)).map fun _ => name := hscan.mappedName
      refine ⟨filename, tsize, tsizeOk, ?_, Prod.ext hgrant ?_⟩
      · rw [requestedFile, hm, hf, Option.map_some, Option.bind_some, hr]
        rfl
      · rw [hw] at hv
        exact (hfs.trans hv).symm

end Requests

section Run

variable {cfg : ServerConfig} {k : Kernel} {strerror : Nat → CString} {fate : Fate} {buf : Mem}
  {n : Nat} {fs : FileSystem}

/-- What is known of the child: it leaves the files alone but for its own, and it receives
nothing into another one. -/
structure Child.Confined (P : CString → Prop) (fs : FileSystem) (c : Child) : Prop where
  framed : Framed P fs c.fs
  receives : ∀ filename, c.task.received? = some filename → P filename

theorem Child.sending_confined {P : CString → Prop} (h : Framed P fs fs')
    (strerror : Nat → CString) (t : Transfer) (oacklen : Nat) (filename : CString)
    (r : SendState × List Action) :
    Child.Confined P fs (Child.sending fs' strerror t oacklen filename r).1 where
  framed := h
  receives := by
    intro filename' he
    have hnone : (none : Option CString) = some filename' := he
    cases hnone

theorem Child.over_confined {P : CString → Prop} (h : Framed P fs fs') :
    Child.Confined P fs ⟨fs', .ended⟩ where
  framed := h
  receives := by
    intro filename he
    cases he

theorem Child.receiving_confined {P : CString → Prop} (h : Framed P fs fs') (hp : P filename)
    (strerror : Nat → CString) (t : Transfer) (oacklen : Nat) (r : RecvState × List Action) :
    Child.Confined P fs (Child.receiving fs' strerror t oacklen filename r).1 where
  framed := h.write hp _
  receives := by
    intro filename' he
    have hsome : some filename = some filename' := he
    cases hsome
    exact hp

theorem Child.Confined.step {P : CString → Prop} (h : Child.Confined P fs c) (e : Event) :
    Child.Confined P fs (Child.step strerror c e).1 := by
  simp only [Child.step]
  cases ht : c.task with
  | ended => exact h
  | sending t oacklen filename s => exact sending_confined h.framed _ _ _ _ _
  | receiving t oacklen filename s =>
    have hp : P filename := by
      apply h.receives
      rw [ht]
      rfl
    exact receiving_confined h.framed hp _ _ _ _

theorem handleDatagram_serve (h : (handleDatagram cfg k buf n fs).1 = .serve convert oack) :
    (thOpcode buf = RRQ ∨ thOpcode buf = WRQ) ∧
      ∃ filename tsize tsizeOk, requestedFile cfg buf n = some filename ∧
        accessFile cfg.access k (thOpcode buf) convert filename fs =
          (.granted tsize tsizeOk, (handleDatagram cfg k buf n fs).2.fs) := by
  rw [handleDatagram] at h ⊢
  split at h
  · rename_i hop
    rw [if_pos hop]
    exact ⟨hop, handleRequest_serve h⟩
  · cases h

theorem granted_writable {acc : AccessConfig}
    (h : (accessFile acc k WRQ convert filename fs).1 = .granted tsize tsizeOk) :
    Writable acc fs WRQ filename := by
  have hg := (accessFile_granted_iff acc k convert filename fs).1 ⟨tsize, tsizeOk, h⟩
  rw [grantsWrite, decide_eq_true_iff] at hg
  obtain ⟨hname, -, hperm, -⟩ := hg
  refine ⟨by decide, hname, ?_⟩
  cases hf : fs filename.bytes with
  | some f =>
    rw [hf] at hperm
    exact hperm
  | none =>
    rw [hf, permitsWrite, Bool.and_eq_true] at hperm
    exact hperm.1

theorem Child.start_confined (cfg : ServerConfig) (k : Kernel) (strerror : Nat → CString)
    (fate : Fate) (buf : Mem) (n : Nat) (fs : FileSystem) :
    Child.Confined (Target cfg buf n fs) fs (Child.start cfg k strerror fate buf n fs).1 := by
  have hframed := handleDatagram_framed cfg k buf n fs
  simp only [Child.start]
  split
  · rename_i convert oack filename hserve hfile
    obtain ⟨hop, filename', tsize, tsizeOk, hfile', haccess⟩ := handleDatagram_serve hserve
    rw [hfile] at hfile'
    cases hfile'
    simp only [Child.serve]
    split
    · rename_i hw
      have hp : Target cfg buf n fs filename := by
        refine ⟨hw, hfile, ?_⟩
        rw [hw] at haccess ⊢
        exact granted_writable (congrArg Prod.fst haccess)
      exact receiving_confined hframed hp _ _ _ _
    · exact sending_confined hframed _ _ _ _ _
  · exact over_confined hframed
  · exact over_confined hframed

/-- Whatever a client sends, and whatever happens then, the process that serves it leaves all files
as they were, but for the one that the request is about: for a write request, under a name that
passes the checks, and where the file may be written, or created if there is none. -/
theorem child_files (cfg : ServerConfig) (k : Kernel) (strerror : Nat → CString) (fate : Fate)
    (buf : Mem) (n : Nat) (fs : FileSystem) (es : List Event) (name : List UInt8) :
    ((child cfg k strerror fate buf n fs).run es).state.fs name = fs name ∨
      (thOpcode buf = WRQ ∧ ∃ filename, requestedFile cfg buf n = some filename ∧
        filename.bytes = name ∧ nameError cfg.access name = none ∧
        match fs name with
        | some f => (cfg.access.unixperms || f.othersWrite) = true
        | none => cfg.access.cancreate = true) := by
  have hrun : Child.Confined (Target cfg buf n fs) fs
      ((child cfg k strerror fate buf n fs).run es).state := by
    apply (child cfg k strerror fate buf n fs).run_induction
      (P := fun _ c => Child.Confined (Target cfg buf n fs) fs c.state)
    · exact Child.start_confined cfg k strerror fate buf n fs
    · intro es e ih
      exact ih.step e
  rw [or_iff_not_imp_left]
  intro hne
  obtain ⟨filename, ht, rfl⟩ := hrun.framed name hne
  exact ⟨ht.opcode, filename, ht.requested, rfl, ht.writable.named, ht.writable.permitted⟩

end Run

end WooTftpd
