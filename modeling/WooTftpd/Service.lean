import WooTftpd.Delivery
import WooTftpd.Lib.Simulation
import WooTftpd.Serving

namespace WooTftpd
open Lib
set_option autoImplicit true

/-- The socket of a child. -/
def childSocket : Port Event (List UInt8) (List UInt8) := ⟨some, .datagram, Event.own⟩

theorem childSocket_sends (ds : List (List UInt8)) : childSocket.sends ds = ds :=
  List.filterMap_some

section Tasks

variable {strerror : Nat → CString} {fate : Fate} {v : View} {oack : Option Nat}
  {filename : CString} {cfg : ServerConfig} {k : Kernel} {buf : Mem} {n : Nat} {fs : FileSystem}

def Child.Sending (fs : FileSystem) (t : Transfer) (oacklen : Nat) (filename : CString) (c : Child)
    (s : SendState) : Prop := c = ⟨fs, .sending t oacklen filename s⟩

/-- The received file is what its writer has made of it. -/
structure Child.Receiving (fs : FileSystem) (t : Transfer) (oacklen : Nat) (filename : CString)
    (c : Child) (s : RecvState) : Prop where
  task : c.task = .receiving t oacklen filename s
  content : ∃ f, c.fs filename.bytes = some f ∧ f.content = s.onDisk t
  others : ∀ name, name ≠ filename.bytes → c.fs name = fs name

theorem FileSystem.write_same (h : fs name = some f) (content : List UInt8) :
    fs.write name content name = some { f with content := content } := by
  simp only [write, h, set_same]

theorem FileSystem.write_other (h : name' ≠ name) (fs : FileSystem) (content : List UInt8) :
    fs.write name content name' = fs name' := by
  unfold write
  cases fs name with
  | some f => exact set_other fs _ h
  | none => rfl

theorem Child.receiving_receiving (hf : fs' filename.bytes = some f)
    (ho : ∀ name, name ≠ filename.bytes → fs' name = fs name) (strerror : Nat → CString)
    (t : Transfer) (oacklen : Nat) (r : RecvState × List Action) :
    Child.Receiving fs t oacklen filename
      (Child.receiving fs' strerror t oacklen filename r).1 r.1 where
  task := rfl
  content := ⟨_, FileSystem.write_same hf (r.1.onDisk t), rfl⟩
  others := fun name hne => (FileSystem.write_other hne fs' (r.1.onDisk t)).trans (ho name hne)

/-- A completed upload has closed its file before the process exits. -/
theorem uploaded_onDisk (hc : c = (tftpRecvfile t oack ackbuf).run es) (hu : Uploaded c) :
    c.state.onDisk t = c.state.file.stored := by
  subst hc
  obtain ⟨ds, htrace⟩ := receiver_run t oack ackbuf es
  have hempty := (htrace.complete hu).unwritten
  simp only [RecvState.onDisk]
  split
  · rw [OutFile.fflush_full _ hempty]
  · rfl

theorem child_start_served (strerror : Nat → CString) (fate : Fate)
    (hserve : (handleDatagram cfg k buf n fs).1 = .serve convert oack)
    (hfile : requestedFile cfg buf n = some filename) :
    (child cfg k strerror fate buf n fs).start =
      Child.serve strerror fate (thOpcode buf) filename convert oack
        (handleDatagram cfg k buf n fs).2 := by
  simp only [child, Child.start, hserve, hfile]

/-- A child that serves a read request is `tftp_sendfile` with the file. -/
theorem child_simulates_sendfile (strerror : Nat → CString) (fate : Fate)
    (hop : thOpcode buf = RRQ)
    (hserve : (handleDatagram cfg k buf n fs).1 = .serve convert oack)
    (hfile : requestedFile cfg buf n = some filename) :
    let v := (handleDatagram cfg k buf n fs).2
    Simulates (Child.Sending v.fs (v.transfer convert fate) (oack.getD 0) filename)
      (child cfg k strerror fate buf n fs) childSocket
      (tftpSendfile (v.transfer convert fate) oack v.oack.ackbuf
        ⟨v.fs.content filename.bytes, 0, fate.readFails⟩) (socket strerror) := by
  intro v
  have hwrq : ¬ RRQ = WRQ := by decide
  have hstart := child_start_served strerror fate hserve hfile
  rw [Child.serve, hop, if_neg hwrq] at hstart
  constructor
  · rw [hstart]
    rfl
  · rw [hstart, childSocket_sends]
    rfl
  · rintro _ s rfl e
    rfl
  · rintro _ s rfl e
    exact childSocket_sends _
  · rfl
  · rfl

/-- A child that serves a write request is `tftp_recvfile`, and the file is on the disk. -/
theorem child_simulates_recvfile (strerror : Nat → CString) (fate : Fate)
    (hop : thOpcode buf = WRQ)
    (hserve : (handleDatagram cfg k buf n fs).1 = .serve convert oack)
    (hfile : requestedFile cfg buf n = some filename)
    (hf : (handleDatagram cfg k buf n fs).2.fs filename.bytes = some f) :
    let v := (handleDatagram cfg k buf n fs).2
    Simulates (Child.Receiving v.fs (v.transfer convert fate) (oack.getD 0) filename)
      (child cfg k strerror fate buf n fs) childSocket
      (tftpRecvfile (v.transfer convert fate) oack v.oack.ackbuf) (socket strerror) := by
  intro v
  have hstart := child_start_served strerror fate hserve hfile
  rw [Child.serve, if_pos hop] at hstart
  constructor
  · rw [hstart]
    exact Child.receiving_receiving hf (fun _ _ => rfl) _ _ _ _
  · rw [hstart, childSocket_sends]
    rfl
  · rintro c s ⟨ht, ⟨f, hf, -⟩, ho⟩ e
    simp only [child, Child.step, ht]
    exact Child.receiving_receiving hf ho _ _ _ _
  · rintro c s ⟨ht, -, -⟩ e
    simp only [child, Child.step, ht]
    exact childSocket_sends _
  · rfl
  · rfl

end Tasks

section Granted

variable {acc : AccessConfig} {k : Kernel} {fs fs' : FileSystem} {filename : CString}

/-- A read that was granted is that of a file that was there, and nothing has changed. -/
theorem granted_readable
    (h : accessFile acc k RRQ convert filename fs = (.granted tsize tsizeOk, fs')) :
    fs' = fs ∧ nameError acc filename.bytes = none ∧
      ∃ f, fs filename.bytes = some f ∧ (acc.unixperms || f.othersRead) = true := by
  rw [accessFile] at h
  cases hname : nameError acc filename.bytes with
  | some msg =>
    simp only [hname] at h
    cases h
  | none =>
    cases hopen : openFile acc k RRQ filename fs with
    | error errno =>
      simp only [hname, hopen] at h
      cases h
    | ok r =>
      obtain ⟨f, fs₁⟩ := r
      simp only [hname, hopen, checkFile, if_true] at h
      have hf : fs filename.bytes = some f ∧ fs₁ = fs := by
        simp only [openFile] at hopen
        split at hopen
        · cases hopen
        · rename_i hf
          cases hopen
          exact ⟨hf, rfl⟩
        · split at hopen
          · rename_i hc
            exact absurd rfl hc.1
          · cases hopen
      split at h
      · cases h
      split at h
      · cases h
      split at h
      · cases h
      rename_i hperm _
      cases h
      refine ⟨hf.2, rfl, f, hf.1, ?_⟩
      rw [Bool.or_eq_true]
      by_contra hno
      exact hperm (not_or.1 hno)

/-- A write that was granted has made the file empty, and nothing else has changed. -/
theorem granted_emptied
    (h : accessFile acc k WRQ convert filename fs = (.granted tsize tsizeOk, fs')) :
    (∃ f, fs' filename.bytes = some f) ∧ ∀ name, name ≠ filename.bytes → fs' name = fs name := by
  rw [accessFile] at h
  cases hname : nameError acc filename.bytes with
  | some msg =>
    simp only [hname] at h
    cases h
  | none =>
    cases hopen : openFile acc k WRQ filename fs with
    | error errno =>
      simp only [hname, hopen] at h
      cases h
    | ok r =>
      obtain ⟨f, fs₁⟩ := r
      simp only [hname, hopen] at h
      have hset := (checkFile_write acc k convert filename f fs₁).2 _ _ (congrArg Prod.fst h)
      have hfs' : fs' = fs₁.set filename.bytes { f with content := [] } := by
        rw [← hset, h]
      subst hfs'
      refine ⟨⟨_, FileSystem.set_same fs₁ _ _⟩, ?_⟩
      intro name hne
      rw [FileSystem.set_other fs₁ _ hne]
      rcases openFile_ok hopen with ⟨-, rfl⟩ | ⟨-, rfl⟩
      · rfl
      · exact FileSystem.set_other fs _ hne

end Granted

section Transfers

variable {strerror : Nat → CString} {fate : Fate} {v : View} {oack : Option Nat}
  {filename : CString} {k : Kernel} {buf : Mem} {n : Nat} {fs : FileSystem} {o : Order}
  {M : Machine σ ε α} {pt : Port ε α (List UInt8)}

/-- The file was sent, and its last block acknowledged. -/
def Child.completed (c : Child) : Bool :=
  match c.task with
  | .sending _ _ _ s => s.phase = .ended .completed
  | _ => false

/-- A file that is asked for, over a network that loses and repeats datagrams: it is there and may
be read, the client gets the first blocks of it, and all of them by the time the child that serves
it has completed. No file changes. -/
theorem child_download {V : ReceiverView (Config σ ε α) (List UInt8)}
    {rewriteAccess : CString → UInt16 → Except (Option String) CString}
    {l : Link Child Event (List UInt8) σ ε α (List UInt8)}
    (h : 1 ≤ a.argc) (hm : mainStart host a = .ok s) (hop : thOpcode buf = RRQ)
    (hserve : handleDatagram (s.config rewriteAccess) k buf n fs = (.serve convert oack, v))
    (hfile : requestedFile (s.config rewriteAccess) buf n = some filename)
    (hread : fate.readFails = fun _ => false)
    (hV : TakesInTurn (downloadWire (v.transfer convert fate) oack v.oack.ackbuf) V M pt)
    (hd : Distinguishable o (v.transfer convert fate)
      (payload (v.transfer convert fate) (fs.content filename.bytes)))
    (hl : (linkSystem o (child (s.config rewriteAccess) k strerror fate buf n fs) childSocket
      M pt).Reachable l) :
    ∃ f, fs filename.bytes = some f ∧
      nameError (s.config rewriteAccess).access filename.bytes = none ∧
      (s.vars.unixperms || f.othersRead) = true ∧
      l.sender.state.fs = fs ∧
      ∃ j, let xs := takenUpTo (payload (v.transfer convert fate) f.content) j
        (V.Has l.receiver xs ∨ V.Gone l.receiver xs) ∧
        xs.flatten <+: encode convert f.content ∧
        (l.sender.state.completed → decode convert xs.flatten = f.content) := by
  have hserve' : (handleDatagram (s.config rewriteAccess) k buf n fs).1 = .serve convert oack :=
    congrArg Prod.fst hserve
  obtain ⟨-, filename', tsize, tsizeOk, hfile', haccess⟩ := handleDatagram_serve hserve'
  rw [hfile] at hfile'
  cases hfile'
  rw [hop, hserve] at haccess
  obtain ⟨hfs, hname, f, hf, hperm⟩ := granted_readable haccess
  have hcontent : fs.content filename.bytes = f.content := by
    simp only [FileSystem.content, hf]
    rfl
  have hp := (started_sound h hm).permitted rewriteAccess k buf n fs
  have hsim := child_simulates_sendfile strerror fate hop hserve' hfile
  rw [hserve] at hp hsim
  dsimp only at hp hsim hfs
  rw [hfs, hcontent, hread] at hsim
  rw [hcontent] at hd
  obtain ⟨c, hc, hlink⟩ := hsim.sender hl
  have hM := sendfile_sendsInTurn (v.transfer convert fate) oack v.oack.ackbuf f.content strerror
  have hfits (i : Nat) : (downloadWire (v.transfer convert fate) oack v.oack.ackbuf).fits
      (payload (v.transfer convert fate) f.content i) := by
    apply Nat.le_trans (length_payload_le _ _ i)
    exact Nat.le_trans hp.segsize.high (started_sound h hm).vars.high
  obtain ⟨p, j, hin⟩ := inStep_of_reachable hM hV hfits (hd.fresh _ _) hlink
  obtain ⟨hpre, hall⟩ := inStep_download hin
  have hc' : l.sender.state =
      ⟨fs, .sending (v.transfer convert fate) (oack.getD 0) filename c.state⟩ := hc
  refine ⟨f, hf, hname, hperm, ?_, j, hin.receiver, hpre, ?_⟩
  · rw [hc']
  · intro hcomp
    rw [hc', Child.completed, decide_eq_true_iff] at hcomp
    exact hall hcomp

/-- Everything works. -/
def plainFate : Fate := ⟨fun _ => true, 0, fun _ => false, 4096, .clean⟩

def plainChild (cfg : ServerConfig) (bs : List UInt8) : Machine Child Event (List UInt8) :=
  child cfg goodKernel (fun _ => .empty) plainFate (Mem.zero.store 0 bs) bs.length oneFile

def readFile : List UInt8 := encodeRequest RRQ fileName octetMode [] .nothing

theorem plainCommand_download :
    ∃ s, mainStart plainHost plainCommand = .ok s ∧
      let cfg := s.config plainServer.rewriteAccess
      ∃ v, handleDatagram cfg goodKernel (Mem.zero.store 0 readFile) readFile.length oneFile =
          (.serve false none, v) ∧
        requestedFile cfg (Mem.zero.store 0 readFile) readFile.length = some fileName ∧
        v.negotiated.segsize = 512 ∧ v.negotiated.rolloverVal = 0 ∧
        ∃ l, (linkSystem .any (plainChild cfg readFile) childSocket
          (tftpRecvfile octetTransfer none .zero) (socket fun _ => .empty)).Reachable l ∧
          l.sender.state.completed := by
  let start (cfg : ServerConfig) := Link.init (plainChild cfg readFile) childSocket
    (tftpRecvfile octetTransfer none .zero) (socket fun _ => .empty)
  let run (cfg : ServerConfig) := (linkSystem .any (plainChild cfg readFile) childSocket
    (tftpRecvfile octetTransfer none .zero) (socket fun _ => .empty)).exec (start cfg)
      [.toReceiver 0 false, .toSender 1 false]
  let served (s : Started Unit) := handleDatagram (s.config plainServer.rewriteAccess) goodKernel
    (Mem.zero.store 0 readFile) readFile.length oneFile
  have hk : (mainStart plainHost plainCommand).toOption.map (fun s =>
      let cfg := s.config plainServer.rewriteAccess
      ((served s).1, requestedFile cfg (Mem.zero.store 0 readFile) readFile.length,
        (served s).2.negotiated.segsize, (served s).2.negotiated.rolloverVal,
        (run cfg).map fun l => l.sender.state.completed)) =
      some (.serve false none, some fileName, 512, 0, some true) := by
    decide +kernel
  cases hm : mainStart plainHost plainCommand with
  | error e =>
    rw [hm] at hk
    cases hk
  | ok s =>
    rw [hm] at hk
    have hs := Option.some.inj hk
    simp only [Prod.mk.injEq] at hs
    obtain ⟨hserved, hfile, hseg, hroll, hlink⟩ := hs
    obtain ⟨l, hl, hc⟩ := Option.map_eq_some_iff.1 hlink
    refine ⟨s, rfl, (served s).2, Prod.ext hserved rfl, hfile, hseg, hroll, l, ?_, hc⟩
    exact (System.Reach.init rfl).exec (fun _ _ _ => trivial) hl

theorem oneFile_downloaded :
    ∃ s, mainStart plainHost plainCommand = .ok s ∧
      ∃ l, (linkSystem .any (plainChild (s.config plainServer.rewriteAccess) readFile) childSocket
          (tftpRecvfile octetTransfer none .zero) (socket fun _ => .empty)).Reachable l ∧
        l.sender.state.fs = oneFile ∧
        let V := receiverView octetTransfer none .zero
        ∃ xs, (V.Has l.receiver xs ∨ V.Gone l.receiver xs) ∧ xs.flatten = [1, 2, 3] := by
  obtain ⟨s, hm, v, hserve, hfile, hseg, hroll, l, hl, hc⟩ := plainCommand_download
  have hagree : Agree (v.transfer false plainFate) octetTransfer := ⟨rfl, hseg.symm, hroll.symm⟩
  have hV := recvfile_takesInTurn octetTransfer none .zero (Greeting none v.oack.ackbuf)
    (no_greeting _) fun _ => .empty
  rw [hagree.wire] at hV
  have hd : Distinguishable .any (v.transfer false plainFate)
      (payload (v.transfer false plainFate) (oneFile.content fileName.bytes)) := by
    left
    refine ⟨0, by decide, ?_⟩
    have hsize : (v.transfer false plainFate).segsize = 512 := hseg
    have hshort : min 512 ((encode false [1, 2, 3]).drop (0 * 512)).length ≠ 512 := by decide
    rw [payload, chunk, List.length_take, hsize]
    exact hshort
  obtain ⟨f, hf, -, -, hfs, j, hrecv, -, hall⟩ := child_download (by decide) hm (by decide) hserve
    hfile rfl hV hd hl
  refine ⟨s, hm, l, hl, hfs, _, hrecv, ?_⟩
  have hcontent : oneFile fileName.bytes = some ⟨[1, 2, 3], true, true⟩ := rfl
  rw [hcontent] at hf
  cases hf
  exact hall hc

/-- A file that is sent to the server, over a network that loses and repeats datagrams: its name
was checked and it could be written, no other file changes, and when the client is done the file
is what the client has sent, up to and with the block that is not full. -/
theorem child_upload {V : SenderView (Config σ ε α)} {payload : Nat → List UInt8}
    {greeting : List UInt8 → Prop} {cfg : ServerConfig}
    {l : Link σ ε α Child Event (List UInt8) (List UInt8)} (hop : thOpcode buf = WRQ)
    (hserve : handleDatagram cfg k buf n fs = (.serve convert oack, v))
    (hfile : requestedFile cfg buf n = some filename) (hwrite : fate.writeFaults = .clean)
    (hV : SendsInTurn (uploadWire (v.transfer convert fate) oack v.oack.ackbuf greeting) payload V
      M pt)
    (hg : ∀ d, greeting d → NotData d) (hfits : ∀ i, (payload i).length ≤ maxSegsize)
    (hd : Distinguishable o (v.transfer convert fate) payload)
    (hl : (linkSystem o M pt (child cfg k strerror fate buf n fs) childSocket).Reachable l) :
    Writable cfg.access fs WRQ filename ∧
      (∀ name, name ≠ filename.bytes → l.receiver.state.fs name = fs name) ∧
      ∃ f, l.receiver.state.fs filename.bytes = some f ∧
        ∀ q, V.Over l.sender q → ∃ i,
          (∀ j < i, (payload j).length = v.negotiated.segsize) ∧
          (payload i).length ≠ v.negotiated.segsize ∧
          f.content = decode convert (takenUpTo payload (i + 1)).flatten := by
  have hserve' : (handleDatagram cfg k buf n fs).1 = .serve convert oack :=
    congrArg Prod.fst hserve
  obtain ⟨-, filename', tsize, tsizeOk, hfile', haccess⟩ := handleDatagram_serve hserve'
  rw [hfile] at hfile'
  cases hfile'
  rw [hop, hserve] at haccess
  obtain ⟨⟨f₀, hf₀⟩, hothers⟩ := granted_emptied haccess
  have hf₁ : (handleDatagram cfg k buf n fs).2.fs filename.bytes = some f₀ := by
    rw [hserve]
    exact hf₀
  have hsim := child_simulates_recvfile strerror fate hop hserve' hfile hf₁
  rw [hserve] at hsim
  obtain ⟨c, ⟨-, ⟨f, hf, hcontent⟩, hother⟩, hlink⟩ := hsim.receiver hl
  have hM := recvfile_takesInTurn (v.transfer convert fate) oack v.oack.ackbuf greeting hg strerror
  obtain ⟨p, j, hin⟩ := inStep_of_reachable hV hM hfits (hd.fresh _ _) hlink
  obtain ⟨-, hfull, hup, hdone, hover⟩ := inStep_upload (t := v.transfer convert fate) hwrite hV hin
  refine ⟨granted_writable (congrArg Prod.fst haccess), ?_, f, hf, ?_⟩
  · intro name hne
    exact (hother name hne).trans (hothers name hne)
  · intro q hq
    have hu := hover q hq
    obtain ⟨i, rfl, hshort⟩ := hup.1 hu
    refine ⟨i, fun j hj => hfull j (Nat.succ_lt_succ hj), hshort, ?_⟩
    obtain ⟨-, es, hrun⟩ := runs_of_reachable hlink
    exact hcontent.trans ((uploaded_onDisk hrun hu).trans (hdone hu))

def writeFile : List UInt8 := encodeRequest WRQ fileName octetMode [] .nothing

/-- A client that replaces the file by one of one byte. -/
def plainUpload : System (Link SendState Event Action Child Event (List UInt8) (List UInt8))
    (LinkEvent Event Event) :=
  linkSystem .any (tftpSendfile octetTransfer none .zero (.regular [65])) (socket fun _ => .empty)
    (plainChild plainServer writeFile) childSocket

theorem plainUpload_completes :
    ∃ l, plainUpload.Reachable l ∧ l.sender.state.phase = .ended .completed := by
  let start := Link.init (tftpSendfile octetTransfer none .zero (.regular [65]))
    (socket fun _ => .empty) (plainChild plainServer writeFile) childSocket
  have hrun : (plainUpload.exec start [.toReceiver 0 false, .toSender 1 false]).map
      (fun l => l.sender.state.phase) = some (.ended .completed) := by decide +kernel
  obtain ⟨l, hl, he⟩ := Option.map_eq_some_iff.1 hrun
  exact ⟨l, (System.Reach.init rfl).exec (fun _ _ _ => trivial) hl, he⟩

theorem oneByte_stored :
    ∃ l, plainUpload.Reachable l ∧
      ∃ f, l.receiver.state.fs fileName.bytes = some f ∧ f.content = [65] := by
  obtain ⟨l, hl, hc⟩ := plainUpload_completes
  let served := handleDatagram plainServer goodKernel (Mem.zero.store 0 writeFile) writeFile.length
    oneFile
  have hk : (served.1, requestedFile plainServer (Mem.zero.store 0 writeFile) writeFile.length,
      served.2.negotiated.segsize, served.2.negotiated.rolloverVal) =
      (.serve false none, some fileName, 512, 0) := by decide +kernel
  simp only [Prod.mk.injEq] at hk
  obtain ⟨hserved, hfile, hseg, hroll⟩ := hk
  have hserve : served = (.serve false none, served.2) := Prod.ext hserved rfl
  have hagree : Agree octetTransfer (served.2.transfer false plainFate) := ⟨rfl, hseg, hroll⟩
  have hV := sendfile_sendsInTurn octetTransfer none .zero [65] fun _ => .empty
  rw [← hagree.wire none .zero served.2.oack.ackbuf] at hV
  have hd : Distinguishable .any (served.2.transfer false plainFate) (payload octetTransfer [65]) := by
    left
    refine ⟨0, by decide, ?_⟩
    have hsize : (served.2.transfer false plainFate).segsize = 512 := hseg
    rw [hsize]
    decide
  obtain ⟨-, -, f, hf, hdone⟩ := child_upload (by decide) hserve hfile rfl hV (no_greeting .zero)
    (fun i => Nat.le_trans (length_payload_le _ _ i) (by decide)) hd hl
  obtain ⟨i, hfull, -, hcontent⟩ := hdone 1 hc
  have hz : i = 0 := by
    by_contra hne
    have hlen := hfull 0 (Nat.pos_of_ne_zero hne)
    rw [hseg] at hlen
    revert hlen
    decide
  rw [hz] at hcontent
  exact ⟨l, hl, f, hf, hcontent⟩

end Transfers

end WooTftpd
