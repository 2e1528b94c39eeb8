import WooTftpd.Serving

namespace WooTftpd
open Lib
set_option autoImplicit true

variable {strerror : Nat → CString} {t : Transfer}

def IsError (d : List UInt8) : Prop := ∃ rest, d = Mem.be16 ERROR ++ rest

theorem load_not_error {m : Mem} (h : thOpcode m ≠ ERROR) (n : Nat) : ¬ IsError (m.load 0 n) := by
  rintro ⟨rest, hd⟩
  apply h
  have hn : n = 2 + rest.length := by
    have hlen := congrArg List.length hd
    rw [Mem.length_load, List.length_append] at hlen
    exact hlen
  rw [hn] at hd
  rw [thOpcode, Mem.u16_eq_iff]
  exact (load_append hd).1

theorem header_not_error (m : Mem) (block : UInt16) (h : opcode ≠ ERROR) :
    thOpcode (m.store 0 (tftphdr opcode block)) ≠ ERROR := by
  have hop : thOpcode (m.store 0 (tftphdr opcode block)) = opcode := Mem.u16_store m 0 opcode _
  rw [hop]
  exact h

theorem nak_error (strerror : Nat → CString) (error : Nat) (msg : Option String) :
    IsError (nak strerror error msg) := by
  rw [nak, tftphdr, List.append_assoc, List.append_assoc]
  exact ⟨_, rfl⟩

/-- What a process sends in one step: no ERROR, or nothing else than one, with which it is over. -/
inductive Sends (last : Prop) : List (List UInt8) → Prop where
  | packets (h : ∀ d ∈ ds, ¬ IsError d) : Sends last ds
  | error (h : IsError d) (ho : last) : Sends last [d]

theorem Sends.nothing (last : Prop) : Sends last [] := .packets nofun

theorem Sends.single (last : Prop) (h : ¬ IsError d) : Sends last [d] := by
  apply Sends.packets
  intro x hx
  rw [List.mem_singleton.1 hx]
  exact h

section Sender

variable {s : SendState}

/-- What the sender may send again is no ERROR. -/
inductive SendState.Sound (s : SendState) : Prop where
  | option (hp : s.phase = .option) (h : thOpcode s.ackbuf ≠ ERROR)
  | data (hp : s.phase = .data) (hdp : s.dp = s.subs.current)
      (hused : (s.subs.bfs s.dp).counter ≠ bfFree) (h : thOpcode (s.subs.bfs s.dp).buf ≠ ERROR)
  | ended (hp : s.phase = .ended how)

def SendState.Over (s : SendState) : Prop := ∃ how, s.phase = .ended how

def SenderStep (strerror : Nat → CString) (r : SendState × List Action) : Prop :=
  r.1.Sound ∧ Sends r.1.Over (datagrams strerror r.2)

theorem senderStep_end (hp : s.phase = .ended how) {as : List Action}
    (hq : datagrams strerror as = []) : SenderStep strerror (s, as) := by
  refine ⟨.ended hp, ?_⟩
  rw [hq]
  exact .nothing _

theorem senderStep_data (hp : s.phase = .data) (hdp : s.dp = s.subs.current)
    (hused : (s.subs.bfs s.dp).counter ≠ bfFree) (h : thOpcode (s.subs.bfs s.dp).buf ≠ ERROR) :
    SenderStep strerror (sendData t s) := by
  simp only [sendData]
  split
  · rw [hdp] at hused
    obtain ⟨hcur, hkeep⟩ := readAhead_keeps hused t.convert t.segsize s.file
    rw [← hdp] at hkeep
    refine ⟨.data hp (hdp.trans hcur.symm) ?_ ?_, .single _ (load_not_error h _)⟩
    · rw [hkeep, hdp]
      exact hused
    · rw [hkeep]
      exact h
  · exact senderStep_end rfl rfl

theorem senderStep_read (hp : s.phase = .data) : SenderStep strerror (readBlock t s) := by
  simp only [readBlock]
  split
  · exact ⟨.ended rfl, .error (nak_error strerror _ none) ⟨_, rfl⟩⟩
  · rename_i hsize
    refine senderStep_data ?_ rfl ?_ ?_
    · exact hp
    · dsimp only
      rw [Subs.setBuf, Subs.setBf_same]
      intro hfree
      apply hsize
      have hcount : (readit t.convert t.segsize s.subs s.file).2.2 = bfFree := hfree
      rw [hcount]
      decide
    · dsimp only
      rw [Subs.setBuf, Subs.setBf_same]
      exact header_not_error _ _ (by decide)

theorem senderStep_acked (hp : s.phase = .data) : SenderStep strerror (blockAcked t s) := by
  simp only [blockAcked]
  split
  · exact senderStep_read hp
  · exact senderStep_end rfl rfl

theorem senderStep_oack (hp : s.phase = .option) (h : thOpcode s.ackbuf ≠ ERROR) (oacklen : Nat) :
    SenderStep strerror (sendOack t oacklen s) := by
  simp only [sendOack]
  split
  · exact ⟨.option hp h, .single _ (load_not_error h oacklen)⟩
  · exact senderStep_end rfl rfl

theorem senderStep_option (hp : s.phase = .option) (h : thOpcode s.ackbuf ≠ ERROR) (oacklen : Nat)
    (e : Event) : SenderStep strerror
      (optionStep t oacklen { s with ackbuf := (parse s.ackbuf e).1 } (parse s.ackbuf e).2) := by
  cases e with
  | timeout =>
    simp only [parse, optionStep]
    split
    · exact senderStep_end rfl rfl
    · refine senderStep_oack ?_ ?_ oacklen
      · exact hp
      · exact h
  | recvError => exact senderStep_end rfl rfl
  | datagram d =>
    simp only [parse, optionStep]
    split
    · exact senderStep_end rfl rfl
    rename_i hop
    split
    · split
      · exact senderStep_read rfl
      · refine senderStep_oack ?_ ?_ oacklen
        · exact hp
        · exact hop
    · exact ⟨.option hp hop, .nothing _⟩

theorem SendState.Sound.step (h : s.Sound) (oacklen : Nat) (e : Event) :
    SenderStep strerror (sendStep t oacklen s e) := by
  cases h with
  | ended hp =>
    rw [sendStep_ended hp]
    exact senderStep_end hp rfl
  | option hp h =>
    rw [sendStep_option hp]
    exact senderStep_option hp h oacklen e
  | data hp hdp hused h =>
    rw [sendStep_data hp]
    generalize parse s.ackbuf e = p
    cases p.2 with
    | recvError => exact senderStep_end rfl rfl
    | timeout =>
      simp only [dataStep]
      split
      · exact senderStep_end rfl rfl
      · exact senderStep_data hp hdp hused h
    | packet opcode block =>
      simp only [dataStep]
      split
      · exact senderStep_end rfl rfl
      split
      · exact senderStep_acked hp
      · exact ⟨.data hp hdp hused h, .nothing _⟩

theorem sendfile_start_sound (t : Transfer) (oack : Option Nat) {ackbuf : Mem}
    (h : thOpcode ackbuf ≠ ERROR) (f : InFile) :
    SenderStep strerror (tftpSendfile t oack ackbuf f).start := by
  cases oack with
  | some oacklen =>
    have hstep : SenderStep strerror (sendOack t oacklen (sendInit ackbuf t.rexmtval f)) := by
      refine senderStep_oack ?_ ?_ oacklen
      · rfl
      · exact h
    exact hstep
  | none =>
    have hstep : SenderStep strerror (startData t (sendInit ackbuf t.rexmtval f)) := by
      refine senderStep_read ?_
      rfl
    exact hstep

end Sender

section Receiver

variable {s : RecvState}

/-- What the receiver answers with is no ERROR. -/
def RecvState.Sound (s : RecvState) : Prop := thOpcode s.ackbuf ≠ ERROR

def RecvState.Over (s : RecvState) : Prop := ∃ how, s.phase = .ended how

def ReceiverStep (strerror : Nat → CString) (r : RecvState × List Action) : Prop :=
  r.1.Sound ∧ Sends r.1.Over (datagrams strerror r.2)

theorem receiverStep_ack (h : s.Sound) : ReceiverStep strerror (sendAck t s) := by
  simp only [sendAck]
  split
  · exact ⟨h, .single _ (load_not_error h _)⟩
  · exact ⟨h, .nothing _⟩

theorem receiverStep_reply (h : s.Sound) (oacklen : Nat) :
    ReceiverStep strerror (replyBlock t oacklen s) := by
  simp only [replyBlock]
  apply receiverStep_ack
  split
  · exact h
  · exact header_not_error _ _ (by decide)

theorem receiverStep_final (s : RecvState) : ReceiverStep strerror (finalAck t s) := by
  have hack : thOpcode (s.ackbuf.store 0 (tftphdr ACK s.block)) ≠ ERROR :=
    header_not_error _ _ (by decide)
  simp only [finalAck]
  split
  · exact ⟨hack, .single _ (load_not_error hack 4)⟩
  · exact ⟨hack, .nothing _⟩

theorem receiverStep_block (h : s.Sound) (oacklen n : Nat) :
    ReceiverStep strerror (blockReceived t oacklen n s) := by
  simp only [blockReceived]
  split
  · exact ⟨h, .error (nak_error strerror _ none) ⟨_, rfl⟩⟩
  · split
    · refine receiverStep_reply ?_ oacklen
      exact h
    · exact receiverStep_final _

theorem RecvState.Sound.step (h : s.Sound) (oacklen : Nat) (e : Event) :
    ReceiverStep strerror (recvStep t oacklen s e) := by
  cases hp : s.phase with
  | ended how =>
    rw [recvStep_ended hp]
    exact ⟨h, .nothing _⟩
  | dally =>
    rw [recvStep_dally hp]
    cases e with
    | timeout => exact ⟨h, .nothing _⟩
    | recvError => exact ⟨h, .nothing _⟩
    | datagram d =>
      refine ⟨h, ?_⟩
      simp only [dallyStep]
      by_cases hagain : (4 ≤ (received d).length ∧ s.dpOpcode = DATA ∧ s.block = s.dpBlock) ∧
        t.sendOk s.sends = true
      · rw [if_pos hagain]
        exact .single _ (load_not_error h 4)
      · rw [if_neg hagain]
        exact .nothing _
  | waiting =>
    rw [recvStep_waiting hp]
    cases e with
    | recvError => exact ⟨h, .nothing _⟩
    | timeout =>
      simp only [waitStep]
      split
      · exact ⟨h, .nothing _⟩
      · refine receiverStep_ack ?_
        exact h
    | datagram d =>
      simp only [waitStep]
      split
      · exact ⟨h, .nothing _⟩
      split
      · split
        · refine receiverStep_block ?_ oacklen _
          exact h
        split
        · refine receiverStep_ack ?_
          exact h
        · exact ⟨h, .nothing _⟩
      · exact ⟨h, .nothing _⟩

theorem recvfile_start_sound (t : Transfer) (oack : Option Nat) {ackbuf : Mem}
    (h : thOpcode ackbuf ≠ ERROR) :
    ReceiverStep strerror (tftpRecvfile t oack ackbuf).start := by
  have hstep : ReceiverStep strerror
      (replyBlock t (oack.getD 0) (recvInit oack.isSome ackbuf t.bufsiz t.rexmtval)) := by
    refine receiverStep_reply ?_ _
    exact h
  exact hstep

end Receiver

section Oack

variable {cfg : OptionConfig} {v : View}

/-- The OACK stands behind its opcode. -/
def HasOpcode (o : Oack) : Prop := thOpcode o.ackbuf = OACK ∧ 2 ≤ o.ap

theorem hasOpcode_start : HasOpcode .start := ⟨Mem.u16_store .zero 0 OACK [], Nat.le_refl 2⟩

theorem hasOpcode_append (h : HasOpcode o) (opt ret : CString) : HasOpcode (o.append opt ret) := by
  obtain ⟨hop, hap⟩ := h
  refine ⟨?_, Nat.le_add_right_of_le hap⟩
  rw [thOpcode, Mem.u16_eq_iff] at hop ⊢
  rw [← hop]
  exact Mem.load_store_disjoint _ _ (.inl hap)

theorem handleOption_hasOpcode (opt val : CString) (v : View) (h : HasOpcode v.oack) :
    HasOpcode (handleOption cfg opt val v).view.oack := by
  simp only [handleOption]
  cases hd : doOpt cfg opt val v.negotiated v.oack with
  | nak error msg => exact h
  | returned n o =>
    cases hr : recognized cfg opt val with
    | none =>
      rw [doOpt_ignored hr] at hd
      cases hd
      exact h
    | some r =>
      obtain ⟨v', -, -, rfl⟩ := doOpt_returned hr hd
      exact hasOpcode_append h _ _

theorem handleMode_hasOpcode (cfg : ServerConfig) (k : Kernel) (opcode : UInt16)
    (name mode : CString) (v : View) (h : HasOpcode v.oack) :
    HasOpcode (handleMode cfg k opcode name mode v).view.oack := by
  simp only [handleMode]
  repeat' split
  all_goals exact h

theorem handleDatagram_hasOpcode (cfg : ServerConfig) (k : Kernel) (buf : Mem) (n : Nat)
    (fs : FileSystem) : HasOpcode (handleDatagram cfg k buf n fs).2.oack := by
  rw [handleDatagram]
  split
  · exact handleRequest_view (P := fun v => HasOpcode v.oack) k buf n fs hasOpcode_start
      (fun name mode _ => handleMode_hasOpcode cfg k _ name mode _ hasOpcode_start)
      handleOption_hasOpcode
  · exact hasOpcode_start

end Oack

section Run

variable {cfg : ServerConfig} {k : Kernel} {fate : Fate} {buf : Mem} {n : Nat} {fs : FileSystem}
  {c : Child}

def Task.Sound : Task → Prop
  | .ended => True
  | .sending _ _ _ s => s.Sound
  | .receiving _ _ _ s => s.Sound

def Task.Over : Task → Prop
  | .ended => True
  | .sending _ _ _ s => s.Over
  | .receiving _ _ _ s => s.Over

def TaskStep (r : Child × List (List UInt8)) : Prop := r.1.task.Sound ∧ Sends r.1.task.Over r.2

theorem Child.step_sound (h : c.task.Sound) (strerror : Nat → CString) (e : Event) :
    TaskStep (Child.step strerror c e) := by
  simp only [Child.step]
  cases ht : c.task with
  | ended => exact ⟨h, .nothing _⟩
  | sending t oacklen filename s =>
    rw [ht] at h
    exact SendState.Sound.step h oacklen e
  | receiving t oacklen filename s =>
    rw [ht] at h
    exact RecvState.Sound.step h oacklen e

theorem Child.step_over (h : c.task.Over) (strerror : Nat → CString) (e : Event) :
    (Child.step strerror c e).1.task.Over ∧ (Child.step strerror c e).2 = [] := by
  simp only [Child.step]
  cases ht : c.task with
  | ended => exact ⟨h, rfl⟩
  | sending t oacklen filename s =>
    rw [ht] at h
    obtain ⟨how, hp⟩ := h
    dsimp only
    rw [sendStep_ended hp]
    exact ⟨⟨how, hp⟩, rfl⟩
  | receiving t oacklen filename s =>
    rw [ht] at h
    obtain ⟨how, hp⟩ := h
    dsimp only
    rw [recvStep_ended hp]
    exact ⟨⟨how, hp⟩, rfl⟩

theorem Child.start_sound (cfg : ServerConfig) (k : Kernel) (strerror : Nat → CString)
    (fate : Fate) (buf : Mem) (n : Nat) (fs : FileSystem) :
    TaskStep (Child.start cfg k strerror fate buf n fs) := by
  have hop : thOpcode (handleDatagram cfg k buf n fs).2.oack.ackbuf ≠ ERROR := by
    rw [(handleDatagram_hasOpcode cfg k buf n fs).1]
    decide
  simp only [Child.start]
  split
  · simp only [Child.serve]
    split
    · exact recvfile_start_sound _ _ hop
    · exact sendfile_start_sound _ _ hop _
  · exact ⟨trivial, .error (nak_error strerror _ _) trivial⟩
  · exact ⟨trivial, .nothing _⟩

/-- The datagrams that were sent: the only ERROR among them is the last one. -/
inductive Sent (last : Prop) (ds : List (List UInt8)) : Prop where
  | packets (h : ∀ d ∈ ds, ¬ IsError d)
  | error (he : ds = pre ++ [d]) (h : ∀ x ∈ pre, ¬ IsError x) (hd : IsError d) (ho : last)

theorem Sends.sent (h : Sends last ds) : Sent last ds := by
  cases h with
  | packets h => exact .packets h
  | error h ho => exact .error (List.nil_append _).symm nofun h ho

theorem Sends.append (h : Sends last ds) (hpre : ∀ x ∈ pre, ¬ IsError x) :
    Sent last (pre ++ ds) := by
  cases h with
  | packets h =>
    apply Sent.packets
    intro d hd
    rcases List.mem_append.1 hd with hd | hd
    · exact hpre d hd
    · exact h d hd
  | error h ho => exact .error rfl hpre h ho

/-- The datagrams that a process has sent. -/
def sentBy (cfg : ServerConfig) (k : Kernel) (strerror : Nat → CString) (fate : Fate) (buf : Mem)
    (n : Nat) (fs : FileSystem) (es : List Event) : List (List UInt8) :=
  ((child cfg k strerror fate buf n fs).run es).log.map Prod.snd

theorem child_sent (cfg : ServerConfig) (k : Kernel) (strerror : Nat → CString) (fate : Fate)
    (buf : Mem) (n : Nat) (fs : FileSystem) (es : List Event) :
    let c := (child cfg k strerror fate buf n fs).run es
    c.state.task.Sound ∧ Sent c.state.task.Over (c.log.map Prod.snd) := by
  apply (child cfg k strerror fate buf n fs).run_induction
    (P := fun _ c => c.state.task.Sound ∧ Sent c.state.task.Over (c.log.map Prod.snd))
  · obtain ⟨hs, hd⟩ := Child.start_sound cfg k strerror fate buf n fs
    refine ⟨hs, ?_⟩
    rw [Machine.log_init]
    exact hd.sent
  · rintro es e ⟨hs, hsent⟩
    obtain ⟨hs', hd⟩ := Child.step_sound hs strerror e
    refine ⟨hs', ?_⟩
    rw [Machine.log_next]
    cases hsent with
    | packets h => exact hd.append h
    | error he h herr ho =>
      obtain ⟨hover, hnone⟩ := Child.step_over ho strerror e
      have hquiet : ((child cfg k strerror fate buf n fs).step
          ((child cfg k strerror fate buf n fs).run es).state e).2 = [] := hnone
      rw [hquiet, List.append_nil]
      exact .error he h herr hover

theorem child_over (h : ((child cfg k strerror fate buf n fs).run es).state.task.Over)
    (es' : List Event) :
    sentBy cfg k strerror fate buf n fs (es ++ es') = sentBy cfg k strerror fate buf n fs es ∧
      ((child cfg k strerror fate buf n fs).run (es ++ es')).state.task.Over := by
  induction es' using List.reverseRecOn with
  | nil =>
    rw [List.append_nil]
    exact ⟨rfl, h⟩
  | append_singleton es' e ih =>
    obtain ⟨hs, ho⟩ := ih
    obtain ⟨hover, hnone⟩ := Child.step_over ho strerror e
    rw [← List.append_assoc, sentBy, Machine.run_concat, Machine.log_next]
    refine ⟨?_, hover⟩
    have hquiet : ((child cfg k strerror fate buf n fs).step
        ((child cfg k strerror fate buf n fs).run (es ++ es')).state e).2 = [] := hnone
    rw [hquiet, List.append_nil]
    exact hs

theorem child_dropped (h : ¬ (thOpcode buf = RRQ ∨ thOpcode buf = WRQ)) (es : List Event) :
    sentBy cfg k strerror fate buf n fs es = [] := by
  have hd : handleDatagram cfg k buf n fs = (.exits, startView cfg fs) := if_neg h
  have hstart : (child cfg k strerror fate buf n fs).start = (⟨fs, .ended⟩, []) := by
    simp only [child, Child.start, hd]
    rfl
  have hover : ((child cfg k strerror fate buf n fs).run []).state.task.Over := by
    have hstate : ((child cfg k strerror fate buf n fs).run []).state = ⟨fs, .ended⟩ :=
      congrArg Prod.fst hstart
    rw [hstate]
    trivial
  have hall := (child_over hover es).1
  rw [List.nil_append] at hall
  rw [hall, sentBy]
  have hlog := (child cfg k strerror fate buf n fs).log_init
  rw [hstart] at hlog
  exact hlog

/-- The datagrams that a process sends, whatever it was forked for and whatever happens: at most
one ERROR, which is the last one, and none at all if it was not forked for a request. -/
theorem child_packets (cfg : ServerConfig) (k : Kernel) (strerror : Nat → CString) (fate : Fate)
    (buf : Mem) (n : Nat) (fs : FileSystem) (es : List Event) :
    let sent := sentBy cfg k strerror fate buf n fs
    ((∀ d ∈ sent es, ¬ IsError d) ∨
      ∃ pre d, sent es = pre ++ [d] ∧ (∀ x ∈ pre, ¬ IsError x) ∧ IsError d ∧
        ∀ es', sent (es ++ es') = sent es) ∧
      (thOpcode buf = RRQ ∨ thOpcode buf = WRQ ∨ sent es = []) := by
  intro sent
  constructor
  · cases (child_sent cfg k strerror fate buf n fs es).2 with
    | packets h => exact .inl h
    | error he h herr ho => exact .inr ⟨_, _, he, h, herr, fun es' => (child_over ho es').1⟩
  · rw [← or_assoc, or_iff_not_imp_left]
    intro h
    exact child_dropped h es

end Run

end WooTftpd
