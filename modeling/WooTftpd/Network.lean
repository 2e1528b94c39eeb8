import WooTftpd.Duplicates
import WooTftpd.ErrorPackets
import WooTftpd.Lib.Link
import WooTftpd.SendfileRun

namespace WooTftpd
open Lib
set_option autoImplicit true

variable {t : Transfer} {content : List UInt8}

/-- The datagrams of a transfer. `first` is what the receiver answers before it has a block,
`greeting` what the sender sends before block 0. -/
def tftpWire (t : Transfer) (first greeting : List UInt8 → Prop) :
    Wire (List UInt8) UInt16 (List UInt8) where
  num
    | 0 => 0
    | p + 1 => bn t.rolloverVal p
  greeting := greeting
  block := fun n x => tftphdr DATA n ++ x
  reply
    | 0, d => first d
    | k + 1, d => d = tftphdr ACK (bn t.rolloverVal k)
  refusal := fun d => ∃ rest, d = Mem.be16 ERROR ++ rest
  fits := fun x => x.length ≤ maxSegsize
  last := fun x => x.length ≠ t.segsize

def Action.datagram? (strerror : Nat → CString) : Action → Option (List UInt8)
  | .send packet => some packet
  | .nak error => some (WooTftpd.nak strerror error none)
  | _ => none

def Event.own : Event → Bool
  | .datagram _ => false
  | _ => true

/-- The socket of a transfer: timeouts and errors of `recv` are no datagrams. -/
def socket (strerror : Nat → CString) : Port Event Action (List UInt8) :=
  ⟨Action.datagram? strerror, .datagram, Event.own⟩

section Socket

variable {strerror : Nat → CString} {first greeting : List UInt8 → Prop}

theorem nak_refusal (t : Transfer) (first greeting : List UInt8 → Prop) (strerror : Nat → CString)
    (error : Nat) (msg : Option String) :
    (tftpWire t first greeting).refusal (nak strerror error msg) := by
  rw [nak, tftphdr, List.append_assoc, List.append_assoc]
  exact ⟨_, rfl⟩

/-- A side that sends only `f` says nothing else but that it gives up. -/
theorem says_of_sent {f : List UInt8 → Prop} (as : List Action)
    (h : ∀ d ∈ as.filterMap Action.sent?, f d) :
    (tftpWire t first greeting).Says f ((socket strerror).sends as) := by
  intro d hd
  obtain ⟨a, ha, hs⟩ := List.mem_filterMap.1 hd
  cases a with
  | send packet => exact .inl (h d (List.mem_filterMap.2 ⟨_, ha, hs⟩))
  | nak error =>
    cases hs
    exact .inr (nak_refusal t first greeting strerror error none)
  | _ => cases hs

end Socket

section Download

variable {oack : Option Nat} {ackbuf : Mem}

/-- The OACK, if there is one. -/
def Greeting (oack : Option Nat) (ackbuf : Mem) (d : List UInt8) : Prop :=
  ∃ oacklen, oack = some oacklen ∧ d = ackbuf.load 0 oacklen

/-- The datagrams of a download: a client that was greeted by an OACK answers with ACK 0. -/
def downloadWire (t : Transfer) (oack : Option Nat) (ackbuf : Mem) :
    Wire (List UInt8) UInt16 (List UInt8) :=
  tftpWire t (fun d => d = tftphdr ACK 0) (Greeting oack ackbuf)

/-- The OACK was sent, and stands unchanged in its buffer. -/
structure Greeted (oack : Option Nat) (ackbuf : Mem) (content : List UInt8) (s : SendState) :
    Prop where
  phase : s.phase = .option
  kept : ∃ oacklen, oack = some oacklen ∧ s.ackbuf.load 0 oacklen = ackbuf.load 0 oacklen
  file : s.file = .regular content
  block : s.block = 1

def senderView (t : Transfer) (oack : Option Nat) (ackbuf : Mem) (content : List UInt8) :
    SenderView (Config SendState Event Action) where
  At
    | c, 0 => Greeted oack ackbuf content c.state
    | c, i + 1 => Waiting t content i c.state
  Over := fun c _ => c.state.phase = .ended .completed
  Out := fun c => ∃ how, how ≠ .completed ∧ c.state.phase = .ended how

section Steps

variable {strerror : Nat → CString} {s : SendState} {c : Config SendState Event Action}
  {e : Event} {M : Machine SendState Event Action}

/-- A step that sends nothing. -/
theorem output_quiet {M : Machine σ Event Action} {c : Config σ Event Action}
    (hq : (M.step c.state e).2.filterMap (Action.datagram? strerror) = [])
    (w : Wire (List UInt8) UInt16 (List UInt8)) (f : List UInt8 → Prop) :
    w.Says f (M.output (socket strerror) c e) := by
  have hout : M.output (socket strerror) c e = [] := hq
  rw [hout]
  exact .nil w f

theorem parse_ack (m : Mem) (block : UInt16) :
    (parse m (.datagram (tftphdr ACK block))).2 = .packet ACK block := by
  have h := parse_packet m ACK block []
  rwa [List.append_nil] at h

theorem parse_refusal (m : Mem) (rest : List UInt8) :
    ∃ n, (parse m (.datagram (Mem.be16 ERROR ++ rest))).2 = .packet ERROR n := by
  refine ⟨thBlock (m.store 0 (received (Mem.be16 ERROR ++ rest))), ?_⟩
  have ho : thOpcode (m.store 0 (received (Mem.be16 ERROR ++ rest))) = ERROR :=
    Mem.u16_store m 0 ERROR (rest.take (pktsize - 2))
  simp only [parse, ho]

theorem dataStep_refusal (t : Transfer) (s : SendState) (n : UInt16) :
    dataStep t s (.packet ERROR n) = ({ s with phase := .ended .aborted }, [.endOperation]) := by
  simp only [dataStep, if_true]

theorem dataStep_ackNumber (t : Transfer) (s : SendState) (n : UInt16) :
    dataStep t s (.packet ACK n) = if n = s.block then blockAcked t s else (s, []) := by
  have he : ¬ ACK = ERROR := by decide
  simp only [dataStep, if_neg he, true_and]

theorem Waiting.received (h : Waiting t content i s) (m : Mem) :
    Waiting t content i { s with ackbuf := m } :=
  ⟨h.phase, h.buffers, h.dp, h.block, h.size, h.packet⟩

/-- The ACK of block `i` makes the sender send the next one, unless it was short. -/
theorem Waiting.acked (h : Waiting t content i s) :
    ((payload t content i).length = t.segsize →
      SendsBlock t content (i + 1) (dataStep t s (.packet ACK (bn t.rolloverVal i)))) ∧
    ((payload t content i).length ≠ t.segsize →
      dataStep t s (.packet ACK (bn t.rolloverVal i)) =
        ({ s with block := nextBlock t.rolloverVal s.block, phase := .ended .completed },
          [.incrementBlock s.size, .endOperation])) := by
  have hsize := h.size
  rw [← h.block, dataStep_ackNumber, if_pos rfl]
  constructor
  · intro hf
    rw [blockAcked_full (by omega)]
    exact readBlock_sends h.buffers h.phase (congrArg (nextBlock t.rolloverVal) h.block)
  · intro hf
    exact blockAcked_short (by omega)

theorem aborted_ne_completed : Ended.aborted ≠ .completed := by decide

theorem exited_ne_completed : Ended.exited ≠ .completed := by decide

theorem waits_sendsBlock (oack : Option Nat) (ackbuf : Mem)
    (h : SendsBlock t content i (M.step c.state e)) :
    (senderView t oack ackbuf content).Waits (downloadWire t oack ackbuf) (payload t content)
      (i + 1) (M.next c e) (M.output (socket strerror) c e) := by
  rcases h with ⟨hw, hs⟩ | ⟨ha, hs⟩
  · left
    refine ⟨hw, says_of_sent _ ?_⟩
    rw [hs]
    intro d hd
    exact List.mem_singleton.1 hd
  · right
    refine ⟨⟨_, aborted_ne_completed, ha⟩, says_of_sent _ ?_⟩
    rw [hs]
    exact nofun

/-- Without the ACK of the OACK the sender sends it again, or nothing, or gives up. -/
theorem Greeted.optionStep (h : Greeted oack ackbuf content s) (e : Parsed)
    (he : e ≠ .packet ACK 0) :
    let r := optionStep t (oack.getD 0) s e
    (Greeted oack ackbuf content r.1 ∧
      ∀ d ∈ r.2.filterMap Action.sent?, Greeting oack ackbuf d) ∨
    ((∃ how, how ≠ .completed ∧ r.1.phase = .ended how) ∧ r.2.filterMap Action.sent? = []) := by
  obtain ⟨oacklen, ho, hk⟩ := h.kept
  rcases optionStep_cases t (oack.getD 0) s e with
    ⟨timeout, sends, hs, ha⟩ | ⟨hp, hq⟩ | ⟨hn, _⟩
  · left
    constructor
    · rw [hs]
      exact ⟨h.phase, ⟨oacklen, ho, hk⟩, h.file, h.block⟩
    · rw [ha]
      intro d hd
      split at hd
      · refine ⟨oacklen, ho, ?_⟩
        rw [List.mem_singleton.1 hd, ← hk, ho]
        rfl
      · cases hd
  · exact .inr ⟨hp, hq⟩
  · exact absurd hn he

theorem Greeted.waits (h : Greeted oack ackbuf content s) (e' : Parsed) (he : e' ≠ .packet ACK 0)
    (hstep : M.step c.state e = WooTftpd.optionStep t (oack.getD 0) s e') :
    (senderView t oack ackbuf content).Waits (downloadWire t oack ackbuf) (payload t content) 0
      (M.next c e) (M.output (socket strerror) c e) := by
  have hcase := h.optionStep (t := t) e' he
  rw [← hstep] at hcase
  rcases hcase with ⟨hg, hs⟩ | ⟨ho, hq⟩
  · exact .inl ⟨hg, says_of_sent _ hs⟩
  · refine .inr ⟨ho, says_of_sent _ ?_⟩
    rw [hq]
    exact nofun

/-- While the ACK of block `i` is awaited, what is not that ACK leaves it awaited. -/
theorem Waiting.waits (h : Waiting t content i s) (oack : Option Nat) (ackbuf : Mem) (e' : Parsed)
    (he : e' ≠ .packet ACK (bn t.rolloverVal i))
    (hstep : M.step c.state e = dataStep t s e') :
    (senderView t oack ackbuf content).Waits (downloadWire t oack ackbuf) (payload t content)
      (i + 1) (M.next c e) (M.output (socket strerror) c e) := by
  have hcase := h.step e'
  rw [← hstep] at hcase
  rcases hcase with ⟨_, hs⟩ | ⟨hack, _⟩ | ⟨hack, _⟩ | ⟨hq, hst⟩
  · exact waits_sendsBlock oack ackbuf hs
  · exact absurd hack he
  · exact absurd hack he
  · have hsent (f : List UInt8 → Prop) :
        (downloadWire t oack ackbuf).Says f (M.output (socket strerror) c e) := by
      apply says_of_sent
      rw [hq]
      exact nofun
    rcases hst with hw | ho | ho
    · exact .inl ⟨hw, hsent _⟩
    · exact .inr ⟨⟨_, exited_ne_completed, ho⟩, hsent _⟩
    · exact .inr ⟨⟨_, aborted_ne_completed, ho⟩, hsent _⟩

end Steps

section

variable {strerror : Nat → CString} {c : Config SendState Event Action} {e : Event}

theorem sendfile_optionStep (t : Transfer) (oack : Option Nat) (ackbuf : Mem) (f : InFile)
    (h : c.state.phase = .option) (e : Event) :
    (tftpSendfile t oack ackbuf f).step c.state e =
      optionStep t (oack.getD 0) { c.state with ackbuf := (parse c.state.ackbuf e).1 }
        (parse c.state.ackbuf e).2 := sendStep_option h t _ e

theorem sendfile_dataStep (t : Transfer) (oack : Option Nat) (ackbuf : Mem) (f : InFile)
    (h : c.state.phase = .data) (e : Event) :
    (tftpSendfile t oack ackbuf f).step c.state e =
      dataStep t { c.state with ackbuf := (parse c.state.ackbuf e).1 }
        (parse c.state.ackbuf e).2 := sendStep_data h t _ e

theorem own_parse (h : e.own = true) (m : Mem) (n : UInt16) :
    (parse m e).1 = m ∧ (parse m e).2 ≠ .packet ACK n := by
  cases e with
  | timeout => exact ⟨rfl, Parsed.noConfusion⟩
  | recvError => exact ⟨rfl, Parsed.noConfusion⟩
  | datagram d => cases h

theorem sendfile_own (h : (senderView t oack ackbuf content).At c p) (he : e.own = true) :
    let M := tftpSendfile t oack ackbuf (.regular content)
    (senderView t oack ackbuf content).Waits (downloadWire t oack ackbuf) (payload t content) p
      (M.next c e) (M.output (socket strerror) c e) := by
  cases p with
  | zero =>
    have hg : Greeted oack ackbuf content c.state := h
    obtain ⟨hm, hn⟩ := own_parse he c.state.ackbuf 0
    refine Greeted.waits (s := { c.state with ackbuf := (parse c.state.ackbuf e).1 }) ?_ _ hn
      (sendfile_optionStep t oack ackbuf _ hg.phase e)
    rw [hm]
    exact hg
  | succ i =>
    have hw : Waiting t content i c.state := h
    exact (hw.received _).waits oack ackbuf _ (own_parse he _ _).2
      (sendfile_dataStep t oack ackbuf _ hw.phase e)

/-- A reply from before is the ACK of an earlier block, or ACK 0. -/
theorem downloadWire_reply (h : (downloadWire t oack ackbuf).reply j b) :
    b = tftphdr ACK ((downloadWire t oack ackbuf).num j) := by
  cases j with
  | zero => exact h
  | succ j => exact h

theorem sendfile_old (h : (senderView t oack ackbuf content).At c p) (hj : j < p)
    (hn : (downloadWire t oack ackbuf).num j ≠ (downloadWire t oack ackbuf).num p)
    (hb : (downloadWire t oack ackbuf).reply j b) :
    let M := tftpSendfile t oack ackbuf (.regular content)
    (senderView t oack ackbuf content).Waits (downloadWire t oack ackbuf) (payload t content) p
      (M.next c (.datagram b)) (M.output (socket strerror) c (.datagram b)) := by
  cases p with
  | zero => exact absurd hj (Nat.not_lt_zero j)
  | succ i =>
    have hw : Waiting t content i c.state := h
    refine (hw.received _).waits oack ackbuf _ ?_ (sendfile_dataStep t oack ackbuf _ hw.phase _)
    rw [downloadWire_reply hb, parse_ack]
    intro he
    exact hn (Parsed.packet.inj he).2

theorem sendfile_acked (h : (senderView t oack ackbuf content).At c p)
    (hm : ¬ (downloadWire t oack ackbuf).Ends (payload t content) p)
    (hb : (downloadWire t oack ackbuf).reply p b) :
    let M := tftpSendfile t oack ackbuf (.regular content)
    (senderView t oack ackbuf content).Waits (downloadWire t oack ackbuf) (payload t content)
      (p + 1) (M.next c (.datagram b)) (M.output (socket strerror) c (.datagram b)) := by
  have hack := downloadWire_reply hb
  cases p with
  | zero =>
    have hg : Greeted oack ackbuf content c.state := h
    apply waits_sendsBlock
    rw [sendfile_optionStep t oack ackbuf _ hg.phase, hack, parse_ack]
    exact startData_sends t content hg.file hg.block
  | succ i =>
    have hw : Waiting t content i c.state := h
    apply waits_sendsBlock
    rw [sendfile_dataStep t oack ackbuf _ hw.phase, hack, parse_ack]
    exact (hw.received _).acked.1 (not_not.1 hm)

theorem sendfile_ended (h : (senderView t oack ackbuf content).At c p)
    (hm : (downloadWire t oack ackbuf).Ends (payload t content) p)
    (hb : (downloadWire t oack ackbuf).reply p b) :
    let M := tftpSendfile t oack ackbuf (.regular content)
    (senderView t oack ackbuf content).Over (M.next c (.datagram b)) p ∧
      (downloadWire t oack ackbuf).Says (fun _ => False)
        (M.output (socket strerror) c (.datagram b)) := by
  have hack := downloadWire_reply hb
  cases p with
  | zero => exact hm.elim
  | succ i =>
    have hw : Waiting t content i c.state := h
    have hstep := sendfile_dataStep t oack ackbuf (.regular content) hw.phase (.datagram b)
    rw [hack, parse_ack] at hstep
    have hdone := hstep.trans ((hw.received _).acked.2 hm)
    rw [← hack] at hdone
    constructor
    · simp only [senderView, Machine.next, hdone]
    · apply output_quiet
      rw [hdone]
      rfl

theorem sendfile_refused (h : (senderView t oack ackbuf content).At c p)
    (hb : (downloadWire t oack ackbuf).refusal b) :
    let M := tftpSendfile t oack ackbuf (.regular content)
    (senderView t oack ackbuf content).Waits (downloadWire t oack ackbuf) (payload t content) p
      (M.next c (.datagram b)) (M.output (socket strerror) c (.datagram b)) := by
  intro M
  obtain ⟨rest, rfl⟩ := hb
  obtain ⟨n, hn⟩ := parse_refusal c.state.ackbuf rest
  have habort : (M.step c.state (.datagram (Mem.be16 ERROR ++ rest))).1.phase = .ended .aborted ∧
      (M.step c.state (.datagram (Mem.be16 ERROR ++ rest))).2 = [.endOperation] := by
    cases p with
    | zero =>
      have hg : Greeted oack ackbuf content c.state := h
      rw [sendfile_optionStep t oack ackbuf _ hg.phase, hn]
      simp only [optionStep, if_true, and_self]
    | succ i =>
      have hw : Waiting t content i c.state := h
      rw [sendfile_dataStep t oack ackbuf _ hw.phase, hn, dataStep_refusal]
      exact ⟨rfl, rfl⟩
  refine .inr ⟨⟨_, aborted_ne_completed, habort.1⟩, output_quiet ?_ _ _⟩
  rw [habort.2]
  rfl

variable (t content oack ackbuf strerror) in
theorem sendfile_idle (h : c.state.phase = .ended how) (e : Event)
    (w : Wire (List UInt8) UInt16 (List UInt8)) (f : List UInt8 → Prop) :
    let M := tftpSendfile t oack ackbuf (.regular content)
    M.next c e = c ∧ w.Says f (M.output (socket strerror) c e) := by
  intro M
  have hstep : M.step c.state e = (c.state, []) := sendStep_ended h t (oack.getD 0) e
  refine ⟨tftpSendfile_ended t oack ackbuf _ h e, output_quiet ?_ w f⟩
  rw [hstep]
  rfl

end

theorem sendfile_start (t : Transfer) (oack : Option Nat) (ackbuf : Mem) (content : List UInt8)
    (strerror : Nat → CString) :
    let M := tftpSendfile t oack ackbuf (.regular content)
    ∃ p ≤ 1, (senderView t oack ackbuf content).Waits (downloadWire t oack ackbuf)
      (payload t content) p M.init ((socket strerror).sends M.start.2) := by
  cases oack with
  | none =>
    refine ⟨1, Nat.le_refl 1, ?_⟩
    rcases startData_sends t content (s := sendInit ackbuf t.rexmtval (.regular content)) rfl rfl
      with ⟨hw, hs⟩ | ⟨ha, hs⟩
    · refine .inl ⟨hw, says_of_sent _ ?_⟩
      intro d hd
      exact List.mem_singleton.1 (hs ▸ hd)
    · refine .inr ⟨⟨_, aborted_ne_completed, ha⟩, says_of_sent _ ?_⟩
      intro d hd
      exact absurd (hs ▸ hd) List.not_mem_nil
  | some oacklen =>
    refine ⟨0, Nat.zero_le 1, ?_⟩
    rcases sendOack_cases t oacklen (sendInit ackbuf t.rexmtval (.regular content)) with
      ⟨h, ha⟩ | ⟨h, hq⟩
    · refine .inl ⟨?_, says_of_sent _ ?_⟩
      · have hs : (tftpSendfile t (some oacklen) ackbuf (.regular content)).init.state =
            { sendInit ackbuf t.rexmtval (.regular content) with sends := 1 } := h
        simp only [senderView]
        rw [hs]
        exact ⟨rfl, ⟨oacklen, rfl, rfl⟩, rfl, rfl⟩
      · have hsent : ((tftpSendfile t (some oacklen) ackbuf (.regular content)).start.2).filterMap
            Action.sent? = [ackbuf.load 0 oacklen] := by
          simp only [tftpSendfile, ha]
          rfl
        rw [hsent]
        intro d hd
        exact ⟨oacklen, rfl, List.mem_singleton.1 hd⟩
    · refine .inr ⟨⟨_, aborted_ne_completed, h⟩, says_of_sent _ ?_⟩
      intro d hd
      exact absurd (hq ▸ hd) List.not_mem_nil

/-- `tftp_sendfile` keeps to the protocol. -/
theorem sendfile_sendsInTurn (t : Transfer) (oack : Option Nat) (ackbuf : Mem)
    (content : List UInt8) (strerror : Nat → CString) :
    SendsInTurn (downloadWire t oack ackbuf) (payload t content) (senderView t oack ackbuf content)
      (tftpSendfile t oack ackbuf (.regular content)) (socket strerror) where
  apart := by
    intro c p q h
    have hover : c.state.phase = .ended .completed := h
    constructor
    · intro hat
      cases q with
      | zero =>
        have hg : Greeted oack ackbuf content c.state := hat
        exact absurd (hover.symm.trans hg.phase) SendPhase.noConfusion
      | succ i =>
        have hw : Waiting t content i c.state := hat
        exact absurd (hover.symm.trans hw.phase) SendPhase.noConfusion
    · rintro ⟨how, hne, hp⟩
      exact hne (SendPhase.ended.inj (hp.symm.trans hover))
  start := sendfile_start t oack ackbuf content strerror
  own := sendfile_own
  old := sendfile_old
  acked := sendfile_acked
  ended := sendfile_ended
  refused := sendfile_refused
  finished := by
    intro c p e h
    obtain ⟨hn, hs⟩ := sendfile_idle t content oack ackbuf strerror h e
      (downloadWire t oack ackbuf) fun _ => False
    rw [hn]
    exact ⟨h, hs⟩
  out := by
    rintro c e ⟨how, hne, h⟩
    obtain ⟨hn, hs⟩ := sendfile_idle t content oack ackbuf strerror h e
      (downloadWire t oack ackbuf) fun _ => False
    rw [hn]
    exact ⟨⟨how, hne, h⟩, hs⟩

end Download

section Upload

variable {oack : Option Nat} {ackbuf : Mem} {greeting : List UInt8 → Prop}
  {c : Config RecvState Event Action} {xs : List (List UInt8)} {strerror : Nat → CString}

/-- The datagrams of an upload: the server answers the request with its OACK, or with ACK 0. -/
def uploadWire (t : Transfer) (oack : Option Nat) (ackbuf : Mem) (greeting : List UInt8 → Prop) :
    Wire (List UInt8) UInt16 (List UInt8) :=
  tftpWire t (fun d => d = firstReply oack ackbuf) greeting

/-- A packet with a header other than that of DATA. -/
def NotData (d : List UInt8) : Prop := ∃ opcode rest, d = Mem.be16 opcode ++ rest ∧ opcode ≠ DATA

structure Receives (t : Transfer) (oack : Option Nat) (ackbuf : Mem)
    (c : Config RecvState Event Action) (ds : List (List UInt8)) : Prop where
  trace : ReceiverTrace t (firstReply oack ackbuf) ds c
  expecting : Expecting t (firstReply oack ackbuf) (accepted ds) c.state
  goesOn : ¬ Uploaded c
  full : ∀ x ∈ accepted ds, x.length = t.segsize

structure HasReceived (t : Transfer) (oack : Option Nat) (ackbuf : Mem)
    (c : Config RecvState Event Action) (ds : List (List UInt8)) : Prop where
  trace : ReceiverTrace t (firstReply oack ackbuf) ds c
  stopped : (Dallying t (accepted ds) c.state ∧ Uploaded c) ∨ ∃ how, c.state.phase = .ended how
  complete : Uploaded c ↔ ∃ x ∈ accepted ds, x.length ≠ t.segsize

theorem not_short {xs : List (List UInt8)} (h : ∀ x ∈ xs, x.length = t.segsize) :
    ¬ ∃ x ∈ xs, x.length ≠ t.segsize := by
  rintro ⟨x, hx, hne⟩
  exact hne (h x hx)

def receiverView (t : Transfer) (oack : Option Nat) (ackbuf : Mem) :
    ReceiverView (Config RecvState Event Action) (List UInt8) where
  Has := fun c xs => ∃ ds, accepted ds = xs ∧ Receives t oack ackbuf c ds
  Gone := fun c xs => ∃ ds, accepted ds = xs ∧ HasReceived t oack ackbuf c ds

theorem reply_replyTo (t : Transfer) (oack : Option Nat) (ackbuf : Mem)
    (greeting : List UInt8 → Prop) (k : Nat) :
    (uploadWire t oack ackbuf greeting).reply k (replyTo t (firstReply oack ackbuf) k) := by
  cases k with
  | zero => rfl
  | succ k => rfl

theorem Replies.sent (h : Replies t first k as) (ha : as.filterMap Action.accepted? = []) :
    ∀ d ∈ as.filterMap Action.sent?, d = replyTo t first k := by
  induction as with
  | nil => exact nofun
  | cons a as ih =>
    cases a with
    | send d =>
      intro d' hd
      rcases List.mem_cons.1 hd with rfl | hd
      · exact h.1
      · exact ih h.2 ha d' hd
    | accept n x => cases ha
    | nak | setFlagUpload | setFlagDownload | incrementBlock | endOperation => exact ih h ha

theorem Replies.says (h : Replies t (firstReply oack ackbuf) k as)
    (ha : as.filterMap Action.accepted? = []) (greeting : List UInt8 → Prop) :
    (uploadWire t oack ackbuf greeting).Says ((uploadWire t oack ackbuf greeting).reply k)
      ((socket strerror).sends as) := by
  apply says_of_sent
  intro d hd
  rw [h.sent ha d hd]
  exact reply_replyTo t oack ackbuf greeting k

/-- A step that takes no block answers with the reply that is due. -/
theorem Receives.quiet {M : Machine RecvState Event Action} (h : Receives t oack ackbuf c ds)
    (greeting : List UInt8 → Prop)
    (hr : Replies t (firstReply oack ackbuf) ds.length (M.step c.state e).2)
    (ha : (M.step c.state e).2.filterMap Action.accepted? = [])
    (hu : .endOperation ∉ (M.step c.state e).2)
    (hs : Expecting t (firstReply oack ackbuf) (accepted ds) (M.step c.state e).1 ∨
      ∃ how, (M.step c.state e).1.phase = .ended how) :
    (receiverView t oack ackbuf).Answers (uploadWire t oack ackbuf greeting) (accepted ds)
      (M.next c e) (M.output (socket strerror) c e) := by
  have hup : ¬ Uploaded (M.next c e) := by
    rw [uploaded_next]
    exact not_or.2 ⟨h.goesOn, hu⟩
  constructor
  · rcases hs with he | he
    · left
      exact ⟨ds, rfl, h.trace.quiet e hr ha hu (.inl ⟨he, h.goesOn⟩), he, hup, h.full⟩
    · right
      refine ⟨ds, rfl, h.trace.quiet e hr ha hu (.inr ⟨he, ?_⟩), .inr he, ?_⟩
      · exact fun hu' => absurd hu' h.goesOn
      · exact iff_of_false hup (not_short h.full)
  · rw [length_accepted]
    exact hr.says ha greeting

/-- Whatever is not the next block is answered by the reply that is due, if at all. -/
theorem Receives.answers (h : Receives t oack ackbuf c ds) (greeting : List UInt8 → Prop)
    (strerror : Nat → CString) (e : Event)
    (he : ∀ d, e = .datagram d → ¬ SeenAsData (bn t.rolloverVal ds.length) d) :
    let M := tftpRecvfile t oack ackbuf
    (receiverView t oack ackbuf).Answers (uploadWire t oack ackbuf greeting) (accepted ds)
      (M.next c e) (M.output (socket strerror) c e) := by
  intro M
  have hstep : M.step c.state e = waitStep t (oack.getD 0) c.state e :=
    recvStep_waiting h.expecting.phase t _ e
  have hcase := h.expecting.step (oack.getD 0) e
  rw [← hstep, length_accepted] at hcase
  rcases hcase with ⟨d, hd, hseen, _⟩ | hs | ⟨hq, hst⟩
  · exact absurd hseen (he d hd)
  · obtain ⟨hr, ha, hu, hst⟩ := hs.replies
    rw [length_accepted] at hr
    apply h.quiet greeting hr ha hu
    rcases hst with hst | hst
    · exact .inl hst
    · exact .inr ⟨_, hst⟩
  · apply h.quiet greeting _ _ _ hst
    · rw [hq]
      trivial
    · rw [hq]
      rfl
    · rw [hq]
      exact List.not_mem_nil

theorem NotData.not_seen (h : NotData d) (n : UInt16) : ¬ SeenAsData n d := by
  obtain ⟨opcode, rest, rfl, hne⟩ := h
  rintro ⟨m, ho, _⟩
  have hop : thOpcode (m.store 0 (received (Mem.be16 opcode ++ rest))) = opcode :=
    Mem.u16_store m 0 opcode (rest.take (pktsize - 2))
  exact hne (hop.symm.trans ho)

/-- The end of an upload: the reply that is due, and nothing else. -/
theorem HasReceived.answers (h : HasReceived t oack ackbuf c ds) (greeting : List UInt8 → Prop)
    (strerror : Nat → CString) (e : Event) :
    let M := tftpRecvfile t oack ackbuf
    HasReceived t oack ackbuf (M.next c e) ds ∧
      (uploadWire t oack ackbuf greeting).Says
        ((uploadWire t oack ackbuf greeting).reply ds.length)
        (M.output (socket strerror) c e) := by
  intro M
  rcases h.stopped with ⟨hd, -⟩ | ⟨how, hp⟩
  · have hstep : M.step c.state e = dallyStep t c.state e := recvStep_dally hd.phase t _ e
    obtain ⟨hend, _, hacts⟩ := hd.step (firstReply oack ackbuf) e
    rw [← hstep, length_accepted] at hacts
    rw [← hstep] at hend
    have hup : Uploaded (M.next c e) ↔ Uploaded c := by
      rw [uploaded_next]
      apply or_iff_left
      intro hu
      rcases hacts with ha | ha
      · rw [ha] at hu
        cases hu
      · rw [ha] at hu
        cases List.mem_singleton.1 hu
    refine ⟨⟨h.trace.dally hd e hstep, .inr hend, hup.trans h.complete⟩, says_of_sent _ ?_⟩
    intro d hsent
    rcases hacts with ha | ha
    · rw [ha] at hsent
      cases hsent
    · rw [ha] at hsent
      rw [List.mem_singleton.1 hsent]
      exact reply_replyTo t oack ackbuf greeting ds.length
  · have hstep : M.step c.state e = (c.state, []) := recvStep_ended hp t _ e
    refine ⟨?_, says_of_sent _ ?_⟩
    · rw [tftpRecvfile_ended t oack ackbuf hp e]
      exact h
    · rw [hstep]
      exact nofun

theorem sendAck_waiting (h : s.phase = .waiting) (t : Transfer) :
    (sendAck t s).1.phase ≠ .dally := by
  simp only [sendAck]
  split
  · rw [h]
    exact RecvPhase.noConfusion
  · exact RecvPhase.noConfusion

theorem replyBlock_waiting (h : s.phase = .waiting) (t : Transfer) (oacklen : Nat) :
    (replyBlock t oacklen s).1.phase ≠ .dally := by
  apply sendAck_waiting
  dsimp only
  split
  · exact h
  · exact h

/-- The loop is left with the first block that is not full. -/
theorem blockReceived_dally_iff (h : s.phase = .waiting) (t : Transfer) (oacklen n : Nat) :
    (blockReceived t oacklen n s).1.phase = .dally ↔ (n : Int) - 4 ≠ t.segsize := by
  rw [blockReceived_eq]
  by_cases hf : (n : Int) - 4 = t.segsize
  · simp only [hf]
    refine iff_of_false (replyBlock_waiting ?_ t oacklen) (not_not.2 rfl)
    exact h
  · simp only [if_neg hf]
    exact iff_of_true rfl hf

theorem payloadOf_block (n : UInt16) (h : x.length ≤ maxSegsize) :
    payloadOf (tftphdr DATA n ++ x) = x := by
  rw [payloadOf, received_packet, List.take_of_length_le h]
  rfl

/-- The due block was taken: the next one is awaited, or the upload is over. -/
structure Took (t : Transfer) (oack : Option Nat) (ackbuf : Mem) (c : Config RecvState Event Action)
    (ds : List (List UInt8)) (as : List Action) : Prop where
  stands : Receives t oack ackbuf c ds ∨ HasReceived t oack ackbuf c ds
  sent : ∀ d ∈ as.filterMap Action.sent?, d = replyTo t (firstReply oack ackbuf) ds.length

theorem Receives.took {M : Machine RecvState Event Action} (h : Receives t oack ackbuf c ds)
    (hseen : SeenAsData (bn t.rolloverVal ds.length) d)
    (ha : Accepts t (firstReply oack ackbuf) (accepted ds) (payloadOf d)
      (M.step c.state (.datagram d)))
    (hdally : (M.step c.state (.datagram d)).1.phase = .dally ↔
      (payloadOf d).length ≠ t.segsize) :
    Took t oack ackbuf (M.next c (.datagram d)) (ds ++ [d]) (M.step c.state (.datagram d)).2 := by
  have htrace := h.trace.accept h.goesOn hseen ha
  obtain ⟨size, as, hacts, hout⟩ := ha
  rw [← accepted_concat] at hout
  have hlen : (accepted (ds ++ [d])).length = (ds ++ [d]).length := length_accepted _
  have hup : Uploaded (M.next c (.datagram d)) ↔ .endOperation ∈ as := by
    rw [uploaded_next, or_iff_right h.goesOn, hacts, List.mem_cons, List.mem_cons]
    simp only [reduceCtorEq, false_or]
  have hsent : (M.step c.state (.datagram d)).2.filterMap Action.sent? =
      as.filterMap Action.sent? := by
    rw [hacts]
    rfl
  rcases hout with hs | ⟨hd, hs⟩
  · obtain ⟨hr, hno, hne, hst⟩ := hs.replies
    rw [hlen] at hr
    rw [← hup] at hne
    have hnot : ¬ (M.step c.state (.datagram d)).1.phase = .dally := by
      rcases hst with he | he
      · rw [he.phase]
        exact RecvPhase.noConfusion
      · rw [he]
        exact RecvPhase.noConfusion
    rw [hdally, not_not] at hnot
    have hfull : ∀ x ∈ accepted (ds ++ [d]), x.length = t.segsize := by
      intro x hx
      rw [accepted_concat] at hx
      rcases List.mem_append.1 hx with hx | hx
      · exact h.full x hx
      · rw [List.mem_singleton.1 hx]
        exact hnot
    constructor
    · rcases hst with he | he
      · exact .inl ⟨htrace, he, hne, hfull⟩
      · exact .inr ⟨htrace, .inr ⟨_, he⟩, iff_of_false hne (not_short hfull)⟩
    · rw [hsent]
      exact hr.sent hno
  · have hover : Uploaded (M.next c (.datagram d)) := by
      rw [hup]
      rcases hs with hs | hs
      · rw [hs]
        exact List.mem_cons_self
      · rw [hs]
        exact List.mem_cons_self
    constructor
    · right
      refine ⟨htrace, .inl ⟨hd, hover⟩, iff_of_true hover ⟨payloadOf d, ?_, hdally.1 hd.phase⟩⟩
      rw [accepted_concat]
      exact List.mem_append_right _ (List.mem_singleton_self _)
    · rw [hsent]
      intro d' hd'
      rw [hlen] at hs
      rcases hs with hs | hs
      · rw [hs] at hd'
        exact List.mem_singleton.1 hd'
      · rw [hs] at hd'
        cases hd'

theorem length_received_block (n : UInt16) (h : x.length ≤ maxSegsize) :
    (received (tftphdr DATA n ++ x)).length = x.length + 4 := by
  rw [received_packet, List.take_of_length_le h, List.length_append, length_tftphdr, Nat.add_comm]

theorem Receives.blockStep (h : Receives t oack ackbuf c ds) (hx : x.length ≤ maxSegsize)
    (hd : d = tftphdr DATA (bn t.rolloverVal ds.length) ++ x) :
    (tftpRecvfile t oack ackbuf).step c.state (.datagram d) =
      blockReceived t (oack.getD 0) (x.length + 4) (recvDatagram d c.state) := by
  have hblock := h.expecting.block
  rw [length_accepted] at hblock
  refine (recvStep_waiting h.expecting.phase t _ _).trans ?_
  rw [hd, waitStep_data, if_pos hblock.symm, length_received_block _ hx]

theorem Receives.takes (h : Receives t oack ackbuf c ds) (hx : x.length ≤ maxSegsize)
    (hd : d = tftphdr DATA (bn t.rolloverVal ds.length) ++ x) :
    let M := tftpRecvfile t oack ackbuf
    accepted (ds ++ [d]) = accepted ds ++ [x] ∧
      Took t oack ackbuf (M.next c (.datagram d)) (ds ++ [d]) (M.step c.state (.datagram d)).2 := by
  intro M
  obtain ⟨hop, hdb⟩ := recvDatagram_data c.state (bn t.rolloverVal ds.length) x
  have hpay : payloadOf d = x := by
    rw [hd]
    exact payloadOf_block _ hx
  have hstep : M.step c.state (.datagram d) = _ := h.blockStep hx hd
  have hlen := length_received_block (bn t.rolloverVal ds.length) hx
  rw [← hd] at hop hdb hlen
  have hdb' := hdb
  rw [← length_accepted ds] at hdb'
  have ha := h.expecting.blockReceived d hdb' (oack.getD 0)
  have hphase : (recvDatagram d c.state).phase = .waiting := h.expecting.phase
  have hdally := blockReceived_dally_iff hphase t (oack.getD 0) (x.length + 4)
  rw [hlen, ← hstep] at ha
  rw [← hstep] at hdally
  have hshort : (M.step c.state (.datagram d)).1.phase = .dally ↔
      (payloadOf d).length ≠ t.segsize := by
    rw [hdally, hpay]
    omega
  refine ⟨?_, h.took ⟨_, hop, hdb⟩ ha hshort⟩
  rw [accepted_concat, hpay]

theorem Receives.next (h : Receives t oack ackbuf c ds) (greeting : List UInt8 → Prop)
    (hx : x.length ≤ maxSegsize)
    (hd : d = tftphdr DATA (bn t.rolloverVal ds.length) ++ x) :
    let M := tftpRecvfile t oack ackbuf
    (receiverView t oack ackbuf).Answers (uploadWire t oack ackbuf greeting) (accepted ds ++ [x])
      (M.next c (.datagram d)) (M.output (socket strerror) c (.datagram d)) := by
  intro M
  obtain ⟨hacc, hst, hsent⟩ := h.takes hx hd
  constructor
  · rcases hst with hr | hr
    · exact .inl ⟨_, hacc, hr⟩
    · exact .inr ⟨_, hacc, hr⟩
  · apply says_of_sent
    intro d' hd'
    rw [hsent d' hd', ← hacc, length_accepted]
    exact reply_replyTo t oack ackbuf greeting _

theorem recvfile_start (t : Transfer) (oack : Option Nat) (ackbuf : Mem)
    (greeting : List UInt8 → Prop) (strerror : Nat → CString) :
    let M := tftpRecvfile t oack ackbuf
    (receiverView t oack ackbuf).Answers (uploadWire t oack ackbuf greeting) []
      M.init ((socket strerror).sends M.start.2) := by
  intro M
  have htrace := ReceiverTrace.start t oack ackbuf
  obtain ⟨hr, hno, hne, hst⟩ := (replyBlock_first t oack ackbuf t.bufsiz t.rexmtval).replies
  have hup : ¬ Uploaded M.init := by
    rw [Uploaded, Machine.log_init]
    intro hu
    rcases List.mem_cons.1 hu with hu | hu
    · cases hu
    · exact hne hu
  constructor
  · rcases hst with he | he
    · exact .inl ⟨[], rfl, htrace, he, hup, List.forall_mem_nil _⟩
    · refine .inr ⟨[], rfl, htrace, .inr ⟨_, he⟩, iff_of_false hup (not_short ?_)⟩
      exact List.forall_mem_nil _
  · have hreplies : Replies t (firstReply oack ackbuf) 0 M.start.2 := hr
    exact hreplies.says hno greeting

/-- `tftp_recvfile` keeps to the protocol. -/
theorem recvfile_takesInTurn (t : Transfer) (oack : Option Nat) (ackbuf : Mem)
    (greeting : List UInt8 → Prop) (hg : ∀ d, greeting d → NotData d) (strerror : Nat → CString) :
    TakesInTurn (uploadWire t oack ackbuf greeting) (receiverView t oack ackbuf)
      (tftpRecvfile t oack ackbuf) (socket strerror) where
  start := recvfile_start t oack ackbuf greeting strerror
  goesOn := by
    rintro c xs ⟨ds, rfl, h⟩ x hx
    exact not_not.2 (h.full x hx)
  own := by
    rintro c xs e ⟨ds, rfl, h⟩ he
    apply h.answers greeting strerror
    rintro d rfl
    cases he
  greeted := by
    rintro c xs d ⟨ds, rfl, h⟩ hd
    apply h.answers greeting strerror
    rintro _ ⟨⟩
    exact (hg d hd).not_seen _
  other := by
    rintro c xs x n ⟨ds, rfl, h⟩ _ hn
    apply h.answers greeting strerror
    rintro _ ⟨⟩ hseen
    rw [length_accepted] at hn
    exact hn hseen.header.2
  next := by
    rintro c xs x d ⟨ds, rfl, h⟩ hx hd
    rw [length_accepted] at hd
    exact h.next greeting hx hd
  refused := by
    rintro c xs d ⟨ds, rfl, h⟩ ⟨rest, hd⟩
    apply h.answers greeting strerror
    rintro _ ⟨⟩
    exact NotData.not_seen ⟨ERROR, rest, hd, by decide⟩ _
  gone := by
    rintro c xs e ⟨ds, rfl, h⟩
    obtain ⟨hr, hs⟩ := h.answers greeting strerror e
    rw [length_accepted]
    exact ⟨⟨ds, rfl, hr⟩, hs⟩

end Upload

end WooTftpd
