import WooTftpd.Rollover

namespace WooTftpd
open Lib
set_option autoImplicit true

/-- Shorter than a header, or a DATA packet with more than a block of data. -/
def Malformed (segsize : Nat) (d : List UInt8) : Prop :=
  d.length < 4 ∨ ∃ block payload, d = tftphdr DATA block ++ payload ∧ segsize < payload.length

/-- The four bytes that are read as the header of `d`: a short datagram is completed by what
the buffer held before. -/
def headerOver (m : Mem) (d : List UInt8) : List UInt8 :=
  d.take 4 ++ m.load d.length (4 - d.length)

theorem take_received (d : List UInt8) (h : n ≤ pktsize) : (received d).take n = d.take n := by
  rw [received, List.take_take, Nat.min_eq_left h]

theorem load_received (m : Mem) (d : List UInt8) :
    (m.store 0 (received d)).load 0 4 = headerOver m d := by
  have hpkt : 4 ≤ pktsize := by decide
  by_cases hd : 4 ≤ d.length
  · have hr : 4 ≤ (received d).length := by
      rw [received, List.length_take]
      omega
    rw [Mem.load_store_take m 0 _ hr, take_received d hpkt, headerOver, Nat.sub_eq_zero_of_le hd]
    exact (List.append_nil _).symm
  · have hr : received d = d := List.take_of_length_le (by omega)
    have hsplit : 4 = d.length + (4 - d.length) := by omega
    rw [hr, headerOver, List.take_of_length_le (by omega)]
    nth_rewrite 1 [hsplit]
    rw [Mem.load_add, Mem.load_store, Nat.zero_add,
      Mem.load_store_disjoint _ _ (.inr (Nat.le_of_eq (Nat.zero_add _)))]

theorem load_eq_tftphdr_iff (m : Mem) (opcode block : UInt16) :
    m.load 0 4 = tftphdr opcode block ↔ thOpcode m = opcode ∧ thBlock m = block := by
  have hsplit : m.load 0 4 = m.load 0 2 ++ m.load 2 2 := Mem.load_add m 0 2 2
  rw [hsplit, thOpcode, thBlock, Mem.u16_eq_iff, Mem.u16_eq_iff]
  constructor
  · intro h
    exact List.append_inj h rfl
  · rintro ⟨ho, hb⟩
    rw [ho, hb]
    rfl

theorem headerOver_eq_tftphdr_iff (m : Mem) (d : List UInt8) (opcode block : UInt16) :
    headerOver m d = tftphdr opcode block ↔
      (parse m (.datagram d)).2 = .packet opcode block := by
  rw [← load_received, load_eq_tftphdr_iff]
  simp only [parse, Parsed.packet.injEq]

section Sender

variable {t : Transfer} {s : SendState}

def SendState.awaited (s : SendState) : Option (List UInt8) :=
  match s.phase with
  | .option => some (tftphdr ACK 0)
  | .data => some (tftphdr ACK s.block)
  | .ended _ => none

/-- A step that acknowledges nothing: what was read of the file and what is kept of it in the
buffers stays, and the transfer can only be aborted. -/
structure SenderKept (s : SendState) (r : SendState × List Action) : Prop where
  block : r.1.block = s.block
  file : r.1.file = s.file
  subs : r.1.subs = s.subs
  phase : r.1.phase = s.phase ∨ r.1.phase = .ended .aborted
  acked : r.2.filterMap Action.acked? = []

theorem readAhead_current (convert : Bool) (segsize : Nat) (s : Subs) (f : InFile) :
    (readAhead convert segsize s f).1.current = s.current := by
  simp only [readAhead]
  split
  · rfl
  split
  · rfl
  split
  · rfl
  · rfl

theorem readit_current (convert : Bool) (segsize : Nat) (s : Subs) (f : InFile) :
    (readit convert segsize s f).1.current = !s.current := by
  simp only [readit]
  split
  · exact readAhead_current _ _ _ _
  · rfl

theorem readBlock_current (t : Transfer) (s : SendState) :
    (readBlock t s).1.subs.current = !s.subs.current := by
  have hr := readit_current t.convert t.segsize s.subs s.file
  simp only [readBlock]
  split
  · exact hr
  · simp only [sendData]
    split
    · exact (readAhead_current _ _ _ _).trans hr
    · exact hr

theorem startData_current (t : Transfer) (s : SendState) :
    (startData t s).1.subs.current = true := readBlock_current t _

theorem sendOack_kept (t : Transfer) (oacklen : Nat) (s : SendState) (m : Mem) :
    SenderKept s (sendOack t oacklen { s with ackbuf := m }) := by
  simp only [sendOack]
  split
  · exact ⟨rfl, rfl, rfl, .inl rfl, rfl⟩
  · exact ⟨rfl, rfl, rfl, .inr rfl, rfl⟩

/-- In the option phase the buffers are not in use yet. -/
theorem optionStep_kept_iff (oacklen : Nat) (m : Mem) (opcode block : UInt16)
    (hs : s.subs.current = false) :
    SenderKept s (optionStep t oacklen { s with ackbuf := m } (.packet opcode block)) ↔
      ¬ Parsed.packet opcode block = .packet ACK 0 := by
  simp only [optionStep, Parsed.packet.injEq]
  have herr : ERROR ≠ ACK := by decide
  by_cases he : opcode = ERROR
  · rw [if_pos he]
    exact iff_of_true ⟨rfl, rfl, rfl, .inr rfl, rfl⟩ fun h => herr (he.symm.trans h.1)
  rw [if_neg he]
  by_cases ha : opcode = ACK
  · rw [if_pos ha]
    by_cases hb : block = 0
    · rw [if_pos hb]
      apply iff_of_false _ (not_not.2 ⟨ha, hb⟩)
      intro hk
      have hcur := congrArg Subs.current hk.subs
      rw [startData_current, hs] at hcur
      cases hcur
    · rw [if_neg hb]
      exact iff_of_true (sendOack_kept t oacklen s m) fun h => hb h.2
  · rw [if_neg ha]
    exact iff_of_true ⟨rfl, rfl, rfl, .inl rfl, rfl⟩ fun h => ha h.1

theorem dataStep_kept_iff (m : Mem) (opcode block : UInt16) :
    SenderKept s (dataStep t { s with ackbuf := m } (.packet opcode block)) ↔
      ¬ Parsed.packet opcode block = .packet ACK s.block := by
  simp only [dataStep, Parsed.packet.injEq]
  have herr : ERROR ≠ ACK := by decide
  by_cases he : opcode = ERROR
  · rw [if_pos he]
    exact iff_of_true ⟨rfl, rfl, rfl, .inr rfl, rfl⟩ fun h => herr (he.symm.trans h.1)
  rw [if_neg he]
  by_cases ha : opcode = ACK ∧ block = s.block
  · rw [if_pos ha]
    apply iff_of_false _ (not_not.2 ha)
    intro hk
    have hacked := hk.acked
    rw [(blockAcked_acked t { s with ackbuf := m }).2] at hacked
    cases hacked
  · rw [if_neg ha]
    exact iff_of_true ⟨rfl, rfl, rfl, .inl rfl, rfl⟩ ha

theorem sendStep_kept_iff (oacklen : Nat) (d : List UInt8)
    (hs : s.phase = .option → s.subs.current = false) :
    SenderKept s (sendStep t oacklen s (.datagram d)) ↔
      s.awaited ≠ some (headerOver s.ackbuf d) := by
  simp only [ne_eq, SendState.awaited]
  cases hp : s.phase with
  | ended how =>
    rw [sendStep_ended hp]
    exact iff_of_true ⟨rfl, rfl, rfl, .inl rfl, rfl⟩ nofun
  | option =>
    rw [sendStep_option hp, Option.some_inj, eq_comm, headerOver_eq_tftphdr_iff]
    exact optionStep_kept_iff oacklen _ _ _ (hs hp)
  | data =>
    rw [sendStep_data hp, Option.some_inj, eq_comm, headerOver_eq_tftphdr_iff]
    exact dataStep_kept_iff _ _ _

theorem sendStep_option_subs (t : Transfer) (oacklen : Nat) (s : SendState) (e : Event)
    (h : (sendStep t oacklen s e).1.phase = .option) :
    s.phase = .option ∧ (sendStep t oacklen s e).1.subs = s.subs := by
  obtain ⟨hp, _⟩ := sendStep_stays h
  refine ⟨hp, ?_⟩
  rw [sendStep_option hp] at h ⊢
  rcases optionStep_cases t oacklen { s with ackbuf := (parse s.ackbuf e).1 }
    (parse s.ackbuf e).2 with ⟨timeout, sends, hr, _⟩ | ⟨⟨how, _, hd⟩, _⟩ | ⟨_, hd⟩
  · rw [hr]
  · rw [hd] at h
    cases h
  · rw [hd] at h
    exact absurd h (startData_phase _ _)

theorem sendfile_option_subs (t : Transfer) (oack : Option Nat) (ackbuf : Mem) (f : InFile)
    (es : List Event) :
    let s := ((tftpSendfile t oack ackbuf f).run es).state
    s.phase = .option → s.subs.current = false := by
  apply (tftpSendfile t oack ackbuf f).run_induction
    (P := fun _ c => c.state.phase = .option → c.state.subs.current = false)
  · intro h
    cases oack with
    | none => exact absurd h (startData_phase t _)
    | some oacklen =>
      rcases sendOack_cases t oacklen (sendInit ackbuf t.rexmtval f) with ⟨hs, _⟩ | ⟨hd, _⟩
      · exact congrArg (fun s : SendState => s.subs.current) hs
      · cases hd.symm.trans h
  · intro es e ih h
    obtain ⟨hp, hs⟩ := sendStep_option_subs t (oack.getD 0) _ e h
    exact (congrArg Subs.current hs).trans (ih hp)

end Sender

section Receiver

variable {t : Transfer} {s : RecvState}

def RecvState.awaited (s : RecvState) : Option (List UInt8) :=
  match s.phase with
  | .waiting => some (tftphdr DATA s.block)
  | _ => none

/-- A step that accepts nothing: of the buffers only the one that packets are received into
changes, and a transfer that is going on can only be aborted. -/
structure ReceiverKept (s : RecvState) (r : RecvState × List Action) : Prop where
  block : r.1.block = s.block
  file : r.1.file = s.file
  subs : ∃ m, r.1.subs = s.subs.setBuf s.subs.current m
  phase : s.phase = .waiting → r.1.phase = .waiting ∨ r.1.phase = .ended .aborted
  accepted : r.2.filterMap Action.accepted? = []
  acked : r.2.filterMap Action.acked? = []
  going : .endOperation ∉ r.2

/-- Nothing is left to be written behind while a block is awaited. -/
structure Flushed (s : Subs) : Prop where
  nextone : s.nextone = s.current
  alloc : (s.bfs s.current).counter = bfAlloc
  free : (s.bfs (!s.current)).counter = bfFree

def Idle (s : RecvState) : Prop := s.phase = .waiting → s.dp = s.subs.current ∧ Flushed s.subs

theorem Flushed.setBuf {s : Subs} (h : Flushed s) (m : Mem) :
    Flushed (s.setBuf s.current m) where
  nextone := h.nextone
  alloc := by
    simpa only [Subs.setBuf, Subs.setBf_current, Subs.setBf_same] using h.alloc
  free := by
    simpa only [Subs.setBuf, Subs.setBf_current, Subs.setBf_not] using h.free

theorem Flushed.writeBehind {s : Subs} (h : Flushed s) (fl : Faults) (convert : Bool)
    (f : OutFile) : writeBehind fl convert s f = (s, f, 0) := by
  have hlt : (s.bfs s.nextone).counter < -1 := by
    rw [h.nextone, h.alloc]
    decide
  simp only [WooTftpd.writeBehind, if_pos hlt]

theorem writeBehind_flushed {s : Subs} (fl : Faults) (convert : Bool) (f : OutFile)
    (ha : (s.bfs s.current).counter = bfAlloc) (hn : s.nextone = !s.current)
    (hc : 0 ≤ (s.bfs (!s.current)).counter) : Flushed (writeBehind fl convert s f).1 := by
  have hge : ¬ (s.bfs (!s.current)).counter < -1 := by omega
  have hturn {prevchar : Option UInt8} : Flushed { s.setCounter (!s.current) bfFree with
      nextone := !!s.current, prevchar := prevchar } := by
    constructor
    · exact Bool.not_not _
    · have ho := Subs.setBf_not s (!s.current) { s.bfs (!s.current) with counter := bfFree }
      rw [Bool.not_not] at ho
      exact (congrArg Bf.counter ho).trans ha
    · exact congrArg Bf.counter (Subs.setBf_same s (!s.current) _)
  simp only [writeBehind, hn, if_neg hge]
  split
  · exact hturn
  split
  · exact hturn
  · exact hturn

/-- A full block goes to the buffer behind and is written before the next one is awaited. -/
theorem Flushed.writeit {s : Subs} (h : Flushed s) (fl : Faults) (convert : Bool) (n : Nat)
    (f : OutFile) :
    let s' := (writeit fl convert n s f).1
    (s'.bfs s'.current).counter = bfAlloc ∧ s'.nextone = !s'.current ∧
      0 ≤ (s'.bfs (!s'.current)).counter := by
  let s₁ : Subs := { s.setCounter s.current n with current := !s.current }
  have hfree : ¬ (s₁.bfs s₁.current).counter ≠ bfFree := by
    simp only [s₁, Subs.setCounter, Subs.setBf_not, ne_eq, not_not]
    exact h.free
  have hheld : (s₁.bfs (!s₁.current)).counter = n := by
    simp only [s₁, Bool.not_not, Subs.setCounter, Subs.setBf_same]
  simp only [WooTftpd.writeit]
  rw [if_neg hfree]
  refine ⟨by simp only [Subs.setCounter, Subs.setBf_current, Subs.setBf_same], ?_, ?_⟩
  · simp only [Subs.setCounter, Subs.setBf_current, Subs.setBf_nextone, h.nextone, Bool.not_not]
  · simp only [Subs.setCounter, Subs.setBf_current, Subs.setBf_not]
    exact Int.le_trans (Int.natCast_nonneg n) (Int.le_of_eq hheld.symm)

theorem sendAck_idle (hd : s.dp = s.subs.current)
    (h : Flushed (writeBehind t.faults t.convert s.subs s.file).1) :
    Idle (sendAck t s).1 := by
  intro hp
  simp only [sendAck] at hp ⊢
  split
  · exact ⟨hd.trans (writeBehind_current _ _ _ _).symm, h⟩
  · rename_i ho
    rw [if_neg ho] at hp
    cases hp

theorem Flushed.sendAck (h : Flushed s.subs) (hd : s.dp = s.subs.current) :
    Idle (sendAck t s).1 := by
  apply sendAck_idle hd
  rw [h.writeBehind]
  exact h

theorem replyBlock_idle (oacklen : Nat) (hd : s.dp = s.subs.current)
    (h : Flushed (writeBehind t.faults t.convert s.subs s.file).1) :
    Idle (replyBlock t oacklen s).1 := by
  simp only [replyBlock]
  split
  · exact sendAck_idle hd h
  · exact sendAck_idle hd h

theorem Flushed.blockReceived (h : Flushed s.subs) (oacklen n : Nat) :
    Idle (blockReceived t oacklen n s).1 := by
  rw [blockReceived_eq]
  dsimp only
  split
  · rename_i hct
    obtain ⟨ha, hn, hc⟩ := h.writeit t.faults t.convert t.segsize s.file
    rw [hct]
    exact replyBlock_idle oacklen rfl (writeBehind_flushed _ _ _ ha hn hc)
  · intro hp
    cases hp

theorem Flushed.recv (h : Flushed s.subs) (hd : s.dp = s.subs.current) (d : List UInt8) :
    Flushed (recvDatagram d s).subs := by
  simp only [recvDatagram, hd]
  exact h.setBuf _

theorem Flushed.waitStep (h : Flushed s.subs) (hd : s.dp = s.subs.current) (oacklen : Nat)
    (e : Event) : Idle (waitStep t oacklen s e).1 := by
  have hnot {how : Ended} {s : RecvState} : Idle { s with phase := .ended how } := nofun
  cases e with
  | timeout =>
    simp only [WooTftpd.waitStep]
    split
    · exact hnot
    · exact Flushed.sendAck (s := { s with timeout := _ }) h hd
  | recvError => exact hnot
  | datagram d =>
    have hr := h.recv hd d
    rw [waitStep_datagram]
    dsimp only
    repeat' split
    · exact hnot
    · exact hr.blockReceived oacklen _
    · exact hr.sendAck hd
    · exact fun _ => ⟨hd, hr⟩
    · exact fun _ => ⟨hd, hr⟩

theorem recvfile_idle (t : Transfer) (oack : Option Nat) (ackbuf : Mem) (es : List Event) :
    Idle ((tftpRecvfile t oack ackbuf).run es).state := by
  apply (tftpRecvfile t oack ackbuf).run_induction (P := fun _ c => Idle c.state)
  · apply replyBlock_idle (oack.getD 0) rfl
    have h : Flushed (wInit .static) := ⟨rfl, rfl, rfl⟩
    exact (congrArg Prod.fst (h.writeBehind t.faults t.convert (.truncated t.bufsiz))) ▸ h
  · intro es e ih
    simp only [Machine.next, tftpRecvfile]
    cases hp : ((tftpRecvfile t oack ackbuf).run es).state.phase with
    | waiting =>
      obtain ⟨hd, hf⟩ := ih hp
      rw [← tftpRecvfile, recvStep_waiting hp]
      exact hf.waitStep hd _ e
    | dally =>
      rw [← tftpRecvfile, recvStep_dally hp]
      intro hw
      cases e <;> cases hw
    | ended how =>
      rw [← tftpRecvfile, recvStep_ended hp]
      exact ih

theorem Subs.setBuf_self (s : Subs) (i : Bool) : s.setBuf i (s.bfs i).buf = s := by
  simp only [Subs.setBuf, Subs.setBf, Function.update_eq_self]

theorem recvDatagram_kept (hd : s.dp = s.subs.current) (d : List UInt8)
    (hp : p = .waiting ∨ p = .ended .aborted) :
    ReceiverKept s ({ recvDatagram d s with phase := p }, []) where
  block := rfl
  file := rfl
  subs := by
    simp only [recvDatagram, hd]
    exact ⟨_, rfl⟩
  phase := fun _ => hp
  accepted := rfl
  acked := rfl
  going := List.not_mem_nil

theorem recvDatagram_phase (d : List UInt8) (s : RecvState) :
    { recvDatagram d s with phase := s.phase } = recvDatagram d s := rfl

theorem sendAck_kept (hp : s.phase = .waiting) (hd : s.dp = s.subs.current)
    (h : Flushed s.subs) (d : List UInt8) :
    ReceiverKept s (sendAck t (recvDatagram d s)) := by
  have hsub : ∃ m, (recvDatagram d s).subs = s.subs.setBuf s.subs.current m := by
    simp only [recvDatagram, hd]
    exact ⟨_, rfl⟩
  simp only [sendAck]
  rw [(h.recv hd d).writeBehind]
  split
  · exact ⟨rfl, rfl, hsub, fun _ => .inl hp, rfl, rfl, by simp⟩
  · exact ⟨rfl, rfl, hsub, fun _ => .inr rfl, rfl, rfl, List.not_mem_nil⟩

theorem waitStep_kept_iff (hp : s.phase = .waiting) (hd : s.dp = s.subs.current)
    (h : Flushed s.subs) (oacklen : Nat) (d : List UInt8) :
    ReceiverKept s (waitStep t oacklen s (.datagram d)) ↔
      ¬ ((recvDatagram d s).dpOpcode = DATA ∧ (recvDatagram d s).dpBlock = s.block) := by
  have hsame : ReceiverKept s (recvDatagram d s, []) := by
    have hk := recvDatagram_kept hd d (.inl hp)
    rwa [recvDatagram_phase] at hk
  have herr : ERROR ≠ DATA := by decide
  rw [waitStep_datagram]
  dsimp only
  by_cases he : (recvDatagram d s).dpOpcode = ERROR
  · rw [if_pos he]
    exact iff_of_true (recvDatagram_kept hd d (.inr rfl)) fun hc => herr (he.symm.trans hc.1)
  rw [if_neg he]
  by_cases ho : (recvDatagram d s).dpOpcode = DATA
  · rw [if_pos ho]
    by_cases hb : (recvDatagram d s).dpBlock = s.block
    · rw [if_pos hb]
      apply iff_of_false _ (not_not.2 ⟨ho, hb⟩)
      intro hk
      have ha := hk.accepted
      rw [blockReceived_eq] at ha
      cases ha
    · rw [if_neg hb]
      apply iff_of_true _ fun hc => hb hc.2
      split
      · exact sendAck_kept hp hd h d
      · exact hsame
  · rw [if_neg ho]
    exact iff_of_true hsame fun hc => ho hc.1

theorem recvStep_kept_iff (h : Idle s) (oacklen : Nat) (d : List UInt8) :
    ReceiverKept s (recvStep t oacklen s (.datagram d)) ↔
      s.awaited ≠ some (headerOver (s.subs.bfs s.dp).buf d) := by
  have hsubs : ∃ m, s.subs = s.subs.setBuf s.subs.current m := ⟨_, (s.subs.setBuf_self _).symm⟩
  cases hp : s.phase with
  | ended how =>
    simp only [ne_eq, RecvState.awaited, hp]
    rw [recvStep_ended hp]
    refine iff_of_true ⟨rfl, rfl, hsubs, ?_, rfl, rfl, List.not_mem_nil⟩ nofun
    rw [hp]
    exact nofun
  | dally =>
    simp only [ne_eq, RecvState.awaited, hp]
    rw [recvStep_dally hp]
    have hno : s.phase = .waiting → False := by
      rw [hp]
      exact nofun
    apply iff_of_true _ nofun
    simp only [dallyStep]
    repeat' split
    all_goals exact ⟨rfl, rfl, hsubs, fun hw => (hno hw).elim, rfl, rfl, by simp⟩
  | waiting =>
    obtain ⟨hd, hf⟩ := h hp
    have hhead := load_eq_tftphdr_iff ((s.subs.bfs s.dp).buf.store 0 (received d)) DATA s.block
    rw [load_received, eq_comm] at hhead
    simp only [ne_eq, RecvState.awaited, hp]
    rw [recvStep_waiting hp, waitStep_kept_iff hp hd hf, Option.some_inj]
    exact not_congr hhead.symm

end Receiver

/-- The state after the events `es` is left as it is by the datagram `d`. -/
def Ignored (t : Transfer) (oack : Option Nat) (ackbuf : Mem) (f : InFile) (es : List Event)
    (d : List UInt8) : Direction → Prop
  | .send =>
    let M := tftpSendfile t oack ackbuf f
    SenderKept (M.run es).state (M.step (M.run es).state (.datagram d))
  | .recv =>
    let M := tftpRecvfile t oack ackbuf
    ReceiverKept (M.run es).state (M.step (M.run es).state (.datagram d))

/-- The datagram `d`, over what earlier packets have left in the buffer it is received into,
begins like the packet that is awaited. -/
def Mistaken (t : Transfer) (oack : Option Nat) (ackbuf : Mem) (f : InFile) (es : List Event)
    (d : List UInt8) : Direction → Prop
  | .send =>
    let s := ((tftpSendfile t oack ackbuf f).run es).state
    d.length < 4 ∧ s.awaited = some (headerOver s.ackbuf d)
  | .recv =>
    let s := ((tftpRecvfile t oack ackbuf).run es).state
    s.awaited = some (headerOver (s.subs.bfs s.dp).buf d)

theorem data_not_awaited (s : SendState) (block : UInt16) (payload : List UInt8) :
    s.awaited ≠ some (headerOver s.ackbuf (tftphdr DATA block ++ payload)) := by
  have hne : DATA ≠ ACK := by decide
  have hack (b : UInt16) :
      tftphdr ACK b ≠ headerOver s.ackbuf (tftphdr DATA block ++ payload) := by
    intro h
    rw [eq_comm, headerOver_eq_tftphdr_iff, parse_packet] at h
    exact hne (Parsed.packet.inj h).1
  simp only [ne_eq, SendState.awaited]
  cases s.phase with
  | option => exact fun h => hack _ (Option.some.inj h)
  | data => exact fun h => hack _ (Option.some.inj h)
  | ended how => exact nofun

/-- In every reachable state, a malformed datagram changes nothing exactly if it does not
begin, together with what is left in the buffer, like the packet that is awaited. -/
theorem malformed_ignored_iff (t : Transfer) (oack : Option Nat) (ackbuf : Mem) (f : InFile)
    (es : List Event) (d : List UInt8) (dir : Direction) (h : Malformed t.segsize d) :
    Ignored t oack ackbuf f es d dir ↔ ¬ Mistaken t oack ackbuf f es d dir := by
  cases dir with
  | recv => exact recvStep_kept_iff (recvfile_idle t oack ackbuf es) _ d
  | send =>
    refine (sendStep_kept_iff _ d (sendfile_option_subs t oack ackbuf f es)).trans ?_
    apply not_congr
    simp only [Mistaken]
    rcases h with h | ⟨block, payload, rfl, _⟩
    · exact (and_iff_right h).symm
    · refine iff_of_false (data_not_awaited _ block payload) fun hc => ?_
      exact data_not_awaited _ block payload hc.2

def smallTransfer : Transfer := { octetTransfer with segsize := 8 }

/-- Two bytes with the opcode of an ACK, when the buffer was empty before. -/
theorem shortAck_ignored :
    Malformed smallTransfer.segsize [0, 4] ∧
      Ignored smallTransfer none .zero (.regular []) [] [0, 4] .send := by
  have h : Malformed smallTransfer.segsize [0, 4] := .inl (by decide)
  refine ⟨h, (malformed_ignored_iff _ _ _ _ _ _ _ h).2 ?_⟩
  rintro ⟨_, hc⟩
  revert hc
  decide +kernel

/-- The same two bytes after a stray DATA packet with number 1 are taken as the ACK of block 1,
and DATA 1 with nine bytes ends an upload in blocks of eight. -/
theorem malformed_taken :
    (Malformed smallTransfer.segsize [0, 4] ∧
      ¬ Ignored smallTransfer none .zero (.regular [65]) [.datagram (tftphdr DATA 1)] [0, 4]
        .send) ∧
    Malformed smallTransfer.segsize (tftphdr DATA 1 ++ List.replicate 9 65) ∧
      ¬ Ignored smallTransfer none .zero (.regular []) []
        (tftphdr DATA 1 ++ List.replicate 9 65) .recv := by
  refine ⟨⟨.inl (by decide), ?_⟩, .inr ⟨1, _, rfl, by decide⟩, ?_⟩
  · intro h
    have hacked := h.acked
    revert hacked
    decide +kernel
  · intro h
    have hgoing := h.going
    revert hgoing
    decide +kernel

end WooTftpd
