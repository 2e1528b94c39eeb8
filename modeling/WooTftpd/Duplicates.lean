import WooTftpd.Malformed

namespace WooTftpd
open Lib
set_option autoImplicit true

variable {t : Transfer} {s : RecvState} {c : Config RecvState Event Action} {p : UInt16}

theorem sendAck_sent (h : t.sendOk s.sends = true) :
    sendAck t s = ({ s with
      sends := s.sends + 1
      subs := (writeBehind t.faults t.convert s.subs s.file).1
      file := (writeBehind t.faults t.convert s.subs s.file).2.1 },
      [.send (s.ackbuf.load 0 s.acksize)]) := if_pos h

/-- What the final wait compares with the last block is what was read with the last block. -/
def ComparesLast (s : RecvState) : Prop :=
  s.phase = .dally → s.dpOpcode = DATA ∧ s.dpBlock = s.block

theorem comparesLast_of_ne (h : s.phase ≠ .dally) : ComparesLast s := fun hd => absurd hd h

theorem ComparesLast.sendAck (h : s.phase ≠ .dally) : ComparesLast (sendAck t s).1 := by
  apply comparesLast_of_ne
  simp only [WooTftpd.sendAck]
  split
  · exact h
  · exact RecvPhase.noConfusion

theorem ComparesLast.replyBlock (h : s.phase ≠ .dally) (oacklen : Nat) :
    ComparesLast (replyBlock t oacklen s).1 := by
  simp only [WooTftpd.replyBlock]
  split
  · exact ComparesLast.sendAck h
  · exact ComparesLast.sendAck h

theorem ComparesLast.blockReceived (h : s.phase ≠ .dally) (hdata : s.dpOpcode = DATA)
    (hb : s.dpBlock = s.block) (oacklen n : Nat) :
    ComparesLast (blockReceived t oacklen n s).1 := by
  rw [blockReceived_eq]
  dsimp only
  split
  · apply ComparesLast.replyBlock
    exact h
  · exact fun _ => ⟨hdata, hb⟩

theorem ComparesLast.waitStep (hp : s.phase = .waiting) (oacklen : Nat) (e : Event) :
    ComparesLast (waitStep t oacklen s e).1 := by
  have hne : s.phase ≠ .dally := by
    rw [hp]
    exact RecvPhase.noConfusion
  cases e with
  | recvError => exact comparesLast_of_ne RecvPhase.noConfusion
  | timeout =>
    simp only [WooTftpd.waitStep]
    split
    · exact comparesLast_of_ne RecvPhase.noConfusion
    · exact ComparesLast.sendAck hne
  | datagram d =>
    have hne' : (recvDatagram d s).phase ≠ .dally := hne
    rw [waitStep_datagram]
    dsimp only
    split
    · exact comparesLast_of_ne RecvPhase.noConfusion
    split
    · rename_i hdata
      split
      · rename_i hb
        exact ComparesLast.blockReceived hne' hdata hb oacklen _
      split
      · exact ComparesLast.sendAck hne'
      · exact comparesLast_of_ne hne'
    · exact comparesLast_of_ne hne'

theorem recvfile_comparesLast (t : Transfer) (oack : Option Nat) (ackbuf : Mem)
    (es : List Event) : ComparesLast ((tftpRecvfile t oack ackbuf).run es).state := by
  apply (tftpRecvfile t oack ackbuf).run_induction (P := fun _ c => ComparesLast c.state)
  · exact ComparesLast.replyBlock RecvPhase.noConfusion (oack.getD 0)
  · intro es e ih
    change ComparesLast (recvStep t (oack.getD 0) ((tftpRecvfile t oack ackbuf).run es).state e).1
    cases hp : ((tftpRecvfile t oack ackbuf).run es).state.phase with
    | waiting =>
      rw [recvStep_waiting hp]
      exact ComparesLast.waitStep hp _ e
    | dally =>
      rw [recvStep_dally hp]
      cases e with
      | timeout => exact comparesLast_of_ne RecvPhase.noConfusion
      | recvError => exact comparesLast_of_ne RecvPhase.noConfusion
      | datagram d => exact comparesLast_of_ne RecvPhase.noConfusion
    | ended how =>
      rw [recvStep_ended hp]
      exact ih

/-- The number of the packet that was accepted last. -/
def lastBlock (c : Config RecvState Event Action) : Option UInt16 :=
  (c.observe Action.accepted?).getLast?.map fun a => a.2.1

theorem ReceiverTrace.last (h : ReceiverTrace t first ds c) (hp : lastBlock c = some p) :
    ∃ i, (accepted ds).length = i + 1 ∧ p = bn t.rolloverVal i := by
  rw [lastBlock, h.accepts] at hp
  rcases List.eq_nil_or_concat ds with rfl | ⟨ds', d, rfl⟩
  · cases hp
  · rw [List.concat_eq_append] at hp ⊢
    rw [acceptLog_concat, List.getLast?_concat] at hp
    refine ⟨ds'.length, ?_, (Option.some.inj hp).symm⟩
    rw [length_accepted, List.length_append]
    rfl

/-- The server calls `send` for the ACK of `p`, and does nothing else. -/
def Resends (t : Transfer) (p : UInt16) (s : RecvState) (r : RecvState × List Action) : Prop :=
  r.1.sends = s.sends + 1 ∧ r.2 = if t.sendOk s.sends then [.send (tftphdr ACK p)] else []

structure ReAcks (t : Transfer) (p : UInt16) (s : RecvState) (r : RecvState × List Action) :
    Prop where
  resends : Resends t p s r
  file : r.1.file = s.file
  block : r.1.block = s.block

theorem sendAck_reAcks (h : Flushed s.subs) (hr : s.ackbuf.load 0 s.acksize = tftphdr ACK p) :
    ReAcks t p s (sendAck t s) := by
  simp only [sendAck, h.writeBehind, hr]
  split
  · rename_i hs
    exact ⟨⟨rfl, (if_pos hs).symm⟩, rfl, rfl⟩
  · rename_i hs
    exact ⟨⟨rfl, (if_neg hs).symm⟩, rfl, rfl⟩

theorem recvDatagram_data (s : RecvState) (q : UInt16) (payload : List UInt8) :
    (recvDatagram (tftphdr DATA q ++ payload) s).dpOpcode = DATA ∧
      (recvDatagram (tftphdr DATA q ++ payload) s).dpBlock = q := by
  simp only [recvDatagram, received_packet, thOpcode_store, thBlock_store, and_self]

theorem waitStep_data (t : Transfer) (oacklen : Nat) (s : RecvState) (q : UInt16)
    (payload : List UInt8) :
    let d := tftphdr DATA q ++ payload
    waitStep t oacklen s (.datagram d) =
      if q = s.block then blockReceived t oacklen (received d).length (recvDatagram d s)
      else if (q.toNat : Int) = s.block.toNat - 1 then sendAck t (recvDatagram d s)
      else (recvDatagram d s, []) := by
  intro d
  obtain ⟨ho, hb⟩ := recvDatagram_data s q payload
  have herror : DATA ≠ ERROR := by decide
  rw [waitStep_datagram]
  dsimp only
  rw [ho, hb, if_neg herror, if_pos rfl]

theorem nextBlock_toNat (r : UInt16) (h : p ≠ 65535) :
    (nextBlock r p).toNat = p.toNat + 1 := by
  have hp : p.toNat ≠ 65535 := by
    intro hn
    exact h (UInt16.toNat_inj.1 hn)
  have hlt := p.toNat_lt
  have hsucc : (p + 1).toNat = p.toNat + 1 := by
    rw [UInt16.toNat_add]
    change (p.toNat + 1) % 65536 = p.toNat + 1
    omega
  have hne : p + 1 ≠ 0 := by
    intro hz
    rw [hz] at hsucc
    cases hsucc
  rw [nextBlock, if_neg hne]
  exact hsucc

theorem Accepts.not_resends {r : RecvState × List Action} (h : Accepts t first acc bs r) :
    ¬ Resends t p s r := by
  rintro ⟨_, ha⟩
  obtain ⟨size, as, hacts, _⟩ := h
  rw [hacts] at ha
  split at ha
  · cases ha
  · cases ha

/-- After block 65535 the rollover value is awaited, and no 16-bit number less one is 65535. -/
theorem Expecting.not_reAcks (h : Expecting t first acc s) (hb : s.block = t.rolloverVal)
    (oacklen : Nat) (payload : List UInt8) :
    ¬ ReAcks t 65535 s (waitStep t oacklen s (.datagram (tftphdr DATA 65535 ++ payload))) := by
  rw [waitStep_data, hb]
  by_cases hr : 65535 = t.rolloverVal
  · rw [if_pos hr]
    intro ha
    have hexpected : (recvDatagram (tftphdr DATA 65535 ++ payload) s).dpBlock =
        bn t.rolloverVal acc.length := by
      rw [(recvDatagram_data s 65535 payload).2, ← h.block, hb]
      exact hr
    exact (h.blockReceived _ hexpected oacklen).not_resends ha.resends
  · have hne : ¬ ((65535 : UInt16).toNat : Int) = t.rolloverVal.toNat - 1 := by
      have hlt := t.rolloverVal.toNat_lt
      change ¬ (65535 : Int) = t.rolloverVal.toNat - 1
      omega
    rw [if_neg hr, if_neg hne]
    intro ha
    exact absurd ha.resends.1 (Nat.ne_of_lt (Nat.lt_succ_self _))

/-- Before the rollover the number that is awaited is the next integer. -/
theorem Expecting.reAcks (h : Expecting t first acc s) (hs : Idle s)
    (hlen : acc.length = i + 1) (hnext : s.block.toNat = (bn t.rolloverVal i).toNat + 1)
    (oacklen : Nat) (payload : List UInt8) :
    let p := bn t.rolloverVal i
    ReAcks t p s (waitStep t oacklen s (.datagram (tftphdr DATA p ++ payload))) := by
  intro p
  have hne : p ≠ s.block := by
    intro he
    rw [← he] at hnext
    exact absurd hnext (Nat.ne_of_lt (Nat.lt_succ_self _))
  have hprev : (p.toNat : Int) = s.block.toNat - 1 := by
    change ((bn t.rolloverVal i).toNat : Int) = s.block.toNat - 1
    omega
  have hack : (recvDatagram (tftphdr DATA p ++ payload) s).ackbuf.load 0 s.acksize =
      tftphdr ACK p := by
    have hreply := h.reply
    rw [hlen] at hreply
    exact hreply
  rw [waitStep_data, if_neg hne, if_pos hprev]
  obtain ⟨hd, hflushed⟩ := hs h.phase
  obtain ⟨ha, hf, hb⟩ := sendAck_reAcks (t := t) (hflushed.recv hd _) hack
  exact ⟨ha, hf, hb⟩

theorem Expecting.reAcks_iff (h : Expecting t first acc s) (hs : Idle s)
    (hlen : acc.length = i + 1) (oacklen : Nat) (payload : List UInt8) :
    let p := bn t.rolloverVal i
    ReAcks t p s (waitStep t oacklen s (.datagram (tftphdr DATA p ++ payload))) ↔ p ≠ 65535 := by
  intro p
  have hblock : s.block = nextBlock t.rolloverVal p := by
    rw [h.block, hlen]
    rfl
  by_cases hp : p = 65535
  · refine iff_of_false ?_ (not_not.2 hp)
    have hroll : nextBlock t.rolloverVal 65535 = t.rolloverVal := if_pos rfl
    rw [hp] at hblock ⊢
    exact h.not_reAcks (hblock.trans hroll) oacklen payload
  · refine iff_of_true ?_ hp
    have hnext := nextBlock_toNat t.rolloverVal hp
    rw [← hblock] at hnext
    exact h.reAcks hs hlen hnext oacklen payload

/-- A duplicate of the last block is acknowledged again exactly if its number is not the last
before the rollover: after 65535 the rollover value is awaited, and its predecessor as an
integer is not 65535. -/
theorem tftpRecvfile_reAcks_iff (t : Transfer) (oack : Option Nat) (ackbuf : Mem)
    (es : List Event) (payload : List UInt8) :
    let M := tftpRecvfile t oack ackbuf
    (M.run es).state.phase = .waiting → lastBlock (M.run es) = some p →
      (ReAcks t p (M.run es).state
        (M.step (M.run es).state (.datagram (tftphdr DATA p ++ payload))) ↔ p ≠ 65535) := by
  intro M hw hlast
  obtain ⟨ds, htrace⟩ := receiver_run t oack ackbuf es
  obtain ⟨i, hlen, rfl⟩ := htrace.last hlast
  have hstep (e : Event) : M.step (M.run es).state e =
      waitStep t (oack.getD 0) (M.run es).state e := recvStep_waiting hw t _ e
  rw [hstep]
  rcases htrace.state with ⟨he, _⟩ | hd | ⟨⟨how, he⟩, _⟩
  · exact he.reAcks_iff (recvfile_idle t oack ackbuf es) hlen _ _
  · exact absurd (hw.symm.trans hd.phase) (by decide)
  · exact absurd (hw.symm.trans he) (by cases how <;> decide)

/-- A whole block for each number from 1 on. -/
def fullBlocks (t : Transfer) (n : Nat) : List Event :=
  (List.range n).map fun i =>
    .datagram (tftphdr DATA (bn t.rolloverVal i) ++ List.replicate t.segsize 0)

theorem fullBlocks_succ (t : Transfer) (n : Nat) :
    fullBlocks t (n + 1) = fullBlocks t n ++
      [.datagram (tftphdr DATA (bn t.rolloverVal n) ++ List.replicate t.segsize 0)] := by
  rw [fullBlocks, List.range_succ, List.map_append]
  rfl

theorem replyBlock_sent (hok : ∀ k, t.sendOk k = true) (oacklen : Nat) (s : RecvState) :
    (replyBlock t oacklen s).1.phase = s.phase ∧
      (replyBlock t oacklen s).1.block = nextBlock t.rolloverVal s.block ∧
      (replyBlock t oacklen s).2.filterMap Action.accepted? = [] := by
  simp only [replyBlock]
  split
  · rw [sendAck_sent (hok _)]
    exact ⟨rfl, rfl, rfl⟩
  · rw [sendAck_sent (hok _)]
    exact ⟨rfl, rfl, rfl⟩

theorem blockReceived_full (hok : ∀ k, t.sendOk k = true) (oacklen : Nat) {n : Nat}
    (hn : (n : Int) - 4 = t.segsize) (s : RecvState) :
    let r := blockReceived t oacklen n s
    r.1.phase = s.phase ∧ r.1.block = nextBlock t.rolloverVal s.block ∧
      ∃ payload, r.2.filterMap Action.accepted? = [(s.dpBlock, payload)] := by
  have hsent := replyBlock_sent hok oacklen
  rw [blockReceived_eq]
  dsimp only
  rw [if_pos hn]
  refine ⟨(hsent _).1, (hsent _).2.1, (s.subs.bfs s.dp).buf.load thData (n - 4 : Int).toNat, ?_⟩
  simp only [List.filterMap_cons, Action.accepted?, (hsent _).2.2]

theorem waitStep_full (hok : ∀ k, t.sendOk k = true) (hseg : t.segsize ≤ maxSegsize)
    (oacklen : Nat) (hp : s.phase = .waiting) :
    let r := waitStep t oacklen s (.datagram (tftphdr DATA s.block ++ List.replicate t.segsize 0))
    r.1.phase = .waiting ∧ r.1.block = nextBlock t.rolloverVal s.block ∧
      ∃ payload, r.2.filterMap Action.accepted? = [(s.block, payload)] := by
  have hlen : ((received (tftphdr DATA s.block ++ List.replicate t.segsize 0)).length : Int) - 4 =
      t.segsize := by
    rw [received_packet, List.take_of_length_le (by rwa [List.length_replicate]),
      List.length_append, length_tftphdr, List.length_replicate]
    omega
  obtain ⟨hphase, hblock, hacc⟩ := blockReceived_full hok oacklen hlen
    (recvDatagram (tftphdr DATA s.block ++ List.replicate t.segsize 0) s)
  rw [(recvDatagram_data s _ _).2] at hacc
  rw [waitStep_data, if_pos rfl]
  exact ⟨hphase.trans hp, hblock, hacc⟩

theorem fullBlocks_run (hok : ∀ k, t.sendOk k = true) (hseg : t.segsize ≤ maxSegsize)
    (oack : Option Nat) (ackbuf : Mem) (n : Nat) :
    let c := (tftpRecvfile t oack ackbuf).run (fullBlocks t n)
    c.state.phase = .waiting ∧ c.state.block = bn t.rolloverVal n ∧
      ∀ i, n = i + 1 → lastBlock c = some (bn t.rolloverVal i) := by
  induction n with
  | zero =>
    obtain ⟨hp, hb, _⟩ := replyBlock_sent hok (oack.getD 0)
      (recvInit oack.isSome ackbuf t.bufsiz t.rexmtval)
    refine ⟨hp, hb, ?_⟩
    intro i hi
    cases hi
  | succ n ih =>
    obtain ⟨hp, hb, _⟩ := ih
    have hstep := waitStep_full hok hseg (oack.getD 0) hp
    rw [hb, ← recvStep_waiting hp] at hstep
    obtain ⟨hp', hb', payload, ha⟩ := hstep
    rw [fullBlocks_succ, Machine.run_concat]
    refine ⟨hp', hb', ?_⟩
    intro i hi
    cases hi
    rw [lastBlock, Machine.observe_next]
    change ((_ ++ List.map _ (List.filterMap _ (recvStep t _ _ _).2)).getLast?).map _ = _
    rw [ha, List.map_singleton, List.getLast?_concat]
    rfl

theorem recvStep_last (oacklen : Nat) (payload : List UInt8) (hp : s.phase = .waiting)
    (hb : s.block = 0) :
    let r := recvStep t oacklen s (.datagram (tftphdr DATA 65535 ++ payload))
    r.2 = [] ∧ ¬ ReAcks t 65535 s r := by
  have hne : (65535 : UInt16) ≠ 0 := by decide
  have hprev : ¬ ((65535 : UInt16).toNat : Int) = (0 : UInt16).toNat - 1 := by decide
  rw [recvStep_waiting hp, waitStep_data, hb, if_neg hne, if_neg hprev]
  refine ⟨rfl, ?_⟩
  intro h
  exact absurd h.resends.1 (Nat.ne_of_lt (Nat.lt_succ_self _))

theorem fullBlocks_ignored (hok : ∀ k, t.sendOk k = true) (hseg : t.segsize ≤ maxSegsize)
    (oack : Option Nat) (ackbuf : Mem) (hi : bn t.rolloverVal i = 65535) (hr : t.rolloverVal = 0)
    (payload : List UInt8) (hn : n = i + 1) :
    let M := tftpRecvfile t oack ackbuf
    let c := M.run (fullBlocks t n)
    let r := M.step c.state (.datagram (tftphdr DATA 65535 ++ payload))
    c.state.phase = .waiting ∧ lastBlock c = some 65535 ∧ r.2 = [] ∧
      ¬ ReAcks t 65535 c.state r := by
  obtain ⟨hp, hb, hlast⟩ := fullBlocks_run hok hseg oack ackbuf n
  have hzero : bn t.rolloverVal n = 0 := by
    rw [hn, bn, hi, hr]
    rfl
  exact ⟨hp, (hlast i hn).trans (congrArg some hi), recvStep_last _ payload hp (hb.trans hzero)⟩

theorem firstBlock_acked :
    let M := tftpRecvfile octetTransfer none .zero
    let c := M.run (fullBlocks octetTransfer 1)
    ReAcks octetTransfer 1 c.state (M.step c.state (.datagram (tftphdr DATA 1 ++ [65]))) := by
  obtain ⟨hp, _, hlast⟩ := fullBlocks_run (t := octetTransfer) (fun _ => rfl) (by decide)
    none .zero 1
  exact (tftpRecvfile_reAcks_iff octetTransfer none .zero _ [65] hp (hlast 0 rfl)).2 (by decide)

/-- An upload of more than 65535 blocks is under way, and a duplicate of the last one that was
accepted is ignored. -/
theorem lastNumber_notAcked :
    let M := tftpRecvfile octetTransfer none .zero
    let c := M.run (fullBlocks octetTransfer 65535)
    let r := M.step c.state (.datagram (tftphdr DATA 65535 ++ List.replicate 512 0))
    c.state.phase = .waiting ∧ lastBlock c = some 65535 ∧ r.2 = [] ∧
      ¬ ReAcks octetTransfer 65535 c.state r := by
  have hlast : bn octetTransfer.rolloverVal 65534 = 65535 := by
    apply UInt16.toNat_inj.1
    exact bn_toNat octetTransfer.rolloverVal (by decide)
  exact fullBlocks_ignored (fun _ => rfl) (by decide) none .zero hlast rfl _ rfl

/-- A DATA packet that carries the number `p`. -/
def IsBlock (p : UInt16) (d : List UInt8) : Prop := ∃ payload, d = tftphdr DATA p ++ payload

theorem IsBlock.header (h : IsBlock p d) : 4 ≤ d.length := by
  obtain ⟨payload, rfl⟩ := h
  rw [List.length_append, length_tftphdr]
  exact Nat.le_add_right _ _

/-- Nothing of the datagram but its length decides whether the final ACK is sent again. -/
theorem Dallying.resends_iff (h : Dallying t acc s) (hs : ComparesLast s)
    (hlen : acc.length = i + 1) (d : List UInt8) :
    Resends t (bn t.rolloverVal i) s (dallyStep t s (.datagram d)) ↔ 4 ≤ d.length := by
  have hreply : s.ackbuf.load 0 4 = tftphdr ACK (bn t.rolloverVal i) := by
    rw [h.reply, hlen]
    rfl
  obtain ⟨hdata, hblock⟩ := hs h.phase
  have hread : 4 ≤ (received d).length ↔ 4 ≤ d.length := by
    have hsize : 4 ≤ pktsize := by decide
    rw [received, List.length_take, Nat.le_min]
    exact and_iff_right hsize
  have hagain : (4 ≤ (received d).length ∧ s.dpOpcode = DATA ∧ s.block = s.dpBlock) ↔
      4 ≤ d.length := by
    rw [hread]
    exact and_iff_left ⟨hdata, hblock.symm⟩
  simp only [Resends, dallyStep, hagain, hreply]
  by_cases hd : 4 ≤ d.length
  · simp only [hd, true_and, if_true]
  · simp only [hd, false_and, if_false, iff_false]
    intro hr
    exact absurd hr.1 (Nat.ne_of_lt (Nat.lt_succ_self _))

/-- After the final ACK any datagram that is long enough for a header has it sent again: what
is compared with the last block is what was read with the last block. -/
theorem tftpRecvfile_finalAck_iff (t : Transfer) (oack : Option Nat) (ackbuf : Mem)
    (es : List Event) (d : List UInt8) :
    let M := tftpRecvfile t oack ackbuf
    let s := (M.run es).state
    s.phase = .dally → lastBlock (M.run es) = some p →
      ((Resends t p s (M.step s (.datagram d)) ↔ IsBlock p d) ↔ d.length < 4 ∨ IsBlock p d) := by
  intro M s hp hlast
  obtain ⟨ds, htrace⟩ := receiver_run t oack ackbuf es
  obtain ⟨i, hlen, rfl⟩ := htrace.last hlast
  have hstep : M.step s (.datagram d) = dallyStep t s (.datagram d) := recvStep_dally hp t _ _
  rcases htrace.state with ⟨he, _⟩ | hd | ⟨⟨how, he⟩, _⟩
  · exact absurd (hp.symm.trans he.phase) (by decide)
  · have hresends := hd.resends_iff (recvfile_comparesLast t oack ackbuf es) hlen d
    rw [hstep, hresends]
    constructor
    · intro h
      by_cases hl : 4 ≤ d.length
      · exact .inr (h.1 hl)
      · exact .inl (Nat.lt_of_not_le hl)
    · rintro (hl | hblock)
      · refine iff_of_false (Nat.not_le_of_lt hl) ?_
        intro hblock
        exact absurd hblock.header (Nat.not_le_of_lt hl)
      · exact iff_of_true hblock.header hblock
  · exact absurd (hp.symm.trans he) (by cases how <;> decide)

theorem emptyDatagram_ignored :
    let M := tftpRecvfile octetTransfer none .zero
    let s := (M.run [.datagram (tftphdr DATA 1 ++ [65])]).state
    Resends octetTransfer 1 s (M.step s (.datagram [])) ↔ IsBlock 1 [] :=
  (tftpRecvfile_finalAck_iff octetTransfer none .zero [.datagram (tftphdr DATA 1 ++ [65])] []
    (by decide) (by decide)).2 (.inl (by decide))

/-- The final ACK is sent again for an ERROR packet. -/
theorem errorPacket_acked :
    let M := tftpRecvfile octetTransfer none .zero
    let c := M.run [.datagram (tftphdr DATA 1 ++ [65])]
    let d := tftphdr ERROR 0 ++ [0]
    c.state.phase = .dally ∧ lastBlock c = some 1 ∧
      Resends octetTransfer 1 c.state (M.step c.state (.datagram d)) ∧ ¬ IsBlock 1 d := by
  refine ⟨by decide, by decide, ⟨by decide, by decide⟩, ?_⟩
  rintro ⟨payload, h⟩
  cases h

end WooTftpd
