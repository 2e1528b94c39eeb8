import WooTftpd.Recvfile
import WooTftpd.WriteSide

namespace WooTftpd
open Lib
set_option autoImplicit true

variable {t : Transfer} {first : List UInt8} {acc : List (List UInt8)} {s : RecvState}

def replyTo (t : Transfer) (first : List UInt8) : Nat → List UInt8
  | 0 => first
  | i + 1 => tftphdr ACK (bn t.rolloverVal i)

def firstReply (oack : Option Nat) (ackbuf : Mem) : List UInt8 :=
  match oack with
  | some oacklen => ackbuf.load 0 oacklen
  | none => tftphdr ACK 0

def Stored (t : Transfer) (acc : List (List UInt8)) (subs : Subs) (f : OutFile) : Prop :=
  t.faults.CleanBelow f.ops → WriteInv t.convert acc.flatten subs f

/-- The state in which `tftp_recvfile` waits for a block after it accepted `acc`. -/
structure Expecting (t : Transfer) (first : List UInt8) (acc : List (List UInt8))
    (s : RecvState) : Prop where
  phase : s.phase = .waiting
  block : s.block = bn t.rolloverVal acc.length
  dp : s.dp = s.subs.current
  reply : s.ackbuf.load 0 s.acksize = replyTo t first acc.length
  oap : s.oap = true → acc = []
  stored : Stored t acc s.subs s.file

/-- The file after its `fclose`. -/
structure Complete (t : Transfer) (acc : List (List UInt8)) (f : OutFile) : Prop where
  unwritten : f.unwritten = []
  stored : t.faults.CleanBelow f.ops → f.stored = decode t.convert acc.flatten

structure Dallying (t : Transfer) (acc : List (List UInt8)) (s : RecvState) : Prop where
  phase : s.phase = .dally
  reply : s.ackbuf.load 0 4 = replyTo t [] acc.length
  some_accepted : acc ≠ []
  complete : Complete t acc s.file

def SendsReply (t : Transfer) (first : List UInt8) (acc : List (List UInt8))
    (r : RecvState × List Action) : Prop :=
  (Expecting t first acc r.1 ∧ r.2 = [.send (replyTo t first acc.length)]) ∨
    (r.1.phase = .ended .aborted ∧ r.2 = [])

theorem Expecting.sendAck (h : Expecting t first acc s) :
    SendsReply t first acc (sendAck t s) := by
  simp only [WooTftpd.sendAck]
  split
  · refine .inl ⟨⟨h.phase, h.block, ?_, h.reply, h.oap, ?_⟩, by rw [h.reply]⟩
    · exact h.dp.trans (writeBehind_current _ _ _ _).symm
    · intro hc
      exact ((h.stored (hc.mono (writeBehind_ops _ _ _ _))).writeBehind hc).1
  · exact .inr ⟨rfl, rfl⟩

theorem Expecting.timeout (h : Expecting t first acc s) (timeout : Nat) :
    Expecting t first acc { s with timeout := timeout } :=
  ⟨h.phase, h.block, h.dp, h.reply, h.oap, h.stored⟩

theorem load_ack (m : Mem) (block : UInt16) :
    (m.store 0 (tftphdr ACK block)).load 0 4 = tftphdr ACK block :=
  Mem.load_store m 0 (tftphdr ACK block)

theorem replyBlock_first (t : Transfer) (oack : Option Nat) (ackbuf : Mem) (bufsiz timeout : Nat) :
    SendsReply t (firstReply oack ackbuf) []
      (replyBlock t (oack.getD 0) (recvInit oack.isSome ackbuf bufsiz timeout)) := by
  have hstored : Stored t [] (wInit .static) (.truncated bufsiz) :=
    fun _ => WriteInv.init t.convert .static bufsiz
  cases oack with
  | some oacklen =>
    simp only [replyBlock, recvInit, Option.isSome_some, and_self, if_true, Option.getD_some]
    exact Expecting.sendAck ⟨rfl, rfl, rfl, rfl, fun _ => rfl, hstored⟩
  | none =>
    simp only [replyBlock, recvInit, Option.isSome_none, Bool.false_eq_true, and_false, if_false]
    refine Expecting.sendAck ⟨rfl, rfl, rfl, load_ack _ _, ?_, hstored⟩
    intro ho
    cases ho

/-- After a block was accepted the reply is an ACK, also when its number is 0. -/
theorem replyBlock_next (oacklen : Nat) (p : List UInt8) (hp : s.phase = .waiting)
    (hb : s.block = bn t.rolloverVal acc.length) (hd : s.dp = s.subs.current)
    (ho : s.oap = true → acc = []) (hs : Stored t (acc ++ [p]) s.subs s.file) :
    SendsReply t first (acc ++ [p]) (replyBlock t oacklen s) := by
  have hlen : (acc ++ [p]).length = acc.length + 1 := List.length_append
  have hno : ¬ (s.block = 0 ∧ s.oap = true) := by
    rintro ⟨hz, hoap⟩
    have hone : (1 : UInt16) ≠ 0 := by decide
    rw [hb, ho hoap] at hz
    exact hone hz
  simp only [replyBlock]
  rw [if_neg hno]
  refine Expecting.sendAck ⟨hp, ?_, hd, ?_, ?_, hs⟩
  · dsimp only
    rw [hb, hlen]
    rfl
  · dsimp only
    rw [load_ack, hb, hlen]
    rfl
  · intro h
    cases h

theorem finalAck_dallying (p : List UInt8) (hb : s.block = bn t.rolloverVal acc.length)
    (hs : let r := writeBehind t.faults t.convert s.subs s.file
      t.faults.CleanBelow r.2.1.ops →
        Written t.convert (acc ++ [p]).flatten r.1.prevchar r.2.1) :
    Dallying t (acc ++ [p]) (finalAck t s).1 ∧
      ((finalAck t s).2 = [.endOperation, .send (replyTo t first (acc ++ [p]).length)] ∨
        (finalAck t s).2 = [.endOperation]) := by
  have hlen : (acc ++ [p]).length = acc.length + 1 := List.length_append
  have hreply (first : List UInt8) :
      (s.ackbuf.store 0 (tftphdr ACK s.block)).load 0 4 = replyTo t first (acc ++ [p]).length := by
    rw [load_ack, hb, hlen]
    rfl
  have hcomplete : Complete t (acc ++ [p]) (finalAck t s).1.file := by
    refine ⟨OutFile.fflush_unwritten _ _, ?_⟩
    intro hc
    exact (hs (hc.mono (OutFile.fflush_ops _ _))).fclose hc
  refine ⟨⟨rfl, hreply _, List.append_ne_nil_of_right_ne_nil _ (List.cons_ne_nil _ _),
    hcomplete⟩, ?_⟩
  simp only [finalAck]
  rw [hreply first]
  split
  · exact .inl rfl
  · exact .inr rfl

def payloadOf (d : List UInt8) : List UInt8 := (received d).drop thData

/-- A datagram that is seen as DATA with number `block` in the buffer it is received into. -/
def SeenAsData (block : UInt16) (d : List UInt8) : Prop :=
  ∃ m : Mem, thOpcode (m.store 0 (received d)) = DATA ∧ thBlock (m.store 0 (received d)) = block

def recvDatagram (d : List UInt8) (s : RecvState) : RecvState :=
  let m := (s.subs.bfs s.dp).buf.store 0 (received d)
  { s with subs := s.subs.setBuf s.dp m, dpOpcode := thOpcode m, dpBlock := thBlock m }

theorem waitStep_datagram (t : Transfer) (oacklen : Nat) (s : RecvState) (d : List UInt8) :
    waitStep t oacklen s (.datagram d) =
      let s' := recvDatagram d s
      if s'.dpOpcode = ERROR then ({ s' with phase := .ended .aborted }, [])
      else if s'.dpOpcode = DATA then
        if s'.dpBlock = s.block then blockReceived t oacklen (received d).length s'
        else if (s'.dpBlock.toNat : Int) = s.block.toNat - 1 then sendAck t s'
        else (s', [])
      else (s', []) := rfl

theorem Expecting.recv (h : Expecting t first acc s) (d : List UInt8) :
    Expecting t first acc (recvDatagram d s) := by
  refine ⟨h.phase, h.block, h.dp, h.reply, h.oap, ?_⟩
  intro hc
  simp only [recvDatagram, h.dp]
  exact (h.stored hc).setBuf _

theorem load_recvDatagram (d : List UInt8) (s : RecvState) :
    ((recvDatagram d s).subs.bfs s.dp).buf.load thData ((received d).length - 4) =
      payloadOf d := by
  simp only [recvDatagram, Subs.setBuf, Subs.setBf_same]
  have hload := Mem.load_store_drop (s.subs.bfs s.dp).buf 0 thData (received d)
  rwa [Nat.zero_add] at hload

/-- The outcome of accepting a block with payload `p`: the next one is awaited, the upload is
over, or the reply could not be sent. -/
def Accepts (t : Transfer) (first : List UInt8) (acc : List (List UInt8)) (p : List UInt8)
    (r : RecvState × List Action) : Prop :=
  ∃ size as, r.2 = .accept (bn t.rolloverVal acc.length) p :: .incrementBlock size :: as ∧
    (SendsReply t first (acc ++ [p]) (r.1, as) ∨
      (Dallying t (acc ++ [p]) r.1 ∧
        (as = [.endOperation, .send (replyTo t first (acc ++ [p]).length)] ∨
          as = [.endOperation])))

/-- The comparison of the sizes never fails, since `writeit` returns the size it was given. -/
theorem blockReceived_eq (t : Transfer) (oacklen n : Nat) (s : RecvState) :
    blockReceived t oacklen n s =
      let ct : Int := n - 4
      let w := writeit t.faults t.convert ct s.subs s.file
      let s' := { s with subs := w.1, file := w.2.1, dp := w.1.current }
      let r := if ct = t.segsize then replyBlock t oacklen s' else finalAck t s'
      (r.1, .accept s.dpBlock ((s.subs.bfs s.dp).buf.load thData ct.toNat) ::
        .incrementBlock ct :: r.2) :=
  if_neg fun h => h (writeit_result _ _ _ _ _)

theorem Expecting.takeBlock (h : Expecting t first acc s)
    (hb : s.dpBlock = bn t.rolloverVal acc.length)
    (hp : (s.subs.bfs s.dp).buf.load thData p.length = p) (oacklen : Nat) :
    Accepts t first acc p (blockReceived t oacklen (p.length + 4) s) := by
  have hct : ((p.length + 4 : Nat) : Int) - 4 = p.length := by omega
  have hstored : Stored t (acc ++ [p]) (writeit t.faults t.convert p.length s.subs s.file).1
      (writeit t.faults t.convert p.length s.subs s.file).2.1 := by
    intro hc
    have hinv := h.stored (hc.mono (writeit_ops _ _ _ _ _))
    rw [h.dp] at hp
    rw [List.flatten_append, List.flatten_singleton]
    exact hinv.writeit hp hc
  simp only [blockReceived_eq, hct, Int.toNat_natCast, hp, hb]
  refine ⟨_, _, rfl, ?_⟩
  split
  · exact .inl (replyBlock_next oacklen p h.phase h.block rfl h.oap hstored)
  · refine .inr (finalAck_dallying p h.block ?_)
    intro r hc
    exact (hstored (hc.mono (writeBehind_ops _ _ _ _))).flush hc

/-- A datagram without a whole header, whose missing bytes an earlier packet has left in the
buffer, ends the upload like an empty block. -/
theorem Expecting.takeShort (h : Expecting t first acc s)
    (hb : s.dpBlock = bn t.rolloverVal acc.length) (hn : n < 4) (oacklen : Nat) :
    Accepts t first acc [] (blockReceived t oacklen n s) := by
  have hneg : (n : Int) - 4 < 0 := by omega
  have hz : ((n : Int) - 4).toNat = 0 := by omega
  have hsize : ¬ (n : Int) - 4 = t.segsize := by omega
  simp only [blockReceived_eq, hz, hb, if_neg hsize]
  refine ⟨_, _, rfl, .inr (finalAck_dallying [] h.block ?_)⟩
  intro r hc
  have hinv := h.stored (hc.mono (Nat.le_trans (writeit_ops _ _ _ _ _) (writeBehind_ops _ _ _ _)))
  rw [List.flatten_append, List.flatten_singleton, List.append_nil]
  exact hinv.flush_short hneg hc

theorem Expecting.blockReceived (h : Expecting t first acc s) (d : List UInt8)
    (hb : (recvDatagram d s).dpBlock = bn t.rolloverVal acc.length) (oacklen : Nat) :
    Accepts t first acc (payloadOf d)
      (blockReceived t oacklen (received d).length (recvDatagram d s)) := by
  have hload := load_recvDatagram d s
  by_cases hl : 4 ≤ (received d).length
  · have hlen : (received d).length = (payloadOf d).length + 4 := by
      rw [payloadOf, List.length_drop, thData]
      omega
    have hsub : (received d).length - 4 = (payloadOf d).length := by omega
    rw [hsub] at hload
    rw [hlen]
    exact (h.recv d).takeBlock hb hload oacklen
  · have hnil : payloadOf d = [] := List.drop_eq_nil_of_le (Nat.le_of_lt (Nat.lt_of_not_le hl))
    rw [hnil]
    exact (h.recv d).takeShort hb (Nat.lt_of_not_le hl) oacklen

/-- Everything that an event can do while a block is awaited. -/
theorem Expecting.step (h : Expecting t first acc s) (oacklen : Nat) (e : Event) :
    let r := waitStep t oacklen s e
    (∃ d, e = .datagram d ∧ SeenAsData (bn t.rolloverVal acc.length) d ∧
      Accepts t first acc (payloadOf d) r) ∨
    SendsReply t first acc r ∨
    (r.2 = [] ∧ (Expecting t first acc r.1 ∨ ∃ how, r.1.phase = .ended how)) := by
  cases e with
  | timeout =>
    simp only [waitStep]
    cases timer t.maxtimeout false s.timeout with
    | none => exact .inr (.inr ⟨rfl, .inr ⟨_, rfl⟩⟩)
    | some timeout => exact .inr (.inl (h.timeout timeout).sendAck)
  | recvError => exact .inr (.inr ⟨rfl, .inr ⟨_, rfl⟩⟩)
  | datagram d =>
    have hs' := h.recv d
    rw [waitStep_datagram]
    by_cases he : (recvDatagram d s).dpOpcode = ERROR
    · simp only [if_pos he]
      exact .inr (.inr ⟨trivial, .inr ⟨_, rfl⟩⟩)
    by_cases hd : (recvDatagram d s).dpOpcode = DATA
    · by_cases hb : (recvDatagram d s).dpBlock = s.block
      · simp only [if_neg he, if_pos hd, if_pos hb]
        have hb' := hb.trans h.block
        exact .inl ⟨d, rfl, ⟨_, hd, hb'⟩, h.blockReceived d hb' oacklen⟩
      by_cases hr : ((recvDatagram d s).dpBlock.toNat : Int) = s.block.toNat - 1
      · simp only [if_neg he, if_pos hd, if_neg hb, if_pos hr]
        exact .inr (.inl hs'.sendAck)
      · simp only [if_neg he, if_pos hd, if_neg hb, if_neg hr]
        exact .inr (.inr ⟨trivial, .inl hs'⟩)
    · simp only [if_neg he, if_neg hd]
      exact .inr (.inr ⟨trivial, .inl hs'⟩)

def Action.accepted? : Action → Option (UInt16 × List UInt8)
  | .accept block payload => some (block, payload)
  | _ => none

/-- Every datagram is the reply that is due at its place, when `i` blocks were accepted
before the first of the actions. -/
def Replies (t : Transfer) (first : List UInt8) : Nat → List Action → Prop
  | _, [] => True
  | i, .send d :: as => d = replyTo t first i ∧ Replies t first i as
  | i, .accept _ _ :: as => Replies t first (i + 1) as
  | i, _ :: as => Replies t first i as

theorem Replies.append (h : Replies t first i as)
    (h' : Replies t first (i + (as.filterMap Action.accepted?).length) bs) :
    Replies t first i (as ++ bs) := by
  induction as generalizing i with
  | nil => exact h'
  | cons a as ih =>
    cases a with
    | send d => exact ⟨h.1, ih h.2 h'⟩
    | accept block payload =>
      apply ih h
      simp only [List.filterMap_cons, Action.accepted?, List.length_cons] at h'
      rwa [Nat.add_right_comm, Nat.add_assoc]
    | nak | setFlagUpload | setFlagDownload | incrementBlock | endOperation => exact ih h h'

theorem Replies.at (h : Replies t first i (as ++ .send d :: bs)) :
    d = replyTo t first (i + (as.filterMap Action.accepted?).length) := by
  induction as generalizing i with
  | nil => exact h.1
  | cons a as ih =>
    cases a with
    | send => exact ih h.2
    | accept block payload =>
      have hd := ih h
      rw [Nat.add_right_comm, Nat.add_assoc] at hd
      exact hd
    | nak | setFlagUpload | setFlagDownload | incrementBlock | endOperation => exact ih h

theorem SendsReply.replies (h : SendsReply t first acc r) :
    Replies t first acc.length r.2 ∧ r.2.filterMap Action.accepted? = [] ∧
      .endOperation ∉ r.2 ∧ (Expecting t first acc r.1 ∨ r.1.phase = .ended .aborted) := by
  rcases h with ⟨he, ha⟩ | ⟨he, ha⟩
  · rw [ha]
    exact ⟨⟨rfl, trivial⟩, rfl, by simp, .inl he⟩
  · rw [ha]
    exact ⟨trivial, rfl, List.not_mem_nil, .inr he⟩

def acceptLog (t : Transfer) (ds : List (List UInt8)) :
    List (Option Event × UInt16 × List UInt8) :=
  ds.mapIdx fun i d => (some (.datagram d), bn t.rolloverVal i, payloadOf d)

def accepted (ds : List (List UInt8)) : List (List UInt8) := ds.map payloadOf

@[simp] theorem length_accepted (ds : List (List UInt8)) : (accepted ds).length = ds.length :=
  List.length_map _

theorem accepted_concat (ds : List (List UInt8)) (d : List UInt8) :
    accepted (ds ++ [d]) = accepted ds ++ [payloadOf d] := by
  simp only [accepted, List.map_append, List.map_cons, List.map_nil]

theorem acceptLog_concat (t : Transfer) (ds : List (List UInt8)) (d : List UInt8) :
    acceptLog t (ds ++ [d]) = acceptLog t ds ++
      [(some (.datagram d), bn t.rolloverVal ds.length, payloadOf d)] := List.mapIdx_concat

/-- The loop of `tftp_recvfile` has ended normally. -/
def Uploaded (c : Config RecvState Event Action) : Prop := .endOperation ∈ c.log.map Prod.snd

/-- What relates a configuration of `tftp_recvfile` to the packets it has accepted. -/
structure ReceiverTrace (t : Transfer) (first : List UInt8) (ds : List (List UInt8))
    (c : Config RecvState Event Action) : Prop where
  accepts : c.observe Action.accepted? = acceptLog t ds
  seen : ∀ i d, ds[i]? = some d → SeenAsData (bn t.rolloverVal i) d
  replies : Replies t first 0 (c.log.map Prod.snd)
  state : (Expecting t first (accepted ds) c.state ∧ ¬ Uploaded c) ∨
    Dallying t (accepted ds) c.state ∨
    ((∃ how, c.state.phase = .ended how) ∧
      (Uploaded c → Complete t (accepted ds) c.state.file))

section Receiver

variable {oack : Option Nat} {ackbuf : Mem} {ds : List (List UInt8)}
  {c : Config RecvState Event Action} {M : Machine RecvState Event Action}

theorem ReceiverTrace.count (h : ReceiverTrace t first ds c) :
    ((c.log.map Prod.snd).filterMap Action.accepted?).length = ds.length := by
  rw [← Config.observe_snd, h.accepts, List.length_map, acceptLog, List.length_mapIdx]

theorem uploaded_next (e : Event) :
    Uploaded (M.next c e) ↔ Uploaded c ∨ .endOperation ∈ (M.step c.state e).2 := by
  simp only [Uploaded, Machine.log_next, List.mem_append]

theorem ReceiverTrace.replies_next (h : ReceiverTrace t first ds c) (e : Event)
    (hr : Replies t first ds.length (M.step c.state e).2) :
    Replies t first 0 ((M.next c e).log.map Prod.snd) := by
  rw [Machine.log_next]
  apply h.replies.append
  rw [h.count, Nat.zero_add]
  exact hr

theorem ReceiverTrace.quiet (h : ReceiverTrace t first ds c) (e : Event)
    (hr : Replies t first ds.length (M.step c.state e).2)
    (ha : (M.step c.state e).2.filterMap Action.accepted? = [])
    (hu : .endOperation ∉ (M.step c.state e).2)
    (hs : (Expecting t first (accepted ds) (M.step c.state e).1 ∧ ¬ Uploaded c) ∨
      ((∃ how, (M.step c.state e).1.phase = .ended how) ∧
        (Uploaded c → Complete t (accepted ds) (M.step c.state e).1.file))) :
    ReceiverTrace t first ds (M.next c e) := by
  have hup : Uploaded (M.next c e) ↔ Uploaded c := by
    rw [uploaded_next]
    exact or_iff_left hu
  refine ⟨?_, h.seen, h.replies_next e hr, ?_⟩
  · rw [Machine.observe_next, ha, List.map_nil, List.append_nil, h.accepts]
  · rw [hup]
    rcases hs with hs | hs
    · exact .inl hs
    · exact .inr (.inr hs)

theorem ReceiverTrace.accept_actions (h : ReceiverTrace t first ds c) (hu : ¬ Uploaded c)
    (hd : SeenAsData (bn t.rolloverVal ds.length) d)
    (hacts : (M.step c.state (.datagram d)).2 =
      .accept (bn t.rolloverVal ds.length) (payloadOf d) ::
        .incrementBlock size :: as)
    (hr : Replies t first (ds.length + 1) as) (hn : as.filterMap Action.accepted? = [])
    (hs : let s' := (M.step c.state (.datagram d)).1
      (Expecting t first (accepted (ds ++ [d])) s' ∧ .endOperation ∉ as) ∨
      Dallying t (accepted (ds ++ [d])) s' ∨
      ((∃ how, s'.phase = .ended how) ∧ .endOperation ∉ as)) :
    ReceiverTrace t first (ds ++ [d]) (M.next c (.datagram d)) := by
  have hup (hne : .endOperation ∉ as) :
      ¬ Uploaded (M.next c (.datagram d)) := by
    rw [uploaded_next, hacts, List.mem_cons, List.mem_cons]
    rintro (hc | hc | hc | hc)
    · exact hu hc
    · cases hc
    · cases hc
    · exact hne hc
  refine ⟨?_, ?_, ?_, ?_⟩
  · rw [Machine.observe_next, hacts, h.accepts, acceptLog_concat]
    simp only [List.filterMap_cons, Action.accepted?, hn, List.map_cons, List.map_nil]
  · intro i d' hi
    rcases Nat.lt_trichotomy i ds.length with hl | rfl | hl
    · rw [List.getElem?_append_left hl] at hi
      exact h.seen i d' hi
    · rw [List.getElem?_concat_length] at hi
      cases hi
      exact hd
    · rw [List.getElem?_eq_none (by rw [List.length_append]; exact hl)] at hi
      cases hi
  · apply h.replies_next
    rw [hacts]
    exact hr
  · rcases hs with ⟨he, hne⟩ | hd | ⟨he, hne⟩
    · exact .inl ⟨he, hup hne⟩
    · exact .inr (.inl hd)
    · exact .inr (.inr ⟨he, fun hu' => absurd hu' (hup hne)⟩)

theorem ReceiverTrace.accept (h : ReceiverTrace t first ds c) (hu : ¬ Uploaded c)
    (hd : SeenAsData (bn t.rolloverVal ds.length) d)
    (ha : Accepts t first (accepted ds) (payloadOf d)
      (M.step c.state (.datagram d))) :
    ReceiverTrace t first (ds ++ [d]) (M.next c (.datagram d)) := by
  obtain ⟨size, as, hacts, hout⟩ := ha
  rw [length_accepted] at hacts
  rw [← accepted_concat] at hout
  have hlen : (accepted (ds ++ [d])).length = ds.length + 1 := by
    rw [length_accepted, List.length_append]
    rfl
  rcases hout with hs | ⟨hdally, hs⟩
  · obtain ⟨hr, hn, hne, hst⟩ := hs.replies
    rw [hlen] at hr
    apply h.accept_actions hu hd hacts hr hn
    rcases hst with he | he
    · exact .inl ⟨he, hne⟩
    · exact .inr (.inr ⟨⟨_, he⟩, hne⟩)
  · rw [hlen] at hs
    rcases hs with hs | hs
    · subst hs
      exact h.accept_actions hu hd hacts ⟨rfl, trivial⟩ rfl (.inr (.inl hdally))
    · subst hs
      exact h.accept_actions hu hd hacts trivial rfl (.inr (.inl hdally))

/-- After the final ACK, nothing but that ACK is sent again and the file stays as it is. -/
theorem Dallying.step (h : Dallying t acc s) (first : List UInt8) (e : Event) :
    (∃ how, (dallyStep t s e).1.phase = .ended how) ∧ (dallyStep t s e).1.file = s.file ∧
      ((dallyStep t s e).2 = [] ∨ (dallyStep t s e).2 = [.send (replyTo t first acc.length)]) := by
  have hreply : s.ackbuf.load 0 4 = replyTo t first acc.length := by
    rw [h.reply]
    cases hl : acc.length with
    | zero => exact absurd (List.length_eq_zero_iff.1 hl) h.some_accepted
    | succ i => rfl
  cases e with
  | timeout => exact ⟨⟨_, rfl⟩, rfl, .inl rfl⟩
  | recvError => exact ⟨⟨_, rfl⟩, rfl, .inl rfl⟩
  | datagram d =>
    refine ⟨⟨_, rfl⟩, rfl, ?_⟩
    simp only [dallyStep]
    rw [hreply]
    split
    · exact .inr rfl
    · exact .inl rfl

theorem ReceiverTrace.dally (h : ReceiverTrace t first ds c)
    (hd : Dallying t (accepted ds) c.state) (e : Event)
    (hstep : M.step c.state e = dallyStep t c.state e) :
    ReceiverTrace t first ds (M.next c e) := by
  obtain ⟨hend, hfile, hacts⟩ := hd.step first e
  rw [← hstep] at hend hfile hacts
  have hstate : (∃ how, (M.step c.state e).1.phase = .ended how) ∧
      (Uploaded c → Complete t (accepted ds) (M.step c.state e).1.file) := by
    refine ⟨hend, fun _ => ?_⟩
    rw [hfile]
    exact hd.complete
  rw [length_accepted] at hacts
  rcases hacts with ha | ha
  · exact h.quiet e (by rw [ha]; trivial) (by rw [ha]; rfl) (by rw [ha]; simp) (.inr hstate)
  · exact h.quiet e (by rw [ha]; exact ⟨rfl, trivial⟩) (by rw [ha]; rfl) (by rw [ha]; simp)
      (.inr hstate)

theorem ReceiverTrace.expecting (h : ReceiverTrace t first ds c) (hu : ¬ Uploaded c)
    (he : Expecting t first (accepted ds) c.state) (oacklen : Nat) (e : Event)
    (hstep : M.step c.state e = waitStep t oacklen c.state e) :
    ∃ ds, ReceiverTrace t first ds (M.next c e) := by
  have hcase := he.step oacklen e
  rw [← hstep] at hcase
  rcases hcase with ⟨d, rfl, hd, ha⟩ | hs | ⟨hq, hst⟩
  · rw [length_accepted] at hd
    exact ⟨_, h.accept hu hd ha⟩
  · obtain ⟨hr, hn, hne, hst⟩ := hs.replies
    rw [length_accepted] at hr
    refine ⟨ds, h.quiet _ hr hn hne ?_⟩
    rcases hst with he' | he'
    · exact .inl ⟨he', hu⟩
    · exact .inr ⟨⟨_, he'⟩, fun hu' => absurd hu' hu⟩
  · refine ⟨ds, h.quiet _ (by rw [hq]; trivial) (by rw [hq]; rfl) (by rw [hq]; simp) ?_⟩
    rcases hst with he' | he'
    · exact .inl ⟨he', hu⟩
    · exact .inr ⟨he', fun hu' => absurd hu' hu⟩

theorem ReceiverTrace.start (t : Transfer) (oack : Option Nat) (ackbuf : Mem) :
    ReceiverTrace t (firstReply oack ackbuf) [] (tftpRecvfile t oack ackbuf).init := by
  obtain ⟨hr, hn, hne, hst⟩ := (replyBlock_first t oack ackbuf t.bufsiz t.rexmtval).replies
  have hlog : (tftpRecvfile t oack ackbuf).init.log.map Prod.snd = .setFlagDownload ::
      (replyBlock t (oack.getD 0) (recvInit oack.isSome ackbuf t.bufsiz t.rexmtval)).2 := by
    simp only [Machine.init, tftpRecvfile, List.map_map]
    exact List.map_id _
  have hup : ¬ Uploaded (tftpRecvfile t oack ackbuf).init := by
    rw [Uploaded, hlog, List.mem_cons, not_or]
    exact ⟨by simp, hne⟩
  refine ⟨?_, ?_, ?_, ?_⟩
  · rw [Machine.observe_init]
    simp only [tftpRecvfile, List.filterMap_cons, Action.accepted?, hn, List.map_nil]
    rfl
  · intro i d hi
    cases hi
  · rw [hlog]
    exact hr
  · rcases hst with he | he
    · exact .inl ⟨he, hup⟩
    · exact .inr (.inr ⟨⟨_, he⟩, fun hu => absurd hu hup⟩)

theorem receiver_run (t : Transfer) (oack : Option Nat) (ackbuf : Mem) (es : List Event) :
    ∃ ds, ReceiverTrace t (firstReply oack ackbuf) ds ((tftpRecvfile t oack ackbuf).run es) := by
  induction es using List.reverseRecOn with
  | nil => exact ⟨[], .start t oack ackbuf⟩
  | append_singleton es e ih =>
    obtain ⟨ds, h⟩ := ih
    rw [Machine.run_concat]
    rcases h.state with ⟨he, hu⟩ | hd | ⟨⟨how, hp⟩, _⟩
    · exact h.expecting hu he (oack.getD 0) e (recvStep_waiting he.phase t _ _)
    · exact ⟨ds, h.dally hd _ (recvStep_dally hd.phase t _ _)⟩
    · rw [tftpRecvfile_ended t oack ackbuf hp e]
      exact ⟨ds, h⟩

theorem ReceiverTrace.complete (h : ReceiverTrace t first ds c) (hu : Uploaded c) :
    Complete t (accepted ds) c.state.file := by
  rcases h.state with ⟨_, hn⟩ | hd | ⟨_, hc⟩
  · exact absurd hu hn
  · exact hd.complete
  · exact hc hu

inductive PacketEvent where
  | timeout
  | packet (opcode block : UInt16) (payload : List UInt8)
  | recvError

def PacketEvent.event : PacketEvent → Event
  | .timeout => .timeout
  | .packet opcode block payload => .datagram (tftphdr opcode block ++ payload)
  | .recvError => .recvError

theorem SeenAsData.header {opcode block blk : UInt16} {payload : List UInt8}
    (h : SeenAsData block (tftphdr opcode blk ++ payload)) : opcode = DATA ∧ blk = block := by
  obtain ⟨m, ho, hb⟩ := h
  rw [received_packet] at ho hb
  rw [thOpcode_store] at ho
  rw [thBlock_store] at hb
  exact ⟨ho, hb⟩

theorem ReceiverTrace.packet {es : List PacketEvent}
    (h : ReceiverTrace t first ds (M.run (es.map PacketEvent.event))) (hi : ds[i]? = some d) :
    ∃ payload, .packet DATA (bn t.rolloverVal i) payload ∈ es ∧
      d = tftphdr DATA (bn t.rolloverVal i) ++ payload := by
  have hmem : (some (Event.datagram d), bn t.rolloverVal i, payloadOf d) ∈
      (M.run (es.map PacketEvent.event)).observe Action.accepted? := by
    rw [h.accepts]
    apply List.mem_of_getElem? (i := i)
    rw [acceptLog, List.getElem?_mapIdx, hi]
    rfl
  obtain ⟨e, he, hd⟩ := List.mem_map.1 (M.observe_cause _ _ hmem)
  cases e with
  | timeout => cases hd
  | recvError => cases hd
  | packet opcode block payload =>
    cases hd
    obtain ⟨rfl, rfl⟩ := (h.seen i _ hi).header
    exact ⟨payload, he, rfl⟩

/-- Over every sequence of timeouts and received packets, `tftp_recvfile` accepts the blocks in
the order of their numbers; each datagram it sends is the OACK (or ACK 0) while no block was
accepted and the ACK of the last accepted block afterwards; and when the loop has ended the
file is the text of all accepted payloads, each once and in order. -/
theorem tftpRecvfile_accepts_blocks (t : Transfer) (oack : Option Nat) (ackbuf : Mem)
    (es : List PacketEvent) :
    let c := (tftpRecvfile { t with faults := .clean } oack ackbuf).run (es.map PacketEvent.event)
    ∃ ds,
      c.observe Action.accepted? = acceptLog t ds ∧
      (∀ i d, ds[i]? = some d → ∃ payload, .packet DATA (bn t.rolloverVal i) payload ∈ es ∧
        d = tftphdr DATA (bn t.rolloverVal i) ++ payload) ∧
      (∀ pre cause d post, c.log = pre ++ (cause, .send d) :: post →
        d = replyTo t (firstReply oack ackbuf)
          ((pre.map Prod.snd).filterMap Action.accepted?).length) ∧
      (Uploaded c → c.state.file.stored = decode t.convert (accepted ds).flatten) := by
  intro c
  obtain ⟨ds, h⟩ := receiver_run { t with faults := .clean } oack ackbuf
    (es.map PacketEvent.event)
  refine ⟨ds, h.accepts, fun i d hi => h.packet hi, ?_, ?_⟩
  · intro pre cause d post hlog
    have hr := h.replies
    rw [hlog, List.map_append, List.map_cons] at hr
    have hd := hr.at
    rw [Nat.zero_add] at hd
    exact hd
  · intro hu
    exact (h.complete hu).stored fun _ _ => rfl

end Receiver

end WooTftpd
