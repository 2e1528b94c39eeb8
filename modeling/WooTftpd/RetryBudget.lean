import WooTftpd.Lib.Rounds
import WooTftpd.OptionList
import WooTftpd.Rollover
import WooTftpd.SendfileRun

namespace WooTftpd
open Lib
set_option autoImplicit true

/-- `TRIES`, the number of attempts to send each packet. -/
def tries : Nat := 6

theorem timeoutLimit_eq : timeoutLimit = 2 ^ tries - 1 := rfl

/-- The option `-T` of the command line; the server exits when there is no result. -/
def rexmtOption (optarg : List UInt8) (n : Negotiated) : Option Negotiated :=
  let tov := strtoumax optarg
  if tov.value < 10000 ∨ 255000000 < tov.value ∨ tov.rest ≠ [] then none
  else some { n with
    rexmtval := tov.value, timeout := tov.value, maxtimeout := tov.value * timeoutLimit }

/-- What the command line, the file and the options of a request can make of the variables. -/
inductive Settings (cfg : OptionConfig) : Negotiated → Prop where
  | default : Settings cfg .default
  | commandLine (h : Settings cfg n) (ht : rexmtOption optarg n = some n') : Settings cfg n'
  | file (h : Settings cfg n) (tsize : Nat) (tsizeOk : Bool) :
    Settings cfg { n with tsize := tsize, tsizeOk := tsizeOk }
  | option (h : Settings cfg n) (hd : doOpt cfg opt val n o = .returned n' o') : Settings cfg n'

variable {cfg : OptionConfig} {n n' : Negotiated} {t : Transfer}

/-- The interval is in the range that the server allows, and its limit goes with it. -/
structure Interval (rexmtval maxtimeout : Nat) : Prop where
  low : 10000 ≤ rexmtval
  high : rexmtval ≤ 255000000
  limit : maxtimeout = rexmtval * timeoutLimit

def Negotiated.HasInterval (n : Negotiated) : Prop := Interval n.rexmtval n.maxtimeout

theorem Negotiated.HasInterval.rexmtOption (h : rexmtOption optarg n = some n') :
    n'.HasInterval := by
  simp only [WooTftpd.rexmtOption] at h
  split at h
  · cases h
  · rename_i hrange
    rw [not_or, not_or] at hrange
    cases h
    exact ⟨Nat.le_of_not_lt hrange.1, Nat.le_of_not_lt hrange.2.1, rfl⟩

theorem setRexmtval_interval (hlow : 10000 ≤ low * scale) (hhigh : high * scale ≤ 255000000)
    (h : setRexmtval low high scale v n = some (v', n')) : n'.HasInterval := by
  simp only [setRexmtval] at h
  split at h
  · cases h
  · rename_i hrange
    rw [not_or] at hrange
    cases h
    refine ⟨?_, ?_, rfl⟩
    · exact Nat.le_trans hlow (Nat.mul_le_mul_right scale (Nat.le_of_not_lt hrange.1))
    · exact Nat.le_trans (Nat.mul_le_mul_right scale (Nat.le_of_not_lt hrange.2)) hhigh

theorem Negotiated.HasInterval.handler (hn : n.HasInterval) (name : OptionName)
    (h : name.handler cfg v n = some (v', n')) : n'.HasInterval := by
  cases name with
  | timeout => exact setRexmtval_interval (by decide) (by decide) h
  | utimeout => exact setRexmtval_interval (by decide) (by decide) h
  | blksize =>
    simp only [OptionName.handler, setBlksize] at h
    repeat' split at h
    all_goals cases h
    all_goals exact hn
  | blksize2 =>
    simp only [OptionName.handler, setBlksize2] at h
    repeat' split at h
    all_goals cases h
    all_goals exact hn
  | tsize =>
    simp only [OptionName.handler, setTsize] at h
    split at h
    · cases h
      exact hn
    · cases h
  | rollover =>
    simp only [OptionName.handler, setRollover] at h
    split at h
    · cases h
    · cases h
      exact hn

theorem Settings.interval (h : Settings cfg n) : n.HasInterval := by
  induction h with
  | default => exact ⟨by decide, by decide, rfl⟩
  | commandLine h ht ih => exact .rexmtOption ht
  | file h tsize tsizeOk ih => exact ih
  | @option n opt val o n' o' h hd ih =>
    cases hr : recognized cfg opt val with
    | none =>
      rw [doOpt_ignored hr] at hd
      cases hd
      exact ih
    | some r =>
      obtain ⟨v', hh, _, _⟩ := doOpt_returned hr hd
      exact Negotiated.HasInterval.handler (n := n.unset) ih r.1 hh

theorem Interval.mul_pow (h : Interval rexmtval maxtimeout) (hk : k ≤ tries) :
    rexmtval * 2 ^ k < 2 ^ 64 := by
  have hpow : 2 ^ k ≤ 2 ^ tries := Nat.pow_le_pow_right (by decide) hk
  calc rexmtval * 2 ^ k ≤ 255000000 * 2 ^ tries := Nat.mul_le_mul h.high hpow
    _ < 2 ^ 64 := by decide

theorem Interval.limit_le_iff (h : Interval rexmtval maxtimeout) (hk : k ≤ tries) :
    maxtimeout ≤ rexmtval * 2 ^ k ↔ k = tries := by
  have hpos : 0 < rexmtval := Nat.lt_of_lt_of_le (by decide) h.low
  rw [h.limit, timeoutLimit_eq, Nat.mul_le_mul_left_iff hpos]
  constructor
  · intro hle
    by_contra hne
    have hlt : 2 ^ k ≤ 2 ^ 5 := Nat.pow_le_pow_right (by decide) (by rw [tries] at hk hne; omega)
    exact absurd (Nat.le_trans hle hlt) (by decide)
  · rintro rfl
    exact Nat.sub_le _ _

/-- The counter is not there, but the doubled timeout is: after `k` timeouts the next one
either doubles it again or is the last. -/
theorem Interval.timer (h : Interval rexmtval maxtimeout) (hk : k < tries) :
    timer maxtimeout false (rexmtval * 2 ^ k) =
      if k + 1 = tries then none else some (rexmtval * 2 ^ (k + 1)) := by
  have hmod : rexmtval * 2 ^ k * 2 % 2 ^ 64 = rexmtval * 2 ^ (k + 1) := by
    rw [Nat.mul_assoc, ← Nat.pow_succ]
    exact Nat.mod_eq_of_lt (h.mul_pow hk)
  simp only [WooTftpd.timer, hmod, Bool.false_eq_true, or_false, h.limit_le_iff hk]

def Event.isTimeout : Event → Bool
  | .timeout => true
  | _ => false

def timeouts (es : List Event) : Nat := es.countP Event.isTimeout

theorem timeouts_concat (es : List Event) (e : Event) :
    timeouts (es ++ [e]) = timeouts es + if e.isTimeout then 1 else 0 := by
  rw [timeouts, List.countP_append, List.countP_singleton]
  rfl

/-- What is known of the budget after `k` timeouts: some is left, and the process exits on the
event that is the last timeout, and on no other. -/
structure Budget (t : Transfer) (k timeout : Nat) (exits : Event → Prop) : Prop where
  left : k < tries
  timeout : timeout = t.rexmtval * 2 ^ k
  exits : ∀ e, exits e ↔ e.isTimeout = true ∧ k + 1 = tries

/-- What is true of a timeout exactly when it is the last one, and of no other event, is true of
the last timeout alone. -/
theorem last_timeout_iff {P : Event → Prop} (hlast : P .timeout ↔ k + 1 = tries)
    (hother : ∀ e : Event, e.isTimeout = false → ¬ P e) (e : Event) :
    P e ↔ e.isTimeout = true ∧ k + 1 = tries := by
  cases he : e.isTimeout with
  | false => exact iff_of_false (hother e he) fun h => Bool.false_ne_true h.1
  | true =>
    cases e with
    | datagram d => cases he
    | recvError => cases he
    | timeout => exact hlast.trans (and_iff_right rfl).symm

section Sender

variable {s : SendState}

/-- The state of `tftp_sendfile` in which the packet `d` was sent and `k` timeouts have passed
since it was first sent. -/
structure Sending (t : Transfer) (d : List UInt8) (k : Nat) (s : SendState) : Prop where
  phase : s.phase = .data
  dp : s.dp = s.subs.current
  used : (s.subs.bfs s.subs.current).counter ≠ bfFree
  packet : (s.subs.bfs s.dp).buf.load 0 (s.size + 4).toNat = d
  timeout : s.timeout = t.rexmtval * 2 ^ k

theorem Sending.sendData (h : Sending t d k s) :
    let r := sendData t s
    (r.1.phase = .data ∧ Sending t d k r.1 ∧ r.2.filterMap Action.sent? = [d]) ∨
      (r.1.phase = .ended .aborted ∧ r.2.filterMap Action.sent? = []) := by
  simp only [WooTftpd.sendData]
  split
  · obtain ⟨hc, hb⟩ := readAhead_keeps h.used t.convert t.segsize s.file
    refine .inl ⟨h.phase, ⟨h.phase, h.dp.trans hc.symm, ?_, ?_, h.timeout⟩, ?_⟩
    · rw [hc, hb]
      exact h.used
    · dsimp only
      rw [h.dp, hb, ← h.dp]
      exact h.packet
    · rw [h.packet]
      rfl
  · exact .inr ⟨rfl, rfl⟩

theorem load_header (m : Mem) (opcode block : UInt16) (n : Nat) :
    tftphdr opcode block <+: (m.store 0 (tftphdr opcode block)).load 0 (4 + n) := by
  have hh : (m.store 0 (tftphdr opcode block)).load 0 4 = tftphdr opcode block :=
    Mem.load_store m 0 (tftphdr opcode block)
  rw [Mem.load_add, hh]
  exact List.prefix_append _ _

/-- A block that was read is sent with the whole budget. -/
theorem readBlock_sending (hp : s.phase = .data) :
    let r := readBlock t s
    (∃ d, tftphdr DATA s.block <+: d ∧ r.1.phase = .data ∧ Sending t d 0 r.1 ∧
        r.2.filterMap Action.sent? = [d]) ∨
      (r.1.phase = .ended .aborted ∧ r.2.filterMap Action.sent? = []) := by
  simp only [readBlock]
  split
  · exact .inr ⟨rfl, rfl⟩
  · rename_i hsize
    let r := readit t.convert t.segsize s.subs s.file
    let m := (r.1.bfs r.1.current).buf.store 0 (tftphdr DATA s.block)
    have hcount : r.2.2 = (r.1.bfs r.1.current).counter := rfl
    have hlen : (r.2.2 + 4).toNat = 4 + r.2.2.toNat := by
      change ¬ r.2.2 < 0 at hsize
      omega
    have hsending : Sending t (m.load 0 (4 + r.2.2.toNat)) 0
        { s with
          subs := r.1.setBuf r.1.current m, file := r.2.1, dp := r.1.current, size := r.2.2
          timeout := t.rexmtval } := by
      refine ⟨hp, rfl, ?_, ?_, (Nat.mul_one _).symm⟩
      · simp only [Subs.setBuf, Subs.setBf_current, Subs.setBf_same, ← hcount, bfFree]
        omega
      · dsimp only
        rw [Subs.setBuf, Subs.setBf_same, hlen]
    rcases hsending.sendData with ⟨hd, hs, hq⟩ | ha
    · exact .inl ⟨_, load_header _ _ _ _, hd, hs, hq⟩
    · exact .inr ha

theorem Sending.ackbuf (h : Sending t d k s) (m : Mem) : Sending t d k { s with ackbuf := m } :=
  ⟨h.phase, h.dp, h.used, h.packet, h.timeout⟩

theorem Sending.again (h : Sending t d k s) (timeout : Nat)
    (hk : timeout = t.rexmtval * 2 ^ (k + 1)) : Sending t d (k + 1) { s with timeout := timeout } :=
  ⟨h.phase, h.dp, h.used, h.packet, hk⟩

theorem Sending.timeout_step (h : Sending t d k s) (ht : Interval t.rexmtval t.maxtimeout)
    (hk : k < tries) (oacklen : Nat) :
    let r := sendStep t oacklen s .timeout
    (k + 1 = tries ∧ r.1.phase = .ended .exited) ∨
      (k + 1 < tries ∧ r.1.phase = .data ∧ Sending t d (k + 1) r.1 ∧
        r.2.filterMap Action.sent? = [d]) ∨
      (k + 1 < tries ∧ r.1.phase = .ended .aborted) := by
  rw [sendStep_data h.phase]
  simp only [parse, dataStep, h.timeout, ht.timer hk]
  by_cases hlast : k + 1 = tries
  · rw [if_pos hlast]
    exact .inl ⟨hlast, rfl⟩
  · have hleft : k + 1 < tries := Nat.lt_of_le_of_ne hk hlast
    rw [if_neg hlast]
    rcases (h.again _ rfl).sendData with hs | ha
    · exact .inr (.inl ⟨hleft, hs⟩)
    · exact .inr (.inr ⟨hleft, ha.1⟩)

theorem readBlock_not_exited (t : Transfer) (hp : s.phase = .data) :
    (readBlock t s).1.phase ≠ .ended .exited := by
  rcases readBlock_sending hp with ⟨_, _, hd, _⟩ | ⟨ha, _⟩
  · rw [hd]
    decide
  · rw [ha]
    decide

theorem blockAcked_not_exited (t : Transfer) (hp : s.phase = .data) :
    (blockAcked t s).1.phase ≠ .ended .exited := by
  simp only [blockAcked]
  split
  · exact readBlock_not_exited t hp
  · have hne : SendPhase.ended .completed ≠ .ended .exited := by decide
    exact hne

/-- An event other than a timeout leaves the packet alone or acknowledges it, or it ends the
transfer. -/
theorem Sending.other_step (h : Sending t d k s) (oacklen : Nat) (he : e.isTimeout = false) :
    let r := sendStep t oacklen s e
    (r.1.phase = .data ∧ Sending t d k r.1 ∧ r.2 = []) ∨
      (∃ s', s'.phase = .data ∧ r = blockAcked t s') ∨ r.1.phase = .ended .aborted := by
  rw [sendStep_data h.phase]
  cases e with
  | timeout => cases he
  | recvError => exact .inr (.inr rfl)
  | datagram m =>
    simp only [parse, dataStep]
    split
    · exact .inr (.inr rfl)
    split
    · exact .inr (.inl ⟨{ s with ackbuf := s.ackbuf.store 0 (received m) }, h.phase, rfl⟩)
    · exact .inl ⟨h.phase, h.ackbuf _, rfl⟩

theorem Sending.exits (h : Sending t d k s) (ht : Interval t.rexmtval t.maxtimeout)
    (hk : k < tries) (oacklen : Nat) (e : Event) :
    (sendStep t oacklen s e).1.phase = .ended .exited ↔ e.isTimeout = true ∧ k + 1 = tries := by
  have hdata : SendPhase.data ≠ .ended .exited := by decide
  have habort : SendPhase.ended .aborted ≠ .ended .exited := by decide
  refine last_timeout_iff (P := fun e => (sendStep t oacklen s e).1.phase = .ended .exited) ?_ ?_ e
  · rcases h.timeout_step ht hk oacklen with ⟨hlast, hp⟩ | ⟨hleft, hp, _⟩ | ⟨hleft, hp⟩
    · exact iff_of_true hp hlast
    · refine iff_of_false ?_ (Nat.ne_of_lt hleft)
      rw [hp]
      exact hdata
    · refine iff_of_false ?_ (Nat.ne_of_lt hleft)
      rw [hp]
      exact habort
  · intro e he
    rcases h.other_step oacklen he with ⟨hp, _⟩ | ⟨s', hp, hr⟩ | hp
    · rw [hp]
      exact hdata
    · rw [hr]
      exact blockAcked_not_exited t hp
    · rw [hp]
      exact habort

/-- While the block is awaited, it is sent again on each timeout and on nothing else. -/
theorem Sending.kept (h : Sending t d k s) (ht : Interval t.rexmtval t.maxtimeout)
    (hk : k < tries) (oacklen : Nat) (e : Event) (hp : (sendStep t oacklen s e).1.phase = .data)
    (ha : (sendStep t oacklen s e).2.filterMap Action.acked? = []) :
    let again := if e.isTimeout then 1 else 0
    k + again < tries ∧ Sending t d (k + again) (sendStep t oacklen s e).1 ∧
      (sendStep t oacklen s e).2.filterMap Action.sent? = List.replicate again d := by
  cases he : e.isTimeout with
  | false =>
    rcases h.other_step oacklen he with ⟨_, hs, hr⟩ | ⟨s', _, hr⟩ | hr
    · refine ⟨hk, hs, ?_⟩
      rw [hr]
      rfl
    · rw [hr, (blockAcked_acked t s').2] at ha
      cases ha
    · rw [hr] at hp
      cases hp
  | true =>
    cases e with
    | datagram m => cases he
    | recvError => cases he
    | timeout =>
      rcases h.timeout_step ht hk oacklen with ⟨_, hr⟩ | ⟨hleft, _, hs, hq⟩ | ⟨_, hr⟩
      · rw [hr] at hp
        cases hp
      · exact ⟨hleft, hs, hq⟩
      · rw [hr] at hp
        cases hp

/-- A block has just been sent for the first time. -/
def Fresh (t : Transfer) (r : SendState × List Action) : Prop :=
  ∃ d, tftphdr DATA r.1.block <+: d ∧ Sending t d 0 r.1 ∧ r.2.filterMap Action.sent? = [d]

theorem readBlock_fresh (hp : s.phase = .data) (hd : (readBlock t s).1.phase = .data) :
    Fresh t (readBlock t s) := by
  rcases readBlock_sending hp with ⟨d, hheader, _, hs, hq⟩ | ⟨ha, _⟩
  · refine ⟨d, ?_, hs, hq⟩
    rw [(readBlock_acked t s).1]
    exact hheader
  · rw [hd] at ha
    cases ha

theorem sendStep_fresh (oacklen : Nat) (e : Event)
    (hd : (sendStep t oacklen s e).1.phase = .data)
    (hnew : s.phase = .data → (sendStep t oacklen s e).2.filterMap Action.acked? ≠ []) :
    Fresh t (sendStep t oacklen s e) := by
  cases hp : s.phase with
  | ended how =>
    rw [sendStep_ended hp, hp] at hd
    cases hd
  | option =>
    rw [sendStep_option hp] at hd ⊢
    rcases optionStep_cases t oacklen { s with ackbuf := (parse s.ackbuf e).1 }
      (parse s.ackbuf e).2 with ⟨_, _, hs, _⟩ | ⟨⟨how, _, hs⟩, _⟩ | ⟨_, hs⟩
    · rw [hs] at hd
      exact absurd (hp.symm.trans hd) (by decide)
    · rw [hs] at hd
      cases hd
    · rw [hs] at hd ⊢
      exact readBlock_fresh rfl hd
  | data =>
    have ha := hnew hp
    rw [sendStep_data hp] at hd ha ⊢
    rcases dataStep_acked t { s with ackbuf := (parse s.ackbuf e).1 } (parse s.ackbuf e).2 with
      ⟨_, hr⟩ | ⟨_, hq⟩
    · rw [hr] at hd ⊢
      simp only [blockAcked] at hd ⊢
      split at hd
      · rename_i hfull
        rw [if_pos hfull]
        exact readBlock_fresh hp hd
      · cases hd
    · exact absurd hq ha

/-- The block whose ACK is awaited. -/
def awaitedAck (c : Config SendState Event Action) : Option Nat :=
  if c.state.phase = .data then some (acknowledged c) else none

theorem awaitedAck_eq_some {c : Config SendState Event Action} :
    awaitedAck c = some i ↔ c.state.phase = .data ∧ acknowledged c = i := by
  rw [awaitedAck, Option.ite_none_right_eq_some, Option.some.injEq]

theorem acknowledged_next (M : Machine SendState Event Action)
    (c : Config SendState Event Action) (e : Event) :
    acknowledged (M.next c e) =
      acknowledged c + ((M.step c.state e).2.filterMap Action.acked?).length := by
  rw [acknowledged, Machine.log_next, List.filterMap_append, List.length_append]
  rfl

theorem sendfile_rounds (t : Transfer) (oack : Option Nat) (ackbuf : Mem) (f : InFile) :
    Rounds (tftpSendfile t oack ackbuf f) awaitedAck
      fun c => ∃ how, c.state.phase = .ended how where
  mono := by
    intro c e i j hi hj
    rw [← (awaitedAck_eq_some.1 hi).2, ← (awaitedAck_eq_some.1 hj).2, acknowledged_next]
    exact Nat.le_add_right _ _
  ends := by
    intro c e i hi hn
    have hp := (awaitedAck_eq_some.1 hi).1
    cases hq : ((tftpSendfile t oack ackbuf f).next c e).state.phase with
    | ended how => exact ⟨how, rfl⟩
    | data =>
      rw [awaitedAck, if_pos hq] at hn
      cases hn
    | option =>
      have hstep : (sendStep t (oack.getD 0) c.state e).1.phase = .option := hq
      exact absurd (hp.symm.trans (sendStep_stays hstep).1) (by decide)
  none_of_stopped := by
    rintro c ⟨how, hp⟩
    apply if_neg
    rw [hp]
    exact SendPhase.noConfusion
  stopped_next := by
    rintro c e ⟨how, hp⟩
    rw [tftpSendfile_ended t oack ackbuf f hp e]
    exact ⟨how, hp⟩

/-- What the events `w` have done since block `i` was first sent on the events `pre`. -/
structure SentSince (t : Transfer) (M : Machine SendState Event Action) (i : Nat)
    (pre w : List Event) (before : List (List UInt8)) (d : List UInt8) : Prop where
  header : tftphdr DATA (bn t.rolloverVal i) <+: d
  first : sentPackets (M.run pre) = before ++ [d]
  copies : sentPackets (M.run (pre ++ w)) = before ++ List.replicate (timeouts w + 1) d

variable {oack : Option Nat} {ackbuf : Mem} {f : InFile}

def Awaits (t : Transfer) (M : Machine SendState Event Action) (i : Nat)
    (pre w : List Event) : Prop :=
  ∃ before d, SentSince t M i pre w before d ∧ timeouts w < tries ∧
    Sending t d (timeouts w) (M.run (pre ++ w)).state

theorem Fresh.awaits {r : SendState × List Action} (h : Fresh t r)
    (hs : ((tftpSendfile t oack ackbuf f).run pre).state = r.1)
    (hi : awaitedAck ((tftpSendfile t oack ackbuf f).run pre) = some i)
    (hq : ∃ before, sentPackets ((tftpSendfile t oack ackbuf f).run pre) =
      before ++ r.2.filterMap Action.sent?) : Awaits t (tftpSendfile t oack ackbuf f) i pre [] := by
  obtain ⟨d, hheader, hsending, hsent⟩ := h
  obtain ⟨before, hq⟩ := hq
  have hblock := sendfile_block t oack ackbuf f pre
  dsimp only at hblock
  rw [hs, (awaitedAck_eq_some.1 hi).2] at hblock
  rw [hblock] at hheader
  rw [hsent] at hq
  refine ⟨before, d, ⟨hheader, hq, ?_⟩, by decide, ?_⟩
  · rw [List.append_nil]
    exact hq
  · rw [List.append_nil, hs]
    exact hsending

theorem Awaits.init (hi : awaitedAck (tftpSendfile t oack ackbuf f).init = some i) :
    Awaits t (tftpSendfile t oack ackbuf f) i [] [] := by
  have hp : (tftpSendfile t oack ackbuf f).start.1.phase = .data := (awaitedAck_eq_some.1 hi).1
  have hfresh : Fresh t (tftpSendfile t oack ackbuf f).start := by
    cases oack with
    | none => exact readBlock_fresh rfl hp
    | some oacklen =>
      rcases sendOack_cases t oacklen (sendInit ackbuf t.rexmtval f) with ⟨hs, _⟩ | ⟨hs, _⟩
      · have hoption : SendPhase.option = .data := (congrArg SendState.phase hs).symm.trans hp
        exact absurd hoption (by decide)
      · exact absurd (hs.symm.trans hp) (by decide)
  refine Fresh.awaits hfresh rfl hi ⟨[], ?_⟩
  exact congrArg _ (Machine.log_init _)

theorem Awaits.enter (hold : awaitedAck ((tftpSendfile t oack ackbuf f).run es) ≠ some i)
    (hi : awaitedAck ((tftpSendfile t oack ackbuf f).next
      ((tftpSendfile t oack ackbuf f).run es) e) = some i) :
    Awaits t (tftpSendfile t oack ackbuf f) i (es ++ [e]) [] := by
  obtain ⟨hp, hcount⟩ := awaitedAck_eq_some.1 hi
  have hfresh : Fresh t ((tftpSendfile t oack ackbuf f).step
      ((tftpSendfile t oack ackbuf f).run es).state e) := by
    apply sendStep_fresh _ e hp
    intro hd ha
    have hsame : acknowledged ((tftpSendfile t oack ackbuf f).run es) = i := by
      rw [acknowledged_next] at hcount
      exact (congrArg (fun as => _ + List.length as) ha).symm.trans hcount
    exact hold (awaitedAck_eq_some.2 ⟨hd, hsame⟩)
  apply hfresh.awaits
  · rw [Machine.run_concat]
    rfl
  · rw [Machine.run_concat]
    exact hi
  · rw [Machine.run_concat]
    exact ⟨_, sentPackets_next _ _ e⟩

theorem Awaits.step (h : Awaits t (tftpSendfile t oack ackbuf f) i pre w)
    (ht : Interval t.rexmtval t.maxtimeout)
    (hold : awaitedAck ((tftpSendfile t oack ackbuf f).run (pre ++ w)) = some i)
    (hi : awaitedAck ((tftpSendfile t oack ackbuf f).next
      ((tftpSendfile t oack ackbuf f).run (pre ++ w)) e) = some i) :
    Awaits t (tftpSendfile t oack ackbuf f) i pre (w ++ [e]) := by
  obtain ⟨before, d, hsince, hleft, hsending⟩ := h
  have hquiet : ((tftpSendfile t oack ackbuf f).step
      ((tftpSendfile t oack ackbuf f).run (pre ++ w)).state e).2.filterMap Action.acked? = [] := by
    have hcount := (awaitedAck_eq_some.1 hi).2
    rw [acknowledged_next, (awaitedAck_eq_some.1 hold).2] at hcount
    exact List.length_eq_zero_iff.1 (Nat.add_eq_left.1 hcount)
  obtain ⟨hleft', hsending', hsent⟩ :=
    hsending.kept ht hleft (oack.getD 0) e (awaitedAck_eq_some.1 hi).1 hquiet
  have hcopies (again : Nat) : List.replicate (timeouts w + again + 1) d =
      List.replicate (timeouts w + 1) d ++ List.replicate again d := by
    rw [Nat.add_right_comm]
    exact List.replicate_add _ _ _
  refine ⟨before, d, ⟨hsince.header, hsince.first, ?_⟩, ?_, ?_⟩
  · rw [← List.append_assoc, Machine.run_concat, sentPackets_next, hsince.copies, timeouts_concat,
      List.append_assoc, hcopies]
    exact congrArg (fun ds => before ++ (_ ++ ds)) hsent
  · rw [timeouts_concat]
    exact hleft'
  · rw [← List.append_assoc, Machine.run_concat, timeouts_concat]
    exact hsending'

/-- While a block is awaited it has been sent once more than there were timeouts, and these
were fewer than `TRIES`, whatever the timeouts for the blocks before it. -/
theorem sendfile_budget (ht : Interval t.rexmtval t.maxtimeout) (oack : Option Nat)
    (ackbuf : Mem) (f : InFile) (es : List Event)
    (hi : awaitedAck ((tftpSendfile t oack ackbuf f).run es) = some i) :
    let M := tftpSendfile t oack ackbuf f
    ∃ pre w, es = pre ++ w ∧ Begins M awaitedAck i pre ∧
      (∃ before d, SentSince t M i pre w before d) ∧
      Budget t (timeouts w) (M.run es).state.timeout fun e =>
        (M.step (M.run es).state e).1.phase = .ended .exited := by
  intro M
  obtain ⟨pre, w, rfl, hbegins, before, d, hsince, hleft, hsending⟩ :=
    (sendfile_rounds t oack ackbuf f).induction (fun _ h => Awaits.init h)
      (fun _ _ _ hold h => Awaits.enter hold h) (fun _ _ _ _ hp hold h => hp.step ht hold h) es hi
  exact ⟨pre, w, rfl, hbegins, ⟨before, d, hsince⟩, hleft, hsending.timeout,
    hsending.exits ht hleft _⟩

/-- What was sent when `k` blocks were sent: what the option phase sends, and then the blocks in
order, each at least once and at most `TRIES` times. -/
structure BlocksSent (t : Transfer) (oack : Option Nat) (ackbuf : Mem) (es : List Event)
    (ds : List (List UInt8)) (packet : Nat → List UInt8) (again : Nat → Nat) (k : Nat) :
    Prop where
  header : ∀ i < k, tftphdr DATA (bn t.rolloverVal i) <+: packet i
  copies : ∀ i < k, again i + 1 ≤ tries
  sent : ∃ opts, OptionSent oack ackbuf es opts ∧
    ds = opts ++ (stopAndWait .timeout (ackOf t) packet again k).map Prod.snd

theorem BlocksSent.none (ho : OptionSent oack ackbuf es ds) :
    BlocksSent t oack ackbuf es ds (fun _ => []) (fun _ => 0) 0 where
  header i hi := absurd hi (Nat.not_lt_zero i)
  copies i hi := absurd hi (Nat.not_lt_zero i)
  sent := ⟨ds, ho, (List.append_nil ds).symm⟩

theorem BlocksSent.append (h : BlocksSent t oack ackbuf es ds packet again k)
    (es' : List Event) : BlocksSent t oack ackbuf (es ++ es') ds packet again k := by
  obtain ⟨opts, ho, hsent⟩ := h.sent
  exact ⟨h.header, h.copies, opts, ho.append es', hsent⟩

theorem BlocksSent.resend (h : BlocksSent t oack ackbuf es ds packet again (k + 1))
    (hleft : again k + 1 < tries) (e : Event) :
    BlocksSent t oack ackbuf (es ++ [e]) (ds ++ [packet k]) packet
      (Function.update again k (again k + 1)) (k + 1) where
  header := h.header
  copies := by
    intro i hi
    by_cases hn : i = k
    · rw [hn, Function.update_self]
      exact hleft
    · rw [Function.update_of_ne hn]
      exact h.copies i hi
  sent := by
    obtain ⟨opts, ho, hsent⟩ := h.sent
    refine ⟨opts, ho.append [e], ?_⟩
    rw [stopAndWait_resend, List.map_append, ← List.append_assoc, ← hsent]
    rfl

theorem BlocksSent.next (h : BlocksSent t oack ackbuf es ds packet again k)
    (hd : tftphdr DATA (bn t.rolloverVal k) <+: d) (es' : List Event) :
    BlocksSent t oack ackbuf (es ++ es') (ds ++ [d]) (Function.update packet k d)
      (Function.update again k 0) (k + 1) where
  header := by
    intro i hi
    by_cases hn : i = k
    · rw [hn, Function.update_self]
      exact hd
    · rw [Function.update_of_ne hn]
      exact h.header i (by omega)
  copies := by
    intro i hi
    by_cases hn : i = k
    · rw [hn, Function.update_self]
      decide
    · rw [Function.update_of_ne hn]
      exact h.copies i (by omega)
  sent := by
    obtain ⟨opts, ho, hsent⟩ := h.sent
    refine ⟨opts, ho.append es', ?_⟩
    rw [stopAndWait_next, List.map_append, ← List.append_assoc, ← hsent]
    rfl

theorem readBlock_ended (hp : s.phase = .data) (h : (readBlock t s).1.phase = .ended how) :
    (readBlock t s).2.filterMap Action.sent? = [] := by
  rcases readBlock_sending hp with ⟨_, _, hd, _⟩ | ⟨_, hq⟩
  · cases hd.symm.trans h
  · exact hq

theorem dataStep_ended (hp : s.phase = .data) (e : Parsed)
    (h : (dataStep t s e).1.phase = .ended how) :
    (dataStep t s e).2.filterMap Action.sent? = [] := by
  cases e with
  | recvError => rfl
  | timeout =>
    simp only [dataStep] at h ⊢
    cases hnext : timer t.maxtimeout false s.timeout with
    | none => rfl
    | some timeout =>
      simp only [hnext, sendData] at h ⊢
      split at h
      · cases hp.symm.trans h
      · rename_i hfail
        rw [if_neg hfail]
        rfl
  | packet opcode block =>
    simp only [dataStep, blockAcked] at h ⊢
    split
    · rfl
    · rename_i hopcode
      rw [if_neg hopcode] at h
      split
      · rename_i hack
        rw [if_pos hack] at h
        split
        · rename_i hfull
          simp only [if_pos hfull] at h
          exact readBlock_ended (s := { s with block := nextBlock t.rolloverVal s.block }) hp h
        · rfl
      · rfl

/-- The transfer does not end on an event on which a packet is sent. -/
theorem sendStep_ended_sends (oacklen : Nat) (e : Event)
    (h : (sendStep t oacklen s e).1.phase = .ended how) :
    (sendStep t oacklen s e).2.filterMap Action.sent? = [] := by
  cases hp : s.phase with
  | ended how =>
    rw [sendStep_ended hp]
    rfl
  | option =>
    rw [sendStep_option hp] at h ⊢
    rcases optionStep_cases t oacklen { s with ackbuf := (parse s.ackbuf e).1 }
      (parse s.ackbuf e).2 with ⟨_, _, hs, _⟩ | ⟨_, hq⟩ | ⟨_, hs⟩
    · rw [hs] at h
      cases hp.symm.trans h
    · exact hq
    · rw [hs] at h ⊢
      exact readBlock_ended rfl h
  | data =>
    rw [sendStep_data hp] at h ⊢
    exact dataStep_ended (s := { s with ackbuf := (parse s.ackbuf e).1 }) hp _ h

/-- Where `tftp_sendfile` is with its blocks after the events `es`. -/
inductive InTurn (t : Transfer) (oack : Option Nat) (ackbuf : Mem) (es : List Event)
    (c : Config SendState Event Action) : Prop where
  | option (hoack : oack = some oacklen) (hp : c.state.phase = .option)
    (ha : acknowledged c = 0)
  | waiting (hp : c.state.phase = .data)
    (hs : BlocksSent t oack ackbuf es (sentPackets c) packet again (acknowledged c + 1))
    (hw : Sending t (packet (acknowledged c)) (again (acknowledged c)) c.state)
  | ended (hp : c.state.phase = .ended how)
    (hs : BlocksSent t oack ackbuf es (sentPackets c) packet again k)
    (hlow : acknowledged c ≤ k) (hhigh : k ≤ acknowledged c + 1)

theorem InTurn.fresh (h : Fresh t r) (hr : c.state = r.1)
    (hblock : c.state.block = bn t.rolloverVal (acknowledged c))
    (hp : c.state.phase = .data)
    (hs : BlocksSent t oack ackbuf es ds packet again k) (hk : acknowledged c = k)
    (hq : sentPackets c = ds ++ r.2.filterMap Action.sent?) :
    InTurn t oack ackbuf (es ++ es') c := by
  obtain ⟨d, hheader, hsending, hsent⟩ := h
  subst hk
  rw [← hr] at hheader hsending
  rw [hblock] at hheader
  rw [hsent] at hq
  have hnext := hs.next hheader es'
  rw [← hq] at hnext
  refine .waiting hp hnext ?_
  rw [Function.update_self, Function.update_self]
  exact hsending

theorem InTurn.init (t : Transfer) (oack : Option Nat) (ackbuf : Mem) (f : InFile) :
    InTurn t oack ackbuf [] (tftpSendfile t oack ackbuf f).init := by
  have hlog : sentPackets (tftpSendfile t oack ackbuf f).init =
      (tftpSendfile t oack ackbuf f).start.2.filterMap Action.sent? :=
    congrArg _ (Machine.log_init _)
  cases oack with
  | none =>
    have hblock := sendfile_block t none ackbuf f []
    have hacked : acknowledged (tftpSendfile t none ackbuf f).init = 0 := by
      have ha := (readBlock_acked t
        { sendInit ackbuf t.rexmtval f with phase := .data, subs := rInit .static }).2
      rw [acknowledged, Machine.log_init]
      exact congrArg List.length ha
    cases hp : (tftpSendfile t none ackbuf f).init.state.phase with
    | option => exact absurd hp (startData_phase t _)
    | data =>
      have hfresh : Fresh t (startData t (sendInit ackbuf t.rexmtval f)) := readBlock_fresh rfl hp
      have hnone : BlocksSent t none ackbuf [] [] _ _ 0 := .none (.inl rfl)
      exact InTurn.fresh hfresh rfl hblock hp hnone hacked hlog
    | ended how =>
      have hq := readBlock_ended
        (s := { sendInit ackbuf t.rexmtval f with phase := .data, subs := rInit .static }) rfl hp
      have hs : sentPackets (tftpSendfile t none ackbuf f).init = [] := hlog.trans hq
      refine .ended hp (.none (.inl hs)) (Nat.le_of_eq hacked) (Nat.zero_le _)
  | some oacklen =>
    have hacked : acknowledged (tftpSendfile t (some oacklen) ackbuf f).init = 0 := by
      have ha := (sendOack_acked t oacklen (sendInit ackbuf t.rexmtval f)).2
      rw [acknowledged, Machine.log_init]
      exact congrArg List.length ha
    rcases sendOack_cases t oacklen (sendInit ackbuf t.rexmtval f) with ⟨hs, _⟩ | ⟨hs, hq⟩
    · exact .option rfl (congrArg SendState.phase hs) hacked
    · refine .ended hs (.none (.inl (hlog.trans hq))) (Nat.le_of_eq hacked) (Nat.zero_le _)

theorem acknowledged_next_le (t : Transfer) (oack : Option Nat) (ackbuf : Mem) (f : InFile)
    (c : Config SendState Event Action) (e : Event) :
    acknowledged ((tftpSendfile t oack ackbuf f).next c e) ≤ acknowledged c + 1 := by
  rw [acknowledged_next]
  apply Nat.add_le_add_left
  rcases sendStep_acked t (oack.getD 0) c.state e with ⟨_, _, _, ha⟩ | ⟨_, ha⟩
  · exact Nat.le_of_eq (congrArg List.length ha)
  · exact (Nat.le_of_eq (congrArg List.length ha)).trans (Nat.zero_le 1)

theorem acknowledged_le_next (M : Machine SendState Event Action)
    (c : Config SendState Event Action) (e : Event) :
    acknowledged c ≤ acknowledged (M.next c e) := by
  rw [acknowledged_next]
  exact Nat.le_add_right _ _

theorem InTurn.option_step (hoack : oack = some oacklen)
    (hp : ((tftpSendfile t oack ackbuf f).run es).state.phase = .option)
    (ha : acknowledged ((tftpSendfile t oack ackbuf f).run es) = 0) (e : Event) :
    InTurn t oack ackbuf (es ++ [e]) ((tftpSendfile t oack ackbuf f).run (es ++ [e])) := by
  subst hoack
  have hblock := sendfile_block t (some oacklen) ackbuf f (es ++ [e])
  have ho := optionSent_run t oacklen ackbuf f es hp
  have hnext := Machine.run_concat (tftpSendfile t (some oacklen) ackbuf f) es e
  have hsent := (congrArg sentPackets hnext).trans (sentPackets_next _ _ e)
  have hacked : acknowledged ((tftpSendfile t (some oacklen) ackbuf f).run (es ++ [e])) = 0 := by
    rw [hnext, acknowledged_next, ha]
    rcases sendStep_acked t oacklen ((tftpSendfile t (some oacklen) ackbuf f).run es).state e with
      ⟨hd, _⟩ | ⟨_, hq⟩
    · cases hp.symm.trans hd
    · exact congrArg (fun as => 0 + List.length as) hq
  cases hq : ((tftpSendfile t (some oacklen) ackbuf f).run (es ++ [e])).state.phase with
  | option => exact .option rfl hq hacked
  | data =>
    have hstep := congrArg (fun c => c.state.phase) hnext
    have hfresh := sendStep_fresh oacklen e (hstep.symm.trans hq) fun hd =>
      absurd (hp.symm.trans hd) (by decide)
    exact InTurn.fresh hfresh (congrArg Config.state hnext) hblock hq (.none ho) hacked hsent
  | ended how =>
    have hstep := congrArg (fun c => c.state.phase) hnext
    have hquiet := sendStep_ended_sends oacklen e (hstep.symm.trans hq)
    refine .ended hq (.none ?_) (Nat.le_of_eq hacked) (Nat.zero_le _)
    rw [hsent]
    exact (congrArg (_ ++ ·) hquiet).trans (List.append_nil _) ▸ ho.append [e]

/-- On one more event the block that is awaited is sent again, or it is not. -/
theorem InTurn.kept (hp : c.state.phase = .data) (hk : acknowledged c = k)
    (hs : BlocksSent t oack ackbuf es ds packet again (k + 1)) (e : Event)
    (hkept : let more := if e.isTimeout then 1 else 0
      again k + more < tries ∧ Sending t (packet k) (again k + more) c.state ∧
        sentPackets c = ds ++ List.replicate more (packet k)) :
    InTurn t oack ackbuf (es ++ [e]) c := by
  subst hk
  obtain ⟨hleft, hw, hq⟩ := hkept
  cases he : e.isTimeout with
  | false =>
    rw [he] at hw hq
    have hsame : sentPackets c = ds := hq.trans (List.append_nil ds)
    have hall := hs.append [e]
    rw [← hsame] at hall
    exact .waiting hp hall hw
  | true =>
    rw [he] at hleft hw hq
    have hagain : sentPackets c = ds ++ [packet (acknowledged c)] := hq
    have hresend := hs.resend hleft e
    rw [← hagain] at hresend
    apply InTurn.waiting hp hresend
    rw [Function.update_self]
    exact hw

theorem InTurn.waiting_step (ht : Interval t.rexmtval t.maxtimeout)
    (hp : ((tftpSendfile t oack ackbuf f).run es).state.phase = .data)
    (hs : BlocksSent t oack ackbuf es (sentPackets ((tftpSendfile t oack ackbuf f).run es)) packet
      again (acknowledged ((tftpSendfile t oack ackbuf f).run es) + 1))
    (hw : Sending t (packet (acknowledged ((tftpSendfile t oack ackbuf f).run es)))
      (again (acknowledged ((tftpSendfile t oack ackbuf f).run es)))
      ((tftpSendfile t oack ackbuf f).run es).state) (e : Event) :
    InTurn t oack ackbuf (es ++ [e]) ((tftpSendfile t oack ackbuf f).run (es ++ [e])) := by
  have hblock := sendfile_block t oack ackbuf f (es ++ [e])
  have hnext := Machine.run_concat (tftpSendfile t oack ackbuf f) es e
  have hsent := (congrArg sentPackets hnext).trans (sentPackets_next _ _ e)
  have hleft := hs.copies _ (Nat.lt_succ_self _)
  cases hq : ((tftpSendfile t oack ackbuf f).run (es ++ [e])).state.phase with
  | option =>
    have hstep := congrArg (fun c => c.state.phase) hnext
    have hstay := (sendStep_stays (hstep.symm.trans hq)).1
    cases hp.symm.trans hstay
  | data =>
    have hstep := (congrArg (fun c => c.state.phase) hnext).symm.trans hq
    rcases sendStep_acked t (oack.getD 0) ((tftpSendfile t oack ackbuf f).run es).state e with
      ⟨_, _, _, ha⟩ | ⟨_, ha⟩
    · have hacked : acknowledged ((tftpSendfile t oack ackbuf f).run (es ++ [e])) =
          acknowledged ((tftpSendfile t oack ackbuf f).run es) + 1 := by
        rw [hnext, acknowledged_next]
        exact congrArg (fun as => _ + List.length as) ha
      have hfresh := sendStep_fresh (oack.getD 0) e hstep fun _ hnone =>
        absurd (ha.symm.trans hnone) (List.cons_ne_nil _ _)
      exact InTurn.fresh hfresh (congrArg Config.state hnext) hblock hq hs hacked hsent
    · have hacked : acknowledged ((tftpSendfile t oack ackbuf f).run (es ++ [e])) =
          acknowledged ((tftpSendfile t oack ackbuf f).run es) := by
        rw [hnext, acknowledged_next]
        exact congrArg (fun as => _ + List.length as) ha
      obtain ⟨hleft', hsending, hcopies⟩ := hw.kept ht hleft (oack.getD 0) e hstep ha
      refine .kept hq hacked hs e ⟨hleft', ?_, ?_⟩
      · rw [hnext]
        exact hsending
      · rw [hsent]
        exact congrArg (_ ++ ·) hcopies
  | ended how =>
    have hstep := (congrArg (fun c => c.state.phase) hnext).symm.trans hq
    have hquiet := sendStep_ended_sends (oack.getD 0) e hstep
    have hsame : sentPackets ((tftpSendfile t oack ackbuf f).run (es ++ [e])) =
        sentPackets ((tftpSendfile t oack ackbuf f).run es) := by
      rw [hsent]
      exact (congrArg (_ ++ ·) hquiet).trans (List.append_nil _)
    have hall := hs.append [e]
    rw [← hsame] at hall
    refine .ended hq hall ?_ ?_
    · rw [hnext]
      exact acknowledged_next_le t oack ackbuf f _ e
    · rw [hnext]
      exact Nat.succ_le_succ (acknowledged_le_next _ _ e)

theorem InTurn.ended_step
    (hp : ((tftpSendfile t oack ackbuf f).run es).state.phase = .ended how)
    (hs : BlocksSent t oack ackbuf es (sentPackets ((tftpSendfile t oack ackbuf f).run es)) packet
      again k)
    (hlow : acknowledged ((tftpSendfile t oack ackbuf f).run es) ≤ k)
    (hhigh : k ≤ acknowledged ((tftpSendfile t oack ackbuf f).run es) + 1) (e : Event) :
    InTurn t oack ackbuf (es ++ [e]) ((tftpSendfile t oack ackbuf f).run (es ++ [e])) := by
  rw [Machine.run_concat, tftpSendfile_ended t oack ackbuf f hp e]
  exact .ended hp (hs.append [e]) hlow hhigh

theorem inTurn_run (ht : Interval t.rexmtval t.maxtimeout) (oack : Option Nat) (ackbuf : Mem)
    (f : InFile) (es : List Event) :
    InTurn t oack ackbuf es ((tftpSendfile t oack ackbuf f).run es) := by
  induction es using List.reverseRecOn with
  | nil => exact .init t oack ackbuf f
  | append_singleton es e ih =>
    cases ih with
    | option hoack hp ha => exact .option_step hoack hp ha e
    | waiting hp hs hw => exact .waiting_step ht hp hs hw e
    | ended hp hs hlow hhigh => exact .ended_step hp hs hlow hhigh e

/-- Over a whole run every block that was acknowledged, and at most one more, was sent at least
once and at most `TRIES` times. -/
theorem sendfile_copies (ht : Interval t.rexmtval t.maxtimeout) (oack : Option Nat) (ackbuf : Mem)
    (f : InFile) (es : List Event) :
    let c := (tftpSendfile t oack ackbuf f).run es
    ∃ packet again k, BlocksSent t oack ackbuf es (sentPackets c) packet again k ∧
      acknowledged c ≤ k ∧ k ≤ acknowledged c + 1 := by
  intro c
  cases inTurn_run ht oack ackbuf f es with
  | option hoack hp ha =>
    subst hoack
    exact ⟨_, _, 0, .none (optionSent_run t _ ackbuf f es hp), Nat.le_of_eq ha, Nat.zero_le _⟩
  | waiting hp hs hw => exact ⟨_, _, _, hs, Nat.le_succ _, Nat.le_refl _⟩
  | ended hp hs hlow hhigh => exact ⟨_, _, _, hs, hlow, hhigh⟩

end Sender

section Receiver

variable {s : RecvState}

theorem sendAck_timeout (t : Transfer) (s : RecvState) :
    (sendAck t s).1.timeout = s.timeout ∧
      ((sendAck t s).1.phase = s.phase ∨ (sendAck t s).1.phase = .ended .aborted) ∧
      (sendAck t s).2.filterMap Action.accepted? = [] := by
  simp only [sendAck]
  split
  · exact ⟨rfl, .inl rfl, rfl⟩
  · exact ⟨rfl, .inr rfl, rfl⟩

theorem replyBlock_timeout (t : Transfer) (oacklen : Nat) (s : RecvState) :
    (replyBlock t oacklen s).1.timeout = t.rexmtval ∧
      ((replyBlock t oacklen s).1.phase = s.phase ∨
        (replyBlock t oacklen s).1.phase = .ended .aborted) := by
  simp only [replyBlock]
  split
  · obtain ⟨ht, hp, _⟩ := sendAck_timeout t { s with
      timeout := t.rexmtval, acksize := oacklen, block := nextBlock t.rolloverVal s.block }
    exact ⟨ht, hp⟩
  · obtain ⟨ht, hp, _⟩ := sendAck_timeout t { s with
      timeout := t.rexmtval, ackbuf := s.ackbuf.store 0 (tftphdr ACK s.block), acksize := 4
      oap := false, block := nextBlock t.rolloverVal s.block }
    exact ⟨ht, hp⟩

/-- A block that was accepted restores the timeout, if another one is awaited. -/
theorem blockReceived_timeout (t : Transfer) (oacklen n : Nat) (hp : s.phase = .waiting) :
    let r := blockReceived t oacklen n s
    r.1.phase ≠ .ended .exited ∧ (r.1.phase = .waiting → r.1.timeout = t.rexmtval) ∧
      r.2.filterMap Action.accepted? ≠ [] := by
  have hne : RecvPhase.ended .aborted ≠ .ended .exited := by decide
  rw [blockReceived_eq]
  dsimp only
  refine ⟨?_, ?_, List.cons_ne_nil _ _⟩
  · split
    · rcases (replyBlock_timeout t oacklen _).2 with hq | hq
      · rw [hq]
        exact hp ▸ RecvPhase.noConfusion
      · rw [hq]
        exact hne
    · exact RecvPhase.noConfusion
  · split
    · intro _
      exact (replyBlock_timeout t oacklen _).1
    · intro hq
      cases hq

/-- The state of `tftp_recvfile` when `k` timeouts have passed since it began to wait. -/
structure BackedOff (t : Transfer) (k : Nat) (s : RecvState) : Prop where
  phase : s.phase = .waiting
  timeout : s.timeout = t.rexmtval * 2 ^ k

theorem BackedOff.timeout_step (h : BackedOff t k s) (ht : Interval t.rexmtval t.maxtimeout)
    (hk : k < tries) (oacklen : Nat) :
    let r := recvStep t oacklen s .timeout
    (k + 1 = tries ∧ r.1.phase = .ended .exited) ∨
      (k + 1 < tries ∧ BackedOff t (k + 1) r.1) ∨
      (k + 1 < tries ∧ r.1.phase = .ended .aborted) := by
  rw [recvStep_waiting h.phase]
  simp only [waitStep, h.timeout, ht.timer hk]
  by_cases hlast : k + 1 = tries
  · rw [if_pos hlast]
    exact .inl ⟨hlast, rfl⟩
  · have hleft : k + 1 < tries := Nat.lt_of_le_of_ne hk hlast
    rw [if_neg hlast]
    obtain ⟨htime, hp, _⟩ := sendAck_timeout t { s with timeout := t.rexmtval * 2 ^ (k + 1) }
    rcases hp with hp | hp
    · exact .inr (.inl ⟨hleft, hp.trans h.phase, htime⟩)
    · exact .inr (.inr ⟨hleft, hp⟩)

theorem recvStep_other (t : Transfer) (oacklen : Nat) (hp : s.phase = .waiting)
    (he : e.isTimeout = false) :
    let r := recvStep t oacklen s e
    r.1.phase ≠ .ended .exited ∧
      ((r.1.phase = .waiting ∧ r.1.timeout = s.timeout ∧ r.2.filterMap Action.accepted? = []) ∨
        ((r.1.phase = .waiting → r.1.timeout = t.rexmtval) ∧
          r.2.filterMap Action.accepted? ≠ []) ∨ r.1.phase = .ended .aborted) := by
  have hne : RecvPhase.ended .aborted ≠ .ended .exited := by decide
  have hwait : RecvPhase.waiting ≠ .ended .exited := by decide
  rw [recvStep_waiting hp]
  cases e with
  | timeout => cases he
  | recvError => exact ⟨hne, .inr (.inr rfl)⟩
  | datagram d =>
    have hs : (recvDatagram d s).phase = .waiting := hp
    rw [waitStep_datagram]
    dsimp only
    split
    · exact ⟨hne, .inr (.inr rfl)⟩
    split
    · split
      · obtain ⟨hexit, htime, hacc⟩ := blockReceived_timeout t oacklen (received d).length hs
        exact ⟨hexit, .inr (.inl ⟨htime, hacc⟩)⟩
      split
      · obtain ⟨htime, hq, hacc⟩ := sendAck_timeout t (recvDatagram d s)
        rcases hq with hq | hq
        · rw [hq, hs]
          exact ⟨hwait, .inl ⟨rfl, htime, hacc⟩⟩
        · rw [hq]
          exact ⟨hne, .inr (.inr rfl)⟩
      · rw [hs]
        exact ⟨hwait, .inl ⟨rfl, rfl, rfl⟩⟩
    · rw [hs]
      exact ⟨hwait, .inl ⟨rfl, rfl, rfl⟩⟩

theorem BackedOff.exits (h : BackedOff t k s) (ht : Interval t.rexmtval t.maxtimeout)
    (hk : k < tries) (oacklen : Nat) (e : Event) :
    (recvStep t oacklen s e).1.phase = .ended .exited ↔ e.isTimeout = true ∧ k + 1 = tries := by
  have hwait : RecvPhase.waiting ≠ .ended .exited := by decide
  have habort : RecvPhase.ended .aborted ≠ .ended .exited := by decide
  refine last_timeout_iff (P := fun e => (recvStep t oacklen s e).1.phase = .ended .exited) ?_ ?_ e
  · rcases h.timeout_step ht hk oacklen with ⟨hlast, hp⟩ | ⟨hleft, hs⟩ | ⟨hleft, hp⟩
    · exact iff_of_true hp hlast
    · refine iff_of_false ?_ (Nat.ne_of_lt hleft)
      rw [hs.phase]
      exact hwait
    · refine iff_of_false ?_ (Nat.ne_of_lt hleft)
      rw [hp]
      exact habort
  · intro e he
    exact (recvStep_other t oacklen h.phase he).1

theorem BackedOff.kept (h : BackedOff t k s) (ht : Interval t.rexmtval t.maxtimeout)
    (hk : k < tries) (oacklen : Nat) (e : Event)
    (hp : (recvStep t oacklen s e).1.phase = .waiting)
    (ha : (recvStep t oacklen s e).2.filterMap Action.accepted? = []) :
    let again := if e.isTimeout then 1 else 0
    k + again < tries ∧ BackedOff t (k + again) (recvStep t oacklen s e).1 := by
  cases he : e.isTimeout with
  | false =>
    rcases (recvStep_other t oacklen h.phase he).2 with ⟨_, htime, _⟩ | ⟨_, hne⟩ | hq
    · exact ⟨hk, hp, htime.trans h.timeout⟩
    · exact absurd ha hne
    · rw [hq] at hp
      cases hp
  | true =>
    cases e with
    | datagram m => cases he
    | recvError => cases he
    | timeout =>
      rcases h.timeout_step ht hk oacklen with ⟨_, hq⟩ | ⟨hleft, hs⟩ | ⟨_, hq⟩
      · rw [hq] at hp
        cases hp
      · exact ⟨hleft, hs⟩
      · rw [hq] at hp
        cases hp

theorem recvStep_fresh (t : Transfer) (oacklen : Nat) (e : Event)
    (hp : (recvStep t oacklen s e).1.phase = .waiting)
    (ha : (recvStep t oacklen s e).2.filterMap Action.accepted? ≠ []) :
    BackedOff t 0 (recvStep t oacklen s e).1 := by
  refine ⟨hp, ?_⟩
  rw [Nat.pow_zero, Nat.mul_one]
  cases hs : s.phase with
  | ended how =>
    rw [recvStep_ended hs] at ha
    exact absurd rfl ha
  | dally =>
    rw [recvStep_dally hs] at ha
    rcases dallyStep_sends t s e with hq | ⟨d, hq⟩
    · rw [hq] at ha
      exact absurd rfl ha
    · rw [hq] at ha
      exact absurd rfl ha
  | waiting =>
    cases he : e.isTimeout with
    | false =>
      rcases (recvStep_other t oacklen hs he).2 with ⟨_, _, hq⟩ | ⟨htime, _⟩ | hq
      · exact absurd hq ha
      · exact htime hp
      · rw [hq] at hp
        cases hp
    | true =>
      cases e with
      | datagram m => cases he
      | recvError => cases he
      | timeout =>
        rw [recvStep_waiting hs] at ha
        simp only [waitStep] at ha
        split at ha
        · exact absurd rfl ha
        · exact absurd (sendAck_timeout t _).2.2 ha

/-- How many blocks were accepted, if another one is awaited. -/
def awaitedBlock (c : Config RecvState Event Action) : Option Nat :=
  if c.state.phase = .waiting then some ((c.log.map Prod.snd).filterMap Action.accepted?).length
  else none

theorem awaitedBlock_eq_some {c : Config RecvState Event Action} :
    awaitedBlock c = some i ↔ c.state.phase = .waiting ∧
      ((c.log.map Prod.snd).filterMap Action.accepted?).length = i := by
  rw [awaitedBlock, Option.ite_none_right_eq_some, Option.some.injEq]

theorem accepted_next (M : Machine RecvState Event Action) (c : Config RecvState Event Action)
    (e : Event) :
    (((M.next c e).log.map Prod.snd).filterMap Action.accepted?).length =
      ((c.log.map Prod.snd).filterMap Action.accepted?).length +
        ((M.step c.state e).2.filterMap Action.accepted?).length := by
  rw [Machine.log_next, List.filterMap_append, List.length_append]

theorem recvStep_over (t : Transfer) (oacklen : Nat) (e : Event) (hp : s.phase ≠ .waiting) :
    (recvStep t oacklen s e).1.phase ≠ .waiting := by
  cases hs : s.phase with
  | waiting => exact absurd hs hp
  | ended how =>
    rw [recvStep_ended hs]
    exact hp
  | dally =>
    rw [recvStep_dally hs]
    cases e with
    | timeout => exact RecvPhase.noConfusion
    | recvError => exact RecvPhase.noConfusion
    | datagram d => exact RecvPhase.noConfusion

theorem recvfile_rounds (t : Transfer) (oack : Option Nat) (ackbuf : Mem) :
    Rounds (tftpRecvfile t oack ackbuf) awaitedBlock fun c => c.state.phase ≠ .waiting where
  mono := by
    intro c e i j hi hj
    rw [← (awaitedBlock_eq_some.1 hi).2, ← (awaitedBlock_eq_some.1 hj).2, accepted_next]
    exact Nat.le_add_right _ _
  ends := by
    intro c e i _ hn hp
    rw [awaitedBlock, if_pos hp] at hn
    cases hn
  none_of_stopped hp := if_neg hp
  stopped_next := recvStep_over t _ _

variable {oack : Option Nat} {ackbuf : Mem}

def AwaitedSince (t : Transfer) (M : Machine RecvState Event Action) (pre w : List Event) : Prop :=
  timeouts w < tries ∧ BackedOff t (timeouts w) (M.run (pre ++ w)).state

theorem BackedOff.begins {M : Machine RecvState Event Action}
    (h : BackedOff t 0 (M.run pre).state) : AwaitedSince t M pre [] := by
  refine ⟨by decide, ?_⟩
  rw [List.append_nil]
  exact h

theorem AwaitedSince.init (hi : awaitedBlock (tftpRecvfile t oack ackbuf).init = some i) :
    AwaitedSince t (tftpRecvfile t oack ackbuf) [] [] := by
  refine BackedOff.begins ⟨(awaitedBlock_eq_some.1 hi).1, ?_⟩
  rw [Nat.pow_zero, Nat.mul_one]
  exact (replyBlock_timeout t _ _).1

theorem AwaitedSince.enter (hold : awaitedBlock ((tftpRecvfile t oack ackbuf).run es) ≠ some i)
    (hi : awaitedBlock ((tftpRecvfile t oack ackbuf).next
      ((tftpRecvfile t oack ackbuf).run es) e) = some i) :
    AwaitedSince t (tftpRecvfile t oack ackbuf) (es ++ [e]) [] := by
  obtain ⟨hp, hcount⟩ := awaitedBlock_eq_some.1 hi
  refine BackedOff.begins ?_
  rw [Machine.run_concat]
  apply recvStep_fresh t _ e hp
  intro ha
  rw [accepted_next] at hcount
  have hsame := (congrArg (fun as => _ + List.length as) ha).symm.trans hcount
  have hwaiting : ((tftpRecvfile t oack ackbuf).run es).state.phase = .waiting := by
    by_contra hne
    exact recvStep_over t _ e hne hp
  exact hold (awaitedBlock_eq_some.2 ⟨hwaiting, hsame⟩)

theorem AwaitedSince.step (h : AwaitedSince t (tftpRecvfile t oack ackbuf) pre w)
    (ht : Interval t.rexmtval t.maxtimeout)
    (hold : awaitedBlock ((tftpRecvfile t oack ackbuf).run (pre ++ w)) = some i)
    (hi : awaitedBlock ((tftpRecvfile t oack ackbuf).next
      ((tftpRecvfile t oack ackbuf).run (pre ++ w)) e) = some i) :
    AwaitedSince t (tftpRecvfile t oack ackbuf) pre (w ++ [e]) := by
  obtain ⟨hp, hcount⟩ := awaitedBlock_eq_some.1 hi
  rw [accepted_next, (awaitedBlock_eq_some.1 hold).2] at hcount
  have hquiet := List.length_eq_zero_iff.1 (Nat.add_eq_left.1 hcount)
  have hkept := h.2.kept ht h.1 (oack.getD 0) e hp hquiet
  rw [AwaitedSince, ← List.append_assoc, Machine.run_concat, timeouts_concat]
  exact hkept

/-- While a block is awaited fewer than `TRIES` timeouts have passed since the one before it
was accepted, whatever the timeouts for that one. -/
theorem recvfile_budget (ht : Interval t.rexmtval t.maxtimeout) (oack : Option Nat)
    (ackbuf : Mem) (es : List Event)
    (hi : awaitedBlock ((tftpRecvfile t oack ackbuf).run es) = some i) :
    let M := tftpRecvfile t oack ackbuf
    ∃ pre w, es = pre ++ w ∧ Begins M awaitedBlock i pre ∧
      Budget t (timeouts w) (M.run es).state.timeout fun e =>
        (M.step (M.run es).state e).1.phase = .ended .exited := by
  intro M
  obtain ⟨pre, w, rfl, hbegins, hleft, hoff⟩ :=
    (recvfile_rounds t oack ackbuf).induction (fun _ h => AwaitedSince.init h)
      (fun _ _ _ hold h => AwaitedSince.enter hold h)
      (fun _ _ _ _ hp hold h => hp.step ht hold h) es hi
  exact ⟨pre, w, rfl, hbegins, hleft, hoff.timeout, hoff.exits ht hleft _⟩

end Receiver

section Overflow

theorem Interval.rexmtval_lt (h : Interval rexmtval maxtimeout) : rexmtval < maxtimeout := by
  have hlow := h.low
  rw [h.limit, timeoutLimit_eq]
  change rexmtval < rexmtval * 63
  omega

theorem Interval.no_overflow (h : Interval rexmtval maxtimeout) (ht : timeout < maxtimeout) :
    timeout * 2 < 2 ^ 64 ∧ maxtimeout < 2 ^ 64 := by
  have hhigh := h.high
  have hlimit : maxtimeout = rexmtval * 63 := h.limit
  omega

theorem timer_lt (h : timer maxtimeout quit timeout = some timeout') : timeout' < maxtimeout := by
  simp only [timer] at h
  split at h
  · cases h
  · rename_i hlimit
    cases h
    exact Nat.lt_of_not_le fun hle => hlimit (.inl hle)

theorem sendData_timeout (t : Transfer) (s : SendState) :
    (sendData t s).1.timeout = s.timeout := by
  simp only [sendData]
  split
  · rfl
  · rfl

theorem sendOack_timeout (t : Transfer) (oacklen : Nat) (s : SendState) :
    (sendOack t oacklen s).1.timeout = s.timeout := by
  simp only [sendOack]
  split
  · rfl
  · rfl

theorem readBlock_lt (ht : Interval t.rexmtval t.maxtimeout) {s : SendState}
    (hs : s.timeout < t.maxtimeout) : (readBlock t s).1.timeout < t.maxtimeout := by
  simp only [readBlock]
  split
  · exact hs
  · rw [sendData_timeout]
    exact ht.rexmtval_lt

theorem dataStep_lt (ht : Interval t.rexmtval t.maxtimeout) {s : SendState}
    (hs : s.timeout < t.maxtimeout) (e : Parsed) :
    (dataStep t s e).1.timeout < t.maxtimeout := by
  cases e with
  | recvError => exact hs
  | timeout =>
    simp only [dataStep]
    split
    · exact hs
    · rename_i hnext
      rw [sendData_timeout]
      exact timer_lt hnext
  | packet opcode block =>
    simp only [dataStep, blockAcked]
    repeat' split
    · exact hs
    · exact readBlock_lt ht hs
    · exact hs
    · exact hs

theorem optionStep_lt (ht : Interval t.rexmtval t.maxtimeout) {s : SendState}
    (hs : s.timeout < t.maxtimeout) (oacklen : Nat) (e : Parsed) :
    (optionStep t oacklen s e).1.timeout < t.maxtimeout := by
  cases e with
  | recvError => exact hs
  | timeout =>
    simp only [optionStep]
    split
    · exact hs
    · rename_i hnext
      rw [sendOack_timeout]
      exact timer_lt hnext
  | packet opcode block =>
    simp only [optionStep]
    repeat' split
    · exact hs
    · exact readBlock_lt ht hs
    · rw [sendOack_timeout]
      exact hs
    · exact hs

theorem sendStep_lt (ht : Interval t.rexmtval t.maxtimeout) {s : SendState}
    (hs : s.timeout < t.maxtimeout) (oacklen : Nat) (e : Event) :
    (sendStep t oacklen s e).1.timeout < t.maxtimeout := by
  simp only [sendStep]
  split
  · exact hs
  · exact optionStep_lt (s := { s with ackbuf := (parse s.ackbuf e).1 }) ht hs oacklen _
  · exact dataStep_lt (s := { s with ackbuf := (parse s.ackbuf e).1 }) ht hs _

theorem sendfile_timeout_lt (ht : Interval t.rexmtval t.maxtimeout) (oack : Option Nat)
    (ackbuf : Mem) (f : InFile) (es : List Event) :
    ((tftpSendfile t oack ackbuf f).run es).state.timeout < t.maxtimeout := by
  refine (tftpSendfile t oack ackbuf f).run_induction
    (P := fun _ c => c.state.timeout < t.maxtimeout) ?_ ?_ es
  · cases oack with
    | none => exact readBlock_lt ht ht.rexmtval_lt
    | some oacklen => exact (sendOack_timeout t oacklen _).trans_lt ht.rexmtval_lt
  · intro es e ih
    exact sendStep_lt ht ih (oack.getD 0) e

theorem waitStep_lt (ht : Interval t.rexmtval t.maxtimeout) {s : RecvState}
    (hs : s.timeout < t.maxtimeout) (oacklen : Nat) (e : Event) :
    (waitStep t oacklen s e).1.timeout < t.maxtimeout := by
  cases e with
  | recvError => exact hs
  | timeout =>
    simp only [waitStep]
    split
    · exact hs
    · rename_i hnext
      exact (sendAck_timeout t _).1.trans_lt (timer_lt hnext)
  | datagram d =>
    rw [waitStep_datagram]
    dsimp only
    split
    · exact hs
    split
    · split
      · rw [blockReceived_eq]
        dsimp only
        split
        · exact (replyBlock_timeout t oacklen _).1.trans_lt ht.rexmtval_lt
        · exact hs
      split
      · exact (sendAck_timeout t _).1.trans_lt hs
      · exact hs
    · exact hs

theorem recvfile_timeout_lt (ht : Interval t.rexmtval t.maxtimeout) (oack : Option Nat)
    (ackbuf : Mem) (es : List Event) :
    ((tftpRecvfile t oack ackbuf).run es).state.timeout < t.maxtimeout := by
  refine (tftpRecvfile t oack ackbuf).run_induction
    (P := fun _ c => c.state.timeout < t.maxtimeout) ?_ ?_ es
  · exact (replyBlock_timeout t _ _).1.trans_lt ht.rexmtval_lt
  · intro es e ih
    change (recvStep t (oack.getD 0) _ e).1.timeout < t.maxtimeout
    simp only [recvStep]
    split
    · exact ih
    · exact waitStep_lt ht ih (oack.getD 0) e
    · cases e with
      | timeout => exact ih
      | recvError => exact ih
      | datagram d => exact ih

end Overflow

/-- For every interval that the server can be given and every sequence of events: each block
is sent at least once and at most `TRIES` times, each one that is awaited outlasts fewer than
`TRIES` timeouts, the process exits on the timeout with that number and on nothing else, every
block begins with the whole budget, and no timeout overflows. -/
theorem transfer_retryBudget (hn : Settings cfg n) (hr : t.rexmtval = n.rexmtval)
    (hm : t.maxtimeout = n.maxtimeout) (oack : Option Nat) (ackbuf : Mem) (f : InFile)
    (es : List Event) :
    let S := tftpSendfile t oack ackbuf f
    let R := tftpRecvfile t oack ackbuf
    (∃ packet again k, BlocksSent t oack ackbuf es (sentPackets (S.run es)) packet again k ∧
      acknowledged (S.run es) ≤ k ∧ k ≤ acknowledged (S.run es) + 1) ∧
    (∀ i, awaitedAck (S.run es) = some i → ∃ pre w, es = pre ++ w ∧ Begins S awaitedAck i pre ∧
      (∃ before d, SentSince t S i pre w before d) ∧
      Budget t (timeouts w) (S.run es).state.timeout fun e =>
        (S.step (S.run es).state e).1.phase = .ended .exited) ∧
    (∀ i, awaitedBlock (R.run es) = some i → ∃ pre w, es = pre ++ w ∧
      Begins R awaitedBlock i pre ∧
      Budget t (timeouts w) (R.run es).state.timeout fun e =>
        (R.step (R.run es).state e).1.phase = .ended .exited) ∧
    t.maxtimeout < 2 ^ 64 ∧ (S.run es).state.timeout * 2 < 2 ^ 64 ∧
    (R.run es).state.timeout * 2 < 2 ^ 64 := by
  intro S R
  have ht : Interval t.rexmtval t.maxtimeout := by
    rw [hr, hm]
    exact hn.interval
  obtain ⟨hsend, hmax⟩ := ht.no_overflow (sendfile_timeout_lt ht oack ackbuf f es)
  obtain ⟨hrecv, _⟩ := ht.no_overflow (recvfile_timeout_lt ht oack ackbuf es)
  refine ⟨sendfile_copies ht oack ackbuf f es, ?_, ?_, hmax, hsend, hrecv⟩
  · intro i hi
    exact sendfile_budget ht oack ackbuf f es hi
  · intro i hi
    exact recvfile_budget ht oack ackbuf es hi

theorem oneTimeout_budget :
    let R := tftpRecvfile octetTransfer none .zero
    ∃ pre w, [Event.timeout] = pre ++ w ∧ Begins R awaitedBlock 0 pre ∧
      Budget octetTransfer (timeouts w) (R.run [.timeout]).state.timeout fun e =>
        (R.step (R.run [.timeout]).state e).1.phase = .ended .exited :=
  have hn : Settings ⟨65464, fun _ => false⟩ .default := .default
  (transfer_retryBudget hn rfl rfl none .zero (.regular []) [.timeout]).2.2.1 0 (by decide)

end WooTftpd
