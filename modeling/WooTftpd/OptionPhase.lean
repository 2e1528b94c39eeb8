import WooTftpd.ReceiverTrace
import WooTftpd.Sendfile

namespace WooTftpd
open Lib
set_option autoImplicit true

variable {t : Transfer} {s : SendState} {m : Mem} {es : List Event}

def overlay (m : Mem) (es : List Event) : Mem := es.foldl (fun m e => (parse m e).1) m

theorem overlay_concat (m : Mem) (es : List Event) (e : Event) :
    overlay m (es ++ [e]) = (parse (overlay m es) e).1 := by
  simp only [overlay, List.foldl_append, List.foldl_cons, List.foldl_nil]

def Parsed.resends : Parsed → Bool
  | .timeout => true
  | .packet opcode block => opcode = ACK ∧ block ≠ 0
  | .recvError => false

def resends (m : Mem) (e : Event) : Bool := (parse m e).2.resends

def resent (oacklen : Nat) : Mem → List Event → List (List UInt8)
  | _, [] => []
  | m, e :: es =>
    let m' := (parse m e).1
    if resends m e then m'.load 0 oacklen :: resent oacklen m' es else resent oacklen m' es

/-- Whenever the OACK is due again, the datagrams laid over it have left it as it was. -/
def OackKept (oacklen : Nat) (oack : List UInt8) : Mem → List Event → Prop
  | _, [] => True
  | m, e :: es =>
    let m' := (parse m e).1
    (resends m e = true → m'.load 0 oacklen = oack) ∧ OackKept oacklen oack m' es

theorem forall_mem_resent_iff (oacklen : Nat) (oack : List UInt8) (m : Mem) (es : List Event) :
    (∀ d ∈ resent oacklen m es, d = oack) ↔ OackKept oacklen oack m es := by
  induction es generalizing m with
  | nil => exact ⟨fun _ => trivial, fun _ d hd => absurd hd List.not_mem_nil⟩
  | cons e es ih =>
    simp only [resent, OackKept]
    rw [← ih]
    by_cases hr : resends m e = true
    · rw [if_pos hr, List.forall_mem_cons]
      exact and_congr_left' ⟨fun h _ => h, fun h => h hr⟩
    · rw [if_neg hr]
      exact ⟨fun h => ⟨fun h' => absurd h' hr, h⟩, And.right⟩

theorem resent_concat (oacklen : Nat) (m : Mem) (es : List Event) (e : Event) :
    resent oacklen m (es ++ [e]) = resent oacklen m es ++
      if resends (overlay m es) e then [(parse (overlay m es) e).1.load 0 oacklen] else [] := by
  induction es generalizing m with
  | nil => rfl
  | cons e' es ih =>
    simp only [List.cons_append, resent]
    rw [ih]
    by_cases hr : resends m e' = true
    · rw [if_pos hr, if_pos hr]
      rfl
    · rw [if_neg hr, if_neg hr]
      rfl

theorem sendData_phase (t : Transfer) (s : SendState) :
    (sendData t s).1.phase = s.phase ∨ (sendData t s).1.phase = .ended .aborted := by
  simp only [sendData]
  split
  · exact .inl rfl
  · exact .inr rfl

theorem readBlock_phase (h : s.phase ≠ .option) (t : Transfer) :
    (readBlock t s).1.phase ≠ .option := by
  simp only [readBlock]
  split
  · exact SendPhase.noConfusion
  · rcases sendData_phase t _ with hp | hp
    · rw [hp]
      exact h
    · rw [hp]
      exact SendPhase.noConfusion

theorem startData_phase (t : Transfer) (s : SendState) : (startData t s).1.phase ≠ .option := by
  apply readBlock_phase
  exact SendPhase.noConfusion

theorem dataStep_phase (h : s.phase ≠ .option) (t : Transfer) (e : Parsed) :
    (dataStep t s e).1.phase ≠ .option := by
  cases e with
  | timeout =>
    simp only [dataStep]
    split
    · exact SendPhase.noConfusion
    · rcases sendData_phase t _ with hp | hp
      · rw [hp]
        exact h
      · rw [hp]
        exact SendPhase.noConfusion
  | recvError => exact SendPhase.noConfusion
  | packet opcode block =>
    simp only [dataStep]
    split
    · exact SendPhase.noConfusion
    split
    · simp only [blockAcked]
      split
      · apply readBlock_phase
        exact h
      · exact SendPhase.noConfusion
    · exact h

theorem sendOack_cases (t : Transfer) (oacklen : Nat) (s : SendState) :
    ((sendOack t oacklen s).1 = { s with sends := s.sends + 1 } ∧
      (sendOack t oacklen s).2 = [.send (s.ackbuf.load 0 oacklen)]) ∨
    ((sendOack t oacklen s).1.phase = .ended .aborted ∧
      (sendOack t oacklen s).2.filterMap Action.sent? = []) := by
  simp only [sendOack]
  split
  · exact .inl ⟨rfl, rfl⟩
  · exact .inr ⟨rfl, rfl⟩

/-- Everything that an event can do while the ACK of the OACK is awaited. -/
theorem optionStep_cases (t : Transfer) (oacklen : Nat) (s : SendState) (e : Parsed) :
    (∃ timeout sends, (optionStep t oacklen s e).1 =
        { s with timeout := timeout, sends := sends } ∧
      (optionStep t oacklen s e).2.filterMap Action.sent? =
        if e.resends then [s.ackbuf.load 0 oacklen] else []) ∨
    ((∃ how, how ≠ .completed ∧ (optionStep t oacklen s e).1.phase = .ended how) ∧
      (optionStep t oacklen s e).2.filterMap Action.sent? = []) ∨
    (e = .packet ACK 0 ∧ optionStep t oacklen s e = startData t s) := by
  have habort : Ended.aborted ≠ .completed := by decide
  have hexit : Ended.exited ≠ .completed := by decide
  cases e with
  | timeout =>
    simp only [optionStep]
    cases timer t.maxtimeout false s.timeout with
    | none => exact .inr (.inl ⟨⟨_, hexit, rfl⟩, rfl⟩)
    | some timeout =>
      rcases sendOack_cases t oacklen { s with timeout := timeout } with ⟨h, ha⟩ | ⟨h, hq⟩
      · exact .inl ⟨_, _, h, by rw [ha]; rfl⟩
      · exact .inr (.inl ⟨⟨_, habort, h⟩, hq⟩)
  | recvError => exact .inr (.inl ⟨⟨_, habort, rfl⟩, rfl⟩)
  | packet opcode block =>
    simp only [optionStep]
    by_cases he : opcode = ERROR
    · rw [if_pos he]
      exact .inr (.inl ⟨⟨_, habort, rfl⟩, rfl⟩)
    · rw [if_neg he]
      by_cases ha : opcode = ACK
      · rw [if_pos ha]
        by_cases hb : block = 0
        · rw [if_pos hb, ha, hb]
          exact .inr (.inr ⟨rfl, rfl⟩)
        · have hr : (Parsed.packet opcode block).resends = true := decide_eq_true ⟨ha, hb⟩
          rw [if_neg hb, if_pos hr]
          rcases sendOack_cases t oacklen s with ⟨h, hs⟩ | ⟨h, hq⟩
          · exact .inl ⟨_, _, h, by rw [hs]; rfl⟩
          · exact .inr (.inl ⟨⟨_, habort, h⟩, hq⟩)
      · have hr : ¬ (Parsed.packet opcode block).resends = true :=
          fun hr => ha (of_decide_eq_true hr).1
        rw [if_neg ha, if_neg hr]
        exact .inl ⟨_, _, rfl, rfl⟩

theorem sendStep_stays {oacklen : Nat} {e : Event}
    (h : (sendStep t oacklen s e).1.phase = .option) :
    s.phase = .option ∧ (sendStep t oacklen s e).1.ackbuf = (parse s.ackbuf e).1 ∧
      (sendStep t oacklen s e).2.filterMap Action.sent? =
        if resends s.ackbuf e then [(parse s.ackbuf e).1.load 0 oacklen] else [] := by
  cases hp : s.phase with
  | ended how =>
    rw [sendStep_ended hp, hp] at h
    cases h
  | data =>
    rw [sendStep_data hp] at h
    apply absurd h
    apply dataStep_phase
    rw [hp]
    exact SendPhase.noConfusion
  | option =>
    rw [sendStep_option hp] at h ⊢
    rcases optionStep_cases t oacklen { s with ackbuf := (parse s.ackbuf e).1 }
      (parse s.ackbuf e).2 with ⟨timeout, sends, hs, ha⟩ | ⟨⟨how, _, hd⟩, _⟩ | ⟨_, hd⟩
    · rw [hs]
      exact ⟨rfl, rfl, ha⟩
    · rw [hd] at h
      cases h
    · rw [hd] at h
      exact absurd h (startData_phase _ _)

def sentPackets (c : Config σ Event Action) : List (List UInt8) :=
  (c.log.map Prod.snd).filterMap Action.sent?

theorem mem_sentPackets {c : Config σ Event Action} :
    d ∈ sentPackets c ↔ .send d ∈ c.log.map Prod.snd := by
  simp only [sentPackets, List.mem_filterMap]
  constructor
  · rintro ⟨a, ha, hd⟩
    cases a with
    | send d' =>
      cases hd
      exact ha
    | _ => cases hd
  · intro h
    exact ⟨_, h, rfl⟩

/-- All that is sent while the option phase of `tftp_sendfile` lasts. -/
theorem optionPhase_run (t : Transfer) (oacklen : Nat) (ackbuf : Mem) (f : InFile)
    (es : List Event) :
    let c := (tftpSendfile t (some oacklen) ackbuf f).run es
    c.state.phase = .option → c.state.ackbuf = overlay ackbuf es ∧
      sentPackets c = ackbuf.load 0 oacklen :: resent oacklen ackbuf es := by
  apply (tftpSendfile t (some oacklen) ackbuf f).run_induction
    (P := fun es c => c.state.phase = .option → c.state.ackbuf = overlay ackbuf es ∧
      sentPackets c = ackbuf.load 0 oacklen :: resent oacklen ackbuf es)
  · intro h
    rcases sendOack_cases t oacklen (sendInit ackbuf t.rexmtval f) with ⟨hs, ha⟩ | ⟨hd, _⟩
    · constructor
      · exact congrArg SendState.ackbuf hs
      · rw [sentPackets, Machine.log_init]
        simp only [tftpSendfile, ha]
        rfl
    · cases hd.symm.trans h
  · intro es e ih h
    obtain ⟨hp, hm, ha⟩ := sendStep_stays h
    obtain ⟨hm', ha'⟩ := ih hp
    rw [hm'] at hm ha
    constructor
    · rw [overlay_concat]
      exact hm
    · rw [sentPackets, Machine.log_next, List.filterMap_append]
      simp only [sentPackets] at ha'
      rw [ha', resent_concat, List.cons_append]
      exact congrArg _ (congrArg _ ha)

/-- While no block was accepted, `tftp_recvfile` sends nothing but the OACK: it receives into
the packet buffers of `tftpsubs`. -/
theorem recvfile_sends_oack (t : Transfer) (oacklen : Nat) (ackbuf : Mem) (es : List Event)
    (h : ((tftpRecvfile t (some oacklen) ackbuf).run es).observe Action.accepted? = [])
    (hd : d ∈ sentPackets ((tftpRecvfile t (some oacklen) ackbuf).run es)) :
    d = ackbuf.load 0 oacklen := by
  obtain ⟨ds, htrace⟩ := receiver_run t (some oacklen) ackbuf es
  obtain ⟨pre, post, hlog⟩ := List.append_of_mem (mem_sentPackets.1 hd)
  have hr := htrace.replies
  rw [hlog] at hr
  have hz : (pre.filterMap Action.accepted?).length = 0 := by
    have hnil := Config.observe_snd Action.accepted? ((tftpRecvfile t (some oacklen) ackbuf).run es)
    rw [h, hlog, List.filterMap_append] at hnil
    rw [(List.append_eq_nil_iff.1 hnil.symm).1]
    rfl
  have hd' := hr.at
  rw [hz] at hd'
  exact hd'

inductive Direction where
  | send
  | recv
  deriving DecidableEq

/-- The option phase is not over after the events `es`: neither ACK 0 nor a block was taken. -/
def OptionPhaseLasts (t : Transfer) (oacklen : Nat) (ackbuf : Mem) (f : InFile)
    (es : List Event) : Direction → Prop
  | .send => ((tftpSendfile t (some oacklen) ackbuf f).run es).state.phase = .option
  | .recv => ((tftpRecvfile t (some oacklen) ackbuf).run es).observe Action.accepted? = []

def optionSent (t : Transfer) (oacklen : Nat) (ackbuf : Mem) (f : InFile) (es : List Event) :
    Direction → List (List UInt8)
  | .send => sentPackets ((tftpSendfile t (some oacklen) ackbuf f).run es)
  | .recv => sentPackets ((tftpRecvfile t (some oacklen) ackbuf).run es)

/-- Everything sent in the option phase is the OACK, exactly if the file is received or the
datagrams that came in before each repetition have not overwritten it. -/
theorem oack_resent_iff (t : Transfer) (oacklen : Nat) (ackbuf : Mem) (f : InFile)
    (es : List Event) (dir : Direction) (h : OptionPhaseLasts t oacklen ackbuf f es dir) :
    (∀ d ∈ optionSent t oacklen ackbuf f es dir, d = ackbuf.load 0 oacklen) ↔
      dir = .recv ∨ OackKept oacklen (ackbuf.load 0 oacklen) ackbuf es := by
  cases dir with
  | recv =>
    constructor
    · intro _
      exact .inl rfl
    · intro _ d hd
      exact recvfile_sends_oack t oacklen ackbuf es h hd
  | send =>
    obtain ⟨_, hs⟩ := optionPhase_run t oacklen ackbuf f es h
    simp only [optionSent, hs, reduceCtorEq, false_or, List.forall_mem_cons, true_and]
    exact forall_mem_resent_iff oacklen _ ackbuf es

def blksizeOack : Mem :=
  Mem.zero.store 0 [0, 6, 98, 108, 107, 115, 105, 122, 101, 0, 49, 48, 50, 52, 0]

theorem oack_resent_timeout :
    OptionPhaseLasts octetTransfer 15 blksizeOack (.regular []) [.timeout] .send ∧
      ∀ d ∈ optionSent octetTransfer 15 blksizeOack (.regular []) [.timeout] .send,
        d = blksizeOack.load 0 15 := by
  have h : OptionPhaseLasts octetTransfer 15 blksizeOack (.regular []) [.timeout] .send := by
    unfold OptionPhaseLasts
    decide
  exact ⟨h, (oack_resent_iff _ _ _ _ _ _ h).2 (.inr ⟨fun _ => rfl, trivial⟩)⟩

/-- An ACK of block 1 is answered by its own bytes with the rest of the OACK behind them. -/
theorem oack_overwritten :
    let es := [Event.datagram (tftphdr ACK 1)]
    OptionPhaseLasts octetTransfer 15 blksizeOack (.regular []) es .send ∧
      optionSent octetTransfer 15 blksizeOack (.regular []) es .send =
        [blksizeOack.load 0 15, tftphdr ACK 1 ++ (blksizeOack.load 0 15).drop 4] ∧
      ¬ ∀ d ∈ optionSent octetTransfer 15 blksizeOack (.regular []) es .send,
        d = blksizeOack.load 0 15 := by
  unfold OptionPhaseLasts
  decide

end WooTftpd
