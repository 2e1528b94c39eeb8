import WooTftpd.Acknowledged
import WooTftpd.LostWrite
import WooTftpd.Monitor
import WooTftpd.Reads

namespace WooTftpd
open Lib
set_option autoImplicit true

inductive Icon where
  | upload
  | download
  | success
  | failure
  deriving DecidableEq

/-- The icon that `operation_view::update_view` shows for an operation. -/
def updateView (oflags : UInt8) : Icon :=
  if checkFlag oflags wootftpdEnd then
    if checkFlag oflags wootftpdTimeout then .failure else .success
  else if checkFlag oflags wootftpdUpload then .upload else .download

/-- What an action makes of the slot of the operation. -/
def Action.onSlot (x : Slot) (m : Mem) : Action → Mem
  | .setFlagUpload => Call.setFlagUpload.run ⟨true, x⟩ m
  | .setFlagDownload => Call.setFlagDownload.run ⟨true, x⟩ m
  | .incrementBlock value => (Call.incrementBlock (.ofInt value)).run ⟨true, x⟩ m
  | .endOperation => Call.endOperation.run ⟨true, x⟩ m
  | _ => m

/-- The memory after the actions of a server that owns its slot: others may change all but the
flags of that slot at any time. -/
inductive OwnedRun (x : Slot) (m : Mem) : List Action → Mem → Prop where
  | start : OwnedRun x m [] m
  | act (a : Action) : OwnedRun x m as m' → OwnedRun x m (as ++ [a]) (a.onSlot x m')
  | foreign : OwnedRun x m as m' → oflags m'' x = oflags m' x → OwnedRun x m as m''

theorem Call.run_ended (m : Mem) (x : Slot) (c : Call) (h : c.Fits)
    (hb : c.flags &&& wootftpdEnd = 0) : ended (c.run ⟨true, x⟩ m) x = ended m x := by
  rw [ended, (Call.run_addsFlags m x c h).oflags, if_pos rfl, checkFlag_or_other _ hb, ended]

theorem Action.onSlot_ended (x : Slot) (m : Mem) (a : Action) (h : a ≠ .endOperation) :
    ended (a.onSlot x m) x = ended m x := by
  cases a with
  | endOperation => exact absurd rfl h
  | setFlagUpload => exact Call.run_ended m x .setFlagUpload trivial (by decide)
  | setFlagDownload => exact Call.run_ended m x .setFlagDownload trivial (by decide)
  | incrementBlock value => exact Call.run_ended m x (.incrementBlock _) trivial UInt8.zero_and
  | send | nak | accept => rfl

theorem OwnedRun.ended (h : OwnedRun x m as m') (he : ended m' x = true) :
    ended m x = true ∨ .endOperation ∈ as := by
  induction h with
  | start => exact .inl he
  | act a hrun ih =>
    by_cases ha : a = .endOperation
    · rw [ha]
      exact .inr (List.mem_append_right _ (List.mem_singleton_self _))
    · rw [Action.onSlot_ended x _ a ha] at he
      exact (ih he).imp_right (List.mem_append_left _)
  | foreign hrun hf ih =>
    rw [WooTftpd.ended, hf] at he
    exact ih he

theorem success_ended (h : updateView (oflags m x) = .success) : ended m x = true := by
  by_contra hne
  rw [ended] at hne
  rw [updateView, if_neg hne] at h
  split at h
  · cases h
  · cases h

section Download

variable {t : Transfer} {s : SendState}

def Over (s : SendState) : Prop :=
  s.phase = .ended .aborted ∨ s.phase = .ended .completed

theorem not_over (hp : s.phase = phase) (ha : phase ≠ .ended .aborted)
    (hc : phase ≠ .ended .completed) : ¬ Over s := by
  rw [Over, hp]
  exact not_or.2 ⟨ha, hc⟩

theorem StepEnd.over {cause : Prop} {r : SendState × List Action} (h : StepEnd cause r)
    (he : .endOperation ∈ r.2) : Over r.1 := by
  cases h with
  | on hp hn => exact absurd he hn
  | aborted hp hc => exact .inl hp
  | completed hp => exact .inr hp

theorem sendStep_ends (oacklen : Nat) (e : Event)
    (h : .endOperation ∈ (sendStep t oacklen s e).2) : Over (sendStep t oacklen s e).1 := by
  cases hp : s.phase with
  | ended how =>
    rw [sendStep_ended hp] at h
    cases h
  | option => exact (sendStep_option_end hp oacklen e).over h
  | data => exact (sendStep_data_end hp oacklen e).over h

theorem start_ends (t : Transfer) (oack : Option Nat) (ackbuf : Mem) (f : InFile)
    (h : .endOperation ∈ (tftpSendfile t oack ackbuf f).start.2) :
    Over (tftpSendfile t oack ackbuf f).start.1 := by
  cases oack with
  | none =>
    rcases List.mem_cons.1 h with h | h
    · cases h
    · have hend := readBlock_end (t := t) (s := { sendInit ackbuf t.rexmtval f with
        phase := .data, subs := rInit .static }) SendPhase.noConfusion
      exact hend.over h
  | some oacklen =>
    rcases List.mem_cons.1 h with h | h
    · cases h
    · have hend := sendOack_end (t := t) (s := sendInit ackbuf t.rexmtval f) oacklen
        SendPhase.noConfusion
      exact hend.over h

/-- `woo_end_operation` is called at the label `abort`, which a transfer comes to by a `goto` or
at its normal end. -/
theorem sendfile_ends (t : Transfer) (oack : Option Nat) (ackbuf : Mem) (f : InFile)
    (es : List Event)
    (h : .endOperation ∈ ((tftpSendfile t oack ackbuf f).run es).log.map Prod.snd) :
    Over ((tftpSendfile t oack ackbuf f).run es).state := by
  revert h
  refine (tftpSendfile t oack ackbuf f).run_induction
    (P := fun _ c => .endOperation ∈ c.log.map Prod.snd → Over c.state) ?_ ?_ es
  · rw [Machine.log_init]
    exact start_ends t oack ackbuf f
  · intro es e ih h
    rw [Machine.log_next, List.mem_append] at h
    rcases h with h | h
    · have hover := ih h
      have hsame : (tftpSendfile t oack ackbuf f).next ((tftpSendfile t oack ackbuf f).run es) e =
          (tftpSendfile t oack ackbuf f).run es := by
        rcases hover with hp | hp
        · exact tftpSendfile_ended t oack ackbuf f hp e
        · exact tftpSendfile_ended t oack ackbuf f hp e
      rw [hsame]
      exact hover
    · exact sendStep_ends _ e h

end Download

section Upload

variable {t : Transfer} {s : RecvState} {c : Config RecvState Event Action}

theorem sendAck_actions (t : Transfer) (s : RecvState) :
    (sendAck t s).2.filterMap Action.accepted? = [] ∧ .endOperation ∉ (sendAck t s).2 := by
  rcases sendAck_sends t s with h | ⟨d, h⟩
  · rw [h]
    exact ⟨rfl, List.not_mem_nil⟩
  · rw [h]
    exact ⟨rfl, by simp⟩

theorem finalAck_actions (t : Transfer) (s : RecvState) :
    (finalAck t s).2.filterMap Action.accepted? = [] ∧ .endOperation ∈ (finalAck t s).2 := by
  rcases finalAck_sends t s with h | ⟨d, h⟩
  · rw [h]
    exact ⟨rfl, List.mem_cons_self⟩
  · rw [h]
    exact ⟨rfl, List.mem_cons_self⟩

theorem dallyStep_actions (t : Transfer) (s : RecvState) (e : Event) :
    (dallyStep t s e).2.filterMap Action.accepted? = [] ∧ .endOperation ∉ (dallyStep t s e).2 := by
  rcases dallyStep_sends t s e with h | ⟨d, h⟩
  · rw [h]
    exact ⟨rfl, List.not_mem_nil⟩
  · rw [h]
    exact ⟨rfl, by simp⟩

theorem blockReceived_actions (t : Transfer) (oacklen n : Nat) (s : RecvState) :
    (blockReceived t oacklen n s).2.filterMap Action.accepted? =
        [(s.dpBlock, (s.subs.bfs s.dp).buf.load thData ((n : Int) - 4).toNat)] ∧
      (.endOperation ∈ (blockReceived t oacklen n s).2 ↔ (n : Int) - 4 ≠ t.segsize) := by
  rw [blockReceived_eq]
  by_cases hs : (n : Int) - 4 = t.segsize
  · obtain ⟨ha, he⟩ := sendAck_actions t _
    simp only [if_pos hs, List.filterMap_cons, Action.accepted?, List.mem_cons, reduceCtorEq,
      false_or]
    exact ⟨congrArg _ ha, iff_of_false he fun h => h hs⟩
  · obtain ⟨ha, he⟩ := finalAck_actions t _
    simp only [if_neg hs, List.filterMap_cons, Action.accepted?, List.mem_cons, reduceCtorEq,
      false_or]
    exact ⟨congrArg _ ha, iff_of_true he hs⟩

/-- A step of the loop accepts nothing, or it accepts the awaited block and the loop ends exactly
if that is not a full one. -/
theorem waitStep_actions (t : Transfer) (oacklen : Nat) (s : RecvState) (e : Event) :
    let r := waitStep t oacklen s e
    (r.2.filterMap Action.accepted? = [] ∧ .endOperation ∉ r.2) ∨
    ∃ d, e = .datagram d ∧ headerOver (s.subs.bfs s.dp).buf d = tftphdr DATA s.block ∧
      r.2.filterMap Action.accepted? = [(s.block, payloadOf d)] ∧
      (.endOperation ∈ r.2 ↔ ((received d).length : Int) - 4 ≠ t.segsize) := by
  have hnone : (([] : List Action).filterMap Action.accepted? = [] ∧
      .endOperation ∉ ([] : List Action)) := ⟨rfl, List.not_mem_nil⟩
  cases e with
  | timeout =>
    left
    simp only [waitStep]
    split
    · exact hnone
    · exact sendAck_actions t _
  | recvError => exact .inl hnone
  | datagram d =>
    rw [waitStep_datagram]
    dsimp only
    split
    · exact .inl hnone
    split
    · rename_i hd
      split
      · rename_i hb
        right
        obtain ⟨ha, he⟩ := blockReceived_actions t oacklen (received d).length (recvDatagram d s)
        refine ⟨d, rfl, (headerOver_eq_tftphdr_iff _ d _ _).2 ?_, ?_, he⟩
        · exact congrArg₂ Parsed.packet hd hb
        · rw [ha, hb]
          have hn : (((received d).length : Int) - 4).toNat = (received d).length - 4 := by omega
          rw [hn]
          exact congrArg (fun p => [(s.block, p)]) (load_recvDatagram d s)
      split
      · exact .inl (sendAck_actions t _)
      · exact .inl hnone
    · exact .inl hnone

theorem payloads_next (M : Machine RecvState Event Action) (c : Config RecvState Event Action)
    (e : Event) : payloads (M.next c e) =
      payloads c ++ ((M.step c.state e).2.filterMap Action.accepted?).map Prod.snd := by
  simp only [payloads, Machine.observe_next, List.map_append, List.map_map]
  rfl

/-- The blocks before the last one were full, and the last one is a DATA packet that came in with
the number that was due and with less than a full block. -/
def LastAccepted (t : Transfer) (es : List Event) (c : Config RecvState Event Action) : Prop :=
  ∃ ps d, payloads c = ps ++ [payloadOf d] ∧ (∀ p ∈ ps, p.length = t.segsize) ∧
    (payloadOf d).length < t.segsize ∧ .datagram d ∈ es ∧
    tftphdr DATA (bn t.rolloverVal ps.length) <+: d

/-- What an upload has accepted after the events `es`, while it is going on and when it is over. -/
structure Accepting (t : Transfer) (es : List Event) (c : Config RecvState Event Action) :
    Prop where
  going : ¬ Uploaded c → ∀ p ∈ payloads c, p.length = t.segsize
  finished : Uploaded c → LastAccepted t es c

theorem Accepting.quiet {M : Machine RecvState Event Action} (h : Accepting t es c) (e : Event)
    (ha : (M.step c.state e).2.filterMap Action.accepted? = [])
    (hu : .endOperation ∉ (M.step c.state e).2) : Accepting t (es ++ [e]) (M.next c e) := by
  have hpay : payloads (M.next c e) = payloads c := by
    rw [payloads_next, ha, List.map_nil, List.append_nil]
  have hup : Uploaded (M.next c e) ↔ Uploaded c := by
    rw [uploaded_next]
    exact or_iff_left hu
  refine ⟨?_, ?_⟩
  · rw [hup, hpay]
    exact h.going
  · intro hover
    obtain ⟨ps, d, hps, hfull, hshort, hd, hh⟩ := h.finished (hup.1 hover)
    exact ⟨ps, d, hpay.trans hps, hfull, hshort, List.mem_append_left _ hd, hh⟩

theorem wellFormed_data {number : UInt16} (h : headerOver m d = tftphdr DATA number)
    (hw : ¬ Malformed segsize d) :
    tftphdr DATA number <+: d ∧ ((received d).length : Int) - 4 = (payloadOf d).length ∧
      (payloadOf d).length ≤ segsize := by
  have hlen : 4 ≤ d.length := Nat.le_of_not_lt fun hs => hw (.inl hs)
  rw [headerOver_whole m hlen] at h
  have hd : d = tftphdr DATA number ++ d.drop 4 := by rw [← h, List.take_append_drop]
  have hdrop : (d.drop 4).length ≤ segsize :=
    Nat.le_of_not_lt fun hs => hw (.inr ⟨number, d.drop 4, hd, hs⟩)
  have hrecv : 4 ≤ (received d).length := by
    rw [received, List.length_take]
    exact Nat.le_min.2 ⟨by decide, hlen⟩
  have hpay : (payloadOf d).length = (received d).length - 4 := by
    rw [payloadOf, thData, List.length_drop]
  have hle : (received d).length ≤ d.length := List.length_take_le' _ _
  rw [List.length_drop] at hdrop
  refine ⟨?_, by omega, by omega⟩
  rw [← h]
  exact List.take_prefix 4 d

theorem Accepting.accept {M : Machine RecvState Event Action} (h : Accepting t es c)
    (hu : ¬ Uploaded c) (hb : c.state.block = bn t.rolloverVal (payloads c).length)
    (hd : headerOver m d = tftphdr DATA c.state.block) (hw : ¬ Malformed t.segsize d)
    (ha : (M.step c.state (.datagram d)).2.filterMap Action.accepted? =
      [(c.state.block, payloadOf d)])
    (he : .endOperation ∈ (M.step c.state (.datagram d)).2 ↔
      ((received d).length : Int) - 4 ≠ t.segsize) :
    Accepting t (es ++ [.datagram d]) (M.next c (.datagram d)) := by
  obtain ⟨hstarts, hlen, hle⟩ := wellFormed_data hd hw
  have hpay : payloads (M.next c (.datagram d)) = payloads c ++ [payloadOf d] := by
    rw [payloads_next, ha]
    rfl
  have hup : Uploaded (M.next c (.datagram d)) ↔ (payloadOf d).length ≠ t.segsize := by
    rw [uploaded_next, or_iff_right hu, he, hlen, ne_eq, Int.natCast_inj]
  refine ⟨?_, ?_⟩
  · intro hgoing p hp
    rw [hpay, List.mem_append, List.mem_singleton] at hp
    rcases hp with hp | rfl
    · exact h.going hu p hp
    · exact not_not.1 fun hne => hgoing (hup.2 hne)
  · intro hover
    refine ⟨payloads c, d, hpay, h.going hu, Nat.lt_of_le_of_ne hle (hup.1 hover), ?_, ?_⟩
    · exact List.mem_append_right _ (List.mem_singleton_self _)
    · rw [← hb]
      exact hstarts

theorem recvfile_waiting (t : Transfer) (oack : Option Nat) (ackbuf : Mem) (es : List Event)
    (hp : ((tftpRecvfile t oack ackbuf).run es).state.phase = .waiting) :
    ¬ Uploaded ((tftpRecvfile t oack ackbuf).run es) ∧
      ((tftpRecvfile t oack ackbuf).run es).state.block =
        bn t.rolloverVal (payloads ((tftpRecvfile t oack ackbuf).run es)).length := by
  obtain ⟨ds, h⟩ := receiver_run t oack ackbuf es
  rcases h.state with ⟨he, hu⟩ | hd | ⟨⟨how, he⟩, _⟩
  · rw [h.payloads]
    exact ⟨hu, he.block⟩
  · cases hd.phase.symm.trans hp
  · cases he.symm.trans hp

theorem accepting_run (t : Transfer) (oack : Option Nat) (ackbuf : Mem) (f : InFile)
    (es : List Event) (hm : NoneMistaken t oack ackbuf f es .recv) :
    Accepting t es ((tftpRecvfile t oack ackbuf).run es) := by
  induction es using List.reverseRecOn with
  | nil =>
    have hnone : payloads (tftpRecvfile t oack ackbuf).init = [] := by
      rw [payloads, Machine.observe_init]
      simp only [tftpRecvfile, List.filterMap_cons, Action.accepted?, replyBlock,
        (sendAck_actions t _).1, List.map_nil]
    refine ⟨?_, ?_⟩
    · intro _ p hp
      rw [Machine.run, List.foldl_nil, hnone] at hp
      cases hp
    · intro hu
      rw [Machine.run, List.foldl_nil, Uploaded, Machine.log_init] at hu
      rcases List.mem_cons.1 hu with hu | hu
      · cases hu
      · exact absurd hu (sendAck_actions t _).2
  | append_singleton es e ih =>
    have h := ih hm.of_append
    rw [Machine.run_concat]
    cases hp : ((tftpRecvfile t oack ackbuf).run es).state.phase with
    | ended how =>
      have hstep : (tftpRecvfile t oack ackbuf).step
          ((tftpRecvfile t oack ackbuf).run es).state e =
          (((tftpRecvfile t oack ackbuf).run es).state, []) := recvStep_ended hp t _ e
      exact h.quiet e (by rw [hstep]; rfl) (by rw [hstep]; exact List.not_mem_nil)
    | dally =>
      have hstep : (tftpRecvfile t oack ackbuf).step
          ((tftpRecvfile t oack ackbuf).run es).state e =
          dallyStep t ((tftpRecvfile t oack ackbuf).run es).state e := recvStep_dally hp t _ e
      obtain ⟨ha, he⟩ := dallyStep_actions t ((tftpRecvfile t oack ackbuf).run es).state e
      exact h.quiet e (by rw [hstep]; exact ha) (by rw [hstep]; exact he)
    | waiting =>
      obtain ⟨hu, hb⟩ := recvfile_waiting t oack ackbuf es hp
      have hstep : (tftpRecvfile t oack ackbuf).step
          ((tftpRecvfile t oack ackbuf).run es).state e =
          waitStep t (oack.getD 0) ((tftpRecvfile t oack ackbuf).run es).state e :=
        recvStep_waiting hp t _ e
      have hcase := waitStep_actions t (oack.getD 0)
        ((tftpRecvfile t oack ackbuf).run es).state e
      rw [← hstep] at hcase
      rcases hcase with ⟨ha, he⟩ | ⟨d, rfl, hd, ha, he⟩
      · exact h.quiet e ha he
      · refine h.accept hu hb hd ?_ ha he
        intro hmal
        apply hm es d (List.prefix_refl _) hmal
        simp only [Mistaken, RecvState.awaited, hp, hd]

end Upload

def InFile.opened (content : List UInt8) (err : Nat → Bool) : InFile := ⟨content, 0, err⟩

/-- Nothing has sent `tftp_sendfile` to its label `abort` but the normal end of its loop, and it
has taken no packet for an ACK that is none. -/
structure UndisturbedDownload (t : Transfer) (oack : Option Nat) (ackbuf : Mem) (f : InFile)
    (es : List Event) : Prop where
  reads : ∀ p ≤ ((tftpSendfile t oack ackbuf f).run es).state.file.pos, f.err p = false
  sends : ¬ SendFailed t ((tftpSendfile t oack ackbuf f).run es).state
  going : ¬ Interrupted (tftpSendfile t oack ackbuf f) es
  packets : NoneMistaken t oack ackbuf f es .send

/-- No system call on the file has failed, with those of its `fclose`, and `tftp_recvfile` has taken
no packet for the awaited block that is none. -/
structure UndisturbedUpload (t : Transfer) (oack : Option Nat) (ackbuf : Mem) (f : InFile)
    (es : List Event) : Prop where
  writes : t.faults.CleanBelow ((tftpRecvfile t oack ackbuf).run es).state.file.ops
  packets : NoneMistaken t oack ackbuf f es .recv

def Undisturbed (t : Transfer) (oack : Option Nat) (ackbuf : Mem) (f : InFile)
    (es : List Event) : Direction → Prop
  | .send => UndisturbedDownload t oack ackbuf f es
  | .recv => UndisturbedUpload t oack ackbuf f es

def transferActions (t : Transfer) (oack : Option Nat) (ackbuf : Mem) (f : InFile)
    (es : List Event) : Direction → List Action
  | .send => ((tftpSendfile t oack ackbuf f).run es).log.map Prod.snd
  | .recv => ((tftpRecvfile t oack ackbuf).run es).log.map Prod.snd

/-- The whole file was acknowledged, or its last block was accepted and the file as the kernel has it
is the text of all of them. -/
def TransferDone (t : Transfer) (oack : Option Nat) (ackbuf : Mem) (f : InFile)
    (es : List Event) : Direction → Prop
  | .send => FileAcked t oack ackbuf f es
  | .recv =>
    let c := (tftpRecvfile t oack ackbuf).run es
    LastAccepted t es c ∧ c.state.file.stored = decode t.convert (payloads c).flatten

section Unfailing

variable {f : InFile} {es pre : List Event}

theorem UndisturbedDownload.run_clean (h : UndisturbedDownload t oack ackbuf f es)
    (hpre : pre <+: es) : (tftpSendfile t oack ackbuf f.clean).run pre =
      ⟨((tftpSendfile t oack ackbuf f).run pre).state.clean,
        ((tftpSendfile t oack ackbuf f).run pre).log⟩ := by
  apply (sendfile_reads t oack ackbuf f pre).same
  intro p hp
  exact h.reads p (Nat.le_trans hp (sendfile_pos t oack ackbuf f hpre))

/-- What is asked of an undisturbed download holds of it also without failing reads. -/
theorem UndisturbedDownload.clean (h : UndisturbedDownload t oack ackbuf f es) :
    UndisturbedDownload t oack ackbuf f.clean es := by
  refine ⟨fun _ _ => rfl, ?_, ?_, ?_⟩
  · rw [h.run_clean (List.prefix_refl es)]
    exact h.sends
  · rintro ⟨pre, e, hpre, hgoing, he⟩
    rw [h.run_clean ((List.prefix_append _ _).trans hpre)] at hgoing he
    exact h.going ⟨pre, e, hpre, hgoing, he⟩
  · intro pre d hpre hmal hmis
    simp only [Mistaken, h.run_clean ((List.prefix_append _ _).trans hpre)] at hmis
    exact h.packets pre d hpre hmal hmis

theorem FileAcked.of_clean (hc : FileAcked t oack ackbuf f.clean es)
    (h : UndisturbedDownload t oack ackbuf f es) : FileAcked t oack ackbuf f es := by
  obtain ⟨n, hfull, hshort, hack⟩ := hc
  refine ⟨n, hfull, hshort, ?_⟩
  intro i hi
  obtain ⟨pre, d, hpre, ⟨opts, again, ho, hsent⟩, hd⟩ := hack i hi
  rw [h.run_clean ((List.prefix_append _ _).trans hpre)] at hsent
  exact ⟨pre, d, hpre, ⟨opts, again, ho, hsent⟩, hd⟩

theorem regular_done {content : List UInt8}
    (h : UndisturbedDownload t oack ackbuf (.regular content) es)
    (he : .endOperation ∈ ((sendRegular t oack ackbuf content).run es).log.map Prod.snd) :
    FileAcked t oack ackbuf (.regular content) es := by
  have hover := sendfile_ends t oack ackbuf (.regular content) es he
  cases progress_run t oack ackbuf content es h.packets with
  | option hoack hp hf hb => exact absurd hover (not_over hp (by decide) (by decide))
  | waiting i hw hl hfull hack => exact absurd hover (not_over hw.phase (by decide) (by decide))
  | exited hp => exact absurd hover (not_over hp (by decide) (by decide))
  | aborted hp hc =>
    rcases hc with hc | hc
    · exact absurd hc h.sends
    · exact absurd hc h.going
  | completed hp hf => exact hf

theorem download_done {content : List UInt8} {err : Nat → Bool}
    (h : UndisturbedDownload t oack ackbuf (.opened content err) es)
    (he : .endOperation ∈
      ((tftpSendfile t oack ackbuf (.opened content err)).run es).log.map Prod.snd) :
    FileAcked t oack ackbuf (.opened content err) es := by
  have hclean : (InFile.opened content err).clean = .regular content := rfl
  have hlog := congrArg Config.log (h.run_clean (List.prefix_refl es))
  have hc := h.clean
  rw [hclean] at hc hlog
  rw [← hlog] at he
  have hacked := regular_done hc he
  rw [← hclean] at hacked
  exact hacked.of_clean h

end Unfailing

theorem upload_done (h : UndisturbedUpload t oack ackbuf f es)
    (he : Uploaded ((tftpRecvfile t oack ackbuf).run es)) :
    TransferDone t oack ackbuf f es .recv := by
  obtain ⟨ds, htrace⟩ := receiver_run t oack ackbuf es
  refine ⟨(accepting_run t oack ackbuf f es h.packets).finished he, ?_⟩
  rw [htrace.payloads]
  exact (htrace.complete he).stored h.writes

/-- In every run that nothing has disturbed, the GUI shows success only for a transfer that is
done: nobody but the server has touched the flags of the slot since it was allocated. -/
theorem success_completed (t : Transfer) (oack : Option Nat) (ackbuf : Mem)
    (content : List UInt8) (err : Nat → Bool) (es : List Event) (dir : Direction) (x : Slot)
    (m m' : Mem) (as : List Action)
    (h : Undisturbed t oack ackbuf (.opened content err) es dir)
    (hm : oflags m x = wootftpdEnable)
    (has : as <+: transferActions t oack ackbuf (.opened content err) es dir)
    (hrun : OwnedRun x m as m') (hs : updateView (oflags m' x) = .success) :
    TransferDone t oack ackbuf (.opened content err) es dir := by
  have hend : .endOperation ∈ transferActions t oack ackbuf (.opened content err) es dir := by
    rcases hrun.ended (success_ended hs) with he | he
    · rw [ended, hm] at he
      cases he
    · exact has.subset he
  cases dir with
  | send => exact download_done h hend
  | recv => exact upload_done h hend

theorem ownedRun_foldl (x : Slot) (m : Mem) (as : List Action) :
    OwnedRun x m as (as.foldl (Action.onSlot x) m) := by
  induction as using List.reverseRecOn with
  | nil => exact .start
  | append_singleton as a ih =>
    rw [List.foldl_append]
    exact .act a ih

def allocated : Mem := setOflags .zero 0 wootftpdEnable

theorem prefix_of_singleton {e e' : Event} (h : pre ++ [e] <+: [e']) : pre = [] ∧ e = e' := by
  obtain ⟨post, h⟩ := h
  cases pre with
  | nil => exact ⟨rfl, (List.cons.inj h).1⟩
  | cons a pre =>
    have htail : pre ++ [e] ++ post = [] := (List.cons.inj h).2
    simp only [List.append_eq_nil_iff, List.cons_ne_nil, and_false, false_and] at htail

/-- A file of one byte, whose only block the client acknowledges. -/
theorem oneByte_shown :
    let es := [Event.datagram (tftphdr ACK 1)]
    let as := transferActions octetTransfer none .zero (.opened [65] fun _ => false) es .send
    let m' := as.foldl (Action.onSlot 0) allocated
    updateView (oflags m' 0) = .success ∧
      TransferDone octetTransfer none .zero (.opened [65] fun _ => false) es .send := by
  intro es as m'
  have hs : updateView (oflags m' 0) = .success := by decide
  refine ⟨hs, success_completed _ _ _ _ _ _ _ 0 allocated m' as ?_ (by decide)
    (List.prefix_refl _) (ownedRun_foldl 0 allocated as) hs⟩
  refine ⟨fun _ _ => rfl, ?_, ?_, ?_⟩
  · rintro ⟨k, _, hk⟩
    cases hk
  · rintro ⟨pre, e, hpre, _, hi⟩
    obtain ⟨rfl, rfl⟩ := prefix_of_singleton hpre
    have hparse := parse_packet ((tftpSendfile octetTransfer none .zero
      (.opened [65] fun _ => false)).run []).state.ackbuf ACK 1 []
    rw [List.append_nil] at hparse
    rw [Parsed.Interrupts, hparse] at hi
    rcases hi with hi | ⟨number, hi⟩
    · cases hi
    · cases hi
  · intro pre d hpre _ hmis
    obtain ⟨rfl, hd⟩ := prefix_of_singleton hpre
    cases hd
    exact absurd hmis.1 (by decide)

/-- A client that refuses the options and a full disk: the GUI shows success for a file of which
nothing was acknowledged, and for an empty file. -/
theorem refusedOptions_shown :
    oflags allocated 0 = wootftpdEnable ∧
    (let f := InFile.opened [65] fun _ => false
     let es := [Event.datagram (tftphdr ERROR 8)]
     let as := transferActions octetTransfer (some 15) blksizeOack f es .send
     let m' := as.foldl (Action.onSlot 0) allocated
     OwnedRun 0 allocated as m' ∧ updateView (oflags m' 0) = .success ∧
       ¬ TransferDone octetTransfer (some 15) blksizeOack f es .send) ∧
    (let f := InFile.opened [] fun _ => false
     let es := [Event.datagram (tftphdr DATA 1 ++ [65])]
     let as := transferActions diskFull none .zero f es .recv
     let m' := as.foldl (Action.onSlot 0) allocated
     OwnedRun 0 allocated as m' ∧ updateView (oflags m' 0) = .success ∧
       ¬ TransferDone diskFull none .zero f es .recv) := by
  refine ⟨by decide, ⟨ownedRun_foldl _ _ _, by decide, ?_⟩, ownedRun_foldl _ _ _, by decide, ?_⟩
  · rintro ⟨n, _, _, hack⟩
    obtain ⟨pre, d, hpre, _, hd⟩ := hack 0 (Nat.zero_le n)
    obtain ⟨_, he⟩ := prefix_of_singleton hpre
    cases he
    revert hd
    decide
  · rintro ⟨_, hfile⟩
    revert hfile
    decide

end WooTftpd
