import WooTftpd.LostWrite
import WooTftpd.Network
import WooTftpd.RoundTrip

namespace WooTftpd
open Lib
set_option autoImplicit true

variable {t : Transfer} {o : Order} {strerror : Nat → CString} {content : List UInt8}

/-- The numbers tell a datagram from the older ones that may still come: the transfer ends before
they roll over, or the order is kept and no block has the number of the one before it. -/
def Distinguishable (o : Order) (t : Transfer) (payload : Nat → List UInt8) : Prop :=
  (∃ n < 65535, (payload n).length ≠ t.segsize) ∨ (o = .kept ∧ t.rolloverVal ≠ 65535)

theorem tftpWire_num (t : Transfer) (first greeting : List UInt8 → Prop) (h : p ≤ 65535) :
    ((tftpWire t first greeting).num p).toNat = p := by
  cases p with
  | zero => rfl
  | succ p => exact bn_toNat t.rolloverVal h

theorem tftpWire_num_succ (t : Transfer) (first greeting : List UInt8 → Prop)
    (h : t.rolloverVal ≠ 65535) (p : Nat) :
    (tftpWire t first greeting).num p ≠ (tftpWire t first greeting).num (p + 1) := by
  cases p with
  | zero =>
    have hone : (0 : UInt16) ≠ 1 := by decide
    exact hone
  | succ p => exact (bn_ne_succ_iff t.rolloverVal).2 h p

theorem Distinguishable.fresh {payload : Nat → List UInt8} (h : Distinguishable o t payload)
    (first greeting : List UInt8 → Prop) : (tftpWire t first greeting).Fresh payload o := by
  intro j q hj hmore
  rcases h with ⟨n, hn, hshort⟩ | ⟨rfl, hr⟩
  · have hq : q ≤ n + 1 := by
      by_contra hlt
      exact hmore (n + 1) (Nat.lt_of_not_le hlt) hshort
    have hlt : j < q := by
      cases o with
      | any => exact hj
      | kept =>
        rw [← hj]
        exact Nat.lt_succ_self j
    intro he
    have hnum := congrArg UInt16.toNat he
    rw [tftpWire_num t first greeting (by omega), tftpWire_num t first greeting (by omega)] at hnum
    omega
  · rw [← hj]
    exact tftpWire_num_succ t first greeting hr j

theorem length_payload_le (t : Transfer) (content : List UInt8) (i : Nat) :
    (payload t content i).length ≤ t.segsize := List.length_take_le _ _

theorem flatten_taken (t : Transfer) (content : List UInt8) (k : Nat) :
    (takenUpTo (payload t content) k).flatten = (encode t.convert content).take (k * t.segsize) := by
  induction k with
  | zero =>
    rw [Nat.zero_mul, List.take_zero]
    rfl
  | succ k ih =>
    rw [takenUpTo_succ, List.flatten_append, List.flatten_singleton, ih, Nat.succ_mul, List.take_add]
    rfl

/-- Up to a block that is not full everything was sent. -/
theorem flatten_taken_ended (h : (payload t content k).length ≠ t.segsize) :
    (takenUpTo (payload t content) (k + 1)).flatten = encode t.convert content := by
  rw [flatten_taken]
  apply List.take_of_length_le
  have hle := length_payload_le t content k
  rw [payload, chunk, List.length_take, List.length_drop] at h hle
  rw [Nat.succ_mul]
  omega

/-- What the two ends of a transfer have agreed on. -/
structure Agree (t t' : Transfer) : Prop where
  convert : t'.convert = t.convert
  segsize : t'.segsize = t.segsize
  rolloverVal : t'.rolloverVal = t.rolloverVal

theorem Agree.wire {t' : Transfer} (h : Agree t t') (oack : Option Nat) (ackbuf ackbuf' : Mem) :
    uploadWire t' none ackbuf' (Greeting oack ackbuf) = downloadWire t oack ackbuf := by
  simp only [uploadWire, downloadWire, tftpWire, h.segsize, h.rolloverVal]
  rfl

theorem no_greeting (ackbuf : Mem) (d : List UInt8) : Greeting none ackbuf d → NotData d := by
  rintro ⟨_, ho, -⟩
  cases ho

/-- A file of one byte on its way from `tftp_sendfile` to `tftp_recvfile`. -/
def oneByteLink : System (Link SendState Event Action RecvState Event Action (List UInt8))
    (LinkEvent Event Event) :=
  linkSystem .any (tftpSendfile octetTransfer none .zero (.regular [65])) (socket fun _ => .empty)
    (tftpRecvfile octetTransfer none .zero) (socket fun _ => .empty)

theorem oneByteLink_completes :
    ∃ l, oneByteLink.Reachable l ∧ l.sender.state.phase = .ended .completed ∧
      Uploaded l.receiver := by
  let start := Link.init (tftpSendfile octetTransfer none .zero (.regular [65]))
    (socket fun _ => .empty) (tftpRecvfile octetTransfer none .zero) (socket fun _ => .empty)
  have hrun : (oneByteLink.exec start [.toReceiver 0 false, .toSender 1 false]).map
      (fun l => (l.sender.state.phase, l.receiver.log.map Prod.snd)) =
      some (.ended .completed, [.setFlagDownload, .send (tftphdr ACK 0), .accept 1 [65],
        .incrementBlock 1, .endOperation, .send (tftphdr ACK 1)]) := by decide
  obtain ⟨l, hl, he⟩ := Option.map_eq_some_iff.1 hrun
  refine ⟨l, (System.Reach.init rfl).exec (fun _ _ _ => trivial) hl, congrArg Prod.fst he, ?_⟩
  have hlog : l.receiver.log.map Prod.snd = _ := congrArg Prod.snd he
  rw [Uploaded, hlog]
  decide

theorem oneByte_distinguishable :
    Distinguishable .any octetTransfer (payload octetTransfer [65]) :=
  .inl ⟨0, by decide, by decide⟩

section Download

variable {oack : Option Nat} {ackbuf : Mem} {M : Machine σ ε α} {pt : Port ε α (List UInt8)}
  {V : ReceiverView (Config σ ε α) (List UInt8)}

/-- What a download has come to when its client has taken `k` blocks. -/
theorem inStep_download {l : Link SendState Event Action σ ε α (List UInt8)}
    (hin : InStep (senderView t oack ackbuf content) V (downloadWire t oack ackbuf)
      (payload t content) o l p k) :
    (takenUpTo (payload t content) k).flatten <+: encode t.convert content ∧
    (l.sender.state.phase = .ended .completed →
      decode t.convert (takenUpTo (payload t content) k).flatten = content) := by
  constructor
  · rw [flatten_taken]
    exact List.take_prefix _ _
  · intro hp
    have hM := sendfile_sendsInTurn t oack ackbuf content fun _ => .empty
    obtain ⟨rfl, he⟩ := hin.finished (q := p) hM hp
    cases k with
    | zero => exact he.elim
    | succ k =>
      rw [flatten_taken_ended he]
      exact decode_encode t.convert content

/-- A download over a network that loses and repeats datagrams, to any client that keeps to the
protocol: the client has taken the first blocks of the file, each once and in order, and when
`tftp_sendfile` has completed these are the whole file. -/
theorem download_delivers {l : Link SendState Event Action σ ε α (List UInt8)}
    (hV : TakesInTurn (downloadWire t oack ackbuf) V M pt) (hseg : t.segsize ≤ maxSegsize)
    (hd : Distinguishable o t (payload t content))
    (h : (linkSystem o (tftpSendfile t oack ackbuf (.regular content)) (socket strerror)
      M pt).Reachable l) :
    ∃ k,
      (V.Has l.receiver (takenUpTo (payload t content) k) ∨
        V.Gone l.receiver (takenUpTo (payload t content) k)) ∧
      (takenUpTo (payload t content) k).flatten <+: encode t.convert content ∧
      (l.sender.state.phase = .ended .completed →
        decode t.convert (takenUpTo (payload t content) k).flatten = content) := by
  have hM := sendfile_sendsInTurn t oack ackbuf content strerror
  have hfits (i : Nat) : (downloadWire t oack ackbuf).fits (payload t content i) :=
    Nat.le_trans (length_payload_le t content i) hseg
  obtain ⟨p, k, hin⟩ := inStep_of_reachable hM hV hfits (hd.fresh _ _) h
  exact ⟨k, hin.receiver, inStep_download hin⟩

theorem oneByte_delivered :
    ∃ l, oneByteLink.Reachable l ∧
      ∃ k, (takenUpTo (payload octetTransfer [65]) k).flatten = [65] := by
  obtain ⟨l, hl, hp, -⟩ := oneByteLink_completes
  have hV := recvfile_takesInTurn octetTransfer none .zero (Greeting none .zero)
    (no_greeting .zero) fun _ => .empty
  rw [Agree.wire ⟨rfl, rfl, rfl⟩] at hV
  obtain ⟨k, -, -, hd⟩ := download_delivers hV (by decide) oneByte_distinguishable hl
  exact ⟨l, hl, k, hd hp⟩

end Download

section Upload

variable {oack : Option Nat} {ackbuf : Mem} {greeting : List UInt8 → Prop}
  {payload : Nat → List UInt8} {M : Machine σ ε α} {pt : Port ε α (List UInt8)}
  {V : SenderView (Config σ ε α)} {l : Link σ ε α RecvState Event Action (List UInt8)}

theorem mem_takenUpTo {x : List UInt8} : x ∈ takenUpTo payload k ↔ ∃ i < k, payload i = x := by
  simp only [takenUpTo, List.mem_map, List.mem_range]

/-- What an upload has come to when it has taken `k` blocks and the sender is at message `p`. -/
theorem inStep_upload (hf : t.faults = .clean)
    (hV : SendsInTurn (uploadWire t oack ackbuf greeting) payload V M pt)
    (hin : InStep V (receiverView t oack ackbuf) (uploadWire t oack ackbuf greeting) payload o l
      p k) :
    payloads l.receiver = takenUpTo payload k ∧
    (∀ i, i + 1 < k → (payload i).length = t.segsize) ∧
    (Uploaded l.receiver ↔ ∃ i, k = i + 1 ∧ (payload i).length ≠ t.segsize) ∧
    (Uploaded l.receiver →
      l.receiver.state.file.stored = decode t.convert (takenUpTo payload k).flatten) ∧
    (∀ q, V.Over l.sender q → Uploaded l.receiver) := by
  have hclean (n : Nat) : t.faults.CleanBelow n := by
    rw [hf]
    exact fun _ _ => rfl
  have hfull (i : Nat) (hi : i + 1 < k) : (payload i).length = t.segsize := by
    have hnear := hin.near
    exact not_not.1 (hin.more (i + 1) (by omega))
  have hshort : (∃ x ∈ takenUpTo payload k, x.length ≠ t.segsize) ↔
      ∃ i, k = i + 1 ∧ (payload i).length ≠ t.segsize := by
    constructor
    · rintro ⟨x, hx, hne⟩
      obtain ⟨i, hi, rfl⟩ := mem_takenUpTo.1 hx
      refine ⟨i, ?_, hne⟩
      have hlt := mt (hfull i) hne
      omega
    · rintro ⟨i, rfl, hne⟩
      exact ⟨payload i, mem_takenUpTo.2 ⟨i, Nat.lt_succ_self i, rfl⟩, hne⟩
  have hover (q : Nat) (hq : V.Over l.sender q) :
      ∃ i, k = i + 1 ∧ (payload i).length ≠ t.segsize := by
    obtain ⟨rfl, he⟩ := hin.finished hV hq
    cases k with
    | zero => exact he.elim
    | succ i => exact ⟨i, rfl, he⟩
  have hup : Uploaded l.receiver ↔ ∃ i, k = i + 1 ∧ (payload i).length ≠ t.segsize := by
    rw [← hshort]
    rcases hin.receiver with ⟨ds, hds, hr⟩ | ⟨ds, hds, hr⟩
    · rw [← hds]
      exact iff_of_false hr.goesOn (not_short hr.full)
    · rw [← hds]
      exact hr.complete
  have htrace : ∃ ds, accepted ds = takenUpTo payload k ∧
      ReceiverTrace t (firstReply oack ackbuf) ds l.receiver := by
    rcases hin.receiver with ⟨ds, hds, hr⟩ | ⟨ds, hds, hr⟩
    · exact ⟨ds, hds, hr.trace⟩
    · exact ⟨ds, hds, hr.trace⟩
  obtain ⟨ds, hds, htrace⟩ := htrace
  refine ⟨htrace.payloads.trans hds, hfull, hup, ?_, fun q hq => hup.2 (hover q hq)⟩
  intro hu
  rw [← hds]
  exact (htrace.complete hu).stored (hclean _)

/-- An upload over a network that loses and repeats datagrams, from any client that keeps to the
protocol: the payloads that `tftp_recvfile` accepts are the first ones of the client, each once
and in order; the upload has ended exactly when the last of them is among these, which are then
all in the file, and it has ended when the client is done. -/
theorem upload_delivers (hf : t.faults = .clean)
    (hV : SendsInTurn (uploadWire t oack ackbuf greeting) payload V M pt)
    (hg : ∀ d, greeting d → NotData d) (hfits : ∀ i, (payload i).length ≤ maxSegsize)
    (hd : Distinguishable o t payload)
    (h : (linkSystem o M pt (tftpRecvfile t oack ackbuf) (socket strerror)).Reachable l) :
    ∃ k,
      payloads l.receiver = takenUpTo payload k ∧
      (∀ i, i + 1 < k → (payload i).length = t.segsize) ∧
      (Uploaded l.receiver ↔ ∃ i, k = i + 1 ∧ (payload i).length ≠ t.segsize) ∧
      (Uploaded l.receiver →
        l.receiver.state.file.stored = decode t.convert (takenUpTo payload k).flatten) ∧
      (∀ q, V.Over l.sender q → Uploaded l.receiver) := by
  have hM := recvfile_takesInTurn t oack ackbuf greeting hg strerror
  obtain ⟨p, k, hin⟩ := inStep_of_reachable hV hM hfits (hd.fresh _ _) h
  exact ⟨k, inStep_upload hf hV hin⟩

theorem oneByte_uploaded :
    ∃ l, oneByteLink.Reachable l ∧ payloads l.receiver = [[65]] := by
  obtain ⟨l, hl, -, hu⟩ := oneByteLink_completes
  have hV := sendfile_sendsInTurn octetTransfer none .zero [65] fun _ => .empty
  rw [← Agree.wire ⟨rfl, rfl, rfl⟩ none .zero .zero] at hV
  obtain ⟨k, hpay, hfull, hup, -⟩ := upload_delivers (o := .any) rfl hV (no_greeting .zero)
    (fun i => Nat.le_trans (length_payload_le _ _ i) (by decide)) oneByte_distinguishable hl
  obtain ⟨i, rfl, -⟩ := hup.1 hu
  have hz : i = 0 := by
    by_contra hne
    have hlen := hfull 0 (by omega)
    revert hlen
    decide
  rw [hz] at hpay
  exact ⟨l, hl, hpay⟩

end Upload

section Copy

variable {t' : Transfer} {oack : Option Nat} {ackbuf ackbuf' : Mem} {strerror' : Nat → CString}
  {l : Link SendState Event Action RecvState Event Action (List UInt8)}

theorem inStep_copy (ha : Agree t t') (hg : ∀ d, Greeting oack ackbuf d → NotData d)
    (hseg : t.segsize ≤ maxSegsize) (hd : Distinguishable o t (payload t content))
    (h : (linkSystem o (tftpSendfile t oack ackbuf (.regular content)) (socket strerror)
      (tftpRecvfile t' none ackbuf') (socket strerror')).Reachable l) :
    ∃ p k, InStep (senderView t oack ackbuf content) (receiverView t' none ackbuf')
      (downloadWire t oack ackbuf) (payload t content) o l p k := by
  have hM := sendfile_sendsInTurn t oack ackbuf content strerror
  have hM' := recvfile_takesInTurn t' none ackbuf' (Greeting oack ackbuf) hg strerror'
  rw [ha.wire] at hM'
  have hfits (i : Nat) : (downloadWire t oack ackbuf).fits (payload t content i) :=
    Nat.le_trans (length_payload_le t content i) hseg
  exact inStep_of_reachable hM hM' hfits (hd.fresh _ _) h

/-- A file that `tftp_sendfile` sends to `tftp_recvfile` over a network that loses and repeats
datagrams arrives unchanged: what was accepted is the beginning of its text, the received file is
the file that was sent as soon as the receiver counts the upload as ended, and the receiver does so
before the sender completes. -/
theorem copy_delivers (ha : Agree t t') (hf : t'.faults = .clean)
    (hg : ∀ d, Greeting oack ackbuf d → NotData d)
    (hseg : t.segsize ≤ maxSegsize) (hd : Distinguishable o t (payload t content))
    (h : (linkSystem o (tftpSendfile t oack ackbuf (.regular content)) (socket strerror)
      (tftpRecvfile t' none ackbuf') (socket strerror')).Reachable l) :
    (payloads l.receiver).flatten <+: encode t.convert content ∧
    (Uploaded l.receiver → l.receiver.state.file.stored = content) ∧
    (l.sender.state.phase = .ended .completed → Uploaded l.receiver) := by
  obtain ⟨p, k, hin⟩ := inStep_copy ha hg hseg hd h
  have hM := sendfile_sendsInTurn t oack ackbuf content strerror
  rw [← ha.wire oack ackbuf ackbuf'] at hin hM
  obtain ⟨hpay, -, hup, hcontent, hover⟩ := inStep_upload hf hM hin
  refine ⟨?_, ?_, hover p⟩
  · rw [hpay, flatten_taken]
    exact List.take_prefix _ _
  · intro hu
    obtain ⟨i, rfl, hshort⟩ := hup.1 hu
    rw [ha.segsize] at hshort
    rw [hcontent hu, flatten_taken_ended hshort, ha.convert]
    exact decode_encode t.convert content

theorem oneByte_copied :
    ∃ l, oneByteLink.Reachable l ∧ l.receiver.state.file.stored = [65] := by
  obtain ⟨l, hl, hp, -⟩ := oneByteLink_completes
  obtain ⟨-, hc, hu⟩ := copy_delivers ⟨rfl, rfl, rfl⟩ rfl (no_greeting .zero) (by decide)
    oneByte_distinguishable hl
  exact ⟨l, hl, hc (hu hp)⟩

end Copy

end WooTftpd
