import WooTftpd.FileLocks
import WooTftpd.OptionList
import WooTftpd.ReadErrors
import WooTftpd.SendfileRun

namespace WooTftpd
open Lib
set_option autoImplicit true

/-- The payload bytes of the first `n` blocks. -/
def payloadBytes (t : Transfer) (content : List UInt8) (n : Nat) : Nat :=
  ((List.range n).flatMap (payload t content)).length

theorem payloadBytes_eq (t : Transfer) (content : List UInt8) (n : Nat) :
    payloadBytes t content n = min (n * t.segsize) (encode t.convert content).length := by
  induction n with
  | zero => simp [payloadBytes]
  | succ n ih =>
    have hlast : (payload t content n).length =
        min t.segsize ((encode t.convert content).length - n * t.segsize) := by
      rw [payload, chunk, List.length_take, List.length_drop]
    rw [payloadBytes, List.range_succ, List.flatMap_append, List.length_append, ← payloadBytes,
      ih, List.flatMap_singleton, hlast, Nat.succ_mul]
    omega

/-- The blocks up to the first short one are the whole text. -/
theorem payloadBytes_all (hshort : (payload t content i).length < t.segsize) :
    payloadBytes t content (i + 1) = (encode t.convert content).length := by
  rw [payloadBytes_eq]
  rw [payload, chunk, List.length_take, List.length_drop] at hshort
  rw [Nat.succ_mul]
  omega

theorem payloadBytes_completed (hconv : t.convert = false)
    (hshort : (payload t content i).length < t.segsize) :
    payloadBytes t content (i + 1) = content.length := by
  rw [payloadBytes_all hshort, hconv]
  rfl

/-- The DATA packets of a child are the first `n` blocks of the file as it was at the lock of the
child, some of them repeated, after what it sent in the option phase. -/
def SendsBlocks (j : Job) (size : Nat) (version : List UInt8) (c : Config SendState Event Action)
    (n : Nat) : Prop :=
  ∃ es opts again, OptionSent (j.oack size) (j.ackbuf size) es opts ∧
    sentPackets c = opts ++ (senderLog j.transfer version again n).map Prod.snd

theorem completed_sendsBlocks (j : Job) (hconv : j.transfer.convert = false) (size : Nat)
    (version : List UInt8) (es : List Event)
    (hc : ((j.sendfile size version).run es).state.phase = .ended .completed) :
    ∃ n, SendsBlocks j size version ((j.sendfile size version).run es) n ∧
      payloadBytes j.transfer version n = version.length := by
  obtain ⟨hlog, hc'⟩ := completed_clean j.transfer hconv _ _ _ es hc
  obtain ⟨opts, n, again, hopts, hsent, _, hend⟩ :=
    tftpSendfile_run j.transfer (j.oack size) (j.ackbuf size) version es
  obtain ⟨i, rfl, hshort⟩ := hend hc'
  refine ⟨i + 1, ⟨es, opts, again, hopts, ?_⟩, payloadBytes_completed hconv hshort⟩
  rw [sentPackets, Job.sendfile, ← hlog]
  exact hsent

/-- The calls of `do_opt` for an octet RRQ, whose `fstat` has seen `size` bytes. -/
def sampledOpts (cfg : OptionConfig) (negotiated : Negotiated) (opts : List (CString × CString))
    (size : Nat) : OptResult :=
  doOpts cfg opts { negotiated with tsize := size, tsizeOk := true } .start

/-- The length of the OACK, if there is one. -/
def OptResult.oacklen : OptResult → Option Nat
  | .returned _ o => if o.ap ≠ 2 then some o.ap else none
  | .nak _ _ => none

def OptResult.ackbuf : OptResult → Mem
  | .returned _ o => o.ackbuf
  | .nak _ _ => Oack.start.ackbuf

/-- The job of an octet RRQ with the options `opts`. -/
def readJob (cfg : OptionConfig) (negotiated : Negotiated) (opts : List (CString × CString))
    (t : Transfer) (err : Nat → Bool) : Job where
  write := false
  create := false
  transfer := t
  oack := fun size => (sampledOpts cfg negotiated opts size).oacklen
  ackbuf := fun size => (sampledOpts cfg negotiated opts size).ackbuf
  err := err

section Oack

variable {cfg : OptionConfig} {opt val : CString} {n n' : Negotiated} {o o' : Oack}
  {pre post : List (CString × CString)}

theorem handler_tsize (h : OptionName.handler cfg name v n = some (v', n')) :
    n'.tsize = n.tsize ∧ n'.tsizeOk = n.tsizeOk := by
  have hrexmt {low high scale : Nat} (h : setRexmtval low high scale v n = some (v', n')) :
      n'.tsize = n.tsize ∧ n'.tsizeOk = n.tsizeOk := by
    simp only [setRexmtval] at h
    split at h
    · cases h
    · cases h
      exact ⟨rfl, rfl⟩
  cases name with
  | timeout => exact hrexmt h
  | utimeout => exact hrexmt h
  | _ =>
    simp only [OptionName.handler, setBlksize, setBlksize2, setTsize, setRollover] at h
    repeat' split at h
    all_goals cases h
    all_goals exact ⟨rfl, rfl⟩

/-- An option `tsize` of 0 is acknowledged with the size, after the recognized options before it. -/
theorem acknowledgements_tsize (hok : n.tsizeOk = true)
    (hopt : recognized cfg opt val = some (.tsize, 0))
    (hd : doOpts cfg (pre ++ (opt, val) :: post) n o = .returned n' o') :
    ∃ before after, acknowledgements cfg (pre ++ (opt, val) :: post) n =
        before ++ (opt, decimalString n.tsize) :: after ∧
      before.length = (pre.filter fun p => (recognized cfg p.1 p.2).isSome).length := by
  induction pre generalizing n o with
  | nil =>
    rcases doOpts_cons_cases hd with ⟨hr, _⟩ | ⟨name, v, v', n₁, hr, hh, _, _⟩
    · rw [hopt] at hr
      cases hr
    · rw [hopt] at hr
      cases hr
      have hv : v' = n.tsize := by
        simp only [OptionName.handler, setTsize, Negotiated.unset, hok, if_true, Option.some.injEq,
          Prod.mk.injEq] at hh
        exact hh.1.symm
      refine ⟨[], acknowledgements cfg post n₁, ?_, rfl⟩
      rw [List.nil_append, acknowledgements_taken hopt hh, hv, List.nil_append]
  | cons p pre ih =>
    rcases doOpts_cons_cases hd with ⟨hr, hd⟩ | ⟨name, v, v', n₁, hr, hh, _, hd⟩
    · obtain ⟨before, after, ha, hl⟩ := ih (n := n.unset) hok hd
      refine ⟨before, after, ?_, ?_⟩
      · rw [List.cons_append, acknowledgements_ignored hr]
        exact ha
      · rw [List.filter_cons_of_neg (by rw [hr]; decide)]
        exact hl
    · obtain ⟨ht, hk⟩ := handler_tsize hh
      obtain ⟨before, after, ha, hl⟩ := ih (n := n₁) (hk.trans hok) hd
      refine ⟨(p.1, decimalString v') :: before, after, ?_, ?_⟩
      · rw [List.cons_append, acknowledgements_taken hr hh, ha, ht]
        rfl
      · rw [List.filter_cons_of_pos (by rw [hr]; rfl), List.length_cons, List.length_cons, hl]

theorem doOpts_header (hap : 2 ≤ o.ap) (hd : doOpts cfg opts n o = .returned n' o') :
    o'.ackbuf.load 0 2 = o.ackbuf.load 0 2 := by
  induction opts generalizing n o with
  | nil =>
    cases hd
    rfl
  | cons p opts ih =>
    rcases doOpts_cons_cases hd with ⟨_, hd⟩ | ⟨name, v, v', n₁, _, _, _, hd⟩
    · exact ih hap hd
    · rw [ih (Nat.le_add_right_of_le hap) hd]
      exact Mem.load_store_disjoint _ _ (.inl hap)

/-- The bytes of the OACK for a request with the option `tsize` of 0. -/
theorem sampledOpts_oack (hopt : recognized cfg opt val = some (.tsize, 0)) (size : Nat)
    (hd : sampledOpts cfg n (pre ++ (opt, val) :: post) size = .returned n' o) :
    ∃ text before after, o.ap ≠ 2 ∧ o.ackbuf.load 0 o.ap = Mem.be16 OACK ++ text ∧
      decodePairs text = some (before ++ (opt, decimalString size) :: after) ∧
      before.length = (pre.filter fun p => (recognized cfg p.1 p.2).isSome).length := by
  obtain ⟨before, after, hacks, hlen⟩ := acknowledgements_tsize rfl hopt hd
  have hholds := doOpts_holds _ hd
  dsimp only at hacks
  rw [hacks] at hholds
  have hheader : o.ackbuf.load 0 2 = Mem.be16 OACK :=
    (doOpts_header (o := .start) (Nat.le_refl 2) hd).trans rfl
  have hpos : 0 < (encodePairs (before ++ (opt, decimalString size) :: after)).length := by
    have hcons : before ++ (opt, decimalString size) :: after =
        before ++ ([(opt, decimalString size)] ++ after) := rfl
    rw [hcons, encodePairs_append, encodePairs_append, encodePairs_single]
    simp only [List.length_append, List.length_singleton]
    omega
  have hap := hholds.ap
  have hne : o.ap ≠ 2 := by omega
  have hsum : o.ap = 2 + (o.ap - 2) := by omega
  refine ⟨o.ackbuf.load 2 (o.ap - 2), before, after, hne, ?_, hholds.decode, hlen⟩
  conv => lhs; rw [hsum, Mem.load_add, hheader]

end Oack

/-- What is sent first is the OACK, unless it could not be sent. -/
theorem oack_first (t : Transfer) (oacklen : Nat) (ackbuf : Mem) (f : InFile) (es : List Event) :
    ((tftpSendfile t (some oacklen) ackbuf f).run es).state.phase = .ended .aborted ∨
      (sentPackets ((tftpSendfile t (some oacklen) ackbuf f).run es)).head? =
        some (ackbuf.load 0 oacklen) := by
  apply (tftpSendfile t (some oacklen) ackbuf f).run_induction
    (P := fun _ c => c.state.phase = .ended .aborted ∨
      (sentPackets c).head? = some (ackbuf.load 0 oacklen))
  · rcases sendOack_cases t oacklen (sendInit ackbuf t.rexmtval f) with ⟨_, ha⟩ | ⟨hd, _⟩
    · right
      rw [sentPackets, Machine.log_init]
      simp only [tftpSendfile, ha]
      rfl
    · exact .inl hd
  · intro es e ih
    rcases ih with hp | hh
    · left
      rw [tftpSendfile_ended t _ ackbuf f hp e]
      exact hp
    · right
      obtain ⟨ds, hds⟩ := List.head?_eq_some_iff.1 hh
      rw [sentPackets_next, hds]
      rfl

/-- A child that completes for an octet RRQ with the option `tsize` of 0 has sent an OACK with the
number of bytes that it then sends, exactly if the file had the same size at its `fstat` as at its
lock. -/
theorem announced_iff_unchanged (jobs : Nat → Job) (s : Shared)
    (h : (childSystem jobs).Reachable s) (p : Nat) (cfg : OptionConfig) (negotiated : Negotiated)
    (pre post : List (CString × CString)) (opt val : CString) (t : Transfer) (err : Nat → Bool)
    (hjob : jobs p = readJob cfg negotiated (pre ++ (opt, val) :: post) t err)
    (hconv : t.convert = false) (hopt : recognized cfg opt val = some (.tsize, 0))
    (size : Nat) (version : List UInt8) (c : Config SendState Event Action)
    (hs : (s.stage p).sends? = some (size, version, c)) (n : Negotiated) (o : Oack)
    (hok : sampledOpts cfg negotiated (pre ++ (opt, val) :: post) size = .returned n o)
    (hc : c.state.phase = .ended .completed) :
    ∃ k text before announced after, SendsBlocks (jobs p) size version c k ∧
      (sentPackets c).head? = some (Mem.be16 OACK ++ text) ∧
      decodePairs text = some (before ++ (opt, announced) :: after) ∧
      before.length = (pre.filter fun p => (recognized cfg p.1 p.2).isSome).length ∧
      (announced = decimalString (payloadBytes t version k) ↔ size = version.length) := by
  obtain ⟨es, rfl⟩ := (lockInv_of_reachable h).sends_version hs
  have hconv' : (jobs p).transfer.convert = false := by
    rw [hjob]
    exact hconv
  obtain ⟨k, hk, hbytes⟩ := completed_sendsBlocks (jobs p) hconv' size version es hc
  have ht : (jobs p).transfer = t := by rw [hjob, readJob]
  rw [ht] at hbytes
  obtain ⟨text, before, after, hap, hoack, hdecode, hlen⟩ := sampledOpts_oack hopt size hok
  refine ⟨k, text, before, decimalString size, after, hk, ?_, hdecode, hlen, ?_⟩
  · have hlength : (jobs p).oack size = some o.ap := by
      rw [hjob]
      simp only [readJob, hok, OptResult.oacklen]
      exact if_pos hap
    have hbuf : (jobs p).ackbuf size = o.ackbuf := by
      rw [hjob]
      simp only [readJob, hok, OptResult.ackbuf]
    simp only [Job.sendfile, hlength, hbuf] at hc ⊢
    rcases oack_first (jobs p).transfer o.ap o.ackbuf ⟨version, 0, (jobs p).err⟩ es with ha | hh
    · rw [ha] at hc
      cases hc
    · rw [hh, hoack]
  · rw [hbytes]
    constructor
    · exact decimalString_inj
    · intro he
      rw [he]

/-- The option `tsize` with the value `0`. -/
def tsizeZero : CString × CString := (.ofBytes OptionName.tsize.text, .ofBytes [48])

/-- The odd children write, and the even ones read and want to know the size. -/
def sizeReaders (p : Nat) : Job :=
  if p % 2 = 1 then oddWriters p
  else readJob ⟨65464, fun _ => false⟩ .default [tsizeZero] octetTransfer fun _ => false

def readAlone : List ChildStep :=
  [.openFile 0, .fstat 0, .lockFile 0, .sendfile 0, .event 0 (.datagram (tftphdr ACK 0)),
    .event 0 (.datagram (tftphdr ACK 1)), .close 0]

/-- Child 1 gets its lock between the `fstat` and the lock of child 0, and writes a shorter
file. -/
def writeBetween : List ChildStep :=
  [.openFile 0, .fstat 0, .openFile 1, .fstat 1, .lockFile 1, .truncate 1, .write 1 [97, 98, 99],
    .close 1, .lockFile 0, .sendfile 0, .event 0 (.datagram (tftphdr ACK 0)),
    .event 0 (.datagram (tftphdr ACK 1)), .close 0]

def observed (s : Shared) : Option (Nat × List UInt8 × SendPhase × List (List UInt8)) :=
  (s.stage 0).sends?.map fun r => (r.1, r.2.1, r.2.2.state.phase, sentPackets r.2.2)

theorem observed_exec (file : List UInt8) (steps : List ChildStep)
    (h : ((childSystem sizeReaders).exec ⟨some file, [], fun _ => .forked⟩ steps).map observed =
      some (some (size, version, phase, packets))) :
    ∃ s c, (childSystem sizeReaders).Reachable s ∧
      (s.stage 0).sends? = some (size, version, c) ∧ c.state.phase = phase ∧
      sentPackets c = packets := by
  obtain ⟨s, hs, he⟩ := Option.map_eq_some_iff.1 h
  obtain ⟨⟨size', version', c⟩, hc, hr⟩ := Option.map_eq_some_iff.1 he
  cases hr
  exact ⟨s, c, (forked_initial _ _).exec (fun _ _ _ => trivial) hs, hc, rfl, rfl⟩

theorem tsizeZero_recognized (cfg : OptionConfig) (h : cfg.refused = fun _ => false) :
    recognized cfg tsizeZero.1 tsizeZero.2 = some (.tsize, 0) := by
  obtain ⟨limit, refused⟩ := cfg
  subst h
  rfl

theorem readAlone_announced :
    ∃ s c k text announced, (childSystem sizeReaders).Reachable s ∧
      (s.stage 0).sends? = some (3, [97, 98, 99], c) ∧ c.state.phase = .ended .completed ∧
      SendsBlocks (sizeReaders 0) 3 [97, 98, 99] c k ∧
      (sentPackets c).head? = some (Mem.be16 OACK ++ text) ∧
      decodePairs text = some [(tsizeZero.1, announced)] ∧
      announced = decimalString (payloadBytes octetTransfer [97, 98, 99] k) := by
  have hrun : ((childSystem sizeReaders).exec ⟨some [97, 98, 99], [], fun _ => .forked⟩
      readAlone).map observed = some (some (3, [97, 98, 99], .ended .completed,
        [[0, 6, 116, 115, 105, 122, 101, 0, 51, 0], [0, 3, 0, 1, 97, 98, 99]])) := by
    decide +kernel
  obtain ⟨s, c, hr, hs, hc, hp⟩ := observed_exec _ _ hrun
  obtain ⟨k, text, before, announced, after, hk, hsent, hdecode, hbefore, hiff⟩ :=
    announced_iff_unchanged sizeReaders s hr 0 ⟨65464, fun _ => false⟩ .default [] []
      tsizeZero.1 tsizeZero.2 octetTransfer (fun _ => false) rfl rfl (tsizeZero_recognized _ rfl)
      3 [97, 98, 99] c hs _ _ rfl hc
  have htext : text = [116, 115, 105, 122, 101, 0, 51, 0] := by
    have hhead : Mem.be16 OACK ++ [116, 115, 105, 122, 101, 0, 51, 0] = Mem.be16 OACK ++ text := by
      rw [hp] at hsent
      exact Option.some.inj hsent
    exact (List.append_cancel_left hhead).symm
  have hpairs : decodePairs text = some [(tsizeZero.1, decimalString 3)] := by
    rw [htext]
    rfl
  have hb : before = [] := List.length_eq_zero_iff.1 hbefore
  rw [hpairs, hb] at hdecode
  cases hdecode
  exact ⟨s, c, k, text, _, hr, hs, hc, hk, hsent, hpairs, hiff.2 rfl⟩

/-- The child announces the five bytes that it has seen, and sends three. -/
theorem writeBetween_announced :
    ∃ s c, (childSystem sizeReaders).Reachable s ∧
      (s.stage 0).sends? = some (5, [97, 98, 99], c) ∧ c.state.phase = .ended .completed ∧
      sentPackets c = [[0, 6, 116, 115, 105, 122, 101, 0, 53, 0], [0, 3, 0, 1, 97, 98, 99]] ∧
      decodePairs [116, 115, 105, 122, 101, 0, 53, 0] = some [(tsizeZero.1, decimalString 5)] ∧
      decimalString 5 ≠ decimalString [97, 98, 99].length := by
  have hrun : ((childSystem sizeReaders).exec ⟨some [1, 2, 3, 4, 5], [], fun _ => .forked⟩
      writeBetween).map observed = some (some (5, [97, 98, 99], .ended .completed,
        [[0, 6, 116, 115, 105, 122, 101, 0, 53, 0], [0, 3, 0, 1, 97, 98, 99]])) := by
    decide +kernel
  obtain ⟨s, c, hr, hs, hc, hp⟩ := observed_exec _ _ hrun
  refine ⟨s, c, hr, hs, hc, hp, rfl, ?_⟩
  intro h
  exact absurd (decimalString_inj h) (by decide)

end WooTftpd
