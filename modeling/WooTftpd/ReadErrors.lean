import WooTftpd.Reads

namespace WooTftpd
open Lib
set_option autoImplicit true

/-- The phase, the packet, the buffers and the file of a transfer whose reads may fail, and the
buffers and the file of one whose reads do not fail. -/
inductive Shadow (phase : SendPhase) (dp : Bool) (subs : Subs) (f : InFile) (subs' : Subs)
    (f' : InFile) : Prop where
  | clean : subs' = subs → f' = f.clean →
      (phase = .data → (subs.bfs subs.current).counter ≠ bfFree ∧ dp = subs.current) →
      Shadow phase dp subs f subs' f'
  /-- `read_ahead` has failed: the buffer that comes next holds the error. -/
  | poisoned : phase = .data → dp = subs.current → (subs.bfs subs.current).counter ≠ bfFree →
      subs.nextone = subs.current → (subs.bfs (!subs.current)).counter = -1 →
      subs'.nextone = subs.current → subs'.bfs subs.current = subs.bfs subs.current →
      Shadow phase dp subs f subs' f'
  | ended : phase = .ended how → Shadow phase dp subs f subs' f'

/-- The outcomes of a step of both: the first one has aborted, or they did the same. -/
def Follows (r r' : SendState × List Action) : Prop :=
  r.1.phase = .ended .aborted ∨ (r'.2 = r.2 ∧ ∃ subs' f',
    r'.1 = { r.1 with subs := subs', file := f' } ∧
      Shadow r.1.phase r.1.dp r.1.subs r.1.file subs' f')

section Steps

variable {s : SendState} {f f' : InFile} {subs subs' : Subs} {t : Transfer}

/-- `read_ahead` does the same for both files, unless the read fails. -/
theorem readAhead_clean (segsize : Nat) (subs : Subs) (f : InFile) :
    (readAhead false segsize subs f.clean =
      ((readAhead false segsize subs f).1, (readAhead false segsize subs f).2.clean)) ∨
    ((subs.bfs subs.nextone).counter = bfFree ∧
      readAhead false segsize subs f =
        ({ subs with nextone := !subs.nextone }.setCounter subs.nextone (-1), f) ∧
      ∃ b f', readAhead false segsize subs f.clean =
        ({ subs with nextone := !subs.nextone }.setBf subs.nextone b, f')) := by
  by_cases hfree : (subs.bfs subs.nextone).counter = bfFree
  · have hc := read_clean (f := f.clean) rfl segsize
    cases he : f.err f.pos with
    | true =>
      right
      simp only [readAhead, hfree, ne_eq, not_true_eq_false, if_false, Bool.false_eq_true,
        read_failed he, hc]
      exact ⟨trivial, rfl, _, _, rfl⟩
    | false =>
      left
      simp only [readAhead, hfree, ne_eq, not_true_eq_false, if_false, Bool.false_eq_true,
        read_clean he, hc]
      rfl
  · left
    simp only [readAhead, ne_eq, hfree, not_false_eq_true, if_true]

theorem setCounter_negative (hn : n < 0) (hj : (subs.bfs j).counter < 0) (i : Bool) :
    ((subs.setCounter i n).bfs j).counter < 0 := by
  by_cases hij : j = i
  · subst hij
    simp only [Subs.setCounter, Subs.setBf_same]
    exact hn
  · obtain rfl : j = !i := Bool.eq_not.2 hij
    simp only [Subs.setCounter, Subs.setBf_not]
    exact hj

theorem readAhead_freed (subs : Subs) (hfree : (subs.bfs subs.current).counter = bfFree)
    (segsize : Nat) (f : InFile) :
    ((readAhead false segsize subs f).1.bfs
      (readAhead false segsize subs f).1.current).counter < 0 ∨
    readAhead false segsize subs f.clean =
      ((readAhead false segsize subs f).1, (readAhead false segsize subs f).2.clean) := by
  rcases readAhead_clean segsize subs f with h | ⟨_, h, _⟩
  · exact .inr h
  · left
    rw [h]
    apply setCounter_negative (by decide)
    change (subs.bfs subs.current).counter < 0
    rw [hfree]
    decide

theorem readit_clean (segsize : Nat) (subs : Subs) (f : InFile) :
    (readit false segsize subs f).2.2 < 0 ∨
      readit false segsize subs f.clean =
        ((readit false segsize subs f).1, (readit false segsize subs f).2.1.clean,
          (readit false segsize subs f).2.2) := by
  simp only [readit]
  split
  · rename_i hfree
    rcases readAhead_freed { subs.setCounter subs.current bfFree with current := !subs.current }
      hfree segsize f with h | h
    · exact .inl h
    · rw [h]
      exact .inr rfl
  · exact .inr rfl

theorem setBf_other (subs : Subs) (n i : Bool) (b : Bf) :
    ({ subs with nextone := n }.setBf (!i) b).bfs i = subs.bfs i := by
  have h := Subs.setBf_not { subs with nextone := n } (!i) b
  rw [Bool.not_not] at h
  exact h

theorem nextone_of_used (hu : (subs.bfs subs.current).counter ≠ bfFree)
    (hfree : (subs.bfs subs.nextone).counter = bfFree) : subs.nextone = !subs.current := by
  apply Bool.eq_not.2
  intro he
  rw [he] at hfree
  exact hu hfree

theorem clean_sendData (hconv : t.convert = false) (hp : s.phase = .data)
    (hu : (s.subs.bfs s.subs.current).counter ≠ bfFree) (hdp : s.dp = s.subs.current) :
    Follows (sendData t s) (sendData t { s with file := s.file.clean }) := by
  simp only [sendData, hconv]
  split
  · refine .inr ⟨rfl, _, _, rfl, ?_⟩
    rcases readAhead_clean t.segsize s.subs s.file with h | ⟨hfree, h, b, f', h'⟩
    · rw [h]
      refine .clean rfl rfl ?_
      intro _
      obtain ⟨hcur, hbuf⟩ := readAhead_keeps hu false t.segsize s.file
      dsimp only
      rw [hcur, hbuf]
      exact ⟨hu, hdp⟩
    · have hn := nextone_of_used hu hfree
      have hb := setBf_other s.subs s.subs.current s.subs.current
      rw [h, h', hn]
      simp only [Bool.not_not]
      refine .poisoned hp hdp ?_ rfl ?_ rfl ((hb b).trans (hb _).symm)
      · intro he
        exact hu ((congrArg Bf.counter (hb _)).symm.trans he)
      · exact congrArg Bf.counter (Subs.setBf_same _ _ _)
  · exact .inl rfl

theorem Shadow.sendData (h : Shadow s.phase s.dp s.subs s.file subs' f')
    (hconv : t.convert = false) (hp : s.phase = .data) :
    Follows (sendData t s) (sendData t { s with subs := subs', file := f' }) := by
  cases h with
  | clean hsubs hf hd =>
    subst hsubs hf
    obtain ⟨hu, hdp⟩ := hd hp
    exact clean_sendData hconv hp hu hdp
  | poisoned hp hdp hu hn herr hn' hsame =>
    simp only [WooTftpd.sendData]
    split
    · have hskip : (s.subs.bfs s.subs.nextone).counter ≠ bfFree := by
        rw [hn]
        exact hu
      have hskip' : (subs'.bfs subs'.nextone).counter ≠ bfFree := by
        rw [hn', hsame]
        exact hu
      rw [readAhead_used hskip, readAhead_used hskip']
      refine .inr ⟨?_, _, _, rfl, .poisoned hp hdp hu hn herr hn' hsame⟩
      rw [hdp, hsame]
    · exact .inl rfl
  | ended he =>
    rw [hp] at he
    cases he

theorem clean_readBlock (hconv : t.convert = false) (hp : s.phase = .data) :
    Follows (readBlock t s) (readBlock t { s with file := s.file.clean }) := by
  by_cases hneg : (readit false t.segsize s.subs s.file).2.2 < 0
  · left
    simp only [readBlock, hconv, if_pos hneg]
  · have hr := (readit_clean t.segsize s.subs s.file).resolve_left hneg
    simp only [readBlock, hconv, hr, if_neg hneg]
    apply clean_sendData hconv
    · exact hp
    · dsimp only
      rw [Subs.setBuf, Subs.setBf_current, Subs.setBf_same]
      intro he
      apply hneg
      exact lt_of_eq_of_lt he (by decide)
    · rfl

theorem Shadow.readBlock (h : Shadow s.phase s.dp s.subs s.file subs' f')
    (hconv : t.convert = false) (hp : s.phase = .data) :
    Follows (readBlock t s) (readBlock t { s with subs := subs', file := f' }) := by
  cases h with
  | clean hsubs hf hd =>
    subst hsubs hf
    exact clean_readBlock hconv hp
  | poisoned _ _ _ _ herr _ _ =>
    left
    have hn : ((s.subs.setCounter s.subs.current bfFree).bfs (!s.subs.current)).counter = -1 := by
      rw [Subs.setCounter, Subs.setBf_not]
      exact herr
    have hne : ¬ ((s.subs.setCounter s.subs.current bfFree).bfs (!s.subs.current)).counter =
        bfFree := by
      rw [hn]
      decide
    have hneg : (readit t.convert t.segsize s.subs s.file).2.2 < 0 := by
      simp only [readit, if_neg hne]
      rw [hn]
      decide
    simp only [WooTftpd.readBlock, if_pos hneg]
  | ended he =>
    rw [hp] at he
    cases he

/-- While an ACK is awaited, the two transfers do the same in every event, until a failed read is
reported. -/
theorem Shadow.dataStep (h : Shadow s.phase s.dp s.subs s.file subs' f')
    (hconv : t.convert = false) (hp : s.phase = .data) (e : Parsed) :
    Follows (dataStep t s e) (dataStep t { s with subs := subs', file := f' } e) := by
  cases e with
  | timeout =>
    simp only [WooTftpd.dataStep]
    cases timer t.maxtimeout false s.timeout with
    | none => exact .inr ⟨rfl, _, _, rfl, .ended rfl⟩
    | some timeout => exact Shadow.sendData (s := { s with timeout := timeout }) h hconv hp
  | recvError => exact .inl rfl
  | packet opcode block =>
    simp only [WooTftpd.dataStep]
    split
    · exact .inl rfl
    split
    · simp only [blockAcked]
      split
      · rcases Shadow.readBlock (s := { s with block := nextBlock t.rolloverVal s.block })
          h hconv hp with ha | ⟨ha, hs⟩
        · exact .inl ha
        · exact .inr ⟨congrArg (Action.incrementBlock s.size :: ·) ha, hs⟩
      · exact .inr ⟨rfl, _, _, rfl, .ended rfl⟩
    · exact .inr ⟨rfl, _, _, rfl, h⟩

theorem clean_sendOack (hp : s.phase = .option) (oacklen : Nat) :
    Follows (sendOack t oacklen s) (sendOack t oacklen { s with file := s.file.clean }) := by
  simp only [sendOack]
  split
  · refine .inr ⟨rfl, _, _, rfl, .clean rfl rfl ?_⟩
    intro hd
    cases hp.symm.trans hd
  · exact .inl rfl

theorem clean_optionStep (hconv : t.convert = false) (hp : s.phase = .option) (oacklen : Nat)
    (e : Parsed) :
    Follows (optionStep t oacklen s e)
      (optionStep t oacklen { s with file := s.file.clean } e) := by
  cases e with
  | timeout =>
    simp only [optionStep]
    cases timer t.maxtimeout false s.timeout with
    | none => exact .inr ⟨rfl, _, _, rfl, .ended rfl⟩
    | some timeout => exact clean_sendOack (s := { s with timeout := timeout }) hp oacklen
  | recvError => exact .inl rfl
  | packet opcode block =>
    simp only [optionStep]
    split
    · exact .inl rfl
    split
    · split
      · exact clean_readBlock (s := { s with phase := .data, subs := rInit s.subs }) hconv rfl
      · exact clean_sendOack hp oacklen
    · refine .inr ⟨rfl, _, _, rfl, .clean rfl rfl ?_⟩
      intro hd
      cases hp.symm.trans hd

theorem Shadow.sendStep (h : Shadow s.phase s.dp s.subs s.file subs' f')
    (hconv : t.convert = false) (oacklen : Nat) (e : Event) :
    Follows (sendStep t oacklen s e)
      (sendStep t oacklen { s with subs := subs', file := f' } e) := by
  obtain ⟨phase, hp⟩ : ∃ phase, s.phase = phase := ⟨_, rfl⟩
  cases phase with
  | ended how =>
    rw [sendStep_ended hp, sendStep_ended (s := { s with subs := subs', file := f' }) hp]
    exact .inr ⟨rfl, _, _, rfl, .ended hp⟩
  | option =>
    rw [sendStep_option hp, sendStep_option (s := { s with subs := subs', file := f' }) hp]
    cases h with
    | clean hsubs hf _ =>
      subst hsubs hf
      exact clean_optionStep (s := { s with ackbuf := (parse s.ackbuf e).1 }) hconv hp oacklen _
    | poisoned hd => cases hp.symm.trans hd
    | ended he => cases hp.symm.trans he
  | data =>
    rw [sendStep_data hp, sendStep_data (s := { s with subs := subs', file := f' }) hp]
    exact Shadow.dataStep (s := { s with ackbuf := (parse s.ackbuf e).1 }) h hconv hp _

end Steps

theorem clean_start (t : Transfer) (hconv : t.convert = false) (oack : Option Nat) (ackbuf : Mem)
    (f : InFile) :
    Follows (tftpSendfile t oack ackbuf f).start (tftpSendfile t oack ackbuf f.clean).start := by
  have hcons {r r' : SendState × List Action} (h : Follows r r') :
      Follows (r.1, .setFlagUpload :: r.2) (r'.1, .setFlagUpload :: r'.2) := by
    rcases h with ha | ⟨ha, hs⟩
    · exact .inl ha
    · exact .inr ⟨congrArg (Action.setFlagUpload :: ·) ha, hs⟩
  cases oack with
  | none =>
    exact hcons (clean_readBlock
      (s := { sendInit ackbuf t.rexmtval f with phase := .data, subs := rInit .static }) hconv rfl)
  | some oacklen =>
    exact hcons (clean_sendOack (s := sendInit ackbuf t.rexmtval f) rfl oacklen)

/-- Two transfers that have done the same so far, or the first of which has aborted. -/
def SameSoFar (c c' : Config SendState Event Action) : Prop :=
  c.state.phase = .ended .aborted ∨ (c'.log = c.log ∧ ∃ subs' f',
    c'.state = { c.state with subs := subs', file := f' } ∧
      Shadow c.state.phase c.state.dp c.state.subs c.state.file subs' f')

/-- In octet mode a failed read makes no difference to a transfer but that it aborts. -/
theorem sameSoFar_run (t : Transfer) (hconv : t.convert = false) (oack : Option Nat) (ackbuf : Mem)
    (f : InFile) (es : List Event) :
    SameSoFar ((tftpSendfile t oack ackbuf f).run es)
      ((tftpSendfile t oack ackbuf f.clean).run es) := by
  induction es using List.reverseRecOn with
  | nil =>
    rcases clean_start t hconv oack ackbuf f with ha | ⟨ha, subs', f', hs, hsh⟩
    · exact .inl ha
    · refine .inr ⟨?_, subs', f', hs, hsh⟩
      exact congrArg (List.map fun a => (none, a)) ha
  | append_singleton es e ih =>
    rw [Machine.run_concat, Machine.run_concat]
    rcases ih with hp | ⟨hlog, subs', f', hs, hsh⟩
    · left
      rw [tftpSendfile_ended t oack ackbuf f hp e]
      exact hp
    · have hstep := hsh.sendStep hconv (oack.getD 0) e
      rw [← hs] at hstep
      rcases hstep with ha | ⟨ha, hst⟩
      · exact .inl ha
      · refine .inr ⟨?_, hst⟩
        have hacts : ((tftpSendfile t oack ackbuf f.clean).step
            ((tftpSendfile t oack ackbuf f.clean).run es).state e).2 =
            ((tftpSendfile t oack ackbuf f).step
              ((tftpSendfile t oack ackbuf f).run es).state e).2 := ha
        simp only [Machine.next, hlog, hacts]

/-- A transfer in octet mode that completes has not seen a failed read. -/
theorem completed_clean (t : Transfer) (hconv : t.convert = false) (oack : Option Nat)
    (ackbuf : Mem) (f : InFile) (es : List Event)
    (hc : ((tftpSendfile t oack ackbuf f).run es).state.phase = .ended .completed) :
    ((tftpSendfile t oack ackbuf f.clean).run es).log =
        ((tftpSendfile t oack ackbuf f).run es).log ∧
      ((tftpSendfile t oack ackbuf f.clean).run es).state.phase = .ended .completed := by
  rcases sameSoFar_run t hconv oack ackbuf f es with ha | ⟨hlog, _, _, hs, _⟩
  · cases ha.symm.trans hc
  · refine ⟨hlog, ?_⟩
    rw [hs]
    exact hc

end WooTftpd
