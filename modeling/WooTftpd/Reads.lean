import WooTftpd.SenderTrace

namespace WooTftpd
open Lib
set_option autoImplicit true

variable {c : UInt8} {f f' : InFile}

/-- The same file, with a kernel that fails no read. -/
def InFile.clean (f : InFile) : InFile := { f with err := fun _ => false }

theorem read_clean (he : f.err f.pos = false) (n : Nat) :
    f.read n = some (f.rest.take n, { f with pos := f.pos + (f.rest.take n).length }) := by
  simp only [InFile.read, he, Bool.false_eq_true, if_false]

theorem read_failed (he : f.err f.pos = true) (n : Nat) : f.read n = none := by
  simp only [InFile.read, he, if_true]

/-- Reading has come from one place of the file to another, and had the kernel failed no read up to
there, `same` says what would have come of it. -/
structure ReadsTo (f f' : InFile) (same : Prop) : Prop where
  content : f'.content = f.content
  err : f'.err = f.err
  le : f.pos ≤ f'.pos
  same : (∀ p ≤ f'.pos, f.err p = false) → same

theorem ReadsTo.refl {same : Prop} (f : InFile) (h : same) : ReadsTo f f same :=
  ⟨rfl, rfl, Nat.le_refl _, fun _ => h⟩

theorem ReadsTo.imp {same same' : Prop} (h : ReadsTo f f' same) (hs : same → same') :
    ReadsTo f f' same' := ⟨h.content, h.err, h.le, fun hp => hs (h.same hp)⟩

theorem ReadsTo.trans {same same' : Prop} (h : ReadsTo f f' same) (h' : ReadsTo f' f'' same') :
    ReadsTo f f'' (same ∧ same') := by
  refine ⟨h'.content.trans h.content, h'.err.trans h.err, Nat.le_trans h.le h'.le, ?_⟩
  intro hp
  refine ⟨h.same fun p hle => hp p (Nat.le_trans hle h'.le), h'.same ?_⟩
  rw [h.err]
  exact hp

theorem getc_readsTo (f : InFile) (h : f.getc = some (c, f')) :
    ReadsTo f f' (f.clean.getc = some (c, f'.clean)) := by
  simp only [InFile.getc] at h
  split at h
  · cases h
  · obtain ⟨_, hc, h⟩ := Option.map_eq_some_iff.1 h
    cases h
    refine ⟨rfl, rfl, Nat.le_succ _, fun _ => ?_⟩
    simp only [InFile.getc, InFile.clean, hc, Bool.false_eq_true, if_false, Option.map_some]

theorem fillbuf_readsTo (n : Nat) (newline : Bool) (prevchar : Option UInt8) (f : InFile) :
    let r := fillbuf n newline prevchar f
    ReadsTo f r.file (fillbuf n newline prevchar f.clean = { r with file := r.file.clean }) := by
  fun_induction fillbuf n newline prevchar f with
  | case1 newline prevchar f => exact .refl f rfl
  | case2 n prevchar f ih => exact ih.imp fun h => by simp only [fillbuf, h, Fill.cons]
  | case3 n prevchar f hg =>
    refine ⟨rfl, rfl, Nat.le_refl _, fun hp => ?_⟩
    simp only [InFile.getc, hp f.pos (Nat.le_refl _), Bool.false_eq_true, if_false,
      Option.map_eq_none_iff] at hg
    simp only [fillbuf, InFile.getc, InFile.clean, hg, Bool.false_eq_true, if_false,
      Option.map_none]
  | case4 n prevchar f c f' hg hc ih =>
    refine ((getc_readsTo f hg).trans ih).imp ?_
    rintro ⟨hg', h⟩
    simp only [fillbuf, hg', if_pos hc, h, Fill.cons]
  | case5 n prevchar f c f' hg hc ih =>
    refine ((getc_readsTo f hg).trans ih).imp ?_
    rintro ⟨hg', h⟩
    simp only [fillbuf, hg', if_neg hc, h, Fill.cons]

theorem readAhead_readsTo (convert : Bool) (segsize : Nat) (subs : Subs) (f : InFile) :
    let r := readAhead convert segsize subs f
    ReadsTo f r.2 (readAhead convert segsize subs f.clean = (r.1, r.2.clean)) := by
  by_cases hfree : (subs.bfs subs.nextone).counter = bfFree
  · cases convert with
    | true =>
      have h := fillbuf_readsTo segsize subs.newline subs.prevchar f
      simp only [readAhead, hfree, ne_eq, not_true_eq_false, if_false, if_true]
      refine h.imp fun hs => ?_
      rw [hs]
    | false =>
      cases he : f.err f.pos with
      | true =>
        simp only [readAhead, hfree, ne_eq, not_true_eq_false, if_false, Bool.false_eq_true,
          read_failed he]
        refine ⟨rfl, rfl, Nat.le_refl _, fun hp => ?_⟩
        cases he.symm.trans (hp f.pos (Nat.le_refl _))
      | false =>
        have hc := read_clean (f := f.clean) rfl segsize
        simp only [readAhead, hfree, ne_eq, not_true_eq_false, if_false, Bool.false_eq_true,
          read_clean he, hc]
        exact ⟨rfl, rfl, Nat.le_add_right _ _, fun _ => rfl⟩
  · simp only [readAhead, ne_eq, hfree, not_false_eq_true, if_true]
    exact .refl f trivial

theorem readit_readsTo (convert : Bool) (segsize : Nat) (subs : Subs) (f : InFile) :
    let r := readit convert segsize subs f
    ReadsTo f r.2.1 (readit convert segsize subs f.clean = (r.1, r.2.1.clean, r.2.2)) := by
  simp only [readit]
  split
  · exact (readAhead_readsTo convert segsize _ f).imp fun h => by rw [h]
  · exact .refl f rfl

def SendState.clean (s : SendState) : SendState := { s with file := s.file.clean }

/-- A step, and what it would have been without failing reads. -/
def StepReads (s : SendState) (r r' : SendState × List Action) : Prop :=
  ReadsTo s.file r.1.file (r' = (r.1.clean, r.2))

theorem sendData_reads (t : Transfer) (s : SendState) :
    StepReads s (sendData t s) (sendData t s.clean) := by
  by_cases hk : t.sendOk s.sends = true
  · simp only [sendData, SendState.clean, if_pos hk]
    refine (readAhead_readsTo t.convert t.segsize s.subs s.file).imp fun h => ?_
    rw [h]
    exact if_pos hk
  · simp only [sendData, SendState.clean, if_neg hk]
    exact .refl s.file (if_neg hk)

theorem readBlock_reads (t : Transfer) (s : SendState) :
    StepReads s (readBlock t s) (readBlock t s.clean) := by
  have h := readit_readsTo t.convert t.segsize s.subs s.file
  by_cases hn : (readit t.convert t.segsize s.subs s.file).2.2 < 0
  · have hr : readBlock t s = _ := if_pos hn
    rw [hr]
    refine h.imp fun hs => ?_
    have hn' : (readit t.convert t.segsize s.subs s.file.clean).2.2 < 0 := by
      rw [hs]
      exact hn
    have hr' : readBlock t s.clean = _ := if_pos hn'
    rw [hr']
    simp only [SendState.clean, hs]
  · have hr : readBlock t s = _ := if_neg hn
    rw [hr]
    have hdata (s₁ : SendState) (hf : s₁.file = (readit t.convert t.segsize s.subs s.file).2.1) :
        ReadsTo (readit t.convert t.segsize s.subs s.file).2.1 (sendData t s₁).1.file
          (sendData t s₁.clean = ((sendData t s₁).1.clean, (sendData t s₁).2)) := by
      rw [← hf]
      exact sendData_reads t s₁
    refine (h.trans (hdata _ rfl)).imp ?_
    rintro ⟨hs, hd⟩
    have hn' : ¬ (readit t.convert t.segsize s.subs s.file.clean).2.2 < 0 := by
      rw [hs]
      exact hn
    have hr' : readBlock t s.clean = _ := if_neg hn'
    rw [hr', ← hd]
    simp only [SendState.clean, hs]

theorem blockAcked_reads (t : Transfer) (s : SendState) :
    StepReads s (blockAcked t s) (blockAcked t s.clean) := by
  by_cases hs : s.size = t.segsize
  · have hs' : s.clean.size = t.segsize := hs
    rw [blockAcked_full hs, blockAcked_full hs']
    refine (readBlock_reads t { s with block := nextBlock t.rolloverVal s.block }).imp ?_
    intro h
    exact congrArg (fun r => (r.1, Action.incrementBlock s.size :: r.2)) h
  · have hs' : s.clean.size ≠ t.segsize := hs
    rw [blockAcked_short hs, blockAcked_short hs']
    exact .refl s.file rfl

theorem dataStep_reads (t : Transfer) (s : SendState) (e : Parsed) :
    StepReads s (dataStep t s e) (dataStep t s.clean e) := by
  cases e with
  | timeout =>
    simp only [dataStep, SendState.clean]
    cases timer t.maxtimeout false s.timeout with
    | none => exact .refl s.file rfl
    | some timeout => exact sendData_reads t { s with timeout := timeout }
  | recvError => exact .refl s.file rfl
  | packet opcode block =>
    have hb : s.clean.block = s.block := rfl
    simp only [dataStep, hb]
    by_cases he : opcode = ERROR
    · rw [if_pos he, if_pos he]
      exact .refl s.file rfl
    by_cases ha : opcode = ACK ∧ block = s.block
    · rw [if_neg he, if_neg he, if_pos ha, if_pos ha]
      exact blockAcked_reads t s
    · rw [if_neg he, if_neg he, if_neg ha, if_neg ha]
      exact .refl s.file rfl

theorem sendOack_reads (t : Transfer) (oacklen : Nat) (s : SendState) :
    StepReads s (sendOack t oacklen s) (sendOack t oacklen s.clean) := by
  by_cases hk : t.sendOk s.sends = true
  · simp only [sendOack, SendState.clean, if_pos hk]
    exact .refl s.file (if_pos hk)
  · simp only [sendOack, SendState.clean, if_neg hk]
    exact .refl s.file (if_neg hk)

theorem optionStep_reads (t : Transfer) (oacklen : Nat) (s : SendState) (e : Parsed) :
    StepReads s (optionStep t oacklen s e) (optionStep t oacklen s.clean e) := by
  cases e with
  | timeout =>
    simp only [optionStep, SendState.clean]
    cases timer t.maxtimeout false s.timeout with
    | none => exact .refl s.file rfl
    | some timeout => exact sendOack_reads t oacklen { s with timeout := timeout }
  | recvError => exact .refl s.file rfl
  | packet opcode block =>
    simp only [optionStep]
    by_cases he : opcode = ERROR
    · rw [if_pos he, if_pos he]
      exact .refl s.file rfl
    by_cases ha : opcode = ACK
    · rw [if_neg he, if_neg he, if_pos ha, if_pos ha]
      by_cases hb : block = 0
      · rw [if_pos hb, if_pos hb]
        exact readBlock_reads t { s with phase := .data, subs := rInit s.subs }
      · rw [if_neg hb, if_neg hb]
        exact sendOack_reads t oacklen s
    · rw [if_neg he, if_neg he, if_neg ha, if_neg ha]
      exact .refl s.file rfl

theorem sendStep_reads (t : Transfer) (oacklen : Nat) (s : SendState) (e : Event) :
    StepReads s (sendStep t oacklen s e) (sendStep t oacklen s.clean e) := by
  cases hp : s.phase with
  | ended how =>
    rw [sendStep_ended hp, sendStep_ended (s := s.clean) hp]
    exact .refl s.file rfl
  | option =>
    rw [sendStep_option hp, sendStep_option (s := s.clean) hp]
    exact optionStep_reads t oacklen { s with ackbuf := (parse s.ackbuf e).1 } _
  | data =>
    rw [sendStep_data hp, sendStep_data (s := s.clean) hp]
    exact dataStep_reads t { s with ackbuf := (parse s.ackbuf e).1 } _

theorem start_reads (t : Transfer) (oack : Option Nat) (ackbuf : Mem) (f : InFile) :
    ReadsTo f (tftpSendfile t oack ackbuf f).start.1.file
      ((tftpSendfile t oack ackbuf f.clean).start =
        ((tftpSendfile t oack ackbuf f).start.1.clean,
          (tftpSendfile t oack ackbuf f).start.2)) := by
  cases oack with
  | none =>
    refine (readBlock_reads t { sendInit ackbuf t.rexmtval f with
      phase := .data, subs := rInit .static }).imp ?_
    intro h
    exact congrArg (fun r => (r.1, Action.setFlagUpload :: r.2)) h
  | some oacklen =>
    refine (sendOack_reads t oacklen (sendInit ackbuf t.rexmtval f)).imp ?_
    intro h
    exact congrArg (fun r => (r.1, Action.setFlagUpload :: r.2)) h

/-- As long as no read has failed, a transfer is the same as without failing reads. -/
theorem sendfile_reads (t : Transfer) (oack : Option Nat) (ackbuf : Mem) (f : InFile)
    (es : List Event) :
    let c := (tftpSendfile t oack ackbuf f).run es
    ReadsTo f c.state.file
      ((tftpSendfile t oack ackbuf f.clean).run es = ⟨c.state.clean, c.log⟩) := by
  induction es using List.reverseRecOn with
  | nil =>
    refine (start_reads t oack ackbuf f).imp ?_
    intro h
    simp only [Machine.run, List.foldl_nil, Machine.init, h]
  | append_singleton es e ih =>
    have hstep := sendStep_reads t (oack.getD 0) ((tftpSendfile t oack ackbuf f).run es).state e
    rw [Machine.run_concat, Machine.run_concat]
    refine (ih.trans hstep).imp ?_
    rintro ⟨hrun, hs⟩
    have hs' : (tftpSendfile t oack ackbuf f.clean).step
        ((tftpSendfile t oack ackbuf f).run es).state.clean e = _ := hs
    rw [hrun, Machine.next, hs']
    rfl

theorem sendfile_pos (t : Transfer) (oack : Option Nat) (ackbuf : Mem) (f : InFile)
    (h : pre <+: es) : ((tftpSendfile t oack ackbuf f).run pre).state.file.pos ≤
      ((tftpSendfile t oack ackbuf f).run es).state.file.pos := by
  induction es using List.reverseRecOn with
  | nil =>
    have hnil := List.prefix_nil.1 h
    subst hnil
    exact Nat.le_refl _
  | append_singleton es e ih =>
    rcases List.prefix_concat_iff.1 h with rfl | h
    · exact Nat.le_refl _
    · rw [Machine.run_concat]
      exact Nat.le_trans (ih h)
        (sendStep_reads t (oack.getD 0) ((tftpSendfile t oack ackbuf f).run es).state e).le

end WooTftpd
