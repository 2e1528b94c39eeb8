import WooTftpd.Access
import WooTftpd.AnnouncedSize
import WooTftpd.Success

namespace WooTftpd
open Lib
set_option autoImplicit true

variable {t : Transfer} {content : List UInt8} {s : SendState}

/-- The numbers by which the progress of a transfer is counted up. -/
def acks (as : List Action) : List Int := as.filterMap Action.acked?

def blockSizes (t : Transfer) (content : List UInt8) (k : Nat) : List Int :=
  (List.range k).map fun i => ((payload t content i).length : Int)

def logged (c : Config SendState Event Action) : List Action := c.log.map Prod.snd

theorem acks_append (as as' : List Action) : acks (as ++ as') = acks as ++ acks as' :=
  List.filterMap_append

theorem blockSizes_succ (t : Transfer) (content : List UInt8) (k : Nat) :
    blockSizes t content (k + 1) =
      blockSizes t content k ++ [((payload t content k).length : Int)] := by
  rw [blockSizes, List.range_succ, List.map_append]
  rfl

theorem dataStep_ack (t : Transfer) (s : SendState) :
    dataStep t s (.packet ACK s.block) = blockAcked t s := by
  have hne : ¬ ACK = ERROR := by decide
  simp only [dataStep, if_neg hne, and_self, if_true]

theorem dataStep_acks (t : Transfer) (s : SendState) (e : Parsed) :
    acks (dataStep t s e).2 = if e = .packet ACK s.block then [s.size] else [] := by
  cases e with
  | timeout =>
    simp only [dataStep, reduceCtorEq, if_false]
    cases timer t.maxtimeout false s.timeout with
    | none => rfl
    | some timeout => exact (sendData_acked t _).2
  | recvError => rfl
  | packet opcode block =>
    simp only [dataStep, Parsed.packet.injEq]
    by_cases he : opcode = ERROR
    · have hne : ¬ opcode = ACK := by
        rw [he]
        decide
      rw [if_pos he, if_neg fun h => hne h.1]
      rfl
    · rw [if_neg he]
      split
      · exact (blockAcked_acked t s).2
      · rfl

theorem sendStep_acks (t : Transfer) (oacklen : Nat) (s : SendState) (e : Event) :
    acks (sendStep t oacklen s e).2 =
      if s.phase = .data ∧ (parse s.ackbuf e).2 = .packet ACK s.block then [s.size] else [] := by
  cases hp : s.phase with
  | ended how =>
    rw [sendStep_ended hp, if_neg fun h => SendPhase.noConfusion h.1]
    rfl
  | option =>
    rw [sendStep_option hp, if_neg fun h => SendPhase.noConfusion h.1]
    exact (optionStep_acked t oacklen _ _).2
  | data =>
    rw [sendStep_data hp, dataStep_acks]
    simp only [true_and]

/-- The number of the events with which the ACK of the block that is awaited comes in. -/
def ackedBlocks (M : Machine SendState Event Action) : Config SendState Event Action →
    List Event → Nat
  | _, [] => 0
  | c, e :: es =>
    (if c.state.phase = .data ∧ (parse c.state.ackbuf e).2 = .packet ACK c.state.block then 1
      else 0) + ackedBlocks M (M.next c e) es

/-- The progress is counted up once for each block that is acknowledged. -/
theorem length_acks_foldl (t : Transfer) (oack : Option Nat) (ackbuf : Mem) (f : InFile)
    (c : Config SendState Event Action) (es : List Event) :
    (acks (logged (es.foldl (tftpSendfile t oack ackbuf f).next c))).length =
      (acks (logged c)).length + ackedBlocks (tftpSendfile t oack ackbuf f) c es := by
  induction es generalizing c with
  | nil => rfl
  | cons e es ih =>
    have hnext : acks (logged ((tftpSendfile t oack ackbuf f).next c e)) =
        acks (logged c) ++ acks (sendStep t (oack.getD 0) c.state e).2 := by
      rw [logged, Machine.log_next, acks_append]
      rfl
    rw [List.foldl_cons, ih, hnext, sendStep_acks, ackedBlocks, List.length_append, Nat.add_assoc]
    congr 2
    split
    · rfl
    · rfl

theorem acks_start (t : Transfer) (oack : Option Nat) (ackbuf : Mem) (f : InFile) :
    acks (logged (tftpSendfile t oack ackbuf f).init) = [] := by
  rw [logged, Machine.log_init]
  cases oack with
  | none => exact (readBlock_acked t _).2
  | some oacklen => exact (sendOack_acked t oacklen _).2

/-- What a packet or a timeout does to the count while the ACK of block `i` is awaited. -/
theorem Waiting.counts (h : Waiting t content i s) (e : Parsed) :
    let r := dataStep t s e
    (acks r.2 = [] ∧ (Waiting t content i r.1 ∨
      ∃ how, how ≠ .completed ∧ r.1.phase = .ended how)) ∨
    (acks r.2 = [((payload t content i).length : Int)] ∧ (Waiting t content (i + 1) r.1 ∨
      ∃ how, how ≠ .completed ∧ r.1.phase = .ended how)) ∨
    ((payload t content i).length < t.segsize ∧ r.1.phase = .ended .completed ∧
      r.2 = [.incrementBlock (payload t content i).length, .endOperation]) := by
  have haborted {j : Nat} {r : SendState × List Action} (hs : SendsBlock t content j r) :
      Waiting t content j r.1 ∨ ∃ how, how ≠ .completed ∧ r.1.phase = .ended how := by
    rcases hs with ⟨hw, _⟩ | ⟨ha, _⟩
    · exact .inl hw
    · exact .inr ⟨_, by decide, ha⟩
  by_cases he : e = .packet ACK s.block
  · subst he
    right
    rw [dataStep_ack]
    by_cases hs : s.size = t.segsize
    · refine .inl ⟨?_, ?_⟩
      · rw [← h.size]
        exact (blockAcked_acked t s).2
      · rw [blockAcked_full hs]
        exact haborted (readBlock_sends h.buffers h.phase
          (congrArg (nextBlock t.rolloverVal) h.block))
    · have hle : (payload t content i).length ≤ t.segsize := List.length_take_le _ _
      have hsize := h.size
      rw [blockAcked_short hs, hsize]
      exact .inr ⟨by omega, rfl, rfl⟩
  · have hacks := dataStep_acks t s e
    rw [if_neg he] at hacks
    refine .inl ⟨hacks, ?_⟩
    rcases h.step e with ⟨_, hs⟩ | ⟨ha, _⟩ | ⟨ha, _⟩ | ⟨_, hst⟩
    · exact haborted hs
    · exact absurd ha (h.block ▸ he)
    · exact absurd ha (h.block ▸ he)
    · rcases hst with hw | hx | ha
      · exact .inl hw
      · exact .inr ⟨_, by decide, hx⟩
      · exact .inr ⟨_, by decide, ha⟩

/-- Where `tftp_sendfile` may be after the actions `as`, and how far it has counted. -/
inductive CountedTo (t : Transfer) (content : List UInt8) (s : SendState) (as : List Action) :
    Prop where
  | option (hp : s.phase = .option) (hf : s.file = .regular content) (hb : s.block = 1)
    (ha : acks as = []) : CountedTo t content s as
  | waiting (hw : Waiting t content i s) (ha : acks as = blockSizes t content i) :
    CountedTo t content s as
  | failed (how : Ended) (hne : how ≠ .completed) (hp : s.phase = .ended how)
    (ha : acks as = blockSizes t content k) : CountedTo t content s as
  | completed (hp : s.phase = .ended .completed)
    (hshort : (payload t content i).length < t.segsize) (hn : .endOperation ∉ as')
    (has : as = as' ++ [.endOperation]) (ha : acks as' = blockSizes t content (i + 1)) :
    CountedTo t content s as

theorem startData_countedTo (hf : s.file = .regular content) (hb : s.block = 1)
    (ha : acks as = []) : CountedTo t content (startData t s).1 (as ++ (startData t s).2) := by
  have hacks : acks (as ++ (startData t s).2) = [] := by
    rw [acks_append, ha, List.nil_append]
    exact (readBlock_acked t _).2
  rcases startData_sends t content hf hb with ⟨hw, _⟩ | ⟨hp, _⟩
  · exact .waiting (i := 0) hw hacks
  · exact .failed (k := 0) .aborted (by decide) hp hacks

theorem optionStep_countedTo (oacklen : Nat) (hp : s.phase = .option)
    (hf : s.file = .regular content) (hb : s.block = 1) (ha : acks as = []) (e : Parsed) :
    CountedTo t content (optionStep t oacklen s e).1 (as ++ (optionStep t oacklen s e).2) := by
  have hacks : acks (as ++ (optionStep t oacklen s e).2) = [] := by
    rw [acks_append, ha, List.nil_append]
    exact (optionStep_acked t oacklen s e).2
  rcases optionStep_cases t oacklen s e with
    ⟨timeout, sends, h, _⟩ | ⟨⟨how, hne, he⟩, _⟩ | ⟨_, h⟩
  · refine .option ?_ ?_ ?_ hacks
    · rw [h]
      exact hp
    · rw [h]
      exact hf
    · rw [h]
      exact hb
  · exact .failed (k := 0) how hne he hacks
  · rw [h]
    exact startData_countedTo hf hb ha

theorem Waiting.countedTo (h : Waiting t content i s) (ha : acks as = blockSizes t content i)
    (hn : .endOperation ∉ as) (e : Parsed) :
    CountedTo t content (dataStep t s e).1 (as ++ (dataStep t s e).2) := by
  rcases h.counts e with ⟨hq, hst⟩ | ⟨hq, hst⟩ | ⟨hshort, hc, hr⟩
  · have hacks : acks (as ++ (dataStep t s e).2) = blockSizes t content i := by
      rw [acks_append, ha, hq, List.append_nil]
    rcases hst with hw | ⟨how, hne, hp⟩
    · exact .waiting hw hacks
    · exact .failed how hne hp hacks
  · have hacks : acks (as ++ (dataStep t s e).2) = blockSizes t content (i + 1) := by
      rw [acks_append, ha, hq, blockSizes_succ]
    rcases hst with hw | ⟨how, hne, hp⟩
    · exact .waiting hw hacks
    · exact .failed how hne hp hacks
  · have hn' : .endOperation ∉ as ++ [.incrementBlock (payload t content i).length] := by
      rw [List.mem_append, List.mem_singleton, not_or]
      exact ⟨hn, nofun⟩
    refine .completed hc hshort hn' ?_ ?_
    · rw [hr, List.append_assoc]
      rfl
    · rw [acks_append, ha, blockSizes_succ]
      rfl

theorem CountedTo.step (h : CountedTo t content s as) (hn : ¬ Over s → .endOperation ∉ as)
    (oacklen : Nat) (e : Event) :
    CountedTo t content (sendStep t oacklen s e).1 (as ++ (sendStep t oacklen s e).2) := by
  cases h with
  | option hp hf hb ha =>
    rw [sendStep_option hp]
    exact optionStep_countedTo (s := { s with ackbuf := (parse s.ackbuf e).1 }) oacklen hp hf hb
      ha _
  | waiting hw ha =>
    rw [sendStep_data hw.phase]
    refine Waiting.countedTo (s := { s with ackbuf := (parse s.ackbuf e).1 }) ?_ ha ?_ _
    · exact ⟨hw.phase, hw.buffers, hw.dp, hw.block, hw.size, hw.packet⟩
    · exact hn (not_over hw.phase (by decide) (by decide))
  | failed how hne hp ha =>
    rw [sendStep_ended hp, List.append_nil]
    exact .failed how hne hp ha
  | completed hp hshort hn has ha =>
    rw [sendStep_ended hp, List.append_nil]
    exact .completed hp hshort hn has ha

theorem countedTo_run (t : Transfer) (oack : Option Nat) (ackbuf : Mem) (content : List UInt8)
    (es : List Event) :
    CountedTo t content ((tftpSendfile t oack ackbuf (.regular content)).run es).state
      (logged ((tftpSendfile t oack ackbuf (.regular content)).run es)) := by
  induction es using List.reverseRecOn with
  | nil =>
    have hlog : logged ((tftpSendfile t oack ackbuf (.regular content)).run []) = _ :=
      Machine.log_init _
    rw [hlog]
    cases oack with
    | none =>
      have hacks : acks [.setFlagUpload] = [] := rfl
      exact startData_countedTo (s := sendInit ackbuf t.rexmtval (.regular content)) rfl rfl hacks
    | some oacklen =>
      have hacks := (sendOack_acked t oacklen (sendInit ackbuf t.rexmtval (.regular content))).2
      rcases sendOack_cases t oacklen (sendInit ackbuf t.rexmtval (.regular content)) with
        ⟨h, _⟩ | ⟨h, _⟩
      · refine .option ?_ ?_ ?_ hacks
        · exact congrArg SendState.phase h
        · exact congrArg SendState.file h
        · exact congrArg SendState.block h
      · exact .failed (k := 0) .aborted (by decide) h hacks
  | append_singleton es e ih =>
    have hlog : logged ((tftpSendfile t oack ackbuf (.regular content)).run (es ++ [e])) = _ :=
      (congrArg logged (Machine.run_concat _ es e)).trans (Machine.log_next _ _ e)
    rw [hlog, Machine.run_concat]
    exact ih.step (fun hover he => hover (sendfile_ends t oack ackbuf _ es he)) (oack.getD 0) e

/-- The increments are the payload lengths of the first blocks. -/
theorem CountedTo.acks (h : CountedTo t content s as) : ∃ k, acks as = blockSizes t content k := by
  cases h with
  | option hp hf hb ha => exact ⟨0, ha⟩
  | waiting hw ha => exact ⟨_, ha⟩
  | failed how hne hp ha => exact ⟨_, ha⟩
  | completed hp hshort hn has ha =>
    rw [has, acks_append, ha]
    exact ⟨_, List.append_nil _⟩

theorem blockSizes_prefix (h : l <+: blockSizes t content k) :
    l = blockSizes t content l.length := by
  have hle : l.length ≤ k := by
    have hl := h.length_le
    rwa [blockSizes, List.length_map, List.length_range] at hl
  have hl : l = (blockSizes t content k).take l.length := List.prefix_iff_eq_take.1 h
  rw [blockSizes, ← List.map_take, List.take_range, Nat.min_eq_left hle] at hl
  exact hl

/-- In octet mode a failed read only cuts the count off. -/
theorem acks_clean (t : Transfer) (hconv : t.convert = false) (oack : Option Nat) (ackbuf : Mem)
    (f : InFile) (es : List Event) :
    acks (logged ((tftpSendfile t oack ackbuf f).run es)) <+:
      acks (logged ((tftpSendfile t oack ackbuf f.clean).run es)) := by
  induction es using List.reverseRecOn with
  | nil =>
    have hstart : acks (logged ((tftpSendfile t oack ackbuf f).run [])) = [] :=
      acks_start t oack ackbuf f
    rw [hstart]
    exact List.nil_prefix
  | append_singleton es e ih =>
    have hnext (f : InFile) : acks (logged ((tftpSendfile t oack ackbuf f).run (es ++ [e]))) =
        acks (logged ((tftpSendfile t oack ackbuf f).run es)) ++
          acks (sendStep t (oack.getD 0) ((tftpSendfile t oack ackbuf f).run es).state e).2 := by
      rw [Machine.run_concat, logged, Machine.log_next, acks_append]
      rfl
    rw [hnext, hnext]
    rcases sameSoFar_run t hconv oack ackbuf f es with hp | ⟨hlog, subs', f', hs, _⟩
    · rw [sendStep_ended hp]
      simp only [acks, List.filterMap_nil, List.append_nil]
      exact ih.trans (List.prefix_append _ _)
    · have heq : acks (logged ((tftpSendfile t oack ackbuf f).run es)) ++
          acks (sendStep t (oack.getD 0) ((tftpSendfile t oack ackbuf f).run es).state e).2 =
          acks (logged ((tftpSendfile t oack ackbuf f.clean).run es)) ++
            acks (sendStep t (oack.getD 0)
              ((tftpSendfile t oack ackbuf f.clean).run es).state e).2 := by
        rw [hs, sendStep_acks, sendStep_acks, logged, logged, hlog]
      exact heq ▸ List.prefix_refl _

/-- Unless a read has failed in netascii mode, the counts are those of the blocks. -/
theorem acks_run (t : Transfer) (oack : Option Nat) (ackbuf : Mem) (content : List UInt8)
    (err : Nat → Bool) (hread : t.convert = true → ∀ p, err p = false) (es : List Event)
    (has : as <+: logged ((tftpSendfile t oack ackbuf (.opened content err)).run es)) :
    acks as = blockSizes t content (acks as).length := by
  have hclean : acks (logged ((tftpSendfile t oack ackbuf (.opened content err)).run es)) <+:
      acks (logged ((tftpSendfile t oack ackbuf (.regular content)).run es)) := by
    cases hconv : t.convert with
    | false => exact acks_clean t hconv oack ackbuf (.opened content err) es
    | true =>
      have herr : err = fun _ => false := funext (hread hconv)
      rw [herr]
      exact List.prefix_refl _
  obtain ⟨k, hk⟩ := (countedTo_run t oack ackbuf content es).acks
  rw [hk] at hclean
  exact blockSizes_prefix ((has.filterMap _).trans hclean)

def totalBlock (m : Mem) (x : Slot) : UInt32 := m.u32 (totalBlockAt x)

/-- The call on the shared data in which an action consists. -/
def Action.call? : Action → Option Call
  | .setFlagUpload => some .setFlagUpload
  | .setFlagDownload => some .setFlagDownload
  | .incrementBlock value => some (.incrementBlock (.ofInt value))
  | .endOperation => some .endOperation
  | _ => none

theorem Action.onSlot_eq (x : Slot) (m : Mem) (a : Action) :
    a.onSlot x m = (a.call?.map (Call.run ⟨true, x⟩ m)).getD m := by
  cases a <;> rfl

/-- A count of 32 bits after these increments. -/
def countUp (b : UInt32) (values : List Int) : UInt32 := values.foldl (fun b v => b + .ofInt v) b

def SameSlot (x : Slot) (m m' : Mem) : Prop :=
  ∀ i, operationAt x ≤ i → i < operationAt x + 192 → m' i = m i

/-- The calls of a server that has the slot `x` to itself: before each of them, and after the last
one, others may have changed all but that slot. -/
inductive ExclusiveRun (x : Slot) : Mem → List Call → Mem → Prop where
  | done (h : SameSlot x m m') : ExclusiveRun x m [] m'
  | call (h : SameSlot x m m₁) (c : Call) (hr : ExclusiveRun x (c.run ⟨true, x⟩ m₁) cs m') :
      ExclusiveRun x m (c :: cs) m'

section Slot

variable {x : Slot} {m m' : Mem}

theorem SameSlot.block (h : SameSlot x m m') : block m' x = block m x := by
  apply Mem.u32_congr
  intro i hi hi'
  apply h
  · rw [blockAt] at hi
    omega
  · rw [blockAt] at hi'
    omega

theorem SameSlot.totalBlock (h : SameSlot x m m') : totalBlock m' x = totalBlock m x := by
  apply Mem.u32_congr
  intro i hi hi'
  apply h
  · rw [totalBlockAt] at hi
    omega
  · rw [totalBlockAt] at hi'
    omega

theorem block_store (m : Mem) (x : Slot) (bs : List UInt8) (h : k + bs.length ≤ 184) :
    block (m.store (operationAt x + k) bs) x = block m x := by
  apply Mem.u32_store_disjoint
  rw [blockAt]
  omega

theorem totalBlock_store (m : Mem) (x : Slot) (bs : List UInt8) (h : k + bs.length ≤ 188) :
    totalBlock (m.store (operationAt x + k) bs) x = totalBlock m x := by
  apply Mem.u32_store_disjoint
  rw [totalBlockAt]
  omega

theorem block_setIp (m : Mem) (x : Slot) (peer : SockAddr) :
    block ((Call.setIp peer).run ⟨true, x⟩ m) x = block m x := by
  have hl := ipString_fits peer
  apply block_store
  rw [List.length_append, List.length_singleton]
  simp only [CString.length, inet6Addrstrlen] at hl
  omega

theorem block_setPort (m : Mem) (x : Slot) (port : UInt32) :
    block ((Call.setPort port).run ⟨true, x⟩ m) x = block m x := by
  apply block_store
  rw [Mem.length_le32]
  decide

theorem block_setTotalBlock (m : Mem) (x : Slot) (n : UInt32) :
    block ((Call.setTotalBlock n).run ⟨true, x⟩ m) x = block m x ∧
      totalBlock ((Call.setTotalBlock n).run ⟨true, x⟩ m) x = n := by
  constructor
  · exact Mem.u32_store_disjoint m (Mem.le32 n) (.inl (Nat.le_refl (totalBlockAt x)))
  · exact Mem.u32_store m _ n

theorem u32_low (h : m.u32 a = 0) : m a = 0 := by
  have hn := congrArg UInt32.toNat h
  have h0 := (m a).toNat_lt
  have h1 := (m (a + 1)).toNat_lt
  have h2 := (m (a + 2)).toNat_lt
  have h3 := (m (a + 3)).toNat_lt
  simp only [Mem.u32, UInt32.toNat_ofNat', UInt32.toNat_zero] at hn
  apply UInt8.toNat_inj.1
  rw [UInt8.toNat_zero]
  omega

/-- The copy of a file name leaves a count of 0 as it is, exactly if not more than its NUL comes to
stand in it. -/
theorem block_setFilename (hb : block m x = 0) (filename : CString) :
    block ((Call.setFilename filename).run ⟨true, x⟩ m) x = 0 ↔ filename.length ≤ 183 := by
  have hrun : (Call.setFilename filename).run ⟨true, x⟩ m =
      m.store (filenameAt x) (filename.bytes ++ [0]) := rfl
  have hat : blockAt x = filenameAt x + 183 := rfl
  have hlen : (filename.bytes ++ [0]).length = filename.length + 1 := List.length_append
  rw [hrun]
  constructor
  · intro h
    by_contra hlong
    have hlt : 183 < filename.bytes.length := Nat.lt_of_not_le hlong
    have hlow := u32_low h
    rw [hat, Mem.store_inside _ _ (by omega), List.getElem_append_left hlt] at hlow
    apply filename.nulFree
    rw [← hlow]
    exact List.getElem_mem hlt
  · intro hle
    rw [← hb]
    apply Mem.u32_congr
    intro i hi hi'
    by_cases hin : i < filenameAt x + (filename.length + 1)
    · have hi0 : i = filenameAt x + filename.bytes.length := by
        have hl : filename.bytes.length = filename.length := rfl
        omega
      have h183 : filenameAt x + filename.bytes.length = blockAt x := by omega
      rw [hi0, Mem.store_inside _ _ (by omega), List.getElem_concat_length, h183]
      · exact (u32_low hb).symm
      · rfl
    · exact Mem.store_above m _ (by omega)

theorem setOflags_counts (m : Mem) (x : Slot) (flags : UInt8) :
    block (setOflags m x flags) x = block m x ∧
      totalBlock (setOflags m x flags) x = totalBlock m x := by
  have hlen : 0 + [flags].length = 1 := rfl
  constructor
  · apply block_store (k := 0)
    rw [hlen]
    decide
  · apply totalBlock_store (k := 0)
    rw [hlen]
    decide

theorem incrementBlock_counts (m : Mem) (x : Slot) (value : UInt32) :
    block ((Call.incrementBlock value).run ⟨true, x⟩ m) x = block m x + value ∧
      totalBlock ((Call.incrementBlock value).run ⟨true, x⟩ m) x = totalBlock m x := by
  constructor
  · exact Mem.u32_store m _ _
  · apply totalBlock_store (k := 184)
    rw [Mem.length_le32]

theorem ExclusiveRun.foldl (x : Slot) (m : Mem) (cs : List Call) :
    ExclusiveRun x m cs (cs.foldl (fun m c => c.run ⟨true, x⟩ m) m) := by
  induction cs generalizing m with
  | nil => exact .done fun _ _ _ => rfl
  | cons c cs ih => exact .call (fun _ _ _ => rfl) c (ih _)

/-- What the first call makes of the count, whatever others have changed before it. -/
theorem ExclusiveRun.first (h : ExclusiveRun x m (c :: cs) m') (f : UInt32 → UInt32)
    (hc : ∀ m₁, block (c.run ⟨true, x⟩ m₁) x = f (block m₁ x) ∧
      totalBlock (c.run ⟨true, x⟩ m₁) x = totalBlock m₁ x) :
    ∃ m₁, ExclusiveRun x m₁ cs m' ∧ block m₁ x = f (block m x) ∧
      totalBlock m₁ x = totalBlock m x := by
  cases h with
  | call hs _ hr =>
    obtain ⟨hb, ht⟩ := hc _
    exact ⟨_, hr, hb.trans (congrArg f hs.block), ht.trans hs.totalBlock⟩

/-- Before `woo_end_operation` a transfer only adds up its increments. -/
theorem ExclusiveRun.counts (h : ExclusiveRun x m (as.filterMap Action.call?) m')
    (hn : .endOperation ∉ as) :
    block m' x = countUp (block m x) (acks as) ∧ totalBlock m' x = totalBlock m x := by
  induction as generalizing m with
  | nil =>
    cases h with
    | done hs => exact ⟨hs.block, hs.totalBlock⟩
  | cons a as ih =>
    have hn' := List.not_mem_of_not_mem_cons hn
    cases a with
    | endOperation => exact absurd List.mem_cons_self hn
    | send bs => exact ih h hn'
    | nak error => exact ih h hn'
    | accept number bs => exact ih h hn'
    | setFlagUpload =>
      obtain ⟨m₁, hr, hb, ht⟩ := ExclusiveRun.first h id fun m => setOflags_counts m x _
      rw [← ht]
      exact (ih hr hn').imp_left fun hcount => hcount.trans (congrArg (countUp · (acks as)) hb)
    | setFlagDownload =>
      obtain ⟨m₁, hr, hb, ht⟩ := ExclusiveRun.first h id fun m => setOflags_counts m x _
      rw [← ht]
      exact (ih hr hn').imp_left fun hcount => hcount.trans (congrArg (countUp · (acks as)) hb)
    | incrementBlock value =>
      obtain ⟨m₁, hr, hb, ht⟩ := ExclusiveRun.first h (· + .ofInt value) fun m =>
        incrementBlock_counts m x (.ofInt value)
      rw [← ht]
      exact (ih hr hn').imp_left fun hcount => hcount.trans (congrArg (countUp · (acks as)) hb)

/-- The calls before the transfer. -/
theorem ExclusiveRun.begins
    (h : ExclusiveRun x m
      (.setIp peer :: .setPort port :: .setFilename filename :: .setTotalBlock n :: cs) m')
    (hb : block m x = 0) :
    ∃ m₁, ExclusiveRun x m₁ cs m' ∧ totalBlock m₁ x = n ∧
      (block m₁ x = 0 ↔ filename.length ≤ 183) := by
  cases h with
  | call h₁ _ h =>
  cases h with
  | call h₂ _ h =>
  cases h with
  | call h₃ _ h =>
  cases h with
  | call h₄ _ h =>
  rw [← h₁.block, ← block_setIp _ x peer, ← h₂.block, ← block_setPort _ x port, ← h₃.block] at hb
  refine ⟨_, h, (block_setTotalBlock _ x n).2, ?_⟩
  rw [(block_setTotalBlock _ x n).1, h₄.block]
  exact block_setFilename hb filename

end Slot

theorem payloadBytes_succ (t : Transfer) (content : List UInt8) (k : Nat) :
    payloadBytes t content (k + 1) = payloadBytes t content k + (payload t content k).length := by
  rw [payloadBytes, List.range_succ, List.flatMap_append, List.length_append,
    List.flatMap_singleton]
  rfl

theorem ofInt_natCast (n : Nat) : UInt32.ofInt n = UInt32.ofNat n := by
  have hmod : ((n : Int) % 2 ^ 32).toNat = n % 2 ^ 32 := by omega
  rw [UInt32.ofInt, hmod, UInt32.ofNat_mod_size]

theorem countUp_blockSizes (t : Transfer) (content : List UInt8) (k : Nat) (b : UInt32) :
    countUp b (blockSizes t content k) = b + .ofNat (payloadBytes t content k) := by
  induction k with
  | zero => exact (UInt32.add_zero b).symm
  | succ k ih =>
    rw [countUp] at ih ⊢
    rw [blockSizes_succ, List.foldl_append, ih, payloadBytes_succ, UInt32.ofNat_add,
      ← UInt32.add_assoc, ← ofInt_natCast (payload t content k).length]
    rfl

def isLineEnd (c : UInt8) : Bool := c = LF ∨ c = CR

theorem length_netEncode_eq (content : List UInt8) :
    (netEncode content).length = content.length + content.countP isLineEnd := by
  induction content with
  | nil => rfl
  | cons c cs ih =>
    rw [List.countP_cons]
    by_cases hl : c = LF
    · have hc : isLineEnd c = true := decide_eq_true (.inl hl)
      rw [netEncode, if_pos hl, if_pos hc, List.length_cons, List.length_cons, List.length_cons, ih]
      omega
    by_cases hc : c = CR
    · have hend : isLineEnd c = true := decide_eq_true (.inr hc)
      rw [netEncode, if_neg hl, if_pos hc, if_pos hend, List.length_cons, List.length_cons,
        List.length_cons, ih]
      omega
    · have hend : ¬ isLineEnd c = true := fun h => (of_decide_eq_true h).elim hl hc
      rw [netEncode, if_neg hl, if_neg hc, if_neg hend, List.length_cons, List.length_cons, ih]
      omega

/-- In netascii mode more bytes are sent than the file has, unless it has no line ends. -/
theorem length_encode_eq_iff (convert : Bool) (content : List UInt8) :
    (encode convert content).length = content.length ↔
      (convert = true → ∀ c ∈ content, c ≠ LF ∧ c ≠ CR) := by
  cases convert with
  | false => exact iff_of_true rfl nofun
  | true =>
    have hzero : (netEncode content).length = content.length ↔ content.countP isLineEnd = 0 := by
      rw [length_netEncode_eq]
      omega
    rw [encode, if_pos rfl, hzero, List.countP_eq_zero]
    simp only [isLineEnd, decide_eq_true_eq, not_or, forall_const]

theorem openFile_found (hf : fs filename.bytes = some f)
    (h : openFile cfg k mode filename fs = .ok r) : r.1 = f := by
  simp only [openFile, hf] at h
  split at h
  · cases h
  · rename_i he
    cases he
    cases h
    rfl
  · rename_i he
    cases he

theorem checkFile_granted
    (h : (checkFile cfg k RRQ convert filename f fs).1 = .granted tsize tsizeOk) :
    tsize = f.content.length := by
  simp only [checkFile, if_true] at h
  repeat' split at h
  all_goals cases h
  rfl

/-- A read request that was granted, and what its transfer is given. -/
structure Download where
  access : AccessConfig
  kernel : Kernel
  fs : FileSystem
  filename : CString
  file : File
  peer : SockAddr
  port : UInt32
  transfer : Transfer
  oack : Option Nat
  ackbuf : Mem
  err : Nat → Bool
  found : fs filename.bytes = some file
  granted : ∃ tsize tsizeOk,
    (validateAccess access kernel RRQ transfer.convert filename fs).result =
      .granted tsize tsizeOk

namespace Download

def machine (d : Download) : Machine SendState Event Action :=
  tftpSendfile d.transfer d.oack d.ackbuf (.opened d.file.content d.err)

def run (d : Download) (es : List Event) : Config SendState Event Action := d.machine.run es

/-- The number of blocks that were acknowledged with the events `es`. -/
def acked (d : Download) (es : List Event) : Nat := ackedBlocks d.machine d.machine.init es

/-- The calls of the server on the shared data up to the actions `as` of its transfer. -/
def calls (d : Download) (as : List Action) : List Call :=
  .setIp d.peer :: .setPort d.port ::
    ((validateAccess d.access d.kernel RRQ d.transfer.convert d.filename d.fs).calls ++
      as.filterMap Action.call?)

/-- What the slot should say when `k` blocks were acknowledged. -/
structure ExactProgress (t : Transfer) (content : List UInt8) (k : Nat) (m : Mem) (x : Slot) :
    Prop where
  counted : (block m x).toNat = payloadBytes t content k
  bounded : block m x ≤ totalBlock m x
  finished : ∀ i, k = i + 1 → (payload t content i).length < t.segsize →
    block m x = totalBlock m x

/-- In every run the progress is exact up to the call of `woo_end_operation`: wherever a step has
got to, for the blocks that were counted, and after the step for those that were acknowledged. -/
structure CountsExactly (d : Download) (x : Slot) (m : Mem) : Prop where
  counted : ∀ es as m', as <+: logged (d.run es) → .endOperation ∉ as →
    ExclusiveRun x m (d.calls as) m' →
      ExactProgress d.transfer d.file.content (acks as).length m' x
  acknowledged : ∀ es as m', logged (d.run es) = as ∨ logged (d.run es) = as ++ [.endOperation] →
    .endOperation ∉ as → ExclusiveRun x m (d.calls as) m' →
      ExactProgress d.transfer d.file.content (d.acked es) m' x

/-- What is sent is as long as the file, 32 bits hold the length, and the name does not reach
into the count. -/
structure WithinCount (d : Download) : Prop where
  plain : d.transfer.convert = true → ∀ c ∈ d.file.content, c ≠ LF ∧ c ≠ CR
  small : d.file.content.length < 2 ^ 32
  name : d.filename.length ≤ 183

theorem access_calls (d : Download) :
    (validateAccess d.access d.kernel RRQ d.transfer.convert d.filename d.fs).calls =
      [.setFilename d.filename, .setTotalBlock (.ofNat d.file.content.length)] := by
  obtain ⟨tsize, tsizeOk, hg⟩ := d.granted
  have hcalls : (validateAccess d.access d.kernel RRQ d.transfer.convert d.filename d.fs).calls =
      .setFilename d.filename ::
        (validateAccess d.access d.kernel RRQ d.transfer.convert d.filename d.fs).result.calls :=
    rfl
  have htsize : tsize = d.file.content.length := by
    simp only [validateAccess, accessFile] at hg
    split at hg
    · cases hg
    split at hg
    · cases hg
    · rename_i ho
      rw [checkFile_granted hg]
      exact congrArg (fun f : File => f.content.length) (openFile_found d.found ho)
  rw [hcalls, hg, htsize]
  rfl

variable {d : Download} {x : Slot} {m m' : Mem} {as : List Action}

/-- The slot after the actions `as`. -/
theorem slot_counts (d : Download) (hb : block m x = 0) (hrun : ExclusiveRun x m (d.calls as) m')
    (hn : .endOperation ∉ as) :
    ∃ b, block m' x = countUp b (acks as) ∧
      totalBlock m' x = .ofNat d.file.content.length ∧ (b = 0 ↔ d.filename.length ≤ 183) := by
  rw [calls, access_calls] at hrun
  obtain ⟨m₁, hr, ht, hname⟩ := hrun.begins hb
  obtain ⟨hblock, htotal⟩ := hr.counts hn
  exact ⟨block m₁ x, hblock, htotal.trans ht, hname⟩

theorem acks_blockSizes (d : Download) (hread : d.transfer.convert = true → ∀ p, d.err p = false)
    (has : as <+: logged (d.run es)) :
    acks as = blockSizes d.transfer d.file.content (acks as).length :=
  acks_run d.transfer d.oack d.ackbuf d.file.content d.err hread es has

theorem length_acks (d : Download) (es : List Event) :
    (acks (logged (d.run es))).length = d.acked es := by
  have hlen := length_acks_foldl d.transfer d.oack d.ackbuf (.opened d.file.content d.err)
    d.machine.init es
  rw [machine, acks_start, List.length_nil, Nat.zero_add] at hlen
  exact hlen

theorem WithinCount.counted (h : d.WithinCount)
    (hread : d.transfer.convert = true → ∀ p, d.err p = false) (hb : block m x = 0)
    (has : as <+: logged (d.run es)) (hn : .endOperation ∉ as)
    (hrun : ExclusiveRun x m (d.calls as) m') :
    ExactProgress d.transfer d.file.content (acks as).length m' x := by
  obtain ⟨b, hblock, htotal, hname⟩ := d.slot_counts hb hrun hn
  have hlen := (length_encode_eq_iff d.transfer.convert d.file.content).2 h.plain
  have hle : payloadBytes d.transfer d.file.content (acks as).length ≤ d.file.content.length := by
    rw [payloadBytes_eq, hlen]
    exact Nat.min_le_right _ _
  have hsmall := h.small
  rw [hname.2 h.name, d.acks_blockSizes hread has, countUp_blockSizes, UInt32.zero_add] at hblock
  refine ⟨?_, ?_, ?_⟩
  · rw [hblock, UInt32.toNat_ofNat']
    exact Nat.mod_eq_of_lt (Nat.lt_of_le_of_lt hle hsmall)
  · rw [hblock, htotal, UInt32.le_iff_toNat_le, UInt32.toNat_ofNat', UInt32.toNat_ofNat']
    rw [Nat.mod_eq_of_lt (Nat.lt_of_le_of_lt hle hsmall), Nat.mod_eq_of_lt hsmall]
    exact hle
  · intro i hi hshort
    rw [hblock, htotal, hi, payloadBytes_all hshort, hlen]

theorem WithinCount.exact (h : d.WithinCount)
    (hread : d.transfer.convert = true → ∀ p, d.err p = false) (hb : block m x = 0) :
    d.CountsExactly x m where
  counted _ _ _ has hn hrun := h.counted hread hb has hn hrun
  acknowledged := by
    intro es as m' has hn hrun
    have hprefix : as <+: logged (d.run es) ∧ acks (logged (d.run es)) = acks as := by
      rcases has with has | has
      · rw [has]
        exact ⟨List.prefix_refl _, rfl⟩
      · rw [has, acks_append]
        exact ⟨List.prefix_append _ _, List.append_nil _⟩
    rw [← d.length_acks es, hprefix.2]
    exact h.counted hread hb hprefix.1 hn hrun

end Download

end WooTftpd
