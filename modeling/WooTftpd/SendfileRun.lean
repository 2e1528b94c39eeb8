import WooTftpd.OptionPhase
import WooTftpd.SenderTrace

namespace WooTftpd
open Lib
set_option autoImplicit true

variable {t : Transfer} {content : List UInt8} {s : SendState}

def headers (m : Mem) : List Event → List Parsed
  | [] => []
  | e :: es => (parse m e).2 :: headers (parse m e).1 es

theorem headers_concat (m : Mem) (es : List Event) (e : Event) :
    headers m (es ++ [e]) = headers m es ++ [(parse (overlay m es) e).2] := by
  induction es generalizing m with
  | nil => rfl
  | cons e' es ih =>
    rw [List.cons_append, headers, ih]
    rfl

theorem sendData_ackbuf (t : Transfer) (s : SendState) (m : Mem) :
    sendData t { s with ackbuf := m } =
      ({ (sendData t s).1 with ackbuf := m }, (sendData t s).2) := by
  simp only [sendData]
  split
  · rfl
  · rfl

theorem readBlock_ackbuf (t : Transfer) (s : SendState) (m : Mem) :
    readBlock t { s with ackbuf := m } =
      ({ (readBlock t s).1 with ackbuf := m }, (readBlock t s).2) := by
  simp only [readBlock]
  split
  · rfl
  · simp only [sendData]
    split
    · rfl
    · rfl

theorem dataStep_ackbuf (t : Transfer) (s : SendState) (m : Mem) (e : Parsed) :
    dataStep t { s with ackbuf := m } e =
      ({ (dataStep t s e).1 with ackbuf := m }, (dataStep t s e).2) := by
  cases e with
  | timeout =>
    simp only [dataStep]
    cases timer t.maxtimeout false s.timeout with
    | none => rfl
    | some timeout => exact sendData_ackbuf t { s with timeout := timeout } m
  | recvError => rfl
  | packet opcode block =>
    simp only [dataStep]
    split
    · rfl
    split
    · by_cases hs : s.size = t.segsize
      · simp only [blockAcked, if_pos hs]
        have hr := readBlock_ackbuf t { s with block := nextBlock t.rolloverVal s.block } m
        exact congrArg (fun r => (r.1, Action.incrementBlock s.size :: r.2)) hr
      · simp only [blockAcked, if_neg hs]
    · rfl

theorem startData_ackbuf (t : Transfer) (s : SendState) :
    (startData t s).1.ackbuf = s.ackbuf :=
  congrArg (fun r => r.1.ackbuf)
    (readBlock_ackbuf t { s with phase := .data, subs := rInit s.subs } s.ackbuf)

/-- `tftp_sendfile` is in its data phase, or has left it: it is where the machine of that phase
is, but for the buffer `m` of the received packets, and did the same after the actions `opts`. -/
structure InDataPhase (opts : List Action) (m : Mem) (c : Config SendState Event Action)
    (c' : Config SendState Parsed Action) : Prop where
  phase : c.state.phase = c'.state.phase
  begun : c.state.phase ≠ .option
  state : c.state.phase = .data → c.state = { c'.state with ackbuf := m }
  log : c.log.map Prod.snd = opts ++ c'.log.map Prod.snd

/-- Steps of the two machines with the same actions keep them together. -/
theorem InDataPhase.of_steps {c : Config SendState Event Action}
    {c' : Config SendState Parsed Action} (h : InDataPhase opts m c c')
    {M : Machine SendState Event Action} {M' : Machine SendState Parsed Action}
    (hstep : M.step c.state e = (s₁, as)) (hstep' : M'.step c'.state e' = (s₁', as))
    (hphase : s₁.phase = s₁'.phase) (hbegun : s₁.phase ≠ .option)
    (hstate : s₁.phase = .data → s₁ = { s₁' with ackbuf := m' }) :
    InDataPhase opts m' (M.next c e) (M'.next c' e') := by
  have hlog := M.log_next c e
  have hlog' := M'.log_next c' e'
  rw [hstep] at hlog
  rw [hstep'] at hlog'
  constructor
  · simp only [Machine.next, hstep, hstep']
    exact hphase
  · simp only [Machine.next, hstep]
    exact hbegun
  · simp only [Machine.next, hstep, hstep']
    exact hstate
  · rw [hlog, hlog', h.log, List.append_assoc]

theorem InDataPhase.next {c : Config SendState Event Action}
    {c' : Config SendState Parsed Action} (h : InDataPhase opts m c c') (oack : Option Nat)
    (ackbuf : Mem) (f : InFile) (s : SendState) (e : Event) :
    InDataPhase opts (parse m e).1 ((tftpSendfile t oack ackbuf f).next c e)
      ((dataPhase t s).next c' (parse m e).2) := by
  cases hp : c.state.phase with
  | option => exact absurd hp h.begun
  | ended how =>
    have hstep : (tftpSendfile t oack ackbuf f).step c.state e = (c.state, []) :=
      sendStep_ended hp t _ e
    have hstep' : (dataPhase t s).step c'.state (parse m e).2 = (c'.state, []) := by
      simp only [dataPhase, ← h.phase, hp, reduceCtorEq, if_false]
    apply h.of_steps hstep hstep' h.phase h.begun
    intro hd
    rw [hp] at hd
    cases hd
  | data =>
    have hs := h.state hp
    have hstep : (tftpSendfile t oack ackbuf f).step c.state e =
        ({ (dataStep t c'.state (parse m e).2).1 with ackbuf := (parse m e).1 },
          (dataStep t c'.state (parse m e).2).2) := by
      rw [← dataStep_ackbuf]
      have hdata := sendStep_data hp t (oack.getD 0) e
      rw [hs] at hdata ⊢
      exact hdata
    have hstep' : (dataPhase t s).step c'.state (parse m e).2 =
        dataStep t c'.state (parse m e).2 := by
      simp only [dataPhase, ← h.phase, hp, if_true]
    have hbegun : (dataStep t c'.state (parse m e).2).1.phase ≠ .option := by
      apply dataStep_phase
      rw [← h.phase]
      exact h.begun
    exact h.of_steps hstep hstep' rfl hbegun fun _ => rfl

theorem startData_inDataPhase (opts : List Action) {c : Config SendState Event Action}
    (hs : c.state = (startData t s).1) (hl : c.log.map Prod.snd = opts ++ (startData t s).2) :
    InDataPhase opts s.ackbuf c (dataPhase t s).init := by
  constructor
  · rw [hs]
    rfl
  · rw [hs]
    exact startData_phase t s
  · intro _
    rw [hs, ← startData_ackbuf t s]
    rfl
  · rw [hl, Machine.log_init]
    rfl

/-- What may be sent up to the end of the option phase, on the events `es`. -/
def OptionSent (oack : Option Nat) (ackbuf : Mem) (es : List Event) (ds : List (List UInt8)) :
    Prop :=
  ds = [] ∨ ∃ oacklen pre, oack = some oacklen ∧ pre <+: es ∧
    ds = ackbuf.load 0 oacklen :: resent oacklen ackbuf pre

theorem OptionSent.append (h : OptionSent oack ackbuf es ds) (es' : List Event) :
    OptionSent oack ackbuf (es ++ es') ds := by
  rcases h with h | ⟨oacklen, pre, ho, hpre, hds⟩
  · exact .inl h
  · exact .inr ⟨oacklen, pre, ho, hpre.trans (List.prefix_append _ _), hds⟩

/-- Where `tftp_sendfile` may be after the events `es`: in its option phase, at an end that it
came to there, or in its data phase. -/
inductive SendfileTrace (t : Transfer) (oack : Option Nat) (ackbuf : Mem) (content : List UInt8)
    (es : List Event) (c : Config SendState Event Action) : Prop where
  | option (hoack : oack = some oacklen) (hs : c.state =
      { sendInit (overlay ackbuf es) timeout (.regular content) with sends := sends }) :
    SendfileTrace t oack ackbuf content es c
  | failed (how : Ended) (hne : how ≠ .completed) (hp : c.state.phase = .ended how)
    (ho : OptionSent oack ackbuf es (sentPackets c)) : SendfileTrace t oack ackbuf content es c
  | data (m : Mem) (pre post : List Event) (timeout sends : Nat) (hes : es = pre ++ post)
    (ho : OptionSent oack ackbuf pre (opts.filterMap Action.sent?))
    (hd : InDataPhase opts (overlay m post) c
      ((sender t content m .static timeout sends).run (headers m post))) :
    SendfileTrace t oack ackbuf content es c

theorem sentPackets_next (M : Machine SendState Event Action) (c : Config SendState Event Action)
    (e : Event) :
    sentPackets (M.next c e) = sentPackets c ++ (M.step c.state e).2.filterMap Action.sent? := by
  rw [sentPackets, Machine.log_next, List.filterMap_append]
  rfl

theorem optionSent_run (t : Transfer) (oacklen : Nat) (ackbuf : Mem) (f : InFile)
    (es : List Event)
    (h : ((tftpSendfile t (some oacklen) ackbuf f).run es).state.phase = .option) :
    OptionSent (some oacklen) ackbuf es
      (sentPackets ((tftpSendfile t (some oacklen) ackbuf f).run es)) := by
  obtain ⟨_, hsent⟩ := optionPhase_run t oacklen ackbuf f es h
  exact .inr ⟨oacklen, es, rfl, List.prefix_refl es, hsent⟩

theorem sendfileTrace_option (t : Transfer) (oacklen : Nat) (ackbuf : Mem)
    (content : List UInt8) (es : List Event)
    (hs : ((tftpSendfile t (some oacklen) ackbuf (.regular content)).run es).state =
      { sendInit (overlay ackbuf es) timeout (.regular content) with sends := sends })
    (e : Event) :
    SendfileTrace t (some oacklen) ackbuf content (es ++ [e])
      ((tftpSendfile t (some oacklen) ackbuf (.regular content)).run (es ++ [e])) := by
  have ho := optionSent_run t oacklen ackbuf (.regular content) es (by rw [hs]; rfl)
  have hstep : (tftpSendfile t (some oacklen) ackbuf (.regular content)).step
      ((tftpSendfile t (some oacklen) ackbuf (.regular content)).run es).state e =
      optionStep t oacklen
        { sendInit (overlay ackbuf (es ++ [e])) timeout (.regular content) with sends := sends }
        (parse (overlay ackbuf es) e).2 := by
    rw [hs, overlay_concat]
    rfl
  rw [Machine.run_concat]
  rcases optionStep_cases t oacklen
    { sendInit (overlay ackbuf (es ++ [e])) timeout (.regular content) with sends := sends }
    (parse (overlay ackbuf es) e).2 with ⟨timeout', sends', h, _⟩ | ⟨⟨how, hne, hp⟩, hq⟩ | ⟨_, h⟩
  · rw [← hstep] at h
    exact .option rfl h
  · rw [← hstep] at hp hq
    apply SendfileTrace.failed how hne hp
    rw [sentPackets_next, hq, List.append_nil]
    exact ho.append [e]
  · rw [← hstep] at h
    have hd := startData_inDataPhase _ (c := (tftpSendfile t (some oacklen) ackbuf
      (.regular content)).next _ e) (congrArg Prod.fst h)
      ((Machine.log_next _ _ e).trans (congrArg _ (congrArg Prod.snd h)))
    exact .data (overlay ackbuf (es ++ [e])) (es ++ [e]) [] timeout sends
      (List.append_nil _).symm (ho.append [e]) hd

theorem SendfileTrace.next {oack : Option Nat}
    (h : SendfileTrace t oack ackbuf content es
      ((tftpSendfile t oack ackbuf (.regular content)).run es)) (e : Event) :
    SendfileTrace t oack ackbuf content (es ++ [e])
      ((tftpSendfile t oack ackbuf (.regular content)).run (es ++ [e])) := by
  cases h with
  | option hoack hs =>
    subst hoack
    exact sendfileTrace_option t _ ackbuf content es hs e
  | failed how hne hp ho =>
    rw [Machine.run_concat, tftpSendfile_ended t oack ackbuf _ hp e]
    exact .failed how hne hp (ho.append [e])
  | data m pre post timeout sends hes ho hd =>
    rw [Machine.run_concat]
    apply SendfileTrace.data m pre (post ++ [e]) timeout sends _ ho
    · rw [overlay_concat, headers_concat, Machine.run_concat]
      exact hd.next oack ackbuf (.regular content) _ e
    · rw [hes, List.append_assoc]

theorem sendfile_run (t : Transfer) (oack : Option Nat) (ackbuf : Mem) (content : List UInt8)
    (es : List Event) :
    SendfileTrace t oack ackbuf content es
      ((tftpSendfile t oack ackbuf (.regular content)).run es) := by
  induction es using List.reverseRecOn with
  | nil =>
    cases oack with
    | none =>
      have hd := startData_inDataPhase [.setFlagUpload]
        (c := (tftpSendfile t none ackbuf (.regular content)).init) rfl (Machine.log_init _)
      exact .data ackbuf [] [] t.rexmtval 0 rfl (.inl rfl) hd
    | some oacklen =>
      rcases sendOack_cases t oacklen (sendInit ackbuf t.rexmtval (.regular content)) with
        ⟨h, _⟩ | ⟨h, hq⟩
      · exact .option rfl h
      · apply SendfileTrace.failed .aborted (by decide) h
        apply Or.inl
        exact (congrArg _ (Machine.log_init _)).trans hq
  | append_singleton es e ih => exact ih.next e

/-- Over every sequence of timeouts and datagrams, `tftp_sendfile` sends the OACK and its
repetitions and then the blocks of the file in order, and it ends normally only when all of
the file was sent. -/
theorem tftpSendfile_run (t : Transfer) (oack : Option Nat) (ackbuf : Mem)
    (content : List UInt8) (es : List Event) :
    let c := (tftpSendfile t oack ackbuf (.regular content)).run es
    ∃ opts n again, OptionSent oack ackbuf es opts ∧
      sentPackets c = opts ++ (senderLog t content again n).map Prod.snd ∧
      (∀ i, i + 1 < n → (payload t content i).length = t.segsize) ∧
      (c.state.phase = .ended .completed →
        ∃ i, n = i + 1 ∧ (payload t content i).length < t.segsize) := by
  intro c
  have hnone (i : Nat) (hi : i + 1 < 0) : (payload t content i).length = t.segsize :=
    absurd hi (Nat.not_lt_zero _)
  cases sendfile_run t oack ackbuf content es with
  | option hoack hs =>
    subst hoack
    have hp : c.state.phase = .option := by rw [hs]; rfl
    refine ⟨sentPackets c, 0, fun _ => 0, optionSent_run _ _ _ _ _ hp,
      (List.append_nil _).symm, hnone, ?_⟩
    intro hc
    rw [hp] at hc
    cases hc
  | failed how hne hp ho =>
    refine ⟨sentPackets c, 0, fun _ => 0, ho, (List.append_nil _).symm, hnone, ?_⟩
    intro hc
    have hend := hp.symm.trans hc
    cases hend
    exact absurd rfl hne
  | data m pre post timeout sends hes ho hd =>
    rename_i opts
    obtain ⟨n, again, h⟩ := sender_run t content m .static timeout sends (headers m post)
    have hsent : sentPackets c =
        opts.filterMap Action.sent? ++ (senderLog t content again n).map Prod.snd := by
      rw [sentPackets, hd.log, List.filterMap_append, ← Config.observe_snd, h.sent]
    refine ⟨_, n, again, ?_, hsent, h.full, ?_⟩
    · rw [hes]
      exact ho.append post
    · intro hc
      have hc' := hd.phase.symm.trans hc
      rcases h.state with ⟨i, _, hw⟩ | he | ha | ⟨_, i, _, _, hn, hshort, _⟩
      · cases hw.phase.symm.trans hc'
      · cases he.symm.trans hc'
      · cases ha.symm.trans hc'
      · exact ⟨i, hn, hshort⟩

end WooTftpd
