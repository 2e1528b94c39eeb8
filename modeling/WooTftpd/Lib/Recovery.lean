import WooTftpd.Lib.Link

namespace Lib
set_option autoImplicit true

def LinkEvent.Delivers : LinkEvent ε ε' → Prop
  | .toReceiver _ _ | .toSender _ _ => True
  | _ => False

/-- Whatever is in a channel can be handed over. -/
theorem Order.take_mem (o : Order) (h : b ∈ q) : ∃ i q', o.take q i false = some (b, q') := by
  cases o with
  | any =>
    obtain ⟨i, hi⟩ := List.getElem?_of_mem h
    refine ⟨i, q, ?_⟩
    rw [Order.take, hi]
    rfl
  | kept =>
    obtain ⟨pre, rest, rfl⟩ := List.append_of_mem h
    refine ⟨pre.length, rest, ?_⟩
    rw [Order.take, List.drop_left]
    rfl

section Ends

variable (w : Wire β ν π) (payload : Nat → π)

/-- A sender that answers the acknowledgement of a message with the next one. -/
def SendsNext (V : SenderView (Config σ ε α)) (M : Machine σ ε α) (pt : Port ε α β) : Prop :=
  ∀ ⦃c p b⦄, V.At c p → ¬ w.Ends payload p → w.reply p b →
    V.At (M.next c (pt.recv b)) (p + 1) ∧
      ∃ b' ∈ M.output pt c (pt.recv b), w.msg payload (p + 1) b'

/-- A receiver that acknowledges the block it waits for. -/
def AcksNext (V : ReceiverView (Config σ ε α) π) (M : Machine σ ε α) (pt : Port ε α β) : Prop :=
  ∀ ⦃c xs x b⦄, V.Has c xs → w.fits x → b = w.block (w.num (xs.length + 1)) x →
    (w.last x ∨ V.Has (M.next c (pt.recv b)) (xs ++ [x])) ∧
      ∃ b' ∈ M.output pt c (pt.recv b), w.reply (xs.length + 1) b'

/-- The sender waits for an acknowledgement, and can send its message again. -/
def SenderLives (V : SenderView (Config σ ε α)) (M : Machine σ ε α) (pt : Port ε α β)
    (c : Config σ ε α) : Prop :=
  ∀ p, V.At c p ∨ V.Over c p ∨ V.Out c → V.At c p ∧ ∃ e, pt.own e = true ∧ V.At (M.next c e) p ∧
    ∃ b ∈ M.output pt c e, w.msg payload p b

/-- The receiver can send its answer again: on its own while it waits for a block, and when it has
the last one, as an answer to that block. -/
def ReceiverLives (V : ReceiverView (Config σ ε α) π) (M : Machine σ ε α) (pt : Port ε α β)
    (c : Config σ ε α) : Prop :=
  ∀ xs, V.Has c xs ∨ V.Gone c xs →
    (V.Has c xs ∧ ∃ e, pt.own e = true ∧ V.Has (M.next c e) xs ∧
      ∃ b ∈ M.output pt c e, w.reply xs.length b) ∨
    ∃ x ∈ xs, w.last x ∧ (w.fits x → ∃ b ∈ M.output pt c (pt.recv (w.block (w.num xs.length) x)),
      w.reply xs.length b)

end Ends

section Recovery

variable {w : Wire β ν π} {payload : Nat → π} {o : Order} {M : Machine σ ε α} {pt : Port ε α β}
  {M' : Machine σ' ε' α'} {pt' : Port ε' α' β} {V : SenderView (Config σ ε α)}
  {V' : ReceiverView (Config σ' ε' α') π} {l : Link σ ε α σ' ε' α' β}

variable (o M pt M' pt') in
theorem next_toReceiver (h : b ∈ l.data) :
    ∃ e l', e.Delivers ∧ (linkSystem o M pt M' pt').next l e = some l' ∧ l'.sender = l.sender ∧
      l'.receiver = M'.next l.receiver (pt'.recv b) ∧
      l'.acks = l.acks ++ M'.output pt' l.receiver (pt'.recv b) := by
  obtain ⟨i, q, ht⟩ := o.take_mem h
  refine ⟨.toReceiver i false, { l with data := q }.receiverEvent M' pt' (pt'.recv b), trivial, ?_,
    rfl, rfl, rfl⟩
  simp only [linkSystem, Link.next, ht, Option.map_some]

variable (o M pt M' pt') in
theorem next_toSender (h : b ∈ l.acks) :
    ∃ e l', e.Delivers ∧ (linkSystem o M pt M' pt').next l e = some l' ∧
      l'.receiver = l.receiver ∧ l'.sender = M.next l.sender (pt.recv b) ∧
      l'.data = l.data ++ M.output pt l.sender (pt.recv b) := by
  obtain ⟨i, q, ht⟩ := o.take_mem h
  refine ⟨.toSender i false, { l with acks := q }.senderEvent M pt (pt.recv b), trivial, ?_,
    rfl, rfl, rfl⟩
  simp only [linkSystem, Link.next, ht, Option.map_some]

/-- The deliveries `es` complete the transfer. -/
def CompletedBy (o : Order) (M : Machine σ ε α) (pt : Port ε α β) (M' : Machine σ' ε' α')
    (pt' : Port ε' α' β) (V : SenderView (Config σ ε α)) (l : Link σ ε α σ' ε' α' β)
    (es : List (LinkEvent ε ε')) : Prop :=
  (∀ e ∈ es, e.Delivers) ∧
    ∃ l' p, (linkSystem o M pt M' pt').exec l es = some l' ∧ V.Over l'.sender p

theorem CompletedBy.cons {l' : Link σ ε α σ' ε' α' β} {e : LinkEvent ε ε'}
    (h : CompletedBy o M pt M' pt' V l' es)
    (hn : (linkSystem o M pt M' pt').next l e = some l') (he : e.Delivers) :
    CompletedBy o M pt M' pt' V l (e :: es) := by
  obtain ⟨hes, l'', p, hx, ho⟩ := h
  refine ⟨List.forall_mem_cons.2 ⟨he, hes⟩, l'', p, ?_, ho⟩
  rw [System.exec_cons hn]
  exact hx

/-- The acknowledgement of the last message is on its way. -/
theorem completed_ack (hM : SendsInTurn w payload V M pt) (hat : V.At l.sender p)
    (he : w.Ends payload p) (hb : ∃ b ∈ l.acks, w.reply p b) :
    ∃ es, CompletedBy o M pt M' pt' V l es ∧ es.length = 1 := by
  obtain ⟨b, hmem, hreply⟩ := hb
  obtain ⟨e, l', hd, hn, -, hs, -⟩ :=
    next_toSender o M pt M' pt' hmem
  have hover := (hM.ended hat he hreply).1
  rw [← hs] at hover
  refine ⟨[e], CompletedBy.cons ⟨nofun, l', p, rfl, hover⟩ hn hd, rfl⟩

/-- The block that the receiver waits for is on its way, and then its acknowledgement. -/
theorem block_delivered (hr : AcksNext w V' M' pt') (hfits : ∀ i, w.fits (payload i))
    (hhas : V'.Has l.receiver (takenUpTo payload k)) (hb : ∃ b ∈ l.data, w.msg payload (k + 1) b) :
    ∃ e l', e.Delivers ∧ (linkSystem o M pt M' pt').next l e = some l' ∧ l'.sender = l.sender ∧
      (w.Ends payload (k + 1) ∨ V'.Has l'.receiver (takenUpTo payload (k + 1))) ∧
      ∃ b ∈ l'.acks, w.reply (k + 1) b := by
  obtain ⟨b, hmem, hmsg⟩ := hb
  have hblock : b = w.block (w.num ((takenUpTo payload k).length + 1)) (payload k) := by
    rw [length_takenUpTo]
    exact hmsg
  obtain ⟨hrest, b', hb', hreply⟩ := hr hhas (hfits k) hblock
  rw [length_takenUpTo] at hreply
  obtain ⟨e, l', hd, hnext, hs, hrecv, hacks⟩ :=
    next_toReceiver o M pt M' pt' hmem
  refine ⟨e, l', hd, hnext, hs, ?_, b', ?_, hreply⟩
  · rw [hrecv, takenUpTo_succ]
    exact hrest
  · rw [hacks]
    exact List.mem_append_right _ hb'

variable (o M' pt') in
theorem ack_delivered (hs : SendsNext w payload V M pt) (hat : V.At l.sender p)
    (he : ¬ w.Ends payload p) (hb : ∃ b ∈ l.acks, w.reply p b) :
    ∃ e l', e.Delivers ∧ (linkSystem o M pt M' pt').next l e = some l' ∧
      l'.receiver = l.receiver ∧ V.At l'.sender (p + 1) ∧
      ∃ b ∈ l'.data, w.msg payload (p + 1) b := by
  obtain ⟨b, hmem, hreply⟩ := hb
  obtain ⟨e, l', hd, hnext, hrecv, hsend, hdata⟩ :=
    next_toSender o M pt M' pt' hmem
  obtain ⟨hat', b', hb', hmsg⟩ := hs hat he hreply
  refine ⟨e, l', hd, hnext, hrecv, ?_, b', ?_, hmsg⟩
  · rw [hsend]
    exact hat'
  · rw [hdata]
    exact List.mem_append_right _ hb'

/-- Deliveries alone complete the transfer, two for each block that is left. -/
theorem completed_block (hM : SendsInTurn w payload V M pt) (hs : SendsNext w payload V M pt)
    (hr : AcksNext w V' M' pt') (hfits : ∀ i, w.fits (payload i)) (n : Nat)
    (hat : V.At l.sender (k + 1)) (hhas : V'.Has l.receiver (takenUpTo payload k))
    (hb : ∃ b ∈ l.data, w.msg payload (k + 1) b) (hn : w.Ends payload (k + 1 + n)) :
    ∃ es, CompletedBy o M pt M' pt' V l es ∧ es.length ≤ 2 * n + 2 := by
  induction n generalizing l k with
  | zero =>
    obtain ⟨e, l', hd, hnext, hsend, -, hack⟩ := block_delivered hr hfits hhas hb
    rw [← hsend] at hat
    obtain ⟨es, hes, hlen⟩ := completed_ack hM hat hn hack
    exact ⟨e :: es, hes.cons hnext hd, Nat.le_of_eq (congrArg Nat.succ hlen)⟩
  | succ n ih =>
    obtain ⟨e, l', hd, hnext, hsend, hrest, hack⟩ := block_delivered hr hfits hhas hb
    rw [← hsend] at hat
    by_cases he : w.Ends payload (k + 1)
    · obtain ⟨es, hes, hlen⟩ := completed_ack hM hat he hack
      refine ⟨e :: es, hes.cons hnext hd, ?_⟩
      rw [List.length_cons, hlen]
      omega
    · obtain ⟨e', l'', hd', hnext', hrecv, hat', hdata⟩ := ack_delivered o M' pt' hs hat he hack
      have hhas' : V'.Has l''.receiver (takenUpTo payload (k + 1)) := by
        rw [hrecv]
        exact hrest.resolve_left he
      have hends : w.Ends payload (k + 1 + 1 + n) := by
        rwa [Nat.add_right_comm (k + 1) 1 n, Nat.add_assoc (k + 1) n 1]
      obtain ⟨es, hes, hlen⟩ := ih hat' hhas' hdata hends
      refine ⟨e :: e' :: es, (hes.cons hnext' hd').cons hnext hd, ?_⟩
      rw [List.length_cons, List.length_cons]
      omega

theorem ends_unique (hmore : ∀ i < p, ¬ w.Ends payload i) (hn : w.Ends payload n) : p ≤ n := by
  by_contra hlt
  exact hmore n (Nat.lt_of_not_le hlt) hn

/-- No run gets stuck: while both ends live, one message that is sent again, by the end whose last
message may be lost, and deliveries from then on complete the transfer. -/
theorem InStep.recovers (h : InStep V V' w payload o l p k) (hM : SendsInTurn w payload V M pt)
    (hM' : TakesInTurn w V' M' pt') (hs : SendsNext w payload V M pt) (hr : AcksNext w V' M' pt')
    (hfits : ∀ i, w.fits (payload i)) (hsl : SenderLives w payload V M pt l.sender)
    (hrl : ReceiverLives w V' M' pt' l.receiver) (hn : w.Ends payload n) :
    ∃ e l' es, (linkSystem o M pt M' pt').next l e = some l' ∧
      CompletedBy o M pt M' pt' V l' es ∧ es.length + 2 * p ≤ 2 * n + 2 := by
  have hsender : V.At l.sender p ∨ V.Over l.sender p ∨ V.Out l.sender := by
    rcases h.sender with ha | ⟨ho, -⟩ | ho
    · exact .inl ha
    · exact .inr (.inl ho)
    · exact .inr (.inr ho)
  obtain ⟨hat, e, hown, hat', b, hb, hmsg⟩ := hsl p hsender
  have hnext : (linkSystem o M pt M' pt').next l (.sender e) = some (l.senderEvent M pt e) := by
    simp only [linkSystem, Link.next, if_pos hown]
  have hdata : ∃ b ∈ (l.senderEvent M pt e).data, w.msg payload p b :=
    ⟨b, List.mem_append_right _ hb, hmsg⟩
  have hpn := ends_unique h.more hn
  rcases hrl _ h.receiver with ⟨hhas, e', hown', hhas', b', hb', hreply⟩ | ⟨x, hx, hlast, hagain⟩
  · rcases h.near with rfl | rfl
    -- The receiver has all that was sent: its answer may be lost.
    · have hnext' : (linkSystem o M pt M' pt').next l (.receiver e') =
          some (l.receiverEvent M' pt' e') := by
        simp only [linkSystem, Link.next, if_pos hown']
      rw [length_takenUpTo] at hreply
      have hack : ∃ b ∈ (l.receiverEvent M' pt' e').acks, w.reply k b :=
        ⟨b', List.mem_append_right _ hb', hreply⟩
      have hne : ¬ w.Ends payload k := receiving hM' hhas k (Nat.lt_succ_self k)
      have hlt : k < n := by
        apply Nat.lt_of_le_of_ne hpn
        rintro rfl
        exact hne hn
      obtain ⟨e'', l'', hd, hnext'', hrecv, hat'', hdata''⟩ :=
        ack_delivered o M' pt' (l := l.receiverEvent M' pt' e') hs hat hne hack
      have hhas'' : V'.Has l''.receiver (takenUpTo payload k) := by
        rw [hrecv]
        exact hhas'
      have hends : w.Ends payload (k + 1 + (n - (k + 1))) := by
        rwa [Nat.add_sub_cancel' hlt]
      obtain ⟨es, hes, hlen⟩ := completed_block hM hs hr hfits _ hat'' hhas'' hdata'' hends
      refine ⟨_, _, e'' :: es, hnext', hes.cons hnext'' hd, ?_⟩
      rw [List.length_cons]
      omega
    · have hends : w.Ends payload (k + 1 + (n - (k + 1))) := by
        rwa [Nat.add_sub_cancel' hpn]
      obtain ⟨es, hes, hlen⟩ :=
        completed_block (l := l.senderEvent M pt e) hM hs hr hfits _ hat' hhas hdata hends
      refine ⟨_, _, es, hnext, hes, ?_⟩
      omega
  -- The receiver has the last block, and answers only when that block comes again.
  · obtain ⟨i, hi, rfl⟩ := List.mem_map.1 hx
    have hik : i + 1 ≤ k := List.mem_range.1 hi
    have hnear := h.near
    have hp : ¬ i + 1 < p := fun hlt => h.more (i + 1) hlt hlast
    have hk : k = i + 1 := by omega
    have hpk : p = i + 1 := by omega
    subst hk hpk
    rw [length_takenUpTo] at hagain
    obtain ⟨b', hb', hreply⟩ := hagain (hfits i)
    obtain ⟨e', l'', hd, hnext'', hsend, -, hacks⟩ :=
      next_toReceiver o M pt M' pt' (l := l.senderEvent M pt e) (List.mem_append_right _ hb)
    have hat'' : V.At l''.sender (i + 1) := by
      rw [hsend]
      exact hat'
    have hack : ∃ b ∈ l''.acks, w.reply (i + 1) b := by
      rw [hacks, hmsg]
      exact ⟨b', List.mem_append_right _ hb', hreply⟩
    obtain ⟨es, hes, hlen⟩ := completed_ack hM hat'' hlast hack
    refine ⟨_, _, e' :: es, hnext, hes.cons hnext'' hd, ?_⟩
    rw [List.length_cons]
    omega

end Recovery

end Lib
