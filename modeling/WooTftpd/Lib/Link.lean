import WooTftpd.Lib.Machine

namespace Lib
set_option autoImplicit true

/-- How a channel hands over the messages that were put into it. Messages get lost and come more
than once in both; in the first one they also come in any order. -/
inductive Order where
  | any
  | kept

/-- Take message `i` of a channel, the oldest being 0. Where the order is kept, the messages before
it are lost, and `again` says that it will come once more. -/
def Order.take : Order → List β → Nat → Bool → Option (β × List β)
  | .any, q, i, _ => q[i]?.map fun b => (b, q)
  | .kept, q, i, again =>
    match q.drop i with
    | [] => none
    | b :: q => some (b, if again then b :: q else q)

/-- How a machine is attached to a channel: the actions that send, the events that are messages,
and the events that come from elsewhere. -/
structure Port (ε α β : Type) where
  sent? : α → Option β
  recv : β → ε
  own : ε → Bool

def Port.sends (pt : Port ε α β) (as : List α) : List β := as.filterMap pt.sent?

/-- What a machine sends when an event comes. -/
def Machine.output (M : Machine σ ε α) (pt : Port ε α β) (c : Config σ ε α) (e : ε) : List β :=
  pt.sends (M.step c.state e).2

/-- Two machines with a channel from the first to the second and one back. -/
structure Link (σ ε α σ' ε' α' β : Type) where
  sender : Config σ ε α
  receiver : Config σ' ε' α'
  data : List β
  acks : List β

inductive LinkEvent (ε ε' : Type) where
  | sender (e : ε)
  | receiver (e : ε')
  | toReceiver (i : Nat) (again : Bool)
  | toSender (i : Nat) (again : Bool)

section System

variable (o : Order) (M : Machine σ ε α) (pt : Port ε α β) (M' : Machine σ' ε' α')
  (pt' : Port ε' α' β)

namespace Link

variable (l : Link σ ε α σ' ε' α' β)

def init : Link σ ε α σ' ε' α' β := ⟨M.init, M'.init, pt.sends M.start.2, pt'.sends M'.start.2⟩

def senderEvent (e : ε) : Link σ ε α σ' ε' α' β :=
  { l with sender := M.next l.sender e, data := l.data ++ M.output pt l.sender e }

def receiverEvent (e : ε') : Link σ ε α σ' ε' α' β :=
  { l with receiver := M'.next l.receiver e, acks := l.acks ++ M'.output pt' l.receiver e }

def next : LinkEvent ε ε' → Option (Link σ ε α σ' ε' α' β)
  | .sender e => if pt.own e then some (l.senderEvent M pt e) else none
  | .receiver e => if pt'.own e then some (l.receiverEvent M' pt' e) else none
  | .toReceiver i again =>
    (o.take l.data i again).map fun r => { l with data := r.2 }.receiverEvent M' pt' (pt'.recv r.1)
  | .toSender i again =>
    (o.take l.acks i again).map fun r => { l with acks := r.2 }.senderEvent M pt (pt.recv r.1)

end Link

def linkSystem : System (Link σ ε α σ' ε' α' β) (LinkEvent ε ε') :=
  ⟨fun l => l = Link.init M pt M' pt', fun l => l.next o M pt M' pt'⟩

end System

/-- The messages of a stop-and-wait protocol. Message 0 is a greeting, message `p + 1` is block
`p`, under the number of its place. `reply k` is what the receiver of `k` blocks answers, which
acknowledges message `k`, and `refusal` is what either side may send when it gives up. -/
structure Wire (β ν π : Type) where
  num : Nat → ν
  greeting : β → Prop
  block : ν → π → β
  reply : Nat → β → Prop
  refusal : β → Prop
  fits : π → Prop
  /-- A block after which there is none. -/
  last : π → Prop

namespace Wire

variable (w : Wire β ν π) (payload : Nat → π)

def msg : Nat → β → Prop
  | 0, b => w.greeting b
  | p + 1, b => b = w.block (w.num (p + 1)) (payload p)

def Ends : Nat → Prop
  | 0 => False
  | p + 1 => w.last (payload p)

def Says (f : β → Prop) (bs : List β) : Prop := ∀ b ∈ bs, f b ∨ w.refusal b

/-- A message that may still come when the one before message `q` is due: it must not be taken for
message `q`. -/
def Stale : Order → Nat → Nat → Prop
  | .any, j, q => j < q
  | .kept, j, q => j + 1 = q

def Fresh (o : Order) : Prop :=
  ∀ j q, Stale o j q → (∀ i < q, ¬ w.Ends payload i) → w.num j ≠ w.num q

/-- The messages of a channel on which `hi` was sent last and before it only `lo` is left, or
anything before `lo` too where they come in any order. -/
def Carries (o : Order) (f : Nat → β → Prop) (lo hi : Nat) (q : List β) : Prop :=
  match o with
  | .any => ∀ b ∈ q, w.refusal b ∨ ∃ j ≤ hi, f j b
  | .kept => ∃ u v, q = u ++ v ∧ w.Says (f lo) u ∧ w.Says (f hi) v

end Wire

section Channel

variable {w : Wire β ν π} {f : Nat → β → Prop} {g : β → Prop} {o : Order}

theorem Wire.Says.nil (w : Wire β ν π) (g : β → Prop) : w.Says g [] := nofun

theorem Wire.Says.append (h : w.Says g q) (h' : w.Says g q') : w.Says g (q ++ q') := by
  intro b hb
  rcases List.mem_append.1 hb with hb | hb
  · exact h b hb
  · exact h' b hb

theorem Wire.Says.mono (h : w.Says g q) (hq : q' ⊆ q) : w.Says g q' := fun b hb => h b (hq hb)

/-- Which messages may come before message `hi`, where `lo` was the one before it. -/
def Wire.Old : Order → Nat → Nat → Nat → Prop
  | .any, _, hi, j => j < hi
  | .kept, lo, _, j => j = lo

namespace Wire.Carries

theorem nil (w : Wire β ν π) (o : Order) (f : Nat → β → Prop) (lo hi : Nat) :
    w.Carries o f lo hi [] := by
  cases o with
  | any => exact nofun
  | kept => exact ⟨[], [], rfl, .nil w _, .nil w _⟩

theorem append (h : w.Carries o f lo hi q) (hs : w.Says (f hi) bs) :
    w.Carries o f lo hi (q ++ bs) := by
  cases o with
  | any =>
    intro b hb
    rcases List.mem_append.1 hb with hb | hb
    · exact h b hb
    · rcases hs b hb with hf | hr
      · exact .inr ⟨hi, Nat.le_refl hi, hf⟩
      · exact .inl hr
  | kept =>
    obtain ⟨u, v, rfl, hu, hv⟩ := h
    exact ⟨u, v ++ bs, List.append_assoc u v bs, hu, hv.append hs⟩

/-- The next message is due: the one before it becomes the old one. -/
theorem advance (h : w.Carries o f hi hi q) : w.Carries o f hi (hi + 1) q := by
  cases o with
  | any =>
    intro b hb
    rcases h b hb with hr | ⟨j, hj, hf⟩
    · exact .inl hr
    · exact .inr ⟨j, Nat.le_succ_of_le hj, hf⟩
  | kept =>
    obtain ⟨u, v, rfl, hu, hv⟩ := h
    exact ⟨u ++ v, [], (List.append_nil _).symm, hu.append hv, .nil w _⟩

/-- No older message comes any more. -/
theorem latest (h : w.Carries o f hi hi q) (lo : Nat) : w.Carries o f lo hi q := by
  cases o with
  | any => exact h
  | kept =>
    obtain ⟨u, v, rfl, hu, hv⟩ := h
    exact ⟨[], u ++ v, rfl, .nil w _, hu.append hv⟩

/-- Where the order is kept, all messages before the one that is handed over are lost. -/
theorem take_kept (h : Order.take .kept q i again = some (b, q')) :
    ∃ pre rest, q = pre ++ b :: rest ∧ (q' = b :: rest ∨ q' = rest) := by
  simp only [Order.take] at h
  split at h
  · cases h
  rename_i b' rest hd
  cases h
  refine ⟨q.take i, rest, ?_, ?_⟩
  · rw [← hd]
    exact (List.take_append_drop i q).symm
  · split
    · exact .inl rfl
    · exact .inr rfl

/-- A message that is handed over is the latest one, after which no older one comes where the
order is kept, or an older one, or a refusal. -/
theorem take (h : w.Carries o f lo hi q) (ht : o.take q i again = some (b, q')) :
    (f hi b ∧ w.Carries o f hi hi q') ∨ (∃ j, f j b ∧ Old o lo hi j ∧ w.Carries o f lo hi q') ∨
      (w.refusal b ∧ w.Carries o f lo hi q') := by
  cases o with
  | any =>
    obtain ⟨b', hb, he⟩ := Option.map_eq_some_iff.1 ht
    cases he
    rcases h b (List.mem_of_getElem? hb) with hr | ⟨j, hj, hf⟩
    · exact .inr (.inr ⟨hr, h⟩)
    · rcases Nat.lt_or_eq_of_le hj with hlt | rfl
      · exact .inr (.inl ⟨j, hf, hlt, h⟩)
      · exact .inl ⟨hf, h⟩
  | kept =>
    obtain ⟨u, v, rfl, hu, hv⟩ := h
    obtain ⟨pre, rest, hq, hq'⟩ := take_kept ht
    have hlatest (hsub : b :: rest ⊆ v) : (f hi b ∧ w.Carries .kept f hi hi q') ∨
        (w.refusal b ∧ w.Carries .kept f lo hi q') := by
      have hsays : w.Says (f hi) q' := by
        rcases hq' with rfl | rfl
        · exact hv.mono hsub
        · exact hv.mono (List.subset_of_cons_subset hsub)
      rcases hv b (hsub List.mem_cons_self) with hb | hb
      · exact .inl ⟨hb, [], q', rfl, .nil w _, hsays⟩
      · exact .inr ⟨hb, [], q', rfl, .nil w _, hsays⟩
    rcases List.append_eq_append_iff.1 hq with ⟨c, rfl, hv'⟩ | ⟨c, rfl, hc⟩
    · have hsub : b :: rest ⊆ v := by
        rw [hv']
        exact List.subset_append_right c _
      rcases hlatest hsub with hl | hr
      · exact .inl hl
      · exact .inr (.inr hr)
    · cases c with
      | nil =>
        have hsub : b :: rest ⊆ v := by
          rw [hc]
          exact List.Subset.refl v
        rcases hlatest hsub with hl | hr
        · exact .inl hl
        · exact .inr (.inr hr)
      | cons d c =>
        cases hc
        have hold : w.Says (f lo) (b :: c) := hu.mono (List.subset_append_right pre _)
        have hcarries : w.Carries .kept f lo hi q' := by
          rcases hq' with rfl | rfl
          · exact ⟨b :: c, v, rfl, hold, hv⟩
          · exact ⟨c, v, rfl, hold.mono (List.subset_cons_self b c), hv⟩
        rcases hold b List.mem_cons_self with hb | hb
        · exact .inr (.inl ⟨lo, hb, rfl, hcarries⟩)
        · exact .inr (.inr ⟨hb, hcarries⟩)

end Wire.Carries

end Channel

/-- What the configurations of a sender mean: message `p` was sent and its acknowledgement is
awaited, or has come and was the last one, or the sender has given up. -/
structure SenderView (κ : Type) where
  At : κ → Nat → Prop
  Over : κ → Nat → Prop
  Out : κ → Prop

/-- The receiver waits for the block behind those that it took, or takes no more. -/
structure ReceiverView (κ π : Type) where
  Has : κ → List π → Prop
  Gone : κ → List π → Prop

section Ends

variable (w : Wire β ν π) (payload : Nat → π)

def SenderView.Quits (V : SenderView κ) (c : κ) (bs : List β) : Prop :=
  V.Out c ∧ w.Says (fun _ => False) bs

def SenderView.Waits (V : SenderView κ) (p : Nat) (c : κ) (bs : List β) : Prop :=
  (V.At c p ∧ w.Says (w.msg payload p) bs) ∨ V.Quits w c bs

/-- What makes a machine the sender of a stop-and-wait protocol. -/
structure SendsInTurn (V : SenderView (Config σ ε α)) (M : Machine σ ε α) (pt : Port ε α β) :
    Prop where
  apart : ∀ {c p q}, V.Over c p → ¬ V.At c q ∧ ¬ V.Out c
  start : ∃ p ≤ 1, V.Waits w payload p M.init (pt.sends M.start.2)
  own : ∀ {c p e}, V.At c p → pt.own e = true →
    V.Waits w payload p (M.next c e) (M.output pt c e)
  old : ∀ {c p j b}, V.At c p → j < p → w.num j ≠ w.num p → w.reply j b →
    V.Waits w payload p (M.next c (pt.recv b)) (M.output pt c (pt.recv b))
  acked : ∀ {c p b}, V.At c p → ¬ w.Ends payload p → w.reply p b →
    V.Waits w payload (p + 1) (M.next c (pt.recv b)) (M.output pt c (pt.recv b))
  ended : ∀ {c p b}, V.At c p → w.Ends payload p → w.reply p b →
    V.Over (M.next c (pt.recv b)) p ∧ w.Says (fun _ => False) (M.output pt c (pt.recv b))
  refused : ∀ {c p b}, V.At c p → w.refusal b →
    V.Waits w payload p (M.next c (pt.recv b)) (M.output pt c (pt.recv b))
  finished : ∀ {c p e}, V.Over c p → V.Over (M.next c e) p ∧ w.Says (fun _ => False) (M.output pt c e)
  out : ∀ {c e}, V.Out c → V.Quits w (M.next c e) (M.output pt c e)

def ReceiverView.Answers (V : ReceiverView κ π) (xs : List π) (c : κ) (bs : List β) : Prop :=
  (V.Has c xs ∨ V.Gone c xs) ∧ w.Says (w.reply xs.length) bs

/-- What makes a machine the receiver of a stop-and-wait protocol. -/
structure TakesInTurn (V : ReceiverView (Config σ ε α) π) (M : Machine σ ε α)
    (pt : Port ε α β) : Prop where
  start : V.Answers w [] M.init (pt.sends M.start.2)
  goesOn : ∀ {c xs}, V.Has c xs → ∀ x ∈ xs, ¬ w.last x
  own : ∀ {c xs e}, V.Has c xs → pt.own e = true →
    V.Answers w xs (M.next c e) (M.output pt c e)
  greeted : ∀ {c xs b}, V.Has c xs → w.greeting b →
    V.Answers w xs (M.next c (pt.recv b)) (M.output pt c (pt.recv b))
  other : ∀ {c xs x n}, V.Has c xs → w.fits x → n ≠ w.num (xs.length + 1) →
    V.Answers w xs (M.next c (pt.recv (w.block n x))) (M.output pt c (pt.recv (w.block n x)))
  next : ∀ {c xs x b}, V.Has c xs → w.fits x → b = w.block (w.num (xs.length + 1)) x →
    V.Answers w (xs ++ [x]) (M.next c (pt.recv b)) (M.output pt c (pt.recv b))
  refused : ∀ {c xs b}, V.Has c xs → w.refusal b →
    V.Answers w xs (M.next c (pt.recv b)) (M.output pt c (pt.recv b))
  gone : ∀ {c xs e}, V.Gone c xs →
    V.Gone (M.next c e) xs ∧ w.Says (w.reply xs.length) (M.output pt c e)

end Ends

section Safety

variable {w : Wire β ν π} {payload : Nat → π} {o : Order} {M : Machine σ ε α} {pt : Port ε α β}
  {M' : Machine σ' ε' α'} {pt' : Port ε' α' β} {V : SenderView (Config σ ε α)}
  {V' : ReceiverView (Config σ' ε' α') π}
  {l : Link σ ε α σ' ε' α' β}

/-- What the ends of a link have come to, they have come to by themselves. -/
theorem runs_of_reachable (h : (linkSystem o M pt M' pt').Reachable l) :
    (∃ es, l.sender = M.run es) ∧ ∃ es, l.receiver = M'.run es := by
  apply h.invariant
  · rintro _ rfl
    exact ⟨⟨[], rfl⟩, [], rfl⟩
  · rintro l e l' ⟨⟨es, hs⟩, es', hr⟩ - hn
    have hsend (e : ε) : ∃ es, M.next l.sender e = M.run es := by
      refine ⟨es ++ [e], ?_⟩
      rw [M.run_concat, hs]
    have hrecv (e : ε') : ∃ es, M'.next l.receiver e = M'.run es := by
      refine ⟨es' ++ [e], ?_⟩
      rw [M'.run_concat, hr]
    cases e with
    | sender e =>
      obtain ⟨-, hl⟩ := Option.ite_none_right_eq_some.1 hn
      cases hl
      exact ⟨hsend e, es', hr⟩
    | receiver e =>
      obtain ⟨-, hl⟩ := Option.ite_none_right_eq_some.1 hn
      cases hl
      exact ⟨⟨es, hs⟩, hrecv e⟩
    | toReceiver i again =>
      obtain ⟨⟨b, q⟩, -, rfl⟩ := Option.map_eq_some_iff.1 hn
      exact ⟨⟨es, hs⟩, hrecv (pt'.recv b)⟩
    | toSender i again =>
      obtain ⟨⟨b, q⟩, -, rfl⟩ := Option.map_eq_some_iff.1 hn
      exact ⟨hsend (pt.recv b), es', hr⟩

def takenUpTo (payload : Nat → π) (k : Nat) : List π := (List.range k).map payload

@[simp] theorem length_takenUpTo (payload : Nat → π) (k : Nat) : (takenUpTo payload k).length = k := by
  rw [takenUpTo, List.length_map, List.length_range]

theorem takenUpTo_succ (payload : Nat → π) (k : Nat) :
    takenUpTo payload (k + 1) = takenUpTo payload k ++ [payload k] := by
  rw [takenUpTo, List.range_succ, List.map_append]
  rfl

/-- The sender waits for the acknowledgement of message `p`, or has done so last, and the receiver
has taken `k` blocks: it is at most one message behind. -/
structure InStep (V : SenderView (Config σ ε α)) (V' : ReceiverView (Config σ' ε' α') π)
    (w : Wire β ν π) (payload : Nat → π) (o : Order) (l : Link σ ε α σ' ε' α' β) (p k : Nat) :
    Prop where
  sender : V.At l.sender p ∨ (V.Over l.sender p ∧ k = p ∧ w.Ends payload p) ∨ V.Out l.sender
  receiver : V'.Has l.receiver (takenUpTo payload k) ∨ V'.Gone l.receiver (takenUpTo payload k)
  near : k = p ∨ k + 1 = p
  more : ∀ i < p, ¬ w.Ends payload i
  data : w.Carries o (w.msg payload) k p l.data
  acks : w.Carries o w.reply (p - 1) k l.acks

theorem Wire.Says.weaken (h : w.Says (fun _ => False) q) (f : β → Prop) : w.Says f q := by
  intro b hb
  rcases h b hb with hf | hr
  · exact hf.elim
  · exact .inr hr

namespace InStep

theorem finished (h : InStep V V' w payload o l p k) (hM : SendsInTurn w payload V M pt)
    (ho : V.Over l.sender q) : k = p ∧ w.Ends payload p := by
  obtain ⟨hat, hout⟩ := hM.apart ho
  rcases h.sender with ha | ⟨_, hk, he⟩ | hs
  · exact absurd ha hat
  · exact ⟨hk, he⟩
  · exact absurd hs hout

theorem waits (h : InStep V V' w payload o l p k)
    (hw : V.Waits w payload p (M.next l.sender e) (M.output pt l.sender e)) :
    InStep V V' w payload o (l.senderEvent M pt e) p k := by
  rcases hw with ⟨ha, hs⟩ | ⟨ho, hs⟩
  · exact ⟨.inl ha, h.receiver, h.near, h.more, h.data.append hs, h.acks⟩
  · exact ⟨.inr (.inr ho), h.receiver, h.near, h.more, h.data.append (hs.weaken _), h.acks⟩

/-- A sender that has stopped stays so. -/
theorem stopped (h : InStep V V' w payload o l p k) (hM : SendsInTurn w payload V M pt)
    (hs : (V.Over l.sender p ∧ k = p ∧ w.Ends payload p) ∨ V.Out l.sender) (e : ε) :
    InStep V V' w payload o (l.senderEvent M pt e) p k := by
  rcases hs with ⟨ho, hk, he⟩ | ho
  · obtain ⟨ho', hq⟩ := hM.finished (e := e) ho
    exact ⟨.inr (.inl ⟨ho', hk, he⟩), h.receiver, h.near, h.more, h.data.append (hq.weaken _),
      h.acks⟩
  · exact h.waits (.inr (hM.out ho))

theorem answers (h : InStep V V' w payload o l p k)
    (ha : V'.Answers w (takenUpTo payload k) (M'.next l.receiver e) (M'.output pt' l.receiver e)) :
    InStep V V' w payload o (l.receiverEvent M' pt' e) p k := by
  obtain ⟨hr, hs⟩ := ha
  rw [length_takenUpTo] at hs
  exact ⟨h.sender, hr, h.near, h.more, h.data, h.acks.append hs⟩

theorem gone (h : InStep V V' w payload o l p k) (hM' : TakesInTurn w V' M' pt')
    (hg : V'.Gone l.receiver (takenUpTo payload k)) (e : ε') :
    InStep V V' w payload o (l.receiverEvent M' pt' e) p k := by
  obtain ⟨hg', hs⟩ := hM'.gone (e := e) hg
  exact h.answers ⟨.inr hg', hs⟩

/-- While the receiver waits, none of the blocks that it took was the last. -/
theorem receiving (h : TakesInTurn w V' M' pt') (hs : V'.Has c (takenUpTo payload k)) :
    ∀ i < k + 1, ¬ w.Ends payload i := by
  intro i hi
  cases i with
  | zero => exact not_false
  | succ i =>
    apply h.goesOn hs
    exact List.mem_map_of_mem (List.mem_range.2 (Nat.lt_of_succ_lt_succ hi))

/-- A message that was sent before block `k` changes nothing for the receiver of `k` blocks. -/
theorem oldData (h : InStep V V' w payload o l p k) (hM' : TakesInTurn w V' M' pt')
    (hfits : ∀ i, w.fits (payload i)) (hfresh : w.Fresh payload o)
    (hb : w.msg payload j b) (hj : Wire.Stale o j (k + 1)) :
    InStep V V' w payload o (l.receiverEvent M' pt' (pt'.recv b)) p k := by
  rcases h.receiver with hs | hs
  · apply h.answers
    cases j with
    | zero => exact hM'.greeted hs hb
    | succ j =>
      rw [hb]
      apply hM'.other hs (hfits j)
      rw [length_takenUpTo]
      exact hfresh _ _ hj (receiving hM' hs)
  · exact h.gone hM' hs _

theorem stale_of_old (hold : Wire.Old o lo hi j) (hlo : lo + 1 = q) (hhi : hi ≤ q) :
    Wire.Stale o j q := by
  cases o with
  | any => exact Nat.lt_of_lt_of_le hold hhi
  | kept =>
    cases hold
    exact hlo

theorem stale_pred (hq : j + 1 = q) (o : Order) : Wire.Stale o j q := by
  cases o with
  | any =>
    rw [← hq]
    exact Nat.lt_succ_self j
  | kept => exact hq

theorem toReceiver (h : InStep V V' w payload o l p k) (hM' : TakesInTurn w V' M' pt')
    (hfits : ∀ i, w.fits (payload i)) (hfresh : w.Fresh payload o)
    (ht : o.take l.data i again = some (b, q)) :
    ∃ k, InStep V V' w payload o
      ({ l with data := q }.receiverEvent M' pt' (pt'.recv b)) p k := by
  have hset (hq : w.Carries o (w.msg payload) k p q) :
      InStep V V' w payload o { l with data := q } p k :=
    ⟨h.sender, h.receiver, h.near, h.more, hq, h.acks⟩
  rcases h.data.take ht with ⟨hb, hq⟩ | ⟨j, hb, hj, hq⟩ | ⟨hb, hq⟩
  · rcases h.near with rfl | rfl
    · exact ⟨k, (hset hq).oldData hM' hfits hfresh hb (stale_pred rfl o)⟩
    -- The block that the receiver waits for.
    · rcases h.receiver with hs | hs
      · refine ⟨k + 1, ?_⟩
        have hbk : b = w.block (w.num ((takenUpTo payload k).length + 1)) (payload k) := by
          rw [length_takenUpTo]
          exact hb
        obtain ⟨hr, hsays⟩ := hM'.next hs (hfits k) hbk
        rw [← takenUpTo_succ] at hr hsays
        rw [length_takenUpTo] at hsays
        refine ⟨?_, hr, .inl rfl, h.more, hq, h.acks.advance.append hsays⟩
        rcases h.sender with ha | ⟨_, hk, _⟩ | ho
        · exact .inl ha
        · omega
        · exact .inr (.inr ho)
      · exact ⟨k, (hset (hq.latest k)).gone hM' hs _⟩
  · refine ⟨k, (hset hq).oldData hM' hfits hfresh hb ?_⟩
    rcases h.near with rfl | rfl
    · exact stale_of_old hj rfl (Nat.le_succ k)
    · exact stale_of_old hj rfl (Nat.le_refl _)
  · rcases h.receiver with hs | hs
    · exact ⟨k, (hset hq).answers (hM'.refused hs hb)⟩
    · exact ⟨k, (hset hq).gone hM' hs _⟩

/-- An acknowledgement from before message `p` leaves the sender waiting. -/
theorem oldAck (h : InStep V V' w payload o l p k) (hM : SendsInTurn w payload V M pt)
    (hfresh : w.Fresh payload o) (hb : w.reply j b) (hj : Wire.Stale o j p) :
    InStep V V' w payload o (l.senderEvent M pt (pt.recv b)) p k := by
  rcases h.sender with ha | hs
  · have hlt : j < p := by
      cases o with
      | any => exact hj
      | kept =>
        rw [← hj]
        exact Nat.lt_succ_self j
    exact h.waits (hM.old ha hlt (hfresh j p hj h.more) hb)
  · exact h.stopped hM hs _

/-- The acknowledgement of message `p` comes while the receiver has taken no more than `p` blocks:
the next message is sent, or that one was the last. -/
theorem acked (h : InStep V V' w payload o l p p) (hM : SendsInTurn w payload V M pt)
    (hb : w.reply p b) (hq : w.Carries o w.reply p p l.acks) :
    ∃ p', InStep V V' w payload o (l.senderEvent M pt (pt.recv b)) p' p := by
  rcases h.sender with ha | hs
  · by_cases he : w.Ends payload p
    · obtain ⟨ho, hs⟩ := hM.ended ha he hb
      exact ⟨p, .inr (.inl ⟨ho, rfl, he⟩), h.receiver, .inl rfl, h.more,
        h.data.append (hs.weaken _), h.acks⟩
    · have hmore : ∀ i < p + 1, ¬ w.Ends payload i := by
        intro i hi
        rcases Nat.lt_succ_iff_lt_or_eq.1 hi with hlt | rfl
        · exact h.more i hlt
        · exact he
      rcases hM.acked ha he hb with ⟨ha', hs⟩ | ⟨ho, hs⟩
      · exact ⟨p + 1, .inl ha', h.receiver, .inr rfl, hmore, h.data.advance.append hs, hq⟩
      · exact ⟨p + 1, .inr (.inr ho), h.receiver, .inr rfl, hmore,
          h.data.advance.append (hs.weaken _), hq⟩
  · exact ⟨p, h.stopped hM hs _⟩

theorem toSender (h : InStep V V' w payload o l p k) (hM : SendsInTurn w payload V M pt)
    (hfresh : w.Fresh payload o) (ht : o.take l.acks i again = some (b, q)) :
    ∃ p, InStep V V' w payload o ({ l with acks := q }.senderEvent M pt (pt.recv b)) p k := by
  have hset (hq : w.Carries o w.reply (p - 1) k q) :
      InStep V V' w payload o { l with acks := q } p k :=
    ⟨h.sender, h.receiver, h.near, h.more, h.data, hq⟩
  rcases h.acks.take ht with ⟨hb, hq⟩ | ⟨j, hb, hj, hq⟩ | ⟨hb, hq⟩
  · rcases h.near with rfl | rfl
    · exact (hset (hq.latest _)).acked hM hb hq
    · exact ⟨k + 1, (hset hq).oldAck hM hfresh hb (stale_pred rfl o)⟩
  · rcases Nat.eq_zero_or_pos p with rfl | hp
    · have hk : k = 0 := by
        have hnear := h.near
        omega
      subst hk
      cases o with
      | any => exact absurd hj (Nat.not_lt_zero j)
      | kept =>
        cases hj
        exact (hset hq).acked hM hb hq
    · refine ⟨p, (hset hq).oldAck hM hfresh hb (stale_of_old hj (Nat.sub_add_cancel hp) ?_)⟩
      have hnear := h.near
      omega
  · rcases h.sender with hs | hs
    · exact ⟨p, (hset hq).waits (hM.refused hs hb)⟩
    · exact ⟨p, (hset hq).stopped hM hs _⟩

theorem init (hM : SendsInTurn w payload V M pt) (hM' : TakesInTurn w V' M' pt') :
    ∃ p, InStep V V' w payload o (Link.init M pt M' pt') p 0 := by
  obtain ⟨p, hp, hw⟩ := hM.start
  obtain ⟨hr, hs⟩ := hM'.start
  have hmore : ∀ i < p, ¬ w.Ends payload i := by
    intro i hi
    have hz : i = 0 := by omega
    rw [hz]
    exact not_false
  have hacks : w.Carries o w.reply (p - 1) 0 (pt'.sends M'.start.2) :=
    (Wire.Carries.nil w o w.reply (p - 1) 0).append hs
  have hnear : 0 = p ∨ 0 + 1 = p := by omega
  have hnil := Wire.Carries.nil w o (w.msg payload) 0 p
  refine ⟨p, ?_⟩
  rcases hw with ⟨ha, hd⟩ | ⟨ho, hd⟩
  · exact ⟨.inl ha, hr, hnear, hmore, hnil.append hd, hacks⟩
  · exact ⟨.inr (.inr ho), hr, hnear, hmore, hnil.append (hd.weaken _), hacks⟩

end InStep

/-- Wherever the run of a link is, its ends are in step. -/
theorem inStep_of_reachable (hM : SendsInTurn w payload V M pt) (hM' : TakesInTurn w V' M' pt')
    (hfits : ∀ i, w.fits (payload i)) (hfresh : w.Fresh payload o)
    (h : (linkSystem o M pt M' pt').Reachable l) : ∃ p k, InStep V V' w payload o l p k := by
  apply h.invariant
  · rintro _ rfl
    obtain ⟨p, hp⟩ := InStep.init hM hM'
    exact ⟨p, 0, hp⟩
  · rintro l e l' ⟨p, k, hin⟩ - hn
    cases e with
    | sender e =>
      obtain ⟨he, hl⟩ := Option.ite_none_right_eq_some.1 hn
      cases hl
      rcases hin.sender with hs | hs
      · exact ⟨p, k, hin.waits (hM.own hs he)⟩
      · exact ⟨p, k, hin.stopped hM hs e⟩
    | receiver e =>
      obtain ⟨he, hl⟩ := Option.ite_none_right_eq_some.1 hn
      cases hl
      rcases hin.receiver with hs | hs
      · exact ⟨p, k, hin.answers (hM'.own hs he)⟩
      · exact ⟨p, k, hin.gone hM' hs e⟩
    | toReceiver i again =>
      obtain ⟨⟨b, q⟩, ht, rfl⟩ := Option.map_eq_some_iff.1 hn
      obtain ⟨k, hk⟩ := hin.toReceiver hM' hfits hfresh ht
      exact ⟨p, k, hk⟩
    | toSender i again =>
      obtain ⟨⟨b, q⟩, ht, rfl⟩ := Option.map_eq_some_iff.1 hn
      obtain ⟨p, hp⟩ := hin.toSender hM hfresh ht
      exact ⟨p, k, hp⟩

end Safety

end Lib
