import WooTftpd.Lib.Link

namespace Lib
set_option autoImplicit true

/-- Every step of the first machine is a step of the second one: related states stay related, and
both send the same. -/
structure Simulates (R : σ → τ → Prop) (M : Machine σ ε α) (pt : Port ε α β) (N : Machine τ ε γ)
    (qt : Port ε γ β) : Prop where
  start : R M.start.1 N.start.1
  sends : pt.sends M.start.2 = qt.sends N.start.2
  step : ∀ {s u}, R s u → ∀ e, R (M.step s e).1 (N.step u e).1
  output : ∀ {s u}, R s u → ∀ e, pt.sends (M.step s e).2 = qt.sends (N.step u e).2
  recv : pt.recv = qt.recv
  own : pt.own = qt.own

namespace Link

variable {R : σ → τ → Prop} {M : Machine σ ε α} {pt : Port ε α β} {N : Machine τ ε γ}
  {qt : Port ε γ β}

def withSender (l : Link σ ε α σ' ε' α' β) (c : Config τ ε γ) : Link τ ε γ σ' ε' α' β :=
  ⟨c, l.receiver, l.data, l.acks⟩

def withReceiver (l : Link σ' ε' α' σ ε α β) (c : Config τ ε γ) : Link σ' ε' α' τ ε γ β :=
  ⟨l.sender, c, l.data, l.acks⟩

theorem withSender_event (h : Simulates R M pt N qt) (l : Link σ ε α σ' ε' α' β)
    {c : Config τ ε γ} (hc : R l.sender.state c.state) (e : ε) :
    (l.withSender c).senderEvent N qt e = (l.senderEvent M pt e).withSender (N.next c e) := by
  have hout : M.output pt l.sender e = N.output qt c e := h.output hc e
  simp only [senderEvent, withSender, hout]

theorem withReceiver_event (h : Simulates R M pt N qt) (l : Link σ' ε' α' σ ε α β)
    {c : Config τ ε γ} (hc : R l.receiver.state c.state) (e : ε) :
    (l.withReceiver c).receiverEvent N qt e = (l.receiverEvent M pt e).withReceiver (N.next c e) := by
  have hout : M.output pt l.receiver e = N.output qt c e := h.output hc e
  simp only [receiverEvent, withReceiver, hout]

end Link

section Runs

variable {R : σ → τ → Prop} {M : Machine σ ε α} {pt : Port ε α β} {N : Machine τ ε γ}
  {qt : Port ε γ β} {M' : Machine σ' ε' α'} {pt' : Port ε' α' β} {o : Order}

/-- What a machine does as the sender of a link, the one that it follows can do there too. -/
theorem Simulates.sender (h : Simulates R M pt N qt) {l : Link σ ε α σ' ε' α' β}
    (hl : (linkSystem o M pt M' pt').Reachable l) :
    ∃ c : Config τ ε γ, R l.sender.state c.state ∧
      (linkSystem o N qt M' pt').Reachable (l.withSender c) := by
  apply hl.invariant
  · rintro _ rfl
    refine ⟨N.init, h.start, .init ?_⟩
    simp only [linkSystem, Link.init, Link.withSender, h.sends]
  · rintro l e l' ⟨c, hc, hr⟩ - hn
    cases e with
    | sender e =>
      obtain ⟨he, hl⟩ := Option.ite_none_right_eq_some.1 hn
      cases hl
      refine ⟨N.next c e, h.step hc e, .step (e := .sender e) hr trivial ?_⟩
      rw [h.own] at he
      rw [← Link.withSender_event h l hc]
      exact if_pos he
    | receiver e =>
      obtain ⟨he, hl⟩ := Option.ite_none_right_eq_some.1 hn
      cases hl
      refine ⟨c, hc, .step (e := .receiver e) hr trivial ?_⟩
      exact if_pos he
    | toReceiver i again =>
      obtain ⟨⟨b, q⟩, ht, rfl⟩ := Option.map_eq_some_iff.1 hn
      refine ⟨c, hc, .step (e := .toReceiver i again) hr trivial ?_⟩
      exact Option.map_eq_some_iff.2 ⟨(b, q), ht, rfl⟩
    | toSender i again =>
      obtain ⟨⟨b, q⟩, ht, rfl⟩ := Option.map_eq_some_iff.1 hn
      refine ⟨N.next c (pt.recv b), h.step hc _, .step (e := .toSender i again) hr trivial ?_⟩
      rw [← Link.withSender_event h { l with acks := q } hc, h.recv]
      exact Option.map_eq_some_iff.2 ⟨(b, q), ht, rfl⟩

theorem Simulates.receiver (h : Simulates R M pt N qt) {l : Link σ' ε' α' σ ε α β}
    (hl : (linkSystem o M' pt' M pt).Reachable l) :
    ∃ c : Config τ ε γ, R l.receiver.state c.state ∧
      (linkSystem o M' pt' N qt).Reachable (l.withReceiver c) := by
  apply hl.invariant
  · rintro _ rfl
    refine ⟨N.init, h.start, .init ?_⟩
    simp only [linkSystem, Link.init, Link.withReceiver, h.sends]
  · rintro l e l' ⟨c, hc, hr⟩ - hn
    cases e with
    | sender e =>
      obtain ⟨he, hl⟩ := Option.ite_none_right_eq_some.1 hn
      cases hl
      refine ⟨c, hc, .step (e := .sender e) hr trivial ?_⟩
      exact if_pos he
    | receiver e =>
      obtain ⟨he, hl⟩ := Option.ite_none_right_eq_some.1 hn
      cases hl
      refine ⟨N.next c e, h.step hc e, .step (e := .receiver e) hr trivial ?_⟩
      rw [h.own] at he
      rw [← Link.withReceiver_event h l hc]
      exact if_pos he
    | toReceiver i again =>
      obtain ⟨⟨b, q⟩, ht, rfl⟩ := Option.map_eq_some_iff.1 hn
      refine ⟨N.next c (pt.recv b), h.step hc _, .step (e := .toReceiver i again) hr trivial ?_⟩
      rw [← Link.withReceiver_event h { l with data := q } hc, h.recv]
      exact Option.map_eq_some_iff.2 ⟨(b, q), ht, rfl⟩
    | toSender i again =>
      obtain ⟨⟨b, q⟩, ht, rfl⟩ := Option.map_eq_some_iff.1 hn
      refine ⟨c, hc, .step (e := .toSender i again) hr trivial ?_⟩
      exact Option.map_eq_some_iff.2 ⟨(b, q), ht, rfl⟩

end Runs

end Lib
