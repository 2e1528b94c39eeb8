import WooTftpd.Slots

namespace WooTftpd
open Lib
set_option autoImplicit true

/-- The GUI looks at the block count of the slot. -/
def watches (m : Mem) (x : Slot) : Bool :=
  checkFlag (oflags m x) wootftpdEnable ∧ ¬ checkFlag (oflags m x) wootftpdEnd ∧
    ¬ checkFlag (oflags m x) wootftpdTimeout

/-- The entry of `m_timeout_array` has the count that the GUI finds. -/
def keepsEntry (x : Slot) (now : Int) (g : Gui) (m : Mem) : Bool :=
  (g.timeoutArray x).1 = block m x ∧ (g.timeoutArray x).2 ≤ now

def stalled (x : Slot) (now : Int) (g : Gui) (m : Mem) : Bool :=
  watches m x ∧ keepsEntry x now g m ∧ 3 < now - (g.timeoutArray x).2

def setsTimeout (x : Slot) (now : Int) (g : Gui) (m : Mem) : Bool :=
  !checkFlag (oflags m x) wootftpdTimeout &&
    checkFlag (oflags (visited x now g m).2 x) wootftpdTimeout

/-- What the GUI observed in a slot, the last first: it found one count at two times more than
3 seconds apart, and no other count between them. -/
def Unchanged (seen : List (UInt32 × Int)) : Prop :=
  ∃ recent n t₂ between t₁ older, seen = recent ++ (n, t₂) :: (between ++ (n, t₁) :: older) ∧
    (∀ o ∈ between, o.1 = n) ∧ 3 < t₂ - t₁

/-- A world, the counts that the GUI found in each slot since it was allocated last, with their
times, and whether the GUI stored its entry for the slot since then. -/
structure Watched where
  world : World
  seen : Slot → List (UInt32 × Int)
  stored : Slot → Bool

def World.allocated (w : World) (p : Nat) : Option Slot :=
  match w.servers p, wooAllocOperation w.mem with
  | .fresh, .ok (x, _) => some x
  | _, _ => none

namespace Watched

def forget (W : Watched) (x : Slot) : Watched :=
  { W with seen := Function.update W.seen x [], stored := Function.update W.stored x false }

def observe (W : Watched) (x : Slot) (now : Int) : Watched :=
  { W with
    seen := Function.update W.seen x ((block W.world.mem x, now) :: W.seen x)
    stored := Function.update W.stored x
      (W.stored x || !keepsEntry x now W.world.gui W.world.mem) }

def note (W : Watched) : Step → Watched
  | .alloc p =>
    match W.world.allocated p with
    | some x => W.forget x
    | none => W
  | .visit x now => if watches W.world.mem x then W.observe x now else W
  | _ => W

def next (W : Watched) (e : Step) : Option Watched :=
  (W.world.next e).map fun w => { W.note e with world := w }

end Watched

def watchedSystem : System Watched Step where
  init := fun W => W.world.Initial ∧ (∀ x, W.seen x = []) ∧ ∀ x, W.stored x = false
  next := Watched.next

/-- The condition on a step: a count that stands still is compared with an entry of the current
operation, not with one that is left from before. -/
def EntryStored (W : Watched) : Step → Prop
  | .visit x now => stalled x now W.world.gui W.world.mem = true → W.stored x = true
  | _ => True

section Visit

variable {x : Slot} {now : Int} {g : Gui} {m : Mem}

theorem checkStalled_eq (x : Slot) (now : Int) (g : Gui) (m : Mem) :
    checkStalled x now g m =
      if watches m x then
        if keepsEntry x now g m then
          if 3 < now - (g.timeoutArray x).2 then
            (g, setOflags m x (oflags m x ||| wootftpdEnd ||| wootftpdTimeout))
          else (g, m)
        else
          ({ g with timeoutArray := Function.update g.timeoutArray x (block m x, now) }, m)
      else (g, m) := by
  simp only [checkStalled, watches, keepsEntry, decide_eq_true_eq]
  by_cases hn : (g.timeoutArray x).1 = block m x
  · by_cases hle : (g.timeoutArray x).2 ≤ now
    · simp only [hn, hle, and_self, if_true]
    · simp only [hn, hle, and_false, if_true, if_false]
  · simp only [hn, false_and, if_false]

theorem stalled_of_setsTimeout (h : setsTimeout x now g m = true) :
    stalled x now g m = true := by
  obtain ⟨hbefore, hafter⟩ := Bool.and_eq_true_iff.1 h
  rw [Bool.not_eq_true'] at hbefore
  simp only [visited, checkStalled_eq] at hafter
  split at hafter
  · rename_i hw
    split at hafter
    · rename_i hk
      split at hafter
      · rename_i hlate
        exact decide_eq_true ⟨hw, hk, hlate⟩
      · rw [hbefore] at hafter
        cases hafter
    · rw [hbefore] at hafter
      cases hafter
  · rw [hbefore] at hafter
    cases hafter

theorem timeoutArray_monitorOperation (x : Slot) (now : Int) (g : Gui) (m : Mem) :
    (monitorOperation x now g m).1.timeoutArray =
      if watches m x ∧ keepsEntry x now g m = false then
        Function.update g.timeoutArray x (block m x, now)
      else g.timeoutArray := by
  have hf (g' : Gui) (m' : Mem) : (checkFinished x now g' m').timeoutArray = g'.timeoutArray := by
    simp only [checkFinished]
    split <;> rfl
  have hv : (monitorOperation x now g m).1.timeoutArray =
      (checkStalled x now g m).1.timeoutArray := by
    simp only [monitorOperation, visited]
    split
    · exact hf _ _
    · exact hf _ _
  rw [hv, checkStalled_eq]
  cases watches m x with
  | false => rfl
  | true =>
    cases keepsEntry x now g m with
    | false => rfl
    | true =>
      simp only [if_true]
      split <;> rfl

end Visit

/-- The entry is one of the observations, and the count has not changed since. -/
def HeldSince (entry : UInt32 × Int) (seen : List (UInt32 × Int)) : Prop :=
  ∃ between older, seen = between ++ entry :: older ∧ ∀ o ∈ between, o.1 = entry.1

theorem heldSince_cons (entry : UInt32 × Int) (seen : List (UInt32 × Int)) :
    HeldSince entry (entry :: seen) :=
  ⟨[], seen, rfl, fun _ ho => absurd ho List.not_mem_nil⟩

theorem HeldSince.again (h : HeldSince entry seen) (now : Int) :
    HeldSince entry ((entry.1, now) :: seen) := by
  obtain ⟨between, older, rfl, hb⟩ := h
  exact ⟨(entry.1, now) :: between, older, rfl, List.forall_mem_cons.2 ⟨rfl, hb⟩⟩

theorem HeldSince.unchanged (h : HeldSince entry seen) (hlate : 3 < now - entry.2) :
    Unchanged ((entry.1, now) :: seen) := by
  obtain ⟨between, older, rfl, hb⟩ := h
  exact ⟨[], entry.1, now, between, entry.2, older, rfl, hb, hlate⟩

/-- What the GUI has stored since a slot was allocated is held since then. -/
def EntrySeen (W : Watched) : Prop :=
  ∀ x, W.stored x = true → HeldSince (W.world.gui.timeoutArray x) (W.seen x)

namespace EntrySeen

variable {W : Watched}

theorem forget (h : EntrySeen W) (x : Slot) : EntrySeen (W.forget x) := by
  intro y hy
  by_cases hyx : y = x
  · subst hyx
    simp only [Watched.forget, Function.update_self, Bool.false_eq_true] at hy
  · simp only [Watched.forget, Function.update_of_ne hyx] at hy ⊢
    exact h y hy

theorem of_gui (h : EntrySeen W) {w : World} (hg : w.gui = W.world.gui) :
    EntrySeen { W with world := w } := by
  intro x hx
  simp only [hg]
  exact h x hx

theorem visit (h : EntrySeen W) (x : Slot) (now : Int) {w : World}
    (hg : w.gui = (monitorOperation x now W.world.gui W.world.mem).1) :
    EntrySeen { W.note (.visit x now) with world := w } := by
  intro y hy
  simp only [hg, timeoutArray_monitorOperation]
  simp only [Watched.note] at hy ⊢
  cases hw : watches W.world.mem x with
  | false =>
    simp only [hw, Bool.false_eq_true, if_false, false_and] at hy ⊢
    exact h y hy
  | true =>
    simp only [hw, if_true, true_and, Watched.observe] at hy ⊢
    by_cases hyx : y = x
    · subst hyx
      simp only [Function.update_self] at hy ⊢
      cases hk : keepsEntry y now W.world.gui W.world.mem with
      | false =>
        simp only [if_true, Function.update_self]
        exact heldSince_cons _ _
      | true =>
        rw [hk, Bool.not_true, Bool.or_false] at hy
        obtain ⟨hsame, _⟩ := of_decide_eq_true hk
        simp only [Bool.true_eq_false, if_false, ← hsame]
        exact (h y hy).again now
    · simp only [Function.update_of_ne hyx] at hy ⊢
      split
      · rw [Function.update_of_ne hyx]
        exact h y hy
      · exact h y hy

theorem alloc (h : EntrySeen W) (p : Nat) {w : World} (hg : w.gui = W.world.gui) :
    EntrySeen { W.note (.alloc p) with world := w } := by
  simp only [Watched.note]
  split
  · exact (h.forget _).of_gui hg
  · exact h.of_gui hg

theorem next (h : EntrySeen W) (hn : W.next e = some W') : EntrySeen W' := by
  obtain ⟨w, hw, rfl⟩ := Option.map_eq_some_iff.1 hn
  cases e with
  | alloc p =>
    obtain ⟨_, ⟨_, _, _, rfl⟩ | ⟨_, rfl⟩⟩ := alloc_cases hw
    · exact h.alloc p rfl
    · exact h.alloc p rfl
  | call p c =>
    obtain ⟨_, _, rfl | rfl⟩ := call_cases hw
    · exact h.of_gui rfl
    · exact h.of_gui rfl
  | exit p =>
    obtain ⟨_, _, rfl⟩ := exit_cases hw
    exact h.of_gui rfl
  | visit x now =>
    obtain ⟨_, rfl⟩ := visit_cases hw
    exact h.visit x now rfl

end EntrySeen

theorem entrySeen_of_reach {ok : Watched → Step → Prop} (h : watchedSystem.Reach ok W) :
    EntrySeen W := by
  apply h.invariant
  · rintro W ⟨_, _, hs⟩ x hx
    rw [hs x] at hx
    cases hx
  · intro W e W' hW _ hn
    exact hW.next hn

/-- What is remembered of a run does not restrict it. -/
theorem watchedSystem_reachable_iff :
    slotSystem.Reachable w ↔ ∃ W, watchedSystem.Reachable W ∧ W.world = w := by
  constructor
  · intro h
    induction h with
    | init hi =>
      refine ⟨⟨_, fun _ => [], fun _ => false⟩, .init ⟨hi, ?_, ?_⟩, rfl⟩
      · exact fun _ => rfl
      · exact fun _ => rfl
    | @step w e w' _ _ hn ih =>
      obtain ⟨W, hW, rfl⟩ := ih
      have hn' : watchedSystem.next W e = some { W.note e with world := w' } :=
        Option.map_eq_some_iff.2 ⟨w', hn, rfl⟩
      exact ⟨_, .step hW trivial hn', rfl⟩
  · rintro ⟨W, hW, rfl⟩
    induction hW with
    | init hi => exact .init hi.1
    | step _ _ hn ih =>
      obtain ⟨w', hw, rfl⟩ := Option.map_eq_some_iff.1 hn
      exact .step ih trivial hw

/-- The GUI times out only operations that have stalled, in every run in which it compares no
count with an entry that is left from before the operation. -/
theorem timeout_genuine (W W' : Watched) (x : Slot) (now : Int)
    (h : watchedSystem.Reach EntryStored W) (he : EntryStored W (.visit x now))
    (hn : W.next (.visit x now) = some W')
    (ht : setsTimeout x now W.world.gui W.world.mem = true) : Unchanged (W'.seen x) := by
  have hst := stalled_of_setsTimeout ht
  obtain ⟨hw, hk, hlate⟩ := of_decide_eq_true hst
  obtain ⟨hsame, _⟩ := of_decide_eq_true hk
  have hheld := entrySeen_of_reach h x (he hst)
  obtain ⟨w, _, rfl⟩ := Option.map_eq_some_iff.1 hn
  simp only [Watched.note, hw, if_true, Watched.observe, Function.update_self, ← hsame]
  exact hheld.unchanged hlate

def bootWatched : Watched := ⟨bootWorld, fun _ => [], fun _ => false⟩

theorem bootWatched_reach (ok : Watched → Step → Prop) : watchedSystem.Reach ok bootWatched :=
  .init ⟨⟨⟨_, _, rfl⟩, ⟨_, rfl⟩, fun _ => rfl, fun _ => rfl⟩, fun _ => rfl, fun _ => rfl⟩

/-- The GUI finds the count 1 twice, 4 seconds apart. -/
theorem stalledOnce_genuine :
    ∃ W W', watchedSystem.Reach EntryStored W ∧ EntryStored W (.visit 0 1500000005) ∧
      W.next (.visit 0 1500000005) = some W' ∧
      setsTimeout 0 1500000005 W.world.gui W.world.mem = true ∧ Unchanged (W'.seen 0) := by
  have hrun : ((watchedSystem.exec bootWatched [.alloc 0, .call 0 (.incrementBlock 1)]).bind
      fun W₀ => (watchedSystem.next W₀ (.visit 0 1500000001)).bind
        fun W => (W.next (.visit 0 1500000005)).map
          fun _ => (stalled 0 1500000001 W₀.world.gui W₀.world.mem, W.stored 0,
            setsTimeout 0 1500000005 W.world.gui W.world.mem)) = some (false, true, true) := by
    decide +kernel
  obtain ⟨W₀, h₀, hrun⟩ := Option.bind_eq_some_iff.1 hrun
  obtain ⟨W, h₁, hrun⟩ := Option.bind_eq_some_iff.1 hrun
  obtain ⟨W', h₂, hrun⟩ := Option.map_eq_some_iff.1 hrun
  obtain ⟨hidle, hrest⟩ := Prod.mk.inj hrun
  obtain ⟨hstored, ht⟩ := Prod.mk.inj hrest
  have hr₀ : watchedSystem.Reach EntryStored W₀ := by
    apply (bootWatched_reach _).exec _ h₀
    simp only [List.forall_mem_cons]
    exact ⟨fun _ => trivial, fun _ => trivial, fun _ h => absurd h List.not_mem_nil⟩
  have hok : EntryStored W₀ (.visit 0 1500000001) := by
    intro hst
    rw [hidle] at hst
    cases hst
  have hr : watchedSystem.Reach EntryStored W := .step hr₀ hok h₁
  have he : EntryStored W (.visit 0 1500000005) := fun _ => hstored
  exact ⟨W, W', hr, he, h₂, ht, timeout_genuine W W' 0 1500000005 hr he h₂ ht⟩

theorem Unchanged.two_le_length (h : Unchanged seen) : 2 ≤ seen.length := by
  obtain ⟨recent, n, t₂, between, t₁, older, rfl, _⟩ := h
  simp only [List.length_append, List.length_cons]
  omega

/-- The first operation after the start is timed out when the GUI sees it for the first time. -/
theorem firstVisit_timesOut :
    ∃ W W', watchedSystem.Reachable W ∧ W.next (.visit 0 1500000001) = some W' ∧
      setsTimeout 0 1500000001 W.world.gui W.world.mem = true ∧ ¬ Unchanged (W'.seen 0) := by
  have hrun : ((watchedSystem.exec bootWatched [.alloc 0]).bind
      fun W => (W.next (.visit 0 1500000001)).map
        fun W' => (setsTimeout 0 1500000001 W.world.gui W.world.mem, (W'.seen 0).length)) =
          some (true, 1) := by
    decide +kernel
  obtain ⟨W, h₀, hrun⟩ := Option.bind_eq_some_iff.1 hrun
  obtain ⟨W', h₁, hrun⟩ := Option.map_eq_some_iff.1 hrun
  obtain ⟨ht, hlen⟩ := Prod.mk.inj hrun
  refine ⟨W, W', (bootWatched_reach _).exec (fun _ _ _ => trivial) h₀, h₁, ht, ?_⟩
  intro h
  have h2 := h.two_le_length
  omega

end WooTftpd
