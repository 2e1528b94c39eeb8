import Mathlib.Data.Fintype.Card
import WooTftpd.Slots

namespace WooTftpd
open Lib
set_option autoImplicit true

variable {w w' : World} {m m' : Mem}

def enabledSlots (m : Mem) : Finset Slot := Finset.univ.filter fun x => enabled m x = true

theorem mem_enabledSlots : x ∈ enabledSlots m ↔ enabled m x = true := by
  simp only [enabledSlots, Finset.mem_filter, Finset.mem_univ, true_and]

theorem enabledSlots_congr (h : ∀ x, enabled m' x = enabled m x) :
    enabledSlots m' = enabledSlots m := by
  ext x
  rw [mem_enabledSlots, mem_enabledSlots, h]

theorem card_enabledSlots_enable (hx : enabled m x = false) (hx' : enabled m' x = true)
    (h : ∀ y, y ≠ x → enabled m' y = enabled m y) :
    (enabledSlots m').card = (enabledSlots m).card + 1 := by
  have hmem : x ∉ enabledSlots m := by
    rw [mem_enabledSlots, hx]
    exact Bool.false_ne_true
  have hins : enabledSlots m' = insert x (enabledSlots m) := by
    ext y
    rw [Finset.mem_insert, mem_enabledSlots, mem_enabledSlots]
    by_cases hy : y = x
    · rw [hy, hx']
      exact ⟨fun _ => .inl rfl, fun _ => rfl⟩
    · rw [h y hy]
      exact ⟨.inr, fun h => h.resolve_left hy⟩
  rw [hins, Finset.card_insert_of_notMem hmem]

/-- The counter is the number of enabled slots, and a server is refused a slot only when all
of them are enabled. -/
structure CounterExact (w : World) : Prop where
  count : (nbOperation w.mem).toNat = (enabledSlots w.mem).card
  refused : ∀ code, wooAllocOperation w.mem = .error code → ∀ x, enabled w.mem x = true

/-- The condition on a step: a file name fits its field, and an operation is ended only while
its slot is still enabled. -/
def EndsEnabled (w : World) : Step → Prop
  | .call p c => c.Fits ∧
      (c = .endOperation → ∀ x, w.servers p = .running x → enabled w.mem x = true)
  | _ => True

/-- What holds besides the count: only enabled slots are ended or about to be removed. -/
structure CounterInv (w : World) : Prop where
  count : (nbOperation w.mem).toNat = (enabledSlots w.mem).card
  ends : ∀ x, ended w.mem x = true → enabled w.mem x = true
  planned : ∀ x, w.gui.endArray x ≠ 0 → enabled w.mem x = true

theorem CounterInv.exact (h : CounterInv w) : CounterExact w where
  count := h.count
  refused := by
    intro code hc
    rcases wooAllocOperation_error hc with hnb | hall
    · have hcard : Fintype.card Slot ≤ (enabledSlots w.mem).card := by
        rw [← h.count]
        exact hnb
      have huniv := Finset.eq_univ_of_card _ (Nat.le_antisymm (Finset.card_le_univ _) hcard)
      intro x
      rw [← mem_enabledSlots, huniv]
      exact Finset.mem_univ x
    · exact hall

namespace CounterInv

theorem setServer (h : CounterInv w) (p : Nat) (s : Server) : CounterInv (w.setServer p s) :=
  ⟨h.count, h.ends, h.planned⟩

theorem alloc (h : CounterInv w) (hn : w.alloc p = some w') : CounterInv w' := by
  obtain ⟨_, ⟨x, m, ha, rfl⟩ | ⟨_, rfl⟩⟩ := alloc_cases hn
  · apply setServer
    obtain ⟨hx, hnb, hlt, hflags⟩ := wooAllocOperation_ok ha
    have hx' : enabled m x = true := by
      rw [enabled, hflags, if_pos rfl]
      rfl
    have hother (y : Slot) (hy : y ≠ x) : enabled m y = enabled w.mem y := by
      rw [enabled, enabled, hflags, if_neg hy]
    have hkeep (y : Slot) (hy : enabled w.mem y = true) : enabled m y = true := by
      by_cases hyx : y = x
      · rw [hyx]
        exact hx'
      · rw [hother y hyx]
        exact hy
    constructor
    · have hcount := h.count
      dsimp only
      rw [card_enabledSlots_enable hx hx' hother, hnb, UInt8.toNat_add, ← hcount]
      exact Nat.mod_eq_of_lt (by simp only [UInt8.toNat_one]; omega)
    · intro y hy
      by_cases hyx : y = x
      · rw [hyx]
        exact hx'
      · apply hkeep
        apply h.ends
        rw [ended, hflags, if_neg hyx] at hy
        exact hy
    · intro y hy
      exact hkeep y (h.planned y hy)
  · exact h.setServer p _

theorem write (h : CounterInv w) (x : Slot) (c : Call) (hc : c.Fits)
    (he : c = .endOperation → enabled w.mem x = true) :
    CounterInv { w with mem := c.run ⟨true, x⟩ w.mem } := by
  have hadd := Call.run_addsFlags w.mem x c hc
  have hen := hadd.enabled c.flags_not_enable
  have hbits : c.flags &&& wootftpdEnd = 0 ∨ enabled w.mem x = true := by
    cases c with
    | endOperation => exact .inr (he rfl)
    | _ => exact .inl (by simp only [Call.flags]; decide)
  constructor
  · dsimp only
    rw [hadd.nb, enabledSlots_congr hen]
    exact h.count
  · intro y hy
    rw [hen]
    rcases hadd.ended hbits y hy with hy | hy
    · exact h.ends y hy
    · exact hy
  · intro y hy
    rw [hen]
    exact h.planned y hy

theorem call (h : CounterInv w) (hs : EndsEnabled w (.call p c)) (hn : w.call p c = some w') :
    CounterInv w' := by
  obtain ⟨x, hx, hw'⟩ := call_cases hn
  have hw := h.write x c hs.1 (fun he => hs.2 he x hx)
  rcases hw' with rfl | rfl
  · exact hw
  · exact hw.setServer p _

theorem exit (h : CounterInv w) (hn : w.exit p = some w') : CounterInv w' := by
  obtain ⟨_, _, rfl⟩ := exit_cases hn
  exact h.setServer p _

theorem visited (h : CounterInv w) (x : Slot) (now : Int) :
    let r := visited x now w.gui w.mem
    CounterInv { w with mem := r.2, gui := r.1, clock := now } := by
  obtain ⟨hnb, hen, hend, hplan⟩ := visited_spec x now w.gui w.mem
  have hends (y : Slot) (hy : ended (WooTftpd.visited x now w.gui w.mem).2 y = true) :
      enabled w.mem y = true := by
    rcases hend y hy with hy | hy
    · exact h.ends y hy
    · exact hy
  constructor
  · dsimp only
    rw [hnb, enabledSlots_congr hen]
    exact h.count
  · intro y hy
    rw [hen]
    exact hends y hy
  · intro y hy
    rw [hen]
    rcases hplan y hy with hy | hy
    · exact h.planned y hy
    · exact hends y hy

theorem remove (h : CounterInv w) (hx : enabled w.mem x = true) :
    CounterInv { w with
      mem := setNbOperation (setOflags w.mem x wootftpdReset) (nbOperation w.mem - 1),
      gui := { w.gui with endArray := Function.update w.gui.endArray x 0 } } := by
  have hflags (y : Slot) : oflags (setNbOperation (setOflags w.mem x wootftpdReset)
      (nbOperation w.mem - 1)) y = if y = x then wootftpdReset else oflags w.mem y := by
    rw [oflags_setNbOperation, oflags_setOflags]
  have hx' : enabled (setNbOperation (setOflags w.mem x wootftpdReset)
      (nbOperation w.mem - 1)) x = false := by
    rw [enabled, hflags, if_pos rfl]
    rfl
  have hother (y : Slot) (hy : y ≠ x) : enabled (setNbOperation (setOflags w.mem x wootftpdReset)
      (nbOperation w.mem - 1)) y = enabled w.mem y := by
    rw [enabled, enabled, hflags, if_neg hy]
  constructor
  · have hcount := h.count
    rw [card_enabledSlots_enable hx' hx fun y hy => (hother y hy).symm] at hcount
    dsimp only
    rw [nbOperation_setNbOperation, UInt8.toNat_sub_of_le]
    · rw [hcount]
      rfl
    · rw [UInt8.le_iff_toNat_le, hcount]
      exact Nat.le_add_left 1 _
  · intro y hy
    by_cases hyx : y = x
    · rw [hyx, ended, hflags, if_pos rfl] at hy
      cases hy
    · rw [hother y hyx]
      rw [ended, hflags, if_neg hyx] at hy
      exact h.ends y hy
  · intro y hy
    by_cases hyx : y = x
    · rw [hyx] at hy
      simp only [Function.update_self] at hy
      exact absurd rfl hy
    · simp only [Function.update_of_ne hyx] at hy
      rw [hother y hyx]
      exact h.planned y hy

theorem visit (h : CounterInv w) (hn : w.visit x now = some w') : CounterInv w' := by
  obtain ⟨_, rfl⟩ := visit_cases hn
  have hv := h.visited x now
  simp only [monitorOperation]
  split
  · rename_i hexp
    apply hv.remove
    apply hv.planned
    exact (of_decide_eq_true hexp).1
  · exact hv

theorem next (h : CounterInv w) (hs : EndsEnabled w e) (hn : w.next e = some w') :
    CounterInv w' := by
  cases e with
  | alloc p => exact h.alloc hn
  | call p c => exact h.call hs hn
  | exit p => exact h.exit hn
  | visit x now => exact h.visit hn

end CounterInv

theorem oflags_foldl_reset (xs : List Slot) (m : Mem) (y : Slot) :
    oflags (xs.foldl (fun m x => setOflags m x wootftpdReset) m) y =
      if y ∈ xs then wootftpdReset else oflags m y := by
  induction xs generalizing m with
  | nil => rfl
  | cons x xs ih =>
    rw [List.foldl_cons, ih, oflags_setOflags]
    by_cases hx : y = x
    · rw [if_pos hx, ite_self, if_pos (List.mem_cons.2 (.inl hx))]
    · simp only [List.mem_cons, hx, false_or, if_false]

theorem nbOperation_foldl_reset (xs : List Slot) (m : Mem) :
    nbOperation (xs.foldl (fun m x => setOflags m x wootftpdReset) m) = nbOperation m := by
  induction xs generalizing m with
  | nil => rfl
  | cons x xs ih => rw [List.foldl_cons, ih, nbOperation_setOflags]

theorem oflags_initializeData (pid : UInt32) (m : Mem) (x : Slot) :
    oflags (initializeData pid m) x = wootftpdReset := by
  rw [initializeData, oflags_foldl_reset, if_pos (List.mem_finRange x)]

theorem CounterInv.initial (h : w.Initial) : CounterInv w := by
  obtain ⟨⟨pid, m, hm⟩, ⟨endTime, hg⟩, _, _⟩ := h
  have hen (x : Slot) : enabled w.mem x = false := by
    rw [enabled, hm, oflags_initializeData]
    rfl
  have hempty : enabledSlots w.mem = ∅ := by
    ext x
    rw [mem_enabledSlots, hen]
    exact ⟨fun h => absurd h Bool.false_ne_true, fun h => absurd h (Finset.notMem_empty x)⟩
  constructor
  · rw [hempty, hm, initializeData, nbOperation_foldl_reset, nbOperation_setNbOperation]
    rfl
  · intro x hx
    rw [ended, hm, oflags_initializeData] at hx
    cases hx
  · intro x hx
    rw [hg] at hx
    exact absurd rfl hx

/-- The counter is exact in every run in which file names fit and no operation is ended after
the GUI has removed it. -/
theorem counterExact_of_endsEnabled (h : slotSystem.Reach EndsEnabled w) : CounterExact w := by
  have hinv : CounterInv w := by
    apply h.invariant
    · intro w hi
      exact CounterInv.initial hi
    · intro w e w' hw hs hn
      exact hw.next hs hn
  exact hinv.exact

theorem counterExact_sideBySide :
    ∃ w, slotSystem.Reach EndsEnabled w ∧ nbOperation w.mem = 2 ∧ CounterExact w := by
  have hrun : (slotSystem.exec bootWorld sideBySide).map (fun w => nbOperation w.mem) =
      some 2 := by decide +kernel
  obtain ⟨w, hw, hnb⟩ := Option.map_eq_some_iff.1 hrun
  have hr : slotSystem.Reach EndsEnabled w := by
    apply (bootWorld_reach _).exec _ hw
    simp only [sideBySide, List.forall_mem_cons]
    exact ⟨fun _ => trivial, fun _ => ⟨shortFilename_fits, fun h => by cases h⟩,
      fun _ => trivial, fun _ => ⟨trivial, fun h => by cases h⟩,
      fun _ h => absurd h List.not_mem_nil⟩
  exact ⟨w, hr, hnb, counterExact_of_endsEnabled hr⟩

def lateEnd : List Step :=
  [.alloc 0, .alloc 1, .call 1 (.incrementBlock 512)] ++ tick 1500000010 ++
  [.call 1 (.incrementBlock 512)] ++ tick 1500000014 ++ [.call 0 .endOperation,
    .call 1 (.incrementBlock 512)] ++ tick 1500000015 ++ [.call 1 (.incrementBlock 512)] ++
  tick 1500000019

/-- The removed operation is removed once more: the counter is 0 with server 1 still running
in an enabled slot. -/
theorem lateEnd_miscounts :
    ∃ w, slotSystem.Reachable w ∧ nbOperation w.mem = 0 ∧ enabled w.mem 1 = true ∧
      w.servers 1 = .running 1 ∧ ¬ CounterExact w := by
  have hrun : (slotSystem.exec bootWorld lateEnd).map
      (fun w => (nbOperation w.mem, enabled w.mem 1, w.servers 1)) =
      some (0, true, .running 1) := by decide +kernel
  obtain ⟨w, hw, hs⟩ := Option.map_eq_some_iff.1 hrun
  simp only [Prod.mk.injEq] at hs
  obtain ⟨hnb, hen, hsrv⟩ := hs
  refine ⟨w, (bootWorld_reach _).exec (fun _ _ _ => trivial) hw, hnb, hen, hsrv, ?_⟩
  intro h
  have hcount := h.count
  have hpos := Finset.card_pos.2 ⟨1, mem_enabledSlots.2 hen⟩
  rw [← hcount, hnb] at hpos
  exact absurd hpos (by decide)

end WooTftpd
