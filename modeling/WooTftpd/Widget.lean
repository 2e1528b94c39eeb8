import WooTftpd.GuiTimeout
import WooTftpd.ProgressCounter
import WooTftpd.SlotCounter

namespace WooTftpd
open Lib
set_option autoImplicit true

/-- What an item shows: the address of the client, the file name, a bar with its range and its
value or a label with the number of bytes, and an icon. -/
structure OperationView where
  textRemoteIp : List UInt8 × UInt32
  textFilename : List UInt8
  progessbar : Option (UInt32 × UInt32)
  progesslab : Option UInt32
  icon : Option Icon
  deriving DecidableEq

namespace OperationView

variable (m : Mem) (x : Slot)

/-- The bar takes the place of the label, if there is one. -/
def showBar (v : OperationView) : OperationView :=
  let v := if v.progessbar.isNone then { v with progesslab := none } else v
  { v with progessbar := some (totalBlock m x, block m x) }

def showLabel (v : OperationView) : OperationView :=
  let v := if v.progesslab.isNone then { v with progessbar := none } else v
  { v with progesslab := some (block m x) }

/-- `operation_view::update_view`. A text ends at its null byte. -/
def updateView (v : OperationView) : OperationView :=
  let v := { v with
    textRemoteIp := ((m.load (ipAt x) inet6Addrstrlen).takeWhile (· ≠ 0), m.u32 (portAt x))
    textFilename := (m.load (filenameAt x) filenameSize).takeWhile (· ≠ 0) }
  let v := if checkFlag (oflags m x) wootftpdUpload then v.showBar m x else v.showLabel m x
  { v with icon := some (WooTftpd.updateView (oflags m x)) }

/-- A new item updates itself once. -/
def new : OperationView := updateView m x ⟨([], 0), [], none, none, none⟩

end OperationView

def widgetItemHeight : Int := 64

/-- The height is fixed with the first item. -/
structure Widget where
  items : Slot → Option OperationView
  nbEnablesItems : Int
  height : Option Int

namespace Widget

variable (m : Mem) (x : Slot) (w : Widget)

def adjustGeometry : Widget := { w with height := some (w.nbEnablesItems * widgetItemHeight) }

def createItem : Widget :=
  adjustGeometry { w with
    items := Function.update w.items x (some (.new m x))
    nbEnablesItems := w.nbEnablesItems + 1 }

def deleteItem : Widget :=
  adjustGeometry { w with
    items := Function.update w.items x none
    nbEnablesItems := w.nbEnablesItems - 1 }

def showItem : Widget :=
  if enabled m x ∧ (w.items x).isNone then w.createItem m x else w

def hideItem : Widget :=
  if ¬ enabled m x ∧ (w.items x).isSome then w.deleteItem x else w

def updateItem : Widget :=
  { w with items := Function.update w.items x ((w.items x).map (·.updateView m x)) }

/-- `widget::update_view`, while no server writes. -/
def updateView : Widget :=
  (List.finRange wootftpdMaxNbop).foldl (fun w x => w.updateItem m x)
    ((List.finRange wootftpdMaxNbop).foldl (fun w x => (w.showItem m x).hideItem m x) w)

def initial : Widget := ⟨fun _ => none, 0, none⟩

end Widget

/-- The servers with the GUI and its window. `completed` remembers whether `woo_end_operation` was
called on a slot since it was allocated; no step depends on it. -/
structure Desktop where
  world : World
  widget : Widget
  completed : Slot → Bool

/-- The servers write at any time, also between two slots of a loop of the GUI. -/
inductive DesktopStep where
  | world (e : Step)
  | showItem (x : Slot)
  | hideItem (x : Slot)
  | updateItem (x : Slot)

namespace Desktop

variable (d : Desktop)

def note : Step → Slot → Bool
  | .alloc p =>
    match d.world.allocated p with
    | some x => Function.update d.completed x false
    | none => d.completed
  | .call p .endOperation =>
    match d.world.servers p with
    | .running x => Function.update d.completed x true
    | _ => d.completed
  | _ => d.completed

def next : DesktopStep → Option Desktop
  | .world e => (d.world.next e).map fun w => { d with world := w, completed := d.note e }
  | .showItem x => some { d with widget := d.widget.showItem d.world.mem x }
  | .hideItem x => some { d with widget := d.widget.hideItem d.world.mem x }
  | .updateItem x => some { d with widget := d.widget.updateItem d.world.mem x }

end Desktop

def desktopSystem : System Desktop DesktopStep where
  init := fun d => d.world.Initial ∧ d.widget = .initial ∧ ∀ x, d.completed x = false
  next := Desktop.next

/-- The condition on a step: a file name fits its field. -/
def DesktopStep.Fits (_ : Desktop) : DesktopStep → Prop
  | .world (.call _ c) => c.Fits
  | _ => True

section Flags

variable {d d' : Desktop} {w w' : World}

theorem checkFlag_or_self (oflags flag : UInt8) : checkFlag (oflags ||| flag) flag = true := by
  apply decide_eq_true
  apply UInt8.toBitVec_inj.1
  ext i hi
  simp only [UInt8.toBitVec_and, UInt8.toBitVec_or, BitVec.getElem_and, BitVec.getElem_or]
  exact Bool.and_eq_right_iff_imp.2 fun h => by rw [h, Bool.or_true]

def timedOut (m : Mem) (x : Slot) : Bool := checkFlag (oflags m x) wootftpdTimeout

/-- The flags of a slot tell what was done to it. -/
structure FlagsTold (m : Mem) (completed : Slot → Bool) (x : Slot) : Prop where
  cause : ended m x = true → timedOut m x = true ∨ completed x = true
  told : enabled m x = true → completed x = true → ended m x = true
  timeout : timedOut m x = true → ended m x = true

theorem FlagsTold.congr (h : FlagsTold m completed x) (hf : oflags m' x = oflags m x)
    (hc : completed' x = completed x) : FlagsTold m' completed' x := by
  refine ⟨?_, ?_, ?_⟩
  · rw [ended, timedOut, hf, hc]
    exact h.cause
  · rw [enabled, ended, hf, hc]
    exact h.told
  · rw [ended, timedOut, hf]
    exact h.timeout

/-- Nothing is left of the operation that had the slot before. -/
theorem flagsTold_of_no_end (he : ended m x = false) (ht : timedOut m x = false)
    (hc : enabled m x = true → completed x = false) : FlagsTold m completed x := by
  refine ⟨?_, ?_, ?_⟩
  · intro h
    rw [he] at h
    cases h
  · intro hen h
    rw [hc hen] at h
    cases h
  · intro h
    rw [ht] at h
    cases h

theorem flagsTold_complete (he : ended m x = true) (hc : completed x = true) :
    FlagsTold m completed x :=
  ⟨fun _ => .inr hc, fun _ _ => he, fun _ => he⟩

theorem flagsTold_expire (he : ended m x = true) (ht : timedOut m x = true) :
    FlagsTold m completed x :=
  ⟨fun _ => .inl ht, fun _ _ => he, fun _ => he⟩

/-- A call that ends nothing leaves the three flags. -/
theorem FlagsTold.adds (h : FlagsTold m completed x) (ha : AddsFlags m y bits m')
    (hend : bits &&& wootftpdEnd = 0) (htime : bits &&& wootftpdTimeout = 0)
    (hen : bits &&& wootftpdEnable = 0) : FlagsTold m' completed x := by
  by_cases hx : x = y
  · subst hx
    have hf := ha.oflags x
    rw [if_pos rfl] at hf
    refine ⟨?_, ?_, ?_⟩
    · rw [ended, timedOut, hf, checkFlag_or_other _ hend, checkFlag_or_other _ htime]
      exact h.cause
    · rw [enabled, ended, hf, checkFlag_or_other _ hend, checkFlag_or_other _ hen]
      exact h.told
    · rw [ended, timedOut, hf, checkFlag_or_other _ hend, checkFlag_or_other _ htime]
      exact h.timeout
  · have hf := ha.oflags x
    rw [if_neg hx] at hf
    exact h.congr hf rfl

theorem visited_mem (x : Slot) (now : Int) (g : Gui) (m : Mem) :
    (visited x now g m).2 = m ∨
      (visited x now g m).2 = setOflags m x (oflags m x ||| wootftpdEnd ||| wootftpdTimeout) := by
  have hm : (visited x now g m).2 = (checkStalled x now g m).2 := rfl
  rw [hm, checkStalled_eq]
  split
  · split
    · split
      · exact .inr rfl
      · exact .inl rfl
    · exact .inl rfl
  · exact .inl rfl

theorem flagsTold_visited (h : ∀ y, FlagsTold m completed y) (x : Slot) (now : Int) (g : Gui)
    (y : Slot) : FlagsTold (visited x now g m).2 completed y := by
  rcases visited_mem x now g m with hm | hm
  · rw [hm]
    exact h y
  · have hf : oflags (visited x now g m).2 y = if y = x then
        oflags m x ||| wootftpdEnd ||| wootftpdTimeout else oflags m y := by
      rw [hm, oflags_setOflags]
    by_cases hy : y = x
    · rw [if_pos hy] at hf
      apply flagsTold_expire
      · rw [ended, hf, checkFlag_or_other _ (by decide)]
        exact checkFlag_or_self _ _
      · rw [timedOut, hf]
        exact checkFlag_or_self _ _
    · rw [if_neg hy] at hf
      exact (h y).congr hf rfl

theorem flagsTold_reset (h : ∀ y, FlagsTold m completed y) (x : Slot) (n : UInt8) (y : Slot) :
    FlagsTold (setNbOperation (setOflags m x wootftpdReset) n) completed y := by
  have hf : oflags (setNbOperation (setOflags m x wootftpdReset) n) y =
      if y = x then wootftpdReset else oflags m y := by
    rw [oflags_setNbOperation, oflags_setOflags]
  by_cases hy : y = x
  · rw [if_pos hy] at hf
    apply flagsTold_of_no_end
    · rw [ended, hf]
      rfl
    · rw [timedOut, hf]
      rfl
    · intro hen
      rw [enabled, hf] at hen
      cases hen
  · rw [if_neg hy] at hf
    exact (h y).congr hf rfl

theorem Desktop.note_call (d : Desktop) (p : Nat) (hc : c ≠ .endOperation) :
    d.note (.call p c) = d.completed := by
  cases c with
  | endOperation => exact absurd rfl hc
  | setIp | setPort | setFilename | setFlagUpload | setFlagDownload | setTotalBlock
  | incrementBlock => rfl

theorem Desktop.note_endOperation (d : Desktop) (hp : d.world.servers p = .running x) :
    d.note (.call p .endOperation) = Function.update d.completed x true := by
  simp only [note, hp]

theorem Call.flags_not_end {c : Call} (hc : c ≠ .endOperation) :
    c.flags &&& wootftpdEnd = 0 := by
  cases c with
  | endOperation => exact absurd rfl hc
  | setIp | setPort | setFilename | setFlagUpload | setFlagDownload | setTotalBlock
  | incrementBlock =>
    simp only [Call.flags]
    decide

theorem Call.flags_not_timeout (c : Call) : c.flags &&& wootftpdTimeout = 0 := by
  cases c <;> simp only [Call.flags] <;> decide

theorem flagsTold_alloc (h : ∀ y, FlagsTold d.world.mem d.completed y)
    (hn : d.world.alloc p = some w') (y : Slot) :
    FlagsTold w'.mem (d.note (.alloc p)) y := by
  obtain ⟨hp, ⟨x, m, ha, rfl⟩ | ⟨⟨code, ha⟩, rfl⟩⟩ := alloc_cases hn
  · obtain ⟨-, -, -, hflags⟩ := wooAllocOperation_ok ha
    have hnote : d.note (.alloc p) = Function.update d.completed x false := by
      simp only [Desktop.note, World.allocated, hp, ha]
    rw [hnote]
    have hf := hflags y
    by_cases hy : y = x
    · rw [if_pos hy] at hf
      apply flagsTold_of_no_end
      · exact congrArg (checkFlag · wootftpdEnd) hf
      · exact congrArg (checkFlag · wootftpdTimeout) hf
      · rw [hy]
        exact fun _ => Function.update_self _ _ _
    · rw [if_neg hy] at hf
      exact (h y).congr hf (Function.update_of_ne hy _ _)
  · have hnote : d.note (.alloc p) = d.completed := by
      simp only [Desktop.note, World.allocated, hp, ha]
    rw [hnote]
    exact h y

theorem flagsTold_call (h : ∀ y, FlagsTold d.world.mem d.completed y) (hfits : c.Fits)
    (hn : d.world.call p c = some w') (y : Slot) :
    FlagsTold w'.mem (d.note (.call p c)) y := by
  obtain ⟨x, hp, hw⟩ := call_cases hn
  have hmem : w'.mem = c.run ⟨true, x⟩ d.world.mem := by
    rcases hw with rfl | rfl
    · rfl
    · rfl
  have hadds := Call.run_addsFlags d.world.mem x c hfits
  rw [← hmem] at hadds
  by_cases hc : c = .endOperation
  · subst hc
    rw [d.note_endOperation hp]
    have hf := hadds.oflags y
    by_cases hy : y = x
    · rw [if_pos hy] at hf
      apply flagsTold_complete
      · rw [ended, hf]
        exact checkFlag_or_self _ _
      · rw [hy]
        exact Function.update_self _ _ _
    · rw [if_neg hy] at hf
      exact (h y).congr hf (Function.update_of_ne hy _ _)
  · rw [d.note_call p hc]
    exact (h y).adds hadds (Call.flags_not_end hc) c.flags_not_timeout c.flags_not_enable

/-- What a step of the servers or of `monitor_operations` does to the flags. -/
theorem flagsTold_next (h : ∀ y, FlagsTold d.world.mem d.completed y)
    (hfits : DesktopStep.Fits d (.world e)) (hn : d.world.next e = some w') (y : Slot) :
    FlagsTold w'.mem (d.note e) y := by
  cases e with
  | alloc p => exact flagsTold_alloc h hn y
  | call p c => exact flagsTold_call h hfits hn y
  | exit p =>
    obtain ⟨_, _, rfl⟩ := exit_cases hn
    exact h y
  | visit x now =>
    obtain ⟨_, rfl⟩ := visit_cases hn
    have hv := flagsTold_visited h x now d.world.gui
    simp only [monitorOperation]
    split
    · exact flagsTold_reset hv x _ y
    · exact hv y

end Flags

section Items

variable {m : Mem} {x y : Slot} {w : Widget} {v : OperationView}

/-- There are not both a bar and a label. -/
def OperationView.Single (v : OperationView) : Prop := v.progessbar = none ∨ v.progesslab = none

/-- The item shows the operation as it is in the memory. -/
structure OperationView.Shows (v : OperationView) (m : Mem) (x : Slot) : Prop where
  icon : v.icon = some (WooTftpd.updateView (oflags m x))
  bar : v.progessbar =
    if checkFlag (oflags m x) wootftpdUpload then some (totalBlock m x, block m x) else none
  label : v.progesslab =
    if checkFlag (oflags m x) wootftpdUpload then none else some (block m x)

theorem OperationView.Shows.single (h : v.Shows m x) : v.Single := by
  rw [Single, h.bar, h.label]
  split
  · exact .inr rfl
  · exact .inl rfl

theorem OperationView.Single.showBar (h : v.Single) (m : Mem) (x : Slot) :
    (v.showBar m x).progesslab = none := by
  simp only [OperationView.showBar]
  split
  · rfl
  · rename_i hb
    refine h.resolve_left ?_
    intro hn
    rw [hn] at hb
    exact hb rfl

theorem OperationView.Single.showLabel (h : v.Single) (m : Mem) (x : Slot) :
    (v.showLabel m x).progessbar = none := by
  simp only [OperationView.showLabel]
  split
  · rfl
  · rename_i hl
    refine h.resolve_right ?_
    intro hn
    rw [hn] at hl
    exact hl rfl

theorem OperationView.Single.updateView (h : v.Single) (m : Mem) (x : Slot) :
    (v.updateView m x).Shows m x := by
  have hs (ip : List UInt8 × UInt32) (name : List UInt8) :
      ({ v with textRemoteIp := ip, textFilename := name } : OperationView).Single := h
  by_cases hu : checkFlag (oflags m x) wootftpdUpload = true
  · refine ⟨rfl, ?_, ?_⟩
    · simp only [OperationView.updateView, if_pos hu]
      rfl
    · simp only [OperationView.updateView, if_pos hu]
      exact (hs _ _).showBar m x
  · refine ⟨rfl, ?_, ?_⟩
    · simp only [OperationView.updateView, if_neg hu]
      exact (hs _ _).showLabel m x
    · simp only [OperationView.updateView, if_neg hu]
      rfl

theorem OperationView.new_shows (m : Mem) (x : Slot) : (OperationView.new m x).Shows m x :=
  Single.updateView (.inl rfl) m x

namespace Widget

/-- The slots that have an item. -/
def shown (w : Widget) : Finset Slot := Finset.univ.filter fun x => (w.items x).isSome = true

theorem mem_shown : x ∈ w.shown ↔ (w.items x).isSome = true := by
  simp only [shown, Finset.mem_filter, Finset.mem_univ, true_and]

structure Sound (w : Widget) : Prop where
  count : w.nbEnablesItems = w.shown.card
  height : ∀ h, w.height = some h → h = w.nbEnablesItems * widgetItemHeight
  single : ∀ x v, w.items x = some v → v.Single

theorem sound_initial : Widget.initial.Sound where
  count := by
    have hempty : Widget.initial.shown = ∅ := by
      ext x
      rw [mem_shown]
      exact iff_of_false Bool.false_ne_true (Finset.notMem_empty x)
    rw [hempty]
    rfl
  height := by
    intro h hh
    cases hh
  single := by
    intro x v hv
    cases hv

theorem single_update (h : ∀ x v, w.items x = some v → v.Single) {o : Option OperationView}
    (ho : ∀ v, o = some v → v.Single) (y : Slot) (v : OperationView)
    (hv : Function.update w.items x o y = some v) : v.Single := by
  by_cases hy : y = x
  · rw [hy, Function.update_self] at hv
    exact ho v hv
  · rw [Function.update_of_ne hy] at hv
    exact h y v hv

theorem Sound.createItem (h : w.Sound) (hx : (w.items x).isNone = true) (m : Mem) :
    (w.createItem m x).Sound where
  count := by
    have hno : x ∉ w.shown := by
      rw [mem_shown, ← Option.not_isNone, hx]
      exact Bool.false_ne_true
    have hins : (w.createItem m x).shown = insert x w.shown := by
      ext y
      rw [Finset.mem_insert, mem_shown, mem_shown]
      simp only [Widget.createItem, adjustGeometry]
      by_cases hy : y = x
      · rw [hy, Function.update_self]
        exact iff_of_true rfl (.inl rfl)
      · rw [Function.update_of_ne hy, or_iff_right hy]
    rw [hins, Finset.card_insert_of_notMem hno, Int.natCast_succ, ← h.count]
    rfl
  height := fun _ hh => (Option.some.inj hh).symm
  single := by
    apply single_update h.single
    intro v hv
    rw [← Option.some.inj hv]
    exact (OperationView.new_shows m x).single

theorem Sound.deleteItem (h : w.Sound) (hx : (w.items x).isSome = true) :
    (w.deleteItem x).Sound where
  count := by
    have hmem : x ∈ w.shown := mem_shown.2 hx
    have her : (w.deleteItem x).shown = w.shown.erase x := by
      ext y
      rw [Finset.mem_erase, mem_shown, mem_shown]
      simp only [Widget.deleteItem, adjustGeometry]
      by_cases hy : y = x
      · rw [hy, Function.update_self]
        exact iff_of_false Bool.false_ne_true fun hn => hn.1 rfl
      · rw [Function.update_of_ne hy, and_iff_right hy]
    have hcard := Finset.card_erase_add_one hmem
    have hc : (w.deleteItem x).nbEnablesItems = w.nbEnablesItems - 1 := rfl
    rw [her, hc, h.count, ← hcard, Int.natCast_succ, Int.add_sub_cancel]
  height := fun _ hh => (Option.some.inj hh).symm
  single := by
    apply single_update h.single
    intro v hv
    cases hv

theorem Sound.showItem (h : w.Sound) (m : Mem) (x : Slot) : (w.showItem m x).Sound := by
  rw [Widget.showItem]
  split
  · rename_i hx
    exact h.createItem hx.2 m
  · exact h

theorem Sound.hideItem (h : w.Sound) (m : Mem) (x : Slot) : (w.hideItem m x).Sound := by
  rw [Widget.hideItem]
  split
  · rename_i hx
    exact h.deleteItem hx.2
  · exact h

theorem Sound.updateItem (h : w.Sound) (m : Mem) (x : Slot) : (w.updateItem m x).Sound where
  count := by
    have hsame : (w.updateItem m x).shown = w.shown := by
      ext y
      rw [mem_shown, mem_shown]
      simp only [Widget.updateItem]
      by_cases hy : y = x
      · rw [hy, Function.update_self, Option.isSome_map]
      · rw [Function.update_of_ne hy]
    rw [hsame]
    exact h.count
  height := h.height
  single := by
    apply single_update h.single
    intro v hv
    obtain ⟨v, hi, rfl⟩ := Option.map_eq_some_iff.1 hv
    exact ((h.single x v hi).updateView m x).single

theorem foldl_sound {f : Widget → Slot → Widget} (hf : ∀ w x, Sound w → Sound (f w x))
    (xs : List Slot) (h : w.Sound) : (xs.foldl f w).Sound := by
  induction xs generalizing w with
  | nil => exact h
  | cons x xs ih => exact ih (hf w x h)

/-- A loop over slots whose rounds look at their own items alone. -/
theorem items_foldl {f : Widget → Slot → Widget}
    {g : Slot → Option OperationView → Option OperationView}
    (hf : ∀ w x, (f w x).items = Function.update w.items x (g x (w.items x))) (xs : List Slot)
    (hnd : xs.Nodup) (hy : y ∈ xs) (w : Widget) :
    (xs.foldl f w).items y = g y (w.items y) := by
  have hkept (y : Slot) (xs : List Slot) (hno : y ∉ xs) (w : Widget) :
      (xs.foldl f w).items y = w.items y := by
    induction xs generalizing w with
    | nil => rfl
    | cons x xs ih =>
      rw [List.mem_cons, not_or] at hno
      rw [List.foldl_cons, ih hno.2, hf, Function.update_of_ne hno.1]
  induction xs generalizing w with
  | nil => cases hy
  | cons x xs ih =>
    obtain ⟨hx, hnd⟩ := List.nodup_cons.1 hnd
    rw [List.foldl_cons]
    rcases List.mem_cons.1 hy with he | hmem
    · rw [he, hkept x xs hx, hf, Function.update_self]
    · have hne : y ≠ x := fun he => hx (he ▸ hmem)
      rw [ih hnd hmem, hf, Function.update_of_ne hne]

/-- What the first loop makes of an item. -/
def shownItem (m : Mem) (x : Slot) (item : Option OperationView) : Option OperationView :=
  if enabled m x then some (item.getD (.new m x)) else none

theorem items_showItem_hideItem (m : Mem) (w : Widget) (x : Slot) :
    ((w.showItem m x).hideItem m x).items = Function.update w.items x (shownItem m x (w.items x)) := by
  rw [shownItem]
  by_cases hen : enabled m x = true
  · have hhide (w : Widget) : w.hideItem m x = w := by
      rw [hideItem, if_neg]
      exact fun h => h.1 hen
    rw [hhide, if_pos hen, showItem]
    cases hi : w.items x with
    | none =>
      rw [if_pos ⟨hen, rfl⟩]
      rfl
    | some v =>
      have hno : ¬ (enabled m x = true ∧ (some v).isNone = true) := fun h => Bool.noConfusion h.2
      rw [if_neg hno, Option.getD_some, ← hi, Function.update_eq_self]
  · have hshow : w.showItem m x = w := by
      rw [showItem, if_neg]
      exact fun h => hen h.1
    rw [hshow, if_neg hen, hideItem]
    cases hi : w.items x with
    | some v =>
      rw [if_pos ⟨hen, rfl⟩]
      rfl
    | none =>
      have hno : ¬ (¬ enabled m x = true ∧ (none : Option OperationView).isSome = true) :=
        fun h => Bool.noConfusion h.2
      rw [if_neg hno, ← hi, Function.update_eq_self]

theorem items_updateView (m : Mem) (w : Widget) (x : Slot) :
    (w.updateView m).items x = (shownItem m x (w.items x)).map (·.updateView m x) := by
  rw [updateView, items_foldl (g := fun x item => item.map (·.updateView m x)) (fun _ _ => rfl) _
      (List.nodup_finRange _) (List.mem_finRange x),
    items_foldl (g := shownItem m) (items_showItem_hideItem m) _
      (List.nodup_finRange _) (List.mem_finRange x)]

theorem Sound.updateView (h : w.Sound) (m : Mem) : (w.updateView m).Sound := by
  apply foldl_sound fun w x hw => hw.updateItem m x
  apply foldl_sound fun w x hw => (hw.showItem m x).hideItem m x
  exact h

theorem isSome_updateView (m : Mem) (w : Widget) (x : Slot) :
    ((w.updateView m).items x).isSome = enabled m x := by
  rw [items_updateView, Option.isSome_map, shownItem]
  cases enabled m x with
  | false => rfl
  | true => rfl

theorem Sound.updateView_shows (h : w.Sound) (m : Mem) (x : Slot)
    (hv : (w.updateView m).items x = some v) : v.Shows m x := by
  rw [items_updateView] at hv
  obtain ⟨u, hu, rfl⟩ := Option.map_eq_some_iff.1 hv
  obtain ⟨-, hu⟩ := Option.ite_none_right_eq_some.1 hu
  apply OperationView.Single.updateView
  rw [← Option.some.inj hu]
  cases hi : w.items x with
  | none => exact (OperationView.new_shows m x).single
  | some u => exact h.single x u hi

end Widget

end Items

section Run

variable {d d' : Desktop}

theorem updateView_success_iff (f : UInt8) : updateView f = .success ↔
    checkFlag f wootftpdEnd = true ∧ checkFlag f wootftpdTimeout = false := by
  rw [updateView]
  split
  · rename_i he
    rw [and_iff_right he]
    split
    · rename_i ht
      rw [ht]
      exact iff_of_false Icon.noConfusion Bool.noConfusion
    · rename_i ht
      exact iff_of_true rfl (Bool.eq_false_iff.2 ht)
  · rename_i he
    refine iff_of_false ?_ fun h => he h.1
    split
    · exact Icon.noConfusion
    · exact Icon.noConfusion

theorem updateView_failure_iff (f : UInt8) : updateView f = .failure ↔
    checkFlag f wootftpdEnd = true ∧ checkFlag f wootftpdTimeout = true := by
  rw [updateView]
  split
  · rename_i he
    rw [and_iff_right he]
    split
    · rename_i ht
      exact iff_of_true rfl ht
    · rename_i ht
      exact iff_of_false Icon.noConfusion ht
  · rename_i he
    refine iff_of_false ?_ fun h => he h.1
    split
    · exact Icon.noConfusion
    · exact Icon.noConfusion

structure Desktop.Sound (d : Desktop) : Prop where
  flags : ∀ x, FlagsTold d.world.mem d.completed x
  widget : d.widget.Sound

theorem desktop_sound_of_reach (h : desktopSystem.Reach DesktopStep.Fits d) : d.Sound := by
  apply h.invariant
  · rintro d ⟨⟨⟨pid, m, hm⟩, -⟩, hw, hc⟩
    refine ⟨?_, ?_⟩
    · intro x
      have hf := oflags_initializeData pid m x
      apply flagsTold_of_no_end
      · rw [hm, ended, hf]
        rfl
      · rw [hm, timedOut, hf]
        rfl
      · exact fun _ => hc x
    · rw [hw]
      exact Widget.sound_initial
  · intro d e d' hd hfits hn
    cases e with
    | world e =>
      obtain ⟨w, hw, rfl⟩ := Option.map_eq_some_iff.1 hn
      exact ⟨flagsTold_next hd.flags hfits hw, hd.widget⟩
    | showItem x =>
      cases hn
      exact ⟨hd.flags, hd.widget.showItem _ x⟩
    | hideItem x =>
      cases hn
      exact ⟨hd.flags, hd.widget.hideItem _ x⟩
    | updateItem x =>
      cases hn
      exact ⟨hd.flags, hd.widget.updateItem _ x⟩

/-- While servers start, write, end and exit and the GUI looks at their slots, in any order: the
items are counted, and once `update_view` comes through undisturbed they are those of the enabled
slots. The icon of success then means that a server called `woo_end_operation` since the slot was
allocated and the GUI had not timed the operation out before, the one of failure that it had. -/
theorem desktop_shows (h : desktopSystem.Reach DesktopStep.Fits d) :
    let w := d.widget.updateView d.world.mem
    d.widget.nbEnablesItems = d.widget.shown.card ∧
      (∀ height, d.widget.height = some height →
        height = d.widget.nbEnablesItems * widgetItemHeight) ∧
      w.nbEnablesItems = (enabledSlots d.world.mem).card ∧
      ∀ x, (w.items x).isSome = enabled d.world.mem x ∧ ∀ v, w.items x = some v →
        v.Shows d.world.mem x ∧
        (v.icon = some .success ↔ d.completed x = true ∧ timedOut d.world.mem x = false) ∧
        (v.icon = some .failure ↔ timedOut d.world.mem x = true) := by
  intro w
  obtain ⟨hflags, hwidget⟩ := desktop_sound_of_reach h
  have hw := hwidget.updateView d.world.mem
  have hshown : w.shown = enabledSlots d.world.mem := by
    ext x
    rw [Widget.mem_shown, mem_enabledSlots, Widget.isSome_updateView]
  refine ⟨hwidget.count, hwidget.height, hshown ▸ hw.count, ?_⟩
  intro x
  refine ⟨Widget.isSome_updateView _ _ x, ?_⟩
  intro v hv
  have hshows := hwidget.updateView_shows _ x hv
  have hen : enabled d.world.mem x = true := by
    rw [← Widget.isSome_updateView d.world.mem d.widget x, hv]
    rfl
  refine ⟨hshows, ?_, ?_⟩
  · rw [hshows.icon, Option.some_inj, updateView_success_iff]
    constructor
    · rintro ⟨he, ht⟩
      refine ⟨((hflags x).cause he).resolve_left ?_, ht⟩
      rw [timedOut, ht]
      exact Bool.false_ne_true
    · rintro ⟨hc, ht⟩
      exact ⟨(hflags x).told hen hc, ht⟩
  · rw [hshows.icon, Option.some_inj, updateView_failure_iff]
    exact ⟨fun h => h.2, fun ht => ⟨(hflags x).timeout ht, ht⟩⟩

def bootDesktop : Desktop := ⟨bootWorld, .initial, fun _ => false⟩

theorem bootDesktop_reach (ok : Desktop → DesktopStep → Prop) :
    desktopSystem.Reach ok bootDesktop :=
  .init ⟨⟨⟨_, _, rfl⟩, ⟨_, rfl⟩, fun _ => rfl, fun _ => rfl⟩, rfl, fun _ => rfl⟩

/-- A file is sent, and the item is there from the beginning. -/
def sendingShown (x : Slot) : List DesktopStep :=
  [.world (.alloc 0), .showItem x, .world (.call 0 .setFlagUpload), .updateItem x,
    .world (.call 0 .endOperation)]

theorem desktop_shows_success :
    ∃ d, desktopSystem.exec bootDesktop (sendingShown 0) = some d ∧
      (d.widget.items 0).map OperationView.icon = some (some .upload) ∧
      ∃ v, (d.widget.updateView d.world.mem).items 0 = some v ∧ v.icon = some .success := by
  have hk : (desktopSystem.exec bootDesktop (sendingShown 0)).map (fun d =>
      ((d.widget.items 0).map OperationView.icon, enabled d.world.mem 0, d.completed 0,
        timedOut d.world.mem 0)) = some (some (some .upload), true, true, false) := by
    decide +kernel
  obtain ⟨d, hd, he⟩ := Option.map_eq_some_iff.1 hk
  simp only [Prod.mk.injEq] at he
  obtain ⟨hicon, hen, hc, ht⟩ := he
  have hr : desktopSystem.Reach DesktopStep.Fits d := by
    apply (bootDesktop_reach _).exec _ hd
    intro e he d
    simp only [sendingShown, List.mem_cons, List.not_mem_nil, or_false] at he
    rcases he with rfl | rfl | rfl | rfl | rfl <;> trivial
  obtain ⟨-, -, -, hitems⟩ := desktop_shows hr
  obtain ⟨hsome, hall⟩ := hitems 0
  rw [hen] at hsome
  obtain ⟨v, hv⟩ := Option.isSome_iff_exists.1 hsome
  exact ⟨d, hd, hicon, v, hv, (hall v hv).2.1.2 ⟨hc, ht⟩⟩

end Run

end WooTftpd
