import Mathlib.Logic.Function.Basic
import WooTftpd.SlotFrame

namespace WooTftpd
open Lib
set_option autoImplicit true

/-- The private state of the GUI: when an ended operation is to be removed (0 for never), and
the last block count of each slot with the time it was seen first. -/
structure Gui where
  endTime : Int
  endArray : Slot → Int
  timeoutArray : Slot → UInt32 × Int

def Gui.start (endTime : Int) : Gui := ⟨endTime, fun _ => 0, fun _ => (0, 0)⟩

def initializeData (clientPid : UInt32) (m : Mem) : Mem :=
  (List.finRange wootftpdMaxNbop).foldl (fun m x => setOflags m x wootftpdReset)
    (setNbOperation (m.store 0 (Mem.le32 clientPid)) 0)

/-- The first part of a visit: an operation whose block count stands still is timed out. -/
def checkStalled (x : Slot) (current : Int) (g : Gui) (m : Mem) : Gui × Mem :=
  let f := oflags m x
  if checkFlag f wootftpdEnable ∧ ¬ checkFlag f wootftpdEnd ∧ ¬ checkFlag f wootftpdTimeout then
    let seen := g.timeoutArray x
    if seen.1 = block m x then
      if seen.2 ≤ current then
        if 3 < current - seen.2 then
          (g, setOflags m x (f ||| wootftpdEnd ||| wootftpdTimeout))
        else (g, m)
      else ({ g with timeoutArray := Function.update g.timeoutArray x (seen.1, current) }, m)
    else
      ({ g with timeoutArray := Function.update g.timeoutArray x (block m x, current) }, m)
  else (g, m)

def checkFinished (x : Slot) (current : Int) (g : Gui) (m : Mem) : Gui :=
  if checkFlag (oflags m x) wootftpdEnd ∧ g.endArray x = 0 then
    { g with endArray := Function.update g.endArray x (current + g.endTime) }
  else g

def visited (x : Slot) (current : Int) (g : Gui) (m : Mem) : Gui × Mem :=
  let r := checkStalled x current g m
  (checkFinished x current r.1 r.2, r.2)

def expires (x : Slot) (current : Int) (g : Gui) (m : Mem) : Bool :=
  let g := (visited x current g m).1
  g.endArray x ≠ 0 ∧ g.endArray x < current

/-- One iteration of the loop of `monitor_operations`. -/
def monitorOperation (x : Slot) (current : Int) (g : Gui) (m : Mem) : Gui × Mem :=
  let r := visited x current g m
  if expires x current g m then
    ({ r.1 with endArray := Function.update r.1.endArray x 0 },
      setNbOperation (setOflags r.2 x wootftpdReset) (nbOperation r.2 - 1))
  else r

theorem AddsFlags.enabled (h : AddsFlags m x bits m') (hb : bits &&& wootftpdEnable = 0)
    (y : Slot) : enabled m' y = enabled m y := by
  rw [WooTftpd.enabled, WooTftpd.enabled, h.oflags]
  split
  · rename_i hy
    rw [hy, checkFlag_or_other _ hb]
  · rfl

def ended (m : Mem) (x : Slot) : Bool := checkFlag (oflags m x) wootftpdEnd

theorem AddsFlags.ended (h : AddsFlags m x bits m')
    (hb : bits &&& wootftpdEnd = 0 ∨ WooTftpd.enabled m x = true) (y : Slot)
    (hy : ended m' y = true) : ended m y = true ∨ WooTftpd.enabled m y = true := by
  rw [WooTftpd.ended, h.oflags] at hy
  split at hy
  · rename_i hx
    subst hx
    rcases hb with hb | hb
    · rw [checkFlag_or_other _ hb] at hy
      exact .inl hy
    · exact .inr hb
  · exact .inl hy

theorem checkStalled_flags (x : Slot) (current : Int) (g : Gui) (m : Mem) :
    (checkStalled x current g m).1.endArray = g.endArray ∧
      ∃ bits, AddsFlags m x bits (checkStalled x current g m).2 ∧ bits &&& wootftpdEnable = 0 ∧
        (bits &&& wootftpdEnd = 0 ∨ enabled m x = true) := by
  have hsame : ∃ bits, AddsFlags m x bits m ∧ bits &&& wootftpdEnable = 0 ∧
      (bits &&& wootftpdEnd = 0 ∨ enabled m x = true) :=
    ⟨0, (SameFlags.refl m).adds x, rfl, .inl rfl⟩
  simp only [checkStalled]
  split
  · rename_i hf
    split
    · split
      · split
        · refine ⟨rfl, wootftpdEnd ||| wootftpdTimeout, ?_, rfl, .inr hf.1⟩
          rw [UInt8.or_assoc]
          exact addsFlags_setOflags m x _
        · exact ⟨rfl, hsame⟩
      · exact ⟨rfl, hsame⟩
    · exact ⟨rfl, hsame⟩
  · exact ⟨rfl, hsame⟩

theorem checkFinished_endArray (x : Slot) (current : Int) (g : Gui) (m : Mem) (y : Slot) :
    (checkFinished x current g m).endArray y = g.endArray y ∨ (y = x ∧ ended m x = true) := by
  simp only [checkFinished]
  split
  · rename_i h
    by_cases hy : y = x
    · exact .inr ⟨hy, h.1⟩
    · exact .inl (Function.update_of_ne hy _ _)
  · exact .inl rfl

/-- All that a visit can do before it removes an operation: an enabled one may be ended, and
the removal of an ended one is planned. -/
theorem visited_spec (x : Slot) (current : Int) (g : Gui) (m : Mem) :
    let r := visited x current g m
    nbOperation r.2 = nbOperation m ∧ (∀ y, enabled r.2 y = enabled m y) ∧
      (∀ y, ended r.2 y = true → ended m y = true ∨ enabled m y = true) ∧
      ∀ y, r.1.endArray y ≠ 0 → g.endArray y ≠ 0 ∨ ended r.2 y = true := by
  obtain ⟨harr, bits, hadd, hen, hend⟩ := checkStalled_flags x current g m
  refine ⟨hadd.nb, hadd.enabled hen, hadd.ended hend, ?_⟩
  intro y hy
  rcases checkFinished_endArray x current (checkStalled x current g m).1
    (checkStalled x current g m).2 y with h | ⟨rfl, h⟩
  · left
    rw [← harr, ← h]
    exact hy
  · exact .inr h

end WooTftpd
