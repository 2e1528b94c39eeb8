import WooTftpd.SharedData

namespace WooTftpd
open Lib
set_option autoImplicit true

structure SameFlags (m m' : Mem) : Prop where
  nb : nbOperation m' = nbOperation m
  oflags : ∀ x, oflags m' x = oflags m x

theorem SameFlags.refl (m : Mem) : SameFlags m m := ⟨rfl, fun _ => rfl⟩

theorem SameFlags.trans (h : SameFlags m m') (h' : SameFlags m' m'') : SameFlags m m'' :=
  ⟨h'.nb.trans h.nb, fun x => (h'.oflags x).trans (h.oflags x)⟩

theorem sameFlags_store (m : Mem) (x : Slot) (bs : List UInt8) (h : 0 < k)
    (h' : k + bs.length ≤ 192) : SameFlags m (m.store (operationAt x + k) bs) := by
  constructor
  · exact Mem.store_below m bs (by rw [operationAt, nbOperationAt]; omega)
  · intro y
    by_cases hy : y.val ≤ x.val
    · exact Mem.store_below m bs (by rw [oflagsAt, operationAt, operationAt]; omega)
    · exact Mem.store_above m bs (by rw [oflagsAt, operationAt, operationAt]; omega)

theorem sameFlags_port (m : Mem) (x : Slot) (v : UInt32) :
    SameFlags m (m.store (portAt x) (Mem.le32 v)) :=
  sameFlags_store (k := 132) m x (Mem.le32 v) (by decide) (by rw [Mem.length_le32]; decide)

theorem sameFlags_block (m : Mem) (x : Slot) (v : UInt32) :
    SameFlags m (m.store (blockAt x) (Mem.le32 v)) :=
  sameFlags_store (k := 184) m x (Mem.le32 v) (by decide) (by rw [Mem.length_le32]; decide)

theorem sameFlags_totalBlock (m : Mem) (x : Slot) (v : UInt32) :
    SameFlags m (m.store (totalBlockAt x) (Mem.le32 v)) :=
  sameFlags_store (k := 188) m x (Mem.le32 v) (by decide) (by rw [Mem.length_le32])

theorem nbOperation_setOflags (m : Mem) (x : Slot) (flags : UInt8) :
    nbOperation (setOflags m x flags) = nbOperation m :=
  Mem.store_below m _ (by rw [oflagsAt, operationAt, nbOperationAt]; omega)

theorem oflags_setOflags (m : Mem) (x : Slot) (flags : UInt8) (y : Slot) :
    oflags (setOflags m x flags) y = if y = x then flags else oflags m y := by
  split
  · rename_i h
    rw [h]
    exact Mem.store_inside (k := 0) m [flags] (Nat.succ_pos _)
  · rename_i h
    have hne : y.val ≠ x.val := fun hv => h (Fin.ext hv)
    rcases Nat.lt_or_gt_of_ne hne with hl | hl
    · exact Mem.store_below m _ (by rw [oflagsAt, oflagsAt, operationAt, operationAt]; omega)
    · apply Mem.store_above
      rw [oflagsAt, oflagsAt, operationAt, operationAt, List.length_singleton]
      omega

theorem nbOperation_setNbOperation (m : Mem) (n : UInt8) :
    nbOperation (setNbOperation m n) = n :=
  Mem.store_inside (a := nbOperationAt) (k := 0) m [n] (Nat.succ_pos _)

theorem oflags_setNbOperation (m : Mem) (n : UInt8) (x : Slot) :
    oflags (setNbOperation m n) x = oflags m x := by
  apply Mem.store_above
  rw [oflagsAt, operationAt, nbOperationAt, List.length_singleton]
  omega

def Call.flags : Call → UInt8
  | .setFlagUpload => wootftpdUpload
  | .setFlagDownload => wootftpdDownload
  | .endOperation => wootftpdEnd
  | _ => 0

def Call.Fits : Call → Prop
  | .setFilename filename => filename.length < filenameSize
  | _ => True

/-- What calls do to the flags: nothing but to add their own to those of the slot they are
made on. -/
structure AddsFlags (m : Mem) (x : Slot) (bits : UInt8) (m' : Mem) : Prop where
  nb : nbOperation m' = nbOperation m
  oflags : ∀ y, oflags m' y = if y = x then oflags m x ||| bits else oflags m y

theorem SameFlags.adds (h : SameFlags m m') (x : Slot) : AddsFlags m x 0 m' := by
  constructor
  · exact h.nb
  · intro y
    split
    · rename_i hy
      rw [hy, h.oflags, UInt8.or_zero]
    · exact h.oflags y

theorem addsFlags_setOflags (m : Mem) (x : Slot) (bits : UInt8) :
    AddsFlags m x bits (setOflags m x (oflags m x ||| bits)) :=
  ⟨nbOperation_setOflags m x _, fun y => oflags_setOflags m x _ y⟩

theorem AddsFlags.same (h : AddsFlags m x bits m') (h' : SameFlags m' m'') :
    AddsFlags m x bits m'' :=
  ⟨h'.nb.trans h.nb, fun y => (h'.oflags y).trans (h.oflags y)⟩

theorem Call.run_addsFlags (m : Mem) (x : Slot) (c : Call) (h : c.Fits) :
    AddsFlags m x c.flags (c.run ⟨true, x⟩ m) := by
  cases c with
  | setIp peer =>
    have hl := ipString_fits peer
    apply SameFlags.adds
    apply sameFlags_store m x _ (Nat.succ_pos _)
    rw [List.length_append, List.length_singleton]
    simp only [CString.length, inet6Addrstrlen] at hl
    omega
  | setFilename filename =>
    apply SameFlags.adds
    apply sameFlags_store m x _ (Nat.succ_pos _)
    rw [List.length_append, List.length_singleton]
    simp only [Call.Fits, CString.length, filenameSize] at h
    omega
  | setPort port => exact (sameFlags_port m x port).adds x
  | setTotalBlock nbBlock => exact (sameFlags_totalBlock m x nbBlock).adds x
  | incrementBlock value => exact (sameFlags_block m x _).adds x
  | setFlagUpload => exact addsFlags_setOflags m x _
  | setFlagDownload => exact addsFlags_setOflags m x _
  | endOperation =>
    simp only [Call.run, wooEndOperation, WooData.guarded, if_true, Call.flags]
    split
    · apply (addsFlags_setOflags m x wootftpdEnd).same
      exact (sameFlags_block _ x 1).trans (sameFlags_totalBlock _ x 1)
    · exact addsFlags_setOflags m x wootftpdEnd

/-- The calls that copy a text change nothing but their own field, exactly if the file name
has less than 128 bytes; the text of an address always fits. -/
theorem slotText_frame_iff (m : Mem) (x : Slot) (filename : CString) (peer : SockAddr) :
    (CopiedWithin m (wooSetFilename ⟨true, x⟩ filename m) (filenameAt x) filenameSize filename ∧
      CopiedWithin m (wooSetIp ⟨true, x⟩ (ipString peer) m) (ipAt x) inet6Addrstrlen
        (ipString peer)) ↔ filename.length < filenameSize := by
  have hip : CopiedWithin m (wooSetIp ⟨true, x⟩ (ipString peer) m) (ipAt x) inet6Addrstrlen
      (ipString peer) :=
    (copiedWithin_strcpy_iff m (ipAt x) inet6Addrstrlen (ipString peer)).2 (ipString_fits peer)
  have hname := copiedWithin_strcpy_iff m (filenameAt x) filenameSize filename
  constructor
  · intro h
    exact hname.1 h.1
  · intro h
    exact ⟨hname.2 h, hip⟩

def longFilename : CString where
  bytes := List.replicate 200 97
  nulFree := by decide

/-- A long file name reaches into the next slot and enables it. -/
theorem longFilename_enables_next :
    let m := Mem.zero
    let m' := wooSetFilename ⟨true, 0⟩ longFilename m
    ¬ CopiedWithin m m' (filenameAt 0) filenameSize longFilename ∧
      oflags m 1 = 0 ∧ oflags m' 1 = 97 ∧ enabled m' 1 = true := by
  intro m m'
  refine ⟨?_, by decide, by decide, by decide⟩
  intro h
  have hf := h.frame (oflagsAt 1) (by decide)
  exact absurd hf (by decide)

end WooTftpd
