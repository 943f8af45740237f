import Mathlib.Algebra.Order.Group.Nat
import KernelModules.So2Cdev.Device

/-!
# What the calls of `so2_cdev` touch, and what they report

The calls of `so2_cdev.c` one at a time, from any state of the device. `so2_cdev_read` and
`so2_cdev_write` move `min(size, data->size - *offset)` bytes, and `*offset` may be anything
that `pread` and `pwrite` accept. Past the end the difference wraps to a huge number and the
minimum is `size`: they touch only what is stored
(`KernelModules.So2Cdev.DeviceData.touches`) exactly if the offset is not past the end or no
byte is asked for: `KernelModules.So2Cdev.access_exact`.

`MY_IOCTL_SET_BUFFER` takes the number of bytes that were not copied for an error when it is
zero, and for a success when it is not, so that it never reports what it did:
`KernelModules.So2Cdev.set_never_reports`.
-/

namespace KernelModules

namespace So2Cdev

variable (data : DeviceData) (size offset : BitVec 64)

/-! ### The bytes of a read or a write -/

/-- **The bytes of the buffer that a read or a write copies**: `size` of them from
`data->buffer + *offset` on, once `size` has been cut. -/
def DeviceData.touches (i : ℕ) : Prop :=
  ¬data.clamp size offset ≤ 0 ∧
    offset.toNat ≤ i ∧ i < offset.toNat + (data.clamp size offset).toNat

instance (i : ℕ) : Decidable (data.touches size offset i) := inferInstanceAs (Decidable (_ ∧ _))

variable {data size offset}

/-- **Past the end**, a read or a write of any bytes is not cut to nothing. -/
theorem clamp_pos (hsize : size ≠ 0) (hpast : data.size < offset) :
    0 < (data.clamp size offset).toNat := by
  have hpos : size.toNat ≠ 0 := fun h => hsize (BitVec.eq_of_toNat_eq (by simpa using h))
  have hlt : data.size.toNat < offset.toNat := BitVec.lt_def.mp hpast
  have hsub : (data.size - offset).toNat = 2 ^ 64 - offset.toNat + data.size.toNat := by
    have hbound := offset.isLt
    rw [BitVec.toNat_sub]
    exact Nat.mod_eq_of_lt (by omega)
  rw [DeviceData.clamp]
  split
  · omega
  · have hbound := offset.isLt
    omega

theorem clamp_le_zero_iff : data.clamp size offset ≤ 0 ↔ (data.clamp size offset).toNat = 0 := by
  rw [BitVec.le_def]
  exact Nat.le_zero

/-- A read depends on the bytes it touches. -/
theorem so2CdevRead_congr {buffer : ℕ → BitVec 8} (fault : Bool)
    (h : ∀ i, data.touches size offset i → buffer i = data.buffer i) :
    so2CdevRead { data with buffer := buffer } size offset fault =
      so2CdevRead data size offset fault := by
  have hclamp : DeviceData.clamp { data with buffer := buffer } size offset =
      data.clamp size offset := rfl
  simp only [so2CdevRead, hclamp]
  split
  · rfl
  · rename_i hzero
    have hload : load buffer offset.toNat (data.clamp size offset).toNat =
        load data.buffer offset.toNat (data.clamp size offset).toNat := by
      refine List.map_congr_left fun i hi => h _ ⟨hzero, Nat.le_add_right _ _, ?_⟩
      exact Nat.add_lt_add_left (List.mem_range.mp hi) _
    rw [hload]

/-- A write changes the bytes it touches. -/
theorem so2CdevWrite_frame (user : ℕ → BitVec 8) (remains : ℕ) {i : ℕ}
    (h : ¬data.touches size offset i) :
    (so2CdevWrite data user size offset remains).2.1.buffer i = data.buffer i := by
  simp only [so2CdevWrite]
  split
  · rfl
  · rename_i hzero
    have hcopy : copyFromUser data.buffer offset.toNat (data.clamp size offset).toNat user remains i
        = data.buffer i := store_outside fun hin => h ⟨hzero, hin⟩
    split
    · exact hcopy
    · exact hcopy

/-- **A read or a write stays inside what is stored**: it touches only what is below the
length, and if the offset is not, it returns 0 and touches nothing. -/
structure StaysInside (data : DeviceData) (size offset : BitVec 64) : Prop where
  below : ∀ i, data.touches size offset i → i < data.size.toNat
  nothing : data.size ≤ offset → ∀ i, ¬data.touches size offset i
  read : data.size ≤ offset → ∀ fault, so2CdevRead data size offset fault = (0, [], offset)
  write : data.size ≤ offset → ∀ user remains,
    so2CdevWrite data user size offset remains = (0, data, offset)

/-- Nothing is moved at the end, or if nothing is asked for. -/
theorem clamp_eq_zero (h : offset ≤ data.size ∨ size = 0) (hend : data.size ≤ offset) :
    data.clamp size offset ≤ 0 := by
  rw [clamp_le_zero_iff]
  rcases h with hle | rfl
  · rw [data.toNat_clamp hle]
    have hend : data.size.toNat ≤ offset.toNat := BitVec.le_def.mp hend
    omega
  · rw [DeviceData.clamp]
    split
    · rfl
    · rename_i hnot
      rw [BitVec.lt_def] at hnot
      simpa using hnot

/-- **When a read or a write stays inside what is stored.** For every state of the device,
every size and every offset: the calls read the bytes they touch and no others and change no
others, and these are below the length, and none at or past it, if and only if the offset is
not past the length or the size is zero. -/
theorem access_exact (data : DeviceData) (size offset : BitVec 64) :
    (∀ (fault : Bool) (buffer : ℕ → BitVec 8),
        (∀ i, data.touches size offset i → buffer i = data.buffer i) →
          so2CdevRead { data with buffer := buffer } size offset fault =
            so2CdevRead data size offset fault) ∧
      (∀ (user : ℕ → BitVec 8) (remains i : ℕ), ¬data.touches size offset i →
        (so2CdevWrite data user size offset remains).2.1.buffer i = data.buffer i) ∧
      (StaysInside data size offset ↔ offset ≤ data.size ∨ size = 0) := by
  refine ⟨fun fault buffer => so2CdevRead_congr fault,
    fun user remains i => so2CdevWrite_frame user remains, fun h => ?_, fun h => ?_⟩
  · by_contra hbad
    obtain ⟨hpast, hsize⟩ := not_or.mp hbad
    have hpast : data.size < offset := BitVec.not_le.mp hpast
    have hpos := clamp_pos hsize hpast
    have htouch : data.touches size offset offset.toNat := by
      refine ⟨?_, le_rfl, by omega⟩
      rw [clamp_le_zero_iff]
      omega
    exact h.nothing (BitVec.le_of_lt hpast) _ htouch
  · have hzero : data.size ≤ offset → data.clamp size offset ≤ 0 := clamp_eq_zero h
    refine ⟨fun i hi => ?_, fun hend i hi => hi.1 (hzero hend), fun hend fault => ?_,
      fun hend user remains => ?_⟩
    · obtain ⟨hmoved, hlow, hhigh⟩ := hi
      have hle : offset ≤ data.size := by
        rcases BitVec.le_total offset data.size with hle | hend
        · exact hle
        · exact absurd (hzero hend) hmoved
      rw [data.toNat_clamp hle] at hhigh
      omega
    · simp only [so2CdevRead, if_pos (hzero hend)]
    · simp only [so2CdevWrite, if_pos (hzero hend)]

/-- **A write of one byte far behind the buffer.** The data is ten bytes long and the buffer
4096; the offset is 8192, and the byte is stored there. -/
theorem pwrite_escapes :
    let data := so2CdevInit
    let after := so2CdevWrite data (fun _ => 0x41) 1 8192 0
    data.size.toNat ≤ 4096 ∧ after.1 = 1 ∧ after.2.1.buffer 8192 = 0x41 ∧
      data.touches 1 8192 8192 ∧ ¬StaysInside data 1 8192 := by
  have htouch : so2CdevInit.touches 1 8192 8192 := by decide
  refine ⟨by decide, by decide, by decide, htouch, fun h => ?_⟩
  exact absurd (h.below 8192 htouch) (by decide)

/-! ### What `MY_IOCTL_SET_BUFFER` reports -/

/-- **`MY_IOCTL_SET_BUFFER` reports what it did**: it returns 0 exactly if all the bytes were
copied, and `MY_IOCTL_GET_BUFFER` then gets them; and if it returns an error the buffer is the
one there was. -/
structure Reports (data : DeviceData) (user : ℕ → BitVec 8) (remains : ℕ) : Prop where
  zero : (setBuffer data user remains).1 = 0 ↔ remains = 0
  stored : remains = 0 →
    getBuffer (setBuffer data user remains).2 false = (0, load user 0 bufferSize)
  kept : (setBuffer data user remains).1 < 0 →
    getBuffer (setBuffer data user remains).2 false = getBuffer data false

/-- What is stored is right, when nothing was left to copy. -/
theorem getBuffer_setBuffer (data : DeviceData) (user : ℕ → BitVec 8) :
    getBuffer (setBuffer data user 0).2 false = (0, load user 0 bufferSize) := by
  have hload : load (copyFromUser data.buffer 0 bufferSize user 0) 0 bufferSize =
      load user 0 bufferSize := by
    rw [copyFromUser_zero]
    refine List.map_congr_left fun i hi => ?_
    rw [store_inside (Nat.zero_le _) (Nat.add_lt_add_left (List.mem_range.mp hi) 0)]
    simp
  simp only [getBuffer, setBuffer, hload]
  rfl

/-- **It never does**: from every state of the device, whatever the user's bytes and however
many of them could not be copied, it returns 0 exactly if some could not. -/
theorem set_never_reports (data : DeviceData) (user : ℕ → BitVec 8) (remains : ℕ) :
    ((setBuffer data user remains).1 = 0 ↔ remains ≠ 0) ∧ ¬Reports data user remains := by
  have hret : (setBuffer data user remains).1 = 0 ↔ remains ≠ 0 := by
    rcases Nat.eq_zero_or_pos remains with rfl | hpos
    · simp [setBuffer, efault]
    · simp [setBuffer, hpos.ne']
  refine ⟨hret, fun h => ?_⟩
  have hzero := h.zero
  rw [hret] at hzero
  exact absurd hzero (by tauto)

/-- **A success that is reported as a failure**: all the bytes are copied, they can be read
back, and -EFAULT is returned. -/
theorem set_reports_efault :
    (setBuffer so2CdevInit (fun _ => 0x41) 0).1 = -14 ∧
      getBuffer (setBuffer so2CdevInit (fun _ => 0x41) 0).2 false =
        (0, load (fun _ => 0x41) 0 bufferSize) ∧
      ¬Reports so2CdevInit (fun _ => 0x41) 0 := by
  refine ⟨rfl, getBuffer_setBuffer _ _, fun h => ?_⟩
  exact absurd (h.zero.mpr rfl) (by decide)

end So2Cdev

end KernelModules
