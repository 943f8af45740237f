import Mathlib.Data.Int.Notation
import KernelModules.Lib.Memory

/-!
# The `so2_cdev` device

`device_drivers/lkt_char_dev/so2_cdev.c`: a character device with a buffer that is read and
written as a stream, up to a length fixed when the module is loaded, and whose first 256
bytes are set and got with `ioctl`. This file is the functions of the module that do not
block, each in one piece. Sizes and offsets are 64-bit numbers, subtracted and compared
without sign as the source does.

A copy from the user's memory that fails has copied fewer bytes than asked for and filled
the rest with zeros (`KernelModules.So2Cdev.copyFromUser`).
-/

namespace KernelModules

namespace So2Cdev

/-! ### The data -/

/-- `EBUSY`. -/
def ebusy : ℤ := 16
/-- `EFAULT`. -/
def efault : ℤ := 14

/-- `BUFFER_SIZE`: what the `ioctl` calls set and get. -/
def bufferSize : ℕ := 256

/-- `MESSAGE`, with the NUL at its end. -/
def message : List (BitVec 8) :=
  "hello sp\n".toList.map (fun ch => BitVec.ofNat 8 ch.toNat) ++ [0]

/-- `struct so2_device_data`. -/
structure DeviceData where
  /-- `buffer`. -/
  buffer : ℕ → BitVec 8
  /-- `size`. -/
  size : BitVec 64
  /-- `flag`. -/
  flag : ℤ
  /-- `dev_opend`. -/
  devOpend : ℤ

/-- What the loop of `so2_cdev_init` sets up; `devs` is a static variable. -/
def so2CdevInit : DeviceData where
  buffer := store (fun _ => 0) 0 message.length fun i => message.getD i 0
  size := BitVec.ofNat 64 message.length
  flag := 0
  devOpend := 0

/-! ### Opening and closing -/

/-- `so2_cdev_open`, up to its sleep of ten seconds. -/
def so2CdevOpen (data : DeviceData) : ℤ × DeviceData :=
  if data.devOpend ≠ 0 then (-ebusy, data) else (0, { data with devOpend := 1 })

/-- `so2_cdev_release`. -/
def so2CdevRelease (data : DeviceData) : DeviceData := { data with devOpend := 0 }

/-! ### The stream -/

/-- `copy_from_user`, which fails to copy the last `remains` bytes. -/
def copyFromUser (m : ℕ → BitVec 8) (p n : ℕ) (user : ℕ → BitVec 8) (remains : ℕ) :
    ℕ → BitVec 8 :=
  store m p n fun i => if i < n - remains then user i else 0

/-- `min(size, data->size - *offset)`. -/
def DeviceData.clamp (data : DeviceData) (size offset : BitVec 64) : BitVec 64 :=
  if size < data.size - offset then size else data.size - offset

/-- Up to the end, the difference is right. -/
theorem DeviceData.toNat_clamp {data : DeviceData} {offset : BitVec 64} (h : offset ≤ data.size)
    (size : BitVec 64) :
    (data.clamp size offset).toNat = min size.toNat (data.size.toNat - offset.toNat) := by
  have hsub : (data.size - offset).toNat = data.size.toNat - offset.toNat :=
    BitVec.toNat_sub_of_le h
  rw [DeviceData.clamp]
  split
  · rename_i hlt
    rw [BitVec.lt_def] at hlt
    omega
  · rename_i hlt
    rw [BitVec.lt_def] at hlt
    omega

/-- `so2_cdev_read`: what it returns, what it has put in the user's buffer, and the offset it
leaves. -/
def so2CdevRead (data : DeviceData) (size offset : BitVec 64) (fault : Bool) :
    ℤ × List (BitVec 8) × BitVec 64 :=
  let size := data.clamp size offset
  if size ≤ 0 then (0, [], offset)
  else if fault then (-efault, [], offset)
  else (size.toInt, load data.buffer offset.toNat size.toNat, offset + size)

/-- `so2_cdev_write`: what it returns, the data, and the offset it leaves. -/
def so2CdevWrite (data : DeviceData) (user : ℕ → BitVec 8) (size offset : BitVec 64)
    (remains : ℕ) : ℤ × DeviceData × BitVec 64 :=
  let size := data.clamp size offset
  if size ≤ 0 then (0, data, offset)
  else
    let data :=
      { data with buffer := copyFromUser data.buffer offset.toNat size.toNat user remains }
    if remains ≠ 0 then (-efault, data, offset) else (size.toInt, data, offset + size)

/-! ### The `ioctl` calls on the buffer -/

/-- `MY_IOCTL_SET_BUFFER`. -/
def setBuffer (data : DeviceData) (user : ℕ → BitVec 8) (remains : ℕ) : ℤ × DeviceData :=
  -- `if(remains <=0)`
  (if remains ≤ 0 then -efault else 0,
    { data with buffer := copyFromUser data.buffer 0 bufferSize user remains })

/-- `MY_IOCTL_GET_BUFFER`: what it returns, and what it has put in the user's buffer. -/
def getBuffer (data : DeviceData) (fault : Bool) : ℤ × List (BitVec 8) :=
  if fault then (-efault, []) else (0, load data.buffer 0 bufferSize)

/-- A copy that does not fail. -/
theorem copyFromUser_zero (m : ℕ → BitVec 8) (p n : ℕ) (user : ℕ → BitVec 8) :
    copyFromUser m p n user 0 = store m p n user := by
  funext i
  rw [copyFromUser, store, store]
  split
  · exact if_pos (by omega)
  · rfl

end So2Cdev

end KernelModules
