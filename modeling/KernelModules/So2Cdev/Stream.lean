import Mathlib.Algebra.BigOperators.Group.List.Basic
import Mathlib.Tactic.Ring
import KernelModules.Lib.Run
import KernelModules.So2Cdev.Device

/-!
# `so2_cdev` as a file

The buffer of `so2_cdev` is reached in two ways: as a stream, with an offset for each open
file and a length that `so2_cdev_init` fixes, and in one piece of 256 bytes with `ioctl`. Any
number of files are opened, one at a time, and any calls are made on them
(`KernelModules.So2Cdev.Stream.step`); no copy from or to the user fails.

Seen from outside this is a file of fixed length whose bytes are those stored last,
`KernelModules.latest`, and `KernelModules.So2Cdev.Stream.byte_file` says so. The one
thing to keep is that no offset passes the length: `data->size - *offset` is computed without
sign.
-/

namespace KernelModules

namespace So2Cdev

namespace Stream

/-! ### States and calls -/

/-- The device and the offsets of the files that are open. -/
structure Sys where
  /-- The device. -/
  data : DeviceData
  /-- The offset of each file. -/
  files : ℕ → Option (BitVec 64)

/-- The module, just loaded. -/
def Sys.start : Sys := ⟨so2CdevInit, fun _ => none⟩

/-- A file has moved. -/
def Sys.seek (s : Sys) (f : ℕ) (offset : Option (BitVec 64)) : Sys :=
  { s with files := Function.update s.files f offset }

/-- A call, on a file. -/
inductive Act where
  /-- `so2_cdev_open`. -/
  | openFile (f : ℕ) : Act
  /-- `so2_cdev_release`. -/
  | release (f : ℕ) : Act
  /-- `so2_cdev_read`. -/
  | read (f : ℕ) (size : BitVec 64) : Act
  /-- `so2_cdev_write`. -/
  | write (f : ℕ) (size : BitVec 64) (user : ℕ → BitVec 8) : Act
  /-- `MY_IOCTL_SET_BUFFER`. -/
  | setBuffer (f : ℕ) (user : ℕ → BitVec 8) : Act
  /-- `MY_IOCTL_GET_BUFFER`. -/
  | getBuffer (f : ℕ) : Act

/-- What a call leads to. -/
structure Outcome where
  /-- What it returns. -/
  ret : ℤ
  /-- What it has put in the user's buffer. -/
  out : List (BitVec 8)
  /-- What it leaves behind. -/
  after : Sys

/-- **A call**, if it can be made: a file is opened once, and used while it is open. -/
def call (s : Sys) : Act → Option Outcome
  | .openFile f =>
    match s.files f with
    | none =>
      let r := so2CdevOpen s.data
      some ⟨r.1, [], { (if r.1 = 0 then s.seek f (some 0) else s) with data := r.2 }⟩
    | some _ => none
  | .release f => (s.files f).map fun _ =>
      ⟨0, [], { s.seek f none with data := so2CdevRelease s.data }⟩
  | .read f size => (s.files f).map fun offset =>
      let r := so2CdevRead s.data size offset false
      ⟨r.1, r.2.1, s.seek f (some r.2.2)⟩
  | .write f size user => (s.files f).map fun offset =>
      let r := so2CdevWrite s.data user size offset 0
      ⟨r.1, [], { s.seek f (some r.2.2) with data := r.2.1 }⟩
  | .setBuffer f user => (s.files f).map fun _ =>
      let r := setBuffer s.data user 0
      ⟨r.1, [], { s with data := r.2 }⟩
  | .getBuffer f => (s.files f).map fun _ =>
      let r := getBuffer s.data false
      ⟨r.1, r.2, s⟩

/-- **One step.** -/
def step (s : Sys) (a : Act) : Sys := ((call s a).map Outcome.after).getD s

/-- What calls return, in turn. -/
def returned (s : Sys) (acts : List Act) : List ℤ :=
  trace step (fun s a => (call s a).map Outcome.ret) s acts

/-- What calls put in the user's buffer, all together. -/
def received (s : Sys) (acts : List Act) : List (BitVec 8) :=
  (trace step (fun s a => (call s a).map Outcome.out) s acts).flatten

/-! ### The length and the offsets -/

/-- How many bytes a read or a write of a given size moves, at a given offset. -/
def moved (s : Sys) (size offset : BitVec 64) : ℕ :=
  min size.toNat (s.data.size.toNat - offset.toNat)

/-- **The length is what it was, and no offset passes it.** -/
structure Bounded (s : Sys) : Prop where
  size : s.data.size = so2CdevInit.size
  offset : ∀ f offset, s.files f = some offset → offset ≤ s.data.size

theorem bounded_start : Bounded Sys.start where
  size := rfl
  offset f offset hf := absurd hf (by simp [Sys.start])

section

variable {s : Sys} {f : ℕ} {offset : BitVec 64}

/-- Below the length, the difference is right. -/
theorem toNat_clamp (h : offset ≤ s.data.size) (size : BitVec 64) :
    (s.data.clamp size offset).toNat = moved s size offset := s.data.toNat_clamp h size

theorem Bounded.moved_le (h : Bounded s) (hf : s.files f = some offset) (size : BitVec 64) :
    offset.toNat + moved s size offset ≤ s.data.size.toNat :=
  add_clip_le (BitVec.le_def.mp (h.offset f offset hf))

theorem Bounded.toNat_size (h : Bounded s) : s.data.size.toNat = 10 := by
  rw [h.size]
  rfl

/-- The number of bytes moved, as the code returns it and adds it. -/
theorem Bounded.clamp_eq (h : Bounded s) (hf : s.files f = some offset) (size : BitVec 64) :
    (s.data.clamp size offset).toNat = moved s size offset ∧
      (s.data.clamp size offset).toInt = moved s size offset ∧
        offset + s.data.clamp size offset = offset + BitVec.ofNat 64 (moved s size offset) := by
  have hclamp := toNat_clamp (h.offset f offset hf) size
  have hle := h.moved_le hf size
  have hsize := h.toNat_size
  refine ⟨hclamp, ?_, ?_⟩
  · rw [BitVec.toInt_eq_toNat_of_lt (by omega), hclamp]
  · rw [← hclamp, BitVec.ofNat_toNat, BitVec.setWidth_eq]

/-- Nothing is left to move. -/
theorem Bounded.moved_eq_zero (h : Bounded s) (hf : s.files f = some offset) {size : BitVec 64}
    (hzero : s.data.clamp size offset ≤ 0) : moved s size offset = 0 := by
  rw [BitVec.le_def, (h.clamp_eq hf size).1] at hzero
  exact Nat.le_zero.mp hzero

/-- **A read.** -/
theorem Bounded.call_read (h : Bounded s) (hf : s.files f = some offset) (size : BitVec 64) :
    call s (.read f size) = some ⟨moved s size offset,
      load s.data.buffer offset.toNat (moved s size offset),
      s.seek f (some (offset + BitVec.ofNat 64 (moved s size offset)))⟩ := by
  obtain ⟨hnat, hint, hadd⟩ := h.clamp_eq hf size
  simp only [call, hf, Option.map_some, so2CdevRead]
  split
  · rename_i hzero
    simp [h.moved_eq_zero hf hzero]
  · simp only [Bool.false_eq_true, if_false, hnat, hint, hadd]

/-- **A write.** -/
theorem Bounded.call_write (h : Bounded s) (hf : s.files f = some offset) (size : BitVec 64)
    (user : ℕ → BitVec 8) :
    call s (.write f size user) = some ⟨moved s size offset, [],
      { s.seek f (some (offset + BitVec.ofNat 64 (moved s size offset))) with
        data := { s.data with
          buffer := store s.data.buffer offset.toNat (moved s size offset) user } }⟩ := by
  obtain ⟨hnat, hint, hadd⟩ := h.clamp_eq hf size
  simp only [call, hf, Option.map_some, so2CdevWrite]
  split
  · rename_i hzero
    simp [h.moved_eq_zero hf hzero, Sys.seek]
  · simp only [ne_eq, not_true_eq_false, if_false, copyFromUser_zero, hnat, hint, hadd]

/-- The offset a read or a write leaves. -/
theorem Bounded.toNat_add (h : Bounded s) (hf : s.files f = some offset) (size : BitVec 64) :
    (offset + BitVec.ofNat 64 (moved s size offset)).toNat
      = offset.toNat + moved s size offset := by
  have hle := h.moved_le hf size
  have hsize := h.toNat_size
  rw [BitVec.toNat_add, BitVec.toNat_ofNat]
  omega

/-- A file moves on, within the length. -/
theorem Bounded.seek (h : Bounded s) (hf : s.files f = some offset) (size : BitVec 64) :
    Bounded (s.seek f (some (offset + BitVec.ofNat 64 (moved s size offset)))) where
  size := h.size
  offset g offset' hg := by
    rcases eq_or_ne g f with rfl | hne
    · obtain rfl : _ = offset' := Option.some.inj (by simpa [Sys.seek] using hg)
      rw [BitVec.le_def, h.toNat_add hf]
      exact h.moved_le hf size
    · exact h.offset g offset' (by simpa [Sys.seek, hne] using hg)

end

/-- Nothing but the buffer and `dev_opend` changes. -/
theorem Bounded.of_data {s : Sys} (h : Bounded s) {data : DeviceData}
    (hsize : data.size = s.data.size) : Bounded { s with data := data } where
  size := hsize.trans h.size
  offset f offset hf := by
    rw [hsize]
    exact h.offset f offset hf

/-- A file is opened, at offset 0, or closed. -/
theorem Bounded.opened {s : Sys} (h : Bounded s) (f : ℕ) {offset : Option (BitVec 64)}
    (hoffset : ∀ o, offset = some o → o = 0) : Bounded (s.seek f offset) where
  size := h.size
  offset g o hg := by
    rcases eq_or_ne g f with rfl | hne
    · obtain rfl := hoffset o (by simpa [Sys.seek] using hg)
      simp [BitVec.le_def]
    · exact h.offset g o (by simpa [Sys.seek, hne] using hg)

/-- **Every call keeps the offsets within the length.** -/
theorem Bounded.step {s : Sys} (h : Bounded s) (a : Act) : Bounded (step s a) := by
  cases a with
  | openFile f =>
    rcases hf : s.files f with - | offset
    · simp only [Stream.step, call, hf, so2CdevOpen]
      split
      · exact (h.of_data rfl)
      · exact (h.opened f (by simp)).of_data rfl
    · simpa [Stream.step, call, hf] using h
  | release f =>
    rcases hf : s.files f with - | offset
    · simpa [Stream.step, call, hf] using h
    · simp only [Stream.step, call, hf]
      exact (h.opened f (by simp)).of_data rfl
  | read f size =>
    rcases hf : s.files f with - | offset
    · simpa [Stream.step, call, hf] using h
    · simp only [Stream.step, h.call_read hf]
      exact h.seek hf size
  | write f size user =>
    rcases hf : s.files f with - | offset
    · simpa [Stream.step, call, hf] using h
    · simp only [Stream.step, h.call_write hf]
      exact (h.seek hf size).of_data rfl
  | setBuffer f user =>
    rcases hf : s.files f with - | offset
    · simpa [Stream.step, call, hf] using h
    · simp only [Stream.step, call, hf]
      exact h.of_data rfl
  | getBuffer f =>
    rcases hf : s.files f with - | offset
    · simpa [Stream.step, call, hf] using h
    · simpa [Stream.step, call, hf] using h

theorem bounded_run (acts : List Act) : Bounded (run step Sys.start acts) :=
  run_invariant step (fun _ a h => h.step a) acts bounded_start

/-! ### The bytes -/

/-- **What a call stores**: a write the bytes it moves, and `MY_IOCTL_SET_BUFFER` the first
256. -/
def stored (s : Sys) : Act → Option (Stretch (BitVec 8))
  | .write f size user => (s.files f).map fun offset =>
      ⟨offset.toNat, moved s size offset, user⟩
  | .setBuffer f user => (s.files f).map fun _ => ⟨0, bufferSize, user⟩
  | _ => none

theorem buffer_of_stored {s : Sys} {a : Act} {r : Stretch (BitVec 8)} (h : Bounded s)
    (hr : stored s a = some r) : (step s a).data.buffer = r.put s.data.buffer := by
  cases a with
  | write f size user =>
    obtain ⟨offset, hf, rfl⟩ := Option.map_eq_some_iff.mp hr
    simp only [step, h.call_write hf]
    rfl
  | setBuffer f user =>
    obtain ⟨offset, hf, rfl⟩ := Option.map_eq_some_iff.mp hr
    simp only [step, call, hf, setBuffer, copyFromUser_zero]
    rfl
  | openFile | release | read | getBuffer => exact absurd hr (by simp [stored])

theorem buffer_of_not_stored {s : Sys} {a : Act} (hr : stored s a = none) :
    (step s a).data.buffer = s.data.buffer := by
  cases a with
  | write f size user =>
    have hf : s.files f = none := by simpa [stored] using hr
    simp [step, call, hf]
  | setBuffer f user =>
    have hf : s.files f = none := by simpa [stored] using hr
    simp [step, call, hf]
  | openFile f =>
    rcases hf : s.files f with - | offset
    · simp only [step, call, hf, so2CdevOpen]
      split
      · rfl
      · rfl
    · simp [step, call, hf]
  | release f | read f size | getBuffer f =>
    rcases hf : s.files f with - | offset
    · simp [step, call, hf]
    · simp [step, call, hf, so2CdevRelease, Sys.seek]

/-- **The buffer holds what was stored last.** -/
theorem buffer_run (acts : List Act) : (run step Sys.start acts).data.buffer =
    latest so2CdevInit.buffer (trace step stored Sys.start acts) := by
  refine @latest_trace _ _ _ step (fun s => s.data.buffer) stored Bounded (fun _ a h => h.step a)
    ?_ ?_ acts Sys.start bounded_start
  · exact fun s a _ => buffer_of_not_stored
  · exact fun s a r h => buffer_of_stored h

/-! ### Calls in several pieces -/

/-- **Calls with the same effect**: they leave the same behind, put the same bytes in the
user's buffer, and return the same number of them in all. -/
structure SameEffect (s : Sys) (acts acts' : List Act) : Prop where
  after : run step s acts = run step s acts'
  received : received s acts = received s acts'
  returned : (returned s acts).sum = (returned s acts').sum

theorem received_cons (s : Sys) (a : Act) (acts : List Act) :
    received s (a :: acts) =
      ((call s a).map Outcome.out).toList.flatten ++ received (step s a) acts := by
  rw [received, received, trace, List.flatten_append]

theorem returned_cons (s : Sys) (a : Act) (acts : List Act) :
    returned s (a :: acts) =
      ((call s a).map Outcome.ret).toList ++ returned (step s a) acts := rfl

/-- The pieces after the first, as one. -/
theorem SameEffect.cons {s : Sys} {a b c : Act} {acts : List Act}
    (hrest : SameEffect (step s a) acts [b]) (htwo : SameEffect s [a, b] [c]) :
    SameEffect s (a :: acts) [c] where
  after := by
    rw [run_cons, hrest.after]
    exact htwo.after
  received := by
    rw [received_cons, hrest.received, ← received_cons, htwo.received]
  returned := by
    rw [returned_cons, List.sum_append, hrest.returned, ← List.sum_append, ← returned_cons,
      htwo.returned]

/-- The effect of a call that can be made. -/
theorem effect_of_call {s : Sys} {a : Act} {o : Outcome} (h : call s a = some o)
    (acts : List Act) :
    run step s (a :: acts) = run step o.after acts ∧
      received s (a :: acts) = o.out ++ received o.after acts ∧
        (returned s (a :: acts)).sum = o.ret + (returned o.after acts).sum := by
  have hstep : step s a = o.after := by simp [step, h]
  refine ⟨by rw [run_cons, hstep], ?_, ?_⟩
  · rw [received_cons, hstep, h]
    simp
  · rw [returned_cons, hstep, h]
    simp

/-- Calls that cannot be made. -/
theorem effect_of_none {s : Sys} : ∀ {acts : List Act}, (∀ a ∈ acts, call s a = none) →
    run step s acts = s ∧ received s acts = [] ∧ (returned s acts).sum = 0
  | [], _ => ⟨rfl, rfl, rfl⟩
  | a :: acts, h => by
    have hcall := h a List.mem_cons_self
    have hstep : step s a = s := by simp [step, hcall]
    obtain ⟨hrun, hout, hret⟩ := effect_of_none fun b hb => h b (List.mem_cons_of_mem a hb)
    rw [run_cons, received_cons, returned_cons, hcall, hstep]
    exact ⟨hrun, hout, hret⟩

theorem SameEffect.of_none {s : Sys} {acts acts' : List Act} (h : ∀ a ∈ acts, call s a = none)
    (h' : ∀ a ∈ acts', call s a = none) : SameEffect s acts acts' := by
  obtain ⟨hrun, hout, hret⟩ := effect_of_none h
  obtain ⟨hrun', hout', hret'⟩ := effect_of_none h'
  exact ⟨hrun.trans hrun'.symm, hout.trans hout'.symm, hret.trans hret'.symm⟩

section

variable {s : Sys} {f : ℕ} {a b c : BitVec 64}

/-- What the second of two pieces moves. -/
theorem moved_next (h : Bounded s) {offset : BitVec 64} (hf : s.files f = some offset) :
    moved s b (offset + BitVec.ofNat 64 (moved s a offset)) =
      clip s.data.size.toNat (offset.toNat + moved s a offset) b.toNat := by
  rw [moved, h.toNat_add hf]
  rfl

/-- The numbers of bytes two pieces move. -/
theorem moved_add (h : Bounded s) {offset : BitVec 64} (hf : s.files f = some offset)
    (hc : a.toNat + b.toNat = c.toNat) : moved s c offset =
      moved s a offset + moved s b (offset + BitVec.ofNat 64 (moved s a offset)) := by
  have hadd := clip_add s.data.size.toNat offset.toNat a.toNat b.toNat
  rw [hc] at hadd
  rw [moved_next h hf]
  exact hadd

theorem files_seek_self (s : Sys) (f : ℕ) (o : Option (BitVec 64)) : (s.seek f o).files f = o :=
  Function.update_self ..

/-- Two moves of a file. -/
theorem seek_seek (s : Sys) (f : ℕ) (o o' : Option (BitVec 64)) :
    (s.seek f o).seek f o' = s.seek f o' := by
  simp [Sys.seek]

/-- The offset two pieces leave. -/
theorem add_moved (h : Bounded s) {offset : BitVec 64} (hf : s.files f = some offset)
    (hc : a.toNat + b.toNat = c.toNat) :
    offset + BitVec.ofNat 64 (moved s a offset) +
        BitVec.ofNat 64 (moved s b (offset + BitVec.ofNat 64 (moved s a offset))) =
      offset + BitVec.ofNat 64 (moved s c offset) := by
  rw [moved_add h hf hc, BitVec.ofNat_add, BitVec.add_assoc]

/-- The bytes two pieces read. -/
theorem load_moved (h : Bounded s) {offset : BitVec 64} (hf : s.files f = some offset)
    (hc : a.toNat + b.toNat = c.toNat) (m : ℕ → BitVec 8) :
    load m offset.toNat (moved s a offset) ++
        load m (offset + BitVec.ofNat 64 (moved s a offset)).toNat
          (moved s b (offset + BitVec.ofNat 64 (moved s a offset))) =
      load m offset.toNat (moved s c offset) := by
  rw [moved_add h hf hc, load_add, h.toNat_add hf]

/-- The bytes two pieces write. -/
theorem store_moved (h : Bounded s) {offset : BitVec 64} (hf : s.files f = some offset)
    (hc : a.toNat + b.toNat = c.toNat) (m user : ℕ → BitVec 8) :
    store (store m offset.toNat (moved s a offset) user)
        (offset + BitVec.ofNat 64 (moved s a offset)).toNat
        (moved s b (offset + BitVec.ofNat 64 (moved s a offset)))
        (fun i => user (a.toNat + i)) =
      store m offset.toNat (moved s c offset) user := by
  have hstore := store_clip_add m s.data.size.toNat offset.toNat a.toNat b.toNat user
  rw [hc] at hstore
  rw [h.toNat_add hf, moved_next h hf]
  exact hstore

/-- **A read in two pieces.** -/
theorem two_reads (h : Bounded s) (hc : a.toNat + b.toNat = c.toNat) :
    SameEffect s [.read f a, .read f b] [.read f c] := by
  rcases hf : s.files f with - | offset
  · exact .of_none (by simp [call, hf]) (by simp [call, hf])
  · have hf' := files_seek_self s f (some (offset + BitVec.ofNat 64 (moved s a offset)))
    obtain ⟨hrun, hout, hret⟩ := effect_of_call (h.call_read hf a) [.read f b]
    obtain ⟨hrun₂, hout₂, hret₂⟩ := effect_of_call ((h.seek hf a).call_read hf' b) []
    obtain ⟨hrun', hout', hret'⟩ := effect_of_call (h.call_read hf c) []
    refine ⟨?_, ?_, ?_⟩
    · rw [hrun, hrun₂, hrun', run_nil, run_nil, seek_seek]
      exact congrArg (fun o => s.seek f (some o)) (add_moved h hf hc)
    · rw [hout, hout₂, hout', ← List.append_assoc]
      exact congrArg (· ++ []) (load_moved h hf hc s.data.buffer)
    · rw [hret, hret₂, hret', moved_add h hf hc, ← Int.add_assoc, Int.natCast_add]
      rfl

/-- **A write in two pieces.** -/
theorem two_writes (h : Bounded s) (user : ℕ → BitVec 8) (hc : a.toNat + b.toNat = c.toNat) :
    SameEffect s [.write f a user, .write f b fun i => user (a.toNat + i)] [.write f c user] := by
  rcases hf : s.files f with - | offset
  · exact .of_none (by simp [call, hf]) (by simp [call, hf])
  · have hf' := files_seek_self s f (some (offset + BitVec.ofNat 64 (moved s a offset)))
    have hbounded : Bounded { s.seek f (some (offset + BitVec.ofNat 64 (moved s a offset))) with
        data := { s.data with
          buffer := store s.data.buffer offset.toNat (moved s a offset) user } } :=
      (h.seek hf a).of_data rfl
    obtain ⟨hrun, hout, hret⟩ := effect_of_call (h.call_write hf a user)
      [.write f b fun i => user (a.toNat + i)]
    obtain ⟨hrun₂, hout₂, hret₂⟩ :=
      effect_of_call (hbounded.call_write hf' b fun i => user (a.toNat + i)) []
    obtain ⟨hrun', hout', hret'⟩ := effect_of_call (h.call_write hf c user) []
    refine ⟨?_, ?_, ?_⟩
    · rw [hrun, hrun₂, hrun', run_nil, run_nil]
      have hoffset := add_moved h hf hc
      have hstore := store_moved h hf hc s.data.buffer user
      simp only [Sys.seek, Function.update_idem, Sys.mk.injEq, DeviceData.mk.injEq, and_true]
      exact ⟨hstore, congrArg (fun o => Function.update s.files f (some o)) hoffset⟩
    · rw [hout, hout₂, hout']
      rfl
    · rw [hret, hret₂, hret', moved_add h hf hc, ← Int.add_assoc, Int.natCast_add]
      rfl

/-- A read or a write of no bytes. -/
theorem seek_none {offset : BitVec 64} (hf : s.files f = some offset)
    (hc : c.toNat = 0) : moved s c offset = 0 ∧
      s.seek f (some (offset + BitVec.ofNat 64 (moved s c offset))) = s := by
  have hnone : moved s c offset = 0 := by
    rw [moved, hc]
    exact Nat.zero_min _
  refine ⟨hnone, ?_⟩
  rw [hnone, Sys.seek]
  simp [← hf]

theorem no_reads (h : Bounded s) (hc : c.toNat = 0) : SameEffect s [] [.read f c] := by
  rcases hf : s.files f with - | offset
  · exact .of_none (by simp) (by simp [call, hf])
  · obtain ⟨hnone, hseek⟩ := seek_none hf hc
    obtain ⟨hrun, hout, hret⟩ := effect_of_call (h.call_read hf c) []
    rw [hseek, hnone] at *
    exact ⟨hrun.symm, hout.symm, hret.symm⟩

theorem no_writes (h : Bounded s) (user : ℕ → BitVec 8) (hc : c.toNat = 0) :
    SameEffect s [] [.write f c user] := by
  rcases hf : s.files f with - | offset
  · exact .of_none (by simp) (by simp [call, hf])
  · obtain ⟨hnone, hseek⟩ := seek_none hf hc
    obtain ⟨hrun, hout, hret⟩ := effect_of_call (h.call_write hf c user) []
    rw [hseek, hnone, store_zero] at *
    exact ⟨hrun.symm, hout.symm, hret.symm⟩

end

/-- A write in consecutive pieces. -/
def writes (f : ℕ) : (ℕ → BitVec 8) → List (BitVec 64) → List Act
  | _, [] => []
  | user, size :: sizes => .write f size user :: writes f (fun i => user (size.toNat + i)) sizes

/-- The rest of the pieces, as one size. -/
theorem exists_rest {size : BitVec 64} {n : ℕ} {sizes : List (BitVec 64)}
    (h : n + (sizes.map BitVec.toNat).sum = size.toNat) :
    ∃ rest : BitVec 64,
      (sizes.map BitVec.toNat).sum = rest.toNat ∧ n + rest.toNat = size.toNat := by
  have hlt : (sizes.map BitVec.toNat).sum < 2 ^ 64 := by
    have := size.isLt
    omega
  refine ⟨BitVec.ofNat 64 (sizes.map BitVec.toNat).sum, ?_, ?_⟩
  · rw [BitVec.toNat_ofNat, Nat.mod_eq_of_lt hlt]
  · rw [BitVec.toNat_ofNat, Nat.mod_eq_of_lt hlt, h]

/-- **A read in any pieces.** -/
theorem split_reads (f : ℕ) : ∀ (sizes : List (BitVec 64)) {s : Sys} {size : BitVec 64},
    Bounded s → (sizes.map BitVec.toNat).sum = size.toNat →
      SameEffect s (sizes.map (.read f)) [.read f size]
  | [], _, _, h, hsum => no_reads h hsum.symm
  | first :: sizes, s, size, h, hsum => by
    obtain ⟨rest, hrest, hadd⟩ := exists_rest hsum
    exact (split_reads f sizes (h.step (.read f first)) hrest).cons (two_reads h hadd)

/-- **A write in any pieces.** -/
theorem split_writes (f : ℕ) : ∀ (sizes : List (BitVec 64)) {s : Sys} {size : BitVec 64}
    (user : ℕ → BitVec 8), Bounded s → (sizes.map BitVec.toNat).sum = size.toNat →
      SameEffect s (writes f user sizes) [.write f size user]
  | [], _, _, user, h, hsum => no_writes h user hsum.symm
  | first :: sizes, s, size, user, h, hsum => by
    obtain ⟨rest, hrest, hadd⟩ := exists_rest hsum
    exact (split_writes f sizes _ (h.step (.write f first user)) hrest).cons
      (two_writes h user hadd)

/-! ### The file -/

/-- **The device is a file of fixed length**, with given bytes: the calls return, move and
store what they would on such a file, and nothing else. What `MY_IOCTL_SET_BUFFER` returns is
left open. -/
structure IsFile (s : Sys) (content : ℕ → BitVec 8) : Prop where
  size : s.data.size = so2CdevInit.size
  offset : ∀ f offset, s.files f = some offset → offset ≤ s.data.size
  bytes : s.data.buffer = content
  opens : ∀ f, s.files f = none → s.data.devOpend = 0 →
    call s (.openFile f) = some ⟨0, [], { s.seek f (some 0) with data := (so2CdevOpen s.data).2 }⟩
  read : ∀ f offset size, s.files f = some offset →
    call s (.read f size) = some ⟨moved s size offset,
      load content offset.toNat (moved s size offset),
      s.seek f (some (offset + BitVec.ofNat 64 (moved s size offset)))⟩
  write : ∀ f offset size user, s.files f = some offset →
    call s (.write f size user) = some ⟨moved s size offset, [],
      { s.seek f (some (offset + BitVec.ofNat 64 (moved s size offset))) with
        data := { s.data with
          buffer := store content offset.toNat (moved s size offset) user } }⟩
  setBuffer : ∀ f offset user, s.files f = some offset →
    ∃ ret, call s (.setBuffer f user) = some ⟨ret, [],
      { s with data := { s.data with buffer := store content 0 bufferSize user } }⟩
  getBuffer : ∀ f offset, s.files f = some offset →
    call s (.getBuffer f) = some ⟨0, load content 0 bufferSize, s⟩
  reads : ∀ (f : ℕ) (size : BitVec 64) (sizes : List (BitVec 64)),
    (sizes.map BitVec.toNat).sum = size.toNat →
      SameEffect s (sizes.map (.read f)) [.read f size]
  writes : ∀ (f : ℕ) (size : BitVec 64) (sizes : List (BitVec 64)) (user : ℕ → BitVec 8),
    (sizes.map BitVec.toNat).sum = size.toNat →
      SameEffect s (writes f user sizes) [.write f size user]

/-- **`so2_cdev` is a file of fixed length.** After any calls on any files, whose bytes are
those stored last: by the stream where a write at some offset reached, by
`MY_IOCTL_SET_BUFFER` in the first 256. -/
theorem byte_file (acts : List Act) : IsFile (run step Sys.start acts)
    (latest so2CdevInit.buffer (trace step stored Sys.start acts)) := by
  have hbounded := bounded_run acts
  rw [← buffer_run acts]
  exact {
    size := hbounded.size
    offset := hbounded.offset
    bytes := rfl
    opens := fun f hf hfree => by simp [call, hf, so2CdevOpen, hfree]
    read := fun f offset size hf => hbounded.call_read hf size
    write := fun f offset size user hf => hbounded.call_write hf size user
    setBuffer := fun f offset user hf => by
      simp only [call, hf, Option.map_some, setBuffer, copyFromUser_zero]
      exact ⟨_, rfl⟩
    getBuffer := fun f offset hf => by
      simp only [call, hf, Option.map_some, getBuffer, Bool.false_eq_true, if_false]
    reads := fun f size sizes => split_reads f sizes hbounded
    writes := fun f size sizes user => split_writes f sizes user hbounded }

/-- A free device is opened, and the message is read in two pieces as it is in one. -/
theorem byte_file_message :
    let s := run step Sys.start [.openFile 0]
    call Sys.start (.openFile 0) = some ⟨0, [], s⟩ ∧ s.files 0 = some 0 ∧
      call s (.read 0 105) = some ⟨10, message, s.seek 0 (some 10)⟩ ∧
      received s [.read 0 5, .read 0 100] = message := by
  intro s
  have hread : call s (.read 0 105) = some ⟨10, message, s.seek 0 (some 10)⟩ :=
    (byte_file [.openFile 0]).read 0 0 105 rfl
  have hpieces := (byte_file [.openFile 0]).reads 0 105 [5, 100] (by decide)
  refine ⟨(byte_file []).opens 0 rfl rfl, rfl, hread, hpieces.received.trans ?_⟩
  rw [(effect_of_call hread []).2.1]
  rfl

end Stream

end So2Cdev

end KernelModules
