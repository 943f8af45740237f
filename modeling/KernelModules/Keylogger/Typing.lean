import Mathlib.Data.List.TakeDrop
import KernelModules.Keylogger.System

/-!
# From the keyboard to the reader

What is typed is what is read: the characters of the keys pressed, in order, however the releases
fall between them and however the reader cuts its requests; the buffer keeps the first 1024 of them
(`KernelModules.Keylogger.typed_read`). And a text can be typed in one way only, with the keys that
have a character of their own (`KernelModules.Keylogger.charKey_injective`).
-/

namespace KernelModules

namespace Keylogger

/-! ### Typing -/

/-- **The characters of the keys pressed**, for the codes of some presses and releases. -/
def typed (codes : List UInt8) : List UInt8 :=
  (codes.filter fun code => isKeyPress code.toUInt32).map charKey

/-- What has been cut off makes no difference to a later cut. -/
theorem take_take_append (n : ℕ) (xs ys : List UInt8) :
    (xs.take n ++ ys).take n = (xs ++ ys).take n := by
  rcases Nat.le_total xs.length n with hle | hge
  · rw [List.take_of_length_le hle]
  · have hlen : (xs.take n).length = n := by simp [hge]
    rw [List.take_append_of_le_length hlen.ge, List.take_append_of_le_length hge, List.take_take,
      Nat.min_self]

/-- One interrupt. -/
theorem queue_code {s : Sys UInt8} (hs : s.dev.Ok) (code : UInt8) :
    (step plain s (.interrupt code)).dev.queue
      = (s.dev.queue ++ typed [code]).take bufferSize := by
  have hlen : s.dev.queue.length ≤ bufferSize := (length_queue s.dev).trans_le hs.count_le
  by_cases hp : isKeyPress code.toUInt32 = true
  · have htyped : typed [code] = [charKey code] := by simp [typed, hp]
    simp only [step, kbdInterruptHandler, if_pos hp, queue_putChar hs, htyped]
    by_cases hroom : s.dev.count < bufferSize
    · rw [if_pos hroom, List.take_of_length_le]
      · rfl
      · rw [List.length_append, length_queue]
        exact hroom
    · have hfull : s.dev.queue.length = bufferSize := by
        rw [length_queue] at hlen ⊢
        omega
      rw [if_neg hroom, List.take_append_of_le_length hfull.ge, List.take_of_length_le hlen]
  · have htyped : typed [code] = [] := by simp [typed, hp]
    simp only [step, kbdInterruptHandler, if_neg hp, htyped, List.append_nil]
    exact (List.take_of_length_le hlen).symm

/-- **The buffer keeps the first characters.** -/
theorem queue_typed (codes : List UInt8) {s : Sys UInt8} (hs : s.dev.Ok) :
    (run (step plain) s (codes.map Act.interrupt)).dev.Ok ∧
      (run (step plain) s (codes.map Act.interrupt)).dev.queue
        = (s.dev.queue ++ typed codes).take bufferSize ∧
      (run (step plain) s (codes.map Act.interrupt)).calls = s.calls := by
  induction codes generalizing s with
  | nil =>
    have hlen : s.dev.queue.length ≤ bufferSize := (length_queue s.dev).trans_le hs.count_le
    refine ⟨hs, ?_, rfl⟩
    simp only [typed, List.filter_nil, List.map_nil, List.append_nil]
    exact (List.take_of_length_le hlen).symm
  | cons code codes ih =>
    obtain ⟨hok, hqueue, hcalls⟩ := ih (interrupt_refines plain hs code).1
    have htyped : typed (code :: codes) = typed [code] ++ typed codes := by
      rw [typed, typed, typed, ← List.map_append, ← List.filter_append, List.singleton_append]
    rw [List.map_cons, run_cons]
    refine ⟨hok, hqueue.trans ?_, hcalls⟩
    rw [queue_code hs, take_take_append, htyped, List.append_assoc]

/-! ### The keys of a text -/

/-- A key with a character of its own is the only one that has it. -/
theorem charKey_injective {code code' : UInt8} (hp : isKeyPress code.toUInt32 = true)
    (hp' : isKeyPress code'.toUInt32 = true) (h : charKey code = charKey code')
    (hown : charKey code ≠ 63) : code = code' := by
  have hfind : ∀ i : Fin 256, isKeyPress (UInt8.ofNat i).toUInt32 = true →
      charKey (UInt8.ofNat i) ≠ 63 →
      ((List.range 128).find? fun k => charKey (UInt8.ofNat k) == charKey (UInt8.ofNat i))
        = some (i : ℕ) := by decide +kernel
  have hone := hfind ⟨code.toNat, code.toNat_lt⟩
  have htwo := hfind ⟨code'.toNat, code'.toNat_lt⟩
  simp only [UInt8.ofNat_toNat] at hone htwo
  have hkey := hone hp hown
  rw [h] at hown
  rw [h, htwo hp' hown] at hkey
  exact UInt8.toNat_inj.mp (Option.some.inj hkey).symm

/-- **What is typed tells which keys were pressed**, if they have characters of their own. -/
theorem typed_injective {codes codes' : List UInt8} (h : typed codes = typed codes')
    (hown : 63 ∉ typed codes) :
    (codes.filter fun code => isKeyPress code.toUInt32)
      = codes'.filter fun code => isKeyPress code.toUInt32 := by
  rw [typed, typed] at h
  rw [typed] at hown
  have hpress : ∀ (cs : List UInt8), ∀ code ∈ cs.filter fun code => isKeyPress code.toUInt32,
      isKeyPress code.toUInt32 = true := fun cs code hcode => (List.mem_filter.mp hcode).2
  have hp := hpress codes
  have hp' := hpress codes'
  generalize (codes.filter fun code => isKeyPress code.toUInt32) = xs at h hown hp ⊢
  generalize (codes'.filter fun code => isKeyPress code.toUInt32) = ys at h hp' ⊢
  induction xs generalizing ys with
  | nil => exact (List.map_eq_nil_iff.mp h.symm).symm
  | cons x xs ih =>
    obtain ⟨y, ys, rfl, hxy, hrest⟩ := List.map_eq_cons_iff.mp h.symm
    simp only [List.map_cons, List.mem_cons, not_or] at hown
    have hone : x = y := charKey_injective (hp x List.mem_cons_self) (hp' y List.mem_cons_self)
      hxy.symm (Ne.symm hown.1)
    rw [hone, ih hown.2 (fun c hc => hp c (List.mem_cons_of_mem x hc)) ys hrest.symm
      fun c hc => hp' c (List.mem_cons_of_mem y hc)]

/-- The `a` key and then the `s` key, with the releases in another order. -/
theorem typed_injective_as :
    ([0x1e, 0x1f, 0x9e, 0x9f].filter fun code : UInt8 => isKeyPress code.toUInt32)
      = [0x1e, 0x9e, 0x1f].filter fun code => isKeyPress code.toUInt32 :=
  typed_injective (by decide) (by decide)

/-! ### Reading -/

/-- A call that goes on. -/
theorem step_iterate {s : Sys UInt8} {r : ℕ} {call : ReadCall UInt8}
    (hr : s.calls r = some call) :
    step plain s (.iterate r false) =
      { s with
        dev := (call.iterate false s.dev).2
        calls := Function.update s.calls r (some (call.iterate false s.dev).1) } := by
  simp only [step, hr]

/-- A call that has returned leaves everything as it is. -/
theorem run_returned {s : Sys UInt8} {r : ℕ} {call : ReadCall UInt8} (hr : s.calls r = some call)
    (hret : call.ret.isSome = true) (k : ℕ) :
    run (step plain) s (List.replicate k (.iterate r false)) = s := by
  induction k with
  | zero => rfl
  | succ k ih =>
    have hone : step plain s (.iterate r false) = s := by
      rw [step_iterate hr, iterate_of_returned hret, ← hr, Function.update_eq_self]
    rw [List.replicate_succ, run_cons, hone, ih]

/-- **What a call that goes on alone reads**: `q` is what the buffer holds. -/
structure Reads (r k : ℕ) (call : ReadCall UInt8) (q : List UInt8) (s s' : Sys UInt8) : Prop where
  ok : s'.dev.Ok
  queue : s'.dev.queue = q.drop k
  others : ∀ d, d ≠ r → s'.calls d = s.calls d
  read : ∃ call', s'.calls r = some call' ∧ call'.ret = some (call.read + (q.take k).length) ∧
    (∀ i, i < call.pos → call'.user i = call.user i) ∧
    ∀ i, call'.user (call.pos + i) = (q.take k)[i]?.or (call.user (call.pos + i))

theorem reads_alone (k : ℕ) {s : Sys UInt8} {r : ℕ} {call : ReadCall UInt8} (hs : s.dev.Ok)
    (hr : s.calls r = some call) (hret : call.ret = none) (hsize : call.size = k) :
    Reads r k call s.dev.queue s
      (run (step plain) s (List.replicate (k + 1) (.iterate r false))) := by
  induction k generalizing s call with
  | zero =>
    rw [List.replicate_one, run_cons, run_nil, step_iterate hr, iterate_of_size_zero hret hsize]
    refine ⟨hs, rfl, fun d hd => Function.update_of_ne hd _ _, _, Function.update_self .., ?_,
      fun _ _ => rfl, fun _ => rfl⟩
    simp
  | succ k ih =>
    have hgets : call.Gets := ⟨hret, by omega⟩
    rcases Nat.eq_zero_or_pos s.dev.count with hempty | hpos
    · have hqueue : s.dev.queue = [] :=
        List.length_eq_zero_iff.mp ((length_queue s.dev).trans hempty)
      have hget := getChar_of_empty hempty
      have hone := step_iterate hr
      rw [iterate_of_empty hgets hget] at hone
      rw [List.replicate_succ, run_cons, hone]
      rw [run_returned (Function.update_self ..) rfl]
      refine ⟨hs, ?_, fun d hd => Function.update_of_ne hd _ _, _, Function.update_self .., ?_,
        fun _ _ => rfl, fun _ => ?_⟩
      · simp [hqueue]
      · simp [hqueue]
      · simp [hqueue]
    · obtain ⟨c, data', hget, hok, hqueue⟩ := getChar_of_pos hs hpos
      have hone := step_iterate hr
      rw [iterate_of_char hgets hget] at hone
      rw [List.replicate_succ, run_cons, hone]
      obtain ⟨hok', hrest, hothers, call', hcall', hret', hbefore, hafter⟩ :=
        @ih ⟨data', Function.update s.calls r (some ⟨call.request, call.size - 1,
          Function.update call.user call.pos (some c), call.pos + 1, call.read + 1, call.ret⟩),
          s.accepted, s.discarded⟩ _ hok (Function.update_self ..) hret (by simp [hsize])
      refine ⟨hok', ?_, ?_, call', hcall', ?_, ?_, ?_⟩
      · rw [hrest, hqueue, List.drop_succ_cons]
      · intro d hd
        rw [hothers d hd]
        exact Function.update_of_ne hd _ _
      · rw [hret', hqueue, List.take_succ_cons, List.length_cons]
        push_cast
        congr 1
        omega
      · intro i hi
        rw [hbefore i (Nat.lt_succ_of_lt hi)]
        exact Function.update_of_ne hi.ne _ _
      · intro i
        rw [hqueue, List.take_succ_cons]
        cases i with
        | zero =>
          rw [Nat.add_zero, hbefore call.pos (Nat.lt_succ_self _)]
          simp
        | succ i =>
          have hi := hafter i
          have hpos : call.pos + (i + 1) = call.pos + 1 + i := by omega
          have hcell : call.pos + 1 + i ≠ call.pos := by omega
          rw [hpos, hi, List.getElem?_cons_succ]
          congr 1
          exact Function.update_of_ne hcell _ _

/-- A call of `kbd_read`, from its entry to its return. -/
def reading (r size : ℕ) : List Act :=
  .enter r size :: List.replicate (size + 1) (.iterate r false)

/-- Calls one after the other, the first of them with number `r`. -/
def readings : ℕ → List ℕ → List Act
  | _, [] => []
  | r, size :: sizes => reading r size ++ readings (r + 1) sizes

/-- **What a call has read.** -/
def Has (s : Sys UInt8) (r : ℕ) (bytes : List UInt8) : Prop :=
  ∃ call, s.calls r = some call ∧ call.ret = some (bytes.length : ℤ) ∧ ∀ i, call.user i = bytes[i]?

/-- A call that nothing comes between. -/
theorem run_reading {s : Sys UInt8} (hs : s.dev.Ok) {r : ℕ} (hr : s.calls r = none) (size : ℕ) :
    let s' := run (step plain) s (reading r size)
    s'.dev.Ok ∧ s'.dev.queue = s.dev.queue.drop size ∧ (∀ d, d ≠ r → s'.calls d = s.calls d) ∧
      Has s' r (s.dev.queue.take size) := by
  have henter : step plain s (.enter r size)
      = { s with calls := Function.update s.calls r (some (ReadCall.enter size)) } := by
    simp only [step, hr]
  intro s'
  obtain ⟨hok, hqueue, hothers, call, hcall, hret, -, huser⟩ :=
    @reads_alone size { s with calls := Function.update s.calls r (some (ReadCall.enter size)) } r
      (ReadCall.enter size) hs (Function.update_self ..) rfl rfl
  have hs' : s' = run (step plain)
      { s with calls := Function.update s.calls r (some (ReadCall.enter size)) }
      (List.replicate (size + 1) (.iterate r false)) := by
    rw [← henter]
    rfl
  rw [← hs'] at hok hqueue hothers hcall
  refine ⟨hok, hqueue, fun d hd => ?_, call, hcall, ?_, fun i => ?_⟩
  · rw [hothers d hd]
    exact Function.update_of_ne hd _ _
  · rw [hret]
    simp [ReadCall.enter]
  · have hi := huser i
    simpa [ReadCall.enter] using hi

/-- **Calls one after the other share out what is in the buffer**, in order. -/
theorem run_readings (sizes : List ℕ) {s : Sys UInt8} (hs : s.dev.Ok) {r : ℕ}
    (hr : ∀ d, r ≤ d → s.calls d = none) :
    let s' := run (step plain) s (readings r sizes)
    (∀ d, d < r → s'.calls d = s.calls d) ∧
      ∀ j size, sizes[j]? = some size →
        Has s' (r + j) ((s.dev.queue.drop (sizes.take j).sum).take size) := by
  induction sizes generalizing s r with
  | nil => exact ⟨fun _ _ => rfl, fun j size hj => absurd hj (by simp)⟩
  | cons size sizes ih =>
    obtain ⟨hok, hqueue, hothers, hhas⟩ := run_reading hs (hr r (le_refl r)) size
    have hfree : ∀ d, r + 1 ≤ d →
        (run (step plain) s (reading r size)).calls d = none := by
      intro d hd
      rw [hothers d (by omega)]
      exact hr d (by omega)
    obtain ⟨hbefore, hrest⟩ := ih hok hfree
    intro s'
    have hs' : s' = run (step plain) (run (step plain) s (reading r size))
        (readings (r + 1) sizes) := run_append _ _ _ _
    rw [← hs'] at hbefore hrest
    refine ⟨fun d hd => ?_, fun j n hj => ?_⟩
    · rw [hbefore d (by omega), hothers d (by omega)]
    · cases j with
      | zero =>
        obtain ⟨call, hcall, hread⟩ := hhas
        have hn : size = n := by simpa using hj
        refine ⟨call, ?_, ?_⟩
        · rw [Nat.add_zero, hbefore r (by omega), hcall]
        · simpa [hn] using hread
      | succ j =>
        have hnext := hrest j n (by simpa using hj)
        rw [hqueue, List.drop_drop] at hnext
        rw [List.take_succ_cons, List.sum_cons]
        have hnum : r + (j + 1) = r + 1 + j := by omega
        rwa [hnum]

/-- **What is typed is what is read.** The keys pressed, of which the buffer keeps the first 1024
characters, are read in order by calls of any sizes: each returns how many characters it has
stored, and the next one goes on where it has stopped. -/
theorem typed_read (codes : List UInt8) (sizes : List ℕ) (j size : ℕ)
    (hj : sizes[j]? = some size) :
    Has (run (step plain) (Sys.init 0) (codes.map Act.interrupt ++ readings 0 sizes)) j
      ((((typed codes).take 1024).drop (sizes.take j).sum).take size) := by
  obtain ⟨hok, hqueue, hcalls⟩ := queue_typed codes (s := Sys.init 0) (ok_init 0)
  have hfree : ∀ d, 0 ≤ d →
      (run (step plain) (Sys.init 0) (codes.map Act.interrupt)).calls d = none := by
    intro d _
    rw [hcalls]
    rfl
  have hread := (run_readings sizes hok hfree).2 j size hj
  have hempty : (Sys.init (0 : UInt8)).dev.queue = [] := rfl
  rw [hqueue, hempty, List.nil_append, Nat.zero_add] at hread
  rwa [run_append]

/-- `a` and `s` are typed, and the second of two calls reads the `s`. -/
theorem typed_read_as :
    Has (run (step plain) (Sys.init 0)
      ([0x1e, 0x9e, 0x1f].map Act.interrupt ++ readings 0 [1, 2])) 1 [115] := by
  have hread := typed_read [0x1e, 0x9e, 0x1f] [1, 2] 1 2 rfl
  have hlist :
      (((typed [0x1e, 0x9e, 0x1f]).take 1024).drop ([1, 2].take 1).sum).take 2 = [115] := by
    decide
  rwa [hlist] at hread

end Keylogger

end KernelModules
