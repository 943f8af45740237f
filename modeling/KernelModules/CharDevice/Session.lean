import KernelModules.CharDevice.Ioctl

/-!
# The sessions of the counting device

`device_drivers/chardev/char_dev_example.c`: a device that tells whoever opens it how often
it has been opened. `device_open` tries `already_open`, and the one that gets it has
`sprintf` write the text into `msg`; `device_read` hands the text out in pieces of any
length, and `device_release` gives `already_open` back. The lock is held from one call to
the next, from the open to the release: it is the try-lock of `KernelModules.Lib.TryLock`
again, with sessions in the place of calls.

The bytes of `sprintf` and of `device_read` are steps of their own. The state counts the
opens that have got in, which the module does only modulo `2 ^ 32`
(`KernelModules.CharDevice.Session.Kept`).

A read of length zero returns `0`, like one at the end of the text, and at the end of the
text it sends the offset back to the start. `KernelModules.CharDevice.Session.Midway` is
what sets the two apart.
-/

namespace KernelModules

namespace CharDevice

namespace Session

/-! ### The text -/

/-- The bytes of a string. -/
def bytes (cs : List Char) : List (BitVec 8) := cs.map fun ch => BitVec.ofNat 8 ch.toNat

/-- What `%d` prints. -/
def decimal (d : ℤ) : List Char :=
  if d < 0 then '-' :: Nat.toDigits 10 d.natAbs else Nat.toDigits 10 d.natAbs

/-- What `sprintf` prints, without the NUL at its end. -/
def format (d : BitVec 32) : List (BitVec 8) :=
  bytes ("I already told you ".toList ++ decimal d.toInt ++ " times Hello world!\n".toList)

/-- What the session of the open after `k` others is told. -/
def text (k : ℕ) : List (BitVec 8) := format (BitVec.ofNat 32 k)

/-! ### States and steps -/

/-- A `device_read` that is over. -/
structure Read where
  /-- The length asked for. -/
  length : ℕ
  /-- The bytes it has put in the user's buffer; it has returned their number. -/
  chunk : List (BitVec 8)
deriving DecidableEq

/-- What the reads have put in the user's buffers, one after the other. -/
def told (reads : List Read) : List (BitVec 8) := reads.flatMap Read.chunk

/-- Where an open file stands. -/
inductive Place where
  /-- `device_open`, before `atomic_cmpxchg`. -/
  | opening : Place
  /-- `device_open` has returned `-EBUSY`. -/
  | refused : Place
  /-- `device_open`, before `counter++`. -/
  | counting : Place
  /-- In `sprintf`, before the byte `i` of what it prints. -/
  | printing (k : ℕ) (d : BitVec 32) (i : ℕ) : Place
  /-- Open, with no call in progress. -/
  | session (k offset : ℕ) (reads : List Read) : Place
  /-- In the loop of `device_read`; `left` is what is left of `length`. -/
  | copying (k offset : ℕ) (reads : List Read) (length left : ℕ) (out : List (BitVec 8)) : Place
  /-- After `device_release`. -/
  | closed : Place
deriving DecidableEq

/-- What the files share. -/
structure Device where
  /-- `msg`, and the memory behind it. -/
  msg : ℕ → BitVec 8
  /-- `counter`. -/
  counter : BitVec 32
  /-- How many opens have got in. -/
  opens : ℕ

/-- The device and its files. -/
structure Sys extends Device where
  /-- `already_open`. -/
  alreadyOpen : OpenState
  /-- The files, by number. -/
  files : ℕ → Option Place

/-- The module, just loaded; `beyond` is the memory behind `msg`. -/
def Sys.start (beyond : ℕ → BitVec 8) : Sys where
  msg i := if i ≤ bufLen then 0 else beyond i
  counter := 0
  opens := 0
  alreadyOpen := .notUsed
  files _ := none

/-- A file moves. -/
def Sys.put (s : Sys) (c : ℕ) (p : Place) : Sys :=
  { s with files := Function.update s.files c (some p) }

/-- What can happen next. -/
inductive Act where
  /-- `device_open` is called. -/
  | deviceOpen (c : ℕ) : Act
  /-- The call in progress goes on. -/
  | go (c : ℕ) : Act
  /-- `device_read` is called. -/
  | deviceRead (c length : ℕ) : Act
  /-- `device_release` is called. -/
  | deviceRelease (c : ℕ) : Act
deriving DecidableEq

/-- Whose step it is. -/
def Act.file : Act → ℕ
  | .deviceOpen c => c
  | .go c => c
  | .deviceRead c _ => c
  | .deviceRelease c => c

/-- **One step of a call.** -/
def stepCall (s : Sys) (c : ℕ) : Place → Sys
  | .opening =>
    match s.alreadyOpen with
    | .notUsed => { s.put c .counting with alreadyOpen := .exclusiveOpen }
    | .exclusiveOpen => s.put c .refused
  | .counting =>
    { s.put c (.printing s.opens s.counter 0) with
      counter := s.counter + 1
      opens := s.opens + 1 }
  | .printing k d i =>
    -- the NUL is written as well
    if i ≤ (format d).length then
      { s.put c (.printing k d (i + 1)) with
        msg := Function.update s.msg i ((format d).getD i 0) }
    else s.put c (.session k 0 [])
  | .copying k offset reads length left out =>
    if left ≠ 0 ∧ s.msg (offset + out.length) ≠ 0 then
      s.put c (.copying k offset reads length (left - 1) (out ++ [s.msg (offset + out.length)]))
    else s.put c (.session k (offset + out.length) (reads ++ [⟨length, out⟩]))
  | _ => s

/-- `device_read` begins. -/
def deviceRead (s : Sys) (c length : ℕ) : Place → Sys
  | .session k offset reads =>
    -- at the end of the message the offset is reset
    if s.msg offset = 0 then s.put c (.session k 0 (reads ++ [⟨length, []⟩]))
    else s.put c (.copying k offset reads length length [])
  | _ => s

/-- `device_release`. -/
def deviceRelease (s : Sys) (c : ℕ) : Place → Sys
  | .session _ _ _ => { s.put c .closed with alreadyOpen := .notUsed }
  | _ => s

/-- **One step.** -/
def step (s : Sys) (a : Act) : Sys :=
  match s.files a.file, a with
  | none, .deviceOpen c => s.put c .opening
  | some p, .go c => stepCall s c p
  | some p, .deviceRead c length => deviceRead s c length p
  | some p, .deviceRelease c => deviceRelease s c p
  | _, _ => s

/-- The open has got in, and its file is not released. -/
def Place.inside : Place → Bool
  | .opening => false
  | .refused => false
  | .closed => false
  | _ => true

/-- The session: how many opens got in before it, and its reads so far. -/
def Place.tells : Place → Option (ℕ × List Read)
  | .session k _ reads => some (k, reads)
  | .copying k _ reads _ _ _ => some (k, reads)
  | _ => none

/-! ### What `sprintf` prints -/

/-- **The text fits**, whatever the counter. -/
theorem length_format_lt (d : BitVec 32) : (format d).length < bufLen := by
  have hdigits : (Nat.toDigits 10 d.toInt.natAbs).length ≤ 10 := by
    rw [Nat.length_toDigits_le_iff (by decide) (by decide)]
    have hlow := BitVec.le_toInt d
    have hhigh := BitVec.toInt_lt (x := d)
    omega
  have hdecimal : (decimal d.toInt).length ≤ 11 := by
    rw [decimal]
    split
    · rw [List.length_cons]
      omega
    · omega
  have hstart : "I already told you ".toList.length = 19 := by decide
  have hend : " times Hello world!\n".toList.length = 20 := by decide
  rw [format, bytes, List.length_map, List.length_append, List.length_append, hstart, hend, bufLen]
  omega

-- the counter has wrapped around
example : text (2 ^ 31)
    = bytes "I already told you -2147483648 times Hello world!\n".toList := by
  decide +kernel

/-- Characters other than NUL that fit a byte give no NUL. -/
theorem not_mem_bytes {cs : List Char} (h : ∀ ch ∈ cs, 0 < ch.toNat ∧ ch.toNat < 256) :
    0 ∉ bytes cs := by
  intro hz
  obtain ⟨ch, hch, hzero⟩ := List.mem_map.mp hz
  obtain ⟨hpos, hlt⟩ := h ch hch
  have hnat := congrArg BitVec.toNat hzero
  simp only [BitVec.toNat_ofNat, BitVec.ofNat_eq_ofNat] at hnat
  omega

/-- Digits and the sign are such characters. -/
theorem decimal_range (d : ℤ) : ∀ ch ∈ decimal d, 0 < ch.toNat ∧ ch.toNat < 256 := by
  have hdigit : ∀ ch ∈ Nat.toDigits 10 d.natAbs, 0 < ch.toNat ∧ ch.toNat < 256 := by
    intro ch hch
    have hd := Nat.isDigit_of_mem_toDigits (by decide) (by decide) hch
    simp only [Char.isDigit, Bool.and_eq_true, decide_eq_true_eq] at hd
    have hlow : (48 : ℕ) ≤ ch.toNat := hd.1
    have hhigh : ch.toNat ≤ (57 : ℕ) := hd.2
    omega
  rw [decimal]
  split
  · intro ch hch
    rcases List.mem_cons.mp hch with rfl | hch
    · decide
    · exact hdigit ch hch
  · exact hdigit

/-- The text has no NUL in it. -/
theorem zero_not_mem_format (d : BitVec 32) : 0 ∉ format d := by
  have hstart : 0 ∉ bytes "I already told you ".toList := by decide
  have hdecimal : 0 ∉ bytes (decimal d.toInt) := not_mem_bytes (decimal_range _)
  have hend : 0 ∉ bytes " times Hello world!\n".toList := by decide
  intro hz
  rw [format, bytes, List.map_append, List.map_append] at hz
  rcases List.mem_append.mp hz with hz | hz
  · rcases List.mem_append.mp hz with hz | hz
    · exact hstart hz
    · exact hdecimal hz
  · exact hend hz

/-- **What has been printed is the text.** -/
theorem stores_format {msg : ℕ → BitVec 8} {d : BitVec 32}
    (hbytes : ∀ j, j < (format d).length + 1 → msg j = (format d).getD j 0)
    (hfinal : msg bufLen = 0) : Stores msg (format d) where
  short := (length_format_lt d).le
  noNul := zero_not_mem_format d
  bytes i hi := hbytes i (by omega)
  final := hfinal

/-! ### What a session has read -/

/-- **No read has come to the end of the text yet**: one that returned `0` had length zero,
and was made before the whole text had been read. -/
def Midway (str : List (BitVec 8)) (reads : List Read) : Prop :=
  ∀ pre length post, reads = pre ++ ⟨length, []⟩ :: post → length = 0 ∧ told pre ≠ str

theorem Midway.of_append {str : List (BitVec 8)} {reads more : List Read}
    (h : Midway str (reads ++ more)) : Midway str reads := by
  rintro pre length post rfl
  exact h pre length (post ++ more) (by simp)

@[simp]
theorem told_append (reads more : List Read) : told (reads ++ more) = told reads ++ told more :=
  List.flatMap_append

@[simp]
theorem told_singleton (r : Read) : told [r] = r.chunk := List.flatMap_singleton ..

/-- **How far the reads of a session have come**: as long as none has come to the end, what
they have been told is the text up to the offset; and the first that does, asking for at
least a byte, comes after the whole text. -/
structure Progress (str : List (BitVec 8)) (offset : ℕ) (reads : List Read) : Prop where
  le : offset ≤ str.length
  sofar : Midway str reads → told reads = str.take offset
  whole : ∀ pre length post, reads = pre ++ ⟨length, []⟩ :: post → 0 < length →
    Midway str pre → told pre = str

section Progress

variable {str : List (BitVec 8)} {offset : ℕ} {reads : List Read}

theorem progress_nil (str : List (BitVec 8)) : Progress str 0 [] where
  le := Nat.zero_le _
  sofar _ := rfl
  whole pre length post h := absurd h (by simp)

/-- The last read of a list, or one before it. -/
theorem split_concat {reads pre post : List Read} {r q : Read}
    (h : reads ++ [r] = pre ++ q :: post) :
    reads = pre ∧ r = q ∧ post = [] ∨ ∃ post', reads = pre ++ q :: post' := by
  rcases List.eq_nil_or_concat post with rfl | ⟨post', r', rfl⟩
  · obtain ⟨hreads, hr⟩ := List.append_inj' h rfl
    exact .inl ⟨hreads, (List.singleton_inj.mp hr), rfl⟩
  · have hassoc : reads ++ [r] = (pre ++ q :: post') ++ [r'] := by
      rw [h]
      simp
    exact .inr ⟨post', (List.append_inj' hassoc rfl).1⟩

/-- A read at the end of the text returns `0`, and the offset is reset. -/
theorem Progress.atEnd (h : Progress str str.length reads) (length : ℕ) :
    Progress str 0 (reads ++ [⟨length, []⟩]) where
  le := Nat.zero_le _
  sofar hmid := by
    have hwhole : told reads = str := by
      rw [h.sofar hmid.of_append, List.take_length]
    exact absurd hwhole (hmid reads length [] rfl).2
  whole pre l post hsplit hl hmid := by
    rcases split_concat hsplit with ⟨rfl, -, -⟩ | ⟨post', hreads⟩
    · rw [h.sofar hmid, List.take_length]
    · exact h.whole pre l post' hreads hl hmid

/-- A read before the end of the text returns what follows there. -/
theorem Progress.further (h : Progress str offset reads) (hlt : offset < str.length)
    {length n : ℕ} (hn : offset + n ≤ str.length) (hlength : 0 < length → 0 < n) :
    Progress str (offset + n) (reads ++ [⟨length, (str.drop offset).take n⟩]) where
  le := hn
  sofar hmid := by
    rw [told_append, told_singleton, h.sofar hmid.of_append, List.take_add]
  whole pre l post hsplit hl hmid := by
    rcases split_concat hsplit with ⟨rfl, hread, -⟩ | ⟨post', hreads⟩
    · -- it asked for a byte, and there was one
      obtain ⟨rfl, hnil⟩ := Read.mk.inj hread
      have hlen := congrArg List.length hnil
      rw [List.length_take, List.length_drop, List.length_nil] at hlen
      have hpos := hlength hl
      omega
    · exact h.whole pre l post' hreads hl hmid

end Progress

/-! ### What holds on every run -/

/-- **What every step keeps**: `counter` is the number of opens that have got in, modulo
`2 ^ 32`, the last byte of `msg` is a NUL, and the memory behind is not touched. -/
structure Kept (beyond : ℕ → BitVec 8) (d : Device) : Prop where
  counter : d.counter = BitVec.ofNat 32 d.opens
  final : d.msg bufLen = 0
  beyond : ∀ i, bufLen < i → d.msg i = beyond i

/-- **What holds while a file is open**, by where it stands. -/
def Local (d : Device) : Place → Prop
  | .printing k arg i =>
    d.opens = k + 1 ∧ arg = BitVec.ofNat 32 k ∧ i ≤ (format arg).length + 1 ∧
      ∀ j, j < i → d.msg j = (format arg).getD j 0
  | .session k offset reads =>
    d.opens = k + 1 ∧ Stores d.msg (text k) ∧ Progress (text k) offset reads
  | .copying k offset reads length left out =>
    d.opens = k + 1 ∧ Stores d.msg (text k) ∧ Progress (text k) offset reads ∧
      offset < (text k).length ∧ left + out.length = length ∧
      offset + out.length ≤ (text k).length ∧ out = ((text k).drop offset).take out.length
  | _ => True

/-- The device behind `already_open`. -/
def lock (beyond : ℕ → BitVec 8) : TryLock Device Place where
  inside := Place.inside
  free := Kept beyond
  own p d := Kept beyond d ∧ Local d p

/-- The device, as far as the lock goes. -/
def Sys.view (s : Sys) : LockView Device Place :=
  ⟨s.alreadyOpen == .exclusiveOpen, s.toDevice, s.files⟩

section Local

variable {beyond : ℕ → BitVec 8} {s : Sys} {c : ℕ}

/-- `counter++`. -/
theorem kept_counting {d : Device} (h : Kept beyond d) :
    Kept beyond { d with counter := d.counter + 1, opens := d.opens + 1 } where
  counter := by
    show d.counter + 1 = BitVec.ofNat 32 (d.opens + 1)
    rw [h.counter]
    exact (BitVec.ofNat_add ..).symm
  final := h.final
  beyond := h.beyond

/-- One byte of `sprintf`. -/
theorem kept_printing {d : Device} (h : Kept beyond d) {arg : BitVec 32} {i : ℕ}
    (hi : i ≤ (format arg).length) (b : BitVec 8) :
    Kept beyond { d with msg := Function.update d.msg i b } := by
  have hlt := length_format_lt arg
  exact ⟨h.counter, (Function.update_of_ne (by omega) ..).trans h.final,
    fun j hj => (Function.update_of_ne (by omega) ..).trans (h.beyond j hj)⟩

theorem local_printing {d : Device} {k i : ℕ} {arg : BitVec 32}
    (h : Local d (.printing k arg i)) (hi : i ≤ (format arg).length) :
    Local { d with msg := Function.update d.msg i ((format arg).getD i 0) }
      (.printing k arg (i + 1)) := by
  obtain ⟨hopens, harg, -, hbytes⟩ := h
  refine ⟨hopens, harg, by omega, fun j hj => ?_⟩
  rcases eq_or_ne j i with rfl | hne
  · exact Function.update_self ..
  · exact (Function.update_of_ne hne ..).trans (hbytes j (by omega))

/-- `sprintf` is done. -/
theorem local_printed {d : Device} {k i : ℕ} {arg : BitVec 32} (hkept : Kept beyond d)
    (h : Local d (.printing k arg i)) (hi : ¬i ≤ (format arg).length) :
    Local d (.session k 0 []) := by
  obtain ⟨hopens, rfl, hle, hbytes⟩ := h
  exact ⟨hopens, stores_format (fun j hj => hbytes j (by omega)) hkept.final, progress_nil _⟩

/-- The loop of `device_read` goes on. -/
theorem local_copying {d : Device} {k offset length left : ℕ} {reads : List Read}
    {out : List (BitVec 8)} (h : Local d (.copying k offset reads length left out))
    (hgo : left ≠ 0 ∧ d.msg (offset + out.length) ≠ 0) :
    Local d (.copying k offset reads length (left - 1)
      (out ++ [d.msg (offset + out.length)])) := by
  obtain ⟨hopens, hstores, hprog, hlt, hleft, hle, hout⟩ := h
  have hin : offset + out.length < (text k).length :=
    lt_of_le_of_ne hle fun heq => hgo.2 ((hstores.eq_zero_iff hle).mpr heq)
  have hdrop : out.length < ((text k).drop offset).length := by
    rw [List.length_drop]
    omega
  have hbyte : d.msg (offset + out.length) = ((text k).drop offset)[out.length] := by
    rw [hstores.bytes _ hle, List.getD_eq_getElem _ _ hin, List.getElem_drop]
  have hlength : (out ++ [d.msg (offset + out.length)]).length = out.length + 1 := by simp
  refine ⟨hopens, hstores, hprog, hlt, by omega, by omega, ?_⟩
  rw [hlength, List.take_succ_eq_append_getElem hdrop, ← hout, hbyte]

/-- The loop of `device_read` is over. -/
theorem local_copied {d : Device} {k offset length left : ℕ} {reads : List Read}
    {out : List (BitVec 8)} (h : Local d (.copying k offset reads length left out))
    (hend : ¬(left ≠ 0 ∧ d.msg (offset + out.length) ≠ 0)) :
    Local d (.session k (offset + out.length) (reads ++ [⟨length, out⟩])) := by
  obtain ⟨hopens, hstores, hprog, hlt, hleft, hle, hout⟩ := h
  have hzero := hstores.eq_zero_iff hle
  have hpos : 0 < length → 0 < out.length := by
    intro hl
    by_contra hnone
    exact hend ⟨by omega, fun hz => absurd (hzero.mp hz) (by omega)⟩
  refine ⟨hopens, hstores, ?_⟩
  have hfurther := hprog.further hlt hle hpos
  rwa [← hout] at hfurther

/-- `device_read` begins. -/
theorem local_read {d : Device} {k offset : ℕ} {reads : List Read}
    (h : Local d (.session k offset reads)) (length : ℕ) :
    (d.msg offset = 0 → Local d (.session k 0 (reads ++ [⟨length, []⟩]))) ∧
      (d.msg offset ≠ 0 → Local d (.copying k offset reads length length [])) := by
  obtain ⟨hopens, hstores, hprog⟩ := h
  have hzero := hstores.eq_zero_iff hprog.le
  refine ⟨fun hz => ?_, fun hz => ?_⟩
  · obtain rfl := hzero.mp hz
    exact ⟨hopens, hstores, hprog.atEnd length⟩
  · have hlt : offset < (text k).length := lt_of_le_of_ne hprog.le fun heq => hz (hzero.mpr heq)
    exact ⟨hopens, hstores, hprog, hlt, rfl, hlt.le, rfl⟩

end Local

/-- **A call inside keeps what it counts on.** -/
theorem stepCall_move {beyond : ℕ → BitVec 8} {s : Sys} {c : ℕ} {p : Place}
    (hc : s.files c = some p) :
    stepCall s c p = s ∨ (lock beyond).Move s.view (stepCall s c p).view := by
  have hat : ∀ q, s.view.parties c = some q → q = p :=
    fun q hq => (Option.some.inj (hc.symm.trans hq)).symm
  cases p with
  | opening =>
    refine .inr ?_
    rw [stepCall]
    cases ho : s.alreadyOpen with
    | notUsed =>
      refine .acquire (by simp [Sys.view, ho]) (fun q hq => ?_) rfl fun hfree => ⟨hfree, trivial⟩
      rw [hat q hq]
      rfl
    | exclusiveOpen =>
      refine .outside (fun q hq => ?_) rfl
      rw [hat q hq]
      rfl
  | counting =>
    refine .inr (.work hc rfl rfl fun hown => ⟨kept_counting hown.1, rfl, hown.1.counter, ?_, ?_⟩)
    · exact Nat.zero_le _
    · exact fun j hj => absurd hj (by omega)
  | printing k d i =>
    refine .inr ?_
    rw [stepCall]
    split
    · have hi : i ≤ (format d).length := ‹_›
      exact .work hc rfl rfl fun hown => ⟨kept_printing hown.1 hi _, local_printing hown.2 hi⟩
    · have hi : ¬i ≤ (format d).length := ‹_›
      exact .work hc rfl rfl fun hown => ⟨hown.1, local_printed hown.1 hown.2 hi⟩
  | copying k offset reads length left out =>
    refine .inr ?_
    rw [stepCall]
    split
    · have hgo : left ≠ 0 ∧ s.msg (offset + out.length) ≠ 0 := ‹_›
      exact .work hc rfl rfl fun hown => ⟨hown.1, local_copying hown.2 hgo⟩
    · have hend : ¬(left ≠ 0 ∧ s.msg (offset + out.length) ≠ 0) := ‹_›
      exact .work hc rfl rfl fun hown => ⟨hown.1, local_copied hown.2 hend⟩
  | refused | session | closed => exact .inl rfl

/-- `device_read` begins, in a session. -/
theorem deviceRead_move {beyond : ℕ → BitVec 8} {s : Sys} {c length : ℕ} {p : Place}
    (hc : s.files c = some p) :
    deviceRead s c length p = s ∨ (lock beyond).Move s.view (deviceRead s c length p).view := by
  cases p with
  | session k offset reads =>
    refine .inr ?_
    rw [deviceRead]
    split
    · have hz : s.msg offset = 0 := ‹_›
      exact .work hc rfl rfl fun hown => ⟨hown.1, (local_read hown.2 length).1 hz⟩
    · have hz : ¬s.msg offset = 0 := ‹_›
      exact .work hc rfl rfl fun hown => ⟨hown.1, (local_read hown.2 length).2 hz⟩
  | opening | refused | counting | printing | copying | closed => exact .inl rfl

/-- **Each step is one the lock allows**, or none at all. -/
theorem step_move (beyond : ℕ → BitVec 8) (s : Sys) (a : Act) :
    step s a = s ∨ (lock beyond).Move s.view (step s a).view := by
  rcases hc : s.files a.file with - | p
  · cases a with
    | deviceOpen c =>
      refine .inr ?_
      simp only [step, hc]
      exact .outside (fun q hq => absurd (hc.symm.trans hq) (by simp)) rfl
    | go | deviceRead | deviceRelease =>
      refine .inl ?_
      simp only [step, hc]
  · cases a with
    | deviceOpen c =>
      refine .inl ?_
      simp only [step, hc]
    | go c =>
      simp only [step, hc]
      exact stepCall_move hc
    | deviceRead c length =>
      simp only [step, hc]
      exact deviceRead_move hc
    | deviceRelease c =>
      simp only [step, hc]
      cases p with
      | session k offset reads => exact .inr (.release hc rfl rfl fun hown => hown.1)
      | opening | refused | counting | printing | copying | closed => exact .inl rfl

theorem kept_start (beyond : ℕ → BitVec 8) : Kept beyond (Sys.start beyond).toDevice where
  counter := rfl
  final := by simp [Sys.start]
  beyond i hi := by simp [Sys.start, Nat.not_le.mpr hi]

theorem owned_start (beyond : ℕ → BitVec 8) : (lock beyond).Owned (Sys.start beyond).view :=
  TryLock.owned_nobody (kept_start beyond)

/-- **On every run the sessions stay out of each other's way.** -/
theorem owned_run (beyond : ℕ → BitVec 8) (acts : List Act) :
    (lock beyond).Owned (run step (Sys.start beyond) acts).view :=
  @run_invariant _ _ step (fun s => (lock beyond).Owned s.view)
    (fun s a h => h.step (step_move beyond s a)) acts _ (owned_start beyond)

/-- What is kept, whether a file is open or not. -/
theorem kept_of_owned {beyond : ℕ → BitVec 8} {s : Sys} (h : (lock beyond).Owned s.view) :
    Kept beyond s.toDevice := by
  cases ho : s.view.held with
  | false => exact h.free ho
  | true =>
    obtain ⟨c, p, hc, hin⟩ := h.held_iff.mp ho
    exact (h.own c p hc hin).1

/-! ### Opens that are refused -/

/-- The open has got in, if only once. -/
def Place.entered : Place → Bool
  | .opening => false
  | .refused => false
  | _ => true

/-- The open of a file has got in. -/
def Sys.Entered (s : Sys) (c : ℕ) : Prop := ∃ p, s.files c = some p ∧ p.entered = true

/-- **What a step does**: nothing; or it moves a file that has got in; or it moves one that
has not, and does nothing else. -/
theorem step_cases (s : Sys) (a : Act) :
    step s a = s ∨
      (∃ p, (step s a).files = Function.update s.files a.file (some p) ∧ p.entered = true) ∨
      ¬s.Entered a.file ∧ ∃ p, step s a = s.put a.file p := by
  rcases hc : s.files a.file with - | p
  · cases a with
    | deviceOpen c =>
      simp only [step, hc]
      exact .inr (.inr ⟨fun ⟨p, hp, _⟩ => absurd (hc.symm.trans hp) (by simp), .opening, rfl⟩)
    | go | deviceRead | deviceRelease =>
      refine .inl ?_
      simp only [step, hc]
  · cases a with
    | deviceOpen c =>
      refine .inl ?_
      simp only [step, hc]
    | go c =>
      simp only [step, hc]
      cases p with
      | opening =>
        rw [stepCall]
        cases ho : s.alreadyOpen with
        | notUsed => exact .inr (.inl ⟨.counting, rfl, rfl⟩)
        | exclusiveOpen =>
          refine .inr (.inr ⟨fun ⟨p, hp, hin⟩ => ?_, .refused, rfl⟩)
          obtain rfl : Place.opening = p := Option.some.inj (hc.symm.trans hp)
          exact absurd hin (by simp [Place.entered])
      | counting => exact .inr (.inl ⟨_, rfl, rfl⟩)
      | printing | copying =>
        rw [stepCall]
        split <;> exact .inr (.inl ⟨_, rfl, rfl⟩)
      | refused | session | closed => exact .inl rfl
    | deviceRead c length =>
      simp only [step, hc]
      cases p with
      | session k offset reads =>
        rw [deviceRead]
        split <;> exact .inr (.inl ⟨_, rfl, rfl⟩)
      | opening | refused | counting | printing | copying | closed => exact .inl rfl
    | deviceRelease c =>
      simp only [step, hc]
      cases p with
      | session k offset reads => exact .inr (.inl ⟨_, rfl, rfl⟩)
      | opening | refused | counting | printing | copying | closed => exact .inl rfl

/-- What has got in has got in for good. -/
theorem entered_step {s : Sys} {c : ℕ} (h : s.Entered c) (a : Act) : (step s a).Entered c := by
  obtain heq | ⟨p, hfiles, hp⟩ | ⟨hnot, p, heq⟩ := step_cases s a
  · rwa [heq]
  · rcases eq_or_ne c a.file with rfl | hne
    · exact ⟨p, by rw [hfiles, Function.update_self], hp⟩
    · obtain ⟨q, hq, hin⟩ := h
      exact ⟨q, by rw [hfiles, Function.update_of_ne hne, hq], hin⟩
  · rcases eq_or_ne c a.file with rfl | hne
    · exact absurd h hnot
    · obtain ⟨q, hq, hin⟩ := h
      exact ⟨q, by rw [heq]; exact (Function.update_of_ne hne ..).trans hq, hin⟩

/-- A step that changes the device or `already_open` is one of a file that has got in. -/
theorem quiet_or_entered (s : Sys) (a : Act) :
    (step s a).toDevice = s.toDevice ∧ (step s a).alreadyOpen = s.alreadyOpen ∨
      (step s a).Entered a.file := by
  obtain heq | ⟨p, hfiles, hp⟩ | ⟨-, p, heq⟩ := step_cases s a
  · rw [heq]
    exact .inl ⟨rfl, rfl⟩
  · exact .inr ⟨p, by rw [hfiles, Function.update_self], hp⟩
  · rw [heq]
    exact .inl ⟨rfl, rfl⟩

/-- **A refused open has changed nothing.** -/
theorem step_of_refused {s : Sys} {a : Act} {post : List Act}
    (h : (run step s (a :: post)).files a.file = some .refused) :
    (step s a).toDevice = s.toDevice ∧ (step s a).alreadyOpen = s.alreadyOpen := by
  refine resolve_of_run step (I := (·.Entered a.file)) (fun s b h => entered_step h b) post
    (quiet_or_entered s a) ?_
  rintro ⟨q, hq, hin⟩
  obtain rfl : Place.refused = q := Option.some.inj (h.symm.trans hq)
  exact absurd hin (by simp [Place.entered])

/-! ### Whole runs -/

/-- What a session counts on, wherever it stands. -/
theorem Local.tells {d : Device} {p : Place} {k : ℕ} {reads : List Read} (h : Local d p)
    (hp : p.tells = some (k, reads)) :
    d.opens = k + 1 ∧ Stores d.msg (text k) ∧ ∃ offset, Progress (text k) offset reads := by
  cases p with
  | session k' offset reads' =>
    obtain ⟨rfl, rfl⟩ := Prod.mk.inj (Option.some.inj hp)
    exact ⟨h.1, h.2.1, offset, h.2.2⟩
  | copying k' offset reads' length left out =>
    obtain ⟨rfl, rfl⟩ := Prod.mk.inj (Option.some.inj hp)
    exact ⟨h.1, h.2.1, offset, h.2.2.1⟩
  | opening | refused | counting | printing | closed => exact absurd hp (by simp [Place.tells])

theorem inside_of_tells {p : Place} {v : ℕ × List Read} (h : p.tells = some v) :
    p.inside = true := by
  cases p with
  | session | copying => rfl
  | opening | refused | counting | printing | closed => exact absurd h (by simp [Place.tells])

/-- **The sessions of the device.** On every run: one open at most has got in and is not
released; an open that is refused changes neither `msg` nor the counter, nor `already_open`;
`msg` holds the text of the session throughout, which fits for every value of the counter,
and nothing behind `msg` is touched; and what a session has read before the first read of
positive length that returned `0` is that text, if no read of length zero has been made at
the end of it. -/
theorem sessions_told (beyond : ℕ → BitVec 8) (acts : List Act) :
    let s := run step (Sys.start beyond) acts
    (∀ c d p q, s.files c = some p → p.inside = true → s.files d = some q → q.inside = true →
      c = d) ∧
    (∀ pre a post, acts = pre ++ a :: post → s.files a.file = some .refused →
      let r := run step (Sys.start beyond) pre
      (step r a).toDevice = r.toDevice ∧ (step r a).alreadyOpen = r.alreadyOpen) ∧
    (∀ c p k reads, s.files c = some p → p.tells = some (k, reads) →
      s.opens = k + 1 ∧ Stores s.msg (text k) ∧
      ∀ pre length post, reads = pre ++ ⟨length, []⟩ :: post → 0 < length →
        Midway (text k) pre → told pre = text k) ∧
    (∀ d, (format d).length + 1 ≤ bufLen + 1) ∧
    ∀ i, bufLen < i → s.msg i = beyond i := by
  intro s
  have h : (lock beyond).Owned s.view := owned_run beyond acts
  refine ⟨h.unique, ?_, ?_, ?_, (kept_of_owned h).beyond⟩
  · intro pre a post hacts href
    rw [show s = _ from run_split step hacts (Sys.start beyond)] at href
    exact step_of_refused href
  · intro c p k reads hc hp
    obtain ⟨hopens, hstores, offset, hprog⟩ := (h.own c p hc (inside_of_tells hp)).2.tells hp
    exact ⟨hopens, hstores, hprog.whole⟩
  · intro d
    have hlt := length_format_lt d
    omega

/-- A file is opened, and the call of `device_open` runs to its end. -/
def opened : List Act := .deviceOpen 0 :: List.replicate 44 (.go 0)

/-- **A read of length zero**: in the middle of the text it returns `0` with only part of the
text read, and at its end the text is then read a second time. -/
theorem told_otherwise :
    (¬∀ acts c k offset reads,
      (run step (Sys.start fun _ => 0) acts).files c = some (.session k offset reads) →
      (∃ r ∈ reads, r.chunk = []) →
      told (reads.takeWhile fun r => r.chunk ≠ []) = text k) ∧
    ¬∀ acts c k offset reads,
      (run step (Sys.start fun _ => 0) acts).files c = some (.session k offset reads) →
      (∃ r ∈ reads, 0 < r.length ∧ r.chunk = []) →
      told ((reads.filter fun r => 0 < r.length).takeWhile fun r => r.chunk ≠ []) = text k := by
  constructor
  · intro h
    have hcut := h (opened ++ Act.deviceRead 0 10 :: List.replicate 11 (Act.go 0)
      ++ [Act.deviceRead 0 0, Act.go 0]) 0 0 10 [⟨10, (text 0).take 10⟩, ⟨0, []⟩]
      (by decide +kernel) (by decide)
    exact absurd hcut (by decide)
  · intro h
    have htwice := h (opened ++ Act.deviceRead 0 100 :: List.replicate 41 (Act.go 0)
      ++ Act.deviceRead 0 0 :: Act.deviceRead 0 100 :: List.replicate 41 (Act.go 0)
      ++ [Act.deviceRead 0 100])
      0 0 0 [⟨100, text 0⟩, ⟨0, []⟩, ⟨100, text 0⟩, ⟨100, []⟩] (by decide +kernel) (by decide)
    exact absurd htwice (by decide)

end Session

end CharDevice

end KernelModules
