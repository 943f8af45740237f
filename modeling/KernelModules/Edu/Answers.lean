import KernelModules.Edu.Driver

/-!
# Does a call get its own answer?

`ioctl_live_check`, `ioctl_factorial` and `edu_open` write a register and read it back
later, and every open file shares the device. What a call reads is its own answer as
long as nobody has written in between – or has written something that comes to the
same.

The whole matter is in three components of the device: the liveness register, the
factorial register and whether a computation is under way
(`KernelModules.Edu.Face`). A call that has written and not yet read fits the device
or not (`KernelModules.Edu.Call.Fits`), and the only steps that can make it fit no
longer are the writes of the others (`KernelModules.Edu.Step.face`). So the condition
is on these writes (`KernelModules.Edu.Considerate`), and it is exact:
`KernelModules.Edu.answers_own_iff_considerate`.
-/

namespace KernelModules

namespace Edu

/-! ### What the calls see of the device -/

/-- What the factorial unit makes of a number. -/
def fac (n : BitVec 32) : BitVec 32 := BitVec.ofNat 32 n.toNat.factorial

/-- What the calls that write and read back see of the device. -/
@[ext] structure Face where
  /-- The liveness register. -/
  live : BitVec 32
  /-- The factorial register. -/
  fact : BitVec 32
  /-- A computation is under way. -/
  computing : Bool

/-- The device as these calls see it. -/
def Device.face (d : Device) : Face := ⟨d.live, d.fact, d.computing⟩

/-- The value a write to the liveness register is about to put there. -/
inductive Pc.Probes : Pc → BitVec 32 → Prop
  /-- The user's. -/
  | live (val : BitVec 32) : Pc.Probes (.liveWrite val) val
  /-- The random one. -/
  | opening : Pc.Probes .openWrite openVal

/-- A number written to an idle factorial unit starts it. -/
theorem computing_start (d : Device) (n : BitVec 32) :
    ({ d with fact := n, status := d.status ||| 0x01 } : Device).computing = true := by
  rw [Device.computing, hasBit_01]
  simp

/-- A request for an interrupt does not. -/
theorem computing_ask (d : Device) :
    ({ d with status := d.status ||| 0x80 } : Device).computing = d.computing := by
  rw [Device.computing, Device.computing, hasBit_01, hasBit_01]
  simp

/-- **What a write changes of it.** -/
theorem face_access (fault : Bool) (d : Device) (pc : Pc) :
    (access fault d pc).1.face = d.face ∨
    (∃ v, pc.Probes v ∧ (access fault d pc).1.face = { d.face with live := ~~~v }) ∨
    ∃ n, pc = .factWrite n ∧ d.computing = false ∧
      (access fault d pc).1.face = { d.face with fact := n, computing := true } := by
  cases pc with
  | liveWrite val => exact Or.inr (Or.inl ⟨val, .live val, rfl⟩)
  | openWrite => exact Or.inr (Or.inl ⟨openVal, .opening, rfl⟩)
  | factWrite n =>
    simp only [access, writel_factorial]
    by_cases hc : d.computing = true
    · rw [if_pos hc]
      exact Or.inl rfl
    · rw [if_neg hc]
      exact Or.inr (Or.inr ⟨n, rfl, by simpa using hc, Face.ext rfl rfl (computing_start d n)⟩)
  | factStatus => exact Or.inl (Face.ext rfl rfl (computing_ask d))
  | factWait t =>
    rw [access_factWait]
    exact Or.inl rfl
  | dmaWait t =>
    rw [access_dmaWait]
    exact Or.inl rfl
  | dmaSrc | dmaDst | dmaSize | dmaCmd =>
    refine Or.inl ?_
    simp only [access, writel_dmaSrc, writel_dmaDist, writel_dmaSize, writel_dmaCmd]
    split <;> rfl
  | idRead | liveRead | openRead | factRead | raise | returned => exact Or.inl rfl

/-- **What a step changes of it**: a completion, or one of the writes above. -/
theorem Step.face {s s' : Sys} {a : Act} (hs : Step s a s') :
    s'.dev.face = s.dev.face ∨
    (s.dev.computing = true ∧
      s'.dev.face = { s.dev.face with fact := fac s.dev.fact, computing := false }) ∨
    ∃ c fault call, a = .access c fault ∧ s.calls c = some call ∧
      ((∃ v, call.pc.Probes v ∧ s'.dev.face = { s.dev.face with live := ~~~v }) ∨
        ∃ n, call.pc = .factWrite n ∧ s.dev.computing = false ∧
          s'.dev.face = { s.dev.face with fact := n, computing := true }) := by
  cases hs with
  | stutter | call | signal | irq | wakeFact | wakeDma | ack => exact Or.inl rfl
  | @access c call fault hc =>
    rcases face_access fault s.dev call.pc with h | h
    · exact Or.inl h
    · exact Or.inr (Or.inr ⟨c, fault, call, rfl, hc, h⟩)
  | factDone hd =>
    refine Or.inr (Or.inl ⟨hd, Face.ext ?_ ?_ s.dev.computing_factDone⟩)
    · rw [Device.factDone, if_pos hd]
      rfl
    · rw [Device.factDone, if_pos hd]
      rfl
  | dmaDone hd =>
    refine Or.inl (Face.ext ?_ ?_ s.dev.computing_dmaDone)
    · rw [Device.dmaDone, if_pos hd]
      rfl
    · rw [Device.dmaDone, if_pos hd]
      rfl

/-! ### A call and its answer -/

/-- **The answer a request is to get**: what it has returned with 0, and that no `open`
has found the device dead. -/
def Request.Answered (ret : ℤ) (out : Option (BitVec 32)) : Request → Prop
  | .liveCheck val => ret = 0 → out = some (~~~val)
  | .factorial n => ret = 0 → out = some (fac n)
  | .eduOpen => ret ≠ 1
  | _ => True

/-- **Every call that is over has had its own answer.** -/
def Answered (s : Sys) : Prop :=
  ∀ c call ret out, s.calls c = some call → call.pc = .returned ret out → call.req.Answered ret out

/-- The value a request writes to the liveness register. -/
def Request.probe : Request → Option (BitVec 32)
  | .liveCheck val => some val
  | .eduOpen => some openVal
  | _ => none

/-- The number a request writes to the factorial register. -/
def Request.number : Request → Option (BitVec 32)
  | .factorial n => some n
  | _ => none

theorem Request.number_eq_some {req : Request} {n : BitVec 32} (h : req.number = some n) :
    req = .factorial n := by
  cases req with
  | factorial n' => rw [Option.some.inj h]
  | _ => exact absurd h (by simp [Request.number])

/-- The value whose inverse a call is about to read. -/
def Call.echo (call : Call) : Option (BitVec 32) :=
  match call.pc with
  | .liveRead => call.req.probe
  | .openRead => call.req.probe
  | _ => none

/-- The number whose factorial a call waits for. -/
def Call.awaits (call : Call) : Option (BitVec 32) :=
  match call.pc with
  | .factWait _ => call.req.number
  | _ => none

/-- The number whose factorial a call is about to read, its wait being over. -/
def Call.reads (call : Call) : Option (BitVec 32) :=
  match call.pc with
  | .factStatus => call.req.number
  | .factRead => call.req.number
  | _ => none

/-- **The device will give the call its answer**, if nobody writes before the call has
read. -/
structure Call.Fits (f : Face) (call : Call) : Prop where
  echo : ∀ {v}, call.echo = some v → f.live = ~~~v
  awaits : ∀ {n}, call.awaits = some n →
    (f.computing = true → fac f.fact = fac n) ∧ (f.computing = false → f.fact = fac n)
  reads : ∀ {n}, call.reads = some n → f.fact = fac n ∧ (f.computing = true → fac f.fact = fac n)
  answered : ∀ {ret out}, call.pc = .returned ret out → call.req.Answered ret out

/-- A number written to the factorial register spares the call: what it will read comes
to the same. -/
def Call.Spared (n : BitVec 32) (call : Call) : Prop :=
  (∀ n', call.awaits = some n' → fac n = fac n') ∧
    ∀ n', call.reads = some n' → n = fac n' ∧ fac n = fac n'

/-- **The condition**: a call writes the liveness register only when those that have
written it and not read it have written the same, and the factorial register only when
what is being computed, or else what the others are about to read, comes to the same. -/
def Considerate (s : Sys) : Act → Prop
  | .access c _ => ∀ call, s.calls c = some call →
      (∀ v, call.pc.Probes v →
        ∀ c' call' v', s.calls c' = some call' → call'.echo = some v' → v' = v) ∧
      ∀ n, call.pc = .factWrite n →
        (s.dev.computing = true → fac s.dev.fact = fac n) ∧
        (s.dev.computing = false → ∀ c' call', s.calls c' = some call' → call'.Spared n)
  | _ => True

/-! ### Considerate runs -/

section Fits

variable {f : Face} {call call' : Call}

theorem Call.Fits.done (h : call.Fits f) (hc : f.computing = true) :
    call.Fits { f with fact := fac f.fact, computing := false } where
  echo hv := h.echo hv
  awaits hn := ⟨fun hcon => absurd hcon (by simp), fun _ => (h.awaits hn).1 hc⟩
  reads hn := ⟨(h.reads hn).2 hc, fun hcon => absurd hcon (by simp)⟩
  answered hpc := h.answered hpc

theorem Call.Fits.probed {v : BitVec 32} (h : call.Fits f)
    (hv : ∀ v', call.echo = some v' → v' = v) : call.Fits { f with live := ~~~v } where
  echo hv' := by rw [hv _ hv']
  awaits hn := h.awaits hn
  reads hn := h.reads hn
  answered hpc := h.answered hpc

theorem Call.Fits.written {n : BitVec 32} (h : call.Fits f) (hn : call.Spared n) :
    call.Fits { f with fact := n, computing := true } where
  echo hv := h.echo hv
  awaits hn' := ⟨fun _ => hn.1 _ hn', fun hcon => absurd hcon (by simp)⟩
  reads hn' := ⟨(hn.2 _ hn').1, fun _ => (hn.2 _ hn').2⟩
  answered hpc := h.answered hpc

/-- Where nothing is read any more, or yet, there is nothing to fit but the answer. -/
theorem Call.fits_of_answered (hecho : call.echo = none) (hawaits : call.awaits = none)
    (hreads : call.reads = none)
    (h : ∀ {ret out}, call.pc = .returned ret out → call.req.Answered ret out) : call.Fits f where
  echo hv := absurd (hecho.symm.trans hv) (by simp)
  awaits hn := absurd (hawaits.symm.trans hn) (by simp)
  reads hn := absurd (hreads.symm.trans hn) (by simp)
  answered := h

/-- A call that has failed, but not for a dead device, has no answer to get. -/
theorem Request.answered_of_ne {ret : ℤ} {out : Option (BitVec 32)} (h0 : ret ≠ 0) (h1 : ret ≠ 1)
    (req : Request) : req.Answered ret out := by
  cases req with
  | liveCheck | factorial => exact fun h => absurd h h0
  | eduOpen => exact h1
  | _ => trivial

theorem Call.fits_returned {req : Request} {ret : ℤ} {out : Option (BitVec 32)}
    (h : req.Answered ret out) : Call.Fits f ⟨req, .returned ret out⟩ := by
  refine Call.fits_of_answered rfl rfl rfl ?_
  rintro ret' out' ⟨⟩
  exact h

/-- A call that is about to read what it has written to the liveness register. -/
theorem Call.fits_echo {req : Request} {pc : Pc} (hpc : pc = .liveRead ∨ pc = .openRead)
    (h : ∀ v, req.probe = some v → f.live = ~~~v) : Call.Fits f ⟨req, pc⟩ := by
  rcases hpc with rfl | rfl
  all_goals
    refine ⟨fun hv => h _ hv, ?_, ?_, ?_⟩
    · rintro n ⟨⟩
    · rintro n ⟨⟩
    · rintro ret out ⟨⟩

/-- A call that waits for its factorial. -/
theorem Call.fits_awaits {req : Request} (t : Waiter)
    (h : ∀ n, req.number = some n →
      (f.computing = true → fac f.fact = fac n) ∧ (f.computing = false → f.fact = fac n)) :
    Call.Fits f ⟨req, .factWait t⟩ := by
  refine ⟨?_, fun hn => h _ hn, ?_, ?_⟩
  · rintro v ⟨⟩
  · rintro n ⟨⟩
  · rintro ret out ⟨⟩

/-- A call that is about to read its factorial. -/
theorem Call.fits_reads {req : Request} {pc : Pc} (hpc : pc = .factStatus ∨ pc = .factRead)
    (h : ∀ n, req.number = some n → f.fact = fac n ∧ (f.computing = true → fac f.fact = fac n)) :
    Call.Fits f ⟨req, pc⟩ := by
  rcases hpc with rfl | rfl
  all_goals
    refine ⟨?_, ?_, fun hn => h _ hn, ?_⟩
    · rintro v ⟨⟩
    · rintro n ⟨⟩
    · rintro ret out ⟨⟩

/-- The call has nothing to read of what it has written: it has not written yet, or it is
of another kind. -/
def Pc.silent : Pc → Bool
  | .liveRead => false
  | .openRead => false
  | .factWait _ => false
  | .factStatus => false
  | .factRead => false
  | .returned _ _ => false
  | _ => true

theorem Call.fits_silent {req : Request} {pc : Pc} (h : pc.silent = true) :
    Call.Fits f ⟨req, pc⟩ := by
  cases pc with
  | liveRead | openRead | factWait | factStatus | factRead | returned =>
    exact absurd h (by simp [Pc.silent])
  | _ =>
    refine Call.fits_of_answered rfl rfl rfl ?_
    rintro ret out ⟨⟩

theorem Call.fits_enter (fault : Bool) (req : Request) : Call.Fits f ⟨req, enter fault req⟩ := by
  have hret : ∀ {req : Request} {ret : ℤ}, ret ≠ 0 → ret ≠ 1 →
      Call.Fits f ⟨req, .returned ret none⟩ := fun h0 h1 =>
    Call.fits_returned (Request.answered_of_ne h0 h1 _)
  cases req with
  | eduOpen | deviceId | raiseIrq => exact Call.fits_silent rfl
  | other => exact hret (by decide) (by decide)
  | liveCheck | factorial =>
    cases fault with
    | true => exact hret (by decide) (by decide)
    | false => exact Call.fits_silent rfl
  | dmaToDevice | dmaFromDevice =>
    cases fault with
    | true => exact hret (by decide) (by decide)
    | false =>
      simp only [enter, dmaOperation, Bool.false_eq_true, if_false]
      split
      · exact hret (by decide) (by decide)
      · exact Call.fits_silent rfl

theorem Call.Fits.disturbed (h : call.Fits f) (hreq : call'.req = call.req)
    (hpc : Disturbed call.pc call'.pc) : call'.Fits f := by
  rcases call with ⟨req, pc⟩
  rcases call' with ⟨req', pc'⟩
  obtain rfl : req' = req := hreq
  cases hpc with
  | same => exact h
  | factWait t t' =>
    exact ⟨fun hv => h.echo hv, fun hn => h.awaits hn, fun hn => h.reads hn,
      fun hret => absurd hret (by simp)⟩
  | dmaWait => exact Call.fits_silent rfl
  | interrupted => exact Call.fits_returned (Request.answered_of_ne (by decide) (by decide) _)

/-- A call whose arguments could not be copied back has failed; otherwise it has got what
it has read. -/
theorem Call.fits_putUser {req : Request} {fault : Bool} {val : BitVec 32}
    (h : req.Answered 0 (some val)) : Call.Fits f ⟨req, putUser fault val⟩ := by
  cases fault with
  | true => exact Call.fits_returned (Request.answered_of_ne (by decide) (by decide) _)
  | false => exact Call.fits_returned h

/-- **The call's own access.** -/
theorem Call.Fits.access {d : Device} (fault : Bool) (h : call.Fits d.face)
    (hat : call.req.At call.pc)
    (hn : ∀ n, call.pc = .factWrite n → d.computing = true → fac d.fact = fac n) :
    Call.Fits (Edu.access fault d call.pc).1.face
      { call with pc := (Edu.access fault d call.pc).2 } := by
  rcases call with ⟨req, pc⟩
  cases pc with
  | idRead =>
    obtain rfl : req = .deviceId := hat
    exact Call.fits_putUser trivial
  | liveWrite val =>
    obtain rfl : req = .liveCheck val := hat
    refine Call.fits_echo (.inl rfl) ?_
    rintro v ⟨⟩
    rfl
  | liveRead =>
    obtain ⟨val, rfl⟩ : ∃ val, req = .liveCheck val := hat
    have hlive : d.live = ~~~val := h.echo rfl
    refine Call.fits_putUser fun _ => ?_
    rw [readl_liveCheck, hlive]
  | openWrite =>
    obtain rfl : req = .eduOpen := hat
    refine Call.fits_echo (.inr rfl) ?_
    rintro v ⟨⟩
    rfl
  | openRead =>
    obtain rfl : req = .eduOpen := hat
    have hlive : d.live = ~~~openVal := h.echo rfl
    have hacc : Edu.access fault d .openRead = (d, .returned 0 none) := by
      simp [Edu.access, hlive]
    rw [hacc]
    exact Call.fits_returned (show (0 : ℤ) ≠ 1 by decide)
  | factWrite n =>
    obtain rfl : req = .factorial n := hat
    refine Call.fits_awaits _ ?_
    rintro n' ⟨⟩
    by_cases hc : d.computing = true
    · have hdev : (Edu.access fault d (.factWrite n)).1 = d := by simp [Edu.access, hc]
      rw [hdev]
      refine ⟨fun _ => hn n rfl hc, fun hcon => ?_⟩
      exact absurd (hc.symm.trans hcon) (by simp)
    · have hdev : (Edu.access fault d (.factWrite n)).1.face = ⟨d.live, n, true⟩ := by
        simp only [Edu.access, writel_factorial, if_neg hc]
        exact Face.ext rfl rfl (computing_start d n)
      rw [hdev]
      exact ⟨fun _ => rfl, fun hcon => absurd hcon (by simp)⟩
  | factWait t =>
    obtain ⟨n, rfl⟩ : ∃ val, req = .factorial val := hat
    have hfit : d.computing = false → d.fact = fac n := (h.awaits rfl).2
    rw [access_factWait]
    rcases ht : t.advance (!d.computing) with - | t'
    · -- the wait is over, so the device is done
      have hc : d.computing = false := by simpa using Waiter.cond_of_advance_eq_none ht
      refine Call.fits_reads (.inl rfl) ?_
      rintro n' ⟨⟩
      refine ⟨hfit hc, fun hcon => ?_⟩
      exact absurd (hc.symm.trans hcon) (by simp)
    · exact h.disturbed rfl (.factWait t t')
  | factStatus =>
    obtain ⟨n, rfl⟩ : ∃ val, req = .factorial val := hat
    have hface : (Edu.access fault d .factStatus).1.face = d.face :=
      Face.ext rfl rfl (computing_ask d)
    rw [hface]
    refine Call.fits_reads (.inr rfl) ?_
    rintro n' ⟨⟩
    exact h.reads rfl
  | factRead =>
    obtain ⟨n, rfl⟩ : ∃ val, req = .factorial val := hat
    have hfact : d.fact = fac n := (h.reads rfl).1
    refine Call.fits_putUser fun _ => ?_
    rw [readl_factorial, hfact]
  | raise arg =>
    obtain rfl : req = .raiseIrq arg := hat
    exact Call.fits_returned trivial
  | dmaSrc | dmaDst | dmaSize | dmaCmd => exact Call.fits_silent rfl
  | dmaWait t =>
    rw [access_dmaWait]
    cases t.advance (!d.busy) with
    | some t' => exact Call.fits_silent rfl
    | none =>
      refine Call.fits_returned ?_
      cases req with
      | liveCheck | factorial | eduOpen => exact absurd hat (by simp [Request.At, Request.quad])
      | _ => trivial
  | returned => exact h

end Fits

/-- **Every call will get its answer, or has got it.** -/
def Fit (s : Sys) : Prop := ∀ c call, s.calls c = some call → call.Fits s.dev.face

theorem Fit.answered {s : Sys} (h : Fit s) : Answered s :=
  fun c call _ _ hc hpc => (h c call hc).answered hpc

/-- A considerate step of the others leaves a call its answer. -/
theorem Step.fits {s s' : Sys} {a : Act} {c : ℕ} {call : Call} (hs : Step s a s')
    (hok : Considerate s a) (hc : s.calls c = some call) (h : call.Fits s.dev.face) :
    call.Fits s'.dev.face := by
  rcases hs.face with hf | ⟨hd, hf⟩ | ⟨c₀, fault, call₀, rfl, hc₀, ⟨v, hv, hf⟩ | ⟨n, hn, hd, hf⟩⟩
  · rwa [hf]
  · rw [hf]
    exact h.done hd
  · rw [hf]
    exact h.probed fun v' hv' => (hok call₀ hc₀).1 v hv c call v' hc hv'
  · rw [hf]
    exact h.written (((hok call₀ hc₀).2 n hn).2 hd c call hc)

theorem Step.fit {s s' : Sys} {a : Act} (hs : Step s a s') (hok : Considerate s a)
    (hp : s.Placed) (h : Fit s) : Fit s' := by
  intro c call' hc'
  cases hs.came hc' with
  | entered fault hnone hpc =>
    rcases call' with ⟨req, pc⟩
    obtain rfl : pc = enter fault req := hpc
    exact Call.fits_enter fault req
  | @accessed call fault hc hreq ha hpc =>
    subst ha
    cases hs with
    | stutter ha => exact absurd (hc.symm.trans (ha c fault rfl)) (by simp)
    | @access _ call₁ _ hc₁ =>
      obtain rfl := Option.some.inj (hc.symm.trans hc₁)
      obtain rfl : { call with pc := (Edu.access fault s.dev call.pc).2 } = call' := by
        simpa [stepCall, Sys.setPc] using hc'
      exact (h c call hc).access fault (hp c call hc) fun n hn => ((hok call hc).2 n hn).1
  | @disturbed call hc hreq ha hpc => exact (hs.fits hok hc (h c call hc)).disturbed hreq hpc

/-- **Every considerate run gives every call its own answer.** -/
theorem answered_run {d : Device} {m : Memory} {acts : List Act}
    (h : Along step Considerate (Sys.start d m) acts) :
    Answered (run step (Sys.start d m) acts) := by
  have hinv : ∀ (s : Sys) (a : Act), Considerate s a → (s.Placed ∧ Fit s) →
      ((step s a).Placed ∧ Fit (step s a)) := fun s a hok hi =>
    ⟨(step_cases s a).placed hi.1, (step_cases s a).fit hok hi.1 hi.2⟩
  have hinit : Fit (Sys.start d m) := by
    intro c call hc
    exact absurd hc (by simp [Sys.start])
  exact (run_invariant_along step hinv acts h ⟨placed_run d m [], hinit⟩).2.answered

/-! ### An answer that is another's -/

section Wrong

variable {s : Sys} {c : ℕ} {req : Request}

/-- A call that reads the liveness register now gets a wrong answer, unless it finds
there what it has written. -/
theorem not_answered_of_echo {call : Call} {v : BitVec 32} (hc : s.calls c = some call)
    (hat : call.req.At call.pc) (hv : call.echo = some v) (hlive : s.dev.live ≠ ~~~v) :
    ¬Answered (step s (.access c false)) := by
  intro h
  rcases call with ⟨req, pc⟩
  cases pc with
  | liveRead =>
    obtain ⟨val, rfl⟩ : ∃ val, req = .liveCheck val := hat
    obtain rfl : val = v := Option.some.inj hv
    have hret : (step s (.access c false)).calls c
        = some ⟨.liveCheck val, .returned 0 (some s.dev.live)⟩ := by
      simp [step, hc, stepCall, access, Sys.setPc, putUser]
    have hans : Request.Answered 0 (some s.dev.live) (.liveCheck val) := h c _ 0 _ hret rfl
    exact hlive (Option.some.inj (hans rfl))
  | openRead =>
    obtain rfl : req = .eduOpen := hat
    obtain rfl : openVal = v := Option.some.inj hv
    have hret : (step s (.access c false)).calls c = some ⟨.eduOpen, .returned 1 none⟩ := by
      simp [step, hc, stepCall, access, Sys.setPc, hlive.symm]
    have hans : Request.Answered 1 none .eduOpen := h c _ 1 _ hret rfl
    exact hans rfl
  | _ => exact absurd hv (by simp [Call.echo])

/-- A call whose wait is over returns what the factorial register holds. -/
theorem run_factStatus (hc : s.calls c = some ⟨req, .factStatus⟩) :
    (run step s [.access c false, .access c false]).calls c
      = some ⟨req, .returned 0 (some s.dev.fact)⟩ := by
  simp [step, hc, stepCall, access, Sys.setPc, putUser]

theorem run_factRead (hc : s.calls c = some ⟨req, .factRead⟩) :
    (run step s [.access c false]).calls c = some ⟨req, .returned 0 (some s.dev.fact)⟩ := by
  simp [step, hc, stepCall, access, Sys.setPc, putUser]

/-- A call that waits when the device is done returns what the factorial register holds,
once a signal has taken it off the queue. -/
theorem run_factWait {t : Waiter} (hc : s.calls c = some ⟨req, .factWait t⟩)
    (hd : s.dev.computing = false) :
    (run step s [.signal c, .access c false, .access c false, .access c false,
      .access c false]).calls c = some ⟨req, .returned 0 (some s.dev.fact)⟩ := by
  cases t <;>
    simp [step, hc, stepCall, access, Sys.setPc, putUser, interrupted, Waiter.advance, hd]

/-- A call that has returned another factorial than its own. -/
theorem not_answered_of_fact {n v : BitVec 32}
    (hc : s.calls c = some ⟨.factorial n, .returned 0 (some v)⟩) (hv : v ≠ fac n) :
    ¬Answered s := by
  intro h
  have hans : Request.Answered 0 (some v) (.factorial n) := h c _ 0 _ hc rfl
  exact hv (Option.some.inj (hans rfl))

/-- A call that is about to read gets a wrong answer, if it is left to. -/
theorem exists_wrong_of_reads {call : Call} {n : BitVec 32} (hc : s.calls c = some call)
    (hn : call.reads = some n) (hf : s.dev.fact ≠ fac n) :
    ∃ more, ¬Answered (run step s more) := by
  rcases call with ⟨req, pc⟩
  cases pc with
  | factStatus =>
    obtain rfl := Request.number_eq_some hn
    exact ⟨_, not_answered_of_fact (run_factStatus hc) hf⟩
  | factRead =>
    obtain rfl := Request.number_eq_some hn
    exact ⟨_, not_answered_of_fact (run_factRead hc) hf⟩
  | _ => exact absurd hn (by simp [Call.reads])

/-- A call that waits gets a wrong answer, if it is left to go on when the device is
done with another number. -/
theorem exists_wrong_of_awaits {call : Call} {n : BitVec 32} (hc : s.calls c = some call)
    (hn : call.awaits = some n) (hd : s.dev.computing = false) (hf : s.dev.fact ≠ fac n) :
    ∃ more, ¬Answered (run step s more) := by
  rcases call with ⟨req, pc⟩
  cases pc with
  | factWait t =>
    obtain rfl := Request.number_eq_some hn
    exact ⟨_, not_answered_of_fact (run_factWait hc hd) hf⟩
  | _ => exact absurd hn (by simp [Call.awaits])

/-- The device is done with its computation. -/
theorem step_factDone (hd : s.dev.computing = true) :
    (step s .factDone).dev.fact = fac s.dev.fact ∧
      (step s .factDone).dev.computing = false ∧ (step s .factDone).calls = s.calls := by
  refine ⟨?_, s.dev.computing_factDone, rfl⟩
  rw [step, Device.factDone, if_pos hd]
  rfl

/-- An access of a call changes the device as `KernelModules.Edu.access` says, and no
other call. -/
theorem step_access {call : Call} (fault : Bool) (hc : s.calls c = some call) :
    (step s (.access c fault)).dev = (access fault s.dev call.pc).1 ∧
      (step s (.access c fault)).calls c = some { call with pc := (access fault s.dev call.pc).2 } ∧
      ∀ c' ≠ c, (step s (.access c fault)).calls c' = s.calls c' := by
  refine ⟨?_, ?_, fun c' hne => ?_⟩ <;> simp only [step, hc, stepCall, Sys.setPc]
  · exact Function.update_self ..
  · exact Function.update_of_ne hne _ _

/-- A write of the liveness register that another call is about to read. -/
theorem wrong_of_probes {c' : ℕ} {call call' : Call} {fault : Bool} {v v' : BitVec 32}
    (hp : s.Placed) (hc : s.calls c = some call) (hv : call.pc.Probes v)
    (hc' : s.calls c' = some call') (hv' : call'.echo = some v') (hne : v' ≠ v) :
    ¬Answered (run step s [.access c fault, .access c' false]) := by
  obtain ⟨hdev, -, hothers⟩ := step_access fault hc
  have hlive : (step s (.access c fault)).dev.live = ~~~v := by
    rw [hdev]
    generalize call.pc = pc at hv
    cases hv with
    | live | opening => rfl
  have hcc : c' ≠ c := by
    rintro rfl
    obtain rfl := Option.some.inj (hc.symm.trans hc')
    rcases call with ⟨req, pc⟩
    cases hv with
    | live | opening => exact absurd hv' (by simp [Call.echo])
  refine not_answered_of_echo ((hothers c' hcc).trans hc') (hp c' call' hc') hv' ?_
  rw [hlive]
  intro heq
  exact hne (BitVec.not_inj.mp heq).symm

/-- A number written while another is being computed. -/
theorem wrong_of_dropped {call : Call} {fault : Bool} {n : BitVec 32} (hp : s.Placed)
    (hc : s.calls c = some call) (hpc : call.pc = .factWrite n) (hd : s.dev.computing = true)
    (hne : fac s.dev.fact ≠ fac n) :
    ∃ more, ¬Answered (run step s (.access c fault :: .factDone :: more)) := by
  obtain ⟨hdev, hself, -⟩ := step_access fault hc
  rw [hpc] at hdev hself
  have hdev : (step s (.access c fault)).dev = s.dev := by
    rw [hdev]
    simp [access, hd]
  have hreq : call.req = .factorial n := by
    have hat := hp c call hc
    rwa [hpc] at hat
  have hcomp : (step s (.access c fault)).dev.computing = true := by rwa [hdev]
  obtain ⟨hfact, hcomp₂, hcalls⟩ := step_factDone hcomp
  rw [hdev] at hfact
  exact exists_wrong_of_awaits ((congrFun hcalls c).trans hself)
    (congrArg Request.number hreq) hcomp₂ (by rwa [hfact])

/-- A number written while another call waits for a factorial, or is about to read it. -/
theorem wrong_of_overwritten {c' : ℕ} {call call' : Call} {fault : Bool} {n : BitVec 32}
    (hc : s.calls c = some call) (hpc : call.pc = .factWrite n) (hd : s.dev.computing = false)
    (hc' : s.calls c' = some call') (hspared : ¬call'.Spared n) :
    ∃ more, ¬Answered (run step s (.access c fault :: more)) := by
  obtain ⟨hdev, -, hothers⟩ := step_access fault hc
  have hne : c' ≠ c := by
    rintro rfl
    obtain rfl := Option.some.inj (hc.symm.trans hc')
    rcases call with ⟨req, pc⟩
    obtain rfl : pc = .factWrite n := hpc
    exact hspared ⟨fun _ h => absurd h (by simp [Call.awaits]),
      fun _ h => absurd h (by simp [Call.reads])⟩
  have hc₁ : (step s (.access c fault)).calls c' = some call' := (hothers c' hne).trans hc'
  have hdev₁ : (step s (.access c fault)).dev
      = { s.dev with fact := n, status := s.dev.status ||| 0x01 } := by
    rw [hdev, hpc]
    simp [access, hd]
  have hfact₁ : (step s (.access c fault)).dev.fact = n := by rw [hdev₁]
  have hcomp₁ : (step s (.access c fault)).dev.computing = true := by
    rw [hdev₁]
    exact computing_start s.dev n
  obtain ⟨hfact₂, hcomp₂, hcalls₂⟩ := step_factDone hcomp₁
  rw [hfact₁] at hfact₂
  have hc₂ : (step (step s (.access c fault)) .factDone).calls c' = some call' :=
    (congrFun hcalls₂ c').trans hc₁
  simp only [Call.Spared, not_and_or, not_forall, exists_prop] at hspared
  rcases hspared with ⟨n', hn', hfac⟩ | ⟨n', hn', hfac | hfac⟩
  · -- the other waits: it will read the factorial of the wrong number
    obtain ⟨more, hmore⟩ := exists_wrong_of_awaits hc₂ hn' hcomp₂ (by rwa [hfact₂])
    exact ⟨.factDone :: more, hmore⟩
  · -- the other is about to read: it reads the number itself
    obtain ⟨more, hmore⟩ := exists_wrong_of_reads hc₁ hn' (by rwa [hfact₁])
    exact ⟨more, hmore⟩
  · obtain ⟨more, hmore⟩ := exists_wrong_of_reads hc₂ hn' (by rwa [hfact₂])
    exact ⟨.factDone :: more, hmore⟩

end Wrong

/-- **A step that is not considerate is followed, in a few steps, by an answer that is
another's.** -/
theorem wrong_of_not_considerate {s : Sys} {a : Act} (hp : s.Placed) (h : ¬Considerate s a) :
    ∃ more, ¬Answered (run step s (a :: more)) := by
  -- only a write can break the condition
  cases a with
  | access c fault =>
    simp only [Considerate, not_forall, not_and_or, exists_prop] at h
    obtain ⟨call, hc, ⟨v, hv, c', call', v', hc', hv', hne⟩ |
      ⟨n, hpc, ⟨hd, hne⟩ | ⟨hd, c', call', hc', hspared⟩⟩⟩ := h
    · exact ⟨_, wrong_of_probes hp hc hv hc' hv' hne⟩
    · obtain ⟨more, hmore⟩ := wrong_of_dropped hp hc hpc hd hne
      exact ⟨_, hmore⟩
    · exact wrong_of_overwritten hc hpc hd hc' hspared
  | call | signal | irq | handle | factDone | dmaDone => exact absurd trivial h

/-- **A call gets its own answer as long as the others write with consideration, and no
longer.** In every run in which no call writes the liveness register between the write
and the read of another, nor the factorial register while it is in use by another –
unless what it writes comes to the same –, every live check that succeeds gives the
inverse of its value, every factorial that succeeds gives the factorial of its number
modulo `2^32`, and no `open` finds the device dead. And from every write made otherwise,
whatever the run before it, the run can go on to a state where this fails. -/
theorem answers_own_iff_considerate (d : Device) (m : Memory) :
    (∀ acts : List Act, Along step Considerate (Sys.start d m) acts →
      Answered (run step (Sys.start d m) acts)) ∧
    ∀ (acts : List Act) (a : Act), ¬Considerate (run step (Sys.start d m) acts) a →
      ∃ more : List Act, ¬Answered (run step (Sys.start d m) (acts ++ a :: more)) := by
  refine ⟨fun acts h => answered_run h, fun acts a h => ?_⟩
  exact exists_run_of_next step (P := fun s => ¬Answered s)
    (wrong_of_not_considerate (placed_run d m acts) h)

/-- The call is not in the way of any write. -/
def Call.clear (call : Call) : Bool :=
  call.echo.isNone && call.awaits.isNone && call.reads.isNone

/-- On an idle device, with no call in the way, every access is considerate. -/
theorem considerate_of_clear {s : Sys} {c : ℕ} {fault : Bool} (hd : s.dev.computing = false)
    (h : ∀ c call, s.calls c = some call → call.clear = true) :
    Considerate s (.access c fault) := by
  intro call hc
  refine ⟨fun v hv c' call' v' hc' hv' => ?_,
    fun n hn => ⟨fun hcon => ?_, fun _ c' call' hc' => ?_⟩⟩
  · have hclear := h c' call' hc'
    simp [Call.clear, hv'] at hclear
  · exact absurd (hd.symm.trans hcon) (by simp)
  · have hclear := h c' call' hc'
    simp only [Call.clear, Bool.and_eq_true, Option.isNone_iff_eq_none] at hclear
    exact ⟨fun n' hn' => absurd (hclear.1.2.symm.trans hn') (by simp),
      fun n' hn' => absurd (hclear.2.symm.trans hn') (by simp)⟩

/-- A call past its write is considerate. -/
theorem considerate_of_past {s : Sys} {c : ℕ} {fault : Bool}
    (h : (s.calls c).all (fun call => !call.pc.silent) = true) :
    Considerate s (.access c fault) := by
  intro call hc
  rw [hc, Option.all_some] at h
  refine ⟨fun v hv => ?_, fun n hn => ?_⟩
  · generalize call.pc = pc at h hv
    cases hv <;> exact absurd h (by simp [Pc.silent])
  · rw [hn] at h
    exact absurd h (by simp [Pc.silent])

/-- A live check and a computation, one after the other. -/
def inTurn : List Act :=
  [.call 0 (.liveCheck 5) false, .access 0 false, .access 0 false, .call 1 (.factorial 4) false,
    .access 1 false, .factDone, .access 1 false, .access 1 false, .access 1 false]

theorem answers_in_turn : Answered (run step (Sys.start probed .zero) inTurn) := by
  refine (answers_own_iff_considerate probed .zero).1 _ ?_
  refine ⟨trivial, considerate_of_clear (by decide) ?_, ?_, trivial,
    considerate_of_clear (by decide) ?_, trivial, ?_, ?_, ?_, trivial⟩
  all_goals try exact considerate_of_past (by decide)
  · exact @calls_all_run 1 Call.clear probed .zero (inTurn.take 1) (by simp [inTurn]) (by decide)
  · exact @calls_all_run 2 Call.clear probed .zero (inTurn.take 4) (by simp [inTurn]) (by decide)

/-- Two live checks that cross. -/
def crossedChecks : List Act :=
  [.call 0 (.liveCheck 5) false, .call 1 (.liveCheck 6) false, .access 0 false, .access 1 false,
    .access 0 false]

/-- **The first of them gets the answer of the second.** -/
theorem crossed_live_checks :
    ¬Answered (run step (Sys.start probed .zero) crossedChecks) := by
  intro h
  have hans := h 0 ⟨.liveCheck 5, .returned 0 (some (~~~6))⟩ 0 (some (~~~6)) (by decide) rfl
  exact absurd (hans rfl) (by decide)

end Edu

end KernelModules
