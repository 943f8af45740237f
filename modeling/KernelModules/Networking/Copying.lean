import Mathlib.Data.List.Induction
import KernelModules.Lib.Mixing
import KernelModules.Networking.Filter

/-!
# Calls of the packet filter that cross each other

`my_ioctl` copies the address straight into `ioctl_set_addr`, without a lock, while other calls
may be doing the same and packets go out. Here a call stores one byte at a time, and the hook
reads `ioctl_set` and `ioctl_set_addr` one after the other: `KernelModules.Networking.Copying.step`.

Calls that do not overlap do what `KernelModules.Networking.step` says
(`KernelModules.Networking.Copying.serial`). Calls that do can leave an address that nobody has
asked for, and connections to that address are what is logged then:
`KernelModules.Networking.Copying.logged_exact` says which addresses those are.
-/

namespace KernelModules

namespace Networking

namespace Copying

/-! ### The calls and the packets -/

/-- The four bytes that `copy_from_user` stores: those of the address, or zeros from the byte it
stops at. -/
def stored (addr : Addr) : Option (Fin 4) → Addr
  | some k => copied addr k
  | none => addr

/-- Byte `i` is stored. -/
def storeByte (new : Addr) (i : Fin 4) (old : Addr) : Addr :=
  Vector.ofFn fun j => if j = i then new.get j else old.get j

/-- Where a call of `my_ioctl` with `MY_IOCTL_FILTER_ADDRESS` stands. -/
inductive Call where
  /-- In `copy_from_user`, before the store of byte `i`. -/
  | copy (addr : Addr) (fault : Option (Fin 4)) (i : Fin 4) : Call
  /-- Before `atomic_set`. -/
  | set (addr : Addr) : Call
  /-- Over. -/
  | returned (addr : Addr) (fault : Option (Fin 4)) (ret : ℤ) : Call
deriving DecidableEq

/-- Where `my_nf_hookfn` stands. -/
inductive Test where
  /-- In `test_daddr`, before `atomic_read`. -/
  | flag : Test
  /-- Before the comparison. -/
  | compare : Test
  /-- Past `test_daddr`: no address has been set. -/
  | unset : Test
  /-- Past `test_daddr`: the destination is the address. -/
  | equal : Test
  /-- Past `test_daddr`: it is another. -/
  | differs : Test
  /-- The packet is not TCP. -/
  | skipped : Test
deriving DecidableEq

/-- A run of `my_nf_hookfn`. -/
structure Hook where
  /-- The packet. -/
  packet : Packet
  /-- Where it stands. -/
  test : Test

/-- `my_nf_hookfn`, up to `test_daddr`. -/
def Hook.enter (p : Packet) : Hook := ⟨p, if p.protocol = ipprotoTcp then .flag else .skipped⟩

/-- What `my_nf_hookfn` does next. -/
def Hook.look (h : Hook) (v : Vars) : Hook :=
  match h.test with
  | .flag => { h with test := if v.ioctlSet = 1 then .compare else .unset }
  | .compare => { h with test := if v.ioctlSetAddr == h.packet.daddr then .equal else .differs }
  | _ => h

/-- What it logs. -/
def Hook.message (h : Hook) : Option Message :=
  match h.test with
  | .unset | .equal =>
    if h.packet.syn && !h.packet.ack then some ⟨h.packet.saddr, ntohs h.packet.source⟩ else none
  | _ => none

/-- The module, its callers and the packets. -/
structure Sys where
  /-- The variables. -/
  vars : Vars
  /-- The calls of `my_ioctl`, by number. -/
  calls : ℕ → Option Call
  /-- The runs of `my_nf_hookfn`, by number. -/
  hooks : ℕ → Option Hook

/-- The module, just loaded. -/
def Sys.start : Sys := ⟨myHookInit, fun _ => none, fun _ => none⟩

/-- What can happen next. -/
inductive Act where
  /-- Call `c` begins. -/
  | ioctl (c : ℕ) (addr : Addr) (fault : Option (Fin 4)) : Act
  /-- Call `c` goes on. -/
  | go (c : ℕ) : Act
  /-- A call with another command, which touches nothing. -/
  | other : Act
  /-- A packet goes out, the one of run `n` of the hook. -/
  | packet (n : ℕ) (p : Packet) : Act
  /-- Run `n` of the hook goes on. -/
  | look (n : ℕ) : Act

/-- Where a call goes from the store of byte `i`. -/
def next (addr : Addr) (fault : Option (Fin 4)) (i : Fin 4) : Call :=
  if h : (i : ℕ) + 1 < 4 then .copy addr fault ⟨i + 1, h⟩
  else
    match fault with
    | none => .set addr
    | some k => .returned addr (some k) (-efault)

/-- The call is now elsewhere. -/
def Sys.setCall (s : Sys) (c : ℕ) (call : Call) : Sys :=
  { s with calls := Function.update s.calls c (some call) }

/-- A call goes on. -/
def Sys.go (s : Sys) (c : ℕ) : Sys :=
  match s.calls c with
  | some (.copy addr fault i) =>
    { s.setCall c (next addr fault i) with
      vars := { s.vars with
        ioctlSetAddr := storeByte (stored addr fault) i s.vars.ioctlSetAddr } }
  | some (.set addr) =>
    { s.setCall c (.returned addr none 0) with vars := { s.vars with ioctlSet := 1 } }
  | _ => s

/-- **One step.** -/
def step (s : Sys) : Act → Sys
  | .ioctl c addr fault =>
    match s.calls c with
    | none => s.setCall c (.copy addr fault 0)
    | some _ => s
  | .go c => s.go c
  | .other => s
  | .packet n p =>
    match s.hooks n with
    | none => { s with hooks := Function.update s.hooks n (some (.enter p)) }
    | some _ => s
  | .look n =>
    match s.hooks n with
    | none => s
    | some h => { s with hooks := Function.update s.hooks n (some (h.look s.vars)) }

/-! ### The copies -/

/-- Four bytes, one by one. -/
def bytes (a : Addr) : Fin 4 → BitVec 8 := fun i => a.get i

theorem bytes_injective {a b : Addr} (h : bytes a = bytes b) : a = b :=
  Vector.ext fun i hi => congrFun h ⟨i, hi⟩

/-- The call, as one that copies. -/
def Call.writer : Call → Mixing.Writer 4 (BitVec 8)
  | .copy addr fault i => ⟨bytes (stored addr fault), i⟩
  | .set addr => ⟨bytes addr, 4⟩
  | .returned addr fault _ => ⟨bytes (stored addr fault), 4⟩

/-- **The copies into `ioctl_set_addr`.** -/
def Sys.view (s : Sys) : Mixing.State 4 (BitVec 8) :=
  ⟨bytes s.vars.ioctlSetAddr, fun c => (s.calls c).map Call.writer⟩

/-- What calls may be given: addresses, and where the copy stops. -/
abbrev Given := Set (Addr × Option (Fin 4))

/-- The calls of the schedule are given nothing else. -/
def Act.Gives (A : Given) : Act → Prop
  | .ioctl _ addr fault => (addr, fault) ∈ A
  | _ => True

/-- The blocks that are copied then. -/
def blocks (A : Given) : Set (Fin 4 → BitVec 8) := {b | ∃ x ∈ A, b = bytes (stored x.1 x.2)}

variable {A : Given} {s : Sys} {a : Act} {c : ℕ}

theorem view_setCall (s : Sys) (c : ℕ) (call : Call) :
    (s.setCall c call).view.writers = Function.update s.view.writers c (some call.writer) := by
  funext d
  rcases eq_or_ne d c with rfl | hne
  · simp [Sys.view, Sys.setCall]
  · simp [Sys.view, Sys.setCall, Function.update_of_ne hne]

theorem writer_next (addr : Addr) (fault : Option (Fin 4)) (i : Fin 4) :
    (next addr fault i).writer = ⟨bytes (stored addr fault), i + 1⟩ := by
  by_cases h : (i : ℕ) + 1 < 4
  · rw [next.eq_def, dif_pos h]
    rfl
  · rw [next.eq_def, dif_neg h]
    have hlast : (i : ℕ) + 1 = 4 := by omega
    rw [hlast]
    cases fault <;> rfl

theorem bytes_storeByte (new old : Addr) (i : Fin 4) :
    bytes (storeByte new i old) = Mixing.put (bytes new) i (bytes old) := by
  funext j
  have hget : bytes (storeByte new i old) j = if j = i then new.get j else old.get j :=
    Vector.getElem_ofFn j.isLt
  rw [hget, Mixing.put]
  exact if_congr Fin.ext_iff rfl rfl

/-- A call that begins. -/
theorem view_ioctl (s : Sys) (c : ℕ) (addr : Addr) (fault : Option (Fin 4)) :
    (step s (.ioctl c addr fault)).view =
      Mixing.step s.view (.enter c (bytes (stored addr fault))) := by
  rcases hc : s.calls c with - | call
  · have hfree : s.view.writers c = none := by simp [Sys.view, hc]
    have hwriters := view_setCall s c (.copy addr fault 0)
    rw [Mixing.run_enter hfree]
    simp only [step, hc]
    exact congrArg (Mixing.State.mk (bytes s.vars.ioctlSetAddr)) hwriters
  · have htaken : s.view.writers c = some call.writer := by simp [Sys.view, hc]
    simp only [step, hc, Mixing.step, htaken]

/-- A call that goes on: it stores a byte, or has stored them all. -/
theorem view_go (s : Sys) (c : ℕ) : (step s (.go c)).view = Mixing.step s.view (.store c) := by
  rcases hc : s.calls c with - | call
  · have hw : s.view.writers c = none := by simp [Sys.view, hc]
    simp only [step, Sys.go, hc, Mixing.step, hw]
  · have hw : s.view.writers c = some call.writer := by simp [Sys.view, hc]
    cases call with
    | copy addr fault i =>
      have hwriters := view_setCall s c (next addr fault i)
      rw [writer_next] at hwriters
      simp only [step, Sys.go, hc, Mixing.step, hw, Call.writer]
      rw [if_pos i.isLt, ← hwriters]
      exact congrArg (Mixing.State.mk · _) (bytes_storeByte _ _ i)
    | set addr =>
      have hwriters := view_setCall s c (.returned addr none 0)
      have hsame : Function.update s.view.writers c (some (Call.returned addr none 0).writer)
          = s.view.writers := by
        rw [Function.update_eq_self_iff, hw]
        rfl
      simp only [step, Sys.go, hc, Mixing.step, hw, Call.writer, lt_irrefl, if_false]
      exact congrArg (Mixing.State.mk (bytes s.vars.ioctlSetAddr)) (hwriters.trans hsame)
    | returned addr fault ret =>
      simp only [step, Sys.go, hc, Mixing.step, hw, Call.writer, lt_irrefl, if_false]

/-- **A step copies, or leaves the copies alone.** -/
theorem view_step (s : Sys) (a : Act) (ha : a.Gives A) :
    (step s a).view = s.view ∨
      ∃ b, Mixing.Act.Gives (blocks A) b ∧ (step s a).view = Mixing.step s.view b := by
  cases a with
  | ioctl c addr fault =>
    have hgiven : bytes (stored addr fault) ∈ blocks A := ⟨(addr, fault), ha, rfl⟩
    exact .inr ⟨.enter c (bytes (stored addr fault)), hgiven, view_ioctl s c addr fault⟩
  | go c => exact .inr ⟨.store c, trivial, view_go s c⟩
  | other => exact .inl rfl
  | packet n p =>
    rw [step]
    split <;> exact .inl rfl
  | look n =>
    rw [step]
    split <;> exact .inl rfl

/-! ### What is logged has been given, byte by byte -/

/-- **The address is a mixture** of what the calls are given, one of which can succeed. -/
def Mixes (A : Given) (d : Addr) : Prop :=
  (∃ addr, (addr, none) ∈ A) ∧ ∀ i : Fin 4, ∃ x ∈ A, (stored x.1 x.2).get i = d.get i

/-- The call is given what it may be. -/
def Call.Of (A : Given) : Call → Prop
  | .copy addr fault _ => (addr, fault) ∈ A
  | .set addr => (addr, none) ∈ A
  | .returned _ _ _ => True

/-- **What a run of the hook knows.** -/
def Hook.Knows (A : Given) (v : Vars) (h : Hook) : Prop :=
  match h.test with
  | .flag | .unset | .differs => h.packet.protocol = ipprotoTcp
  | .compare => h.packet.protocol = ipprotoTcp ∧ v.ioctlSet = 1
  | .equal => h.packet.protocol = ipprotoTcp ∧ Mixes A h.packet.daddr
  | .skipped => True

/-- **The invariant.** -/
structure Origin (A : Given) (s : Sys) : Prop where
  sourced : Mixing.Sourced (blocks A) s.view
  given : ∀ c call, s.calls c = some call → call.Of A
  mixed : s.vars.ioctlSet = 1 → Mixes A s.vars.ioctlSetAddr
  knows : ∀ n h, s.hooks n = some h → h.Knows A s.vars

theorem mix_iff (d : Addr) :
    Mixing.Mix (blocks A) (bytes d) ↔ ∀ i : Fin 4, ∃ x ∈ A, (stored x.1 x.2).get i = d.get i := by
  constructor
  · intro h i
    obtain ⟨-, ⟨x, hx, rfl⟩, heq⟩ := h i
    exact ⟨x, hx, heq⟩
  · intro h i
    obtain ⟨x, hx, heq⟩ := h i
    exact ⟨_, ⟨x, hx, rfl⟩, heq⟩

theorem origin_start : Origin A Sys.start where
  sourced := Mixing.sourced_start _
  given _ _ h := absurd h (by simp [Sys.start])
  mixed h := absurd h (by simp [Sys.start, myHookInit])
  knows _ _ h := absurd h (by simp [Sys.start])

/-- The flag is set by `atomic_set`. -/
theorem flag_step (s : Sys) (a : Act) :
    (step s a).vars.ioctlSet = s.vars.ioctlSet ∨
      ∃ c addr, a = .go c ∧ s.calls c = some (.set addr) ∧ (step s a).vars.ioctlSet = 1 := by
  cases a with
  | ioctl c addr fault =>
    rw [step]
    split <;> exact .inl rfl
  | go c =>
    rw [step, Sys.go]
    split
    · exact .inl rfl
    · rename_i addr hc
      exact .inr ⟨c, addr, rfl, hc, rfl⟩
    · exact .inl rfl
  | other => exact .inl rfl
  | packet n p =>
    rw [step]
    split <;> exact .inl rfl
  | look n =>
    rw [step]
    split <;> exact .inl rfl

theorem Origin.sourced_step (h : Origin A s) (ha : a.Gives A) :
    Mixing.Sourced (blocks A) (step s a).view := by
  obtain heq | ⟨b, hb, heq⟩ := view_step s a ha
  · rw [heq]
    exact h.sourced
  · rw [heq]
    exact h.sourced.step hb

theorem Origin.mixed_step (h : Origin A s) (ha : a.Gives A)
    (hset : (step s a).vars.ioctlSet = 1) : Mixes A (step s a).vars.ioctlSetAddr := by
  by_cases hold : s.vars.ioctlSet = 1
  · obtain ⟨hgood, hmix⟩ := h.mixed hold
    refine ⟨hgood, (mix_iff _).mp ?_⟩
    have hmix' : Mixing.Mix (blocks A) s.view.mem := (mix_iff _).mpr hmix
    obtain heq | ⟨b, -, heq⟩ := view_step s a ha
    · have hmem : bytes (step s a).vars.ioctlSetAddr = s.view.mem := congrArg Mixing.State.mem heq
      rwa [hmem]
    · have hmem : bytes (step s a).vars.ioctlSetAddr = (Mixing.step s.view b).mem :=
        congrArg Mixing.State.mem heq
      rw [hmem]
      exact h.sourced.mix_step hmix'
  · obtain heq | ⟨c, addr, rfl, hc, -⟩ := flag_step s a
    · exact absurd (heq ▸ hset) hold
    · -- all four bytes have been stored
      refine ⟨⟨addr, h.given c _ hc⟩, (mix_iff _).mp ?_⟩
      have hw : s.view.writers c = some ⟨bytes addr, 4⟩ := by simp [Sys.view, hc, Call.writer]
      have hmix := h.sourced.mix hw (le_refl 4)
      have hvars : (step s (.go c)).vars.ioctlSetAddr = s.vars.ioctlSetAddr := by
        simp [step, Sys.go, hc, Sys.setCall]
      rw [hvars]
      exact hmix

theorem Call.Of.next {addr : Addr} {fault : Option (Fin 4)} (h : (addr, fault) ∈ A) (i : Fin 4) :
    (Copying.next addr fault i).Of A := by
  by_cases hi : (i : ℕ) + 1 < 4
  · rw [Copying.next.eq_def, dif_pos hi]
    exact h
  · rw [Copying.next.eq_def, dif_neg hi]
    cases fault with
    | none => exact h
    | some k => trivial

theorem Origin.given_setCall (h : Origin A s) {call : Call} (hcall : call.Of A) :
    ∀ d y, (s.setCall c call).calls d = some y → y.Of A := by
  intro d y hd
  obtain ⟨-, rfl⟩ | ⟨-, hd⟩ := TryLock.parties_update hd
  · exact hcall
  · exact h.given d y hd

theorem Origin.given_step (h : Origin A s) (ha : a.Gives A) :
    ∀ d y, (step s a).calls d = some y → y.Of A := by
  cases a with
  | ioctl c addr fault =>
    rw [step]
    split
    · exact h.given_setCall ha
    · exact h.given
  | go c =>
    rw [step, Sys.go]
    split
    · rename_i addr fault i hc
      exact h.given_setCall (Call.Of.next (h.given c _ hc) i)
    · exact h.given_setCall trivial
    · exact h.given
  | other => exact h.given
  | packet n p =>
    rw [step]
    split <;> exact h.given
  | look n =>
    rw [step]
    split <;> exact h.given

theorem Hook.knows_enter (v : Vars) (p : Packet) : (Hook.enter p).Knows A v := by
  by_cases hp : p.protocol = ipprotoTcp
  · simp [Hook.enter, Hook.Knows, hp]
  · simp [Hook.enter, Hook.Knows, hp]

/-- What the hook reads is true. -/
theorem Hook.Knows.look {h : Hook} {v : Vars} (hh : h.Knows A v)
    (hv : v.ioctlSet = 1 → Mixes A v.ioctlSetAddr) : (h.look v).Knows A v := by
  obtain ⟨p, test⟩ := h
  cases test with
  | flag =>
    by_cases hset : v.ioctlSet = 1
    · simp only [Hook.look, if_pos hset]
      exact ⟨hh, hset⟩
    · simp only [Hook.look, if_neg hset]
      exact hh
  | compare =>
    by_cases heq : v.ioctlSetAddr = p.daddr
    · simp only [Hook.look, beq_iff_eq, if_pos heq]
      exact ⟨hh.1, heq ▸ hv hh.2⟩
    · simp only [Hook.look, beq_iff_eq, if_neg heq]
      exact hh.1
  | unset | equal | differs | skipped => exact hh

/-- It stays true. -/
theorem Hook.Knows.later {h : Hook} {v v' : Vars} (hh : h.Knows A v)
    (hv : v.ioctlSet = 1 → v'.ioctlSet = 1) : h.Knows A v' := by
  obtain ⟨p, test⟩ := h
  cases test with
  | compare => exact ⟨hh.1, hv hh.2⟩
  | flag | unset | equal | differs | skipped => exact hh

theorem Origin.knows_step (h : Origin A s) :
    ∀ n y, (step s a).hooks n = some y → y.Knows A (step s a).vars := by
  have hset : s.vars.ioctlSet = 1 → (step s a).vars.ioctlSet = 1 := by
    intro hold
    obtain heq | ⟨-, -, -, -, hnew⟩ := flag_step s a
    · exact heq.trans hold
    · exact hnew
  have hrest : (step s a).hooks = s.hooks →
      ∀ n y, (step s a).hooks n = some y → y.Knows A (step s a).vars := by
    intro heq n y hn
    exact (h.knows n y (heq ▸ hn)).later hset
  cases a with
  | ioctl c addr fault =>
    refine hrest ?_
    rw [step]
    split <;> rfl
  | go c =>
    refine hrest ?_
    rw [step, Sys.go]
    split <;> rfl
  | other => exact hrest rfl
  | packet n p =>
    rw [step]
    split
    · intro m y hm
      obtain ⟨-, rfl⟩ | ⟨-, hm⟩ := TryLock.parties_update hm
      · exact Hook.knows_enter s.vars p
      · exact h.knows m y hm
    · exact h.knows
  | look n =>
    rw [step]
    split
    · exact h.knows
    · rename_i x hn
      intro m y hm
      obtain ⟨-, rfl⟩ | ⟨-, hm⟩ := TryLock.parties_update hm
      · exact (h.knows n x hn).look h.mixed
      · exact h.knows m y hm

theorem Origin.step (h : Origin A s) (ha : a.Gives A) : Origin A (Copying.step s a) :=
  ⟨h.sourced_step ha, h.given_step ha, h.mixed_step ha, h.knows_step⟩

/-! ### A call that nothing comes between -/

/-- Where a call is when it has stored its bytes. -/
def last (addr : Addr) : Option (Fin 4) → Call
  | none => .set addr
  | some k => .returned addr (some k) (-efault)

/-- A store, of a call that is there. -/
theorem run_go (addr : Addr) (fault : Option (Fin 4)) (i : Fin 4)
    (hc : s.calls c = some (.copy addr fault i)) (acts : List Act) :
    run step s (.go c :: acts) =
      run step ⟨⟨s.vars.ioctlSet, storeByte (stored addr fault) i s.vars.ioctlSetAddr⟩,
        Function.update s.calls c (some (next addr fault i)), s.hooks⟩ acts := by
  rw [run_cons]
  congr 1
  simp only [step, Sys.go, hc]
  rfl

/-- Four stores, one after the other. -/
theorem storeByte_all (new old : Addr) :
    storeByte new 3 (storeByte new 2 (storeByte new 1 (storeByte new 0 old))) = new := by
  refine bytes_injective (funext fun i => ?_)
  have hi : (i : ℕ) = 0 ∨ (i : ℕ) = 1 ∨ (i : ℕ) = 2 ∨ (i : ℕ) = 3 := by omega
  simp only [bytes_storeByte, Mixing.put]
  rcases hi with hi | hi | hi | hi <;> simp only [hi] <;> rfl

/-- **A call that is not disturbed stores what it is given.** -/
theorem run_copy (hc : s.calls c = none) (addr : Addr) (fault : Option (Fin 4)) :
    run step s (.ioctl c addr fault :: List.replicate 4 (Act.go c)) =
      ⟨{ s.vars with ioctlSetAddr := stored addr fault },
        Function.update s.calls c (some (last addr fault)), s.hooks⟩ := by
  have henter : step s (.ioctl c addr fault) = s.setCall c (.copy addr fault 0) := by
    simp only [step, hc]
  have hlast : next addr fault 3 = last addr fault := by
    cases fault <;> rfl
  rw [run_cons, henter, show List.replicate 4 (Act.go c) = [.go c, .go c, .go c, .go c] from rfl,
    run_go addr fault 0 (by simp [Sys.setCall]), run_go addr fault 1 (by simp [next]),
    run_go addr fault 2 (by simp [next]), run_go addr fault 3 (by simp [next]), run_nil, hlast]
  simp only [Sys.setCall, Function.update_idem]
  congr 2
  exact storeByte_all _ _

/-! ### Every mixture is logged -/

/-- The calls that copy what the writers do. -/
def calling (given : ℕ → Addr × Option (Fin 4)) : Mixing.Act 4 (BitVec 8) → Act
  | .enter c _ => .ioctl c (given c).1 (given c).2
  | .store c => .go c

/-- What they copy. -/
def blocksOf (given : ℕ → Addr × Option (Fin 4)) (c : ℕ) : Fin 4 → BitVec 8 :=
  bytes (stored (given c).1 (given c).2)

/-- **They copy what the writers do**, and leave the packets alone. -/
theorem run_calling (given : ℕ → Addr × Option (Fin 4)) (acts : List (Mixing.Act 4 (BitVec 8)))
    (hacts : ∀ c b, .enter c b ∈ acts → b = blocksOf given c) :
    (run step s (acts.map (calling given))).view = run Mixing.step s.view acts ∧
      (run step s (acts.map (calling given))).hooks = s.hooks := by
  induction acts generalizing s with
  | nil => exact ⟨rfl, rfl⟩
  | cons b acts ih =>
    have hone : (step s (calling given b)).view = Mixing.step s.view b ∧
        (step s (calling given b)).hooks = s.hooks := by
      cases b with
      | enter c block =>
        rw [hacts c block List.mem_cons_self]
        refine ⟨view_ioctl s c _ _, ?_⟩
        rw [calling, step]
        split <;> rfl
      | store c =>
        refine ⟨view_go s c, ?_⟩
        rw [calling, step, Sys.go]
        split <;> rfl
    obtain ⟨hview, hhooks⟩ := @ih (step s (calling given b)) fun c block hmem =>
      hacts c block (List.mem_cons_of_mem b hmem)
    rw [List.map_cons, run_cons, run_cons, hview, hhooks, hone.1, hone.2]
    exact ⟨rfl, rfl⟩

/-- A step of another call. -/
theorem calls_go_of_ne {c d : ℕ} (hne : d ≠ c) : (step s (.go c)).calls d = s.calls d := by
  rw [step, Sys.go]
  split
  · exact Function.update_of_ne hne _ _
  · exact Function.update_of_ne hne _ _
  · rfl

theorem view_start : Sys.start.view = Mixing.State.start (bytes (Vector.replicate 4 0)) := rfl

/-- The last of the calls is not disturbed, and is about to set the flag in the end. -/
theorem calls_mixing (given : ℕ → Addr × Option (Fin 4)) {addr : Addr}
    (haddr : given 4 = (addr, none)) :
    (run step Sys.start ((Mixing.mixing (blocksOf given)).map (calling given))).calls 4
      = some (.set addr) := by
  -- before it begins
  have hfree : (run step Sys.start
      ((Mixing.approach (blocksOf given) 4).map (calling given))).calls 4 = none := by
    have hview := (run_calling (s := Sys.start) given (Mixing.approach (blocksOf given) 4)
      fun c b h => Mixing.enter_mem_approach _ 4 h).1
    have hwriters := Mixing.writers_approach (blocksOf given) 4 (by omega) (s := Sys.start.view)
      (fun _ => rfl) 4
    rw [← hview, if_neg (lt_irrefl 4)] at hwriters
    simpa [Sys.view] using hwriters
  -- when it has stored its bytes
  have hset := run_copy hfree addr none
  have hacts : calling given (.enter 4 (blocksOf given 4)) = .ioctl 4 addr none := by
    rw [calling, haddr]
  -- while the others finish
  have hkeep : ∀ t a, (∃ c < 4, a = .go c) → t.calls 4 = some (.set addr) →
      (step t a).calls 4 = some (.set addr) := by
    rintro t - ⟨c, hc, rfl⟩ ht
    rw [calls_go_of_ne (by omega), ht]
  rw [Mixing.mixing, List.map_append, run_append, Mixing.approach, List.map_append, run_append,
    List.map_cons, List.map_replicate, hacts, calling, hset]
  refine run_invariant_along step hkeep _ (along_of_forall step fun a ha => ?_) (by simp [last])
  obtain ⟨b, hb, rfl⟩ := List.mem_map.mp ha
  obtain ⟨c, hc, rfl⟩ := Mixing.mem_finish 4 hb
  exact ⟨c, hc, rfl⟩

/-- **Every mixture can be what is compared against.** -/
theorem exists_mixed {d : Addr} (h : Mixes A d) :
    ∃ acts, (∀ a ∈ acts, a.Gives A) ∧
      (run step Sys.start acts).vars = ⟨1, d⟩ ∧
      (run step Sys.start acts).hooks = fun _ => none := by
  obtain ⟨⟨addr, haddr⟩, hbytes⟩ := h
  choose f hf heq using hbytes
  let given : ℕ → Addr × Option (Fin 4) := fun c => if hc : c < 4 then f ⟨c, hc⟩ else (addr, none)
  have hgiven : ∀ c, given c ∈ A := by
    intro c
    by_cases hc : c < 4
    · simpa only [given, dif_pos hc] using hf ⟨c, hc⟩
    · simpa only [given, dif_neg hc] using haddr
  have hset := @calls_mixing given addr (by simp [given])
  obtain ⟨hview, hhooks⟩ := run_calling (s := Sys.start) given (Mixing.mixing (blocksOf given))
    fun c b hb => Mixing.enter_mem_mixing _ hb
  obtain ⟨hmem, -⟩ := Mixing.run_mixing (blocksOf given) (bytes (Vector.replicate 4 0))
  rw [← view_start, ← hview] at hmem
  refine ⟨(Mixing.mixing (blocksOf given)).map (calling given) ++ [.go 4], ?_, ?_, ?_⟩
  · intro a ha
    rcases List.mem_append.mp ha with ha | ha
    · obtain ⟨b, -, rfl⟩ := List.mem_map.mp ha
      cases b with
      | enter c block => exact hgiven c
      | store c => trivial
    · rw [List.mem_singleton.mp ha]
      trivial
  · have haddr : (run step Sys.start ((Mixing.mixing (blocksOf given)).map
        (calling given))).vars.ioctlSetAddr = d := by
      refine bytes_injective (funext fun i => (hmem i).trans ?_)
      have hi : given i = f i := by simp only [given, dif_pos i.isLt]
      rw [blocksOf, hi]
      exact heq i
    rw [run_append, run_cons, run_nil]
    simp only [step, Sys.go, hset, haddr]
  · rw [run_append, run_cons, run_nil]
    simp only [step, Sys.go, hset, Sys.setCall, hhooks]
    rfl

/-- The packet is logged, its destination having been compared and found equal. -/
def Sys.Logs (s : Sys) (p : Packet) : Prop :=
  ∃ n h, s.hooks n = some h ∧ h.packet = p ∧ h.test = .equal ∧ h.message.isSome = true

/-- **A connection is logged for its destination exactly if that is a mixture** of what the calls
are given: each of its bytes is stored by one of them, and one of them can succeed. -/
theorem logged_exact (A : Given) (p : Packet) :
    (∃ acts, (∀ a ∈ acts, a.Gives A) ∧ (run step Sys.start acts).Logs p) ↔
      p.Initiates ∧ Mixes A p.daddr := by
  constructor
  · rintro ⟨acts, hacts, n, h, hn, rfl, htest, hmessage⟩
    have horigin : Origin A (run step Sys.start acts) :=
      run_invariant_along step (fun s a ha h => Origin.step h ha) acts
        (along_of_forall step hacts) origin_start
    have hknows := horigin.knows n h hn
    rw [Hook.Knows, htest] at hknows
    simp only [Hook.message, htest] at hmessage
    have hflags : h.packet.syn = true ∧ h.packet.ack = false := by
      by_contra hflags
      rw [if_neg (by simpa using hflags)] at hmessage
      exact absurd hmessage (by simp)
    exact ⟨⟨hknows.1, hflags⟩, hknows.2⟩
  · rintro ⟨⟨hproto, hsyn, hack⟩, hmix⟩
    obtain ⟨acts, hacts, hvars, hhooks⟩ := exists_mixed hmix
    refine ⟨acts ++ [.packet 0 p, .look 0, .look 0], ?_, 0, ⟨p, .equal⟩, ?_, rfl, rfl, ?_⟩
    · intro a ha
      rcases List.mem_append.mp ha with ha | ha
      · exact hacts a ha
      · have hlook : a = .packet 0 p ∨ a = .look 0 := by simpa using ha
        rcases hlook with rfl | rfl <;> trivial
    · rw [run_append]
      simp [step, hhooks, hvars, Hook.enter, Hook.look, hproto]
    · simp [Hook.message, hsyn, hack]

/-! ### One after the other -/

/-- The steps of a call, or of a run of the hook, that nothing comes between. -/
def block (n : ℕ) : Event → List Act
  | .ioctl (.filterAddress addr fault) => .ioctl n addr fault :: List.replicate 5 (Act.go n)
  | .ioctl .other => [.other]
  | .packet p => [.packet n p, .look n, .look n]

/-- Events one after the other, the first of them with number `n`. -/
def inTurn : ℕ → List Event → List Act
  | _, [] => []
  | n, e :: events => block n e ++ inTurn (n + 1) events

/-- What event `n` has come to is what is said of it, with the variables as they were. -/
def Sys.Agrees (s : Sys) (n : ℕ) (v : Vars) : Event → Prop
  | .ioctl (.filterAddress addr fault) =>
    s.calls n = some (.returned addr fault (myIoctl v (.filterAddress addr fault)).1)
  | .ioctl .other => True
  | .packet p => ∃ h, s.hooks n = some h ∧ h.packet = p ∧ h.message = (myNfHookfn v p).2

/-- Nothing has a number from `n` on. -/
def Sys.Fresh (s : Sys) (n : ℕ) : Prop := ∀ m, n ≤ m → s.calls m = none ∧ s.hooks m = none

/-- A packet that nothing comes between. -/
theorem message_look (v : Vars) (p : Packet) :
    (((Hook.enter p).look v).look v).packet = p ∧
      (((Hook.enter p).look v).look v).message = (myNfHookfn v p).2 := by
  by_cases hproto : p.protocol = ipprotoTcp
  · by_cases hset : v.ioctlSet = 1
    · by_cases haddr : v.ioctlSetAddr = p.daddr
      · simp [Hook.enter, Hook.look, Hook.message, myNfHookfn, testDaddr, hproto, hset, haddr]
        split <;> rfl
      · simp [Hook.enter, Hook.look, Hook.message, myNfHookfn, testDaddr, hproto, hset, haddr]
    · simp [Hook.enter, Hook.look, Hook.message, myNfHookfn, testDaddr, hproto, hset]
      split <;> rfl
  · simp [Hook.enter, Hook.look, Hook.message, myNfHookfn, hproto]

theorem Sys.Agrees.congr {s' : Sys} {n : ℕ} {v : Vars} {e : Event} (h : s.Agrees n v e)
    (hcalls : s'.calls n = s.calls n) (hhooks : s'.hooks n = s.hooks n) : s'.Agrees n v e := by
  cases e with
  | ioctl cmd =>
    cases cmd with
    | filterAddress addr fault => exact hcalls.trans h
    | other => trivial
  | packet p =>
    obtain ⟨x, hx, hrest⟩ := h
    exact ⟨x, hhooks.trans hx, hrest⟩

/-- **A block does what the event does**, and leaves what has another number alone. -/
theorem run_block {n : ℕ} (hc : s.calls n = none) (hh : s.hooks n = none) {t : Networking.Sys}
    (ht : s.vars = t.vars) (e : Event) :
    (run step s (block n e)).vars = (Networking.step t e).vars ∧
      (run step s (block n e)).Agrees n s.vars e ∧
      ∀ m, m ≠ n → (run step s (block n e)).calls m = s.calls m ∧
        (run step s (block n e)).hooks m = s.hooks m := by
  cases e with
  | ioctl cmd =>
    cases cmd with
    | filterAddress addr fault =>
      have hblock : block n (.ioctl (.filterAddress addr fault))
          = (.ioctl n addr fault :: List.replicate 4 (Act.go n)) ++ [.go n] := rfl
      rw [hblock, run_append, run_copy hc, run_cons, run_nil]
      cases fault with
      | none =>
        simp only [step, Sys.go, last, Function.update_self, Sys.setCall, Function.update_idem]
        refine ⟨?_, Function.update_self .., fun m hm => ⟨Function.update_of_ne hm _ _, trivial⟩⟩
        rw [Networking.step, ← ht]
        rfl
      | some k =>
        simp only [step, Sys.go, last, Function.update_self]
        refine ⟨?_, Function.update_self .., fun m hm => ⟨Function.update_of_ne hm _ _, trivial⟩⟩
        rw [Networking.step, ← ht]
        rfl
    | other => exact ⟨ht, trivial, fun _ _ => ⟨rfl, rfl⟩⟩
  | packet p =>
    obtain ⟨hpacket, hmessage⟩ := message_look s.vars p
    simp only [block, run_cons, run_nil, step, hh, Function.update_self, Function.update_idem]
    refine ⟨ht, ⟨_, Function.update_self .., hpacket, hmessage⟩, fun m hm => ⟨trivial, ?_⟩⟩
    exact Function.update_of_ne hm _ _

theorem inTurn_concat (n : ℕ) (events : List Event) (e : Event) :
    inTurn n (events ++ [e]) = inTurn n events ++ block (n + events.length) e := by
  induction events generalizing n with
  | nil => simp [inTurn]
  | cons f events ih =>
    rw [List.cons_append, inTurn, ih, inTurn, List.append_assoc, List.length_cons]
    congr 3
    omega

/-- **Calls that do not overlap do what the filter is said to do**: the variables in the end, the
value each call returns and the message of each packet are those of the calls taken as single
steps. -/
theorem serial (events : List Event) :
    (run step Sys.start (inTurn 0 events)).vars
        = (run Networking.step Networking.Sys.start events).vars ∧
      ∀ k e, events[k]? = some e →
        (run step Sys.start (inTurn 0 events)).Agrees k
          (run Networking.step Networking.Sys.start (events.take k)).vars e := by
  suffices h : (run step Sys.start (inTurn 0 events)).Fresh events.length ∧
      (run step Sys.start (inTurn 0 events)).vars
          = (run Networking.step Networking.Sys.start events).vars ∧
        ∀ k e, events[k]? = some e →
          (run step Sys.start (inTurn 0 events)).Agrees k
            (run Networking.step Networking.Sys.start (events.take k)).vars e from h.2
  -- the last event finds its number free
  induction events using List.reverseRecOn with
  | nil => exact ⟨fun _ _ => ⟨rfl, rfl⟩, rfl, fun k e h => absurd h (by simp)⟩
  | append_singleton events e ih =>
    obtain ⟨hfresh, hvars, hagrees⟩ := ih
    obtain ⟨hc, hh⟩ := hfresh events.length (le_refl _)
    obtain ⟨hvars', hlast, hframe⟩ := run_block hc hh hvars e
    rw [inTurn_concat, Nat.zero_add, run_append, run_append]
    refine ⟨?_, hvars', ?_⟩
    · intro m hm
      rw [List.length_append, List.length_singleton] at hm
      obtain ⟨hcalls, hhooks⟩ := hframe m (by omega)
      rw [hcalls, hhooks]
      exact hfresh m (by omega)
    · intro k f hk
      rcases Nat.lt_or_ge k events.length with hlt | hge
      · rw [List.getElem?_append_left hlt] at hk
        rw [List.take_append_of_le_length (by omega)]
        obtain ⟨hcalls, hhooks⟩ := hframe k (by omega)
        exact (hagrees k f hk).congr hcalls hhooks
      · have hlen : k < events.length + 1 := by
          simpa using (List.getElem?_eq_some_iff.mp hk).1
        have heq : k = events.length := by omega
        subst heq
        have hfe : e = f := by simpa using hk
        subst hfe
        rw [List.take_left, ← hvars]
        exact hlast

end Copying

end Networking

end KernelModules
