import Mathlib.Algebra.Order.Group.Int
import Mathlib.Data.List.Basic
import KernelModules.Lib.Run

/-!
# The packet filter

`networking/kernel/filter.c`: a hook on outgoing packets that logs each attempt to open a
TCP connection, and an `ioctl` that restricts it to one destination. The decision rests on
two variables, `ioctl_set` and `ioctl_set_addr`, of which the second is written before it is
known whether the call succeeds: `copy_from_user` copies straight into it, and a copy that
fails has copied a part and filled the rest with zeros.

The filter does what it should exactly as long as such a copy leaves the address that was
there: `KernelModules.Networking.Harmless`.
-/

namespace KernelModules

namespace Networking

/-! ### Packets -/

/-- An IPv4 address: its bytes, in network order. -/
abbrev Addr := Vector (BitVec 8) 4

/-- `IPPROTO_TCP`. -/
def ipprotoTcp : BitVec 8 := 6
/-- `NF_ACCEPT`. -/
def nfAccept : ℕ := 1
/-- `EFAULT`. -/
def efault : ℤ := 14
/-- `ENOTTY`. -/
def enotty : ℤ := 25

/-- What the hook looks at in a packet. -/
structure Packet where
  /-- The protocol. -/
  protocol : BitVec 8
  /-- The source address. -/
  saddr : Addr
  /-- The destination address. -/
  daddr : Addr
  /-- The source port, in network order. -/
  source : Vector (BitVec 8) 2
  /-- The SYN flag. -/
  syn : Bool
  /-- The ACK flag. -/
  ack : Bool

/-- `ntohs`. -/
def ntohs (v : Vector (BitVec 8) 2) : ℕ := 256 * v[0].toNat + v[1].toNat

/-- What is logged of a packet: the source address and port. -/
structure Message where
  /-- The address. -/
  saddr : Addr
  /-- The port. -/
  port : ℕ
deriving DecidableEq

/-! ### The module -/

/-- The commands of `my_ioctl`. -/
inductive Command where
  /-- `MY_IOCTL_FILTER_ADDRESS`, with the address at the user's pointer. A copy that fails
  has copied fewer than four bytes. -/
  | filterAddress (addr : Addr) (fault : Option (Fin 4)) : Command
  /-- Any other. -/
  | other : Command

/-- The module's variables. -/
structure Vars where
  /-- `ioctl_set`. -/
  ioctlSet : ℤ
  /-- `ioctl_set_addr`. -/
  ioctlSetAddr : Addr
deriving DecidableEq

/-- `my_hook_init`. -/
def myHookInit : Vars := ⟨0, Vector.replicate 4 0⟩

/-- What `copy_from_user` leaves when it stops after `k` bytes. -/
def copied (addr : Addr) (k : ℕ) : Addr := Vector.ofFn fun i => if (i : ℕ) < k then addr[i] else 0

/-- `my_ioctl`. -/
def myIoctl (v : Vars) : Command → ℤ × Vars
  | .filterAddress addr fault =>
    match fault with
    | some k => (-efault, { v with ioctlSetAddr := copied addr k })
    | none => (0, { v with ioctlSetAddr := addr, ioctlSet := 1 })
  | .other => (-enotty, v)

/-- `test_daddr`. -/
def testDaddr (v : Vars) (dstAddr : Addr) : Bool :=
  if v.ioctlSet = 1 then v.ioctlSetAddr == dstAddr else true

/-- `my_nf_hookfn`: its verdict, and what it logs. -/
def myNfHookfn (v : Vars) (p : Packet) : ℕ × Option Message :=
  if p.protocol = ipprotoTcp ∧ testDaddr v p.daddr then
    if p.syn && !p.ack then (nfAccept, some ⟨p.saddr, ntohs p.source⟩) else (nfAccept, none)
  else (nfAccept, none)

/-! ### Runs -/

/-- The module, and the address given to the last `MY_IOCTL_FILTER_ADDRESS` that has returned
0, which it does not keep. -/
structure Sys where
  /-- The variables. -/
  vars : Vars
  /-- The address. -/
  accepted : Option Addr

/-- The module, just loaded. -/
def Sys.start : Sys := ⟨myHookInit, none⟩

/-- What can happen next. -/
inductive Event where
  /-- A call of `my_ioctl`. -/
  | ioctl (cmd : Command) : Event
  /-- A packet goes out. -/
  | packet (p : Packet) : Event

/-- The address a call that returns 0 sets. -/
def Command.address : Command → Option Addr
  | .filterAddress addr _ => some addr
  | .other => none

/-- **One step.** -/
def step (s : Sys) : Event → Sys
  | .ioctl cmd =>
    ⟨(myIoctl s.vars cmd).2,
      if (myIoctl s.vars cmd).1 = 0 then cmd.address.or s.accepted else s.accepted⟩
  | .packet _ => s

/-- The packet opens a TCP connection. -/
def Packet.Initiates (p : Packet) : Prop := p.protocol = ipprotoTcp ∧ p.syn = true ∧ p.ack = false

/-- **The filter does what it should**: it lets every packet through, and logs those that
open a connection to the address that was last set, to any if none was. -/
def Judges (s : Sys) : Event → Prop
  | .packet p =>
    (myNfHookfn s.vars p).1 = nfAccept ∧
    ((myNfHookfn s.vars p).2.isSome = true ↔
      p.Initiates ∧ (s.accepted = none ∨ s.accepted = some p.daddr))
  | .ioctl _ => True

/-- **A copy that fails leaves the address that was last set**, if one was. -/
def Harmless (s : Sys) : Event → Prop
  | .ioctl (.filterAddress addr (some k)) => ∀ a, s.accepted = some a → copied addr k = a
  | _ => True

/-! ### The decision -/

theorem verdict (v : Vars) (p : Packet) : (myNfHookfn v p).1 = nfAccept := by
  rw [myNfHookfn]
  split
  · split <;> rfl
  · rfl

/-- **What is logged.** -/
theorem logs_iff (v : Vars) (p : Packet) :
    (myNfHookfn v p).2.isSome = true ↔ p.Initiates ∧ testDaddr v p.daddr = true := by
  rw [myNfHookfn, Packet.Initiates]
  split
  · obtain ⟨hproto, htest⟩ := ‹p.protocol = ipprotoTcp ∧ testDaddr v p.daddr = true›
    split
    · have hflags : p.syn = true ∧ p.ack = false := by simpa using ‹(p.syn && !p.ack) = true›
      exact iff_of_true rfl ⟨⟨hproto, hflags⟩, htest⟩
    · have hflags : ¬(p.syn = true ∧ p.ack = false) := by simpa using ‹¬(p.syn && !p.ack) = true›
      exact iff_of_false (by simp) fun h => hflags h.1.2
  · have hfail := ‹¬(p.protocol = ipprotoTcp ∧ testDaddr v p.daddr = true)›
    exact iff_of_false (by simp) fun h => hfail ⟨h.1.1, h.2⟩

/-- **The variables say what was last set.** -/
def Current (s : Sys) : Prop :=
  match s.accepted with
  | none => s.vars.ioctlSet = 0
  | some a => s.vars.ioctlSet = 1 ∧ s.vars.ioctlSetAddr = a

theorem current_start : Current Sys.start := rfl

theorem Current.testDaddr_iff {s : Sys} (h : Current s) (dst : Addr) :
    testDaddr s.vars dst = true ↔ s.accepted = none ∨ s.accepted = some dst := by
  rw [Current] at h
  rcases ha : s.accepted with - | a
  · rw [ha] at h
    have hset : s.vars.ioctlSet ≠ 1 := by
      rw [show s.vars.ioctlSet = 0 from h]
      decide
    exact iff_of_true (if_neg hset) (.inl rfl)
  · rw [ha] at h
    obtain ⟨hset, haddr⟩ := h
    rw [testDaddr, if_pos hset, haddr, beq_iff_eq]
    simp

theorem Current.judges {s : Sys} (h : Current s) (e : Event) : Judges s e := by
  cases e with
  | ioctl cmd => trivial
  | packet p =>
    refine ⟨verdict s.vars p, ?_⟩
    rw [logs_iff, h.testDaddr_iff]

/-- A call that fails sets nothing. -/
theorem accepted_of_fault (s : Sys) (addr : Addr) (k : Fin 4) :
    (step s (.ioctl (.filterAddress addr (some k)))).accepted = s.accepted := by
  have hne : (myIoctl s.vars (.filterAddress addr (some k))).1 ≠ 0 := by
    simp [myIoctl, efault]
  simp only [step, if_neg hne]

theorem Current.step {s : Sys} (h : Current s) {e : Event} (hok : Harmless s e) :
    Current (step s e) := by
  cases e with
  | packet p => exact h
  | ioctl cmd =>
    cases cmd with
    | other => exact h
    | filterAddress addr fault =>
      cases fault with
      | none => exact ⟨rfl, rfl⟩
      | some k =>
        rw [Current] at h ⊢
        rw [accepted_of_fault]
        rcases ha : s.accepted with - | a
        · rw [ha] at h
          exact h
        · rw [ha] at h
          exact ⟨h.1, hok a ha⟩

/-! ### A copy that does harm -/

/-- An attempt to open a connection to an address. -/
def Packet.initiating (a : Addr) : Packet :=
  ⟨ipprotoTcp, Vector.replicate 4 0, a, Vector.replicate 2 0, true, false⟩

/-- Once an address has been set, `ioctl_set` says so. -/
theorem ioctlSet_of_accepted {s : Sys} (h : s.accepted = none ∨ s.vars.ioctlSet = 1) (e : Event) :
    (step s e).accepted = none ∨ (step s e).vars.ioctlSet = 1 := by
  cases e with
  | packet p => exact h
  | ioctl cmd =>
    cases cmd with
    | other => exact h
    | filterAddress addr fault =>
      cases fault with
      | none => exact .inr rfl
      | some k =>
        rw [accepted_of_fault]
        exact h

/-- After a copy that has left another address, a packet to the one that was set is not
logged. -/
theorem missed_of_copied {s : Sys} (hset : s.vars.ioctlSet = 1) {addr a : Addr} {k : Fin 4}
    (ha : s.accepted = some a) (hne : copied addr k ≠ a) :
    ∃ more, ¬Along step Judges (step s (.ioctl (.filterAddress addr (some k)))) more := by
  refine ⟨[.packet (.initiating a)], fun h => ?_⟩
  have hlog := (h.1.2.mpr ⟨⟨rfl, rfl, rfl⟩, .inr ((accepted_of_fault s addr k).trans ha)⟩)
  rw [logs_iff] at hlog
  have htest := hlog.2
  rw [testDaddr, if_pos (show (step s (.ioctl (.filterAddress addr (some k)))).vars.ioctlSet = 1
    from hset), beq_iff_eq] at htest
  exact hne htest

/-- **The filter does what it should exactly as long as every copy that fails after an
address has been set leaves that address**: in particular as long as none fails then. Any
other failing copy makes it miss connections to the address that was set. -/
theorem judges_exact (events : List Event) :
    (Along step Harmless Sys.start events → Along step Judges Sys.start events) ∧
    ∀ e, ¬Harmless (run step Sys.start events) e →
      ∃ more, ¬Along step Judges Sys.start (events ++ e :: more) := by
  refine ⟨fun hok => ?_, fun e he => ?_⟩
  · exact along_of_invariant step (fun s e hok h => h.step hok) (fun s e _ h => h.judges e) events
      hok current_start
  · refine exists_not_along_of_next step ?_
    have hinv := @run_invariant _ _ step (fun s => s.accepted = none ∨ s.vars.ioctlSet = 1)
      (fun s e h => ioctlSet_of_accepted h e) events Sys.start (.inl rfl)
    cases e with
    | packet p => exact absurd trivial he
    | ioctl cmd =>
      cases cmd with
      | other => exact absurd trivial he
      | filterAddress addr fault =>
        cases fault with
        | none => exact absurd trivial he
        | some k =>
          simp only [Harmless, not_forall] at he
          obtain ⟨a, ha, hne⟩ := he
          refine missed_of_copied (hinv.resolve_left ?_) ha hne
          rw [ha]
          simp

/-- The filter is set to 127.0.0.1; a second call faults at once; a connection to 127.0.0.1
is not logged. -/
theorem judges_faulted : ¬∀ events, Along step Judges Sys.start events := by
  intro h
  have hrun := h ([Event.ioctl (.filterAddress #v[127, 0, 0, 1] none),
    Event.ioctl (.filterAddress #v[127, 0, 0, 2] (some 0))]
      ++ [Event.packet (.initiating #v[127, 0, 0, 1])])
  have hlog := ((along_append step).mp hrun).2.1.2.mpr ⟨⟨rfl, rfl, rfl⟩, .inr rfl⟩
  exact absurd hlog (by decide)

/-- A call that faults before any address has been set does no harm. -/
theorem judges_unset :
    Along step Judges Sys.start
      [.ioctl (.filterAddress #v[127, 0, 0, 2] (some 2)), .packet (.initiating #v[127, 0, 0, 1]),
        .ioctl (.filterAddress #v[127, 0, 0, 1] none), .packet (.initiating #v[127, 0, 0, 1])] := by
  refine (judges_exact _).1 ⟨fun a ha => ?_, trivial, trivial, trivial, trivial⟩
  exact absurd ha (by simp [Sys.start])

end Networking

end KernelModules
