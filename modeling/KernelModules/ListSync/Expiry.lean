import KernelModules.Lib.Clock
import KernelModules.ListSync.Nodes

/-!
# Expiry, on a clock that wraps

`jiffies` is the low `w` bits of a clock that never turns back. The module stamps a node with
it when it is allocated and each time it is found again, and `task_info_remove_expired`
takes the difference of `jiffies` and the stamp for the age of the node, while the clock goes
on. This file is the threads of `KernelModules.ListSync.step` with that clock
(`KernelModules.ListSync.Expiry.step`); the state also has the time each node was stamped at,
which the module does not.

The difference is the age as long as a node is not `2 ^ w` ticks old by the time it is
looked at (`KernelModules.ListSync.Expiry.expired_iff`). Then expiry removes what was stale
when it was called, and keeps what is not when it gets there:
`KernelModules.ListSync.Expiry.expiry_exact`. That a node was younger than that when expiry
was called is not enough, since the clock may pass the mark before the loop gets to it:
`KernelModules.ListSync.Expiry.kept_after_wrap`.
-/

namespace KernelModules

namespace ListSync

namespace Expiry

variable {w : ℕ}

/-! ### The threads and the clock -/

/-- The module, its threads and the clock. -/
structure Timed (w : ℕ) where
  /-- The module and its threads. -/
  sys : Sys w
  /-- The clock, whose low bits are `jiffies`. -/
  clock : ℕ
  /-- The time each node was stamped at. Not in the source. -/
  stamps : ℕ → ℕ

/-- The module, just loaded at some time. -/
def Timed.init (clock : ℕ) : Timed w := ⟨Sys.init, clock, fun _ => clock⟩

/-- What can happen next. -/
inductive Event where
  /-- Time passes. -/
  | wait (ticks : ℕ) : Event
  /-- Thread `t` sets out to add some pids. -/
  | call (t : ℕ) (pids : List ℤ) : Event
  /-- Thread `t` runs the first critical section. -/
  | lookup (t : ℕ) : Event
  /-- Thread `t` runs `task_info_alloc`; `ok` says that `kmalloc` does not fail. -/
  | alloc (t : ℕ) (ok : Bool) : Event
  /-- Thread `t` runs the second critical section. -/
  | insert (t : ℕ) : Event
  /-- Some thread runs `task_info_remove_expired`; `delays i` is what passes before the
  `i`-th iteration reads `jiffies`. -/
  | removeExpired (hz : ℕ) (delays : ℕ → ℕ) : Event
  /-- Some thread runs `task_info_purge_list`. -/
  | purge : Event

/-- The time at which the `i`-th iteration of a loop reads the clock. -/
def reading (clock : ℕ) (delays : ℕ → ℕ) : ℕ → ℕ
  | 0 => clock + delays 0
  | i + 1 => reading clock delays i + delays (i + 1)

/-- The node the first critical section of thread `t` is going to find. -/
def found (s : Sys w) (t : ℕ) : Option ℕ :=
  match s.threads t with
  | ⟨pid :: _, .lookup⟩ => (s.head.find? fun ti => ti.pid == pid).map TaskInfo.node
  | _ => none

/-- The stamps, after a node has been stamped. -/
def stamp (stamps : ℕ → ℕ) (n : Option ℕ) (clock : ℕ) : ℕ → ℕ :=
  match n with
  | some n => Function.update stamps n clock
  | none => stamps

/-- **One step.** -/
def step (s : Timed w) : Event → Timed w
  | .wait ticks => { s with clock := s.clock + ticks }
  | .call t pids => { s with sys := ListSync.step s.sys (.call t pids) }
  | .lookup t =>
    { s with
      sys := ListSync.step s.sys (.lookup t (BitVec.ofNat w s.clock))
      stamps := stamp s.stamps (found s.sys t) s.clock }
  | .alloc t ok =>
    { s with
      sys := ListSync.step s.sys (.alloc t (if ok then some (BitVec.ofNat w s.clock) else none))
      stamps := Function.update s.stamps s.sys.nodes s.clock }
  | .insert t => { s with sys := ListSync.step s.sys (.insert t) }
  | .removeExpired hz delays =>
    { s with
      sys := ListSync.step s.sys (.removeExpired hz fun i =>
        BitVec.ofNat w (reading s.clock delays i))
      clock := reading s.clock delays s.sys.head.length }
  | .purge => { s with sys := ListSync.step s.sys .purge }

theorem clock_le_reading (clock : ℕ) (delays : ℕ → ℕ) : ∀ i, clock ≤ reading clock delays i
  | 0 => Nat.le_add_right _ _
  | i + 1 => (clock_le_reading clock delays i).trans (Nat.le_add_right _ _)

/-! ### The stamps -/

/-- A node has the time it was stamped at, as far as `jiffies` goes. -/
def Right (s : Timed w) (ti : TaskInfo w) : Prop :=
  ti.timestamp = BitVec.ofNat w (s.stamps ti.node) ∧ s.stamps ti.node ≤ s.clock

/-- **Every node has**, in the list or not yet. -/
structure Stamped (s : Timed w) : Prop where
  owned : Nodes.Owned s.sys
  linked : ∀ ti ∈ s.sys.head, Right s ti
  pending : ∀ t ti now, (s.sys.threads t).pc = .insert (some ti) now → Right s ti

theorem stamped_init (clock : ℕ) : Stamped (Timed.init clock : Timed w) where
  owned := Nodes.owned_init
  linked ti hti := absurd hti List.not_mem_nil
  pending t ti now h := absurd h (by simp [Timed.init, Sys.init, Thread.idle])

/-- The clock goes on. -/
theorem Right.later {s s' : Timed w} {ti : TaskInfo w} (h : Right s ti)
    (hstamp : s'.stamps ti.node = s.stamps ti.node) (hclock : s.clock ≤ s'.clock) :
    Right s' ti := by
  rw [Right, hstamp]
  exact ⟨h.1, h.2.trans hclock⟩

/-- A node carried by a thread after another has moved to where it carries none. -/
theorem pending_of_update {threads : ℕ → Thread w} {t t' : ℕ} {th : Thread w} {ti : TaskInfo w}
    {now : BitVec w} (hth : ∀ ti now, th.pc ≠ .insert (some ti) now)
    (h : (Function.update threads t th t').pc = .insert (some ti) now) :
    (threads t').pc = .insert (some ti) now := by
  rcases eq_or_ne t' t with rfl | hne
  · rw [Function.update_self] at h
    exact absurd h (hth ti now)
  · rwa [Function.update_of_ne hne] at h

/-- **Without a lookup or an allocation** no thread gets a node, and only a node that a thread
has is linked. -/
theorem moved {s s' : Sys w} {a : Act w} (hs : Step s a s') (hlookup : ∀ t now, a ≠ .lookup t now)
    (halloc : ∀ t now, a ≠ .alloc t now) :
    s'.nodes = s.nodes ∧
      (∀ ti ∈ s'.head, ti ∈ s.head ∨ ∃ t now, (s.threads t).pc = .insert (some ti) now) ∧
      ∀ t ti now, (s'.threads t).pc = .insert (some ti) now →
        (s.threads t).pc = .insert (some ti) now := by
  cases hs with
  | stutter => exact ⟨rfl, fun _ => .inl, fun _ _ _ => id⟩
  | call => exact ⟨rfl, fun _ => .inl, fun _ _ _ hpc => pending_of_update (by simp) hpc⟩
  | hit => exact absurd rfl (hlookup _ _)
  | miss => exact absurd rfl (hlookup _ _)
  | alloc => exact absurd rfl (halloc _ _)
  | @insert t pid rest ti now hth =>
    refine ⟨rfl, fun x hx => ?_, fun _ _ _ hpc => pending_of_update (by simp) hpc⟩
    rcases List.mem_cons.mp hx with rfl | hx
    · exact .inr ⟨t, now, by rw [hth]⟩
    · exact .inl hx
  | oops =>
    exact ⟨rfl, fun _ => .inl, fun _ _ _ hpc => pending_of_update (by simp [Thread.idle]) hpc⟩
  | @expire hz jiffies =>
    have hsub := taskInfoRemoveExpired_sublist hz jiffies s.head
    exact ⟨rfl, fun x hx => .inl (hsub.mem hx), fun _ _ _ => id⟩
  | purge => exact ⟨rfl, fun x hx => absurd hx List.not_mem_nil, fun _ _ _ => id⟩

/-- **What the first critical section does to the list**: it finds a node and updates it in
place, or finds none. -/
theorem lookup_found {s : Sys w} (h : Nodes.Owned s) (t : ℕ) (now : BitVec w) :
    (∀ t' ti now', ((ListSync.step s (.lookup t now)).threads t').pc = .insert (some ti) now' →
        (s.threads t').pc = .insert (some ti) now') ∧
      (found s t = none ∧ (ListSync.step s (.lookup t now)).head = s.head ∨
        ∃ front ti back, found s t = some ti.node ∧ s.head = front ++ ti :: back ∧
          (ListSync.step s (.lookup t now)).head = front ++ touch now ti :: back ∧
          ∀ x ∈ front ++ back, x.node ≠ ti.node) := by
  rcases hth : s.threads t with ⟨- | ⟨pid, rest⟩, - | - | ⟨ti, read⟩⟩
  case cons.lookup =>
    rcases hfind : taskInfoFindPid pid s.head with - | i
    · have hnone : s.head.find? (fun ti => ti.pid == pid) = none := by
        rw [List.find?_eq_none]
        simpa using taskInfoFindPid_eq_none.mp hfind
      simp only [ListSync.step, found, hth, stepLookup, hfind, hnone]
      exact ⟨fun t' ti now' hpc => pending_of_update (by simp) hpc, .inl ⟨rfl, trivial⟩⟩
    · obtain ⟨front, ti, back, hhead, hfirst, hmod⟩ := taskInfoFindPid_first hfind
      simp only [ListSync.step, found, hth, stepLookup, hfind, hfirst, hmod]
      refine ⟨fun t' ti now' hpc => pending_of_update (by simp) hpc,
        .inr ⟨front, ti, back, rfl, hhead, rfl, ?_⟩⟩
      -- the other nodes of the list are other nodes
      have hnodup := (List.nodup_append'.mp h.nodup).1
      rw [hhead, List.map_append, List.map_cons, List.nodup_middle, ← List.map_append,
        List.nodup_cons] at hnodup
      exact fun x hx heq => hnodup.1 (heq ▸ List.mem_map_of_mem hx)
  all_goals
    simp only [ListSync.step, found, hth]
    exact ⟨fun _ _ _ => id, .inl ⟨trivial, trivial⟩⟩

/-- A step that stamps no node. -/
theorem Stamped.keep {s s' : Timed w} (h : Stamped s) (howned : Nodes.Owned s'.sys)
    (hhead : ∀ ti ∈ s'.sys.head, Right s ti)
    (hpending : ∀ t ti now, (s'.sys.threads t).pc = .insert (some ti) now →
      (s.sys.threads t).pc = .insert (some ti) now)
    (hstamps : s'.stamps = s.stamps) (hclock : s.clock ≤ s'.clock) : Stamped s' where
  owned := howned
  linked ti hti := (hhead ti hti).later (by rw [hstamps]) hclock
  pending t ti now hpc :=
    (h.pending t ti now (hpending t ti now hpc)).later (by rw [hstamps]) hclock

/-- A step that stamps one. -/
theorem Stamped.stampOne {s s' : Timed w} (h : Stamped s) (howned : Nodes.Owned s'.sys) {n : ℕ}
    (hlinked : ∀ ti ∈ s'.sys.head, ti.node = n ∧ ti.timestamp = BitVec.ofNat w s.clock ∨
      ti.node ≠ n ∧ ti ∈ s.sys.head)
    (hpending : ∀ t ti now, (s'.sys.threads t).pc = .insert (some ti) now →
      ti.node = n ∧ ti.timestamp = BitVec.ofNat w s.clock ∨
        ti.node ≠ n ∧ (s.sys.threads t).pc = .insert (some ti) now)
    (hstamps : s'.stamps = Function.update s.stamps n s.clock) (hclock : s'.clock = s.clock) :
    Stamped s' := by
  have hnew : ∀ ti, ti.node = n → ti.timestamp = BitVec.ofNat w s.clock → Right s' ti := by
    rintro ti rfl hnow
    rw [Right, hstamps, Function.update_self, hclock]
    exact ⟨hnow, le_rfl⟩
  have hold : ∀ ti, ti.node ≠ n → Right s ti → Right s' ti := by
    intro ti hne hti
    exact hti.later (by rw [hstamps, Function.update_of_ne hne]) hclock.ge
  refine ⟨howned, fun ti hti => ?_, fun t ti now hpc => ?_⟩
  · rcases hlinked ti hti with ⟨hn, hnow⟩ | ⟨hne, hmem⟩
    · exact hnew ti hn hnow
    · exact hold ti hne (h.linked ti hmem)
  · rcases hpending t ti now hpc with ⟨hn, hnow⟩ | ⟨hne, hpc⟩
    · exact hnew ti hn hnow
    · exact hold ti hne (h.pending t ti now hpc)

section

variable {s : Timed w}

/-- The first critical section finds a node and stamps it, or finds none. -/
theorem Stamped.lookup (h : Stamped s) (t : ℕ) : Stamped (step s (.lookup t)) := by
  have howned : Nodes.Owned (ListSync.step s.sys (.lookup t (BitVec.ofNat w s.clock))) :=
    Nodes.owned_step (step_cases s.sys _) h.owned
  obtain ⟨hpending, ⟨hnone, hhead⟩ | ⟨front, ti, back, hfound, hold, hnew, hother⟩⟩ :=
    lookup_found h.owned t (BitVec.ofNat w s.clock)
  · refine h.keep howned (fun x hx => ?_) hpending ?_ le_rfl
    · exact h.linked x (hhead ▸ hx)
    · simp only [step, hnone, stamp]
  · have hrest : ∀ x ∈ front ++ back, x.node ≠ ti.node ∧ x ∈ s.sys.head := by
      intro x hx
      refine ⟨hother x hx, ?_⟩
      rw [hold, List.mem_append, List.mem_cons]
      exact (List.mem_append.mp hx).imp_right .inr
    refine h.stampOne howned (n := ti.node) (fun x hx => ?_) (fun t' x now hpc => ?_) ?_ rfl
    · simp only [step, hnew, List.mem_append, List.mem_cons] at hx
      rcases hx with hx | rfl | hx
      · exact .inr (hrest x (List.mem_append_left _ hx))
      · exact .inl ⟨rfl, rfl⟩
      · exact .inr (hrest x (List.mem_append_right _ hx))
    · -- a node some thread carries is not in the list
      have hpc := hpending t' x now hpc
      refine .inr ⟨fun heq => ?_, hpc⟩
      refine h.owned.held t' x.node (by rw [Nodes.holds, hpc]) (List.mem_append_left _ ?_)
      rw [heq, hold]
      exact List.mem_map_of_mem (by simp)
    · simp only [step, hfound, stamp]

/-- An allocation stamps a new node. -/
theorem Stamped.alloc (h : Stamped s) (t : ℕ) (ok : Bool) : Stamped (step s (.alloc t ok)) := by
  have howned : Nodes.Owned (step s (.alloc t ok)).sys := Nodes.owned_step
    (step_cases s.sys (.alloc t (if ok then some (BitVec.ofNat w s.clock) else none))) h.owned
  have hlinked : ∀ ti ∈ s.sys.head, ti.node ≠ s.sys.nodes ∧ ti ∈ s.sys.head := by
    intro ti hti
    have hlt := h.owned.used_lt ti.node (List.mem_append_left _ (List.mem_map_of_mem hti))
    exact ⟨hlt.ne, hti⟩
  have hpending : ∀ t' ti now, (s.sys.threads t').pc = .insert (some ti) now →
      ti.node ≠ s.sys.nodes ∧ (s.sys.threads t').pc = .insert (some ti) now := by
    intro t' ti now hpc
    exact ⟨(h.owned.held_lt t' ti.node (by rw [Nodes.holds, hpc])).ne, hpc⟩
  rcases hth : s.sys.threads t with ⟨- | ⟨pid, rest⟩, - | - | ⟨ti, read⟩⟩
  case cons.alloc =>
    refine h.stampOne howned (n := s.sys.nodes) (fun ti hti => ?_) (fun t' ti now hpc => ?_) rfl rfl
    · simp only [step, ListSync.step, hth] at hti
      exact .inr (hlinked ti hti)
    · simp only [step, ListSync.step, hth] at hpc
      rcases eq_or_ne t' t with rfl | hne
      · rw [Function.update_self] at hpc
        cases ok with
        | false => exact absurd hpc (by simp [taskInfoAlloc])
        | true =>
          obtain ⟨rfl, -⟩ : ⟨s.sys.nodes, pid, BitVec.ofNat w s.clock, 0⟩ = ti ∧ _ := by
            simpa [taskInfoAlloc] using hpc
          exact .inl ⟨rfl, rfl⟩
      · rw [Function.update_of_ne hne] at hpc
        exact .inr (hpending t' ti now hpc)
  all_goals
    refine h.stampOne howned (n := s.sys.nodes) (fun ti hti => ?_) (fun t' ti now hpc => ?_) rfl rfl
    · simp only [step, ListSync.step, hth] at hti
      exact .inr (hlinked ti hti)
    · simp only [step, ListSync.step, hth] at hpc
      exact .inr (hpending t' ti now hpc)

/-- The other steps stamp none. -/
theorem Stamped.move {s' : Timed w} {a : Act w} (h : Stamped s) (hs : Step s.sys a s'.sys)
    (hlookup : ∀ t now, a ≠ .lookup t now) (halloc : ∀ t now, a ≠ .alloc t now)
    (hstamps : s'.stamps = s.stamps) (hclock : s.clock ≤ s'.clock) : Stamped s' := by
  obtain ⟨-, hhead, hpending⟩ := moved hs hlookup halloc
  refine h.keep (Nodes.owned_step hs h.owned) (fun x hx => ?_) hpending hstamps hclock
  rcases hhead x hx with hx | ⟨t, now, hpc⟩
  · exact h.linked x hx
  · -- the node had its stamp before it was linked
    exact h.pending t x now hpc

/-- **Every step keeps the stamps right.** -/
theorem Stamped.step (h : Stamped s) (e : Event) : Stamped (Expiry.step s e) := by
  have hmoves (a : Act w) := step_cases s.sys a
  cases e with
  | wait ticks => exact h.move (.stutter .purge) (by simp) (by simp) rfl (Nat.le_add_right _ _)
  | call t pids => exact h.move (hmoves (.call t pids)) (by simp) (by simp) rfl le_rfl
  | lookup t => exact h.lookup t
  | alloc t ok => exact h.alloc t ok
  | insert t => exact h.move (hmoves (.insert t)) (by simp) (by simp) rfl le_rfl
  | removeExpired hz delays =>
    exact h.move (hmoves (.removeExpired hz _)) (by simp) (by simp) rfl (clock_le_reading _ _ _)
  | purge => exact h.move (hmoves .purge) (by simp) (by simp) rfl le_rfl

end

theorem stamped_run (clock : ℕ) (events : List Event) :
    Stamped (run step (Timed.init clock : Timed w) events) := by
  have hstep : ∀ (s : Timed w) (e : Event), Stamped s → Stamped (step s e) :=
    fun _ e hs => hs.step e
  exact run_invariant step hstep events (stamped_init clock)

/-! ### The age of a node -/

/-- **The test of the loop**, in terms of the age. -/
theorem expired_iff {hz now since : ℕ} {ti : TaskInfo w} (hhz : 3 * hz < 2 ^ w)
    (hstamp : ti.timestamp = BitVec.ofNat w since) (hle : since ≤ now)
    (hlt : now < since + 2 ^ w) :
    expired hz (BitVec.ofNat w now) ti = true ↔ 3 * hz < now - since ∧ ti.count.toInt < 5 := by
  rw [expired, Bool.and_eq_true, decide_eq_true_iff, BitVec.ult_iff_toNat_lt, hstamp,
    Clock.toNat_sub_ofNat hle hlt, BitVec.toNat_ofNat, Nat.mod_eq_of_lt hhz]

/-- What the loop keeps is what it does not find expired, where it gets to it. -/
theorem mem_kept (hz : ℕ) (ti : TaskInfo w) :
    ∀ (jiffies : ℕ → BitVec w) (head : List (TaskInfo w)),
      ti ∈ (taskInfoRemoveExpired hz jiffies head).1 ↔
        ∃ i : ℕ, head[i]? = some ti ∧ expired hz (jiffies i) ti = false
  | _, [] => by simp [taskInfoRemoveExpired]
  | jiffies, x :: head => by
    rw [← Nat.or_exists_add_one]
    simp only [List.getElem?_cons_zero, List.getElem?_cons_succ, Option.some.injEq]
    rw [← mem_kept hz ti (fun i => jiffies (i + 1)) head, taskInfoRemoveExpired]
    by_cases hx : expired hz (jiffies 0) x = true
    · rw [if_pos hx]
      refine ⟨.inr, ?_⟩
      rintro (⟨rfl, hkept⟩ | hmem)
      · rw [hx] at hkept
        exact absurd hkept (by simp)
      · exact hmem
    · rw [if_neg hx, List.mem_cons, eq_comm]
      refine or_congr_left ⟨?_, And.left⟩
      rintro rfl
      exact ⟨rfl, by simpa using hx⟩

/-! ### What expiry removes, and what it keeps -/

/-- The states the module and its threads get to. -/
def Timed.Reachable (s : Timed w) : Prop :=
  ∃ clock events, s = run step (Timed.init clock) events

/-- No node is `2 ^ w` ticks old by the time the loop gets to it. -/
def Timed.Recent (s : Timed w) (delays : ℕ → ℕ) : Prop :=
  ∀ (i : ℕ) (ti : TaskInfo w), s.sys.head[i]? = some ti →
    reading s.clock delays i < s.stamps ti.node + 2 ^ w

/-- **Expiry removes what is stale and nothing else**, although `jiffies` wraps and goes on
while the loop runs. From any state the threads get to: a node counted less than five times
that is older than `3 * HZ` when the loop starts is unlinked and freed; one counted five times
or more, or not older than that when the loop gets to it, is kept; those kept are in the order
they were, and as they were. The loop on the pointers does the same. -/
theorem expiry_exact {s : Timed w} (hs : s.Reachable) {hz : ℕ} (hhz : 3 * hz < 2 ^ w)
    {delays : ℕ → ℕ} (hrecent : s.Recent delays) :
    let s' := step s (.removeExpired hz delays)
    (∀ ti ∈ s.sys.head, ti.timestamp = BitVec.ofNat w (s.stamps ti.node) ∧
        s.stamps ti.node ≤ s.clock) ∧
      (∀ ti ∈ s.sys.head, ti.count.toInt < 5 → 3 * hz < s.clock - s.stamps ti.node →
        ti ∉ s'.sys.head ∧ ti.node ∈ s'.sys.freed) ∧
      (∀ (i : ℕ) (ti : TaskInfo w), s.sys.head[i]? = some ti →
        5 ≤ ti.count.toInt ∨ reading s.clock delays i - s.stamps ti.node ≤ 3 * hz →
          ti ∈ s'.sys.head) ∧
      s'.sys.head.Sublist s.sys.head ∧
      ∀ m : Nodes.Mem w, Nodes.Repr m s.sys →
        ∃ m' accesses, Nodes.exec m (.act (.removeExpired hz fun i =>
          BitVec.ofNat w (reading s.clock delays i))) = some (m', accesses) ∧
            Nodes.Repr m' s'.sys := by
  intro s'
  have hstamped : Stamped s := by
    obtain ⟨clock, events, rfl⟩ := hs
    exact stamped_run clock events
  have htest : ∀ {i : ℕ} {ti : TaskInfo w}, s.sys.head[i]? = some ti →
      (expired hz (BitVec.ofNat w (reading s.clock delays i)) ti = true ↔
        3 * hz < reading s.clock delays i - s.stamps ti.node ∧ ti.count.toInt < 5) := by
    intro i ti hi
    obtain ⟨hstamp, hle⟩ := hstamped.linked ti (List.mem_of_getElem? hi)
    exact expired_iff hhz hstamp (hle.trans (clock_le_reading _ _ i)) (hrecent i ti hi)
  refine ⟨hstamped.linked, fun ti hti hcount hage => ?_, fun i ti hi hkeep => ?_,
    taskInfoRemoveExpired_sublist hz _ s.sys.head, fun m hm => ?_⟩
  · have hgone : ti ∉ s'.sys.head := by
      intro hkept
      obtain ⟨i, hi, hnot⟩ := (mem_kept hz ti _ _).mp hkept
      -- it has not become younger since
      have hlater := clock_le_reading s.clock delays i
      rw [(htest hi).mpr ⟨by omega, hcount⟩] at hnot
      exact absurd hnot (by simp)
    refine ⟨hgone, List.mem_append_right _ (List.mem_map_of_mem ?_)⟩
    have hmem := (Nodes.taskInfoRemoveExpired_perm hz
      (fun i => BitVec.ofNat w (reading s.clock delays i)) s.sys.head).mem_iff.mpr hti
    exact (List.mem_append.mp hmem).resolve_left hgone
  · refine (mem_kept hz ti _ _).mpr ⟨i, hi, ?_⟩
    rw [Bool.eq_false_iff, Ne, htest hi]
    omega
  · obtain ⟨m', accesses, hexec, hrepr, -⟩ := Nodes.exec_spec hm hstamped.owned
      (.act (.removeExpired hz fun i => BitVec.ofNat w (reading s.clock delays i)))
    exact ⟨m', accesses, hexec, hrepr⟩

/-- Pid 7 is added shortly before `jiffies` wraps, and pid 8 after. -/
def aroundWrap : List Event :=
  [.call 0 [7], .lookup 0, .alloc 0 true, .insert 0, .wait 290, .call 1 [8], .lookup 1,
    .alloc 1 true, .insert 1, .wait 11]

/-- The first is 301 ticks old and goes, the second is 11 ticks old and stays. -/
theorem expiry_exact_aroundWrap :
    let s := run step (Timed.init (2 ^ 64 - 10) : Timed 64) aroundWrap
    let s' := step s (.removeExpired 100 fun _ => 1)
    s.sys.head.map TaskInfo.pid = [8, 7] ∧
      (⟨0, 7, BitVec.ofNat 64 (2 ^ 64 - 10), 0⟩ : TaskInfo 64) ∉ s'.sys.head ∧
      (⟨1, 8, 280, 0⟩ : TaskInfo 64) ∈ s'.sys.head := by
  intro s s'
  have hrecent : s.Recent fun _ => 1 := by
    rintro (- | - | i) ti hi
    · obtain rfl := Option.some.inj hi
      decide
    · obtain rfl := Option.some.inj hi
      decide
    · exact absurd (show none = some ti from hi) (by simp)
  obtain ⟨-, hstale, hkept, -⟩ := expiry_exact ⟨_, _, rfl⟩ (by decide : 3 * 100 < 2 ^ 64) hrecent
  exact ⟨rfl, (hstale _ (by decide) (by decide) (by decide)).1,
    hkept 0 _ rfl (.inr (by decide))⟩

/-- One add, almost a whole turn of `jiffies` ago. -/
def almostATurn : List Event :=
  [.call 0 [7], .lookup 0, .alloc 0 true, .insert 0, .wait (2 ^ 64 - 1)]

/-- **The node is kept, although it is stale**: it is less than `2 ^ 64` ticks old when the
loop starts, and looks as if it had just been stamped when the loop gets to it. -/
theorem kept_after_wrap :
    let s := run step (Timed.init 0 : Timed 64) almostATurn
    let ti : TaskInfo 64 := ⟨0, 7, 0, 0⟩
    s.sys.head = [ti] ∧ s.clock - s.stamps ti.node < 2 ^ 64 ∧ ti.count.toInt < 5 ∧
      3 * 100 < s.clock - s.stamps ti.node ∧
      (step s (.removeExpired 100 fun _ => 1)).sys.head = [ti] := by
  decide

end Expiry

end ListSync

end KernelModules
