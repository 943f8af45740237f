import Mathlib.Data.List.Basic
import Mathlib.Algebra.Order.Group.Nat

/-!
# The task list of `list_sync`

`kernel_api/kernel_lists/list_sync/list_sync.c` keeps one list of `task_info`
nodes under one spinlock. This file is what the code does to the list inside its
critical sections, as functions on lists:

* `KernelModules.ListSync.taskInfoFindPid` – the search from the head, whose
  answer, a pointer to a node, is the position of that node;
* `KernelModules.ListSync.touch` – what an add does to the node it finds;
* `KernelModules.ListSync.taskInfoAlloc` – a new node, or `NULL`;
* `KernelModules.ListSync.taskInfoRemoveExpired` and
  `KernelModules.ListSync.taskInfoPurgeList` – the two loops that free nodes.

A node carries the number of the allocation it came from, which stands for its
address. `jiffies` is a counter of `w` bits, `unsigned long` in the source, and it
may move between two iterations of a loop, so a loop takes the sequence of the
values it reads; `count` is an `atomic_t`, 32 bits read as a signed number.
-/

namespace KernelModules

namespace ListSync

/-- `struct task_info`. -/
structure TaskInfo (w : ℕ) where
  /-- The allocation the node came from. -/
  node : ℕ
  /-- `pid`. -/
  pid : ℤ
  /-- `timestamp`. -/
  timestamp : BitVec w
  /-- `count`. -/
  count : BitVec 32
deriving DecidableEq

variable {w : ℕ}

/-! ### The critical sections, on lists -/

/-- `task_info_alloc`: `now` is `jiffies`, and `none` is a `kmalloc` that fails. -/
def taskInfoAlloc (node : ℕ) (pid : ℤ) (now : Option (BitVec w)) : Option (TaskInfo w) :=
  now.map fun now => ⟨node, pid, now, 0⟩

/-- `task_info_find_pid`: the first node of the list with the given pid. -/
def taskInfoFindPid (pid : ℤ) (head : List (TaskInfo w)) : Option ℕ :=
  head.findIdx? fun ti => ti.pid == pid

/-- What `task_info_add_to_list` does to the node it has found: the timestamp is
refreshed and the count incremented. -/
def touch (now : BitVec w) (ti : TaskInfo w) : TaskInfo w :=
  { ti with timestamp := now, count := ti.count + 1 }

/-- The test of `task_info_remove_expired`: unsigned on the age, signed on the
count. -/
def expired (hz : ℕ) (now : BitVec w) (ti : TaskInfo w) : Bool :=
  (BitVec.ofNat w (3 * hz)).ult (now - ti.timestamp) && decide (ti.count.toInt < 5)

/-- `task_info_remove_expired`: the nodes kept and the nodes freed. `jiffies i` is
what the `i`-th iteration reads. -/
def taskInfoRemoveExpired (hz : ℕ) :
    (ℕ → BitVec w) → List (TaskInfo w) → List (TaskInfo w) × List (TaskInfo w)
  | _, [] => ([], [])
  | jiffies, ti :: head =>
    let rest := taskInfoRemoveExpired hz (fun i => jiffies (i + 1)) head
    if expired hz (jiffies 0) ti then (rest.1, ti :: rest.2) else (ti :: rest.1, rest.2)

/-- `task_info_purge_list`: everything is freed. -/
def taskInfoPurgeList (head : List (TaskInfo w)) : List (TaskInfo w) × List (TaskInfo w) :=
  ([], head)

/-! ### What they do -/

@[simp] theorem touch_pid (now : BitVec w) (ti : TaskInfo w) : (touch now ti).pid = ti.pid := rfl

@[simp] theorem touch_timestamp (now : BitVec w) (ti : TaskInfo w) :
    (touch now ti).timestamp = now := rfl

theorem taskInfoFindPid_eq_none {pid : ℤ} {head : List (TaskInfo w)} :
    taskInfoFindPid pid head = none ↔ ∀ ti ∈ head, ti.pid ≠ pid := by
  simp [taskInfoFindPid, List.findIdx?_eq_none_iff]

/-- **The node an add updates** is the first one with its pid: the list splits
there, and the update is made in place. -/
theorem taskInfoFindPid_first {pid : ℤ} {head : List (TaskInfo w)} {i : ℕ}
    (h : taskInfoFindPid pid head = some i) :
    ∃ front ti back, head = front ++ ti :: back ∧ head.find? (fun ti => ti.pid == pid) = some ti ∧
      ∀ f : TaskInfo w → TaskInfo w, head.modify i f = front ++ f ti :: back := by
  induction head generalizing i with
  | nil => exact absurd h (by simp [taskInfoFindPid])
  | cons x head ih =>
    by_cases hx : x.pid = pid
    · obtain rfl : 0 = i := by simpa [taskInfoFindPid, List.findIdx?_cons, hx] using h
      exact ⟨[], x, head, rfl, by simp [hx], fun f => rfl⟩
    · obtain ⟨j, hj, rfl⟩ : ∃ j, taskInfoFindPid pid head = some j ∧ j + 1 = i := by
        simpa [taskInfoFindPid, List.findIdx?_cons, hx] using h
      obtain ⟨front, ti, back, rfl, hfind, hmod⟩ := ih hj
      exact ⟨x :: front, ti, back, rfl, by simpa [hx] using hfind, fun f => by simp [hmod]⟩

theorem taskInfoFindPid_eq_some {pid : ℤ} {head : List (TaskInfo w)} {i : ℕ}
    (h : taskInfoFindPid pid head = some i) (f : TaskInfo w → TaskInfo w) :
    ∃ front ti back, head = front ++ ti :: back ∧ ti.pid = pid ∧
      head.modify i f = front ++ f ti :: back := by
  obtain ⟨front, ti, back, hhead, hfind, hmod⟩ := taskInfoFindPid_first h
  have hpid := List.find?_some hfind
  exact ⟨front, ti, back, hhead, by simpa using hpid, hmod f⟩

/-- An add that finds its node leaves the pids of the list as they are. -/
theorem map_pid_modify {pid : ℤ} {head : List (TaskInfo w)} {i : ℕ} (now : BitVec w)
    (h : taskInfoFindPid pid head = some i) :
    (head.modify i (touch now)).map TaskInfo.pid = head.map TaskInfo.pid := by
  obtain ⟨front, ti, back, rfl, -, hmod⟩ := taskInfoFindPid_eq_some h (touch now)
  simp [hmod]

/-- **Expiry keeps a part of the list, in order.** -/
theorem taskInfoRemoveExpired_sublist (hz : ℕ) :
    ∀ (jiffies : ℕ → BitVec w) (head : List (TaskInfo w)),
      (taskInfoRemoveExpired hz jiffies head).1.Sublist head
  | _, [] => List.Sublist.refl []
  | jiffies, ti :: head => by
    have ih := taskInfoRemoveExpired_sublist hz (fun i => jiffies (i + 1)) head
    rw [taskInfoRemoveExpired]
    split
    · exact ih.cons ti
    · exact ih.cons_cons ti

end ListSync

end KernelModules
