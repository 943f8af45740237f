import Mathlib.Data.List.Basic
import Mathlib.Logic.Function.Basic
import KernelModules.Lib.Run

/-!
# Ledgers of resources

Code that acquires, uses and gives back resources is judged by the operations it makes
on them, in order. A function under given outcomes of the calls it makes is then a list
of operations and a value – `KernelModules.Traced`, which is a monad, so that a function
is written as in the source –, and a `KernelModules.Ledger` says what is held, and which
operations were made on a resource that was not.

The rules are about one resource at a time: what no operation acquires nor releases is
held as often as before (`KernelModules.Ledger.held_after`), and a resource that is not
held and not acquired cannot be used without leaving a trace
(`KernelModules.Ledger.bad_of_use`), which nothing takes back
(`KernelModules.Ledger.bad_after`).
-/

namespace KernelModules

variable {R : Type*}

/-! ### Operations, and the code that makes them -/

/-- An operation on a resource. -/
inductive Op (R : Type*) where
  /-- It is acquired. -/
  | acquire (r : R) : Op R
  /-- It is given back. -/
  | release (r : R) : Op R
  /-- It is used. -/
  | use (r : R) : Op R
deriving DecidableEq

/-- **The run of a function**: the operations it makes, in order, and its value. -/
@[ext]
structure Traced (R : Type*) (α : Type) where
  /-- The operations. -/
  ops : List (Op R)
  /-- The value. -/
  val : α

namespace Traced

instance : Monad (Traced R) where
  pure a := ⟨[], a⟩
  bind x f := ⟨x.ops ++ (f x.val).ops, (f x.val).val⟩

variable {α β : Type}

@[simp] theorem ops_pure (a : α) : (pure a : Traced R α).ops = [] := rfl

@[simp] theorem val_pure (a : α) : (pure a : Traced R α).val = a := rfl

@[simp] theorem ops_bind (x : Traced R α) (f : α → Traced R β) :
    (x >>= f).ops = x.ops ++ (f x.val).ops := rfl

@[simp] theorem val_bind (x : Traced R α) (f : α → Traced R β) :
    (x >>= f).val = (f x.val).val := rfl

/-- Only the value at hand matters to what follows. -/
theorem bind_congr {x : Traced R α} {f g : α → Traced R β} (h : f x.val = g x.val) :
    x >>= f = x >>= g := by
  ext1
  · rw [ops_bind, ops_bind, h]
  · rw [val_bind, val_bind, h]

/-- Operations made whatever happens. -/
def ofOps (ops : List (Op R)) : Traced R Unit := ⟨ops, ()⟩

/-- A call that makes some operations if it succeeds, and others if not. -/
def ofCall (ok : Bool) (a : α) (succeeded failed : List (Op R)) : Traced R α :=
  ⟨if ok then succeeded else failed, a⟩

/-- The function neither acquires nor releases the resource. -/
def Spares (r : R) (x : Traced R α) : Prop := ∀ op ∈ x.ops, op ≠ .acquire r ∧ op ≠ .release r

variable {r : R} {x : Traced R α} {f : α → Traced R β}

theorem spares_pure (a : α) : (pure a : Traced R α).Spares r := fun _ h => absurd h (by simp)

theorem Spares.bind (hx : x.Spares r) (hf : ∀ a, (f a).Spares r) : (x >>= f).Spares r := by
  intro op hop
  rcases List.mem_append.mp hop with h | h
  · exact hx op h
  · exact hf _ op h

theorem Spares.ite {c : Prop} [Decidable c] {y : Traced R α} (hx : x.Spares r) (hy : y.Spares r) :
    (if c then x else y).Spares r := by
  split
  · exact hx
  · exact hy

end Traced

/-! ### The ledger -/

/-- **What is held, and what was done wrong.** -/
structure Ledger (R : Type*) where
  /-- How often a resource is held. -/
  held : R → ℕ
  /-- The operations made on a resource that was not held. -/
  bad : List (Op R)

namespace Ledger

variable [DecidableEq R]

/-- Nothing is held, and nothing was done wrong. -/
def empty : Ledger R := ⟨fun _ => 0, []⟩

/-- **One operation.** -/
def exec (l : Ledger R) : Op R → Ledger R
  | .acquire r => { l with held := Function.update l.held r (l.held r + 1) }
  | .release r =>
    if l.held r = 0 then { l with bad := l.bad ++ [.release r] }
    else { l with held := Function.update l.held r (l.held r - 1) }
  | .use r => if l.held r = 0 then { l with bad := l.bad ++ [.use r] } else l

/-- The ledger after the operations. -/
def after (l : Ledger R) (ops : List (Op R)) : Ledger R := run exec l ops

variable {l : Ledger R} {ops : List (Op R)} {r : R}

@[simp] theorem after_nil (l : Ledger R) : l.after [] = l := rfl

@[simp] theorem after_cons (l : Ledger R) (op : Op R) (ops : List (Op R)) :
    l.after (op :: ops) = (l.exec op).after ops := rfl

/-- What was done wrong stays. -/
theorem bad_exec {op : Op R} (h : l.bad ≠ []) : (l.exec op).bad ≠ [] := by
  cases op with
  | acquire => exact h
  | release r =>
    rw [exec]
    split
    · simp
    · exact h
  | use r =>
    rw [exec]
    split
    · simp
    · exact h

theorem bad_after (h : l.bad ≠ []) : (l.after ops).bad ≠ [] :=
  run_invariant exec (fun l _ hl => l.bad_exec hl) ops h

/-- An operation on another resource, or a use, changes nothing of this one. -/
theorem held_exec {op : Op R} (ha : op ≠ .acquire r) (hr : op ≠ .release r) :
    (l.exec op).held r = l.held r := by
  cases op with
  | acquire r' =>
    have hne : r ≠ r' := fun h => ha (h ▸ rfl)
    exact Function.update_of_ne hne _ _
  | release r' =>
    have hne : r ≠ r' := fun h => hr (h ▸ rfl)
    rw [exec]
    split
    · rfl
    · exact Function.update_of_ne hne _ _
  | use r' =>
    rw [exec]
    split <;> rfl

/-- **What is neither acquired nor released is held as often as before.** -/
theorem held_after (h : ∀ op ∈ ops, op ≠ .acquire r ∧ op ≠ .release r) :
    (l.after ops).held r = l.held r := by
  -- the ledger changes with every operation, so it is generalized
  induction ops generalizing l with
  | nil => rfl
  | cons op ops ih =>
    obtain ⟨ha, hr⟩ := h op List.mem_cons_self
    rw [after_cons, ih fun op' hop' => h op' (List.mem_cons_of_mem op hop'), held_exec ha hr]

/-- **A resource that is not held cannot be used unnoticed.** -/
theorem bad_of_use (hheld : l.held r = 0) (hops : ∀ op ∈ ops, op ≠ .acquire r)
    (huse : .use r ∈ ops) : (l.after ops).bad ≠ [] := by
  induction ops generalizing l with
  | nil => exact absurd huse List.not_mem_nil
  | cons op ops ih =>
    rw [after_cons]
    have hacq := hops op List.mem_cons_self
    rcases List.mem_cons.mp huse with rfl | huse
    · -- it is used now
      refine bad_after ?_
      rw [exec, if_pos hheld]
      simp
    · refine ih ?_ (fun op' hop' => hops op' (List.mem_cons_of_mem op hop')) huse
      -- it is not held afterwards either
      by_cases hrel : op = .release r
      · rw [hrel, exec, if_pos hheld]
        exact hheld
      · rw [held_exec hacq hrel, hheld]

end Ledger

end KernelModules
