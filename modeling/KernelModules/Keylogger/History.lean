import Mathlib.Data.List.Nodup
import KernelModules.Keylogger.System
import KernelModules.Lib.Census

/-!
# The history of the keystrokes

What becomes of a keystroke once it is in the buffer. `kbd_read` drops the lock
after every character, so several calls compete for the buffer while the keyboard
fills it and a `write` may empty it at any moment; still, every keystroke accepted
has exactly one fate, and no two calls ever receive the same one.

Characters have no identity, so the statement is made of the same code running on
*numbered* characters (`KernelModules.Keylogger.Keystroke`): each carries its rank
among those accepted, and every copy the code makes carries the number along.
Dropping the numbers gives the driver back, step by step
(`KernelModules.Keylogger.erase_run`).

The invariant is `KernelModules.Keylogger.Ledger`. The characters accepted are
those *gone* followed by those queued; a gone one has been delivered to one
position of one call or thrown away by one reset; and what a call has received is,
in order, a part of those gone.
-/

namespace KernelModules

namespace Keylogger

/-! ### Numbered characters, and forgetting the numbers -/

/-- A character with its rank among those accepted. -/
structure Keystroke where
  /-- How many characters were accepted before this one. -/
  id : ℕ
  /-- The character. -/
  ch : UInt8
deriving DecidableEq

section Erase

variable {α β : Type} (f : α → β)

/-- A buffer whose characters are replaced one by one. -/
def Kbd.map (data : Kbd α) : Kbd β := ⟨f ∘ data.buf, data.putIdx, data.getIdx, data.count⟩

/-- A call whose characters are replaced one by one. -/
def ReadCall.map (call : ReadCall α) : ReadCall β :=
  ⟨call.request, call.size, fun p => (call.user p).map f, call.pos, call.read, call.ret⟩

/-- A keylogger whose characters are replaced one by one. -/
def Sys.map (s : Sys α) : Sys β :=
  ⟨s.dev.map f, fun r => (s.calls r).map (ReadCall.map f), s.accepted.map f, s.discarded.map f⟩

theorem queue_map (data : Kbd α) : (data.map f).queue = data.queue.map f :=
  (map_window f _ _ _ _).symm

theorem putChar_map (data : Kbd α) (c : α) :
    putChar (data.map f) (f c) = (putChar data c).map f := by
  rcases Nat.lt_or_ge data.count bufferSize with hlt | hge
  · rw [putChar, putChar, if_neg (not_le.mpr hlt), if_neg (by simpa [Kbd.map] using hlt)]
    simp only [Kbd.map, Function.comp_update]
  · rw [putChar_of_full c hge, putChar_of_full (f c) hge]

theorem getChar_map (data : Kbd α) :
    getChar (data.map f) = ((getChar data).1.map f, (getChar data).2.map f) := by
  by_cases h : 0 < data.count
  · rw [getChar, getChar, if_pos h, if_pos (by exact h)]
    rfl
  · rw [getChar, getChar, if_neg h, if_neg (by exact h)]
    rfl

theorem iterate_map (call : ReadCall α) (fault : Bool) (data : Kbd α) :
    (call.map f).iterate fault (data.map f)
      = ((call.iterate fault data).1.map f, (call.iterate fault data).2.map f) := by
  by_cases hg : call.Gets
  · have hg' : (call.map f).Gets := hg
    rcases hget : getChar data with ⟨- | c, data'⟩
    · have hget' : getChar (data.map f) = (none, data'.map f) := by
        rw [getChar_map, hget]
        rfl
      rw [iterate_of_empty hg hget, iterate_of_empty hg' hget']
      rfl
    · have hget' : getChar (data.map f) = (some (f c), data'.map f) := by
        rw [getChar_map, hget]
        rfl
      cases fault with
      | true =>
        rw [iterate_of_fault hg hget, iterate_of_fault hg' hget']
        rfl
      | false =>
        rw [iterate_of_char hg hget, iterate_of_char hg' hget']
        simp only [ReadCall.map, Prod.mk.injEq, and_true, ReadCall.mk.injEq, true_and]
        funext p
        rcases eq_or_ne p call.pos with rfl | hp
        · simp
        · simp [Function.update_of_ne hp]
  · rcases not_gets_cases hg with hret | ⟨hret, hsize⟩
    · have hret' : (call.map f).ret.isSome = true := hret
      rw [iterate_of_returned hret, iterate_of_returned hret']
    · have hret' : (call.map f).ret = none := hret
      rw [iterate_of_size_zero hret hsize, iterate_of_size_zero hret' hsize]
      rfl

variable {store : ℕ → UInt8 → α} {store' : ℕ → UInt8 → β}

/-- **Replacing the characters commutes with a step**, as soon as it commutes
with how they are stored. -/
theorem step_map (hstore : ∀ n c, f (store n c) = store' n c) (s : Sys α) (a : Act) :
    step store' (s.map f) a = (step store s a).map f := by
  cases a with
  | interrupt scancode =>
    have hlen : (s.map f).accepted.length = s.accepted.length := List.length_map _
    have hst : Stores scancode (s.map f).dev ↔ Stores scancode s.dev := Iff.rfl
    simp only [step, hlen, ← hstore, hst]
    refine congrArg₂ (fun d l => Sys.mk d (s.map f).calls l (s.map f).discarded) ?_ ?_
    · by_cases hp : isKeyPress scancode.toUInt32 = true
      · rw [kbdInterruptHandler, kbdInterruptHandler, if_pos hp, if_pos hp]
        rw [← hstore]
        exact putChar_map f s.dev _
      · rw [kbdInterruptHandler, kbdInterruptHandler, if_neg hp, if_neg hp]
        rfl
    · by_cases hs : Stores scancode s.dev
      · rw [if_pos hs, if_pos hs, List.map_append]
        rfl
      · rw [if_neg hs, if_neg hs]
        rfl
  | enter r size =>
    rcases hcall : s.calls r with - | call
    · have hcall' : (s.map f).calls r = none := by simp [Sys.map, hcall]
      simp only [step, hcall, hcall']
      refine congrArg (fun c => Sys.mk (s.map f).dev c (s.map f).accepted (s.map f).discarded) ?_
      funext q
      rcases eq_or_ne q r with rfl | hq
      · simp [ReadCall.map, ReadCall.enter]
      · simp [Function.update_of_ne hq, Sys.map]
    · have hcall' : (s.map f).calls r = some (call.map f) := by simp [Sys.map, hcall]
      simp only [step, hcall, hcall']
  | iterate r fault =>
    rcases hcall : s.calls r with - | call
    · have hcall' : (s.map f).calls r = none := by simp [Sys.map, hcall]
      simp only [step, hcall, hcall']
    · have hcall' : (s.map f).calls r = some (call.map f) := by simp [Sys.map, hcall]
      have hdev : (s.map f).dev = s.dev.map f := rfl
      simp only [step, hcall, hcall', hdev, iterate_map]
      refine congrArg (fun c => Sys.mk _ c (s.map f).accepted (s.map f).discarded) ?_
      funext q
      rcases eq_or_ne q r with rfl | hq
      · simp
      · simp [Function.update_of_ne hq, Sys.map]
  | clear =>
    have hdev : (s.map f).dev = s.dev.map f := rfl
    simp only [step, hdev, queue_map]
    refine congrArg (Sys.mk _ (s.map f).calls (s.map f).accepted) ?_
    exact List.map_append.symm

end Erase

/-- The keylogger on numbered characters, just loaded. -/
def numbered : Sys Keystroke := Sys.init ⟨0, 0⟩

/-- **Without its numbers, the numbered keylogger is the driver**: the same
schedule leads both to the same buffer and to the same user buffers. -/
theorem erase_run (acts : List Act) :
    (run (step Keystroke.mk) numbered acts).map Keystroke.ch
      = run (step plain) (Sys.init 0) acts := by
  have hstep : ∀ s a, step plain (Sys.map Keystroke.ch s) a
      = (step Keystroke.mk s a).map Keystroke.ch := step_map Keystroke.ch fun _ _ => rfl
  suffices h : ∀ (acts : List Act) (s : Sys Keystroke),
      (run (step Keystroke.mk) s acts).map Keystroke.ch
        = run (step plain) (s.map Keystroke.ch) acts from h acts numbered
  intro acts
  induction acts with
  | nil => exact fun s => rfl
  | cons a acts ih =>
    intro s
    rw [run_cons, run_cons, ih, hstep]

/-! ### The fates of a keystroke -/

/-- What can have become of a keystroke. -/
inductive Fate where
  /-- A call of `kbd_read` has stored it in its user's buffer. -/
  | delivered : Fate
  /-- It is still in the buffer. -/
  | queued : Fate
  /-- A `reset_buffer` has thrown it away. -/
  | discarded : Fate

/-- Call `r` has stored `e` at position `p` of its user's buffer. -/
def Sys.DeliveredAt (s : Sys Keystroke) (e : Keystroke) (r p : ℕ) : Prop :=
  ∃ call, s.calls r = some call ∧ call.user p = some e

/-- `e` has met the given fate. -/
def Sys.HasFate (s : Sys Keystroke) (e : Keystroke) : Fate → Prop
  | .delivered => ∃ r p, s.DeliveredAt e r p
  | .queued => e ∈ s.dev.queue
  | .discarded => e ∈ s.discarded

/-- **A call has received exactly the list `l`**: it fills the user's buffer from
position `0` on, its length is `read`, and it is what the call returns. -/
structure Received (call : ReadCall Keystroke) (l : List Keystroke) : Prop where
  /-- The user's buffer holds the list and nothing else. -/
  user : ∀ p, call.user p = l[p]?
  /-- The next character goes right after it. -/
  pos : call.pos = l.length
  /-- `read` counts it. -/
  read : call.read = l.length
  /-- There is room for what is still asked. -/
  size : call.size + l.length ≤ call.request
  /-- It is what the call returns. -/
  ret : ∀ v, call.ret = some v → v = l.length

theorem received_enter (size : ℕ) : Received (ReadCall.enter size) [] :=
  ⟨fun _ => rfl, rfl, rfl, le_refl _, fun _ hv => absurd hv (by simp [ReadCall.enter])⟩

/-- The call with one more character. -/
def fed (call : ReadCall Keystroke) (c : Keystroke) : ReadCall Keystroke :=
  { call with
    size := call.size - 1
    user := Function.update call.user call.pos (some c)
    pos := call.pos + 1
    read := call.read + 1 }

/-- One more character comes after the others. -/
theorem Received.fed {call : ReadCall Keystroke} {l : List Keystroke} (h : Received call l)
    (hsize : call.size ≠ 0) (hret : call.ret = none) (c : Keystroke) :
    Received (Keylogger.fed call c) (l ++ [c]) where
  user p := by
    show Function.update call.user call.pos (some c) p = _
    rcases eq_or_ne p call.pos with rfl | hne
    · rw [Function.update_self, h.pos]
      simp
    · rw [Function.update_of_ne hne, h.user]
      rw [h.pos] at hne
      rcases Nat.lt_or_ge p l.length with hlt | hge
      · rw [List.getElem?_append_left hlt]
      · rw [List.getElem?_eq_none hge, List.getElem?_eq_none (by simp; omega)]
  pos := by simp [Keylogger.fed, h.pos]
  read := by simp [Keylogger.fed, h.read]
  size := by
    have hroom := h.size
    simp only [Keylogger.fed, List.length_append, List.length_singleton]
    omega
  ret v hv := absurd (hret.symm.trans hv) (by simp)

/-- **The invariant of the history.** `gone` are the keystrokes that have left the
buffer, in the order in which they were accepted. -/
structure Ledger (s : Sys Keystroke) (gone : List Keystroke) : Prop where
  /-- The counters of the buffer are coupled. -/
  ok : s.dev.Ok
  /-- What has been accepted is gone or queued. -/
  accepted : s.accepted = gone ++ s.dev.queue
  /-- The numbers are the ranks. -/
  ranks : s.accepted.map Keystroke.id = List.range s.accepted.length
  /-- Each call has received a part of what is gone, in order. -/
  received : ∀ r call, s.calls r = some call → ∃ l, Received call l ∧ l.Sublist gone
  /-- Nothing is delivered twice. -/
  once : ∀ {e r p r' p'}, s.DeliveredAt e r p → s.DeliveredAt e r' p' → r = r' ∧ p = p'
  /-- What is gone has been delivered or thrown away. -/
  fate : ∀ e ∈ gone, (∃ r p, s.DeliveredAt e r p) ∨ e ∈ s.discarded
  /-- What has been thrown away is gone, and nobody has received it. -/
  thrown : ∀ e ∈ s.discarded, e ∈ gone ∧ ∀ r p, ¬s.DeliveredAt e r p

namespace Ledger

variable {s s' : Sys Keystroke} {gone : List Keystroke}

theorem nodup (h : Ledger s gone) : s.accepted.Nodup :=
  List.Nodup.of_map Keystroke.id (h.ranks ▸ List.nodup_range)

theorem not_queued (h : Ledger s gone) {e : Keystroke} (he : e ∈ gone) : e ∉ s.dev.queue := by
  have hnd := h.nodup
  rw [h.accepted, List.nodup_append'] at hnd
  exact fun hq => hnd.2.2 he hq

theorem mem_gone (h : Ledger s gone) {e : Keystroke} {r p : ℕ} (hd : s.DeliveredAt e r p) :
    e ∈ gone := by
  obtain ⟨call, hcall, huser⟩ := hd
  obtain ⟨l, hl, hsub⟩ := h.received r call hcall
  rw [hl.user] at huser
  exact hsub.subset (List.mem_of_getElem? huser)

/-- A step that touches neither the buffer nor what has been delivered keeps the
ledger. -/
theorem congr (h : Ledger s gone) (hdev : s'.dev = s.dev) (hacc : s'.accepted = s.accepted)
    (hdis : s'.discarded = s.discarded)
    (hat : ∀ e r p, s'.DeliveredAt e r p ↔ s.DeliveredAt e r p)
    (hrec : ∀ r call, s'.calls r = some call → ∃ l, Received call l ∧ l.Sublist gone) :
    Ledger s' gone where
  ok := hdev ▸ h.ok
  accepted := by rw [hacc, hdev, h.accepted]
  ranks := by rw [hacc, h.ranks]
  received := hrec
  once h1 h2 := h.once ((hat _ _ _).mp h1) ((hat _ _ _).mp h2)
  fate e he := by
    simp only [hat, hdis]
    exact h.fate e he
  thrown e he := by
    simp only [hat]
    exact h.thrown e (hdis ▸ he)

/-! ### One step of the history -/

/-- A call begins. -/
theorem enter (h : Ledger s gone) {r size : ℕ} (hcall : s.calls r = none) :
    Ledger { s with calls := Function.update s.calls r (some (ReadCall.enter size)) } gone := by
  refine h.congr rfl rfl rfl (fun e q p => ?_) (forall_update (fun q _ => h.received q) ?_)
  · rcases eq_or_ne q r with rfl | hne
    · refine iff_of_false ?_ ?_
      · rintro ⟨call, hq, huser⟩
        obtain rfl : ReadCall.enter size = call := by simpa using hq
        simp [ReadCall.enter] at huser
      · rintro ⟨call, hq, -⟩
        rw [hcall] at hq
        exact absurd hq (by simp)
    · simp only [Sys.DeliveredAt, Function.update_of_ne hne]
  · exact ⟨[], received_enter size, List.nil_sublist gone⟩

/-- A call goes on, or returns, without a new character. -/
theorem setCall (h : Ledger s gone) {r : ℕ} {call call' : ReadCall Keystroke}
    (hcall : s.calls r = some call) (huser : call'.user = call.user)
    (hrec : ∀ l, Received call l → Received call' l) :
    Ledger { s with calls := Function.update s.calls r (some call') } gone := by
  refine h.congr rfl rfl rfl (fun e q p => ?_) (forall_update (fun q _ => h.received q) ?_)
  · rcases eq_or_ne q r with rfl | hne
    · simp [Sys.DeliveredAt, hcall, huser]
    · simp only [Sys.DeliveredAt, Function.update_of_ne hne]
  · obtain ⟨l, hl, hsub⟩ := h.received r call hcall
    exact ⟨l, hrec l hl, hsub⟩

/-- What is delivered after a call has received one more character: what was, and that. -/
theorem deliveredAt_fed (h : Ledger s gone) {r : ℕ} {call : ReadCall Keystroke}
    (hcall : s.calls r = some call) (c : Keystroke) (data' : Kbd Keystroke) (e : Keystroke)
    (q p : ℕ) :
    Sys.DeliveredAt { s with dev := data', calls := Function.update s.calls r (some (fed call c)) }
        e q p ↔
      s.DeliveredAt e q p ∨ (e = c ∧ q = r ∧ p = call.pos) := by
  rcases eq_or_ne q r with rfl | hne
  · obtain ⟨l, hl, -⟩ := h.received q call hcall
    -- there is nothing yet where the character goes
    have hroom : call.user call.pos = none := by
      rw [hl.user, hl.pos, List.getElem?_eq_none le_rfl]
    simp only [Sys.DeliveredAt, Function.update_self, hcall, Option.some.injEq, exists_eq_left',
      fed, true_and]
    rcases eq_or_ne p call.pos with rfl | hpne
    · rw [Function.update_self, hroom]
      simp [eq_comm]
    · rw [Function.update_of_ne hpne]
      exact (or_iff_left fun heq => hpne heq.2).symm
  · simp only [Sys.DeliveredAt, Function.update_of_ne hne]
    exact (or_iff_left fun heq => hne heq.2.1).symm

/-- **A call receives the oldest character of the buffer**, which is then gone. -/
theorem deliver (h : Ledger s gone) {r : ℕ} {call : ReadCall Keystroke} {c : Keystroke}
    {data' : Kbd Keystroke} (hcall : s.calls r = some call) (hsize : call.size ≠ 0)
    (hret : call.ret = none) (hok : data'.Ok) (hqueue : s.dev.queue = c :: data'.queue) :
    Ledger { s with dev := data', calls := Function.update s.calls r (some (fed call c)) }
      (gone ++ [c]) := by
  have hnew : c ∉ gone := fun hc => h.not_queued hc (hqueue ▸ List.mem_cons_self)
  have hfresh : ∀ q p, ¬s.DeliveredAt c q p := fun q p hd => hnew (h.mem_gone hd)
  have hat := h.deliveredAt_fed hcall c data'
  refine ⟨hok, ?_, h.ranks, ?_, ?_, ?_, ?_⟩
  · show s.accepted = _
    rw [h.accepted, hqueue, List.append_assoc]
    rfl
  · refine forall_update (fun q _ callq hq => ?_) ?_
    · obtain ⟨l, hl, hsub⟩ := h.received q callq hq
      exact ⟨l, hl, hsub.trans (List.sublist_append_left gone [c])⟩
    · obtain ⟨l, hl, hsub⟩ := h.received r call hcall
      exact ⟨l ++ [c], hl.fed hsize hret c, List.Sublist.append hsub (List.Sublist.refl [c])⟩
  · intro e q p q' p' h1 h2
    rcases (hat e q p).mp h1 with h1 | ⟨rfl, rfl, rfl⟩ <;>
      rcases (hat e q' p').mp h2 with h2 | ⟨he, hq', hp'⟩
    · exact h.once h1 h2
    · exact absurd (he ▸ h1) (hfresh q p)
    · exact absurd h2 (hfresh q' p')
    · exact ⟨hq'.symm, hp'.symm⟩
  · intro e he
    rcases List.mem_append.mp he with hg | hc
    · rcases h.fate e hg with ⟨q, p, hd⟩ | hd
      · exact Or.inl ⟨q, p, (hat e q p).mpr (Or.inl hd)⟩
      · exact Or.inr hd
    · rw [List.mem_singleton.mp hc]
      exact Or.inl ⟨r, call.pos, (hat c r call.pos).mpr (Or.inr ⟨rfl, rfl, rfl⟩)⟩
  · intro e he
    obtain ⟨hg, hnot⟩ := h.thrown e he
    refine ⟨List.mem_append_left [c] hg, fun q p hd => ?_⟩
    rcases (hat e q p).mp hd with hd | ⟨rfl, -, -⟩
    · exact hnot q p hd
    · exact hnew hg

/-- **A reset throws away what is queued.** -/
theorem clear (h : Ledger s gone) :
    Ledger (step Keystroke.mk s .clear) (gone ++ s.dev.queue) where
  ok := ok_resetBuffer s.dev
  accepted := by
    rw [show (step Keystroke.mk s .clear).accepted = s.accepted from rfl, h.accepted]
    exact (List.append_nil _).symm
  ranks := h.ranks
  received r call hcall := by
    obtain ⟨l, hl, hsub⟩ := h.received r call hcall
    exact ⟨l, hl, hsub.trans (List.sublist_append_left _ _)⟩
  once := h.once
  fate e he := by
    rcases List.mem_append.mp he with hg | hq
    · exact (h.fate e hg).imp_right fun hd => List.mem_append_left _ hd
    · exact Or.inr (List.mem_append_right _ hq)
  thrown e he := by
    rcases List.mem_append.mp he with hd | hq
    · exact ⟨List.mem_append_left _ (h.thrown e hd).1, (h.thrown e hd).2⟩
    · exact ⟨List.mem_append_right _ hq, fun r p hd => h.not_queued (h.mem_gone hd) hq⟩

/-- **An interrupt appends to what is queued**, or changes nothing. -/
theorem interrupt (h : Ledger s gone) (scancode : UInt8) :
    Ledger (step Keystroke.mk s (.interrupt scancode)) gone := by
  by_cases hs : Stores scancode s.dev
  · set e : Keystroke := ⟨s.accepted.length, charKey scancode⟩ with he
    have hqueue : (putChar s.dev e).queue = s.dev.queue ++ [e] := by
      rw [queue_putChar h.ok, if_pos hs.2]
    simp only [step, if_pos hs, interrupt_of_stores hs]
    exact
      { ok := ok_putChar h.ok e
        accepted := by
          change s.accepted ++ [e] = gone ++ (putChar s.dev e).queue
          rw [hqueue, h.accepted, List.append_assoc]
        ranks := by
          simp only [List.map_append, h.ranks, List.map_singleton, List.length_append,
            List.length_singleton, List.range_succ]
        received := h.received
        once := h.once
        fate := h.fate
        thrown := h.thrown }
  · simp only [step, if_neg hs, interrupt_of_not_stores hs]
    exact h

/-- A round of a call that meets no fault. -/
theorem iterate (h : Ledger s gone) (r : ℕ) :
    ∃ gone', Ledger (step Keystroke.mk s (.iterate r false)) gone' := by
  rcases hcall : s.calls r with - | call
  · simp only [step, hcall]
    exact ⟨gone, h⟩
  simp only [step, hcall]
  by_cases hg : call.Gets
  · rcases Nat.eq_zero_or_pos s.dev.count with hz | hpos
    · -- the buffer is empty: the call returns what it has
      rw [iterate_of_empty hg (getChar_of_empty hz)]
      refine ⟨gone, h.setCall hcall rfl fun l hl => ?_⟩
      exact
        { hl with
          size := le_trans (by simp) hl.size
          ret := fun v hv => (Option.some.inj hv).symm.trans hl.read }
    · obtain ⟨c, data', hget, hok, hqueue⟩ := getChar_of_pos h.ok hpos
      rw [iterate_of_char hg hget]
      exact ⟨gone ++ [c], h.deliver hcall hg.2 hg.1 hok hqueue⟩
  · rcases not_gets_cases hg with hret | ⟨hret, hsize⟩
    · rw [iterate_of_returned hret]
      exact ⟨gone, h.setCall hcall rfl fun l hl => hl⟩
    · rw [iterate_of_size_zero hret hsize]
      refine ⟨gone, h.setCall hcall rfl fun l hl => ?_⟩
      exact { hl with ret := fun v hv => (Option.some.inj hv).symm.trans hl.read }

end Ledger

/-- A step in which `put_user` succeeds, if it runs at all. -/
def Act.FaultFree : Act → Prop
  | .iterate _ fault => fault = false
  | _ => True

/-- **Every step keeps the ledger.** -/
theorem ledger_step (s : Sys Keystroke) (a : Act) (hf : a.FaultFree)
    (h : ∃ gone, Ledger s gone) : ∃ gone, Ledger (step Keystroke.mk s a) gone := by
  obtain ⟨gone, h⟩ := h
  cases a with
  | interrupt scancode => exact ⟨gone, h.interrupt scancode⟩
  | enter r size =>
    rcases hcall : s.calls r with - | call
    · simp only [step, hcall]
      exact ⟨gone, h.enter hcall⟩
    · simp only [step, hcall]
      exact ⟨gone, h⟩
  | iterate r fault =>
    obtain rfl : fault = false := hf
    exact h.iterate r
  | clear => exact ⟨_, h.clear⟩

theorem ledger_init : Ledger numbered [] where
  ok := ok_init _
  accepted := rfl
  ranks := rfl
  received r call hcall := absurd hcall (by simp [numbered, Sys.init])
  once h := by
    obtain ⟨call, hcall, -⟩ := h
    exact absurd hcall (by simp [numbered, Sys.init])
  fate e he := absurd he (by simp)
  thrown e he := absurd he (by simp [numbered, Sys.init])

/-- **Every run keeps the ledger.** -/
theorem ledger_run (acts : List Act) (hf : ∀ a ∈ acts, a.FaultFree) :
    ∃ gone, Ledger (run (step Keystroke.mk) numbered acts) gone :=
  run_invariant_along (step Keystroke.mk) ledger_step acts (along_of_forall _ hf)
    ⟨[], ledger_init⟩

/-- **The fate of an accepted keystroke is unique.** -/
theorem Ledger.existsUnique_fate {s : Sys Keystroke} {gone : List Keystroke} (h : Ledger s gone)
    {e : Keystroke} (he : e ∈ s.accepted) : ∃! f : Fate, s.HasFate e f := by
  rw [h.accepted] at he
  rcases List.mem_append.mp he with hg | hq
  · have hnq : e ∉ s.dev.queue := h.not_queued hg
    rcases h.fate e hg with hd | hd
    · refine ⟨.delivered, hd, ?_⟩
      rintro (- | - | -) hf
      · rfl
      · exact absurd hf hnq
      · obtain ⟨r, p, hat⟩ := hd
        exact absurd hat ((h.thrown e hf).2 r p)
    · refine ⟨.discarded, hd, ?_⟩
      rintro (- | - | -) hf
      · obtain ⟨r, p, hat⟩ := hf
        exact absurd hat ((h.thrown e hd).2 r p)
      · exact absurd hf hnq
      · rfl
  · refine ⟨.queued, hq, ?_⟩
    rintro (- | - | -) hf
    · obtain ⟨r, p, hat⟩ := hf
      exact absurd hq (h.not_queued (h.mem_gone hat))
    · rfl
    · exact absurd hq (h.not_queued (h.thrown e hf).1)

/-- **Every keystroke accepted is delivered once, queued, or discarded.** After
every schedule without user-memory faults, and for the driver itself once the
numbers are dropped: the keystrokes accepted are numbered in order, each has
exactly one fate, a delivered one sits at one position of the buffer of one call,
and every call has stored, from position `0` on, a list of keystrokes in the order
of their acceptance, whose length is what it returns and at most what it was asked
for. -/
theorem keystrokes_delivered_once (acts : List Act) (hf : ∀ a ∈ acts, a.FaultFree) :
    let s := run (step Keystroke.mk) numbered acts
    s.map Keystroke.ch = run (step plain) (Sys.init 0) acts ∧
    s.accepted.map Keystroke.id = List.range s.accepted.length ∧
    (∀ e ∈ s.accepted, ∃! f : Fate, s.HasFate e f) ∧
    (∀ e r p r' p', s.DeliveredAt e r p → s.DeliveredAt e r' p' → r = r' ∧ p = p') ∧
    ∀ r call, s.calls r = some call → ∃ l : List Keystroke,
      (∀ p, call.user p = l[p]?) ∧ l.Sublist s.accepted ∧
      ∀ v, call.ret = some v → v = l.length ∧ v ≤ call.request := by
  intro s
  obtain ⟨gone, h⟩ := ledger_run acts hf
  refine ⟨erase_run acts, h.ranks, fun e he => h.existsUnique_fate he,
    fun e r p r' p' h1 h2 => h.once h1 h2, fun r call hcall => ?_⟩
  obtain ⟨l, hl, hsub⟩ := h.received r call hcall
  refine ⟨l, hl.user, ?_, fun v hv => ⟨hl.ret v hv, ?_⟩⟩
  · rw [h.accepted]
    exact hsub.trans (List.sublist_append_left gone _)
  · have hsize := hl.size
    rw [hl.ret v hv]
    exact_mod_cast (by omega : l.length ≤ call.request)

/-- Two presses, a call that takes one of them and is still in progress, and a
reset: one keystroke delivered, one discarded. -/
theorem keystrokes_delivered_once_example :
    ∃! f : Fate, (run (step Keystroke.mk) numbered
      [.interrupt 0x1e, .interrupt 0x30, .enter 0 8, .iterate 0 false, .clear]).HasFate
        ⟨1, 98⟩ f :=
  (keystrokes_delivered_once _ (by simp [Act.FaultFree])).2.2.1 _ (by decide)

end Keylogger

end KernelModules
