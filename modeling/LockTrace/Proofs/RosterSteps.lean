import LockTrace.Proofs.LegalTraces
import LockTrace.Proofs.Roster
import LockTrace.Proofs.Sessions

/-!
# Monitors beside a roster

The events of a legal trace move a monitor and a roster at once: an acquisition arrives as a hold
begins, and leaves as it is released. A relation between the two that whatever an event makes a
session do to its monitor keeps (`KeptBeside`) is kept by the event
(`Session.Follows.keeps_step`). What is done to a monitor may count on the ledger that it mirrors.
-/

namespace LockTrace

/-- A relation that a legal event at the given time keeps, whatever it makes a session do to its
    monitor. -/
structure KeptBeside (time : UInt64) (P : Monitor → Roster → Prop) : Prop where
  plain : ∀ {m : Monitor} {r : Roster} {os : List Output}, P m r → (∀ o ∈ os, o.Plain) →
    P (m.withOutputs os) r
  access : ∀ {m : Monitor} {r : Roster} (ctx : Int64) (row : AccessRow), P m r →
    P ((m.countAccess ctx).write (.access row)) r
  setFlags : ∀ {m : Monitor} {r : Roster} (key : Nat) (flags : UInt32), P m r →
    P (m.modifyLock key (·.setFlags flags)) r
  withLock : ∀ {m : Monitor} {r : Roster} {strip : Site → Site} {l : Ledger} (address : UInt64)
    (label : String) (kind : LockKind) (flags : UInt32) (placement : Placement),
    m.Mirrors strip l → m.locks.find? address = none → P m r →
    P (m.withLock address label kind flags placement) r
  freeRange : ∀ {m : Monitor} {r : Roster} {strip : Site → Site} {l : Ledger}
    {base size : UInt64}, m.Mirrors strip l →
    (∀ hold ∈ l.holds, ¬ LockStore.InRange base size hold.address) → P m r →
    P (m.freeRange base size time).2 r
  beginHold : ∀ {m : Monitor} {r : Roster} {strip : Site → Site} {l : Ledger} {key : Nat}
    {lock : Lock} {t : Transition}, m.Mirrors strip l → m.locks.get? key = some lock →
    t.time = time → P m r →
    P (m.beginHold key t) (r.arrive ⟨⟨t.ctx, lock.address, t.op.side⟩, t.time⟩)
  release : ∀ {m : Monitor} {r : Roster} {strip : Site → Site} {l : Ledger} {key : Nat}
    {lock : Lock} {t : Transition}, m.Mirrors strip l → m.locks.get? key = some lock →
    ⟨t.ctx, lock.address, t.op.side⟩ ∈ l.holds → t.time = time → P m r →
    P (m.release key lock t) (r.leave ⟨t.ctx, lock.address, t.op.side⟩ t.time)

namespace Session

theorem lastTime_run {s s' : Session} {es : List Event} (h : s.run es = (s', none)) :
    s'.lastTime = es.foldl (fun time e => max time e.time) s.lastTime := by
  induction es generalizing s with
  | nil =>
    cases h
    rfl
  | cons e es ih =>
    have hsplit : s.run ([e] ++ es) = (s', none) := h
    obtain ⟨s₁, hfirst, hrest⟩ := exists_of_run_append hsplit
    rw [run_singleton] at hfirst
    have htime := s.lastTime_step e
    rw [hfirst] at htime
    rw [ih hrest, htime]
    rfl

namespace Follows

variable {strip : Site → Site} {s : Session} {l : Ledger} {r : Roster} {e : Event}
  {P : Monitor → Roster → Prop}

theorem keeps_flush {time : UInt64} (hP : KeptBeside time P) (hp : P s.monitor r)
    (lock : Option (UInt64 × Int64)) : P (s.flush lock).monitor r :=
  flush_induction (P := fun m => P m r) (fun _ ctx row _ hp => hP.access ctx row hp) hp lock

theorem keeps_freeEvent (h : s.Follows strip l) (hP : KeptBeside e.time P) (hp : P s.monitor r)
    (hfree : ∀ a ∈ l.heap.active.get? e.address, ∀ hold ∈ l.holds, ¬ a.Contains hold.address) :
    P (s.freeEvent e).monitor r := by
  have hplain := plain_free s.heap e.address e.time
  have hwritten := hP.plain hp hplain
  have hanswer : (s.heap.free e.address e.time).answer = l.heap.active.get? e.address := by
    rw [answer_free, h.heap]
  unfold Session.freeEvent
  simp only [hanswer]
  cases hget : l.heap.active.get? e.address with
  | none => exact hwritten
  | some a =>
    apply hP.freeRange (h.mirrors.withOutputs hplain) _ hwritten
    intro hold hhold hrange
    exact hfree a hget hold hhold (LockStore.contains_of_inRange hrange)

/-- The monitor that knows the lock of an event still mirrors some ledger. -/
theorem keeps_findOrCreate {time : UInt64} (h : s.monitor.Mirrors strip l) (hP : KeptBeside time P)
    (hp : P s.monitor r) {address : UInt64} {label : String} {flags : UInt32}
    {place : UInt64 → Placement} {key : Nat} {m : Monitor}
    (hfound : s.monitor.findOrCreate address label flags place = .ok (key, m)) :
    P m r ∧ ∃ l', m.Mirrors strip l' := by
  rcases s.monitor.findOrCreate_cases address label flags place with
    ⟨_, _, heq⟩ | ⟨kind, hnew, _, heq⟩ | ⟨_, _, heq⟩
  · cases heq.symm.trans hfound
    exact ⟨hp, l, h⟩
  · cases heq.symm.trans hfound
    exact ⟨hP.withLock address label kind flags (place address) h hnew hp, _,
      h.withLock hnew label kind flags (place address)⟩
  · cases heq.symm.trans hfound

theorem keeps_acquireEvent (h : s.Follows strip l) (hP : KeptBeside e.time P) (hp : P s.monitor r)
    {side : Side} (irqSync : IrqSync) {flags : UInt32} (hsupports : l.Supports e side)
    (hmay : l.MayAcquire e.address flags side) :
    P (s.lockEvent e (.acquire side) irqSync flags).1.monitor
      (r.arrive ⟨⟨e.ctx, e.address, side⟩, e.time⟩) := by
  obtain ⟨key, m, lock, t, hop, hctx, htime, hfound, hget, haddress, heq, _⟩ :=
    h.acquireEvent_eq irqSync hsupports hmay
  obtain ⟨hlocated, l', hmirrors⟩ := keeps_findOrCreate h.mirrors hP hp hfound
  have hlive : (m.modifyLock key (·.setFlags t.flags)).locks.get? key =
      some (lock.setFlags t.flags) := LockStore.get?_modify_self _ hget
  have hbegun := hP.beginHold (hmirrors.setFlags key t.flags) hlive htime
    (hP.setFlags key t.flags hlocated)
  rw [heq, ← hctx, ← htime, ← haddress]
  rwa [hop] at hbegun

theorem keeps_releaseEvent (h : s.Follows strip l) (hP : KeptBeside e.time P) (hp : P s.monitor r)
    {side : Side} (irqSync : IrqSync) (flags : UInt32)
    (hhold : ⟨e.ctx, e.address, side⟩ ∈ l.holds) :
    P (s.lockEvent e (.release side) irqSync flags).1.monitor
      (r.leave ⟨e.ctx, e.address, side⟩ e.time) := by
  obtain ⟨key, lock, t, hop, hctx, htime, hget, haddress, heq, _⟩ :=
    h.releaseEvent_eq irqSync flags hhold
  have hlive : (s.monitor.modifyLock key (·.setFlags t.flags)).locks.get? key =
      some (lock.setFlags t.flags) := LockStore.get?_modify_self _ hget
  have hside : t.op.side = side := by
    rw [hop]
    rfl
  rw [← hctx, ← haddress, ← hside] at hhold
  have hreleased := hP.release (h.mirrors.setFlags key t.flags) hlive hhold htime
    (hP.setFlags key t.flags hp)
  rw [heq, ← hctx, ← htime, ← haddress, ← hside]
  exact hreleased

/-- An event that the ledger allows keeps what is kept by all that it may lead to. -/
theorem keeps_step (h : s.Follows strip l) (hP : KeptBeside e.time P) (hp : P s.monitor r)
    (hallows : l.AllowsOperation e e.operation) : P (s.step e).1.monitor (r.advance e) := by
  have hnote := h.note e
  have hp' : P (s.note e).monitor r := hp
  unfold Session.step Roster.advance
  cases hop : e.operation with
  | access kind size => exact hp
  | alloc size =>
    exact hP.plain (keeps_flush hP hp' none) (plain_allocate _ e.address size e.typeName e.time)
  | free =>
    rw [hop] at hallows
    exact (hnote.flush none).keeps_freeEvent hP (keeps_flush hP hp' none) hallows
  | acquire side irqSync flags =>
    rw [hop] at hallows
    simp only [Session.flushedLockEvent]
    by_cases hignored : e.typeName ∈ ignoredTypes
    · rw [if_pos hignored, if_pos hignored]
      exact hp
    · obtain ⟨hsupports, hmay⟩ := hallows.resolve_left hignored
      rw [if_neg hignored, if_neg hignored]
      exact (hnote.flush _).keeps_acquireEvent hP (keeps_flush hP hp' _) irqSync hsupports hmay
  | release side flags =>
    rw [hop] at hallows
    simp only [Session.flushedLockEvent]
    by_cases hignored : e.typeName ∈ ignoredTypes
    · rw [if_pos hignored, if_pos hignored]
      exact hp
    · obtain ⟨_, hhold⟩ := hallows.resolve_left hignored
      rw [if_neg hignored, if_neg hignored]
      exact (hnote.flush _).keeps_releaseEvent hP (keeps_flush hP hp' _) .none flags hhold

end Follows

end Session

end LockTrace
