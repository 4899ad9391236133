import LockTrace.Proofs.Following
import LockTrace.Proofs.Mirrors

/-!
# Legal traces

A session that follows a legal trace keeps pace with the ledger: its heap is the same, the
same accesses wait, and its monitor mirrors the ledger (`Follows`). Every event that the
ledger allows keeps it so and is no last one (`Follows.step`), hence so does a whole trace
(`Follows.run`). When the trace is over, the rows of its accesses tell what was held
(`accesses_told`).
-/

namespace LockTrace

/-- The access as it waits in the buffer, with the name of its file cut. -/
def Attested.cut (a : Attested) (strip : Site → Site) : PendingAccess :=
  { a.access with site := strip a.access.site }

namespace Session

/-! ### Accesses of lock operations -/

/-- Which accesses are those of a lock operation does not depend on the names of files, and
    these are the latest ones. -/
theorem dropOwnUpdate_cut (strip : Site → Site) (lock : Option (UInt64 × Int64))
    (as : List Attested) :
    dropOwnUpdate lock (as.map (·.cut strip)) =
      ((as.drop (dropOwnUpdate lock (as.map Attested.access)).2).map (·.cut strip),
        (dropOwnUpdate lock (as.map Attested.access)).2) := by
  cases lock with
  | none => rfl
  | some at' =>
    obtain ⟨address, ctx⟩ := at'
    match as with
    | [] => rfl
    | [_] => rfl
    | second :: first :: rest =>
      have hsame : IsOwnUpdate address ctx (first.cut strip) (second.cut strip) ↔
          IsOwnUpdate address ctx first.access second.access := Iff.rfl
      simp only [List.map_cons, dropOwnUpdate, hsame]
      split <;> rfl

/-! ### Keeping pace -/

/-- The session is where the ledger is. -/
structure Follows (strip : Site → Site) (s : Session) (l : Ledger) : Prop where
  heap : s.heap = l.heap
  sites : s.stripSite = strip
  pending : s.pending = l.waiting.map (·.cut strip)
  current : ∀ a ∈ l.waiting, a.held = l.held a.access.ctx
  mirrors : s.monitor.Mirrors strip l

namespace Follows

variable {strip : Site → Site} {s : Session} {l : Ledger} {e : Event}

theorem initial (config : Config) (symbols : SymbolTable) :
    (Session.initial config symbols).Follows (Session.initial config symbols).stripSite
      (.start config) where
  heap := rfl
  sites := rfl
  pending := rfl
  current a ha := by cases ha
  mirrors := .initial _ config

theorem note (h : s.Follows strip l) (e : Event) : (s.note e).Follows strip l :=
  ⟨h.heap, h.sites, h.pending, h.current, h.mirrors⟩

/-- An access is written for what its context holds. -/
theorem writeAccess (h : s.Follows strip l) {a : Attested} (hheld : a.held = l.held a.access.ctx) :
    (s.writeAccess (a.cut strip)).Follows strip { l with kept := l.kept ++ [a] } where
  heap := h.heap
  sites := h.sites
  pending := h.pending
  current := h.current
  mirrors := h.mirrors.access rfl ⟨rfl, rfl, rfl, rfl, rfl⟩ hheld

theorem foldl_writeAccess {as : List Attested} (h : s.Follows strip l)
    (hheld : ∀ a ∈ as, a.held = l.held a.access.ctx) :
    ((as.map (·.cut strip)).foldl Session.writeAccess s).Follows strip
      { l with kept := l.kept ++ as } := by
  induction as generalizing s l with
  | nil =>
    rw [List.append_nil]
    exact h
  | cons a as ih =>
    have hnext := ih (h.writeAccess (hheld a List.mem_cons_self))
      fun b hb => hheld b (List.mem_cons_of_mem _ hb)
    simp only [List.append_assoc, List.singleton_append] at hnext
    exact hnext

/-- The accesses that wait are written, or dropped by the session and the ledger alike. -/
theorem flush (h : s.Follows strip l) (lock : Option (UInt64 × Int64)) :
    (s.flush lock).Follows strip (l.settle lock) := by
  have hempty : ({ s with pending := [], discarded := s.discarded +
      (dropOwnUpdate lock s.pending).2 } : Session).Follows strip { l with waiting := [] } := {
    heap := h.heap
    sites := h.sites
    pending := rfl
    current := fun a ha => by cases ha
    mirrors := h.mirrors.congr rfl rfl rfl }
  have hcurrent : ∀ a ∈ (l.waiting.drop
      (dropOwnUpdate lock (l.waiting.map Attested.access)).2).reverse,
      a.held = l.held a.access.ctx := by
    intro a ha
    exact h.current a (List.mem_of_mem_drop (List.mem_reverse.mp ha))
  have hwritten := hempty.foldl_writeAccess hcurrent
  have hpending : (dropOwnUpdate lock s.pending).1.reverse =
      (l.waiting.drop (dropOwnUpdate lock (l.waiting.map Attested.access)).2).reverse.map
        (·.cut strip) := by
    rw [h.pending, dropOwnUpdate_cut, List.map_reverse]
  unfold Session.flush
  rw [← hpending] at hwritten
  exact hwritten

theorem buffer (h : s.Follows strip l) (e : Event) (kind : AccessKind) (size : UInt64) :
    (s.buffer e kind size).Follows strip (l.attest e kind size) where
  heap := h.heap
  sites := h.sites
  pending := by
    unfold Session.buffer Ledger.attest
    rw [List.map_cons, ← h.pending, ← h.sites]
    rfl
  current a ha := by
    rcases List.mem_cons.mp ha with rfl | ha
    · rfl
    · exact h.current a ha
  mirrors := h.mirrors.congr rfl rfl rfl

/-! ### Events -/

theorem answer_free (h : Heap) (base time : UInt64) :
    (h.free base time).answer = h.active.get? base := by
  unfold Heap.free
  cases h.active.get? base <;> rfl

theorem allocEvent (h : s.Follows strip l) (e : Event) (size : UInt64) :
    (s.allocEvent e size).Follows strip (l.allocate e size) where
  heap := by
    unfold Ledger.allocate
    rw [← h.heap]
    rfl
  sites := h.sites
  pending := h.pending
  current := h.current
  mirrors := (h.mirrors.withOutputs fun o ho =>
    plain_allocate s.heap e.address size e.typeName e.time o ho).congr rfl rfl rfl

/-- An allocation ends in which nothing is held. -/
theorem freeEvent (h : s.Follows strip l)
    (hfree : ∀ a ∈ l.heap.active.get? e.address, ∀ hold ∈ l.holds, ¬ a.Contains hold.address) :
    (s.freeEvent e).Follows strip (l.free e) := by
  have hwritten := h.mirrors.withOutputs (plain_free s.heap e.address e.time)
  have hheap : (s.heap.free e.address e.time).heap = (l.heap.free e.address e.time).heap := by
    rw [h.heap]
  have hanswer : (s.heap.free e.address e.time).answer = l.heap.active.get? e.address := by
    rw [answer_free, h.heap]
  unfold Session.freeEvent Ledger.free
  simp only [hanswer]
  cases hget : l.heap.active.get? e.address with
  | none =>
    refine ⟨?_, h.sites, h.pending, h.current, hwritten⟩
    refine hheap.trans ?_
    unfold Heap.free
    rw [hget]
  | some a =>
    refine ⟨hheap, h.sites, h.pending, h.current, ?_⟩
    refine (hwritten.freeRange e.time ?_).congr rfl rfl rfl
    intro hold hhold hrange
    exact hfree a hget hold hhold (LockStore.contains_of_inRange hrange)

/-- What the ledger lets a context acquire, the lock is there to give. -/
theorem acquireEvent_eq (h : s.Follows strip l) {side : Side} (irqSync : IrqSync) {flags : UInt32}
    (hsupports : l.Supports e side) (hmay : l.MayAcquire e.address flags side) :
    ∃ key m lock t, t.op = .acquire side ∧ t.ctx = e.ctx ∧ t.time = e.time ∧
      s.monitor.findOrCreate e.address e.typeName flags s.place = .ok (key, m) ∧
      m.locks.get? key = some lock ∧ lock.address = e.address ∧
      s.lockEvent e (.acquire side) irqSync flags =
        ({ s with monitor := (m.modifyLock key (·.setFlags t.flags)).beginHold key t }, none) ∧
      ((m.modifyLock key (·.setFlags t.flags)).beginHold key t).Mirrors strip
        ((l.locate e).take ⟨e.ctx, e.address, side⟩) := by
  obtain ⟨key, m, lock, hfound, hmirrors, hget, haddress, hkind⟩ :=
    h.mirrors.locate hsupports flags s.place
  rw [← haddress] at hmay
  obtain ⟨hstep, hmirrors'⟩ := hmirrors.step_acquire
    (t := ⟨.acquire side, e.ctx, e.time, s.stripSite e.site, e.preemptCount, irqSync, flags⟩)
    rfl hget hkind hmay
  rw [haddress] at hmirrors'
  refine ⟨key, m, lock, _, rfl, rfl, rfl, hfound, hget, haddress, ?_, hmirrors'⟩
  unfold Session.lockEvent
  rw [if_neg (fun hrelease => Bool.noConfusion hrelease.1), hfound]
  simp only [hstep]

theorem acquireEvent (h : s.Follows strip l) {side : Side} (irqSync : IrqSync) {flags : UInt32}
    (hwaiting : l.waiting = []) (hsupports : l.Supports e side)
    (hmay : l.MayAcquire e.address flags side) :
    ∃ s', s.lockEvent e (.acquire side) irqSync flags = (s', none) ∧
      s'.Follows strip ((l.locate e).take ⟨e.ctx, e.address, side⟩) := by
  obtain ⟨_, _, _, _, _, _, _, _, _, _, heq, hmirrors⟩ := h.acquireEvent_eq irqSync hsupports hmay
  refine ⟨_, heq, h.heap, h.sites, h.pending, ?_, hmirrors⟩
  intro a ha
  have hnone : a ∈ l.waiting := ha
  rw [hwaiting] at hnone
  cases hnone

/-- What a context holds by the ledger, it can release. -/
theorem releaseEvent_eq (h : s.Follows strip l) {side : Side} (irqSync : IrqSync) (flags : UInt32)
    (hhold : ⟨e.ctx, e.address, side⟩ ∈ l.holds) :
    ∃ key lock t, t.op = .release side ∧ t.ctx = e.ctx ∧ t.time = e.time ∧
      s.monitor.locks.get? key = some lock ∧ lock.address = e.address ∧
      s.lockEvent e (.release side) irqSync flags = ({ s with monitor :=
        (s.monitor.modifyLock key (·.setFlags t.flags)).release key (lock.setFlags t.flags) t },
        none) ∧
      ((s.monitor.modifyLock key (·.setFlags t.flags)).release key
        (lock.setFlags t.flags) t).Mirrors strip (l.drop ⟨e.ctx, e.address, side⟩) := by
  obtain ⟨key, lock, hfind, hget, haddress⟩ := h.mirrors.exists_lock hhold
  have hlive : ¬ (LockOp.isAcquire (.release side) = false ∧
      s.monitor.locks.find? e.address = none) := by
    rintro ⟨_, hnone⟩
    rw [hnone] at hfind
    cases hfind
  have hfound := Monitor.findOrCreate_of_find? hfind e.typeName flags s.place
  have hheld : ⟨e.ctx, lock.address, side⟩ ∈ l.holds := by rwa [haddress]
  obtain ⟨hstep, hmirrors⟩ := h.mirrors.step_release
    (t := ⟨.release side, e.ctx, e.time, s.stripSite e.site, e.preemptCount, irqSync, flags⟩)
    rfl hget hheld
  rw [haddress] at hmirrors
  refine ⟨key, lock, _, rfl, rfl, rfl, hget, haddress, ?_, hmirrors⟩
  unfold Session.lockEvent
  rw [if_neg hlive, hfound]
  simp only [hstep]

theorem releaseEvent (h : s.Follows strip l) {side : Side} (irqSync : IrqSync) (flags : UInt32)
    (hwaiting : l.waiting = []) (hhold : ⟨e.ctx, e.address, side⟩ ∈ l.holds) :
    ∃ s', s.lockEvent e (.release side) irqSync flags = (s', none) ∧
      s'.Follows strip (l.drop ⟨e.ctx, e.address, side⟩) := by
  obtain ⟨_, _, _, _, _, _, _, _, heq, hmirrors⟩ := h.releaseEvent_eq irqSync flags hhold
  refine ⟨_, heq, h.heap, h.sites, h.pending, ?_, hmirrors⟩
  intro a ha
  have hnone : a ∈ l.waiting := ha
  rw [hwaiting] at hnone
  cases hnone

/-- An event that the ledger allows is followed by both, and is not the last one. -/
theorem step (h : s.Follows strip l) (hallows : l.AllowsOperation e e.operation) :
    ∃ s', s.step e = (s', none) ∧ s'.Follows strip (l.advance e) := by
  have hnote := h.note e
  unfold Session.step Ledger.advance
  cases hop : e.operation with
  | access kind size => exact ⟨_, rfl, hnote.buffer e kind size⟩
  | alloc size => exact ⟨_, rfl, (hnote.flush none).allocEvent e size⟩
  | free =>
    rw [hop] at hallows
    exact ⟨_, rfl, (hnote.flush none).freeEvent hallows⟩
  | acquire side irqSync flags =>
    rw [hop] at hallows
    simp only [Session.flushedLockEvent]
    by_cases hignored : e.typeName ∈ ignoredTypes
    · rw [if_pos hignored, if_pos hignored]
      exact ⟨_, rfl, hnote.heap, hnote.sites, hnote.pending, hnote.current, hnote.mirrors⟩
    · obtain ⟨hsupports, hmay⟩ := hallows.resolve_left hignored
      rw [if_neg hignored, if_neg hignored]
      exact (hnote.flush _).acquireEvent irqSync rfl hsupports hmay
  | release side flags =>
    rw [hop] at hallows
    simp only [Session.flushedLockEvent]
    by_cases hignored : e.typeName ∈ ignoredTypes
    · rw [if_pos hignored, if_pos hignored]
      exact ⟨_, rfl, hnote.heap, hnote.sites, hnote.pending, hnote.current, hnote.mirrors⟩
    · obtain ⟨_, hhold⟩ := hallows.resolve_left hignored
      rw [if_neg hignored, if_neg hignored]
      exact (hnote.flush _).releaseEvent .none flags rfl hhold

/-! ### Whole traces -/

theorem run (h : s.Follows strip l) {es : List Event} (hlegal : l.Legal es) :
    ∃ s', s.run es = (s', none) ∧ s'.Follows strip (es.foldl Ledger.advance l) := by
  induction es generalizing s l with
  | nil => exact ⟨s, rfl, h⟩
  | cons e es ih =>
    obtain ⟨hallows, hrest⟩ := hlegal
    obtain ⟨s₁, hstep, hnext⟩ := h.step hallows
    obtain ⟨s', hrun, hend⟩ := ih hnext hrest
    refine ⟨s', ?_, hend⟩
    unfold Session.run
    rw [hstep]
    exact hrun

theorem finish (h : s.Follows strip l) :
    s.finish.monitor.Faithful strip (l.settle none).kept := by
  have hflush := (h.flush none).mirrors
  obtain ⟨os, os', hos, hos', heq⟩ := s.finish_eq
  rw [heq]
  exact ((hflush.faithful.withOutputs hos).closeAll hflush.backed _).withOutputs hos'

end Follows

/-- In a legal trace, whatever order the releases come in, no report is about a lock or a
    transaction, and the row of every access that is kept has no transaction if its context
    held nothing; otherwise the transaction has one row, and its rows on held sub-locks name
    what the context held, each sub-lock once. -/
theorem accesses_told_of_legal (config : Config) (symbols : SymbolTable) {es : List Event}
    (hlegal : (Ledger.start config).Legal es) :
    ∃ s, (Session.initial config symbols).run es = (s, none) ∧
      (∀ i ∈ s.finish.journal.reports, i.AboutHeap) ∧
      (s.finish.monitor.lockTable.map LockRow.id).Nodup ∧
      List.Forall₂ (fun row a => a.IsIn (Session.initial config symbols).stripSite row ∧
        s.finish.monitor.Tells row.txn a.held)
        s.finish.monitor.accessTable (Ledger.account config es) := by
  obtain ⟨s, hrun, hfollows⟩ := (Follows.initial config symbols).run hlegal
  have hfaithful := hfollows.finish
  refine ⟨s, hrun, ?_, hfaithful.ready.numbered.nodup, hfaithful.told s.openTxns_finish⟩
  intro i hi
  obtain ⟨o, ho, heq⟩ := List.mem_filterMap.mp hi
  apply hfaithful.sound i
  cases o with
  | report j =>
    cases heq
    exact ho
  | record r => cases heq
  | remark r => cases heq

/-- Two contexts share a lock. The first takes another one on top, releases the shared one
    first, and reads and writes the word of the other one as it releases it. The second still
    holds the shared lock at the end. -/
def crossedReleases : List Event :=
  [⟨1, 1, .acquire .reader .none 0, 0x100, "rwlock_t", Site.unknown, 0⟩,
    ⟨2, 2, .acquire .reader .none 0, 0x100, "rwlock_t", Site.unknown, 0⟩,
    ⟨3, 1, .acquire .writer .none 0, 0x200, "spinlock_t", Site.unknown, 0⟩,
    ⟨4, 1, .access .read 4, 0x300, "", Site.unknown, 0⟩,
    ⟨5, 1, .release .reader 0, 0x100, "rwlock_t", Site.unknown, 0⟩,
    ⟨6, 1, .access .write 4, 0x300, "", Site.unknown, 0⟩,
    ⟨7, 2, .access .read 8, 0x308, "", Site.unknown, 0⟩,
    ⟨8, 1, .access .read 4, 0x200, "", Site.unknown, 0⟩,
    ⟨8, 1, .access .write 4, 0x200, "", Site.unknown, 0⟩,
    ⟨9, 1, .release .writer 0, 0x200, "spinlock_t", Site.unknown, 0⟩,
    ⟨10, 1, .access .read 4, 0x300, "", Site.unknown, 0⟩]

theorem accesses_told_of_crossedReleases :
    (Ledger.account .default crossedReleases).map Attested.held =
        [[(0x200, .writer), (0x100, .reader)], [(0x200, .writer)], [(0x100, .reader)], []] ∧
      ∃ s, (Session.initial .default ∅).run crossedReleases = (s, none) ∧
        List.Forall₂ (fun row a => s.finish.monitor.Tells row.txn a.held)
          s.finish.monitor.accessTable (Ledger.account .default crossedReleases) := by
  have hlegal : (Ledger.start .default).Legal crossedReleases := by decide +kernel
  obtain ⟨s, hrun, _, _, hrows⟩ := accesses_told_of_legal .default ∅ hlegal
  refine ⟨by decide +kernel, s, hrun, ?_⟩
  apply hrows.imp
  intro row a hrow
  exact hrow.2

end Session

end LockTrace
