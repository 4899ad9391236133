import LockTrace.Proofs.Operations
import LockTrace.Session.Delivery

/-!
# Handing over as it comes

Work with a sink at hand does what the same work does without one, output by output: it hands
over exactly what the journal gains, and comes to the same result unless the sink turns a
record down (`Writing.Brings`). This is kept by every way in which work is put together, so it
holds for the loops of the monitor, for an event (`Session.brings_follow`) and for a whole
trace (`Session.brings_followAll`).
-/

namespace LockTrace

/-! ### Offers one after the other -/

namespace Sink

variable {s s' : Sink} {os : List Output}

theorem offer_nil (s : Sink) : s.offer [] = ⟨[], some s⟩ := by
  obtain ⟨_ | room⟩ := s <;> rfl

theorem offerLimited_append_of_none {room : Nat} (h : (offerLimited room os).sink = none)
    (os' : List Output) : offerLimited room (os ++ os') = offerLimited room os := by
  induction os generalizing room with
  | nil => cases h
  | cons o os ih =>
    cases o with
    | record r =>
      cases room with
      | zero => rfl
      | succ room => simp only [List.cons_append, offerLimited, ih h]
    | _ => simp only [List.cons_append, offerLimited, ih h]

theorem offerLimited_append_of_some {room : Nat} (h : (offerLimited room os).sink = some s')
    (os' : List Output) : offerLimited room (os ++ os') =
      ⟨(offerLimited room os).through ++ (s'.offer os').through, (s'.offer os').sink⟩ := by
  induction os generalizing room with
  | nil =>
    cases h
    rfl
  | cons o os ih =>
    cases o with
    | record r =>
      cases room with
      | zero => cases h
      | succ room => simp only [List.cons_append, offerLimited, ih h]
    | _ => simp only [List.cons_append, offerLimited, ih h]

/-- What a sink has turned down is the end. -/
theorem offer_append_of_none (h : (s.offer os).sink = none) (os' : List Output) :
    s.offer (os ++ os') = s.offer os := by
  obtain ⟨_ | room⟩ := s
  · cases h
  · exact offerLimited_append_of_none h os'

/-- Otherwise the sink goes on with what comes later. -/
theorem offer_append_of_some (h : (s.offer os).sink = some s') (os' : List Output) :
    s.offer (os ++ os') =
      ⟨(s.offer os).through ++ (s'.offer os').through, (s'.offer os').sink⟩ := by
  obtain ⟨_ | room⟩ := s
  · cases h
    rfl
  · exact offerLimited_append_of_some h os'

section Settle

variable {α : Type}

theorem settle_of_none (h : (s.offer os).sink = none) (r : Except Fatal α) :
    s.settle os r = ⟨(s.offer os).through, .error full⟩ := by
  unfold settle
  simp only [h]

theorem settle_of_some (h : (s.offer os).sink = some s') (r : Except Fatal α) :
    s.settle os r = ⟨(s.offer os).through, r.map (s', ·)⟩ := by
  unfold settle
  simp only [h]

/-- What becomes of the result does not matter to the sink. -/
theorem settle_map {β : Type} (sink : Sink) (os : List Output) (r : Except Fatal α) (f : α → β) :
    sink.settle os (r.map f) =
      ⟨(sink.settle os r).through, (sink.settle os r).result.map (Prod.map id f)⟩ := by
  cases hoffer : (sink.offer os).sink with
  | none =>
    rw [settle_of_none hoffer, settle_of_none hoffer]
    rfl
  | some last =>
    rw [settle_of_some hoffer, settle_of_some hoffer]
    cases r <;> rfl

theorem settle_append_of_none (h : (s.offer os).sink = none) (os' : List Output)
    (r : Except Fatal α) : s.settle (os ++ os') r = ⟨(s.offer os).through, .error full⟩ := by
  have happend := offer_append_of_none h os'
  rw [← happend] at h
  rw [settle_of_none h, happend]

theorem settle_append_of_some (h : (s.offer os).sink = some s') (os' : List Output)
    (r : Except Fatal α) : s.settle (os ++ os') r =
      ⟨(s.offer os).through ++ (s'.settle os' r).through, (s'.settle os' r).result⟩ := by
  have happend := offer_append_of_some h os'
  cases hlater : (s'.offer os').sink with
  | none =>
    have hnone : (s.offer (os ++ os')).sink = none := by rw [happend, hlater]
    rw [settle_of_none hnone, settle_of_none hlater, happend]
  | some last =>
    have hsome : (s.offer (os ++ os')).sink = some last := by rw [happend, hlater]
    rw [settle_of_some hsome, settle_of_some hlater, happend]

end Settle

end Sink

/-! ### Work that brings the journal along -/

theorem Journal.since_of_append {j j' : Journal} {os : List Output}
    (h : j'.outputs.toList = j.outputs.toList ++ os) : j'.since j = os := by
  unfold since
  rw [h, ← Array.length_toList, List.drop_left]

namespace Writing

variable {α β : Type}

/-- The work hands over what the journal `j'` has more than `j`, and comes to `r` unless the sink
    turns a record down. -/
def Brings (w : Writing α) (j j' : Journal) (r : Except Fatal α) : Prop :=
  ∃ os, j'.outputs.toList = j.outputs.toList ++ os ∧ ∀ sink, w sink = sink.settle os r

/-- What came forth, or the cause to stop if there is one. -/
def outcome (after : α × Option Fatal) : Except Fatal α :=
  match after.2 with
  | none => .ok after.1
  | some cause => .error cause

variable {j j' j'' : Journal} {w : Writing α} {next : α → Writing β} {a : α} {cause : Fatal}

theorem settle_nil (sink : Sink) (r : Except Fatal α) :
    sink.settle [] r = ⟨[], r.map (sink, ·)⟩ := by
  have hoffer := sink.offer_nil
  rw [Sink.settle_of_some (congrArg Sink.Delivery.sink hoffer), hoffer]

theorem brings_pure (j : Journal) (a : α) : (pure a : Writing α).Brings j j (.ok a) :=
  ⟨[], (List.append_nil _).symm, fun sink => (settle_nil sink (.ok a)).symm⟩

theorem brings_stop (j : Journal) (cause : Fatal) :
    (stop cause : Writing α).Brings j j (.error cause) :=
  ⟨[], (List.append_nil _).symm, fun sink => (settle_nil sink (.error cause)).symm⟩

theorem brings_put (j : Journal) (o : Output) : (put o).Brings j (j.add o) (.ok ()) :=
  ⟨[o], j.toList_outputs_add o, fun _ => rfl⟩

namespace Brings

theorem bind {r : Except Fatal β} (h : w.Brings j j' (.ok a)) (h' : (next a).Brings j' j'' r) :
    (w >>= next).Brings j j'' r := by
  obtain ⟨os, hj, hw⟩ := h
  obtain ⟨os', hj', hnext⟩ := h'
  refine ⟨os ++ os', by rw [hj', hj, List.append_assoc], ?_⟩
  intro sink
  change andThen w next sink = _
  unfold andThen
  rw [hw]
  -- a sink that is full by now never gets to see what comes next
  cases hsink : (sink.offer os).sink with
  | none => rw [Sink.settle_of_none hsink, Sink.settle_append_of_none hsink]
  | some later =>
    rw [Sink.settle_of_some hsink, Sink.settle_append_of_some hsink, ← hnext]
    rfl

/-- What comes after work that was stopped is not done. -/
theorem bind_error (h : w.Brings j j' (.error cause)) :
    (w >>= next).Brings j j' (.error cause) := by
  obtain ⟨os, hj, hw⟩ := h
  refine ⟨os, hj, ?_⟩
  intro sink
  change andThen w next sink = _
  unfold andThen
  rw [hw]
  cases hsink : (sink.offer os).sink with
  | none => rw [Sink.settle_of_none hsink, Sink.settle_of_none hsink]
  | some later =>
    rw [Sink.settle_of_some hsink, Sink.settle_of_some hsink]
    rfl

/-- What is made of the result takes no further work. -/
theorem map_outcome {after : α × Option Fatal} (h : w.Brings j j' (outcome after)) (f : α → β) :
    (w >>= fun a => pure (f a)).Brings j j' (outcome (f after.1, after.2)) := by
  obtain ⟨a, _ | cause⟩ := after
  · exact h.bind (brings_pure j' (f a))
  · exact h.bind_error

end Brings

theorem brings_putAll (j : Journal) (os : List Output) :
    (putAll os).Brings j (j.addAll os) (.ok ()) := by
  induction os generalizing j with
  | nil => exact brings_pure j ()
  | cons o os ih => exact (brings_put j o).bind (ih (j.add o))

end Writing

/-! ### Closing transactions -/

namespace Monitor

open Writing (brings_pure brings_stop brings_put brings_putAll outcome)

variable (m : Monitor)

theorem brings_hand (o : Output) : (m.hand o).Brings m.journal (m.journal.add o)
    (.ok { m with journal := m.journal.add o }) :=
  (brings_put _ o).bind (brings_pure _ _)

theorem brings_report (i : Inconsistency) :
    (m.hand (.report i)).Brings m.journal (m.report i).journal (.ok (m.report i)) :=
  m.brings_hand (.report i)

theorem brings_handAll (os : List Output) : (m.handAll os).Brings m.journal (m.journal.addAll os)
    (.ok { m with journal := m.journal.addAll os }) :=
  (brings_putAll _ os).bind (brings_pure _ _)

theorem brings_handIf {c : Prop} [Decidable c] {o : Output} {m' : Monitor}
    (hm' : m' = if c then { m with journal := m.journal.add o } else m) :
    (m.handIf c o).Brings m.journal m'.journal (.ok m') := by
  subst hm'
  unfold handIf
  split
  · exact m.brings_hand o
  · exact brings_pure _ _

/-- The monitor after outputs on what a transaction held. -/
def withHeld (os : List Output) : Monitor :=
  { m with
    journal := m.journal.addAll os
    stats := { m.stats with heldRecords := m.stats.heldRecords + Output.recordCount os } }

theorem withHeld_record (r : Record) (os : List Output) :
    ({ m with
      journal := m.journal.add (.record r)
      stats := { m.stats with heldRecords := m.stats.heldRecords + 1 } } : Monitor).withHeld os =
      m.withHeld (.record r :: os) := by
  have hcount : Output.recordCount (.record r :: os) = 1 + Output.recordCount os := by
    unfold Output.recordCount
    rw [List.countP_cons, Nat.add_comm]
    rfl
  unfold withHeld
  rw [hcount, ← Nat.add_assoc]
  rfl

theorem brings_emitHeld (txn : Nat) (time : UInt64) (seen : List Nat) (ts : List Txn) :
    (emitHeld txn time seen ts m).Brings m.journal
      (m.withHeld (m.locks.heldOutputs txn time seen ts)).journal
      (.ok (m.withHeld (m.locks.heldOutputs txn time seen ts))) := by
  induction ts generalizing seen m with
  | nil => exact brings_pure _ _
  | cons t ts ih =>
    unfold emitHeld LockStore.heldOutputs
    cases m.locks.get? t.lock with
    | none => exact (m.brings_hand _).bind (ih _ seen)
    | some lock =>
      simp only
      by_cases hheld : lock.isHeld
      · simp only [if_pos hheld]
        cases lock.history with
        | nil => exact (m.brings_hand _).bind (ih _ seen)
        | cons latest _ =>
          cases lock.subLocks.id? t.side with
          | none => exact ih m seen
          | some id =>
            by_cases hid : id ∈ seen
            · simp only [if_pos hid]
              exact ih m seen
            · -- the row is written first, and then it is counted
              simp only [if_neg hid]
              rw [← withHeld_record]
              exact (m.brings_hand _).bind (ih _ (id :: seen))
      · simp only [if_neg hheld]
        exact (m.brings_hand _).bind (ih _ seen)

theorem brings_emitInto (time : UInt64) (top : Txn) (below : TxnStack) :
    (m.emitInto time top below).Brings m.journal (m.emit time top below).journal
      (.ok (m.emit time top below)) :=
  (m.brings_hand _).bind (brings_emitHeld _ top.id time [] (top :: below).reverse)

theorem brings_closeTopInto (time : UInt64) (top : Txn) (below : TxnStack) :
    (m.closeTopInto time top below).Brings m.journal (m.closeTop time top below).journal
      (.ok (m.closeTop time top below)) := by
  unfold closeTopInto closeTop
  by_cases hempty : m.skipEmpty ∧ top.accesses = 0
  · simp only [if_pos hempty]
    exact (m.brings_hand _).bind (brings_pure _ _)
  · simp only [if_neg hempty]
    exact m.brings_emitInto time top below

theorem brings_purgeReadersInto (key : Nat) (ctx : Int64) (time : UInt64) (s : TxnStack) :
    (m.purgeReadersInto key ctx time s).Brings m.journal (m.purgeReaders key ctx time s).1.journal
      (.ok (m.purgeReaders key ctx time s)) := by
  unfold purgeReadersInto
  rw [purgeReaders_eq]
  simp only [Journal.since_addAll]
  exact (brings_putAll _ _).bind (brings_pure _ _)

theorem brings_unwindInto (key : Nat) (side : Side) (ctx : Int64) (time : UInt64) (purge : Bool)
    (s : TxnStack) :
    (unwindInto key side ctx time purge m s).Brings m.journal
      (unwind key side ctx time purge m s).monitor.journal
      (.ok (unwind key side ctx time purge m s)) := by
  induction s generalizing m with
  | nil => exact brings_pure _ _
  | cons top below ih =>
    unfold unwindInto unwind
    refine (m.brings_closeTopInto time top below).bind ?_
    by_cases hanchor : top.AnchoredAt key side
    · simp only [if_pos hanchor]
      cases purge with
      | true => exact (brings_purgeReadersInto _ key ctx time below).bind (brings_pure _ _)
      | false => exact brings_pure _ _
    · simp only [if_neg hanchor]
      exact (brings_handIf _ rfl).bind ((ih _).bind (brings_pure _ _))

theorem brings_closeTxnInto (key : Nat) (side : Side) (ctx : Int64) (time : UInt64)
    (purge : Bool) :
    (m.closeTxnInto key side ctx time purge).Brings m.journal
      (m.closeTxn key side ctx time purge).2.journal
      (.ok (m.closeTxn key side ctx time purge)) :=
  (m.brings_unwindInto key side ctx time purge (m.stack ctx)).bind (brings_pure _ _)

theorem brings_closeAnywhereInto (key : Nat) (side : Side) (ctx : Int64) (time : UInt64)
    (purge : Bool) :
    (m.closeAnywhereInto key side ctx time purge).Brings m.journal
      (m.closeAnywhere key side ctx time purge).2.journal
      (.ok (m.closeAnywhere key side ctx time purge)) := by
  unfold closeAnywhereInto closeAnywhere
  cases m.holder? key side ctx with
  | some owner => exact m.brings_closeTxnInto key side owner time purge
  | none => exact brings_pure _ _

/-! ### The end of a trace -/

theorem brings_closeContextInto (ctx : Int64) (time : UInt64) (rounds : Nat) :
    (closeContextInto ctx time rounds m).Brings m.journal
      (closeContext ctx time rounds m).journal (.ok (closeContext ctx time rounds m)) := by
  induction rounds generalizing m with
  | zero => exact brings_pure _ _
  | succ rounds ih =>
    unfold closeContextInto closeContext
    cases m.stack ctx with
    | nil => exact brings_pure _ _
    | cons top below =>
      refine (m.brings_hand _).bind ?_
      exact (brings_closeTxnInto _ top.lock top.side ctx time false).bind (ih _)

theorem brings_closeAllInto (time : UInt64) :
    (m.closeAllInto time).Brings m.journal (m.closeAll time).journal (.ok (m.closeAll time)) := by
  unfold closeAllInto closeAll
  generalize m.running.keys = ctxs
  induction ctxs generalizing m with
  | nil => exact brings_pure _ _
  | cons ctx ctxs ih => exact (m.brings_closeContextInto ctx time _).bind (ih _)

/-! ### Lock operations -/

theorem brings_closeSideInto (key : Nat) (side : Side) (ctx : Int64) (time : UInt64)
    (rounds : Nat) :
    (closeSideInto key side ctx time rounds m).Brings m.journal
      (closeSide key side ctx time rounds m).journal
      (.ok (closeSide key side ctx time rounds m)) := by
  induction rounds generalizing m with
  | zero => exact brings_pure _ _
  | succ rounds ih =>
    unfold closeSideInto closeSide
    refine (m.brings_closeAnywhereInto key side ctx time true).bind ?_
    obtain ⟨_ | _, closed⟩ := m.closeAnywhere key side ctx time true
    · exact brings_pure _ _
    · exact ih closed

theorem brings_evictInto (key : Nat) (lock : Lock) (t : Transition) :
    (m.evictInto key lock t).Brings m.journal (m.evict key lock t).journal
      (.ok (m.evict key lock t)) := by
  unfold evictInto evict
  refine (m.brings_report _).bind ?_
  simp only
  have hclose := brings_closeAnywhereInto
    (m.report (t.mismatch .otherSideHeld (lock.describe t.op.side))) key t.op.side.other t.ctx
    t.time true
  generalize closeAnywhere (m.report _) key t.op.side.other t.ctx t.time true = c at hclose ⊢
  obtain ⟨closed, m₁⟩ := c
  have hfailed : (if closed then m₁
      else m₁.report (t.mismatch .flushFailed (lock.describe t.op.side))) =
        if closed = false then m₁.report (t.mismatch .flushFailed (lock.describe t.op.side))
        else m₁ := by
    cases closed <;> rfl
  exact hclose.bind ((m₁.brings_handIf hfailed).bind (brings_closeSideInto _ _ _ _ _ _))

theorem brings_preemptInto (key : Nat) (lock : Lock) (t : Transition) :
    (m.preemptInto key lock t).Brings m.journal (m.preempt key lock t).journal
      (.ok (m.preempt key lock t)) := by
  unfold preemptInto
  refine (m.brings_evictInto key lock t).bind ?_
  cases hget : (m.evict key lock t).locks.get? key with
  | none =>
    have hgone : m.preempt key lock t = m.evict key lock t := by
      unfold evict at hget ⊢
      unfold preempt
      simp only [hget]
    rw [hgone]
    exact brings_pure _ _
  | some live =>
    rw [preempt_of_get? hget]
    apply brings_handIf ((m.evict key lock t).modifyLock key (·.drain t.op.side.other))
    rw [ite_not]
    rfl

theorem brings_missedReleaseInto (key : Nat) (lock : Lock) (t : Transition) :
    (m.missedReleaseInto key lock t).Brings m.journal (m.missedRelease key lock t).journal
      (.ok (m.missedRelease key lock t)) := by
  unfold missedReleaseInto missedRelease
  refine (m.brings_report _).bind ?_
  refine (brings_closeAnywhereInto _ key t.op.side t.ctx t.time false).bind ?_
  simp only
  obtain ⟨_ | _, m₁⟩ := closeAnywhere (m.report _) key t.op.side t.ctx t.time false
  · exact brings_pure _ _
  · exact brings_pure _ _

theorem brings_acquireInto (key : Nat) (lock : Lock) (t : Transition) :
    (m.acquireInto key lock t).Brings m.journal (m.acquire key lock t).1.journal
      (outcome (m.acquire key lock t)) := by
  unfold acquireInto acquire
  cases lock.acquireState t.op.side with
  | contradictory => exact brings_stop _ _
  | otherSideHeld => exact (m.brings_preemptInto key lock t).bind (brings_pure _ _)
  | writerHeld =>
    simp only
    by_cases hrecursive : lock.isRecursive
    · simp only [if_pos hrecursive]
      exact brings_pure _ _
    · simp only [if_neg hrecursive]
      exact (m.brings_missedReleaseInto key lock t).bind (brings_pure _ _)
  | free => exact brings_pure _ _
  | sharedReaders => exact brings_pure _ _

theorem brings_closeReleasedInto (key : Nat) (lock : Lock) (t : Transition) :
    (m.closeReleasedInto key lock t).Brings m.journal (m.closeReleased key lock t).journal
      (.ok (m.closeReleased key lock t)) := by
  unfold closeReleasedInto closeReleased
  simp only
  by_cases hempty : lock.history.isEmpty
  · simp only [if_pos hempty]
    exact m.brings_hand _
  · simp only [if_neg hempty]
    cases m.holder? key t.op.side t.ctx with
    | none => exact m.brings_hand _
    | some owner =>
      refine (m.brings_closeTxnInto key t.op.side owner t.time false).bind ?_
      simp only
      obtain ⟨_ | _, m₁⟩ := m.closeTxn key t.op.side owner t.time false
      · exact brings_pure _ _
      · exact brings_pure _ _

theorem brings_releaseInto (key : Nat) (lock : Lock) (t : Transition) :
    (m.releaseInto key lock t).Brings m.journal (m.release key lock t).journal
      (.ok (m.release key lock t)) := by
  unfold releaseInto release
  refine (m.brings_closeReleasedInto key lock t).bind ?_
  by_cases hcount : lock.count t.op.side = 0
  · simp only [if_pos hcount]
    exact brings_hand _ _
  · simp only [if_neg hcount]
    exact brings_pure _ _

theorem brings_stepInto (key : Nat) (t : Transition) :
    (m.stepInto key t).Brings m.journal (m.step key t).1.journal (outcome (m.step key t)) := by
  unfold stepInto step
  cases m.locks.get? key with
  | none => exact brings_pure _ _
  | some lock =>
    simp only
    by_cases hkind : (lock.setFlags t.flags).kind.supports t.op.side
    · simp only [if_pos hkind]
      cases t.op with
      | acquire side => exact brings_acquireInto (m.modifyLock key (·.setFlags t.flags)) key _ t
      | release side => exact brings_releaseInto (m.modifyLock key (·.setFlags t.flags)) key _ t
    · simp only [if_neg hkind]
      exact brings_hand (m.modifyLock key (·.setFlags t.flags)) _

/-! ### Locks -/

/-- A lock is found or created, or its type is not known. -/
theorem brings_findOrCreateInto (address : UInt64) (label : String) (flags : UInt32)
    (place : UInt64 → Placement) :
    (∃ found, m.findOrCreate address label flags place = .ok found ∧
      (m.findOrCreateInto address label flags place).Brings m.journal found.2.journal
        (.ok found)) ∨
    ∃ cause, m.findOrCreate address label flags place = .error cause ∧
      (m.findOrCreateInto address label flags place).Brings m.journal m.journal
        (.error cause) := by
  unfold findOrCreate findOrCreateInto
  rcases m.locks.findOrCreate address label place with cause | ⟨key, locks, _ | new⟩
  · exact Or.inr ⟨cause, rfl, brings_stop _ _⟩
  · exact Or.inl ⟨_, rfl, brings_pure _ _⟩
  · exact Or.inl ⟨_, rfl, (brings_handAll { m with
      locks := locks.modify key (·.setFlags flags) } _).bind (brings_pure _ _)⟩

theorem brings_freeRangeInto (base size time : UInt64) :
    (m.freeRangeInto base size time).Brings m.journal (m.freeRange base size time).2.journal
      (.ok (m.freeRange base size time)) :=
  (brings_handAll { m with locks := (m.locks.freeRange base size time).store } _).bind
    (brings_pure _ _)

end Monitor

/-! ### Sessions -/

namespace Session

open Writing (brings_pure outcome)

variable (s : Session)

theorem brings_writeAccessInto (a : PendingAccess) :
    (s.writeAccessInto a).Brings s.journal (s.writeAccess a).journal (.ok (s.writeAccess a)) :=
  ((s.monitor.countAccess a.ctx).brings_hand _).bind (brings_pure _ _)

theorem brings_writeAccessesInto (as : List PendingAccess) :
    (writeAccessesInto s as).Brings s.journal (as.foldl writeAccess s).journal
      (.ok (as.foldl writeAccess s)) := by
  induction as generalizing s with
  | nil => exact brings_pure _ _
  | cons a as ih => exact (s.brings_writeAccessInto a).bind (ih _)

theorem brings_flushInto (lock : Option (UInt64 × Int64)) :
    (s.flushInto lock).Brings s.journal (s.flush lock).journal (.ok (s.flush lock)) :=
  brings_writeAccessesInto { s with pending := [], discarded := _ } _

theorem brings_lockEventInto (e : Event) (op : LockOp) (irqSync : IrqSync) (flags : UInt32) :
    (s.lockEventInto e op irqSync flags).Brings s.journal
      (s.lockEvent e op irqSync flags).1.journal (outcome (s.lockEvent e op irqSync flags)) := by
  unfold lockEventInto lockEvent
  by_cases hunseen : op.isAcquire = false ∧ s.monitor.locks.find? e.address = none
  · simp only [if_pos hunseen]
    exact (s.monitor.brings_hand _).bind (brings_pure _ _)
  · simp only [if_neg hunseen]
    rcases s.monitor.brings_findOrCreateInto e.address e.typeName flags s.place with
      ⟨⟨key, m⟩, heq, hfound⟩ | ⟨cause, heq, hstop⟩
    · rw [heq]
      exact hfound.bind ((m.brings_stepInto key _).map_outcome fun m => { s with monitor := m })
    · rw [heq]
      exact hstop.bind_error

theorem brings_flushedLockEventInto (e : Event) (op : LockOp) (irqSync : IrqSync)
    (flags : UInt32) :
    (s.flushedLockEventInto e op irqSync flags).Brings s.journal
      (s.flushedLockEvent e op irqSync flags).1.journal
      (outcome (s.flushedLockEvent e op irqSync flags)) := by
  unfold flushedLockEventInto flushedLockEvent
  by_cases hignored : e.typeName ∈ ignoredTypes
  · simp only [if_pos hignored]
    exact brings_pure _ _
  · simp only [if_neg hignored]
    exact (s.brings_flushInto _).bind (brings_lockEventInto _ e op irqSync flags)

theorem brings_allocEventInto (e : Event) (size : UInt64) :
    (s.allocEventInto e size).Brings s.journal (s.allocEvent e size).journal
      (.ok (s.allocEvent e size)) :=
  (s.monitor.brings_handAll _).bind (brings_pure _ _)

theorem brings_freeEventInto (e : Event) :
    (s.freeEventInto e).Brings s.journal (s.freeEvent e).journal (.ok (s.freeEvent e)) := by
  unfold freeEventInto freeEvent
  refine (s.monitor.brings_handAll _).bind ?_
  simp only
  cases (s.heap.free e.address e.time).answer with
  | none => exact brings_pure _ _
  | some a => exact (Monitor.brings_freeRangeInto _ a.base a.size e.time).bind (brings_pure _ _)

/-- An event with a sink at hand is the same event. -/
theorem brings_follow (e : Event) :
    (s.follow e).Brings s.journal (s.step e).1.journal (outcome (s.step e)) := by
  unfold follow step
  cases e.operation with
  | access kind size => exact brings_pure _ _
  | alloc size =>
    exact ((s.note e).brings_flushInto none).bind (brings_allocEventInto _ e size)
  | free => exact ((s.note e).brings_flushInto none).bind (brings_freeEventInto _ e)
  | acquire side irqSync flags => exact (s.note e).brings_flushedLockEventInto e _ irqSync flags
  | release side flags => exact (s.note e).brings_flushedLockEventInto e _ .none flags

/-- So is the end of the trace. -/
theorem brings_conclude : s.conclude.Brings s.journal s.finish.journal (.ok s.finish) := by
  unfold conclude finish
  refine (s.brings_flushInto none).bind ?_
  simp only
  have hidle : (if (s.flush none).monitor.isIdle then (s.flush none).monitor
      else (s.flush none).monitor.remark (.closing (s.flush none).lastTime)) =
        if (s.flush none).monitor.isIdle = false then
          (s.flush none).monitor.remark (.closing (s.flush none).lastTime)
        else (s.flush none).monitor := by
    cases (s.flush none).monitor.isIdle <;> rfl
  refine (Monitor.brings_handIf _ hidle).bind ?_
  refine (Monitor.brings_closeAllInto _ (s.flush none).lastTime).bind ?_
  exact (Monitor.brings_handAll _ _).bind (brings_pure _ _)

/-- Events and the end of the trace, if none of them is the last. -/
def complete (s : Session) (es : List Event) : Session × Option Fatal :=
  match s.run es with
  | (s, none) => (s.finish, none)
  | (s, some cause) => (s, some cause)

/-- A whole trace with a sink at hand is the same trace. -/
theorem brings_followAll (es : List Event) :
    (s.followAll es).Brings s.journal (s.complete es).1.journal (outcome (s.complete es)) := by
  induction es generalizing s with
  | nil => exact s.brings_conclude
  | cons e es ih =>
    have hfollow := s.brings_follow e
    unfold followAll complete run
    generalize s.step e = after at hfollow ⊢
    obtain ⟨s', _ | cause⟩ := after
    · exact hfollow.bind (ih s')
    · exact hfollow.bind_error

end Session

end LockTrace
