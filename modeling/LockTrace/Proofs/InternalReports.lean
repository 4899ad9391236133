import LockTrace.Proofs.Faults
import LockTrace.Proofs.Sessions

/-!
# Reports that never come

Some reports would not be about the trace. They would say that the books of the monitor, which
are its counts, its positions and its stacks, do not agree among themselves. No session makes
such a report, whatever the trace (`reports_of_run`).

That a transaction belongs to a lock that is gone is reported, but only once memory was freed in
which a lock was held, and this was reported then (`Monitor.Orderly`). Locks go in no other way.
So as long as no such memory was freed, all open transactions have their locks
(`Monitor.Live`), also halfway through an operation and while the last of them are closed.
-/

namespace LockTrace

/-- The names of the reports that would be about the books and not about the trace. -/
def Inconsistency.internalNames : List String :=
  ["flush_failed", "inconsistent_count", "lock_not_held", "missing_position", "side_mismatch"]

/-- A report on the trace. -/
def Inconsistency.External (i : Inconsistency) : Prop := i.name ∉ internalNames

theorem Inconsistency.AboutHeap.external {i : Inconsistency} (h : i.AboutHeap) : i.External := by
  unfold Inconsistency.External internalNames
  cases i <;> first | exact h.elim | simp [name]

theorem Lock.external_of_mem_faults {l : Lock} {t : Transition} {fault : OperationFault}
    (h : fault ∈ l.faults t) : fault.name ∉ Inconsistency.internalNames := by
  have hfault : fault ≠ .flushFailed := by
    rintro rfl
    unfold faults at h
    split at h
    · split at h
      · split at h
        · simp at h
        · split at h <;> simp at h
      · split at h
        · split at h <;> simp at h
        · simp at h
    · simp at h
  cases fault <;> first | exact absurd rfl hfault | decide

/-! ### Transactions whose lock is gone -/

namespace LockStore

theorem exists_of_dangling_mem_heldOutputs {locks : LockStore} {s : List Txn} {txn id : Nat}
    {time time' : UInt64} {seen : List Nat}
    (h : Output.report (.danglingLock time' id) ∈ locks.heldOutputs txn time seen s) :
    ∃ t ∈ s, locks.get? t.lock = none := by
  induction s generalizing seen with
  | nil => cases h
  | cons t ts ih =>
    cases hget : locks.get? t.lock with
    | none => exact ⟨t, List.mem_cons_self, hget⟩
    | some lock =>
      have hlater : ∃ seen, Output.report (.danglingLock time' id) ∈
          locks.heldOutputs txn time seen ts := by
        simp only [heldOutputs, hget] at h
        split at h
        · split at h
          · exact ⟨seen, (List.mem_cons.mp h).resolve_left (by simp)⟩
          · exact ⟨seen, h⟩
          · split at h
            · exact ⟨seen, h⟩
            · exact ⟨_, (List.mem_cons.mp h).resolve_left (by simp)⟩
        · exact ⟨seen, (List.mem_cons.mp h).resolve_left (by simp)⟩
      obtain ⟨seen', hlater⟩ := hlater
      obtain ⟨u, hu, hdead⟩ := ih hlater
      exact ⟨u, List.mem_cons_of_mem _ hu, hdead⟩

theorem exists_of_dangling_mem_closeOutputs {locks : LockStore} {skipEmpty : Bool} {top : Txn}
    {below : TxnStack} {time time' : UInt64} {id : Nat}
    (h : Output.report (.danglingLock time' id) ∈ locks.closeOutputs skipEmpty time top below) :
    ∃ t ∈ top :: below, locks.get? t.lock = none := by
  unfold closeOutputs at h
  split at h
  · simp at h
  · obtain ⟨t, ht, hdead⟩ :=
      exists_of_dangling_mem_heldOutputs ((List.mem_cons.mp h).resolve_left (by simp))
    exact ⟨t, List.mem_reverse.mp ht, hdead⟩

theorem exists_of_dangling_mem_unwindOutputs {locks : LockStore} {skipEmpty : Bool} {key : Nat}
    {side : Side} {ctx : Int64} {time time' : UInt64} {purge : Bool} {s : TxnStack} {id : Nat}
    (h : Output.report (.danglingLock time' id) ∈
      locks.unwindOutputs skipEmpty key side ctx time purge s) :
    ∃ t ∈ s, locks.get? t.lock = none := by
  induction s with
  | nil => cases h
  | cons top below ih =>
    rw [unwindOutputs] at h
    rcases List.mem_append.mp h with h | h
    · exact exists_of_dangling_mem_closeOutputs h
    · split at h
      · split at h
        · simp [purgeOutputs] at h
        · cases h
      · rcases List.mem_append.mp h with h | h
        · unfold mismatchOutputs at h
          split at h <;> simp at h
        · obtain ⟨t, ht, hdead⟩ := ih h
          exact ⟨t, List.mem_cons_of_mem _ ht, hdead⟩

/-! ### Freeing memory -/

theorem freedReport?_eq_some_iff {l : Lock} {time base : UInt64} {i : Inconsistency} :
    freedReport? l time base = some i ↔ l.isHeld = true ∧
      i = .heldLockFreed (l.describe (if 0 < l.writers then .writer else .reader)) time base := by
  unfold freedReport?
  split
  · next hheld => simp [hheld, eq_comm]
  · next hidle => simp [hidle]

theorem exists_of_mem_reports_freeRange {locks : LockStore} {base size time : UInt64}
    {i : Inconsistency} (h : i ∈ (locks.freeRange base size time).reports) :
    ∃ text, i = .heldLockFreed text time base := by
  obtain ⟨e, _, hreport⟩ := List.mem_filterMap.mp h
  obtain ⟨lock, _, hreport⟩ := Option.bind_eq_some_iff.mp hreport
  exact ⟨_, (freedReport?_eq_some_iff.mp hreport).2⟩

end LockStore

/-- Memory was freed in which a lock was held. -/
def Output.HeldFreed (os : List Output) : Prop :=
  ∃ lock time base, .report (.heldLockFreed lock time base) ∈ os

namespace Monitor

/-- The locks of all open transactions are live. -/
def Live (m : Monitor) : Prop := ∀ t ∈ m.openTxns, m.locks.get? t.lock ≠ none

theorem Live.of_anchors {m m' : Monitor} (h : m.Live)
    (hopen : ∀ t ∈ m'.openTxns, ∃ u ∈ m.openTxns, u.lock = t.lock)
    (hlocks : ∀ key, m.locks.get? key ≠ none → m'.locks.get? key ≠ none) : m'.Live := by
  intro t ht
  obtain ⟨u, hu, hlock⟩ := hopen t ht
  rw [← hlock]
  exact hlocks u.lock (h u hu)

theorem Live.closeTxn {m : Monitor} (h : m.Live) (key : Nat) (side : Side) (ctx : Int64)
    (time : UInt64) (purge : Bool) : (m.closeTxn key side ctx time purge).2.Live := by
  apply h.of_anchors
  · intro t ht
    obtain ⟨u, hu, hlock, _⟩ := exists_of_mem_openTxns_closeTxn ht
    exact ⟨u, hu, hlock⟩
  · intro k hk
    rw [locks_closeTxn]
    exact hk

/-- That a lock is gone is reported only after the report that it was held when its memory was
    freed, and until then none is gone. -/
structure Orderly (m : Monitor) : Prop where
  ordered : ∀ before time txn after,
    m.outputs = before ++ .report (.danglingLock time txn) :: after → Output.HeldFreed before
  live : Output.HeldFreed m.outputs ∨ m.Live

theorem Orderly.of_append {m m' : Monitor} (h : m.Orderly) {os : List Output}
    (houtputs : m'.outputs = m.outputs ++ os)
    (hdangling : ∀ time txn, .report (.danglingLock time txn) ∈ os → ¬ m.Live)
    (hlive : m.Live → Output.HeldFreed os ∨ m'.Live) : m'.Orderly := by
  have hmono : ∀ {as bs : List Output}, Output.HeldFreed as → as ⊆ bs → Output.HeldFreed bs := by
    rintro as bs ⟨lock, time, base, hmem⟩ hsub
    exact ⟨lock, time, base, hsub hmem⟩
  constructor
  · intro before time txn after heq
    have hnew : .report (.danglingLock time txn) ∈ os → Output.HeldFreed m.outputs :=
      fun hmem => h.live.resolve_right (hdangling time txn hmem)
    rw [houtputs] at heq
    rcases List.append_eq_append_iff.mp heq with ⟨bs, rfl, hos⟩ | ⟨bs, hold, hrest⟩
    · have hmem : .report (.danglingLock time txn) ∈ os := by simp [hos]
      exact hmono (hnew hmem) (by simp)
    · cases bs with
      | nil =>
        have hmem : .report (.danglingLock time txn) ∈ os := by
          rw [List.nil_append] at hrest
          simp [← hrest]
        rw [List.append_nil] at hold
        exact hold ▸ hnew hmem
      | cons o bs =>
        obtain ⟨rfl, _⟩ := List.cons.inj hrest
        exact h.ordered before time txn bs hold
  · rw [houtputs]
    rcases h.live with hfreed | hall
    · exact Or.inl (hmono hfreed (by simp))
    · exact (hlive hall).imp (fun hfreed => hmono hfreed (by simp)) id

theorem Orderly.of_same {m m' : Monitor} (h : m.Orderly) (houtputs : m'.outputs = m.outputs)
    (hlive : m.Live → m'.Live) : m'.Orderly := by
  apply h.of_append (houtputs.trans (List.append_nil _).symm) (by simp)
  exact fun hall => Or.inr (hlive hall)

theorem Orderly.withOutputs {m : Monitor} (h : m.Orderly) {os : List Output}
    (hos : ∀ time txn, .report (.danglingLock time txn) ∉ os) : (m.withOutputs os).Orderly :=
  h.of_append (m.outputs_withOutputs os) (fun time txn hmem => absurd hmem (hos time txn)) Or.inr

theorem Orderly.closeTxn {m : Monitor} (h : m.Orderly) (key : Nat) (side : Side) (ctx : Int64)
    (time : UInt64) (purge : Bool) : (m.closeTxn key side ctx time purge).2.Orderly := by
  apply h.of_append (m.outputs_closeTxn key side ctx time purge)
  · intro time' txn hmem hlive
    obtain ⟨t, ht, hdead⟩ := LockStore.exists_of_dangling_mem_unwindOutputs hmem
    exact hlive t (mem_openTxns_iff.mpr ⟨ctx, ht⟩) hdead
  · exact fun hlive => Or.inr (hlive.closeTxn key side ctx time purge)

/-- An operation on a live lock takes no lock from a transaction, and reports none as gone but
    where it closes transactions. -/
theorem Orderly.step {m : Monitor} (h : m.Orderly) (key : Nat) (t : Transition) :
    (m.step key t).1.Orderly := by
  cases hget : m.locks.get? key with
  | none => simpa [Monitor.step, hget] using h
  | some lock =>
    have hkey : m.locks.get? key ≠ none := by simp [hget]
    have hmodify : ∀ (m : Monitor) (f : Lock → Lock) (k : Nat), m.locks.get? k ≠ none →
        (m.modifyLock key f).locks.get? k ≠ none := by
      intro m f k hk
      have heq : (m.modifyLock key f).locks.get? k =
          if key = k then (m.locks.get? k).map f else m.locks.get? k := LockStore.get?_modify ..
      rw [heq]
      split
      · simpa using hk
      · exact hk
    have hboth : (m.step key t).1.Orderly ∧ (m.step key t).1.locks.get? key ≠ none := by
      apply step_induction (P := fun m => m.Orderly ∧ m.locks.get? key ≠ none)
      · rintro m i hi ⟨hm, hlock⟩
        refine ⟨?_, hlock⟩
        rw [report_eq_withOutputs]
        apply hm.withOutputs
        intro time txn hmem
        cases List.mem_singleton.mp hmem
        exact hi
      · rintro m f _ ⟨hm, hlock⟩
        refine ⟨?_, hmodify m f key hlock⟩
        refine hm.of_same rfl ?_
        intro hlive
        exact hlive.of_anchors (fun t ht => ⟨t, ht, rfl⟩) (hmodify m f)
      · rintro m ⟨hm, hlock⟩
        refine ⟨?_, hlock⟩
        refine hm.of_same rfl ?_
        intro hlive u hu
        rcases List.mem_cons.mp ((m.openTxns_openTxn_perm _ _ _ _).subset hu) with rfl | hu
        · exact hlock
        · exact hlive u hu
      · rintro m side owner purge ⟨hm, hlock⟩ _
        refine ⟨hm.closeTxn key side owner t.time purge, ?_⟩
        rw [locks_closeTxn]
        exact hlock
      · exact ⟨h, hkey⟩
    exact hboth.1

/-- If a lock goes that has a transaction, it was held. -/
theorem Orderly.freeRange {m : Monitor} (h : m.Orderly) (hm : m.InStep) (base size time : UInt64) :
    (m.freeRange base size time).2.Orderly := by
  apply h.of_append (m.outputs_freeRange base size time)
  · intro time' txn hmem
    obtain ⟨i, hi, heq⟩ := List.mem_map.mp hmem
    obtain ⟨text, rfl⟩ := LockStore.exists_of_mem_reports_freeRange hi
    cases heq
  · intro hlive
    by_cases hall : (m.freeRange base size time).2.Live
    · exact Or.inr hall
    · unfold Live at hall
      push Not at hall
      obtain ⟨t, ht, hgone⟩ := hall
      obtain ⟨lock, hget⟩ := Option.ne_none_iff_exists'.mp (hlive t ht)
      have hafter : (m.locks.freeRange base size time).store.get? t.lock = none := hgone
      rw [LockStore.store_freeRange, LockStore.get?_removeAll, hget] at hafter
      split at hafter
      · next hdoomed =>
        obtain ⟨e, he, hkey⟩ := List.mem_map.mp hdoomed
        obtain ⟨lock', _, hget', hheld, _⟩ := hm.backs ht hget
        rw [hget] at hget'
        cases hget'
        have hreport : .heldLockFreed
            (lock.describe (if 0 < lock.writers then .writer else .reader)) time base ∈
              (m.locks.freeRange base size time).reports := by
          refine List.mem_filterMap.mpr ⟨e, he, ?_⟩
          rw [hkey, hget]
          exact LockStore.freedReport?_eq_some_iff.mpr ⟨hheld, rfl⟩
        exact Or.inl ⟨_, time, base, List.mem_map_of_mem hreport⟩
      · cases hafter

/-! ### All reports of a monitor -/

/-- All reports so far are on the trace. -/
structure Sound (m : Monitor) : Prop where
  orderly : m.Orderly
  external : ∀ i ∈ m.faults, i.External

namespace Sound

variable {m : Monitor}

theorem initial (skipEmpty : Bool) : (Monitor.initial skipEmpty).Sound where
  orderly := by
    constructor
    · intro before time txn after heq
      have hlength := congrArg List.length heq
      simp [Monitor.initial, outputs, EmptyCollection.emptyCollection] at hlength
    · refine Or.inr ?_
      intro t ht
      cases ht
  external i hi := by cases hi

theorem withOutputs (h : m.Sound) {os : List Output}
    (hos : ∀ i, .report i ∈ os → i.External ∧ ∀ time txn, i ≠ .danglingLock time txn) :
    (m.withOutputs os).Sound where
  orderly := h.orderly.withOutputs fun time txn hmem => (hos _ hmem).2 time txn rfl
  external i hi := by
    unfold faults at hi
    rw [outputs_withOutputs, List.filterMap_append] at hi
    rcases List.mem_append.mp hi with hi | hi
    · exact h.external i hi
    · obtain ⟨o, ho, heq⟩ := List.mem_filterMap.mp hi
      unfold Output.fault? at heq
      split at heq
      · cases heq
      · cases heq
        exact (hos i ho).1
      · cases heq

theorem of_plain (h : m.Sound) {os : List Output} (hplain : ∀ o ∈ os, o.Plain) :
    (m.withOutputs os).Sound := by
  apply h.withOutputs
  intro i hi
  have habout : i.AboutHeap := hplain _ hi
  refine ⟨habout.external, ?_⟩
  rintro time txn rfl
  exact habout

theorem locks (h : m.Sound) {store : LockStore}
    (hlocks : ∀ key, m.locks.get? key ≠ none → store.get? key ≠ none) :
    { m with locks := store }.Sound where
  orderly := by
    refine h.orderly.of_same rfl ?_
    intro hlive
    exact hlive.of_anchors (fun t ht => ⟨t, ht, rfl⟩) hlocks
  external := h.external

theorem withLock (h : m.Sound) (address : UInt64) (label : String) (kind : LockKind)
    (flags : UInt32) (placement : Placement) :
    (m.withLock address label kind flags placement).Sound := by
  have hrows : (m.withOutputs (lockRows
      ((m.locks.newLock address label kind placement).setFlags flags))).Sound := by
    apply h.withOutputs
    intro i hi
    obtain ⟨_, _, hrecord⟩ := List.mem_map.mp hi
    cases hrecord
  apply hrows.locks
  intro key hkey
  rw [LockStore.get?_modify, LockStore.get?_create]
  by_cases hnew : m.locks.keys.next = key
  · simp [hnew]
  · rw [if_neg hnew, if_neg hnew]
    exact hkey

theorem step (h : m.Sound) (hm : m.InStep) (key : Nat) (t : Transition) :
    (m.step key t).1.Sound where
  orderly := h.orderly.step key t
  external := by
    cases hget : m.locks.get? key with
    | none =>
      have hsame : (m.step key t).1 = m := by simp [Monitor.step, hget]
      rw [hsame]
      exact h.external
    | some lock =>
      obtain ⟨extra, heq, hextra⟩ := faults_step hm hget t
      intro i hi
      rw [heq] at hi
      rcases List.mem_append.mp hi with hi | hi
      · exact h.external i hi
      rcases List.mem_append.mp hi with hi | hi
      · obtain ⟨fault, hfault, rfl⟩ := List.mem_map.mp hi
        exact Lock.external_of_mem_faults hfault
      · obtain ⟨_, _, ctx, rfl⟩ := hextra i hi
        simp [Inconsistency.External, Inconsistency.internalNames, Inconsistency.name]

theorem freeRange (h : m.Sound) (hm : m.InStep) (base size time : UInt64) :
    (m.freeRange base size time).2.Sound where
  orderly := h.orderly.freeRange hm base size time
  external i hi := by
    unfold faults at hi
    rw [outputs_freeRange, List.filterMap_append] at hi
    rcases List.mem_append.mp hi with hi | hi
    · exact h.external i hi
    · obtain ⟨o, ho, heq⟩ := List.mem_filterMap.mp hi
      obtain ⟨j, hj, rfl⟩ := List.mem_map.mp ho
      obtain ⟨text, rfl⟩ := LockStore.exists_of_mem_reports_freeRange hj
      cases heq
      simp [Inconsistency.External, Inconsistency.internalNames, Inconsistency.name]

theorem access (h : m.Sound) (ctx : Int64) (row : AccessRow) :
    ((m.countAccess ctx).write (.access row)).Sound where
  orderly := by
    have houtputs : ((m.countAccess ctx).write (.access row)).outputs =
        m.outputs ++ [.record (.access row)] := outputs_write _ _
    apply h.orderly.of_append houtputs (by simp)
    intro hlive
    refine Or.inr (hlive.of_anchors ?_ fun _ hkey => hkey)
    intro t ht
    obtain ⟨u, hu, hshape⟩ := exists_of_mem_openTxns_countAccess ctx ht
    have hlock : u.shape.lock = t.shape.lock := by rw [hshape]
    exact ⟨u, hu, hlock⟩
  external i hi := by
    unfold faults at hi
    rw [outputs_write, List.filterMap_append] at hi
    exact h.external i ((List.mem_append.mp hi).resolve_right (by simp [Output.fault?]))

/-- The transactions that are left at the end are closed, each the innermost of its context. -/
theorem closeAll (h : m.Sound) (hm : m.Grounded) (time : UInt64) : (m.closeAll time).Sound := by
  have hboth : (m.closeAll time).Sound ∧ (m.closeAll time).Grounded := by
    apply closeAll_induction (P := fun m => m.Sound ∧ m.Grounded)
    · rintro m count ctx ⟨hsound, hgrounded⟩
      have hplain : ∀ o ∈ [Output.remark (.stillActive count ctx)], o.Plain :=
        List.forall_mem_singleton.mpr trivial
      exact ⟨hsound.of_plain hplain, hgrounded⟩
    · rintro m ctx top below ⟨hsound, hgrounded⟩ hstack
      refine ⟨⟨hsound.orderly.closeTxn top.lock top.side ctx time false, ?_⟩,
        hgrounded.closeTxn top.lock top.side ctx time false⟩
      have hall : ∀ t ∈ top :: below, m.locks.Grounds t := by
        intro t ht
        exact hgrounded t (mem_openTxns_iff.mpr ⟨ctx, hstack ▸ ht⟩)
      have hfaults : (m.closeTxn top.lock top.side ctx time false).2.faults = m.faults := by
        unfold faults
        rw [outputs_closeTxn, hstack, LockStore.unwindOutputs_cons_self, List.filterMap_append,
          LockStore.faults_closeOutputs hall, List.append_nil]
      rw [hfaults]
      exact hsound.external
    · exact ⟨h, hm⟩
  exact hboth.1

end Sound

theorem kept_sound : Kept fun m => m.InStep ∧ m.Sound := fun _ => {
  plain h hplain := ⟨h.1.withOutputs _, h.2.of_plain hplain⟩
  unseen lock op time ctx h := by
    refine ⟨h.1.report _, ?_⟩
    rw [report_eq_withOutputs]
    apply h.2.withOutputs
    intro i hi
    cases List.mem_singleton.mp hi
    refine ⟨?_, by simp⟩
    simp [Inconsistency.External, Inconsistency.internalNames, Inconsistency.name,
      OperationFault.name]
  access ctx row h := ⟨(h.1.countAccess ctx).withOutputs [_], h.2.access ctx row⟩
  withLock address label kind flags placement _ h :=
    ⟨h.1.withLock address label kind flags placement,
      h.2.withLock address label kind flags placement⟩
  freeRange base size time h := ⟨h.1.freeRange base size time, h.2.freeRange h.1 base size time⟩
  operate key t _ h := ⟨h.1.step key t, h.2.step h.1 key t⟩ }

end Monitor

/-! ### Whole traces -/

theorem Monitor.Sound.external_of_mem_reports {m : Monitor} (h : m.Sound) {i : Inconsistency}
    (hi : i ∈ m.journal.reports) : i.External := by
  obtain ⟨o, ho, heq⟩ := List.mem_filterMap.mp hi
  have hreport : o = .report i := by
    cases o with
    | report j => exact congrArg Output.report (Option.some.inj heq)
    | record r => cases heq
    | remark r => cases heq
  by_cases hdangling : ∃ time txn, i = .danglingLock time txn
  · obtain ⟨time, txn, rfl⟩ := hdangling
    simp [Inconsistency.External, Inconsistency.internalNames, Inconsistency.name]
  · apply h.external i
    refine List.mem_filterMap.mpr ⟨o, ho, ?_⟩
    rw [hreport]
    unfold Output.fault?
    split
    · next heq =>
      cases heq
      exact absurd ⟨_, _, rfl⟩ hdangling
    · next heq =>
      cases heq
      rfl
    · next hnot => exact absurd rfl (hnot i)

/-- Neither an event of a trace nor its end is reported as a disagreement of the books, and that
    a lock is gone only after it was reported that the lock was held when its memory was freed. -/
theorem Session.reports_of_run (config : Config) (symbols : SymbolTable) (es : List Event) :
    let s := ((Session.initial config symbols).run es).1
    ∀ j ∈ [s.journal, s.finish.journal],
      (∀ i ∈ j.reports, i.name ∉ Inconsistency.internalNames) ∧
      ∀ before time txn after,
        j.outputs.toList = before ++ .report (.danglingLock time txn) :: after →
        ∃ lock time' base, .report (.heldLockFreed lock time' base) ∈ before := by
  intro s j hj
  have hstart : (Session.initial config symbols).monitor.InStep ∧
      (Session.initial config symbols).monitor.Sound :=
    ⟨inStep_initial config symbols, .initial config.skipEmpty⟩
  have hrun : s.monitor.InStep ∧ s.monitor.Sound := Monitor.kept_sound.run hstart es
  have hfinish : s.finish.monitor.Sound :=
    Monitor.kept_sound.finish hrun (fun time h => h.2.closeAll h.1.grounded time)
      fun h hplain => h.of_plain hplain
  have hsound : ∃ m : Monitor, m.Sound ∧ j = m.journal := by
    rcases List.mem_cons.mp hj with rfl | hj
    · exact ⟨s.monitor, hrun.2, rfl⟩
    · exact ⟨s.finish.monitor, hfinish, List.mem_singleton.mp hj⟩
  obtain ⟨m, hm, rfl⟩ := hsound
  exact ⟨fun i hi => hm.external_of_mem_reports hi, hm.orderly.ordered⟩

/-- A lock is held and under it memory is read. Then the memory around the lock is freed, and the
    trace ends. -/
def Session.freedHold : List Event :=
  [⟨1, 1, .alloc 64, 0x100, "inode", Site.unknown, 0⟩,
    ⟨2, 1, .acquire .writer .none 0, 0x110, "spinlock_t", Site.unknown, 0⟩,
    ⟨3, 1, .access .read 4, 0x120, "", Site.unknown, 0⟩,
    ⟨4, 1, .free, 0x100, "inode", Site.unknown, 0⟩]

theorem Session.reports_of_freedHold :
    let s := ((Session.initial .default ∅).run freedHold).1
    ∃ before after, s.finish.journal.outputs.toList =
        before ++ .report (.danglingLock 4 1) :: after ∧
      ∃ lock time base, .report (.heldLockFreed lock time base) ∈ before := by
  intro s
  have hmem : Output.report (.danglingLock 4 1) ∈ s.finish.journal.outputs.toList := by
    decide +kernel
  obtain ⟨before, after, hsplit⟩ := List.append_of_mem hmem
  have hfreed := (Session.reports_of_run .default ∅ freedHold s.finish.journal (by simp [s])).2
    before 4 1 after hsplit
  exact ⟨before, after, hsplit, hfreed⟩

end LockTrace
