import LockTrace.Proofs.LockRows
import LockTrace.Proofs.Reopenings

/-!
# What is told of a transaction that is written

The row of a transaction is followed by rows on what it held. Which sub-locks these are is told
by the stack from the transaction downwards and by the locks as they are at that moment
(`LockStore.TellsHeld`): each anchor whose lock is live, held and has a position gives the number
of its sub-lock, the outermost first and each number once; each other anchor gives a report or
nothing. A transaction that is written while a stack is unwound lies on the part of the stack
that is not yet unwound, and what comes after it begins with another transaction or with nothing
about any (`LockStore.unwindOutputs_split`).
-/

namespace LockTrace

/-! ### Numbers of live sub-locks -/

namespace LockStore

/-- No two live locks have the number of a sub-lock in common, and the next number is new. -/
structure Distinct (s : LockStore) : Prop where
  below : ∀ {key : Nat} {lock : Lock} {side : Side} {id : Nat}, s.get? key = some lock →
    lock.subLocks.id? side = some id → id < s.subLockIds.next
  key_eq : ∀ {key key' : Nat} {lock lock' : Lock} {side side' : Side} {id : Nat},
    s.get? key = some lock → s.get? key' = some lock' → lock.subLocks.id? side = some id →
      lock'.subLocks.id? side' = some id → key = key'

namespace Distinct

variable {s s' : LockStore}

theorem empty : (∅ : LockStore).Distinct where
  below hget := by cases hget
  key_eq hget := by cases hget

theorem of_same (h : s.Distinct) (hids : s'.subLockIds = s.subLockIds)
    (hlocks : ∀ key lock', s'.get? key = some lock' →
      ∃ lock, s.get? key = some lock ∧ lock.Same lock') : s'.Distinct where
  below {key lock' side id} hget' hid := by
    obtain ⟨lock, hget, hsame⟩ := hlocks key lock' hget'
    rw [hids]
    exact h.below hget (hsame.subLocks ▸ hid)
  key_eq {k k' l l' side side' id} hget hget' hid hid' := by
    obtain ⟨lock, hlock, hsame⟩ := hlocks k l hget
    obtain ⟨lock', hlock', hsame'⟩ := hlocks k' l' hget'
    exact h.key_eq hlock hlock' (hsame.subLocks ▸ hid) (hsame'.subLocks ▸ hid')

theorem modify (h : s.Distinct) (key : Nat) {f : Lock → Lock}
    (hf : ∀ lock : Lock, lock.Same (f lock)) : (s.modify key f).Distinct :=
  h.of_same rfl fun _ _ hget => exists_same_of_get?_modify hf hget

theorem freeRange (h : s.Distinct) (base size time : UInt64) :
    (s.freeRange base size time).store.Distinct :=
  h.of_same (subLockIds_freeRange ..) fun _ lock hget =>
    ⟨lock, get?_of_get?_freeRange hget, .refl lock⟩

theorem create (h : s.Distinct) (address : UInt64) (label : String) (kind : LockKind)
    (placement : Placement) : (s.create address label kind placement).store.Distinct := by
  have hnew : ∀ {side id}, (s.newLock address label kind placement).subLocks.id? side = some id →
      s.subLockIds.next ≤ id ∧
        id < (s.create address label kind placement).store.subLockIds.next :=
    fun hid => SubLocks.id?_assign hid
  constructor
  · intro key lock side id hget hid
    rw [get?_create] at hget
    split at hget
    · cases hget
      exact (hnew hid).2
    · exact Nat.lt_of_lt_of_le (h.below hget hid) (SubLocks.next_le_assign kind _)
  · intro k k' l l' side side' id hget hget' hid hid'
    rw [get?_create] at hget hget'
    split at hget <;> split at hget'
    · next hk hk' => exact hk.symm.trans hk'
    · cases hget
      exact absurd (h.below hget' hid') (Nat.not_lt.mpr (hnew hid).1)
    · cases hget'
      exact absurd (h.below hget hid) (Nat.not_lt.mpr (hnew hid').1)
    · exact h.key_eq hget hget' hid hid'

end Distinct

end LockStore

/-! ### Lists that are cut -/

theorem takeWhile_append_of_nil {α : Type} {p : α → Bool} {bs : List α} (h : bs.takeWhile p = [])
    (as : List α) : (as ++ bs).takeWhile p = as.takeWhile p := by
  induction as with
  | nil => exact h
  | cons a as ih => rw [List.cons_append, List.takeWhile_cons, List.takeWhile_cons, ih]

/-- An element of two lists in a row is in the first or in the second. -/
theorem append_eq_split {α : Type} {as bs before after : List α} {a : α}
    (h : as ++ bs = before ++ a :: after) :
    (∃ rest, as = before ++ a :: rest ∧ after = rest ++ bs) ∨
      ∃ first, before = as ++ first ∧ bs = first ++ a :: after := by
  rcases List.append_eq_append_iff.mp h with ⟨first, hbefore, hbs⟩ | ⟨rest, has, hafter⟩
  · exact Or.inr ⟨first, hbefore, hbs⟩
  · cases rest with
    | nil => exact Or.inr ⟨[], by simpa using has.symm, hafter.symm⟩
    | cons a' rest =>
      obtain ⟨rfl, rfl⟩ := List.cons.inj hafter
      exact Or.inl ⟨rest, has, rfl⟩

/-! ### The rows and reports of one transaction -/

def Record.isHeld : Record → Bool
  | .held _ => true
  | _ => false

namespace Output

/-- Whether an output is a row on what a transaction held, or reports why there is none. -/
def isOnHeld : Output → Bool
  | .record (.held _) => true
  | .report (.danglingLock ..) => true
  | .report (.anchor .lockNotHeld ..) => true
  | .report (.anchor .missingPosition ..) => true
  | _ => false

/-- The outputs on what a transaction held end where these begin. -/
structure Breaks (os : List Output) : Prop where
  outputs : os.takeWhile isOnHeld = []
  records : (os.filterMap record?).takeWhile Record.isHeld = []

namespace Breaks

variable {os ps : List Output}

theorem nil : Breaks [] := ⟨rfl, rfl⟩

theorem append (h : Breaks os) (h' : Breaks ps) : Breaks (os ++ ps) where
  outputs := by rw [takeWhile_append_of_nil h'.outputs, h.outputs]
  records := by rw [List.filterMap_append, takeWhile_append_of_nil h'.records, h.records]

theorem of_forall (h : ∀ o ∈ os, o.isOnHeld = false) : Breaks os := by
  induction os with
  | nil => exact nil
  | cons o os ih =>
    have ho := h o List.mem_cons_self
    have hos := ih fun o' ho' => h o' (List.mem_cons_of_mem o ho')
    have hfirst : Breaks [o] := by
      constructor
      · rw [List.takeWhile_cons, ho]
        rfl
      · cases o with
        | record r => cases r <;> first | rfl | cases ho
        | report i => rfl
        | remark r => rfl
    exact hfirst.append hos

end Breaks

end Output

namespace LockStore

/-- The number of the sub-lock at which a transaction is anchored, if the lock is live and held,
    and has a position and the side. -/
def heldId? (locks : LockStore) (t : Txn) : Option Nat :=
  (locks.get? t.lock).bind fun lock =>
    if lock.isHeld = true ∧ lock.history ≠ [] then lock.subLocks.id? t.side else none

/-- What is reported on the anchor of `t` when the transaction `txn` is written: its lock is
    gone, or not held, or held without a position. -/
def heldFault? (locks : LockStore) (time : UInt64) (txn : Nat) (t : Txn) : Option Inconsistency :=
  match locks.get? t.lock with
  | none => some (.danglingLock time txn)
  | some lock =>
    if lock.isHeld = false then some (.anchor .lockNotHeld (lock.describe t.side) time txn)
    else if lock.history = [] then
      some (.anchor .missingPosition (lock.describe t.side) time txn)
    else none

/-- After the row of `top`, which lies on `below`, come a row for each sub-lock that counts as
    held, the outermost first, with the position that its lock has last; and each anchor that
    has a fault is reported. Then comes something else. -/
structure TellsHeld (locks : LockStore) (time : UInt64) (top : Txn) (below : TxnStack)
    (after : List Output) : Prop where
  rows : ∃ rows : List HeldRow,
    (after.filterMap Output.record?).takeWhile Record.isHeld = rows.map .held ∧
    rows.map HeldRow.lock = ((top :: below).reverse.filterMap locks.heldId?).eraseDups ∧
    ∀ row ∈ rows, row.txn = top.id ∧
      ∀ key lock side, locks.get? key = some lock → lock.subLocks.id? side = some row.lock →
        lock.history.head?.map Position.toAcquisition = some row.taken
  reports : (after.takeWhile Output.isOnHeld).filterMap Output.report? =
    (top :: below).reverse.filterMap (locks.heldFault? time top.id)

theorem TellsHeld.append {locks : LockStore} {time : UInt64} {top : Txn} {below : TxnStack}
    {after : List Output} (h : locks.TellsHeld time top below after) {os : List Output}
    (hos : Output.Breaks os) : locks.TellsHeld time top below (after ++ os) where
  rows := by
    rw [List.filterMap_append, takeWhile_append_of_nil hos.records]
    exact h.rows
  reports := by
    rw [takeWhile_append_of_nil hos.outputs]
    exact h.reports

section HeldOutputs

variable (locks : LockStore) (txn : Nat) (time : UInt64)

/-- The row is on the sub-lock at which `t` is anchored. -/
def RowOn (t : Txn) (row : HeldRow) : Prop :=
  row.txn = txn ∧ ∃ lock, locks.get? t.lock = some lock ∧
    lock.subLocks.id? t.side = some row.lock ∧
    lock.history.head?.map Position.toAcquisition = some row.taken

/-- An anchor has a fault, or its sub-lock has its row already or none, or gets one. -/
theorem heldOutputs_cons (seen : List Nat) (t : Txn) (ts : List Txn) :
    (∃ i, locks.heldFault? time txn t = some i ∧ locks.heldId? t = none ∧
      locks.heldOutputs txn time seen (t :: ts) =
        .report i :: locks.heldOutputs txn time seen ts) ∨
    (locks.heldFault? time txn t = none ∧ (∀ id, locks.heldId? t = some id → id ∈ seen) ∧
      locks.heldOutputs txn time seen (t :: ts) = locks.heldOutputs txn time seen ts) ∨
    (∃ row, locks.heldFault? time txn t = none ∧ locks.heldId? t = some row.lock ∧
      row.lock ∉ seen ∧ locks.RowOn txn t row ∧
      locks.heldOutputs txn time seen (t :: ts) =
        .record (.held row) :: locks.heldOutputs txn time (row.lock :: seen) ts) := by
  cases hget : locks.get? t.lock with
  | none =>
    refine Or.inl ⟨.danglingLock time txn, ?_, ?_, ?_⟩
    · simp [heldFault?, hget]
    · simp [heldId?, hget]
    · simp [heldOutputs, hget]
  | some lock =>
    cases hheld : lock.isHeld with
    | false =>
      refine Or.inl ⟨.anchor .lockNotHeld (lock.describe t.side) time txn, ?_, ?_, ?_⟩
      · simp [heldFault?, hget, hheld]
      · simp [heldId?, hget, hheld]
      · simp [heldOutputs, hget, hheld]
    | true =>
      cases hhistory : lock.history with
      | nil =>
        refine Or.inl ⟨.anchor .missingPosition (lock.describe t.side) time txn, ?_, ?_, ?_⟩
        · simp [heldFault?, hget, hheld, hhistory]
        · simp [heldId?, hget, hhistory]
        · simp [heldOutputs, hget, hheld, hhistory]
      | cons latest older =>
        have hfault : locks.heldFault? time txn t = none := by
          simp [heldFault?, hget, hheld, hhistory]
        have hid : locks.heldId? t = lock.subLocks.id? t.side := by
          simp [heldId?, hget, hheld, hhistory]
        cases hside : lock.subLocks.id? t.side with
        | none =>
          refine Or.inr (Or.inl ⟨hfault, ?_, by simp [heldOutputs, hget, hheld, hhistory, hside]⟩)
          intro id hsome
          rw [hid, hside] at hsome
          cases hsome
        | some id =>
          by_cases hseen : id ∈ seen
          · refine Or.inr (Or.inl ⟨hfault, ?_,
              by simp [heldOutputs, hget, hheld, hhistory, hside, hseen]⟩)
            intro id' hsome
            rw [hid, hside] at hsome
            cases hsome
            exact hseen
          · refine Or.inr (Or.inr ⟨⟨txn, id, latest.toAcquisition⟩, hfault, hid.trans hside, hseen,
              ⟨rfl, lock, hget, hside, ?_⟩,
              by simp [heldOutputs, hget, hheld, hhistory, hside, hseen]⟩)
            rw [hhistory]
            rfl

theorem isOnHeld_of_heldFault? {t : Txn} {i : Inconsistency}
    (h : locks.heldFault? time txn t = some i) : (Output.report i).isOnHeld = true := by
  unfold heldFault? at h
  split at h
  · cases h
    rfl
  · split at h
    · cases h
      rfl
    · split at h
      · cases h
        rfl
      · cases h

theorem isOnHeld_of_mem_heldOutputs {seen : List Nat} {s : List Txn} {o : Output}
    (h : o ∈ locks.heldOutputs txn time seen s) : o.isOnHeld = true := by
  induction s generalizing seen with
  | nil => cases h
  | cons t ts ih =>
    rcases locks.heldOutputs_cons txn time seen t ts with
      ⟨i, hfault, _, heq⟩ | ⟨_, _, heq⟩ | ⟨row, _, _, _, _, heq⟩
    · rw [heq] at h
      rcases List.mem_cons.mp h with rfl | h
      · exact isOnHeld_of_heldFault? locks txn time hfault
      · exact ih h
    · rw [heq] at h
      exact ih h
    · rw [heq] at h
      rcases List.mem_cons.mp h with rfl | h
      · rfl
      · exact ih h

theorem reports_heldOutputs (seen : List Nat) (s : List Txn) :
    (locks.heldOutputs txn time seen s).filterMap Output.report? =
      s.filterMap (locks.heldFault? time txn) := by
  induction s generalizing seen with
  | nil => rfl
  | cons t ts ih =>
    rcases locks.heldOutputs_cons txn time seen t ts with
      ⟨i, hfault, _, heq⟩ | ⟨hfault, _, heq⟩ | ⟨row, hfault, _, _, _, heq⟩
    · rw [heq, List.filterMap_cons_some hfault, List.filterMap_cons, ih]
      rfl
    · rw [heq, List.filterMap_cons_none hfault, ih]
    · rw [heq, List.filterMap_cons_none hfault, List.filterMap_cons_none rfl, ih]

/-- The records are rows, one for each number that is not yet seen, in the order in which the
    numbers come first. -/
theorem exists_rows_heldOutputs (seen : List Nat) (s : List Txn) :
    ∃ rows : List HeldRow,
      (locks.heldOutputs txn time seen s).filterMap Output.record? = rows.map .held ∧
      rows.map HeldRow.lock =
        ((s.filterMap locks.heldId?).filter (fun id => decide (id ∉ seen))).eraseDups ∧
      ∀ row ∈ rows, ∃ t, locks.RowOn txn t row := by
  induction s generalizing seen with
  | nil => exact ⟨[], rfl, rfl, by simp⟩
  | cons t ts ih =>
    rcases locks.heldOutputs_cons txn time seen t ts with
      ⟨i, _, hid, heq⟩ | ⟨_, hid, heq⟩ | ⟨row, _, hid, hseen, hrow, heq⟩
    · rw [heq, List.filterMap_cons_none rfl, List.filterMap_cons_none hid]
      exact ih seen
    · have hids : ((t :: ts).filterMap locks.heldId?).filter (fun id => decide (id ∉ seen)) =
          (ts.filterMap locks.heldId?).filter (fun id => decide (id ∉ seen)) := by
        cases hsome : locks.heldId? t with
        | none => rw [List.filterMap_cons_none hsome]
        | some id => rw [List.filterMap_cons_some hsome, List.filter_cons_of_neg (by
            simpa using hid id hsome)]
      rw [heq, hids]
      exact ih seen
    · obtain ⟨rows, hrecords, hids, hrows⟩ := ih (row.lock :: seen)
      refine ⟨row :: rows, ?_, ?_, List.forall_mem_cons.mpr ⟨⟨t, hrow⟩, hrows⟩⟩
      · rw [heq, List.filterMap_cons, hrecords]
        rfl
      · rw [List.filterMap_cons_some hid, List.filter_cons_of_pos (by simpa using hseen),
          List.eraseDups_cons, List.filter_filter, List.map_cons, hids]
        congr 3
        funext id
        by_cases hsame : id = row.lock <;> simp [hsame]

variable {locks}

/-- The outputs on what `top` held, before something else, tell it. -/
theorem tellsHeld_heldOutputs (hdistinct : locks.Distinct) (top : Txn) (below : TxnStack)
    {os : List Output} (hos : Output.Breaks os) :
    locks.TellsHeld time top below
      (locks.heldOutputs top.id time [] (top :: below).reverse ++ os) := by
  have hall : ∀ o ∈ locks.heldOutputs top.id time [] (top :: below).reverse,
      o.isOnHeld = true := fun _ ho => isOnHeld_of_mem_heldOutputs locks top.id time ho
  obtain ⟨rows, hrecords, hids, hrows⟩ :=
    locks.exists_rows_heldOutputs top.id time [] (top :: below).reverse
  have hheld : ∀ r ∈ rows.map Record.held, r.isHeld = true := by
    intro r hr
    obtain ⟨row, _, rfl⟩ := List.mem_map.mp hr
    rfl
  constructor
  · refine ⟨rows, ?_, by simpa using hids, ?_⟩
    · rw [List.filterMap_append, hrecords, List.takeWhile_append_of_pos hheld, hos.records,
        List.append_nil]
    · intro row hrow
      obtain ⟨t, htxn, lock, hget, hid, htaken⟩ := hrows row hrow
      refine ⟨htxn, ?_⟩
      intro key lock' side hget' hid'
      cases hdistinct.key_eq hget hget' hid hid'
      cases hget.symm.trans hget'
      exact htaken
  · rw [List.takeWhile_append_of_pos hall, hos.outputs, List.append_nil]
    exact locks.reports_heldOutputs top.id time [] _

end HeldOutputs

/-! ### The transactions of a stack -/

section Unwind

variable {locks : LockStore} {skipEmpty : Bool} {key : Nat} {side : Side} {ctx : Int64}
  {time : UInt64} {purge : Bool}

theorem breaks_closeOutputs (top : Txn) (below : TxnStack) :
    Output.Breaks (locks.closeOutputs skipEmpty time top below) := by
  unfold closeOutputs
  split
  · exact ⟨rfl, rfl⟩
  · exact ⟨rfl, rfl⟩

theorem breaks_mismatchOutputs (top : Txn) :
    Output.Breaks (locks.mismatchOutputs key time top) := by
  unfold mismatchOutputs
  split
  · exact ⟨rfl, rfl⟩
  · exact .nil

theorem breaks_purgeOutputs (s : TxnStack) : Output.Breaks (locks.purgeOutputs key ctx time s) := by
  apply Output.Breaks.of_forall
  intro o ho
  rcases List.mem_append.mp ho with ho | ho
  · obtain ⟨_, _, rfl⟩ := List.mem_map.mp ho
    rfl
  · obtain ⟨_, _, rfl⟩ := List.mem_map.mp ho
    rfl

theorem breaks_unwindOutputs (s : TxnStack) :
    Output.Breaks (locks.unwindOutputs skipEmpty key side ctx time purge s) := by
  induction s with
  | nil => exact .nil
  | cons top below ih =>
    rw [unwindOutputs]
    apply (breaks_closeOutputs top below).append
    split
    · split
      · exact breaks_purgeOutputs below
      · exact .nil
    · exact (breaks_mismatchOutputs top).append ih

/-- The row of a transaction is the first thing that closing it writes. -/
theorem closeOutputs_split {top : Txn} {below : TxnStack} {before rest : List Output}
    {row : TxnRow}
    (h : locks.closeOutputs skipEmpty time top below = before ++ .record (.txn row) :: rest) :
    before = [] ∧ row = top.row time ∧
      rest = locks.heldOutputs top.id time [] (top :: below).reverse := by
  unfold closeOutputs at h
  split at h
  · have hmem : Output.record (.txn row) ∈ [Output.remark (.suppressed top.id)] := by simp [h]
    cases List.mem_singleton.mp hmem
  · cases before with
    | nil =>
      obtain ⟨hrow, hrest⟩ := List.cons.inj h
      cases hrow
      exact ⟨rfl, rfl, hrest.symm⟩
    | cons o before =>
      have hmem : Output.record (.txn row) ∈
          locks.heldOutputs top.id time [] (top :: below).reverse := by
        rw [(List.cons.inj h).2]
        simp
      cases isOnHeld_of_mem_heldOutputs locks top.id time hmem

theorem txn_not_mem_purgeOutputs (row : TxnRow) (s : TxnStack) :
    Output.record (.txn row) ∉ locks.purgeOutputs key ctx time s := fun h =>
  purgeOutputs_forall (P := (· ≠ .record (.txn row))) locks key ctx time (by simp) (by simp) h rfl

theorem txn_not_mem_mismatchOutputs (row : TxnRow) (top : Txn) :
    Output.record (.txn row) ∉ locks.mismatchOutputs key time top := fun h =>
  mismatchOutputs_forall (P := (· ≠ .record (.txn row))) locks key time (by simp) h rfl

/-- A transaction that is written while a stack is unwound is one of the stack. Those above it
    were closed before, and what follows tells what it held. -/
theorem unwindOutputs_split (hdistinct : locks.Distinct) {s : TxnStack}
    {before after : List Output} {row : TxnRow}
    (h : locks.unwindOutputs skipEmpty key side ctx time purge s =
      before ++ .record (.txn row) :: after) :
    ∃ above top below, s = above ++ top :: below ∧ ¬ TxnStack.HasAnchor above key side ∧
      before.filter Output.isEnding = above.map (Txn.ending skipEmpty time) ∧
      row = top.row time ∧ locks.TellsHeld time top below after := by
  induction s generalizing before with
  | nil => simp [unwindOutputs] at h
  | cons top below ih =>
    have hbreaks : Output.Breaks (if top.AnchoredAt key side then
        if purge then locks.purgeOutputs key ctx time below else []
      else locks.mismatchOutputs key time top ++
        locks.unwindOutputs skipEmpty key side ctx time purge below) := by
      split
      · split
        · exact breaks_purgeOutputs below
        · exact .nil
      · exact (breaks_mismatchOutputs top).append (breaks_unwindOutputs below)
    rw [unwindOutputs] at h
    rcases append_eq_split h with ⟨rest, hclose, rfl⟩ | ⟨first, rfl, htail⟩
    · obtain ⟨rfl, hrow, rfl⟩ := closeOutputs_split hclose
      refine ⟨[], top, below, rfl, by simp [TxnStack.HasAnchor], rfl, hrow, ?_⟩
      exact tellsHeld_heldOutputs time hdistinct top below hbreaks
    · split at htail
      · split at htail
        · have hmem : Output.record (.txn row) ∈ locks.purgeOutputs key ctx time below := by
            simp [htail]
          exact absurd hmem (txn_not_mem_purgeOutputs row below)
        · simp at htail
      · next hanchor =>
        rcases append_eq_split htail with ⟨rest, hmismatch, _⟩ | ⟨second, rfl, hrest⟩
        · have hmem : Output.record (.txn row) ∈ locks.mismatchOutputs key time top := by
            simp [hmismatch]
          exact absurd hmem (txn_not_mem_mismatchOutputs row top)
        · obtain ⟨above, top', below', rfl, habove, hendings, hrow, htells⟩ := ih hrest
          refine ⟨top :: above, top', below', rfl, ?_, ?_, hrow, htells⟩
          · rw [TxnStack.hasAnchor_cons, not_or]
            exact ⟨hanchor, habove⟩
          · rw [List.filter_append, List.filter_append, endings_closeOutputs,
              endings_mismatchOutputs, hendings]
            rfl

end Unwind

end LockStore

end LockTrace
