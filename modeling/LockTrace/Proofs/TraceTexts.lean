import LockTrace.Conversion
import LockTrace.Proofs.HeldListings
import LockTrace.Proofs.OneSided
import LockTrace.Proofs.Sessions
import LockTrace.Proofs.TableTexts

/-!
# Where the texts of tables come from

Every text in a table of a conversion is one of the trace or the name of a variable. A text of the
trace was a column there, between delimiters and within a line, and so it can be a column of a
table again, also without the directory of the sources. The name of a variable is that of a symbol,
where it can hold the delimiter or the end of a line, or that of a pseudo-lock, where it cannot.

Texts are taken over at one time and written at another. In between they are kept by the locks,
by the accesses that wait, and by the table of symbols (`Session.Traced`).
-/

namespace LockTrace

open Trace (InColumn)

/-! ### Texts that are kept -/

/-- The names of variables that there can be: those of symbols and those of pseudo-locks. -/
def SymbolTable.Names (known : SymbolTable) (name : String) : Prop :=
  (∃ address, Lock.pseudoName? address = some name) ∨
    ∃ symbol ∈ known.symbols.values, symbol.name = name

structure Site.KeepsTo (delimiter : Char) (site : Site) : Prop where
  file : InColumn delimiter site.file.toList
  function : InColumn delimiter site.function.toList

/-- A record with texts as a trace has them, and with a name that is known. -/
structure Record.Traced (delimiter : Char) (known : SymbolTable) (r : Record) : Prop where
  texts : ∀ s ∈ r.traceTexts, InColumn delimiter s.toList
  varName : ∀ name ∈ r.varName?, known.Names name

/-- The texts that a lock keeps until its rows are written, or those of its holders. -/
structure Lock.Traced (delimiter : Char) (known : SymbolTable) (l : Lock) : Prop where
  label : InColumn delimiter l.label.toList
  varName : ∀ name ∈ l.varName, known.Names name
  sites : ∀ p ∈ l.history, p.site.KeepsTo delimiter

def Output.Traced (delimiter : Char) (known : SymbolTable) (o : Output) : Prop :=
  ∀ r, o = .record r → r.Traced delimiter known

structure Monitor.Traced (delimiter : Char) (known : SymbolTable) (m : Monitor) : Prop where
  locks : m.locks.Every (Lock.Traced delimiter known)
  outputs : ∀ o ∈ m.outputs, o.Traced delimiter known

/-- The texts that are written, and those that wait to be. -/
structure Session.Traced (delimiter : Char) (known : SymbolTable) (s : Session) : Prop where
  monitor : s.monitor.Traced delimiter known
  pending : ∀ a ∈ s.pending, a.site.KeepsTo delimiter
  symbols : s.symbols = known

section Kept

variable {delimiter : Char} {known : SymbolTable}

/-! ### Locks -/

namespace Lock.Traced

variable {l : Lock}

theorem setCount (h : l.Traced delimiter known) (side : Side) (n : Nat) :
    (l.setCount side n).Traced delimiter known := by
  cases side <;> exact ⟨h.label, h.varName, h.sites⟩

theorem popPosition (h : l.Traced delimiter known) : l.popPosition.Traced delimiter known :=
  ⟨h.label, h.varName, fun p hp => h.sites p (List.mem_of_mem_tail hp)⟩

/-- The only text that an operation leaves with its lock is its site. -/
theorem change (h : l.Traced delimiter known) {t : Transition} (hsite : t.site.KeepsTo delimiter)
    {f : Lock → Lock} (hf : t.Changes f) : (f l).Traced delimiter known := by
  cases hf with
  | setFlags => exact ⟨h.label, h.varName, h.sites⟩
  | beginHold =>
    have hcount := h.setCount t.op.side (l.count t.op.side + 1)
    refine ⟨hcount.label, hcount.varName, ?_⟩
    intro p hp
    rcases List.mem_cons.mp hp with rfl | hp
    · exact hsite
    · exact h.sites p hp
  | endHold => exact h.setCount _ _
  | popPosition => exact h.popPosition
  | takeBack => exact h.popPosition.setCount _ _
  | drain =>
    have hcount := h.setCount t.op.side.other 0
    exact ⟨hcount.label, hcount.varName, fun p hp => by cases hp⟩

end Lock.Traced

/-! ### Outputs -/

namespace Record.Traced

variable {r : Record}

theorem of_no_texts (htexts : r.traceTexts = []) (hname : r.varName? = none) :
    r.Traced delimiter known := by
  constructor
  · simp [htexts]
  · simp [hname]

theorem of_site {site : Site} (h : site.KeepsTo delimiter)
    (htexts : r.traceTexts = [site.file, site.function]) (hname : r.varName? = none) :
    r.Traced delimiter known := by
  constructor
  · simp [htexts, h.file, h.function]
  · simp [hname]

end Record.Traced

namespace Output.Traced

theorem report (i : Inconsistency) : (Output.report i).Traced delimiter known := by
  intro r hr
  cases hr

theorem remark (r : Remark) : (Output.remark r).Traced delimiter known := by
  intro r' hr
  cases hr

theorem record {r : Record} (h : r.Traced delimiter known) :
    (Output.record r).Traced delimiter known := by
  intro r' hr
  cases hr
  exact h

theorem lockRows {l : Lock} (h : l.Traced delimiter known) :
    ∀ o ∈ Monitor.lockRows l, o.Traced delimiter known := by
  intro o ho
  obtain ⟨⟨side, id⟩, _, rfl⟩ := List.mem_map.mp ho
  exact record ⟨List.forall_mem_singleton.mpr h.label, h.varName⟩

end Output.Traced

namespace LockStore.Every

variable {locks : LockStore} (h : locks.Every (Lock.Traced delimiter known))

include h

theorem traced_heldOutputs {txn : Nat} {time : UInt64} {seen : List Nat} {s : List Txn}
    {o : Output} (ho : o ∈ locks.heldOutputs txn time seen s) : o.Traced delimiter known := by
  rintro r rfl
  obtain ⟨rows, hrecords, _, hrows⟩ := locks.exists_rows_heldOutputs txn time seen s
  have hr := Output.mem_records_iff.mpr ho
  rw [hrecords] at hr
  obtain ⟨row, hrow, rfl⟩ := List.mem_map.mp hr
  obtain ⟨t, _, lock, hget, _, hlatest⟩ := hrows row hrow
  obtain ⟨p, hp, htaken⟩ := Option.map_eq_some_iff.mp hlatest
  have hsite := (h t.lock lock hget).sites p (List.mem_of_mem_head? hp)
  refine .of_site hsite ?_ rfl
  simp [Record.traceTexts, ← htaken]

theorem traced_unwindOutputs {skipEmpty : Bool} {key : Nat} {side : Side} {ctx : Int64}
    {time : UInt64} {purge : Bool} {s : TxnStack} {o : Output}
    (ho : o ∈ locks.unwindOutputs skipEmpty key side ctx time purge s) :
    o.Traced delimiter known := by
  rcases LockStore.mem_unwindOutputs _ _ _ _ _ _ _ ho with
    ⟨t, _, below, hclosed⟩ | ⟨t, _, rfl⟩ | ⟨i, rfl⟩
  · unfold LockStore.closeOutputs at hclosed
    split at hclosed
    · rw [List.mem_singleton.mp hclosed]
      exact .remark _
    · rcases List.mem_cons.mp hclosed with rfl | hheld
      · exact .record (.of_no_texts rfl rfl)
      · exact traced_heldOutputs h hheld
  · exact .remark _
  · exact .report i

end LockStore.Every

/-! ### Monitors -/

namespace Monitor.Traced

variable {m m' : Monitor}

theorem of_append (h : m.Traced delimiter known) {os : List Output}
    (houtputs : m'.outputs = m.outputs ++ os) (hos : ∀ o ∈ os, o.Traced delimiter known)
    (hlocks : m'.locks.Every (Lock.Traced delimiter known)) : m'.Traced delimiter known where
  locks := hlocks
  outputs := by
    rw [houtputs]
    exact List.forall_mem_append.mpr ⟨h.outputs, hos⟩

theorem withOutputs (h : m.Traced delimiter known) {os : List Output}
    (hos : ∀ o ∈ os, o.Traced delimiter known) : (m.withOutputs os).Traced delimiter known :=
  h.of_append (m.outputs_withOutputs os) hos h.locks

theorem report (h : m.Traced delimiter known) (i : Inconsistency) :
    (m.report i).Traced delimiter known := by
  rw [report_eq_withOutputs]
  exact h.withOutputs (List.forall_mem_singleton.mpr (.report i))

theorem closeTxn (h : m.Traced delimiter known) (key : Nat) (side : Side) (ctx : Int64)
    (time : UInt64) (purge : Bool) :
    (m.closeTxn key side ctx time purge).2.Traced delimiter known := by
  refine h.of_append (m.outputs_closeTxn key side ctx time purge) ?_ ?_
  · exact fun o ho => h.locks.traced_unwindOutputs ho
  · rw [locks_closeTxn]
    exact h.locks

theorem step (h : m.Traced delimiter known) (key : Nat) {t : Transition}
    (hsite : t.site.KeepsTo delimiter) : (m.step key t).1.Traced delimiter known := by
  apply step_induction_changes (P := Monitor.Traced delimiter known) _ _ _ _ h
  · exact fun m i _ h => h.report i
  · intro m f hf h
    exact ⟨h.locks.modify fun lock hget => (h.locks key lock hget).change hsite hf, h.outputs⟩
  · exact fun m h => ⟨h.locks, h.outputs⟩
  · exact fun m side owner purge h _ => h.closeTxn key side owner t.time purge

theorem closeAll (h : m.Traced delimiter known) (time : UInt64) :
    (m.closeAll time).Traced delimiter known := by
  apply closeAll_induction (P := Monitor.Traced delimiter known) _ _ h
  · intro m count ctx h
    exact h.withOutputs (List.forall_mem_singleton.mpr (.remark (.stillActive count ctx)))
  · exact fun m ctx top below h _ => h.closeTxn top.lock top.side ctx time false

theorem withLock (h : m.Traced delimiter known) (address : UInt64) {label : String}
    (hlabel : InColumn delimiter label.toList) (kind : LockKind) (flags : UInt32)
    {placement : Placement} (hname : ∀ name ∈ placement.varName, known.Names name) :
    (m.withLock address label kind flags placement).Traced delimiter known := by
  have hnew : (m.locks.newLock address label kind placement).Traced delimiter known := by
    refine ⟨hlabel, ?_, fun p hp => by cases hp⟩
    intro name hmem
    rcases Option.or_eq_some_iff.mp hmem with hpseudo | ⟨_, hplaced⟩
    · exact .inl ⟨address, hpseudo⟩
    · exact hname name hplaced
  refine h.of_append (m.outputs_withLock address label kind flags placement) ?_ ?_
  · exact Output.Traced.lockRows ⟨hnew.label, hnew.varName, hnew.sites⟩
  · refine (h.locks.create hnew).modify ?_
    intro lock hget
    have hlock := h.locks.create hnew _ lock hget
    exact ⟨hlock.label, hlock.varName, hlock.sites⟩

theorem freeRange (h : m.Traced delimiter known) (base size time : UInt64) :
    (m.freeRange base size time).2.Traced delimiter known := by
  refine h.of_append (m.outputs_freeRange base size time) ?_ (h.locks.freeRange base size time)
  intro o ho
  obtain ⟨i, _, rfl⟩ := List.mem_map.mp ho
  exact .report i

end Monitor.Traced

/-! ### Sites and symbols -/

theorem Trace.InColumn.mono {cs cs' : List Char} (h : InColumn delimiter cs) (hsub : cs' ⊆ cs) :
    InColumn delimiter cs' :=
  ⟨fun hmem => h.delimiter (hsub hmem), fun hmem => h.lineFeed (hsub hmem)⟩

/-- Without the directory of the sources a file name is the end of what it was. -/
theorem Site.KeepsTo.strip {site : Site} (h : site.KeepsTo delimiter) (s : Session) :
    (s.stripSite site).KeepsTo delimiter := by
  unfold Session.stripSite
  split
  · exact h
  · next rest hrest =>
    obtain ⟨directory, _, hprefix⟩ := Option.bind_eq_some_iff.mp hrest
    have happend := List.isPrefixOf?_eq_some_iff_append_eq.mp hprefix
    refine ⟨?_, h.function⟩
    rw [String.toList_ofList]
    apply h.file.mono
    rw [← happend]
    exact List.subset_append_right directory rest

theorem SymbolTable.names_of_nameAt? {address : UInt64} {name : String}
    (h : known.nameAt? address = some name) : known.Names name := by
  unfold SymbolTable.nameAt? at h
  split at h
  · cases h
  · next start symbol hfloor =>
    split at h
    · cases h
      have hmem : (start, symbol) ∈ known.symbols.entries :=
        (List.takeWhile_sublist _).subset (List.mem_of_getLast? hfloor)
      exact .inr ⟨symbol, List.mem_map_of_mem hmem, rfl⟩
    · cases h

/-! ### Heaps -/

theorem traced_allocate (h : Heap) (base size : UInt64) {typeName : String}
    (hname : InColumn delimiter typeName.toList) (time : UInt64) :
    ∀ o ∈ (h.allocate base size typeName time).outputs, o.Traced delimiter known := by
  have hrow : (Record.dataType ⟨(h.types.insert typeName).numberOf typeName, typeName⟩).Traced
      delimiter known :=
    ⟨List.forall_mem_singleton.mpr hname, fun name hvar => by cases hvar⟩
  unfold Heap.allocate
  split
  · exact List.forall_mem_singleton.mpr (.report _)
  · split
    · simp only
      split
      · exact fun o ho => by cases ho
      · exact List.forall_mem_singleton.mpr (.record hrow)
    · exact List.forall_mem_singleton.mpr (.report _)

theorem traced_free (h : Heap) (base time : UInt64) :
    ∀ o ∈ (h.free base time).outputs, o.Traced delimiter known := by
  unfold Heap.free
  split
  · exact List.forall_mem_singleton.mpr (.report _)
  · exact List.forall_mem_singleton.mpr (.record (.of_no_texts rfl rfl))

theorem traced_finish (h : Heap) :
    ∀ o ∈ h.finish.outputs ++ [Output.record .flush], o.Traced delimiter known := by
  have hflush := List.forall_mem_singleton.mpr
    (Output.Traced.record (.of_no_texts rfl rfl) : Output.Traced delimiter known (.record .flush))
  refine List.forall_mem_append.mpr ⟨?_, hflush⟩
  intro o ho
  obtain ⟨a, _, rfl⟩ := List.mem_map.mp ho
  exact .record (.of_no_texts rfl rfl)

/-! ### Sessions -/

namespace Session.Traced

variable {s : Session} {e : Event}

theorem initial (config : Config) (known : SymbolTable) :
    (Session.initial config known).Traced delimiter known where
  monitor := by
    constructor
    · intro key lock hget
      cases hget
    · intro o ho
      cases ho
  pending a ha := by cases ha
  symbols := rfl

theorem note (h : s.Traced delimiter known) (e : Event) : (s.note e).Traced delimiter known :=
  ⟨h.monitor, h.pending, h.symbols⟩

theorem buffer (h : s.Traced delimiter known) (hsite : e.site.KeepsTo delimiter)
    (kind : AccessKind) (size : UInt64) : (s.buffer e kind size).Traced delimiter known :=
  ⟨h.monitor, List.forall_mem_cons.mpr ⟨hsite.strip s, h.pending⟩, h.symbols⟩

theorem writeAccess (h : s.Traced delimiter known) {a : PendingAccess}
    (hsite : a.site.KeepsTo delimiter) : (s.writeAccess a).Traced delimiter known := by
  have hrow : (Record.access (s.accessRow a)).Traced delimiter known := .of_site hsite rfl rfl
  have hmonitor := h.monitor.of_append (Monitor.outputs_write (s.monitor.countAccess a.ctx) _)
    (List.forall_mem_singleton.mpr (.record hrow)) h.monitor.locks
  exact ⟨hmonitor, h.pending, h.symbols⟩

theorem flush (h : s.Traced delimiter known) (lock : Option (UInt64 × Int64)) :
    (s.flush lock).Traced delimiter known := by
  apply flush_induction_accesses (P := Session.Traced delimiter known)
  · exact fun s' a ha h' => h'.writeAccess (h.pending a ha)
  · exact fun _ => ⟨h.monitor, by simp, h.symbols⟩

theorem place (h : s.Traced delimiter known) (address : UInt64) :
    ∀ name ∈ (s.place address).varName, known.Names name := by
  unfold Session.place
  split
  · exact fun name hname => by cases hname
  · rw [h.symbols]
    exact fun name hname => SymbolTable.names_of_nameAt? hname

theorem lockEvent (h : s.Traced delimiter known)
    (hlabel : InColumn delimiter e.typeName.toList) (hsite : e.site.KeepsTo delimiter)
    (op : LockOp) (irqSync : IrqSync) (flags : UInt32) :
    (s.lockEvent e op irqSync flags).1.Traced delimiter known := by
  have hstep : ∀ (m : Monitor) (key : Nat) (t : Transition), m.Traced delimiter known →
      t.site = s.stripSite e.site →
      Session.Traced delimiter known { s with monitor := (m.step key t).1 } := by
    intro m key t hm ht
    exact ⟨hm.step key (ht ▸ hsite.strip s), h.pending, h.symbols⟩
  unfold Session.lockEvent
  split
  · exact ⟨h.monitor.report _, h.pending, h.symbols⟩
  · rcases s.monitor.findOrCreate_cases e.address e.typeName flags s.place with
      ⟨key, _, heq⟩ | ⟨kind, _, _, heq⟩ | ⟨_, _, heq⟩
    · rw [heq]
      exact hstep _ key _ h.monitor rfl
    · rw [heq]
      exact hstep _ _ _ (h.monitor.withLock _ hlabel kind flags (h.place e.address)) rfl
    · rw [heq]
      exact h

theorem flushedLockEvent (h : s.Traced delimiter known)
    (hlabel : InColumn delimiter e.typeName.toList) (hsite : e.site.KeepsTo delimiter)
    (op : LockOp) (irqSync : IrqSync) (flags : UInt32) :
    (s.flushedLockEvent e op irqSync flags).1.Traced delimiter known := by
  unfold Session.flushedLockEvent
  split
  · exact ⟨h.monitor, h.pending, h.symbols⟩
  · exact (h.flush _).lockEvent hlabel hsite op irqSync flags

theorem allocEvent (h : s.Traced delimiter known) (hname : InColumn delimiter e.typeName.toList)
    (size : UInt64) : (s.allocEvent e size).Traced delimiter known :=
  ⟨h.monitor.withOutputs (traced_allocate s.heap _ size hname _), h.pending, h.symbols⟩

theorem freeEvent (h : s.Traced delimiter known) (e : Event) :
    (s.freeEvent e).Traced delimiter known := by
  have hrow := h.monitor.withOutputs (traced_free s.heap e.address e.time)
  unfold Session.freeEvent
  simp only
  split
  · exact ⟨hrow, h.pending, h.symbols⟩
  · exact ⟨hrow.freeRange _ _ _, h.pending, h.symbols⟩

/-- An event whose texts could be written to a trace leaves none that cannot be written to a
    table. -/
theorem step (h : s.Traced delimiter known) (he : Trace.Writable delimiter e) :
    (s.step e).1.Traced delimiter known := by
  have htext : ∀ text ∈ e.texts, InColumn delimiter text.toList :=
    fun text hmem => ⟨(he text hmem).1, (he text hmem).2.1⟩
  have hname : InColumn delimiter e.typeName.toList := htext _ (by simp [Event.texts])
  have hsite : e.site.KeepsTo delimiter :=
    ⟨htext _ (by simp [Event.texts]), htext _ (by simp [Event.texts])⟩
  have hnote := h.note e
  unfold Session.step
  simp only
  split
  · exact hnote.buffer hsite _ _
  · exact (hnote.flush none).allocEvent hname _
  · exact (hnote.flush none).freeEvent e
  · exact hnote.flushedLockEvent hname hsite _ _ _
  · exact hnote.flushedLockEvent hname hsite _ _ _

theorem finish (h : s.Traced delimiter known) : s.finish.Traced delimiter known := by
  have hflush := h.flush none
  have hremark : (if (s.flush none).monitor.isIdle then (s.flush none).monitor
      else (s.flush none).monitor.remark (.closing (s.flush none).lastTime)).Traced
        delimiter known := by
    split
    · exact hflush.monitor
    · exact hflush.monitor.withOutputs (List.forall_mem_singleton.mpr (.remark _))
  exact ⟨(hremark.closeAll _).withOutputs (traced_finish _), hflush.pending, hflush.symbols⟩

theorem runItems {items : List Trace.Item}
    (hitems : ∀ e, .ok e ∈ items → Trace.Writable delimiter e) (h : s.Traced delimiter known) :
    (s.runItems items).1.Traced delimiter known := by
  induction items generalizing s with
  | nil => exact h
  | cons item items ih =>
    cases item with
    | error cause => exact h
    | ok e =>
      have hstep := h.step (hitems e List.mem_cons_self)
      have hrest := fun e he => hitems e (List.mem_cons_of_mem _ he)
      unfold Session.runItems
      split
      · next heq =>
        rw [heq] at hstep
        exact ih hrest hstep
      · next heq =>
        rw [heq] at hstep
        exact hstep

end Session.Traced

/-! ### Conversions -/

namespace Conversion

theorem traced_finish_run (warnings : List String) {run : Session × Option Fatal}
    (h : run.1.Traced delimiter known) :
    ∀ r ∈ (finish warnings run).journal.records, r.Traced delimiter known := by
  have hrecords : ∀ s : Session, s.Traced delimiter known →
      ∀ r ∈ s.journal.records, r.Traced delimiter known := by
    intro s hs r hr
    exact hs.monitor.outputs _ (Output.mem_records_iff.mp hr) r rfl
  obtain ⟨s, stop⟩ := run
  cases stop with
  | none => exact hrecords s.finish h.finish
  | some cause => exact hrecords s h

theorem traced_ofBytes (config : Config) (known : SymbolTable) (bytes : Bytes) :
    ∀ r ∈ (ofBytes config known bytes).journal.records, r.Traced config.delimiter known := by
  have hinitial : (Session.initial config known).Traced config.delimiter known :=
    .initial config known
  exact traced_finish_run _ (.runItems (fun e => Trace.writable_of_mem_read) hinitial)

end Conversion

/-! ### What tables tell -/

/-- The name of a variable: a text that keeps to its column and is not taken for a missing
    value. -/
def Table.FitsName (delimiter : Char) (name : String) : Prop :=
  InColumn delimiter name.toList ∧ name ≠ Table.missing

instance (delimiter : Char) (name : String) : Decidable (Table.FitsName delimiter name) :=
  inferInstanceAs (Decidable (_ ∧ _))

theorem fitsName_of_pseudoName? (hd : Table.Separates delimiter) {address : UInt64} {name : String}
    (h : Lock.pseudoName? address = some name) : Table.FitsName delimiter name := by
  have hplain : Table.IsPlain name ∧ name ≠ Table.missing := by
    unfold Lock.pseudoName? at h
    split_ifs at h
    all_goals
      cases h
      decide
  exact ⟨hplain.1.inColumn hd, hplain.2⟩

/-- In a conversion it is enough that the names of symbols fit. -/
theorem Record.Traced.keepsTo {r : Record} (h : r.Traced delimiter known)
    (hd : Table.Separates delimiter)
    (hnames : ∀ symbol ∈ known.symbols.values, Table.FitsName delimiter symbol.name) :
    r.KeepsTo delimiter := by
  have hfits : ∀ name ∈ r.varName?, Table.FitsName delimiter name := by
    intro name hname
    rcases h.varName name hname with ⟨address, hpseudo⟩ | ⟨symbol, hsymbol, rfl⟩
    · exact fitsName_of_pseudoName? hd hpseudo
    · exact hnames symbol hsymbol
  constructor
  · intro text htext
    rcases List.mem_append.mp htext with htrace | hvar
    · exact h.texts text htrace
    · exact (hfits text (Option.mem_toList.mp hvar)).1
  · intro hmissing
    exact (hfits Table.missing hmissing).2 rfl

end Kept

/-- With a delimiter that separates, and with texts that keep to their columns, a table has its
    header and a line for each of its records, each line is cut into as many columns as the header
    names, and these tell the record; so two tables are the same text only if they have the same
    records in the same order. In a conversion the texts of the trace always keep to their columns,
    and so all texts do if the names of symbols have neither a delimiter nor the end of a line, and
    none is taken for a missing one. -/
theorem Table.print_tells_records {delimiter : Char} (hd : Table.Separates delimiter) :
    (∀ (t : Table) (rs : List Record), (∀ r ∈ rs, r.KeepsTo delimiter) → t.Tells delimiter rs) ∧
    (∀ (t : Table) (r r' : Record), r.table? = some t → r'.table? = some t →
      r.KeepsTo delimiter → r'.KeepsTo delimiter →
      Text.splitColumns delimiter (line delimiter r.columns) =
        Text.splitColumns delimiter (line delimiter r'.columns) → r = r') ∧
    (∀ (t : Table) (rs rs' : List Record), (∀ r ∈ rs, r.KeepsTo delimiter) →
      (∀ r ∈ rs', r.KeepsTo delimiter) →
      (t.print delimiter rs = t.print delimiter rs' ↔ t.kept rs = t.kept rs')) ∧
    ∀ (config : Config) (symbols : SymbolTable) (bytes : Bytes), config.delimiter = delimiter →
      (∀ r ∈ (Conversion.ofBytes config symbols bytes).journal.records,
        ∀ text ∈ r.traceTexts, InColumn delimiter text.toList) ∧
      ((∀ symbol ∈ symbols.symbols.values, FitsName delimiter symbol.name) →
        ∀ r ∈ (Conversion.ofBytes config symbols bytes).journal.records,
          r.KeepsTo delimiter) := by
  refine ⟨?_, ?_, ?_, ?_⟩
  · exact fun t rs h => Table.tells_print hd h
  · exact fun t r r' htable htable' h h' => Table.eq_of_splitColumns hd htable htable' h h'
  · exact fun t rs rs' h h' => Table.print_eq_iff hd h h'
  · rintro config symbols bytes rfl
    have htraced := Conversion.traced_ofBytes config symbols bytes
    constructor
    · exact fun r hr => (htraced r hr).texts
    · exact fun hnames r hr => (htraced r hr).keepsTo hd hnames

namespace Table

/-- The symbol of a lock. -/
def inodeSymbols : SymbolTable := SymbolTable.insert ∅ 0x100 none "inode_hash_lock"

/-- The lock is acquired and memory is read. -/
def inodeTrace : Bytes := Bytes.ofString <|
  "1;3;l;0x100;0;spinlock_t;;1;/src/inode.c;12;iget;0;0;0\n" ++
  "2;3;r;0x300;8;;;;/src/inode.c;13;iget;0;;\n"

def inodeConfig : Config := { Config.default with kernelDir := some "/src" }

def inodeRecords : List Record :=
  (Conversion.ofBytes inodeConfig inodeSymbols inodeTrace).journal.records

/-- The row of the lock, or of one like it in another variable or in none. -/
def inodeLock (varName : Option String) : Record :=
  .lock ⟨1, 0x100, none, "spinlock_t", .writer, varName, 0⟩

theorem print_tells_records_inodeTrace :
    (∀ symbol ∈ inodeSymbols.symbols.values, FitsName ';' symbol.name) ∧
    (∀ t : Table, t.Tells ';' inodeRecords) ∧
    locks.kept inodeRecords = [inodeLock (some "inode_hash_lock")] ∧
    Text.splitColumns ';' (line ';' (inodeLock (some "inode_hash_lock")).columns) ≠
      Text.splitColumns ';' (line ';' (inodeLock none).columns) ∧
    locks.print ';' inodeRecords ≠ locks.print ';' [inodeLock none] := by
  obtain ⟨htells, hsplit, hprint, hkeeps⟩ := print_tells_records (show Separates ';' by decide)
  have hnames : ∀ symbol ∈ inodeSymbols.symbols.values, FitsName ';' symbol.name := by
    decide +kernel
  have hrecords : ∀ r ∈ inodeRecords, r.KeepsTo ';' :=
    (hkeeps inodeConfig inodeSymbols inodeTrace rfl).2 hnames
  have hkept : locks.kept inodeRecords = [inodeLock (some "inode_hash_lock")] := by decide +kernel
  have hnamed : (inodeLock (some "inode_hash_lock")).KeepsTo ';' := by
    apply hrecords
    apply (table?_of_mem_kept (t := locks) _).1
    rw [hkept]
    exact List.mem_singleton_self _
  have hnameless : (inodeLock none).KeepsTo ';' :=
    ⟨List.forall_mem_singleton.mpr ⟨by decide, by decide⟩, by decide⟩
  refine ⟨hnames, fun t => htells t inodeRecords hrecords, hkept, ?_, ?_⟩
  · intro heq
    exact absurd (hsplit locks _ _ rfl rfl hnamed hnameless heq) (by decide)
  · intro heq
    have hsame := (hprint locks inodeRecords _ hrecords
      (List.forall_mem_singleton.mpr hnameless)).mp heq
    rw [hkept] at hsame
    exact absurd hsame (by decide)

/-- The lock is a variable whose name goes on in a second line. -/
def twoLineSymbols : SymbolTable := SymbolTable.insert ∅ 0x100 none "inode\nhash_lock"

/-- It is not enough that the names of symbols have no delimiter and none is taken for a missing
    one: a name of two lines makes two lines of the row of its lock. -/
theorem not_forall_tells_of_symbols :
    ¬ ∀ (delimiter : Char) (config : Config) (symbols : SymbolTable) (bytes : Bytes),
      Separates delimiter → config.delimiter = delimiter →
      (∀ symbol ∈ symbols.symbols.values,
        delimiter ∉ symbol.name.toList ∧ symbol.name ≠ missing) →
      ∀ t : Table, t.Tells delimiter (Conversion.ofBytes config symbols bytes).journal.records := by
  intro htells
  have hnames : ∀ symbol ∈ twoLineSymbols.symbols.values,
      ';' ∉ symbol.name.toList ∧ symbol.name ≠ missing := by decide +kernel
  have hlocks := htells ';' inodeConfig twoLineSymbols inodeTrace (by decide) rfl hnames locks
  exact absurd hlocks.lines (by decide +kernel)

end Table

end LockTrace
