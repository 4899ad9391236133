import LockTrace.Proofs.AscMap
import LockTrace.Symbols.Listing
import Mathlib.Data.List.Induction

/-!
# Which symbol an address has

A table is the symbols that were entered, less those in whose place others were put (`Current`),
whether they come from a listing or one by one (`ofListing_eq_ok_iff`). The look-up has a spec of
its own: a symbol reaches the address at which it starts and, if its size is known, all up to its
end (`Entry.Reaches`). A name that is found belongs to a symbol that reaches the address. Only the
nearest symbol at or below the address is looked at, however, and so a symbol is overlooked exactly
if another one starts between it and the address without reaching it (`nameAt?_enter`). Where no
symbol starts inside another one, none is overlooked (`exists_nameAt?_iff_of_apart`).
-/

namespace LockTrace.SymbolTable

/-! ### The symbols of a table -/

/-- Enter symbols one after the other. -/
def enter (t : SymbolTable) (es : List Entry) : SymbolTable :=
  es.foldl (fun t e => t.insert e.address e.symbol.size e.symbol.name) t

/-- A symbol that was entered and has not been replaced since. -/
def Current (es : List Entry) (e : Entry) : Prop :=
  ∃ before after, es = before ++ e :: after ∧ ∀ d ∈ after, d.address ≠ e.address

/-- The addresses of a symbol: the one at which it starts, and all before its end if its size is
    known. -/
def Entry.Reaches (e : Entry) (address : UInt64) : Prop :=
  e.address = address ∨ ∃ size ∈ e.symbol.size,
    e.address.toNat ≤ address.toNat ∧ address.toNat < e.address.toNat + size.toNat

/-- Of the symbols that start at or below an address, the one that starts last. -/
structure Nearest (es : List Entry) (address : UInt64) (e : Entry) : Prop where
  current : Current es e
  below : e.address ≤ address
  largest : ∀ d, Current es d → d.address ≤ address → d.address ≤ e.address

theorem current_concat {es : List Entry} {e d : Entry} :
    Current (es ++ [e]) d ↔ d = e ∨ Current es d ∧ e.address ≠ d.address := by
  constructor
  · rintro ⟨before, after, hsplit, hafter⟩
    rcases List.eq_nil_or_concat after with rfl | ⟨after, last, rfl⟩
    · obtain ⟨_, hlast⟩ := List.append_inj' hsplit rfl
      exact Or.inl (List.singleton_inj.mp hlast).symm
    · rw [List.concat_eq_append] at hsplit hafter
      rw [← List.cons_append, ← List.append_assoc] at hsplit
      obtain ⟨rfl, hlast⟩ := List.append_inj' hsplit rfl
      cases hlast
      refine Or.inr ⟨⟨before, after, rfl, fun d' hd' => hafter d' (by simp [hd'])⟩, ?_⟩
      exact hafter e (by simp)
  · rintro (rfl | ⟨⟨before, after, rfl, hafter⟩, hne⟩)
    · exact ⟨es, [], rfl, by simp⟩
    · refine ⟨before, after ++ [e], by simp, ?_⟩
      intro d' hd'
      rcases List.mem_append.mp hd' with hd' | hd'
      · exact hafter d' hd'
      · rwa [List.mem_singleton.mp hd']

theorem not_current_nil {e : Entry} : ¬ Current [] e := by
  rintro ⟨before, after, hsplit, _⟩
  simp at hsplit

/-- A table holds the current symbols and no others. -/
theorem get?_enter {es : List Entry} {e : Entry} :
    (enter ∅ es).symbols.get? e.address = some e.symbol ↔ Current es e := by
  induction es using List.reverseRecOn with
  | nil => exact iff_of_false nofun not_current_nil
  | append_singleton es last ih =>
    have hlast : (enter ∅ (es ++ [last])).symbols =
        (enter ∅ es).symbols.insert last.address last.symbol := by
      rw [enter, List.foldl_append]
      rfl
    rw [hlast, AscMap.get?_insert, current_concat, ← ih]
    split
    · next heq =>
      rw [Option.some_inj, or_iff_left fun h => h.2 heq]
      constructor
      · intro hsymbol
        obtain ⟨address, symbol⟩ := e
        cases heq
        cases hsymbol
        rfl
      · rintro rfl
        rfl
    · next hne =>
      rw [and_iff_left hne, or_iff_right]
      rintro rfl
      exact hne rfl

theorem mem_entries_enter {es : List Entry} {e : Entry} :
    (e.address, e.symbol) ∈ (enter ∅ es).symbols.entries ↔ Current es e :=
  AscMap.mem_entries_iff.trans get?_enter

/-- A table has one symbol at an address. -/
theorem Current.eq_of_address {es : List Entry} {e d : Entry} (he : Current es e)
    (hd : Current es d) (h : e.address = d.address) : e = d := by
  have hsymbol := get?_enter.mpr he
  rw [h, get?_enter.mpr hd] at hsymbol
  obtain ⟨address, symbol⟩ := e
  cases h
  cases hsymbol
  rfl

/-! ### The nearest symbol -/

section Look

variable {es : List Entry} {address : UInt64}

theorem covers_iff {e : Entry} : Covers e.address e.symbol address ↔ e.Reaches address := by
  unfold Covers Entry.Reaches
  apply or_congr_right
  apply exists_congr
  intro size
  apply and_congr_right
  intro _
  rw [UInt64.le_iff_toNat_le, UInt64.lt_iff_toNat_lt]
  apply and_congr_right
  intro hle
  rw [UInt64.toNat_sub_of_le _ _ (UInt64.le_iff_toNat_le.mpr hle)]
  omega

theorem Entry.Reaches.le {e : Entry} (h : e.Reaches address) : e.address ≤ address := by
  rcases h with rfl | ⟨_, _, hle, _⟩
  · exact UInt64.le_refl _
  · exact UInt64.le_iff_toNat_le.mpr hle

theorem floor?_enter_iff {e : Entry} :
    (enter ∅ es).symbols.floor? address = some (e.address, e.symbol) ↔ Nearest es address e := by
  rw [AscMap.floor?_eq_some_iff, mem_entries_enter]
  constructor
  · rintro ⟨hcurrent, hle, hmax⟩
    exact ⟨hcurrent, hle, fun d hd hd' => hmax (d.address, d.symbol) (mem_entries_enter.mpr hd) hd'⟩
  · intro h
    refine ⟨h.current, h.below, ?_⟩
    rintro ⟨start, symbol⟩ hmem hle
    exact h.largest ⟨start, symbol⟩ (mem_entries_enter.mp hmem) hle

theorem exists_nearest {e : Entry} (he : Current es e) (hle : e.address ≤ address) :
    ∃ d, Nearest es address d := by
  cases hfloor : (enter ∅ es).symbols.floor? address with
  | none =>
    have habove := AscMap.floor?_eq_none_iff.mp hfloor _ (mem_entries_enter.mpr he)
    exact absurd hle habove
  | some d => exact ⟨⟨d.1, d.2⟩, floor?_enter_iff.mp hfloor⟩

theorem nameAt?_eq_some_iff {name : String} :
    (enter ∅ es).nameAt? address = some name ↔
      ∃ e, Nearest es address e ∧ e.Reaches address ∧ e.symbol.name = name := by
  unfold nameAt?
  split
  · next hfloor =>
    refine iff_of_false nofun ?_
    rintro ⟨e, hnear, _⟩
    rw [floor?_enter_iff.mpr hnear] at hfloor
    cases hfloor
  · next start symbol hfloor =>
    have hnear : Nearest es address ⟨start, symbol⟩ := floor?_enter_iff.mp hfloor
    have hcovers : Covers start symbol address ↔ Entry.Reaches ⟨start, symbol⟩ address :=
      covers_iff (e := ⟨start, symbol⟩)
    rw [Option.ite_none_right_eq_some, hcovers, Option.some_inj]
    constructor
    · rintro ⟨hreaches, rfl⟩
      exact ⟨_, hnear, hreaches, rfl⟩
    · rintro ⟨e, hnear', hreaches, rfl⟩
      rw [floor?_enter_iff.mpr hnear'] at hfloor
      cases hfloor
      exact ⟨hreaches, rfl⟩

/-- A symbol is overlooked for another one that starts nearer to the address. -/
theorem nameAt?_eq_none_iff :
    (enter ∅ es).nameAt? address = none ↔
      ∀ e, Current es e → e.Reaches address →
        ∃ d, Current es d ∧ e.address < d.address ∧ d.address ≤ address ∧ ¬ d.Reaches address := by
  constructor
  · intro hnone e he hreaches
    obtain ⟨d, hnear⟩ := exists_nearest he hreaches.le
    have hmiss : ¬ d.Reaches address := by
      intro hreaches'
      rw [nameAt?_eq_some_iff.mpr ⟨d, hnear, hreaches', rfl⟩] at hnone
      cases hnone
    have hne : e.address ≠ d.address := by
      intro heq
      rw [he.eq_of_address hnear.current heq] at hreaches
      exact hmiss hreaches
    have hlt : e.address < d.address :=
      UInt64.lt_of_le_of_ne (hnear.largest e he hreaches.le) hne
    exact ⟨d, hnear.current, hlt, hnear.below, hmiss⟩
  · intro hall
    cases hfound : (enter ∅ es).nameAt? address with
    | none => rfl
    | some name =>
      obtain ⟨e, hnear, hreaches, _⟩ := nameAt?_eq_some_iff.mp hfound
      obtain ⟨d, hd, hlt, hle, _⟩ := hall e hnear.current hreaches
      exact absurd hlt (UInt64.not_lt.mpr (hnear.largest d hd hle))

/-- Where no symbol starts inside another one, every address that a symbol reaches has a name. -/
theorem exists_nameAt?_iff_of_apart
    (hapart : ∀ e, Current es e → ∀ d, Current es d → e.Reaches d.address → d = e) :
    (∃ name, (enter ∅ es).nameAt? address = some name) ↔
      ∃ e, Current es e ∧ e.Reaches address := by
  constructor
  · rintro ⟨name, hfound⟩
    obtain ⟨e, hnear, hreaches, _⟩ := nameAt?_eq_some_iff.mp hfound
    exact ⟨e, hnear.current, hreaches⟩
  · rintro ⟨e, he, hreaches⟩
    obtain ⟨d, hnear⟩ := exists_nearest he hreaches.le
    have hstart : e.Reaches d.address := by
      have hle := UInt64.le_iff_toNat_le.mp (hnear.largest e he hreaches.le)
      have hbelow := UInt64.le_iff_toNat_le.mp hnear.below
      rcases hreaches with rfl | ⟨size, hsize, _, hend⟩
      · exact Or.inl (UInt64.toNat_inj.mp (Nat.le_antisymm hle hbelow))
      · exact Or.inr ⟨size, hsize, hle, Nat.lt_of_le_of_lt hbelow hend⟩
    rw [hapart e he d hnear.current hstart] at hnear
    exact ⟨e.symbol.name, nameAt?_eq_some_iff.mpr ⟨e, hnear, hreaches, rfl⟩⟩

end Look

/-! ### Listings -/

/-- What the lines of a listing hold, if each can be read. -/
def Lists (listing : Bytes) (es : List Entry) : Prop :=
  ∃ found : List (Option Entry),
    listing.lines.map readListingLine = found.map .ok ∧ found.reduceOption = es

/-- Reading the lines enters what they hold, one after the other. -/
theorem readListingLines_eq_ok_iff {t t' : SymbolTable} {lines : List Bytes} {number : Nat} :
    readListingLines t (lines.zipIdx number) = .ok t' ↔
      ∃ found : List (Option Entry), lines.map readListingLine = found.map .ok ∧
        t' = t.enter found.reduceOption := by
  induction lines generalizing t number with
  | nil =>
    constructor
    · rintro ⟨⟩
      exact ⟨[], rfl, rfl⟩
    · rintro ⟨found, hfound, rfl⟩
      rw [List.map_eq_nil_iff.mp hfound.symm]
      rfl
  | cons line lines ih =>
    have hsplit : ∀ found : List (Option Entry),
        (line :: lines).map readListingLine = found.map .ok ↔ ∃ first rest,
          found = first :: rest ∧ readListingLine line = .ok first ∧
            lines.map readListingLine = rest.map .ok := by
      intro found
      rw [List.map_cons, eq_comm, List.map_eq_cons_iff]
      simp only [eq_comm]
    have hfirst : ∀ first, readListingLine line = .ok first →
        ((∃ found : List (Option Entry), (line :: lines).map readListingLine = found.map .ok ∧
            t' = t.enter found.reduceOption) ↔
          ∃ rest : List (Option Entry), lines.map readListingLine = rest.map .ok ∧
            t' = t.enter (first :: rest).reduceOption) := by
      intro first hline
      simp only [hsplit, hline]
      constructor
      · rintro ⟨_, ⟨_, rest, rfl, ⟨⟩, hrest⟩, ht⟩
        exact ⟨rest, hrest, ht⟩
      · rintro ⟨rest, hrest, ht⟩
        exact ⟨first :: rest, ⟨first, rest, rfl, rfl, hrest⟩, ht⟩
    rw [List.zipIdx_cons, readListingLines]
    split
    · next hline =>
      refine iff_of_false nofun ?_
      rintro ⟨found, hfound, _⟩
      obtain ⟨first, rest, _, hread, _⟩ := (hsplit found).mp hfound
      cases hline.symm.trans hread
    · next hline =>
      rw [ih, hfirst none hline]
      rfl
    · next e hline =>
      rw [ih, hfirst (some e) hline]
      rfl

theorem ofListing_eq_ok_iff {listing : Bytes} {t : SymbolTable} :
    ofListing listing = .ok t ↔ ∃ es, Lists listing es ∧ t = enter ∅ es := by
  rw [ofListing, readListingLines_eq_ok_iff]
  constructor
  · rintro ⟨found, hfound, ht⟩
    exact ⟨_, ⟨found, hfound, rfl⟩, ht⟩
  · rintro ⟨_, ⟨found, hfound, rfl⟩, ht⟩
    exact ⟨found, hfound, ht⟩

/-! ### Every table -/

/-- Whatever symbols were entered, the name that is found is that of the symbol that starts last at
    or below the address, if this one reaches the address. So nothing is found exactly if every
    symbol that reaches the address is overlooked for another one, which starts between it and the
    address and does not reach it. The table of a listing is what its lines hold, entered in their
    order. -/
theorem nameAt?_enter (es : List Entry) (address : UInt64) :
    (∀ name, (enter ∅ es).nameAt? address = some name ↔
      ∃ e, Nearest es address e ∧ e.Reaches address ∧ e.symbol.name = name) ∧
    ((enter ∅ es).nameAt? address = none ↔
      ∀ e, Current es e → e.Reaches address →
        ∃ d, Current es d ∧ e.address < d.address ∧ d.address ≤ address ∧ ¬ d.Reaches address) ∧
    ∀ (listing : Bytes) (t : SymbolTable),
      ofListing listing = .ok t ↔ ∃ es, Lists listing es ∧ t = enter ∅ es :=
  ⟨fun _ => nameAt?_eq_some_iff, nameAt?_eq_none_iff, fun _ _ => ofListing_eq_ok_iff⟩

/-- A table of 256 addresses, and a label without a size inside it. -/
def labelledTable : List Entry :=
  [⟨0x1000, ⟨"rcu_state", some 0x100⟩⟩, ⟨0x1010, ⟨"rcu_name", none⟩⟩]

/-- Behind the label, the symbol around it is not found. -/
theorem not_forall_exists_nameAt?_iff :
    ¬ ∀ (es : List Entry) (address : UInt64),
      (∃ name, (enter ∅ es).nameAt? address = some name) ↔
        ∃ e, Current es e ∧ e.Reaches address := by
  intro hall
  have hnone : (enter ∅ labelledTable).nameAt? 0x1020 = none := by decide
  have hcurrent : Current labelledTable ⟨0x1000, ⟨"rcu_state", some 0x100⟩⟩ :=
    ⟨[], _, rfl, by decide⟩
  obtain ⟨name, hfound⟩ := (hall labelledTable 0x1020).mpr
    ⟨_, hcurrent, Or.inr ⟨0x100, rfl, by decide, by decide⟩⟩
  rw [hnone] at hfound
  cases hfound

end LockTrace.SymbolTable
