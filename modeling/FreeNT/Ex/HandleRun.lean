import FreeNT.Ex.HandleMap

/-!
# Runs of a handle table

The calls that keep `HandleOk` keep the invariant (`handleStep_inv`), so that in every
state of a run the table is a finite map and knows its free entries
(`handle_table_is_map`). An entry whose granted access is the mark -2 can be put in but its
handle is refused by `ExDestroyHandle` (`handle_table_is_map_fails`).
-/

namespace FreeNT.Ex

open HandleTable List

variable {t t' : HandleTable} {n : Nat} {E : Nat → HandleEntry} {first last : List Nat}

/-- The conditions on a call: the entries that are given are valid, an entry that is in
use by the caller of `ExMapHandleToPointer` is unlocked, or its handle destroyed by that
caller, before another call asks for it. -/
def HandleOk (t : HandleTable) : HandleCall → Prop
  | .create _ e => ValidEntry e
  | .destroy handle none => ¬ Locked t (handle / 4)
  | .destroy handle (some i) => handle / 4 = i ∧ 4 * i < t.NextHandleNeedingPool ∧ Locked t i
  | .map handle => ¬ Locked t (handle / 4)
  | .unlock i => 4 * i < t.NextHandleNeedingPool ∧ Locked t i

lemma create_table_inv : HandleInv exCreateHandleTable 1 (expAllocateLowLevelTable 0) (range' 1 511) [] := by
  have hvalue (k : Nat) : (expAllocateLowLevelTable 0 k).Value = 0 := lowLevelTable_value
  have hl := withPage_freeList (fun _ => ⟨0, 0⟩) 0
  refine ⟨rfl, rfl, fun i hi => ?_, ?_, rfl, ?_, fun i => ?_, fun i _ _ => hvalue i, fun i _ hv =>
    absurd (hvalue i) hv, ?_⟩
  · rw [exCreateHandleTable, TableCode.entry, TableCode.page, Option.map_some, Nat.mod_eq_of_lt (by omega)]
  · exact Chain.congr hl fun x _ => by rw [withPage, if_neg (by omega), Nat.sub_zero]
  · rw [append_nil]
    exact nodup_range'
  · rw [append_nil, mem_range'_1, hvalue]
    omega
  · simp [liveSet, hvalue, exCreateHandleTable]

/-- The conditions on a call without the one on the mark -2. -/
def HandleUse (t : HandleTable) : HandleCall → Prop
  | .create _ e => e.Value ≠ 0 ∧ lockBit e.Value = false
  | call => HandleOk t call

lemma HandleOk.use {c : HandleCall} (h : HandleOk t c) : HandleUse t c := by
  cases c with
  | create => exact ⟨h.1, h.2.1⟩
  | _ => exact h

/-- No live handle has the mark. -/
def Unmarked (t : HandleTable) : Prop := ∀ i e, mapping t i = some e → e.GrantedAccess ≠ noFreeEntry

lemma Unmarked.update (h : Unmarked t) {i : Nat} {e : Option HandleEntry}
    (hm : mapping t' = Function.update (mapping t) i e)
    (he : ∀ e', e = some e' → e'.GrantedAccess ≠ noFreeEntry) : Unmarked t' := by
  intro j e' he'
  rw [hm, Function.update_apply] at he'
  split at he'
  · exact he e' he'
  · exact h j e' he'

lemma handleStep_inv {c : HandleCall} (h : IsTable t) (hok : HandleUse t c)
    (hs : handleStep t c = some t') : IsTable t' ∧ (HandleOk t c → Unmarked t → Unmarked t') := by
  obtain ⟨n, E, first, last, h⟩ := h
  have hsz := h.size
  cases c with
  | create a e =>
    obtain ⟨t1, hn, heq, hin, -, hf, hm⟩ := create_spec h hok a
    rw [handleStep, heq] at hs
    cases hs
    refine ⟨hin, fun he hu => ?_⟩
    by_cases hz : hn = 0
    · rwa [Unmarked, hf hz]
    · exact hu.update (hm hz).2.2 fun e' h => by cases h; exact he.2.2
  | destroy hn g =>
    cases g with
    | none =>
      obtain ⟨t1, r, heq, hin, hm⟩ := destroy_spec h hn hok
      rw [handleStep, heq] at hs
      cases hs
      exact ⟨hin, fun _ hu => hu.update (hm (hu _)).2 nofun⟩
    | some i =>
      obtain ⟨rfl, hi, hl⟩ := hok
      obtain ⟨t1, heq, hin, hm⟩ := destroy_locked_spec h hn (by omega) hl
      rw [handleStep, heq] at hs
      cases hs
      exact ⟨hin, fun _ hu => hu.update hm nofun⟩
  | map hn =>
    obtain ⟨t1, p, heq, hin, hm, -⟩ := map_spec h hn hok
    rw [handleStep, heq] at hs
    cases hs
    exact ⟨hin, fun _ hu => by rwa [Unmarked, hm]⟩
  | unlock i =>
    obtain ⟨t1, heq, hin, hm⟩ := unlock_spec h (by have := hok.1; omega) hok.2
    cases heq.symm.trans hs
    exact ⟨hin, fun _ hu => by rwa [Unmarked, hm]⟩

/-- `NextFreeTableEntry` of the entry with the index `i`. -/
def nextFreeTableEntry (t : HandleTable) (i : Nat) : Nat := (t.TableCode.entry i).elim 0 HandleEntry.GrantedAccess

/-- The free entries and the count of a table. -/
structure FreeEntries (t : HandleTable) (n : Nat) (first last : List Nat) : Prop where
  size : t.NextHandleNeedingPool = 4 * (512 * n)
  firstFree : Chain (4 * ·) (nextFreeTableEntry t) 0 t.FirstFree first
  lastFree : Chain (4 * ·) (nextFreeTableEntry t) 0 t.LastFree last
  either : ∀ i, 4 * i < t.NextHandleNeedingPool → i % 512 ≠ 0 →
    mapping t i ≠ none ∧ (first ++ last).count i = 0 ∨ mapping t i = none ∧ (first ++ last).count i = 1
  count : t.HandleCount = ((Finset.range (512 * n)).filter fun i => mapping t i ≠ none).card

lemma HandleInv.freeEntries (h : HandleInv t n E first last) : FreeEntries t n first last := by
  have hn (i : Nat) (hi : i ∈ first ++ last) : nextFreeTableEntry t i = (E i).GrantedAccess := by
    rw [nextFreeTableEntry, h.entries i ((h.free i).mp hi).1]
    rfl
  have hl (i : Nat) (hi : i < 512 * n) : mapping t i ≠ none ↔ (E i).Value ≠ 0 := by
    rw [h.mapping_eq]
    by_cases hv : (E i).Value = 0
    · rw [if_neg fun hc => hc.2 hv]
      exact iff_of_false (not_not.mpr rfl) (not_not.mpr hv)
    · rw [if_pos ⟨hi, hv⟩]
      exact iff_of_true (Option.some_ne_none _) hv
  refine ⟨h.size, Chain.congr h.firstChain fun i hi => hn i (mem_append_left _ hi),
    Chain.congr h.lastChain fun i hi => hn i (mem_append_right _ hi), fun i hi hmd => ?_, ?_⟩
  · rw [h.size] at hi
    by_cases hv : (E i).Value = 0
    · refine .inr ⟨not_not.mp fun hc => (hl i (by omega)).mp hc hv, ?_⟩
      exact count_eq_one_of_mem h.nodup ((h.free i).mpr ⟨by omega, hmd, hv⟩)
    · refine .inl ⟨(hl i (by omega)).mpr hv, count_eq_zero.mpr fun hm => hv ((h.free i).mp hm).2.2⟩
  rw [h.count, liveSet]
  refine congrArg (fun s : Finset Nat => (s.card : Int)) (Finset.filter_congr fun i hi => ?_)
  exact (hl i (Finset.mem_range.mp hi)).symm

/-- A handle table in every state that a sequential run reaches is a finite map from
handles to entries. -/
theorem handle_table_is_map {calls : List HandleCall}
    (hrun : Run handleStep HandleOk exCreateHandleTable calls t) :
    (∀ alloc e, ValidEntry e → ∃ t' handle, t.exCreateHandle alloc e = some (t', handle) ∧
      (handle = 0 → mapping t' = mapping t) ∧
      (handle ≠ 0 → handle % 4 = 0 ∧ mapping t (handle / 4) = none ∧
        mapping t' = Function.update (mapping t) (handle / 4) (some e))) ∧
    (∀ handle, ¬ Locked t (handle / 4) → ∃ t' result, t.exDestroyHandle handle none = some (t', result) ∧
      (result = true ↔ mapping t (handle / 4) ≠ none) ∧
      mapping t' = Function.update (mapping t) (handle / 4) none) ∧
    (∀ handle, 4 * (handle / 4) < t.NextHandleNeedingPool → Locked t (handle / 4) →
      ∃ t', t.exDestroyHandle handle (some (handle / 4)) = some (t', true) ∧
        mapping t' = Function.update (mapping t) (handle / 4) none) ∧
    (∀ handle, ¬ Locked t (handle / 4) → ∃ t' pointer, t.exMapHandleToPointer handle = some (t', pointer) ∧
      mapping t' = mapping t ∧ (pointer = none ↔ mapping t (handle / 4) = none) ∧
      ∀ i, pointer = some i → i = handle / 4 ∧ t'.TableCode.entry i = mapping t i) ∧
    ∃ n first last, FreeEntries t n first last := by
  obtain ⟨⟨n, E, first, last, h⟩, hun⟩ := hrun.invariant (fun t => IsTable t ∧ Unmarked t)
    (fun h hok hs => (handleStep_inv h.1 hok.use hs).imp_right fun hu => hu hok h.2)
    ⟨⟨1, _, _, _, create_table_inv⟩,
      fun i e he => by simp [create_table_inv.mapping_eq, lowLevelTable_value] at he⟩
  have hsz := h.size
  refine ⟨fun alloc e he => ?_, fun handle hl => ?_, fun handle hi hl => ?_, fun handle hl => ?_, n,
    first, last, h.freeEntries⟩
  · obtain ⟨t', handle, heq, -, -, hr⟩ := create_spec h ⟨he.1, he.2.1⟩ alloc
    exact ⟨t', handle, heq, hr⟩
  · obtain ⟨t', result, heq, -, hr⟩ := destroy_spec h handle hl
    exact ⟨t', result, heq, hr (hun _)⟩
  · obtain ⟨t', heq, -, hr⟩ := destroy_locked_spec h handle (by omega) hl
    exact ⟨t', heq, hr⟩
  · obtain ⟨t', pointer, heq, -, hr⟩ := map_spec h handle hl
    exact ⟨t', pointer, heq, hr⟩

theorem handle_table_is_map_one : ∃ t, Run handleStep HandleOk exCreateHandleTable
    [.create (fun _ => true) ⟨8, 1⟩] t ∧ mapping t 1 = some ⟨8, 1⟩ ∧ ∃ t',
      t.exDestroyHandle 4 none = some (t', true) := by
  have hvalid : ValidEntry ⟨8, 1⟩ := ⟨by decide, rfl, by decide⟩
  obtain ⟨t, hrn, hm, hen⟩ : ∃ t, Run handleStep HandleOk exCreateHandleTable [.create (fun _ => true) ⟨8, 1⟩] t ∧
      mapping t 1 = some ⟨8, 1⟩ ∧ t.TableCode.entry 1 = some ⟨9, 1⟩ := ⟨_, .single hvalid rfl, rfl, rfl⟩
  have hl : ¬ Locked t (4 / 4) := by
    rintro ⟨e, he, -, hlc⟩
    cases hen.symm.trans he
    cases hlc
  obtain ⟨t', r, heq, hr, -⟩ := (handle_table_is_map hrn).2.1 4 hl
  have hlv : mapping t (4 / 4) ≠ none := fun hc => Option.some_ne_none _ (hm.symm.trans hc)
  exact ⟨t, hrn, hm, t', heq.trans (by rw [hr.mpr hlv])⟩

/-- The granted access of the entry reads as the mark -2: its handle cannot be destroyed. -/
theorem handle_table_is_map_fails : ∃ t, exCreateHandleTable.exCreateHandle (fun _ => true)
    ⟨8, 0xFFFFFFFE⟩ = some (t, 4) ∧
    mapping t 1 = some ⟨8, 0xFFFFFFFE⟩ ∧ t.TableCode.entry 1 = some ⟨9, 0xFFFFFFFE⟩ ∧
    t.exDestroyHandle 4 none = some (t, false) := ⟨_, rfl, rfl, rfl, rfl⟩

/-- Two handles of the allocated range lead to two entries: what is written to one is not seen in the other. -/
def Separate (t : HandleTable) : Prop :=
    ∀ i j, i ≠ j → 4 * i < t.NextHandleNeedingPool → 4 * j < t.NextHandleNeedingPool →
  ∃ p q, t.expLookupHandleTableEntry (4 * i) = some p ∧ t.expLookupHandleTableEntry (4 * j) = some q ∧
    t.TableCode.entry q ≠ none ∧ ∀ e, (t.TableCode.setEntry p e).entry p = some e ∧
      (t.TableCode.setEntry p e).entry q = t.TableCode.entry q

lemma HandleInv.separate (h : HandleInv t n E first last) : Separate t := by
  intro i j hne hi hj
  rw [h.size] at hi hj
  refine ⟨i, j, ?_, ?_, ?_, fun e => ⟨?_, ?_⟩⟩
  · rw [h.lookup_eq, show 4 * i / 4 = i by omega, if_pos (by omega)]
  · rw [h.lookup_eq, show 4 * j / 4 = j by omega, if_pos (by omega)]
  · rw [h.entries j (by omega)]
    exact Option.some_ne_none _
  · rw [h.paged.entry_setEntry (by omega) (by omega), if_pos rfl]
  · rw [h.paged.entry_setEntry (by omega) (by omega), if_neg hne.symm]

/-- With memory for its pages the table is full only if all handles are live, and it keeps its
entries apart, also when it grows. -/
theorem handle_table_capacity {calls : List HandleCall}
    (hrun : Run handleStep HandleUse exCreateHandleTable calls t) :
    (∀ e, e.Value ≠ 0 ∧ lockBit e.Value = false → ∃ t' handle,
      t.exCreateHandle (fun _ => true) e = some (t', handle) ∧
      (handle = 0 → ∀ i < 512 * 1024 * 32, i % 512 ≠ 0 → mapping t i ≠ none)) ∧
    Separate t ∧ ∀ alloc, ∃ t' found, findFree alloc t = some (t', found) ∧ Separate t' := by
  obtain ⟨n, E, first, last, h⟩ := hrun.invariant IsTable (fun h hok hs => (handleStep_inv h hok hs).1)
    ⟨1, _, _, _, create_table_inv⟩
  refine ⟨fun e he => ?_, h.separate, fun alloc => ?_⟩
  · obtain ⟨t', handle, heq, -, hf, -⟩ := create_spec h he fun _ => true
    exact ⟨t', handle, heq, fun hz => hf hz fun _ => rfl⟩
  · obtain ⟨t', found, heq, -, n', E', first', last', h', -⟩ := findFree_spec h alloc
    exact ⟨t', found, heq, h'.separate⟩

theorem handle_table_capacity_two : ∃ t, Run handleStep HandleUse exCreateHandleTable
    [.create (fun _ => true) ⟨8, 0xFFFFFFFE⟩, .create (fun _ => true) ⟨16, 1⟩] t ∧
      mapping t 2 = some ⟨16, 1⟩ ∧ mapping t 3 = none ∧
      (∃ t' handle, t.exCreateHandle (fun _ => true) ⟨8, 1⟩ = some (t', handle) ∧ handle ≠ 0) ∧ Separate t := by
  obtain ⟨t, hr, hm2, hm⟩ : ∃ t, Run handleStep HandleUse exCreateHandleTable
      [.create (fun _ => true) ⟨8, 0xFFFFFFFE⟩, .create (fun _ => true) ⟨16, 1⟩] t ∧ mapping t 2 = some ⟨16, 1⟩ ∧
      mapping t 3 = none := by
    refine ⟨_, .cons ⟨by decide, rfl⟩ rfl (.single ⟨by decide, rfl⟩ rfl), ?_, ?_⟩ <;> rfl
  obtain ⟨hc, hs, -⟩ := handle_table_capacity hr
  obtain ⟨t', handle, heq, hf⟩ := hc ⟨8, 1⟩ ⟨by decide, rfl⟩
  exact ⟨t, hr, hm2, hm, ⟨t', handle, heq, fun hz => hf hz 3 (by decide) (by decide) hm⟩, hs⟩

end FreeNT.Ex
