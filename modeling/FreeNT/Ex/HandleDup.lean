import FreeNT.Ex.HandleRun

/-!
# Duplicating a handle table

`ExDupHandleTable` (`ntoskrnl/ex/handle.c`) first gives the new table as many pages as
the source has, without initializing their entries, and then goes through the usable
entries of both in step: an entry is copied, or put on the free list of the new table.
The callback (`accept`) sees the locked entry and unlocks it.
-/

namespace FreeNT.Ex

open HandleTable List Option Function

/-- A page without `DoInit`: the entries after the first hold what the memory held. -/
def uninitialized (memory : LowTable) : LowTable := fun k => if k = 0 then ⟨0, noFreeEntry⟩ else memory k

namespace HandleTable

/-- `ExpAllocateHandleTableEntrySlow` with `DoInit` off: the page is linked in the same way. -/
def growUninitialized (alloc : Nat → Bool) (memory : LowTable) (t : HandleTable) : Option (HandleTable × Bool) :=
  match growTable alloc t with
  | none => none
  | some none => some (t, false)
  | some (some code) => some ({ t with
      TableCode := code.setPage (t.NextHandleNeedingPool / (4 * 512)) (uninitialized memory)
      NextHandleNeedingPool := t.NextHandleNeedingPool + 4 * 512 }, true)

/-- The first loop; `some none` if there is no memory. -/
def dupPages (alloc : Nat → Nat → Bool) (memory : Nat → LowTable) (size : Nat) :
    Nat → HandleTable → Option (Option HandleTable)
  | 0, _ => none
  | fuel + 1, t =>
    if t.NextHandleNeedingPool < size then do
      let (t, result) ← growUninitialized (alloc fuel) (memory fuel) t
      if result then dupPages alloc memory size fuel t else some none
    else some (some t)

def dupFree (t : HandleTable) (i : Nat) : HandleTable :=
  { t with TableCode := t.TableCode.setEntry i ⟨0, t.FirstFree⟩, FirstFree := 4 * i }

/-- One turn of the inner loop, on the source and the new table. -/
def dupEntry (accept : Nat → HandleEntry → Bool) (mask : Nat) (s : HandleTable × HandleTable) (i : Nat) :
    Option (HandleTable × HandleTable) := do
  let e ← s.1.TableCode.entry i
  if e.Value &&& mask = 0 then some (s.1, dupFree s.2 i)
  else
    let (t, locked) ← expLockHandleTableEntry s.1 i
    if !locked then some (t, dupFree s.2 i)
    else
      let e ← t.TableCode.entry i
      let t ← exUnlockHandleTableEntry t i
      if accept i e then
        some (t, { s.2 with
          TableCode := s.2.TableCode.setEntry i ⟨setLockBit e.Value, e.GrantedAccess⟩
          HandleCount := s.2.HandleCount + 1 })
      else some (t, dupFree s.2 i)

/-- The second loop, from page `k` on. -/
def dupEntries (accept : Nat → HandleEntry → Bool) (mask : Nat) :
    Nat → Nat → HandleTable × HandleTable → Option (HandleTable × HandleTable)
  | 0, _, _ => none
  | fuel + 1, k, s =>
    match s.2.expLookupHandleTableEntry (4 * (512 * k + 1)) with
    | none => some s
    | some _ => do
      let s ← (range' (512 * k + 1) 511).foldlM (dupEntry accept mask) s
      dupEntries accept mask fuel (k + 1) s

/-- The source and the new table, if there was memory; `first` is the answer to the first request. -/
def exDupHandleTable (first : Bool) (alloc : Nat → Nat → Bool) (memory : Nat → LowTable)
    (accept : Nat → HandleEntry → Bool) (mask : Nat) (t : HandleTable) :
    Option (HandleTable × Option HandleTable) :=
  if !first then some (t, none)
  else do
    let new ← dupPages alloc memory t.NextHandleNeedingPool (maxPages + 1)
      ⟨.low (uninitialized (memory 0)), 4 * 512, 0, 0, 0⟩
    match new with
    | none => some (t, none)
    | some new =>
      let (t, new) ← dupEntries accept mask (maxPages + 1) 0 (t, { new with HandleCount := 0, FirstFree := 0 })
      some (t, some new)

end HandleTable

variable {t d : HandleTable} {n m k i : Nat} {E F : Nat → HandleEntry} {first l xs : List Nat} {sl : Nat → Bool}

/-! ## The pages -/

/-- A table of `k` pages whose usable entries are not initialized. -/
structure Fresh (t : HandleTable) (k : Nat) : Prop where
  paged : Paged t.TableCode k
  size : t.NextHandleNeedingPool = 4 * (512 * k)
  lastFree : t.LastFree = 0
  reserved : ∀ i < 512 * k, i % 512 = 0 → ∃ e, t.TableCode.entry i = some e ∧ e.Value = 0

lemma Fresh.grow (h : Fresh t k) (a : Nat → Bool) (mr : LowTable) :
    growUninitialized a mr t = some (t, false) ∧ ((∀ j, a j) → maxPages ≤ k) ∨
      ∃ t', growUninitialized a mr t = some (t', true) ∧ Fresh t' (k + 1) := by
  rw [growUninitialized]
  rcases growTable_spec a h.paged h.size with ⟨heq, hf⟩ | ⟨c, heq, hg⟩ <;> rw [heq]
  · exact .inl ⟨rfl, hf⟩
  have hk : t.NextHandleNeedingPool / (4 * 512) = k := by rw [h.size]; omega
  refine .inr ⟨_, rfl, ?_, ?_, h.lastFree, fun i hi hmod => ?_⟩
  · exact hg.paged.setPage (by omega)
  · simp only [h.size]
    omega
  · rw [hk, TableCode.entry, hg.paged.page_setPage (by omega) (by omega)]
    split
    · exact ⟨_, rfl, by rw [hmod]; rfl⟩
    · obtain ⟨e, he, hv⟩ := h.reserved i (by omega) hmod
      rw [TableCode.entry] at he
      exact ⟨e, by rw [hg.old _ (by omega), he], hv⟩

lemma dupPages_spec {f : Nat} (a : Nat → Nat → Bool) (mr : Nat → LowTable) (h : Fresh t k)
    (hk : k ≤ n) (hn : n ≤ maxPages) (hf : n - k < f) :
    ∃ r, dupPages a mr (4 * (512 * n)) f t = some r ∧ ((∀ i j, a i j) → r ≠ none) ∧
      ∀ d, r = some d → Fresh d n := by
  induction f generalizing t k with
  | zero => omega
  | succ f ih =>
    rw [dupPages, h.size]
    split
    · rcases h.grow (a f) (mr f) with ⟨heq, hfull⟩ | ⟨t', heq, h'⟩ <;> rw [heq, do_some]
      · exact ⟨none, rfl, fun ha => by have := hfull (ha f); omega, by simp⟩
      · exact ih h' (by omega) (by omega)
    · obtain rfl : k = n := by omega
      exact ⟨some t, rfl, by simp, fun d hd => by cases hd; exact h⟩

/-! ## The entries -/

/-- The entries below `m` have been copied from `E` if chosen, and freed if not. -/
structure Copied (d : HandleTable) (n : Nat) (E F : Nat → HandleEntry) (xs : List Nat) (sel : Nat → Bool)
    (m : Nat) : Prop where
  paged : Paged d.TableCode n
  size : d.NextHandleNeedingPool = 4 * (512 * n)
  entries : ∀ i < 512 * n, d.TableCode.entry i = some (F i)
  chain : FreeList F d.FirstFree xs
  lastFree : d.LastFree = 0
  nodup : xs.Nodup
  free : ∀ i, i ∈ xs ↔ i < m ∧ i % 512 ≠ 0 ∧ sel i = false
  freed : ∀ i ∈ xs, (F i).Value = 0
  copied : ∀ i < m, sel i → F i = E i
  reserved : ∀ i < 512 * n, i % 512 = 0 → (F i).Value = 0
  count : d.HandleCount = ((Finset.range m).filter fun i => sel i).card

lemma Fresh.copied (h : Fresh d n) (E : Nat → HandleEntry) (sl : Nat → Bool) :
    ∃ F, Copied { d with HandleCount := 0, FirstFree := 0 } n E F [] sl 0 := by
  have he (i : Nat) (hi : i < 512 * n) : d.TableCode.entry i = some ((d.TableCode.entry i).getD ⟨0, 0⟩) := by
    obtain ⟨p, hp⟩ := isSome_iff_exists.mp (h.paged.isSome_page (show i / 512 < n by omega))
    rw [TableCode.entry, hp]
    rfl
  refine ⟨_, h.paged, h.size, he, rfl, h.lastFree,
    nodup_nil, by simp, by simp, by simp, fun i hi hmod => ?_, by simp⟩
  obtain ⟨e, heq, hv⟩ := h.reserved i hi hmod
  rw [heq]
  exact hv

lemma range_filter_succ : ((Finset.range (m + 1)).filter fun i => sl i).card =
    ((Finset.range m).filter fun i => sl i).card + if sl m then 1 else 0 := by
  rw [Finset.range_add_one, Finset.filter_insert]
  split
  · rw [Finset.card_insert_of_notMem (by simp)]
  · rfl

namespace Copied

variable (h : Copied d n E F xs sl m)

include h

lemma notMem : m ∉ xs := fun hc => Nat.lt_irrefl m ((h.free m).mp hc).1

lemma free_entry (hm : m < 512 * n) (hmod : m % 512 ≠ 0) (hs : sl m = false) :
    Copied (dupFree d m) n E (update F m ⟨0, d.FirstFree⟩) (m :: xs) sl (m + 1) where
  paged := h.paged.setEntry hm
  size := h.size
  entries := h.paged.entries_set h.entries hm
  chain := ⟨rfl, by
    show Chain _ _ _ (update F m _ m).GrantedAccess _
    rw [update_self]
    exact h.chain.update h.notMem⟩
  lastFree := h.lastFree
  nodup := nodup_cons.mpr ⟨h.notMem, h.nodup⟩
  free i := by
    rw [mem_cons, h.free]
    by_cases hi : i = m
    · simp [hi, hmod, hs]
    · simp only [hi, false_or, and_congr_left_iff]
      omega
  freed i hi := by
    rw [update_apply]
    split
    · rfl
    case isFalse hne => exact h.freed i ((mem_cons.mp hi).resolve_left hne)
  copied i hi hsel := by
    have hne : i ≠ m := by rintro rfl; rw [hs] at hsel; cases hsel
    rw [update_of_ne hne, h.copied i (by omega) hsel]
  reserved i hi h0 := by rw [update_of_ne (by rintro rfl; exact hmod h0), h.reserved i hi h0]
  count := by simp [range_filter_succ, hs, dupFree, h.count]

lemma copy_entry (hm : m < 512 * n) (hmod : m % 512 ≠ 0) (hs : sl m) :
    Copied { d with TableCode := d.TableCode.setEntry m (E m), HandleCount := d.HandleCount + 1 } n E
      (update F m (E m)) xs sl (m + 1) where
  paged := h.paged.setEntry hm
  size := h.size
  entries := h.paged.entries_set h.entries hm
  chain := h.chain.update h.notMem
  lastFree := h.lastFree
  nodup := h.nodup
  free i := by
    rw [h.free]
    by_cases hi : i = m
    · simp [hi, hs]
    · simp only [and_congr_left_iff]
      omega
  freed i hi := by rw [update_of_ne (ne_of_mem_of_not_mem hi h.notMem), h.freed i hi]
  copied i hi hsel := by
    by_cases hne : i = m
    · rw [hne, update_self]
    · rw [update_of_ne hne, h.copied i (by omega) hsel]
  reserved i hi h0 := by rw [update_of_ne (by rintro rfl; exact hmod h0), h.reserved i hi h0]
  count := by simp [range_filter_succ, hs, h.count]

lemma skip (hmod : m % 512 = 0) (hs : sl m = false) : Copied d n E F xs sl (m + 1) :=
  { h with
    free := fun i => by
      rw [h.free]
      by_cases hi : i = m
      · simp [hi, hmod]
      · simp only [and_congr_left_iff]
        omega
    copied := fun i hi hsel => h.copied i (by
      have hne : i ≠ m := by rintro rfl; rw [hs] at hsel; cases hsel
      omega) hsel
    count := by simp [range_filter_succ, hs, h.count] }

lemma value_iff (hn : m = 512 * n) (hs : ∀ i, sl i → (E i).Value ≠ 0) (hi : i < 512 * n) :
    (F i).Value ≠ 0 ↔ sl i := by
  constructor
  · intro hv
    by_contra hsel
    have hmod : i % 512 ≠ 0 := fun h0 => hv (h.reserved i hi h0)
    exact hv (h.freed i ((h.free i).mpr ⟨by omega, hmod, Bool.eq_false_iff.mpr hsel⟩))
  · intro hsel
    rw [h.copied i (by omega) hsel]
    exact hs i hsel

lemma handleInv (hn : m = 512 * n) (hE : HandleInv t n E first l) (hs : ∀ i, sl i → (E i).Value ≠ 0) :
    HandleInv d n F xs [] := by
  refine ⟨h.paged, h.size, h.entries, h.chain, h.lastFree, ?_, fun i => ?_, h.reserved, fun i hi hv => ?_, ?_⟩
  · rw [append_nil]
    exact h.nodup
  · rw [append_nil, h.free, hn]
    refine and_congr_right fun hi => and_congr_right fun _ => ?_
    rw [← Bool.not_eq_true, ← h.value_iff hn hs hi, not_not]
  · have hsel := (h.value_iff hn hs hi).mp hv
    rw [h.copied i (by omega) hsel]
    exact hE.valid i hi (hs i hsel)
  · rw [h.count, hn, liveSet]
    exact congrArg (fun s : Finset Nat => (s.card : Int))
      (Finset.filter_congr fun i hi => (h.value_iff hn hs (Finset.mem_range.mp hi)).symm)

end Copied

lemma setLockBit_unlocked {e : HandleEntry} (h : lockBit e.Value) : setLockBit e.unlocked.Value = e.Value := by
  have : e.Value % 2 = 1 := of_decide_eq_true h
  simp only [HandleEntry.unlocked, setLockBit, clearLockBit]
  omega

lemma HandleInv.lock_unlock (h : HandleInv t n E first l) (hi : i < 512 * n) (hv : (E i).Value ≠ 0)
    (hl : lockBit (E i).Value) : ∃ t1 t2, expLockHandleTableEntry t i = some (t1, true) ∧
      t1.TableCode.entry i = some (E i).unlocked ∧ exUnlockHandleTableEntry t1 i = some t2 ∧
      HandleInv t2 n E first l := by
  have hlow : 2 ≤ (E i).unlocked.Value := by
    have := h.valid i hi hv
    simp only [HandleEntry.unlocked, clearLockBit]
    omega
  have h1 := h.update_live (e := (E i).unlocked) hi hv hlow
  have he := h1.entries i hi
  rw [update_self] at he
  have h2 := h1.update_live (e := E i) hi (by rw [update_self]; omega) (h.valid i hi hv)
  rw [update_idem, update_eq_self] at h2
  refine ⟨_, _, ?_, he, ?_, h2⟩
  · rw [expLockHandleTableEntry, h.entries i hi, do_some, if_pos hl]
    rfl
  · rw [exUnlockHandleTableEntry, he, do_some, if_neg (by simp [HandleEntry.unlocked, lockBit_clearLockBit]),
      setLockBit_unlocked hl]
    rfl

section

variable (accept : Nat → HandleEntry → Bool) (mask : Nat)

/-- The entry matches the mask, its lock bit being set, and is accepted. -/
def chosen (i : Nat) (e : HandleEntry) : Bool := setLockBit e.Value &&& mask ≠ 0 && accept i e

/-- The choice by index. -/
def selected (E : Nat → HandleEntry) (i : Nat) : Bool := (E i).Value &&& mask ≠ 0 && accept i (E i).unlocked

variable {accept mask} (hE : HandleInv t n E first l) (hu : ∀ i < 512 * n, (E i).Value ≠ 0 → lockBit (E i).Value)

lemma chosen_unlocked (h : lockBit (E i).Value) :
    chosen accept mask i (E i).unlocked = selected accept mask E i := by
  rw [chosen, setLockBit_unlocked h, selected]

lemma value_of_selected (h : selected accept mask E i) : (E i).Value ≠ 0 := by
  rintro h0
  simp [selected, h0] at h

include hE hu

lemma dupEntry_spec (h : Copied d n E F xs (selected accept mask E) m) (hm : m < 512 * n) (hmod : m % 512 ≠ 0) :
    ∃ t' d' F' xs', dupEntry accept mask (t, d) m = some (t', d') ∧ HandleInv t' n E first l ∧
      Copied d' n E F' xs' (selected accept mask E) (m + 1) := by
  rw [dupEntry, hE.entries m hm, do_some]
  by_cases hmask : (E m).Value &&& mask = 0
  · rw [if_pos hmask]
    exact ⟨t, _, _, _, rfl, hE, h.free_entry hm hmod (by simp [selected, hmask])⟩
  have hv : (E m).Value ≠ 0 := fun h0 => hmask (by rw [h0, Nat.zero_and])
  obtain ⟨t1, t2, hl, he, hunl, hinv⟩ := hE.lock_unlock hm hv (hu m hm hv)
  rw [if_neg hmask, hl, do_some]
  simp only [Bool.not_true, Bool.false_eq_true, if_false, he, hunl, do_some]
  by_cases ha : accept m (E m).unlocked
  · rw [if_pos ha, setLockBit_unlocked (hu m hm hv)]
    exact ⟨t2, _, _, _, rfl, hinv, h.copy_entry hm hmod (by simp [selected, hmask, ha])⟩
  · rw [if_neg ha]
    exact ⟨t2, _, _, _, rfl, hinv, h.free_entry hm hmod (by simp [selected, ha])⟩

lemma dupPage_spec (c : Nat) (h : Copied d n E F xs (selected accept mask E) m) (hmod : m % 512 ≠ 0)
    (hc : m % 512 + c ≤ 512) (hm : m + c ≤ 512 * n) :
    ∃ t' d' F' xs', (range' m c).foldlM (dupEntry accept mask) (t, d) = some (t', d') ∧
      HandleInv t' n E first l ∧ Copied d' n E F' xs' (selected accept mask E) (m + c) := by
  induction c generalizing t d F xs m with
  | zero => exact ⟨t, d, F, xs, rfl, hE, h⟩
  | succ c ih =>
    obtain ⟨t1, d1, F1, xs1, heq, hE1, h1⟩ := dupEntry_spec hE hu h (by omega) hmod
    rw [range'_succ, foldlM_cons, heq, do_some]
    cases c with
    | zero => exact ⟨t1, d1, F1, xs1, rfl, hE1, h1⟩
    | succ c =>
      obtain ⟨t', d', F', xs', hrest⟩ := ih hE1 h1 (by omega) (by omega) (by omega)
      exact ⟨t', d', F', xs', by rwa [show m + (c + 1 + 1) = m + 1 + (c + 1) by omega]⟩

lemma dupEntries_spec {j : Nat} (h : Copied d n E F xs (selected accept mask E) (512 * k))
    (hk : k ≤ n) (hf : n - k < j) :
    ∃ t' d' F' xs', dupEntries accept mask j k (t, d) = some (t', d') ∧ HandleInv t' n E first l ∧
      Copied d' n E F' xs' (selected accept mask E) (512 * n) := by
  induction j generalizing t d F xs k with
  | zero => omega
  | succ j ih =>
    rw [dupEntries, expLookupHandleTableEntry, show (t, d).2.NextHandleNeedingPool = _ from h.size]
    by_cases hlt : k < n
    · rw [if_neg (by omega)]
      have hs : selected accept mask E (512 * k) = false :=
        Bool.eq_false_iff.mpr fun hc => value_of_selected hc (hE.reserved _ (by omega) (by omega))
      obtain ⟨t1, d1, F1, xs1, heq, hE1, h1⟩ :=
        dupPage_spec hE hu 511 (h.skip (by omega) hs) (by omega) (by omega) (by omega)
      rw [heq, do_some]
      exact ih hE1 (k := k + 1) h1 (by omega) (by omega)
    · obtain rfl : k = n := by omega
      rw [if_pos (by omega)]
      exact ⟨t, d, F, xs, rfl, hE, h⟩

end

/-- Duplicating a table none of whose entries is locked returns, and leaves the handles of
the source; with memory there is a new table, and its handles are those of the source
that are chosen, with the same entries, while its other entries are on the free list. -/
theorem handle_table_duplicated (h : IsTable t) (hu : ∀ i, ¬ Locked t i) (first : Bool) (alloc : Nat → Nat → Bool)
    (memory : Nat → LowTable) (accept : Nat → HandleEntry → Bool) (mask : Nat) :
    ∃ t' new, t.exDupHandleTable first alloc memory accept mask = some (t', new) ∧ mapping t' = mapping t ∧
      (first ∧ (∀ i j, alloc i j) → new ≠ none) ∧
      ∀ d, new = some d → (mapping d = fun i => (mapping t i).filter (chosen accept mask i)) ∧
        ∃ n free, FreeEntries d n free [] := by
  obtain ⟨n, E, f, l, hE⟩ := h
  have hl (i : Nat) (hi : i < 512 * n) (hv : (E i).Value ≠ 0) : lockBit (E i).Value := by
    by_contra hc
    exact hu i ⟨_, hE.entries i hi, hv, Bool.eq_false_iff.mpr hc⟩
  have hm := hE.paged.le_max
  cases first with
  | false => exact ⟨t, none, rfl, rfl, by simp, by simp⟩
  | true =>
    have hf : Fresh ⟨.low (uninitialized (memory 0)), 4 * 512, 0, 0, 0⟩ 1 :=
      ⟨rfl, rfl, rfl, fun i _ hmd => ⟨_, rfl, by rw [hmd]; rfl⟩⟩
    obtain ⟨r, hr, hme, hd⟩ := dupPages_spec alloc memory hf hm.1 hm.2 (show n - 1 < maxPages + 1 by omega)
    rw [exDupHandleTable, if_neg (by simp), hE.size, hr, do_some]
    cases r with
    | none => exact ⟨t, none, rfl, rfl, fun ha => hme ha.2, by simp⟩
    | some d =>
      obtain ⟨F, hF⟩ := (hd d rfl).copied E (selected accept mask E)
      obtain ⟨t', d', F', xs, heq, hE', h'⟩ :=
        dupEntries_spec hE hl (k := 0) hF (by omega) (show n - 0 < maxPages + 1 by omega)
      dsimp only
      rw [heq, do_some]
      have hin := h'.handleInv rfl hE fun _ => value_of_selected
      refine ⟨t', some d', rfl, ?_, by simp, fun d hd => ?_⟩
      · funext i
        rw [hE'.mapping_eq, hE.mapping_eq]
      · cases hd
        refine ⟨?_, n, xs, hin.freeEntries⟩
        funext i
        rw [hin.mapping_eq, hE.mapping_eq]
        by_cases hi : i < 512 * n
        · by_cases hs : selected accept mask E i
          · have hv := value_of_selected hs
            rw [h'.copied i hi hs, if_pos ⟨hi, hv⟩, filter_some, if_pos ((chosen_unlocked (hl i hi hv)).trans hs)]
          · rw [if_neg fun hc => hs ((h'.value_iff rfl (fun _ => value_of_selected) hi).mp hc.2)]
            split
            case isTrue hc => rw [filter_some, if_neg fun h => hs ((chosen_unlocked (hl i hi hc.2)).symm.trans h)]
            case isFalse => rfl
        · simp [hi]

/-- A table with one handle, duplicated with everything accepted. -/
theorem handle_table_duplicated_one : ∃ t t' d, mapping t 1 = some ⟨8, 1⟩ ∧
    t.exDupHandleTable true (fun _ _ => true) (fun _ _ => ⟨7, 7⟩) (fun _ _ => true) 1 = some (t', some d) ∧
      mapping d 1 = some ⟨8, 1⟩ := by
  obtain ⟨t, heq, hm, hen⟩ : ∃ t, exCreateHandleTable.exCreateHandle (fun _ => true) ⟨8, 1⟩ = some (t, 4) ∧
      mapping t 1 = some ⟨8, 1⟩ ∧ ∀ i, (t.TableCode.entry i).any fun e => e.Value = 0 ∨ lockBit e.Value := by
    refine ⟨_, rfl, rfl, fun i => ?_⟩
    show decide ((update (update (expAllocateLowLevelTable 0) 1 ⟨8, 1⟩) 1 ⟨9, 1⟩ (i % 512)).Value = 0 ∨ _) = true
    by_cases hi : i % 512 = 1
    · rw [hi]
      rfl
    · simp [update_of_ne hi, lowLevelTable_value]
  obtain ⟨t1, handle, h1, hin, -⟩ := create_spec (e := ⟨8, 1⟩) create_table_inv ⟨by decide, rfl⟩ fun _ => true
  cases heq.symm.trans h1
  have hu (i : Nat) : ¬ Locked t i := by
    rintro ⟨e, he, hv, hl⟩
    simpa [he, hv, hl] using hen i
  obtain ⟨t', nw, hdp, -, hne, hd⟩ := handle_table_duplicated hin hu true (fun _ _ => true) (fun _ _ => ⟨7, 7⟩)
    (fun _ _ => true) 1
  obtain ⟨d, rfl⟩ := Option.ne_none_iff_exists'.mp (hne ⟨rfl, fun _ _ => rfl⟩)
  exact ⟨t, t', d, hm, hdp, by
    rw [(hd d rfl).1]
    dsimp only
    rw [hm]
    rfl⟩

end FreeNT.Ex
