import Mathlib.Data.Finset.Card
import FreeNT.Ex.HandlePages

/-!
# A handle table is a finite map

`mapping t` gives the entries of the live handles, by index. The invariant (`HandleInv`)
sees the pages as one array of entries `E` and the two lists of free entries as the lists
`first` and `last` of indices. Each call changes the mapping at most at its own handle
(`create_spec`, `destroy_spec`, `map_spec`).
-/

namespace FreeNT.Ex

open HandleTable List Option Function

variable {t t' : HandleTable} {n i j : Nat} {E : Nat → HandleEntry}
  {first last first' last' : List Nat} {e : HandleEntry}

/-- The entry as it was given: without the lock bit. -/
def HandleEntry.unlocked (e : HandleEntry) : HandleEntry := ⟨clearLockBit e.Value, e.GrantedAccess⟩

lemma unlocked_setLockBit (h : lockBit e.Value = false) :
    HandleEntry.unlocked ⟨setLockBit e.Value, e.GrantedAccess⟩ = e := by
  obtain ⟨v, g⟩ := e
  simp only [lockBit, decide_eq_false_iff_not] at h
  simp only [HandleEntry.unlocked, setLockBit, clearLockBit, HandleEntry.mk.injEq, and_true]
  omega

lemma unlocked_clearLockBit : HandleEntry.unlocked ⟨clearLockBit e.Value, e.GrantedAccess⟩ = e.unlocked := by
  simp only [HandleEntry.unlocked, clearLockBit, HandleEntry.mk.injEq, and_true]
  omega

lemma lockBit_clearLockBit (v : Nat) : lockBit (clearLockBit v) = false := by
  unfold lockBit clearLockBit
  exact decide_eq_false (by omega)

/-- The entry of a live handle with the index `i`. -/
def mapping (t : HandleTable) (i : Nat) : Option HandleEntry :=
  if 4 * i < t.NextHandleNeedingPool ∧ i % 512 ≠ 0 then
    (t.TableCode.entry i).bind fun e => if e.Value = 0 then none else some e.unlocked
  else none

/-- The entry is in use by a caller that has mapped it. -/
def Locked (t : HandleTable) (i : Nat) : Prop :=
  ∃ e, t.TableCode.entry i = some e ∧ e.Value ≠ 0 ∧ lockBit e.Value = false

/-- An entry that can be given: an object, the lock bit clear, and not the mark -2 in
place of the granted access. -/
def ValidEntry (e : HandleEntry) : Prop := e.Value ≠ 0 ∧ lockBit e.Value = false ∧ e.GrantedAccess ≠ noFreeEntry

/-- The handles of the entries, from the handle `head` on. -/
def FreeList (E : Nat → HandleEntry) (head : Nat) (l : List Nat) : Prop :=
  Chain (4 * ·) (fun i => (E i).GrantedAccess) 0 head l

/-- The indices of the live handles. -/
def liveSet (E : Nat → HandleEntry) (n : Nat) : Finset Nat :=
    (Finset.range (512 * n)).filter fun i => (E i).Value ≠ 0

structure HandleInv (t : HandleTable) (n : Nat) (E : Nat → HandleEntry) (first last : List Nat) : Prop where
  paged : Paged t.TableCode n
  size : t.NextHandleNeedingPool = 4 * (512 * n)
  entries : ∀ i < 512 * n, t.TableCode.entry i = some (E i)
  firstChain : FreeList E t.FirstFree first
  lastChain : FreeList E t.LastFree last
  nodup : (first ++ last).Nodup
  free : ∀ i, i ∈ first ++ last ↔ i < 512 * n ∧ i % 512 ≠ 0 ∧ (E i).Value = 0
  reserved : ∀ i < 512 * n, i % 512 = 0 → (E i).Value = 0
  valid : ∀ i < 512 * n, (E i).Value ≠ 0 → 2 ≤ (E i).Value
  count : t.HandleCount = (liveSet E n).card

lemma FreeList.update {head : Nat} {l : List Nat} (h : FreeList E head l) (hi : i ∉ l) :
    FreeList (update E i e) head l :=
  Chain.congr h fun x hx => by rw [update_of_ne (ne_of_mem_of_not_mem hx hi)]

lemma FreeList.eq_nil {l : List Nat} (h : FreeList E 0 l) (hl : ∀ i ∈ l, i % 512 ≠ 0) : l = [] := by
  cases l with
  | nil => rfl
  | cons i l =>
    have hi : 0 = 4 * i := h.1
    have := hl i mem_cons_self
    omega

lemma FreeList.range {k : Nat} (hn : ∀ j < k, (E (i + j)).GrantedAccess = 4 * (i + j + 1))
    (hl : (E (i + k)).GrantedAccess = 0) : FreeList E (4 * i) (range' i (k + 1)) := by
  induction k generalizing i with
  | zero => exact ⟨rfl, hl⟩
  | succ k ih =>
    refine ⟨rfl, ?_⟩
    have hf := hn 0 (Nat.succ_pos k)
    rw [Nat.add_zero] at hf
    show Chain _ _ _ (E i).GrantedAccess _
    rw [hf]
    refine ih (fun j hj => ?_) ?_
    · have := hn (j + 1) (by omega)
      rwa [show i + (j + 1) = i + 1 + j by omega] at this
    · rwa [show i + 1 + k = i + (k + 1) by omega]

lemma liveSet_insert (hi : i < 512 * n) (hf : (E i).Value = 0) (he : e.Value ≠ 0) :
    (liveSet (update E i e) n).card = (liveSet E n).card + 1 := by
  have hs : liveSet (update E i e) n = insert i (liveSet E n) := by
    ext j
    by_cases hj : j = i
    · subst hj
      simp [liveSet, hi, he]
    · simp [liveSet, hj]
  rw [hs, Finset.card_insert_of_notMem (by simp [liveSet, hf])]

lemma liveSet_erase (hi : i < 512 * n) (hl : (E i).Value ≠ 0) (he : e.Value = 0) :
    (liveSet (update E i e) n).card + 1 = (liveSet E n).card := by
  have hs : liveSet (update E i e) n = (liveSet E n).erase i := by
    ext j
    by_cases hj : j = i
    · subst hj
      simp [liveSet, he]
    · simp [liveSet, hj]
  rw [hs, Finset.card_erase_add_one (by simp [liveSet, hi, hl])]

namespace HandleInv

section

variable (h : HandleInv t n E first last)

include h

lemma size_le : 512 * n ≤ 2 ^ 24 := by
  have := h.paged.le_max.2
  unfold maxPages at this
  omega

lemma mapping_eq : mapping t i = if i < 512 * n ∧ (E i).Value ≠ 0 then some (E i).unlocked else none := by
  unfold mapping
  rw [h.size]
  by_cases hi : i < 512 * n
  · by_cases hm : i % 512 = 0
    · rw [if_neg fun hc => hc.2 hm, if_neg fun hc => hc.2 (h.reserved i hi hm)]
    rw [if_pos ⟨by omega, hm⟩, h.entries i hi, bind_some]
    by_cases hv : (E i).Value = 0
    · rw [if_pos hv, if_neg fun hc => hc.2 hv]
    · rw [if_neg hv, if_pos ⟨hi, hv⟩]
  · rw [if_neg (by omega), if_neg fun hc => hi hc.1]

lemma lookup_eq (hn : Nat) :
    t.expLookupHandleTableEntry hn = if hn / 4 < 512 * n then some (hn / 4) else none := by
  have := h.size_le
  rw [expLookupHandleTableEntry, h.size]
  split
  · rw [if_neg (by omega)]
  · rw [if_pos (by omega), Nat.mod_eq_of_lt (by omega)]

lemma update_live (hi : i < 512 * n) (hl : (E i).Value ≠ 0) (he : 2 ≤ e.Value) :
    HandleInv { t with TableCode := t.TableCode.setEntry i e } n (update E i e) first last := by
  have hn : i ∉ first ++ last := fun hm => hl ((h.free i).mp hm).2.2
  rw [mem_append, not_or] at hn
  have hvalue (j : Nat) : (update E i e j).Value = 0 ↔ (E j).Value = 0 := by
    rw [update_apply]
    split
    case isTrue heq =>
      subst heq
      exact ⟨fun h0 => by omega, fun h0 => absurd h0 hl⟩
    case isFalse => rfl
  refine ⟨h.paged.setEntry hi, h.size, h.paged.entries_set h.entries hi, h.firstChain.update hn.1,
    h.lastChain.update hn.2, h.nodup,
    fun j => ?_, fun j hj hmd => ?_, fun j hj hv => ?_, ?_⟩
  · rw [hvalue]
    exact h.free j
  · exact (hvalue j).mpr (h.reserved j hj hmd)
  · rw [update_apply]
    split
    · exact he
    · exact h.valid j hj fun h0 => hv ((hvalue j).mpr h0)
  · rw [h.count]
    simp [liveSet, ne_eq, hvalue]

section

variable (h' : HandleInv t' n (update E i e) first' last') (hi : i < 512 * n)

include h' hi

lemma mapping_update :
    mapping t' = update (mapping t) i (if e.Value ≠ 0 then some e.unlocked else none) := by
  funext j
  rw [h'.mapping_eq]
  by_cases hj : j = i
  · subst hj
    simp [update_self, hi, true_and]
  · rw [update_of_ne hj, update_of_ne hj, h.mapping_eq]

lemma mapping_same (hl : (E i).Value ≠ 0)
    (he : e.Value ≠ 0) (hs : e.unlocked = (E i).unlocked) : mapping t' = mapping t := by
  rw [h.mapping_update h' hi, if_pos he, hs, update_eq_self_iff, h.mapping_eq, if_pos ⟨hi, hl⟩]

end

lemma mod_ne (hi : i ∈ first ++ last) : i % 512 ≠ 0 := ((h.free i).mp hi).2.1

end

/-- The list of `LastFree` takes the place of the empty list of `FirstFree`. -/
lemma move (h : HandleInv t n E [] last) :
    HandleInv { t with LastFree := 0, FirstFree := t.LastFree } n E last [] := by
  refine ⟨h.paged, h.size, h.entries, h.lastChain, rfl, ?_, fun i => ?_, h.reserved, h.valid, h.count⟩
  · rw [append_nil]
    exact h.nodup
  · rw [append_nil]
    exact h.free i

end HandleInv

/-- The entries with those of a new page. -/
def withPage (E : Nat → HandleEntry) (n : Nat) : Nat → HandleEntry := fun i =>
  if i < 512 * n then E i else expAllocateLowLevelTable (4 * (512 * n)) (i - 512 * n)

lemma lowLevelTable_value {next k : Nat} : (expAllocateLowLevelTable next k).Value = 0 := by
  rw [expAllocateLowLevelTable]
  split
  · rfl
  · split <;> rfl

lemma withPage_value (hi : ¬ i < 512 * n) : (withPage E n i).Value = 0 := by
  rw [withPage, if_neg hi, lowLevelTable_value]

lemma withPage_freeList (E : Nat → HandleEntry) (n : Nat) :
    FreeList (withPage E n) (4 * (512 * n) + 4) (range' (512 * n + 1) 511) := by
  refine FreeList.range (i := 512 * n + 1) (k := 510) (fun j hj => ?_) ?_
  · rw [withPage, if_neg (by omega), expAllocateLowLevelTable, if_neg (by omega), if_pos (by omega)]
    dsimp only
    omega
  · rw [withPage, if_neg (by omega), expAllocateLowLevelTable, if_neg (by omega), if_neg (by omega)]

lemma HandleInv.slow_spec (h : HandleInv t n E [] []) (hfs : t.FirstFree = 0) (a : Nat → Bool) :
    expAllocateHandleTableEntrySlow a t = some (t, false) ∧ ((∀ k, a k) → maxPages ≤ n) ∨
      ∃ t', expAllocateHandleTableEntrySlow a t = some (t', true) ∧ t'.FirstFree ≠ 0 ∧
        HandleInv t' (n + 1) (withPage E n) (range' (512 * n + 1) 511) [] ∧ mapping t' = mapping t := by
  rw [expAllocateHandleTableEntrySlow]
  rcases growTable_spec a h.paged h.size with ⟨heq, hf⟩ | ⟨c, heq, hg⟩ <;> rw [heq]
  · exact .inl ⟨rfl, hf⟩
  right
  dsimp only
  have he (i : Nat) (hi : i < 512 * (n + 1)) : c.entry i = some (withPage E n i) := by
    rw [withPage]
    split
    case isTrue hlt => rw [← h.entries i hlt, TableCode.entry, hg.old _ (by omega), TableCode.entry]
    case isFalse hge =>
      rw [TableCode.entry, show i / 512 =
        n by omega, hg.new, map_some, h.size, show i % 512 = i - 512 * n by omega]
  have hls : t.NextHandleNeedingPool / 4 + 511 = 512 * n + 511 := by rw [h.size]; omega
  have hl : withPage E n (512 * n + 511) = ⟨0, 0⟩ := by
    rw [withPage, if_neg (by omega), expAllocateLowLevelTable, if_neg (by omega), if_neg (by omega)]
  rw [hls, he _ (by omega), hl, do_some, hfs, h.size]
  have hin : HandleInv { t with
      TableCode := c.setEntry (512 * n + 511) ⟨0, 0⟩
      NextHandleNeedingPool := 4 * (512 * n) + 4 * 512
      FirstFree := 4 * (512 * n) + 4 } (n + 1) (withPage E n) (range' (512 * n + 1) 511) [] := by
    refine ⟨hg.paged.setEntry
      (by omega), by dsimp only; omega, fun i hi => ?_, withPage_freeList E n, h.lastChain, ?_,
      fun i => ?_, fun i hi hm => ?_, fun i hi hv => ?_, ?_⟩
    · rw [hg.paged.entry_setEntry (by omega) hi]
      split
      case isTrue heq => rw [heq, hl]
      case isFalse => exact he i hi
    · rw [append_nil]
      exact nodup_range'
    · rw [append_nil, mem_range'_1]
      by_cases hi : i < 512 * n
      · have hn := (h.free i).not.mp not_mem_nil
        rw [withPage, if_pos hi]
        constructor
        · omega
        · exact fun hc => absurd ⟨hi, hc.2⟩ hn
      · rw [withPage_value hi]
        omega
    · by_cases hlt : i < 512 * n
      · rw [withPage, if_pos hlt]
        exact h.reserved i hlt hm
      · exact withPage_value hlt
    · by_cases hlt : i < 512 * n
      · rw [withPage, if_pos hlt] at hv ⊢
        exact h.valid i hlt hv
      · exact absurd (withPage_value hlt) hv
    refine h.count.trans (congrArg (fun s : Finset Nat => (s.card : Int)) ?_)
    ext i
    simp only [liveSet, Finset.mem_filter, Finset.mem_range]
    by_cases hlt : i < 512 * n
    · rw [withPage, if_pos hlt]
      simp [hlt, true_and, show i < 512 * (n + 1) by omega]
    · simp [hlt, withPage_value hlt]
  refine ⟨_, rfl, by dsimp only; omega, hin, ?_⟩
  funext i
  rw [hin.mapping_eq, h.mapping_eq]
  by_cases hlt : i < 512 * n
  · rw [withPage, if_pos hlt]
    simp [hlt, true_and, show i < 512 * (n + 1) by omega]
  · rw [if_neg fun hc => hc.2 (withPage_value hlt), if_neg fun hc => hlt hc.1]

/-- There is a free handle on the first list after this, unless there is no memory. -/
lemma findFree_spec (h : HandleInv t n E first last) (a : Nat → Bool) :
    ∃ t' found, findFree a t = some (t', found) ∧ mapping t' = mapping t ∧
      ∃ n' E' first' last', HandleInv t' n' E' first' last' ∧ (found → first' ≠ []) ∧
        (found = false → first' = [] ∧ last' = [] ∧ ((∀ k, a k) → maxPages ≤ n')) := by
  have hc := h.firstChain
  unfold findFree
  split
  case isTrue hfs =>
    refine ⟨t, true, rfl, rfl, n, E, first, last, h, ?_, by simp⟩
    rintro - rfl
    exact hfs hc
  case isFalse hfs =>
    rw [not_not] at hfs
    rw [hfs] at hc
    obtain rfl := hc.eq_nil fun i hi => h.mod_ne (mem_append_left _ hi)
    have hl := h.lastChain
    unfold expMoveFreeHandles
    split
    case isTrue hz =>
      rw [hz] at hl
      obtain rfl := hl.eq_nil fun i hi => h.mod_ne (mem_append_right _ hi)
      rw [do_some]
      dsimp only
      rcases h.slow_spec hfs a with ⟨heq, hf⟩ | ⟨t', heq, hne, hin, hm⟩
      · rw [heq, do_some]
        rw [if_neg (not_not.mpr hfs), if_neg Bool.false_ne_true]
        exact ⟨t, false, rfl, rfl, n, E, [], [], h, nofun, fun _ => ⟨rfl, rfl, hf⟩⟩
      rw [heq, do_some]
      rw [if_pos hne]
      exact ⟨t', true, rfl, hm, _, _, _, _, hin, fun _ => by simp, by simp⟩
    case isFalse hne =>
      rw [do_some]
      dsimp only
      rw [if_pos hne]
      refine ⟨_, true, rfl, rfl, n, E, last, [], h.move, ?_, by simp⟩
      rintro - rfl
      exact hne hl

lemma HandleInv.next_lt (h : HandleInv t n E (i :: first) last) :
    (E i).GrantedAccess < t.NextHandleNeedingPool := by
  have hn := h.paged.le_max.1
  rw [h.size]
  cases hf : first with
  | nil =>
    have hl : (E i).GrantedAccess = 0 := by
      have := h.firstChain.2
      rwa [hf] at this
    omega
  | cons j r =>
    have hnx : (E i).GrantedAccess = 4 * j := by
      have := h.firstChain.2
      rw [hf] at this
      exact this.1
    have := ((h.free j).mp (by rw [hf]; simp)).1
    omega

lemma HandleInv.take (h : HandleInv t n E (i :: first) last) (he : e.Value ≠ 0 ∧ lockBit e.Value = false) :
    HandleInv { t with
      TableCode := (t.TableCode.setEntry i e).setEntry i ⟨setLockBit e.Value, e.GrantedAccess⟩
      FirstFree := (E i).GrantedAccess
      HandleCount := t.HandleCount + 1 } n (update E i ⟨setLockBit e.Value, e.GrantedAccess⟩) first last := by
  obtain ⟨hi, hmd, hf⟩ := (h.free i).mp mem_cons_self
  obtain ⟨hn', hnd⟩ : i ∉ first ++ last ∧ (first ++ last).Nodup := nodup_cons.mp h.nodup
  have hn := hn'
  rw [mem_append, not_or] at hn
  obtain ⟨hvalue, hl⟩ := he
  have hlk : 2 ≤ setLockBit e.Value := by
    simp only [lockBit, decide_eq_false_iff_not] at hl
    unfold setLockBit
    omega
  refine ⟨(h.paged.setEntry hi).setEntry hi, h.size, fun j hj => ?_, FreeList.update h.firstChain.2 hn.1,
    h.lastChain.update hn.2, hnd, fun j => ?_, fun j hj hjm => ?_, fun j hj hv => ?_, ?_⟩
  · rw [(h.paged.setEntry hi).entry_setEntry hi hj, h.paged.entry_setEntry hi hj, update_apply, h.entries j hj]
    split <;> rfl
  · by_cases hji : j = i
    · subst hji
      rw [update_self]
      refine ⟨fun hm => absurd hm hn', fun hc => ?_⟩
      have : setLockBit e.Value = 0 := hc.2.2
      omega
    · rw [update_of_ne hji, ← h.free j, cons_append, mem_cons]
      exact ⟨.inr, fun hc => hc.resolve_left hji⟩
  · rw [update_of_ne (by rintro rfl; exact hmd hjm)]
    exact h.reserved j hj hjm
  · by_cases hji : j = i
    · subst hji
      rw [update_self]
      exact hlk
    · rw [update_of_ne hji] at hv ⊢
      exact h.valid j hj hv
  · rw [liveSet_insert hi hf (by dsimp only; omega), Int.natCast_add, ← h.count]
    rfl

lemma unlock_eq (he : t.TableCode.entry i = some e) (hl : lockBit e.Value = false) : t.exUnlockHandleTableEntry i =
      some { t with TableCode := t.TableCode.setEntry i { e with Value := setLockBit e.Value } } := by
  rw [exUnlockHandleTableEntry, he, do_some, hl, if_neg Bool.false_ne_true]

/-- A created handle was not live, and has the entry. Without memory nothing changes. -/
lemma create_spec (h : HandleInv t n E first last) (he : e.Value ≠ 0 ∧ lockBit e.Value = false) (a : Nat → Bool) :
    ∃ t' hd, t.exCreateHandle a e = some (t', hd) ∧ (∃ n' E' first' last', HandleInv t' n' E' first' last') ∧
      (hd = 0 → (∀ k, a k) → ∀ i < 512 * maxPages, i % 512 ≠ 0 → mapping t i ≠ none) ∧
      (hd = 0 → mapping t' = mapping t) ∧
      (hd ≠ 0 → hd % 4 = 0 ∧ mapping t (hd / 4) = none ∧
        mapping t' = update (mapping t) (hd / 4) (some e)) := by
  obtain ⟨t1, found, hf, hm, n, E, first, last, h1, hne, hn⟩ := findFree_spec h a
  rw [exCreateHandle, expAllocateHandleTableEntry, hf, bind_eq_bind, do_some]
  cases found with
  | false =>
    refine ⟨t1, 0, rfl, ⟨n, E, first, last, h1⟩, fun _ ha i hi hmd => ?_, fun _ => hm, fun hc => absurd rfl hc⟩
    -- the table is full, and no index is on a list
    obtain ⟨rfl, rfl, hfl⟩ := hn rfl
    have := hfl ha
    have hlv := mt (fun h0 => (h1.free i).mpr ⟨by omega, hmd, h0⟩) not_mem_nil
    rw [← hm, h1.mapping_eq, if_pos ⟨by omega, hlv⟩]
    exact some_ne_none _
  | true =>
    cases first with
    | nil => exact absurd rfl (hne rfl)
    | cons i first =>
      obtain ⟨hi, hmd, hfr⟩ := (h1.free i).mp mem_cons_self
      have hh : t1.FirstFree = 4 * i := h1.firstChain.1
      have hlk : t1.expLookupHandleTableEntry (4 * i) = some i := by
        rw [h1.lookup_eq, show 4 * i / 4 = i by omega, if_pos hi]
      have hl := he.2
      have hen : (t1.TableCode.setEntry i e).entry i = some e := by
        rw [h1.paged.entry_setEntry hi hi, if_pos rfl]
      simp only [Bool.not_true, if_neg Bool.false_ne_true, hh, hlk, bind_some, h1.entries i hi,
        if_neg (Nat.not_le_of_lt h1.next_lt), bind_eq_bind]
      have ht := h1.take he
      refine ⟨_, _, bind_eq_some_iff.mpr ⟨i, hlk, bind_eq_some_iff.mpr ⟨_, unlock_eq hen hl, rfl⟩⟩,
        ⟨n, _, first, last, ht⟩, fun hc => ?_, fun hc => ?_, fun _ => ⟨by omega, ?_, ?_⟩⟩
      · omega
      · omega
      · rw [← hm, h1.mapping_eq, show 4 * i / 4 = i by omega, if_neg fun hc => hc.2 hfr]
      · rw [← hm, h1.mapping_update ht hi, show 4 * i / 4 = i by omega,
          if_pos (show setLockBit e.Value ≠ 0 by unfold setLockBit; omega), unlocked_setLockBit hl]

lemma free_eq {hn : Nat} (hen : t.TableCode.entry i = some e) (he : e.Value = 0)
    (hlk : t.expLookupHandleTableEntry hn = some i) (hl : t.LastFree < t.NextHandleNeedingPool) :
    t.expFreeHandleTableEntry hn i = some { t with
      TableCode := t.TableCode.setEntry i { e with GrantedAccess := t.LastFree }
      LastFree := hn / 4 * 4
      HandleCount := t.HandleCount - 1 } := by
  rw [expFreeHandleTableEntry, hen, do_some, if_neg]
  rintro (hc | hc | hc)
  · exact hc he
  · exact hc hlk
  · exact Nat.not_le_of_lt hl hc

lemma lock_spec (h : HandleInv t n E first last) (hi : i < 512 * n) (hl : (E i).Value ≠ 0)
    (hlc : lockBit (E i).Value) :
    ∃ t', expLockHandleTableEntry t i = some (t', true) ∧ mapping t' = mapping t ∧
      HandleInv t' n (update E i ⟨clearLockBit (E i).Value, (E i).GrantedAccess⟩) first last := by
  have hvalue := h.valid i hi hl
  have ht : 2 ≤ clearLockBit (E i).Value := by unfold clearLockBit; omega
  have hin := h.update_live (e := ⟨clearLockBit (E i).Value, (E i).GrantedAccess⟩) hi hl ht
  refine ⟨_, ?_, h.mapping_same hin hi hl (by dsimp only; omega) unlocked_clearLockBit, hin⟩
  rw [expLockHandleTableEntry, h.entries i hi, do_some, if_pos hlc]

lemma lock_free (hen : t.TableCode.entry i = some e) (he : e.Value = 0) :
    expLockHandleTableEntry t i = some (t, false) := by
  have hl : lockBit e.Value = false := by rw [he]; rfl
  rw [expLockHandleTableEntry, hen, do_some, hl, if_neg Bool.false_ne_true, if_pos he]

lemma clear_spec (h : HandleInv t n E first last) (hi : i < 512 * n) (hlv : (E i).Value ≠ 0)
    (hlc : lockBit (E i).Value = false) {hd : Nat} (hh : hd / 4 = i) :
    ∃ t', clearEntry t hd i = some (t', true) ∧ mapping t' = update (mapping t) i none ∧
      HandleInv t' n (update E i ⟨0, t.LastFree⟩) first (i :: last) := by
  have hm : i % 512 ≠ 0 := fun hm => hlv (h.reserved i hi hm)
  have hnt' : i ∉ first ++ last := fun hme => hlv ((h.free i).mp hme).2.2
  have hnt := hnt'
  rw [mem_append, not_or] at hnt
  have hls : t.LastFree < t.NextHandleNeedingPool := by
    rw [h.size]
    cases hl : last with
    | nil =>
      have : t.LastFree = 0 := by
        have := h.lastChain
        rwa [hl] at this
      omega
    | cons j r =>
      have hnx : t.LastFree = 4 * j := by
        have := h.lastChain
        rw [hl] at this
        exact this.1
      have := ((h.free j).mp (by rw [hl]; simp)).1
      omega
  have he : (t.TableCode.setEntry i { E i with Value := 0 }).entry i = some { E i with Value := 0 } := by
    rw [h.paged.entry_setEntry hi hi, if_pos rfl]
  have hin : HandleInv { t with
      TableCode := (t.TableCode.setEntry i { E i with Value := 0 }).setEntry i ⟨0, t.LastFree⟩
      LastFree := hd / 4 * 4
      HandleCount := t.HandleCount - 1 } n (update E i ⟨0, t.LastFree⟩) first (i :: last) := by
    refine ⟨(h.paged.setEntry hi).setEntry hi, h.size, fun j hj => ?_, h.firstChain.update hnt.1,
      ⟨?_, ?_⟩, ?_, fun j => ?_,
      fun j hj hjm => ?_, fun j hj hv => ?_, ?_⟩
    · rw [(h.paged.setEntry hi).entry_setEntry hi hj, h.paged.entry_setEntry hi hj, update_apply, h.entries j hj]
      split <;> rfl
    · show hd / 4 * 4 = 4 * i
      omega
    · show Chain _ _ _ (update E i _ i).GrantedAccess last
      rw [update_self]
      exact h.lastChain.update hnt.2
    · exact nodup_middle.mpr (nodup_cons.mpr ⟨hnt', h.nodup⟩)
    · rw [perm_middle.mem_iff, mem_cons]
      by_cases hji : j = i
      · subst hji
        rw [update_self]
        exact ⟨fun _ => ⟨hi, hm, rfl⟩, fun _ => .inl rfl⟩
      · rw [update_of_ne hji, ← h.free j]
        exact ⟨fun hc => hc.resolve_left hji, .inr⟩
    · by_cases hji : j = i
      · subst hji
        rw [update_self]
      · rw [update_of_ne hji]
        exact h.reserved j hj hjm
    · by_cases hji : j = i
      · subst hji
        rw [update_self] at hv
        exact absurd rfl hv
      · rw [update_of_ne hji] at hv ⊢
        exact h.valid j hj hv
    have := liveSet_erase (e := ⟨0, t.LastFree⟩) hi hlv rfl
    have hcn := h.count
    dsimp only
    omega
  refine ⟨_, ?_, ?_, hin⟩
  · have hlk : t.expLookupHandleTableEntry hd = some i := by rw [h.lookup_eq, hh, if_pos hi]
    rw [clearEntry, h.entries i hi, do_some, if_neg (by rw [hlc]; simp [hlv])]
    exact bind_eq_some_iff.mpr ⟨_, free_eq he rfl hlk hls, rfl⟩
  · rw [h.mapping_update hin hi]
    rfl

/-- The table after a call is a table again. -/
def IsTable (t : HandleTable) : Prop := ∃ n E first last, HandleInv t n E first last

lemma update_none (h : mapping t i = none) : mapping t = update (mapping t) i none :=
    (update_eq_self_iff.mpr h.symm).symm

variable (h : HandleInv t n E first last)

include h

/-- Destroying a handle removes it, and fails exactly if it is not live. -/
lemma destroy_spec (hd : Nat) (hlk : ¬ Locked t (hd / 4)) :
    ∃ t' r, t.exDestroyHandle hd none = some (t', r) ∧ IsTable t' ∧
      ((∀ e, mapping t (hd / 4) = some e → e.GrantedAccess ≠ noFreeEntry) →
        (r ↔ mapping t (hd / 4) ≠ none) ∧ mapping t' = update (mapping t) (hd / 4) none) := by
  rw [exDestroyHandle, h.lookup_eq]
  by_cases hi : hd / 4 < 512 * n
  swap
  · have hn : mapping t (hd / 4) = none := by rw [h.mapping_eq, if_neg fun hc => hi hc.1]
    rw [if_neg hi]
    exact ⟨t, false, rfl, ⟨n, E, first, last, h⟩, fun _ => ⟨⟨nofun, fun hc => absurd hn hc⟩, update_none hn⟩⟩
  rw [if_pos hi]
  dsimp only
  rw [h.entries _ hi, do_some]
  by_cases hl : (E (hd / 4)).Value = 0
  · have hn : mapping t (hd / 4) = none := by rw [h.mapping_eq, if_neg fun hc => hc.2 hl]
    rw [if_pos (.inl hl)]
    exact ⟨t, false, rfl, ⟨n, E, first, last, h⟩, fun _ => ⟨⟨nofun, fun hc => absurd hn hc⟩, update_none hn⟩⟩
  have hs : mapping t (hd / 4) = some (E (hd / 4)).unlocked := by rw [h.mapping_eq, if_pos ⟨hi, hl⟩]
  by_cases hga : (E (hd / 4)).GrantedAccess = noFreeEntry
  · rw [if_pos (.inr hga)]
    exact ⟨t, false, rfl, ⟨n, E, first, last, h⟩, fun hm => (hm _ hs hga).elim⟩
  have hlo : lockBit (E (hd / 4)).Value := by
    by_contra hc
    exact hlk ⟨_, h.entries _ hi, hl, Bool.not_eq_true _ ▸ hc⟩
  obtain ⟨t1, hlc, hmp1, h1⟩ := lock_spec h hi hl hlo
  have hvalue := h.valid _ hi hl
  obtain ⟨t2, hcl, hmp2, h2⟩ := clear_spec h1 hi (by rw [update_self]; unfold clearLockBit; dsimp only; omega)
    (by rw [update_self]; exact lockBit_clearLockBit _) rfl
  rw [if_neg fun hc => hc.elim hl hga, hlc, do_some]
  refine ⟨t2, true, hcl, ⟨n, _, first, _, h2⟩, fun _ => ⟨⟨fun _ => ?_, fun _ => rfl⟩, by rw [hmp2, hmp1]⟩⟩
  rw [hs]
  exact some_ne_none _

lemma Locked.live (hi : i < 512 * n) (hlk : Locked t i) : (E i).Value ≠ 0 ∧ lockBit (E i).Value = false := by
  obtain ⟨e, he, hl, hlc⟩ := hlk
  cases (h.entries i hi).symm.trans he
  exact ⟨hl, hlc⟩

/-- A caller that has the entry locked destroys the handle for certain. -/
lemma destroy_locked_spec (hn : Nat) (hi : hn / 4 < 512 * n) (hlk : Locked t (hn / 4)) :
    ∃ t', t.exDestroyHandle hn (some (hn / 4)) = some (t', true) ∧ IsTable t' ∧
      mapping t' = update (mapping t) (hn / 4) none := by
  obtain ⟨hl, hlc⟩ := hlk.live h hi
  obtain ⟨t', hc, hm, h'⟩ := clear_spec h hi hl hlc rfl
  exact ⟨t', hc, ⟨n, _, first, _, h'⟩, hm⟩

/-- Mapping a handle gives the entry that is stored, exactly if the handle is live. -/
lemma map_spec (hd : Nat) (hlk : ¬ Locked t (hd / 4)) :
    ∃ t' p, t.exMapHandleToPointer hd = some (t', p) ∧ IsTable t' ∧ mapping t' = mapping t ∧
      (p = none ↔ mapping t (hd / 4) = none) ∧
      ∀ i, p = some i → i = hd / 4 ∧ t'.TableCode.entry i = mapping t i := by
  rw [exMapHandleToPointer]
  by_cases hmd : hd / 4 % 512 = 0
  · have hn : mapping t (hd / 4) = none := if_neg fun hc => hc.2 hmd
    rw [if_pos (by omega)]
    exact ⟨t, none, rfl, ⟨n, E, first, last, h⟩, rfl, iff_of_true rfl hn, nofun⟩
  rw [if_neg (by omega), h.lookup_eq]
  by_cases hi : hd / 4 < 512 * n
  swap
  · have hn : mapping t (hd / 4) = none := by rw [h.mapping_eq, if_neg fun hc => hi hc.1]
    rw [if_neg hi]
    exact ⟨t, none, rfl, ⟨n, E, first, last, h⟩, rfl, iff_of_true rfl hn, nofun⟩
  rw [if_pos hi]
  by_cases hl : (E (hd / 4)).Value = 0
  · have hn : mapping t (hd / 4) = none := by rw [h.mapping_eq, if_neg fun hc => hc.2 hl]
    dsimp only
    rw [lock_free (h.entries _ hi) hl, do_some]
    exact ⟨t, none, rfl, ⟨n, E, first, last, h⟩, rfl, iff_of_true rfl hn, nofun⟩
  have hlo : lockBit (E (hd / 4)).Value := by
    by_contra hc
    exact hlk ⟨_, h.entries _ hi, hl, Bool.not_eq_true _ ▸ hc⟩
  obtain ⟨t1, hlc, hm1, h1⟩ := lock_spec h hi hl hlo
  dsimp only
  rw [hlc, do_some]
  refine ⟨t1, some (hd / 4), rfl, ⟨n, _, first, last, h1⟩, hm1, ?_, ?_⟩
  · rw [h.mapping_eq, if_pos ⟨hi, hl⟩]
    exact iff_of_false (some_ne_none _) (some_ne_none _)
  rintro i ⟨⟩
  refine ⟨rfl, ?_⟩
  rw [h1.entries _ hi, update_self, h.mapping_eq, if_pos ⟨hi, hl⟩]
  rfl

lemma unlock_spec (hi : i < 512 * n) (hlk : Locked t i) :
    ∃ t', t.exUnlockHandleTableEntry i = some t' ∧ IsTable t' ∧ mapping t' = mapping t := by
  obtain ⟨hl, hlc⟩ := hlk.live h hi
  have hvalue := h.valid i hi hl
  have ht : 2 ≤ setLockBit (E i).Value := by
    unfold setLockBit
    omega
  have hin := h.update_live (e := ⟨setLockBit (E i).Value, (E i).GrantedAccess⟩) hi hl ht
  refine ⟨_, unlock_eq (h.entries i hi) hlc, ⟨n, _, first, last, hin⟩,
    h.mapping_same hin hi hl (by dsimp only; omega) ?_⟩
  simp only [HandleEntry.unlocked, setLockBit, clearLockBit, HandleEntry.mk.injEq, and_true]
  omega

end FreeNT.Ex
