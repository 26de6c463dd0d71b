import FreeNT.Mm.PfnInsert

/-!
# Runs of the page lists

Pages are put on the lists of free and zeroed pages and taken off again, one by one or as the
next page of a colour. Between the calls the owner of a page that is on no list may do with its
entry what it likes. `listed` is kept beside the database: the pages that were put on a
list and not taken off since.
-/

namespace FreeNT.Mm

open Function (update)

namespace PfnDatabase

variable {memory : PhysicalMemory} {s s' : PfnDatabase} {pages : MmLists → List Nat} {l : MmLists} {page c : Nat}

namespace PageLists

variable (h : PageLists memory s pages)

include h

lemma first_of_color (hl : l.Available) (hc : c ≤ memory.MmSecondaryColorMask)
    (hne : (s.color l c).Flink ≠ pfnListHead) :
    ∃ xs ys, pages l = xs ++ (s.color l c).Flink :: ys ∧ pageColor memory (s.color l c).Flink = c ∧
      s.PteFrame (s.color l c).Flink = coloredListHead := by
  obtain ⟨hm, hsm⟩ := mem_ofColor.mp ((h.color _ _ hl hc).first_mem.resolve_left hne)
  obtain ⟨xs, ys, hs⟩ := List.append_of_mem hm
  refine ⟨xs, ys, hs, hsm, ?_⟩
  -- it is the head of the list of its colour, so its back link is the mark
  have he := h.color_entry hl hs
  rw [hsm] at he
  exact he.first_eq_iff.mp rfl

/-- The first page of a list is the first one of its colour. -/
lemma first_of_list (hl : l.Available) (hne : (s.list l).Flink ≠ pfnListHead) :
    ∃ ys, pages l = [] ++ (s.list l).Flink :: ys ∧ s.PteFrame (s.list l).Flink = coloredListHead := by
  have hls := h.list l hl
  obtain ⟨page, ys, hc⟩ := List.exists_cons_of_ne_nil (mt hls.first_eq_nil_iff.mpr hne)
  have hf : (s.list l).Flink = page := by
    rw [hls.first_eq, hc]
    rfl
  rw [hf]
  replace hc : pages l = [] ++ page :: ys := hc
  exact ⟨ys, hc, (h.color_entry hl hc).prev_eq⟩

/-- A page that is the first one of its colour. -/
def Takes (s : PfnDatabase) (pages : MmLists → List Nat) (page : Nat) : Prop :=
  ∃ l xs ys, l.Available ∧ pages l = xs ++ page :: ys ∧ s.PteFrame page = coloredListHead

lemma takes_color (hl : l.Available) (hc : c ≤ memory.MmSecondaryColorMask)
    (hne : (s.color l c).Flink ≠ pfnListHead) :
    ∃ page, some ((s.color l c).Flink, c) = some (page, pageColor memory page) ∧ Takes s pages page := by
  obtain ⟨xs, ys, hs, hcl, hf⟩ := h.first_of_color hl hc hne
  exact ⟨_, by rw [hcl], l, xs, ys, hl, hs, hf⟩

lemma takes_list (hl : l.Available) (hne : (s.list l).Flink ≠ pfnListHead) :
    ∃ page, some ((s.list l).Flink, pageColor memory (s.list l).Flink) =
      some (page, pageColor memory page) ∧ Takes s pages page := by
  obtain ⟨ys, hs, hf⟩ := h.first_of_list hl hne
  exact ⟨_, rfl, l, [], ys, hl, hs, hf⟩

section

variable (ha : s.MmAvailablePages ≠ 0)

include ha

lemma list_nonempty (hf : (s.list .freePageList).Flink = pfnListHead) :
    (s.list .zeroedPageList).Flink ≠ pfnListHead := by
  intro hz
  apply ha
  rw [h.available, (h.list _ freeAvailable).first_eq_nil_iff.mp hf,
    (h.list _ zeroedAvailable).first_eq_nil_iff.mp hz]
  rfl

lemma anyPage_spec (hc : c ≤ memory.MmSecondaryColorMask) :
    ∃ page, s.anyPage memory c = some (page, pageColor memory page) ∧ Takes s pages page := by
  unfold anyPage
  split
  case isTrue hne => exact h.takes_color freeAvailable hc hne
  split
  case isTrue hne => exact h.takes_color zeroedAvailable hc hne
  rw [if_neg (by simp [h.listInvariant freeAvailable])]
  split
  case isTrue hne => exact h.takes_list freeAvailable hne
  case isFalse hf =>
    have hne := h.list_nonempty ha (not_not.mp hf)
    rw [if_neg (by simp [h.listInvariant zeroedAvailable]), if_pos hne]
    exact h.takes_list zeroedAvailable hne

lemma zeroPage_spec (hc : c ≤ memory.MmSecondaryColorMask) :
    ∃ page, s.zeroPage memory c = some (page, pageColor memory page) ∧ Takes s pages page := by
  unfold zeroPage
  split
  case isTrue hne => exact h.takes_color zeroedAvailable hc hne
  rw [if_neg (by simp [h.listInvariant zeroedAvailable])]
  split
  case isTrue hne => exact h.takes_list zeroedAvailable hne
  case isFalse hz =>
    have he := (h.list _ zeroedAvailable).first_eq_nil_iff.mp (not_not.mp hz)
    rw [if_neg (by rw [h.total _ zeroedAvailable, he]; simp)]
    split
    case isTrue hne => exact h.takes_color freeAvailable hc hne
    have hne : (s.list .freePageList).Flink ≠ pfnListHead := fun hf => h.list_nonempty ha hf (not_not.mp hz)
    rw [if_neg (by simp [h.listInvariant freeAvailable]), if_pos hne]
    exact h.takes_list freeAvailable hne

end

/-- Taking the page keeps the lists, and the checks at the end pass. -/
lemma take_spec (hp : Takes s pages page) :
    ∃ s' l xs ys, s.miRemovePageByColor memory page (pageColor memory page) = some s' ∧
      l.Available ∧ pages l = xs ++ page :: ys ∧ PageLists memory s' (update pages l (xs ++ ys)) ∧
      (s'.flags page).PageLocation.Available ∧ s'.pageTaken page := by
  obtain ⟨l, xs, ys, hl, hs, hf⟩ := hp
  obtain ⟨s', heq, h', -, hb, -, hlc, hr⟩ := h.miRemovePageByColor_spec hl hs hf
  refine ⟨s', l, xs, ys, heq, hl, hs, h', by rw [hlc]; exact zeroedAvailable, ?_⟩
  have hc := (h.unused l hl page (entry_mem hs)).2.2
  unfold pageTaken
  rw [hr, hc, hb, h'.listInvariant freeAvailable, h'.listInvariant zeroedAvailable]
  rfl

section

variable (ha : s.MmAvailablePages ≠ 0) (hc : c ≤ memory.MmSecondaryColorMask)

include ha hc

lemma miRemoveAnyPage_spec :
    ∃ s' page l xs ys, s.miRemoveAnyPage memory c = some (s', page) ∧ l.Available ∧
      pages l = xs ++ page :: ys ∧ PageLists memory s' (update pages l (xs ++ ys)) := by
  obtain ⟨page, han, htk⟩ := h.anyPage_spec ha hc
  obtain ⟨s', l, xs, ys, heq, hl, hs, h', hlc, ht⟩ := h.take_spec htk
  refine ⟨s', page, l, xs, ys, ?_, hl, hs, h'⟩
  unfold miRemoveAnyPage
  rw [if_neg (by omega), han, do_some]
  dsimp only
  rw [heq]
  exact if_pos ⟨hlc, ht⟩

lemma miRemoveZeroPage_spec :
    ∃ s' page l xs ys, s.miRemoveZeroPage memory c = some (s', page) ∧ l.Available ∧
      pages l = xs ++ page :: ys ∧ PageLists memory s' (update pages l (xs ++ ys)) := by
  obtain ⟨page, hz, htk⟩ := h.zeroPage_spec ha hc
  obtain ⟨s', l, xs, ys, heq, hl, hs, h', -, ht⟩ := h.take_spec htk
  have hlc := h.location l hl page (entry_mem hs)
  refine ⟨s', page, l, xs, ys, ?_, hl, hs, h'⟩
  unfold miRemoveZeroPage
  rw [if_neg (by omega), hz, do_some]
  dsimp only
  rw [if_neg (by rw [hlc]; exact not_not.mpr hl), heq]
  exact if_pos ht

end

end PageLists

/-- The entry of one page. -/
structure MmPfn where
  Flink : Nat
  Blink : Nat
  OriginalPte : Nat
  PteFrame : Nat
  flags : PfnFlags
  bits : PfnBits
  ReferenceCount : Nat

/-- The owner of a page writes its entry. -/
def setEntry (s : PfnDatabase) (page : Nat) (pfn : MmPfn) : PfnDatabase :=
  { s with
    Flink := update s.Flink page pfn.Flink
    Blink := update s.Blink page pfn.Blink
    OriginalPte := update s.OriginalPte page pfn.OriginalPte
    PteFrame := update s.PteFrame page pfn.PteFrame
    flags := update s.flags page pfn.flags
    bits := update s.bits page pfn.bits
    ReferenceCount := update s.ReferenceCount page pfn.ReferenceCount }

lemma PageLists.setEntry (h : PageLists memory s pages) (ho : ∀ l, l.Available → page ∉ pages l)
    (pf : MmPfn) : PageLists memory (s.setEntry page pf) pages := by
  have hne {l : MmLists} (hl : l.Available) {y : Nat} (hy : y ∈ pages l) : y ≠ page := fun hc => ho l hl (hc ▸ hy)
  have hk {α : Type} (f : Nat → α) (v : α) {l : MmLists} (hl : l.Available) {y : Nat} (hy : y ∈ pages l) :
      update f page v y = f y := Function.update_of_ne (hne hl hy) v f
  refine ⟨fun l hl => ?_, h.total, fun l c hl hc => ?_, h.count, h.apart, h.isPage, fun l hl y hy => ?_,
    fun l hl y hy => ?_, h.available⟩
  · exact (h.list l hl).congr (fun y hy => hk _ _ hl hy) fun y hy => hk _ _ hl hy
  · exact (h.color l c hl hc).congr (fun y hy => hk _ _ hl (mem_ofColor.mp hy).1) fun y hy =>
      hk _ _ hl (mem_ofColor.mp hy).1
  · exact (congrArg PfnFlags.PageLocation (hk s.flags _ hl hy)).trans (h.location l hl y hy)
  change (update s.flags page pf.flags y).RemovalRequested = false ∧ (update s.flags page pf.flags y).Rom = false ∧
    update s.ReferenceCount page pf.ReferenceCount y = 0
  rw [hk _ _ hl hy, hk _ _ hl hy]
  exact h.unused l hl y hy

end PfnDatabase

open PfnDatabase List Option Function

inductive PfnCall
  | insertFree (page : Nat)
  | insertZeroed (page : Nat)
  | unlink (page : Nat)
  | removeAny (c : Nat)
  | removeZero (c : Nat)
  | write (page : Nat) (pfn : MmPfn)

structure PfnState where
  db : PfnDatabase
  /-- The pages that were put on a list and not taken off since. -/
  listed : List Nat

def pfnStep (memory : PhysicalMemory) (p : PfnState) : PfnCall → Option PfnState
  | .insertFree page => (p.db.miInsertPageInFreeList memory page).map fun s => ⟨s, page :: p.listed⟩
  | .insertZeroed page => (p.db.miInsertPageInZeroedList memory page).map fun s => ⟨s, page :: p.listed⟩
  | .unlink page => (p.db.miUnlinkFreeOrZeroedPage memory page).map fun s => ⟨s, p.listed.erase page⟩
  | .removeAny c => (p.db.miRemoveAnyPage memory c).map fun r => ⟨r.1, p.listed.erase r.2⟩
  | .removeZero c => (p.db.miRemoveZeroPage memory c).map fun r => ⟨r.1, p.listed.erase r.2⟩
  | .write page pfn => some ⟨p.db.setEntry page pfn, p.listed⟩

/-- A page is put on a list only if it is on none and unused, and taken only from a list that has it.
The pages that are asked for by colour are there. -/
def PfnOk (memory : PhysicalMemory) (p : PfnState) : PfnCall → Prop
  | .insertFree page => page ∉ p.listed ∧ Insertable memory p.db page ∧
    (p.db.bits page).MustBeCached = false ∧ (p.db.bits page).VerifierAllocation = false
  | .insertZeroed page => page ∉ p.listed ∧ Insertable memory p.db page ∧ (p.db.bits page).InPageError = false
  | .unlink page => page ∈ p.listed ∧ (p.db.flags page).WriteInProgress = false ∧
      (p.db.flags page).ReadInProgress = false
  | .removeAny c | .removeZero c => p.db.MmAvailablePages ≠ 0 ∧ c ≤ memory.MmSecondaryColorMask
  | .write page _ => page ∉ p.listed

/-- The two lists and the tables of the colours are empty. -/
structure EmptyLists (memory : PhysicalMemory) (s : PfnDatabase) : Prop where
  list : ∀ l, l.Available → s.list l = ⟨0, pfnListHead, pfnListHead⟩
  color : ∀ l c, l.Available → c ≤ memory.MmSecondaryColorMask → s.color l c = ⟨pfnListHead, pfnListHead, 0⟩
  available : s.MmAvailablePages = 0

/-- The lists hold the listed pages, each once. -/
structure Holds (memory : PhysicalMemory) (p : PfnState) (pages : MmLists → List Nat) : Prop where
  lists : PageLists memory p.db pages
  nodup : p.listed.Nodup
  listed : ∀ page, page ∈ p.listed ↔ ∃ l, l.Available ∧ page ∈ pages l

section Run

variable {memory : PhysicalMemory} {p p' : PfnState} {pages : MmLists → List Nat} {l : MmLists}
  {s : PfnDatabase} {page : Nat} {xs ys : List Nat}

lemma emptyLists_holds (h : EmptyLists memory s) : Holds memory ⟨s, []⟩ fun _ => [] := by
  refine ⟨⟨fun l hl => ?_, fun l hl => ?_, fun l c hl hc => ?_, fun l c hl hc => ?_, ?_, ?_, ?_, ?_,
    h.available⟩, nodup_nil, fun page => ?_⟩
  · rw [h.list l hl]
    exact .empty ..
  · rw [h.list l hl]
    rfl
  · rw [h.color l c hl hc]
    exact .empty ..
  · rw [h.color l c hl hc]
    rfl
  all_goals simp

namespace Holds

variable (h : Holds memory p pages)

include h

lemma not_on_list (ho : page ∉ p.listed) : ∀ l, l.Available → page ∉ pages l :=
  fun l hl hm => ho ((h.listed page).mpr ⟨l, hl, hm⟩)

lemma insert (hl : l.Available) (ho : page ∉ p.listed) (hxs : ∀ y, y ∈ xs ↔ y = page ∨ y ∈ pages l)
    (h' : PageLists memory s (update pages l xs)) :
    Holds memory ⟨s, page :: p.listed⟩ (update pages l xs) := by
  refine ⟨h', nodup_cons.mpr ⟨ho, h.nodup⟩, fun y => ?_⟩
  rw [mem_cons, h.listed]
  constructor
  · rintro (rfl | ⟨l', hl', hm⟩)
    · exact ⟨l, hl, by rw [update_self, hxs]; exact Or.inl rfl⟩
    refine ⟨l', hl', ?_⟩
    by_cases heq : l' = l
    · rw [heq, update_self, hxs]
      exact Or.inr (heq ▸ hm)
    · rwa [update_of_ne heq]
  rintro ⟨l', hl', hm⟩
  by_cases heq : l' = l
  · rw [heq, update_self, hxs] at hm
    exact hm.imp_right fun hm => ⟨l, hl, hm⟩
  · rw [update_of_ne heq] at hm
    exact Or.inr ⟨l', hl', hm⟩

section

variable (hl : l.Available) (hs : pages l = xs ++ page :: ys)

include hl hs

lemma taken : (∃! l, l.Available ∧ page ∈ pages l) ∧
      ∀ l', l'.Available → page ∉ update pages l (xs ++ ys) l' := by
  have hme := PageLists.entry_mem hs
  have hnd := nodup_middle.mp (h.lists.list_entry hl hs).nodup
  refine ⟨⟨l, ⟨hl, hme⟩, ?_⟩, fun l' hl' hm => ?_⟩
  · rintro l' ⟨hl', hm⟩
    by_contra hne
    exact h.lists.apart l' l hl' hl hne page hm hme
  by_cases heq : l' = l
  · rw [heq, update_self] at hm
    exact (nodup_cons.mp hnd).1 hm
  · rw [update_of_ne heq] at hm
    exact h.lists.apart l' l hl' hl heq page hm hme

lemma remove (h' : PageLists memory s (update pages l (xs ++ ys))) :
    Holds memory ⟨s, p.listed.erase page⟩ (update pages l (xs ++ ys)) := by
  refine ⟨h', h.nodup.erase page, fun y => ?_⟩
  rw [h.nodup.mem_erase_iff, h.listed]
  constructor
  · rintro ⟨hne, l', hl', hm⟩
    refine ⟨l', hl', ?_⟩
    by_cases heq : l' = l
    · rw [heq, update_self]
      rw [heq, hs, perm_middle.mem_iff] at hm
      exact mem_of_ne_of_mem hne hm
    · rwa [update_of_ne heq]
  rintro ⟨l', hl', hm⟩
  refine ⟨?_, ?_⟩
  · rintro rfl
    exact (h.taken hl hs).2 l' hl' hm
  by_cases heq : l' = l
  · rw [heq, update_self] at hm
    refine ⟨l, hl, ?_⟩
    rw [hs, perm_middle.mem_iff]
    exact mem_cons_of_mem _ hm
  · rw [update_of_ne heq] at hm
    exact ⟨l', hl', hm⟩

end

lemma step {cl : PfnCall} (hok : PfnOk memory p cl) :
    ∃ p' pages', pfnStep memory p cl = some p' ∧ Holds memory p' pages' := by
  cases cl with
  | insertFree page =>
    obtain ⟨ho, hin, hc, hv⟩ := hok
    obtain ⟨s, heq, h'⟩ := h.lists.miInsertPageInFreeList_spec hin (h.not_on_list ho) hc hv
    refine ⟨_, _, by rw [pfnStep, heq]; rfl, h.insert PageLists.freeAvailable ho (fun y => ?_) h'⟩
    rw [mem_append, mem_singleton, or_comm]
  | insertZeroed page =>
    obtain ⟨ho, hin, he⟩ := hok
    obtain ⟨s, heq, h'⟩ := h.lists.miInsertPageInZeroedList_spec hin (h.not_on_list ho) he
    exact ⟨_, _, by rw [pfnStep, heq]; rfl, h.insert PageLists.zeroedAvailable ho (fun y => mem_cons) h'⟩
  | unlink page =>
    obtain ⟨hm, hw, hr⟩ := hok
    obtain ⟨l, hl, hm⟩ := (h.listed page).mp hm
    obtain ⟨xs, ys, hs⟩ := append_of_mem hm
    obtain ⟨s, heq, h', -⟩ := h.lists.unlinkPage_spec hl hs hw hr
    exact ⟨_, _, by rw [pfnStep, heq]; rfl, h.remove hl hs h'⟩
  | removeAny c =>
    obtain ⟨s, page, l, xs, ys, heq, hl, hs, h'⟩ := h.lists.miRemoveAnyPage_spec hok.1 hok.2
    exact ⟨_, _, by rw [pfnStep, heq]; rfl, h.remove hl hs h'⟩
  | removeZero c =>
    obtain ⟨s, page, l, xs, ys, heq, hl, hs, h'⟩ := h.lists.miRemoveZeroPage_spec hok.1 hok.2
    exact ⟨_, _, by rw [pfnStep, heq]; rfl, h.remove hl hs h'⟩
  | write page pf => exact ⟨_, pages, rfl, h.lists.setEntry (h.not_on_list hok) pf, h.nodup, h.listed⟩

end Holds

lemma pfnStep_holds {cl : PfnCall} (h : ∃ pages, Holds memory p pages) (hok : PfnOk memory p cl)
    (hs : pfnStep memory p cl = some p') : ∃ pages, Holds memory p' pages := by
  obtain ⟨pages, h⟩ := h
  obtain ⟨p1, pages', heq, h'⟩ := h.step hok
  obtain rfl : p1 = p' := some.inj (heq.symm.trans hs)
  exact ⟨pages', h'⟩

/-- The lists in every state that can be reached. -/
theorem pageLists_hold {calls : List PfnCall} (hempty : EmptyLists memory s)
    (hrun : Run (pfnStep memory) (PfnOk memory) ⟨s, []⟩ calls p) :
    ∃ pages, PageLists memory p.db pages ∧ (∀ page, page ∈ p.listed ↔ ∃ l, l.Available ∧ page ∈ pages l) ∧
      (∀ call, PfnOk memory p call → ∃ p', pfnStep memory p call = some p') ∧
      (∀ page s', page ∈ p.listed → p.db.miUnlinkFreeOrZeroedPage memory page = some s' →
        (p.db.flags page).WriteInProgress = false → (p.db.flags page).ReadInProgress = false →
        (∃! l, l.Available ∧ page ∈ pages l) ∧ ∃ pages', PageLists memory s' pages' ∧ ∀ l,
          l.Available → page ∉ pages' l) ∧
      ∀ c page s', p.db.MmAvailablePages ≠ 0 → c ≤ memory.MmSecondaryColorMask →
        p.db.miRemoveAnyPage memory c = some (s', page) ∨ p.db.miRemoveZeroPage memory c = some (s', page) →
        (∃! l, l.Available ∧ page ∈ pages l) ∧
          ∃ pages', PageLists memory s' pages' ∧ ∀ l, l.Available → page ∉ pages' l := by
  obtain ⟨pages, h⟩ : ∃ pages, Holds memory p pages :=
    hrun.invariant (fun p => ∃ pages, Holds memory p pages) pfnStep_holds ⟨_, emptyLists_holds hempty⟩
  refine ⟨pages, h.lists, h.listed, fun call hok => ?_, fun page s' hm heq hw hrd => ?_,
    fun c page s' ha hc heq => ?_⟩
  · obtain ⟨p', -, heq, -⟩ := h.step hok
    exact ⟨p', heq⟩
  · obtain ⟨l, hl, hm⟩ := (h.listed page).mp hm
    obtain ⟨xs, ys, hs⟩ := append_of_mem hm
    obtain ⟨s₁, heq₁, h', -⟩ := h.lists.unlinkPage_spec hl hs hw hrd
    obtain rfl : s₁ = s' := some.inj (heq₁.symm.trans heq)
    exact ⟨(h.taken hl hs).1, _, h', (h.taken hl hs).2⟩
  obtain ⟨s₁, page₁, l, xs, ys, heq₁, hl, hs, h'⟩ : ∃ s₁ page₁ l xs ys,
      some (s₁, page₁) = some (s', page) ∧ l.Available ∧ pages l = xs ++ page₁ :: ys ∧
        PageLists memory s₁ (update pages l (xs ++ ys)) := by
    rcases heq with heq | heq
    · obtain ⟨s₁, page₁, l, xs, ys, heq₁, hr⟩ := h.lists.miRemoveAnyPage_spec ha hc
      exact ⟨s₁, page₁, l, xs, ys, heq₁.symm.trans heq, hr⟩
    · obtain ⟨s₁, page₁, l, xs, ys, heq₁, hr⟩ := h.lists.miRemoveZeroPage_spec ha hc
      exact ⟨s₁, page₁, l, xs, ys, heq₁.symm.trans heq, hr⟩
  obtain ⟨rfl, rfl⟩ := Prod.mk.inj (some.inj heq₁)
  exact ⟨(h.taken hl hs).1, _, h', (h.taken hl hs).2⟩

/-- Eight pages in two colours, all of them unused. -/
def eightPages : PhysicalMemory := ⟨1, 8, 1, by decide⟩

def unusedPages : PfnDatabase where
  Flink _ := 0
  Blink _ := 0
  OriginalPte _ := 0
  PteFrame _ := 0
  flags _ := ⟨.activeAndValid, false, false, false, false, 0, 0⟩
  bits _ := ⟨false, false, false, 0, false⟩
  ReferenceCount _ := 0
  list _ := ⟨0, pfnListHead, pfnListHead⟩
  color _ _ := ⟨pfnListHead, pfnListHead, 0⟩
  MmAvailablePages := 0

/-- Two free pages of one colour and a zeroed one of the other. -/
theorem pageLists_hold_three : ∃ p pages, Run (pfnStep eightPages) (PfnOk eightPages) ⟨unusedPages, []⟩
    [.insertFree 3, .insertFree 5, .insertZeroed 4] p ∧ p.listed = [4, 5, 3] ∧
      p.db.MmAvailablePages = 3 ∧ PageLists eightPages p.db pages := by
  have hin {p : PfnState} {page : Nat} (hpg : isPage eightPages page = true)
    (hf : p.db.flags page = unusedPages.flags page)
      (hrf : p.db.ReferenceCount page = 0) : Insertable eightPages p.db page :=
    ⟨hpg, by rw [hf]; rfl, by rw [hf]; rfl, hrf⟩
  obtain ⟨p, hr, hl, ha⟩ : ∃ p, Run (pfnStep eightPages) (PfnOk eightPages) ⟨unusedPages, []⟩
      [.insertFree 3, .insertFree 5, .insertZeroed 4] p ∧ p.listed = [4, 5, 3] ∧
        p.db.MmAvailablePages = 3 := by
    refine ⟨_, .cons ?_ rfl (.cons ?_ rfl (.single ?_ rfl)), rfl, rfl⟩
    · exact ⟨not_mem_nil, hin rfl rfl rfl, rfl, rfl⟩
    · exact ⟨by decide, hin rfl rfl rfl, rfl, rfl⟩
    · exact ⟨by decide, hin rfl rfl rfl, rfl⟩
  obtain ⟨pages, hp, -⟩ := pageLists_hold ⟨fun _ _ => rfl, fun _ _ _ _ => rfl, rfl⟩ hr
  exact ⟨p, pages, hr, hl, ha, hp⟩

end Run

end FreeNT.Mm
