import FreeNT.Mm.PfnUnlink

/-!
# Putting pages on the lists

A free page goes to the end of the global list and of the list of its colour, a zeroed page
to the front of both, so that the two keep the same order.
-/

namespace FreeNT.Mm

open List Function

open Function (update)

namespace PfnDatabase

variable {m : PhysicalMemory} {s s' : PfnDatabase} {pages : MmLists → List Nat} {l : MmLists}
  {page c : Nat}

/-- The page is the last one of the free pages and of its colour. -/
structure Appended (s : PfnDatabase) (page c : Nat) (s' : PfnDatabase) : Prop where
  flink : ∀ y, y ≠ page → y ≠ pfnListHead →
    s'.Flink y = if y = (s.list .freePageList).Blink then page else s.Flink y
  blink : ∀ y, y ≠ page → s'.Blink y = s.Blink y
  originalPte : ∀ y, y ≠ page → y ≠ pfnListHead →
    s'.OriginalPte y = if y = (s.color .freePageList c).Blink then page else s.OriginalPte y
  pteFrame : ∀ y, y ≠ page → s'.PteFrame y = s.PteFrame y
  flags : ∀ y, y ≠ page → s'.flags y = s.flags y
  links : s'.Flink page = pfnListHead ∧ s'.Blink page = (s.list .freePageList).Blink ∧
    s'.OriginalPte page = pfnListHead ∧
    s'.PteFrame page = if (s.color .freePageList c).Flink = pfnListHead then coloredListHead
      else (s.color .freePageList c).Blink
  page_flags : s'.flags page = { s.flags page with PageLocation := .freePageList }
  referenceCount : s'.ReferenceCount = s.ReferenceCount
  list : s'.list = update s.list .freePageList ⟨((s.list .freePageList).Total + 1) % 2 ^ 32,
    if (s.list .freePageList).Blink = pfnListHead then page else (s.list .freePageList).Flink, page⟩
  color : s'.color = update s.color .freePageList (update (s.color .freePageList) c
    ⟨if (s.color .freePageList c).Flink = pfnListHead then page else (s.color .freePageList c).Flink,
      page, ((s.color .freePageList c).Count + 1) % 2 ^ 32⟩)
  available : s'.MmAvailablePages = (s.MmAvailablePages + 1) % 2 ^ 32

/-- The page is the first one of the zeroed pages and of its colour. -/
structure Prepended (s : PfnDatabase) (page c : Nat) (s' : PfnDatabase) : Prop where
  flink : ∀ y, y ≠ page → s'.Flink y = s.Flink y
  blink : ∀ y, y ≠ page → y ≠ pfnListHead →
    s'.Blink y = if y = (s.list .zeroedPageList).Flink then page else s.Blink y
  originalPte : ∀ y, y ≠ page → s'.OriginalPte y = s.OriginalPte y
  pteFrame : ∀ y, y ≠ page → y ≠ pfnListHead →
    s'.PteFrame y = if y = (s.color .zeroedPageList c).Flink then page else s.PteFrame y
  flags : ∀ y, y ≠ page → s'.flags y = s.flags y
  links : s'.Flink page = (s.list .zeroedPageList).Flink ∧ s'.Blink page = pfnListHead ∧
    s'.OriginalPte page = (s.color .zeroedPageList c).Flink ∧ s'.PteFrame page = coloredListHead
  page_flags : s'.flags page = { s.flags page with PageLocation := .zeroedPageList }
  referenceCount : s'.ReferenceCount = s.ReferenceCount
  list : s'.list = update s.list .zeroedPageList ⟨((s.list .zeroedPageList).Total + 1) % 2 ^ 32, page,
    if (s.list .zeroedPageList).Flink = pfnListHead then page else (s.list .zeroedPageList).Blink⟩
  color : s'.color = update s.color .zeroedPageList (update (s.color .zeroedPageList) c
    ⟨page, if (s.color .zeroedPageList c).Flink = pfnListHead then page
      else (s.color .zeroedPageList c).Blink, ((s.color .zeroedPageList c).Count + 1) % 2 ^ 32⟩)
  available : s'.MmAvailablePages = (s.MmAvailablePages + 1) % 2 ^ 32

/-- What the assertions ask of a page that is put on a list. -/
structure Insertable (memory : PhysicalMemory) (s : PfnDatabase) (page : Nat) : Prop where
  isPage : PfnDatabase.isPage memory page = true
  rom : (s.flags page).Rom = false
  removalRequested : (s.flags page).RemovalRequested = false
  referenceCount : s.ReferenceCount page = 0

lemma appended_free (hp : Insertable m s page)
    (hc : (s.bits page).MustBeCached = false) (hv : (s.bits page).VerifierAllocation = false)
    (hin : listInvariant (s.list .freePageList)) (hw : (s.list .freePageList).Total + 1 < 2 ^ 32)
    (hl : (s.color .freePageList (pageColor m page)).Flink = pfnListHead →
      (s.color .freePageList (pageColor m page)).Blink = pfnListHead) :
    ∃ s', s.miInsertPageInFreeList m page = some s' ∧ Appended s page (pageColor m page) s' := by
  have hlt := isPage_lt hp.isPage
  have hne : page ≠ pfnListHead := Nat.ne_of_lt (Nat.lt_trans hlt coloredListHead_lt)
  unfold miInsertPageInFreeList
  rw [if_neg (by simp [hp.isPage]), if_neg (by simp [hc, hv, hp.rom, hp.removalRequested,
    hp.referenceCount]), if_neg (by simp [hin])]
  dsimp only [setList, setColor, miIncrementAvailablePages]
  have hcn : ((s.list .freePageList).Total + 1) % 2 ^ 32 ≠ 0 := by omega
  by_cases he : (s.list .freePageList).Blink = pfnListHead <;>
    by_cases hn : (s.color .freePageList (pageColor m page)).Flink = pfnListHead
  all_goals
    simp only [he, hn, ne_eq, not_true_eq_false, not_false_eq_true, if_true, if_false, update_self, update_idem]
    rw [if_neg (by simp_all [listInvariant])]
    refine ⟨_, rfl, fun y hy hh => ?_, fun y hy => ?_, fun y hy hh => ?_, fun y hy => ?_, fun y hy => ?_,
      ⟨?_, ?_, ?_, ?_⟩, ?_, rfl, ?_, ?_, rfl⟩
    all_goals simp_all [update_apply]

lemma prepended_zeroed (hp : Insertable m s page)
    (he : (s.bits page).InPageError = false) (hl : (s.list .zeroedPageList).Flink ≠ page)
    (hc : (s.color .zeroedPageList (pageColor m page)).Flink ≠ page) :
    ∃ s', s.miInsertPageInZeroedList m page = some s' ∧ Prepended s page (pageColor m page) s' := by
  unfold miInsertPageInZeroedList
  rw [if_neg (by simp [hp.isPage]), if_neg (by simp [hp.rom, hp.removalRequested, hp.referenceCount])]
  dsimp only [setList, setColor, miIncrementAvailablePages]
  by_cases hem : (s.list .zeroedPageList).Flink = pfnListHead <;>
    by_cases hn : (s.color .zeroedPageList (pageColor m page)).Flink = pfnListHead
  all_goals
    simp only [hem, hn, ne_eq, not_true_eq_false, not_false_eq_true, if_true, if_false, update_self, update_idem]
    rw [if_neg (by simp [he])]
    refine ⟨_, rfl, fun y hy => ?_, fun y hy hh => ?_, fun y hy => ?_, fun y hy hh => ?_, fun y hy => ?_,
      ⟨?_, ?_, ?_, ?_⟩, ?_, rfl, ?_, ?_, rfl⟩
    all_goals simp [update_apply, hl.symm, hc.symm, *]

namespace PageLists

variable (h : PageLists m s pages) (hp : Insertable m s page)
  (ho : ∀ l, l.Available → page ∉ pages l)

lemma freeAvailable : MmLists.Available .freePageList := Or.inr rfl

lemma zeroedAvailable : MmLists.Available .zeroedPageList := Or.inl rfl

include h

/-- No counter wraps: there is a page that is on no list. -/
lemma counters_lt : s.MmAvailablePages + 1 < 2 ^ 32 ∧ (∀ l, l.Available → (s.list l).Total + 1 < 2 ^ 32) ∧
    ∀ l c, l.Available → c ≤ m.MmSecondaryColorMask → (s.color l c).Count + 1 < 2 ^ 32 := by
  have hz := h.length_le zeroedAvailable
  have hf := h.length_le freeAvailable
  have hh : 2 * coloredListHead + 1 < 2 ^ 32 := by decide
  refine ⟨by rw [h.available]; omega, fun l hl => ?_, fun l c hl hc => ?_⟩
  · have := h.length_le hl
    rw [h.total l hl]
    omega
  have := h.length_le hl
  have : (ofColor m c (pages l)).length ≤ (pages l).length := length_filter_le ..
  rw [h.count l c hl hc]
  omega

section Insert

include ho

lemma other_page (hl : l.Available) {y : Nat} (hy : y ∈ pages l) :
    y ≠ page ∧ y ≠ coloredListHead ∧ y ≠ pfnListHead := by
  have hlt := h.page_lt hl hy
  have := coloredListHead_lt
  refine ⟨fun hc => ho l hl (hc ▸ hy), ?_, ?_⟩ <;> omega

lemma other_ofColor (hl : l.Available) {y : Nat} (hy : y ∈ ofColor m c (pages l)) :
    y ≠ page ∧ y ≠ pfnListHead :=
  ⟨(h.other_page ho hl (mem_ofColor.mp hy).1).1, (h.other_page ho hl (mem_ofColor.mp hy).1).2.2⟩

omit h ho in
include hp in
lemma new_page : page ≠ coloredListHead ∧ page ≠ pfnListHead := by
  have hlt := isPage_lt hp.isPage
  have := coloredListHead_lt
  constructor <;> omega

include hp

lemma append (ha : Appended s page (pageColor m page) s') :
    PageLists m s' (update pages .freePageList (pages .freePageList ++ [page])) := by
  have hl := freeAvailable
  have hls := h.list _ hl
  have hcl := h.color _ _ hl (pageColor_le m page)
  obtain ⟨hnl, hn⟩ := (new_page hp).symm
  obtain ⟨hf, hb, hpt, hfr⟩ := ha.links
  obtain ⟨hav, ht, hcn⟩ := h.counters_lt
  refine h.replace hl ?_ ?_ (fun c hc => ?_) (fun c hc => ?_) (fun l' _ hne => ?_)
    (fun l' hl' hne y hy => ?_) (fun y hy => ?_) ha.referenceCount ?_
  · rw [ha.list, update_self]
    refine hls.pushBack (ho _ hl) hnl hnl hf (hb.trans hls.last_eq) (fun y hy => ?_)
      (fun y hy => ha.blink y (h.other_page ho hl hy).1) ?_
    · exact ha.flink y (h.other_page ho hl hy).1 (h.other_page ho hl hy).2.2
    · simp [hls.last_eq_nil_iff]
  · rw [ha.list, update_self, length_append, ← h.total _ hl]
    exact Nat.mod_eq_of_lt (ht _ hl)
  · have hcol := h.color _ c hl hc
    by_cases hs : c = pageColor m page
    · subst hs
      rw [ha.color, update_self, update_self, ofColor_append, ofColor_cons_self]
      refine hcol.pushBack (fun hm => ho _ hl (mem_ofColor.mp hm).1) hnl hn hpt ?_
        (fun y hy => ?_) (fun y hy => ?_) ?_
      · rw [hfr, hcol.last_eq]
        simp only [hcol.first_eq_nil_iff]
        rcases eq_nil_or_concat (ofColor m (pageColor m page) (pages .freePageList)) with
          he | ⟨xs, x, hco⟩
        · rw [he]
          rfl
        · rw [hco, if_neg (by simp), concat_eq_append, getLastD_concat, getLastD_concat]
      · have hy := h.other_ofColor ho hl hy
        exact ha.originalPte y hy.1 hy.2
      · exact ha.pteFrame y (h.other_ofColor ho hl hy).1
      · simp [hcol.first_eq_nil_iff]
    · rw [ha.color, update_self, update_of_ne hs, ofColor_append, ofColor_cons_ne hs]
      rw [show ofColor m c [] = [] from rfl, append_nil]
      refine hcol.congr (fun y hy => ?_) fun y hy =>
        ha.pteFrame y (h.other_ofColor ho hl hy).1
      -- the last page of the other colour is not of this one
      have hy' := h.other_ofColor ho hl hy
      rw [ha.originalPte y hy'.1 hy'.2, if_neg]
      rintro rfl
      rcases hcl.last_mem with hc | hc
      · exact hy'.2 hc
      · exact hs ((mem_ofColor.mp hy).2.symm.trans (mem_ofColor.mp hc).2)
  · by_cases hs : c = pageColor m page
    · subst hs
      rw [ha.color, update_self, update_self, ofColor_append, ofColor_cons_self, length_append,
        ← h.count _ _ hl hc]
      exact Nat.mod_eq_of_lt (hcn _ _ hl hc)
    · rw [ha.color, update_self, update_of_ne hs, ofColor_append, ofColor_cons_ne hs, h.count _ _ hl hc]
      exact congrArg length (append_nil _).symm
  · rw [ha.list, ha.color, update_of_ne hne, update_of_ne hne]
    exact ⟨rfl, rfl⟩
  · have hy' := h.other_page ho hl' hy
    have hnt := h.apart l' _ hl' hl hne y hy
    refine ⟨by simp [hnt, hy'.1], ?_, ha.blink y hy'.1, ?_, ha.pteFrame y hy'.1, ha.flags y hy'.1⟩
    · rw [ha.flink y hy'.1 hy'.2.2, if_neg]
      rintro rfl
      exact hls.last_mem.elim hy'.2.2 hnt
    rw [ha.originalPte y hy'.1 hy'.2.2, if_neg]
    rintro rfl
    exact hcl.last_mem.elim hy'.2.2
      fun hc => hnt (mem_ofColor.mp hc).1
  · rcases mem_append.mp hy with hy | hy
    · rw [ha.flags y (h.other_page ho hl hy).1]
      exact ⟨h.isPage _ hl y hy, h.location _ hl y hy, h.unused _ hl y hy⟩
    · rw [mem_singleton.mp hy, ha.page_flags]
      exact ⟨hp.isPage, rfl, hp.removalRequested, hp.rom, hp.referenceCount⟩
  · rw [ha.available, Nat.mod_eq_of_lt hav, length_append, length_singleton]
    omega

lemma prepend (ha : Prepended s page (pageColor m page) s') :
    PageLists m s' (update pages .zeroedPageList (page :: pages .zeroedPageList)) := by
  have hl := zeroedAvailable
  have hls := h.list _ hl
  have hcl := h.color _ _ hl (pageColor_le m page)
  obtain ⟨hnl, hn⟩ := (new_page hp).symm
  obtain ⟨hf, hb, hpt, hfr⟩ := ha.links
  obtain ⟨hav, ht, hcn⟩ := h.counters_lt
  refine h.replace hl ?_ ?_ (fun c hc => ?_) (fun c hc => ?_) (fun l' _ hne => ?_)
    (fun l' hl' hne y hy => ?_) (fun y hy => ?_) ha.referenceCount ?_
  · rw [ha.list, update_self]
    refine hls.pushFront (ho _ hl) hnl hnl hf hb
      (fun y hy => ha.flink y (h.other_page ho hl hy).1) (fun y hy => ?_) ?_
    · exact ha.blink y (h.other_page ho hl hy).1 (h.other_page ho hl hy).2.2
    · simp [hls.first_eq_nil_iff]
  · rw [ha.list, update_self, length_cons, ← h.total _ hl]
    exact Nat.mod_eq_of_lt (ht _ hl)
  · have hco := h.color _ c hl hc
    by_cases hs : c = pageColor m page
    · subst hs
      rw [ha.color, update_self, update_self, ofColor_cons_self]
      refine hco.pushFront (fun hm => ho _ hl (mem_ofColor.mp hm).1) hnl hn hpt hfr
        (fun y hy => ?_) (fun y hy => ?_) ?_
      · exact ha.originalPte y (h.other_ofColor ho hl hy).1
      · have hy := h.other_ofColor ho hl hy
        exact ha.pteFrame y hy.1 hy.2
      · simp [hco.first_eq_nil_iff]
    rw [ha.color, update_self, update_of_ne hs, ofColor_cons_ne hs]
    refine hco.congr (fun y hy =>
      ha.originalPte y (h.other_ofColor ho hl hy).1) fun y hy => ?_
    have hy' := h.other_ofColor ho hl hy
    rw [ha.pteFrame y hy'.1 hy'.2, if_neg]
    rintro rfl
    rcases hcl.first_mem with hc | hc
    · exact hy'.2 hc
    · exact hs ((mem_ofColor.mp hy).2.symm.trans (mem_ofColor.mp hc).2)
  · by_cases hs : c = pageColor m page
    · subst hs
      rw [ha.color, update_self, update_self, ofColor_cons_self, length_cons, ← h.count _ _ hl hc]
      exact Nat.mod_eq_of_lt (hcn _ _ hl hc)
    · rw [ha.color, update_self, update_of_ne hs, ofColor_cons_ne hs, h.count _ _ hl hc]
  · rw [ha.list, ha.color, update_of_ne hne, update_of_ne hne]
    exact ⟨rfl, rfl⟩
  · have hy' := h.other_page ho hl' hy
    have hnt := h.apart l' _ hl' hl hne y hy
    refine ⟨by simp [hnt, hy'.1], ha.flink y hy'.1, ?_, ha.originalPte y hy'.1, ?_, ha.flags y hy'.1⟩
    · rw [ha.blink y hy'.1 hy'.2.2, if_neg]
      rintro rfl
      exact hls.first_mem.elim hy'.2.2 hnt
    rw [ha.pteFrame y hy'.1 hy'.2.2, if_neg]
    rintro rfl
    exact hcl.first_mem.elim hy'.2.2
      fun hc => hnt (mem_ofColor.mp hc).1
  · rcases mem_cons.mp hy with rfl | hy
    · rw [ha.page_flags]
      exact ⟨hp.isPage, rfl, hp.removalRequested, hp.rom, hp.referenceCount⟩
    · rw [ha.flags y (h.other_page ho hl hy).1]
      exact ⟨h.isPage _ hl y hy, h.location _ hl y hy, h.unused _ hl y hy⟩
  · rw [ha.available, Nat.mod_eq_of_lt hav, length_cons]
    omega

lemma miInsertPageInFreeList_spec (hch : (s.bits page).MustBeCached = false)
    (hv : (s.bits page).VerifierAllocation = false) :
    ∃ s', s.miInsertPageInFreeList m page = some s' ∧
      PageLists m s' (update pages .freePageList (pages .freePageList ++ [page])) := by
  have hl := freeAvailable
  have hcl := h.color _ _ hl (pageColor_le m page)
  obtain ⟨s', heq, ha⟩ := appended_free hp hch hv (h.listInvariant hl)
    (h.counters_lt.2.1 _ hl) (fun hc => hcl.last_eq_nil_iff.mpr (hcl.first_eq_nil_iff.mp hc))
  exact ⟨s', heq, h.append hp ho ha⟩

lemma miInsertPageInZeroedList_spec (he : (s.bits page).InPageError = false) :
    ∃ s', s.miInsertPageInZeroedList m page = some s' ∧
      PageLists m s' (update pages .zeroedPageList (page :: pages .zeroedPageList)) := by
  have hl := zeroedAvailable
  have hn := (new_page hp).2
  have hf : (s.list .zeroedPageList).Flink ≠ page := fun hc =>
    (h.list _ hl).first_mem.elim (fun hm => hn (hc ▸ hm)) fun hm => ho _ hl (hc ▸ hm)
  have hcl : (s.color .zeroedPageList (pageColor m page)).Flink ≠ page := fun hc =>
    (h.color _ _ hl (pageColor_le m page)).first_mem.elim (fun hm => hn (hc ▸ hm))
      fun hm => ho _ hl (hc ▸ (mem_ofColor.mp hm).1)
  obtain ⟨s', heq, ha⟩ := prepended_zeroed hp he hf hcl
  exact ⟨s', heq, h.prepend hp ho ha⟩

end Insert

end PageLists

end PfnDatabase

end FreeNT.Mm
