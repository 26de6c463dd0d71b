import Mathlib.Data.List.Perm.Subperm
import FreeNT.Mm.PfnList

/-!
# Taking pages off the lists

`PageLists memory s pages` ties the database to the pages that are on the two global lists, in order.
The list of a colour is the global list with the other colours left out. So the first page
of a global list is also the first one of its colour, which `MiRemovePageByColor`
relies on.
-/

namespace FreeNT.Mm

open List Function

open Function (update)

namespace PfnDatabase

variable {memory : PhysicalMemory} {s s' : PfnDatabase} {pages : MmLists → List Nat} {l l' : MmLists}
  {e page c y : Nat} {xs ys : List Nat}

/-- The pages of one colour. -/
def ofColor (memory : PhysicalMemory) (c : Nat) (xs : List Nat) : List Nat :=
  xs.filter fun page => pageColor memory page = c

lemma mem_ofColor : page ∈ ofColor memory c xs ↔ page ∈ xs ∧ pageColor memory page = c := by
  simp [ofColor]

lemma ofColor_append : ofColor memory c (xs ++ ys) = ofColor memory c xs ++ ofColor memory c ys :=
  filter_append xs ys

lemma ofColor_cons_self : ofColor memory (pageColor memory page) (page :: xs) =
      page :: ofColor memory (pageColor memory page) xs := filter_cons_of_pos (by simp)

lemma ofColor_cons_ne (h : c ≠ pageColor memory page) :
    ofColor memory c (page :: xs) = ofColor memory c xs := filter_cons_of_neg (by simp [h.symm])

lemma pageColor_le (memory : PhysicalMemory) (page : Nat) :
    pageColor memory page ≤ memory.MmSecondaryColorMask := Nat.and_le_right

lemma isPage_lt (h : isPage memory page) : page < coloredListHead := by
  have hf := memory.fits
  simp only [isPage, Bool.and_eq_true, decide_eq_true_eq] at h
  unfold coloredListHead
  omega

lemma coloredListHead_lt : coloredListHead < pfnListHead := by decide

lemma listInvariant_of {next p : Nat → Nat} {head : MmPfnList}
    (hli : DoubleList next p pfnListHead pfnListHead head.Flink head.Blink xs)
    (ht : head.Total = xs.length) : listInvariant head := by
  have hfs := hli.first_eq_nil_iff
  have hls := hli.last_eq_nil_iff
  unfold listInvariant
  cases xs with
  | nil => simp [ht, hfs.mpr rfl, hls.mpr rfl]
  | cons x xs =>
    have hf := mt hfs.mp (cons_ne_nil x xs)
    have hl := mt hls.mp (cons_ne_nil x xs)
    simp [ht, hf, hl]

/-- The pages that are on the lists. -/
structure PageLists (memory : PhysicalMemory) (s : PfnDatabase) (pages : MmLists → List Nat) : Prop where
  list : ∀ l, l.Available → DoubleList s.Flink s.Blink pfnListHead pfnListHead (s.list l).Flink
    (s.list l).Blink (pages l)
  total : ∀ l, l.Available → (s.list l).Total = (pages l).length
  color : ∀ l c, l.Available → c ≤ memory.MmSecondaryColorMask →
    DoubleList s.OriginalPte s.PteFrame pfnListHead coloredListHead (s.color l c).Flink
      (s.color l c).Blink (ofColor memory c (pages l))
  count : ∀ l c, l.Available → c ≤ memory.MmSecondaryColorMask →
    (s.color l c).Count = (ofColor memory c (pages l)).length
  apart : ∀ l l', l.Available → l'.Available → l ≠ l' → ∀ page ∈ pages l, page ∉ pages l'
  isPage : ∀ l, l.Available → ∀ page ∈ pages l, isPage memory page = true
  location : ∀ l, l.Available → ∀ page ∈ pages l, (s.flags page).PageLocation = l
  unused : ∀ l, l.Available → ∀ page ∈ pages l, (s.flags page).RemovalRequested = false ∧
    (s.flags page).Rom = false ∧ s.ReferenceCount page = 0
  available : s.MmAvailablePages = (pages .zeroedPageList).length + (pages .freePageList).length

namespace PageLists

variable (h : PageLists memory s pages)

include h

section

variable (hl : l.Available)

include hl

lemma listInvariant : listInvariant (s.list l) :=
  listInvariant_of (h.list l hl) (h.total l hl)

lemma page_lt (hp : page ∈ pages l) : page < coloredListHead :=
  isPage_lt (h.isPage l hl page hp)

lemma length_le : (pages l).length ≤ coloredListHead := by
  have hs : pages l ⊆ range coloredListHead :=
    fun y hy => mem_range.mpr (h.page_lt hl hy)
  have := (subperm_of_subset (h.list l hl).nodup hs).length_le
  rwa [length_range] at this

lemma replace (hls : DoubleList s'.Flink s'.Blink pfnListHead pfnListHead (s'.list l).Flink (s'.list l).Blink xs)
    (ht : (s'.list l).Total = xs.length)
    (hcl : ∀ c ≤ memory.MmSecondaryColorMask, DoubleList s'.OriginalPte s'.PteFrame pfnListHead
      coloredListHead (s'.color l c).Flink (s'.color l c).Blink (ofColor memory c xs))
    (hcn : ∀ c ≤ memory.MmSecondaryColorMask, (s'.color l c).Count = (ofColor memory c xs).length)
    (ho : ∀ l', l'.Available → l' ≠ l → s'.list l' = s.list l' ∧ s'.color l' = s.color l')
    (hk : ∀ l', l'.Available → l' ≠ l → ∀ y ∈ pages l', y ∉ xs ∧ s'.Flink y = s.Flink y ∧
      s'.Blink y = s.Blink y ∧ s'.OriginalPte y = s.OriginalPte y ∧ s'.PteFrame y = s.PteFrame y ∧
      s'.flags y = s.flags y)
    (hp : ∀ y ∈ xs, PfnDatabase.isPage memory y ∧ (s'.flags y).PageLocation = l ∧
      (s'.flags y).RemovalRequested = false ∧ (s'.flags y).Rom = false ∧ s.ReferenceCount y = 0)
    (hr : s'.ReferenceCount = s.ReferenceCount)
    (ha : s'.MmAvailablePages + (pages l).length = s.MmAvailablePages + xs.length) :
    PageLists memory s' (update pages l xs) := by
  have hsl : update pages l xs l = xs := update_self l xs pages
  have hne {l' : MmLists} (hl' : l' ≠ l) : update pages l xs l' = pages l' :=
    update_of_ne hl' xs pages
  refine ⟨fun l' hl' => ?_, fun l' hl' => ?_, fun l' c hl' hc => ?_, fun l' c hl' hc => ?_,
    fun l1 l2 hl1 hl2 hd y hy1 hy2 => ?_, fun l' hl' y hy => ?_, fun l' hl' y hy => ?_,
    fun l' hl' y hy => ?_, ?_⟩
  · by_cases heq : l' = l
    · rw [heq, hsl]
      exact hls
    rw [hne heq, (ho l' hl' heq).1]
    exact (h.list l' hl').congr (fun y hy => (hk l' hl' heq y hy).2.1)
      fun y hy => (hk l' hl' heq y hy).2.2.1
  · by_cases heq : l' = l
    · rw [heq, hsl, ht]
    · rw [hne heq, (ho l' hl' heq).1, h.total l' hl']
  · by_cases heq : l' = l
    · rw [heq, hsl]
      exact hcl c hc
    rw [hne heq, (ho l' hl' heq).2]
    exact (h.color l' c hl' hc).congr
      (fun y hy => (hk l' hl' heq y (mem_ofColor.mp hy).1).2.2.2.1)
      fun y hy => (hk l' hl' heq y (mem_ofColor.mp hy).1).2.2.2.2.1
  · by_cases heq : l' = l
    · rw [heq, hsl, hcn c hc]
    · rw [hne heq, (ho l' hl' heq).2, h.count l' c hl' hc]
  · by_cases h1 : l1 = l
    · rw [h1, hsl] at hy1
      rw [hne (h1 ▸ hd.symm)] at hy2
      exact (hk l2 hl2 (h1 ▸ hd.symm) y hy2).1 hy1
    rw [hne h1] at hy1
    by_cases h2 : l2 = l
    · rw [h2, hsl] at hy2
      exact (hk l1 hl1 h1 y hy1).1 hy2
    · rw [hne h2] at hy2
      exact h.apart l1 l2 hl1 hl2 hd y hy1 hy2
  · by_cases heq : l' = l
    · rw [heq, hsl] at hy
      exact (hp y hy).1
    · rw [hne heq] at hy
      exact h.isPage l' hl' y hy
  · by_cases heq : l' = l
    · rw [heq, hsl] at hy
      rw [heq, (hp y hy).2.1]
    · rw [hne heq] at hy
      rw [(hk l' hl' heq y hy).2.2.2.2.2, h.location l' hl' y hy]
  · rw [hr]
    by_cases heq : l' = l
    · rw [heq, hsl] at hy
      exact (hp y hy).2.2
    rw [hne heq] at hy
    rw [(hk l' hl' heq y hy).2.2.2.2.2]
    exact h.unused l' hl' y hy
  have hs := h.available
  rcases hl with rfl | rfl
  · rw [hsl, hne (by decide)]
    omega
  · rw [hsl, hne (by decide)]
    omega

end

end PageLists

section Steps

/-- The entry is off its global list; all else is as it was. -/
structure OffList (s : PfnDatabase) (l : MmLists) (entry : Nat) (s' : PfnDatabase) : Prop where
  flink : ∀ y, y ≠ pfnListHead → s'.Flink y = if y = s.Blink entry then s.Flink entry else s.Flink y
  blink : ∀ y, y ≠ pfnListHead → s'.Blink y = if y = s.Flink entry then s.Blink entry else s.Blink y
  list : s'.list = update s.list l ⟨((s.list l).Total + (2 ^ 32 - 1)) % 2 ^ 32,
    if s.Blink entry = pfnListHead then s.Flink entry else (s.list l).Flink,
    if s.Flink entry = pfnListHead then s.Blink entry else (s.list l).Blink⟩
  rest : s' = { s with Flink := s'.Flink, Blink := s'.Blink, list := s'.list }

namespace OffList

variable (h : OffList s l e s')

include h

lemma originalPte_eq : s'.OriginalPte = s.OriginalPte := by rw [h.rest]

lemma pteFrame_eq : s'.PteFrame = s.PteFrame := by rw [h.rest]

lemma color_eq : s'.color = s.color := by rw [h.rest]

lemma flags_eq : s'.flags = s.flags := by rw [h.rest]

lemma referenceCount_eq : s'.ReferenceCount = s.ReferenceCount := by rw [h.rest]

lemma available_eq : s'.MmAvailablePages = s.MmAvailablePages := by rw [h.rest]

end OffList

lemma offList_unlinkFromList (s : PfnDatabase) (l : MmLists) (e : Nat) :
    OffList s l e (s.unlinkFromList l e) := by
  unfold unlinkFromList
  dsimp only [setList]
  by_cases hf : s.Flink e = pfnListHead <;> by_cases hb : s.Blink e = pfnListHead
  all_goals
    simp only [hf, hb, ne_eq, not_true_eq_false, not_false_eq_true, if_true, if_false, update_idem, update_self]
    refine ⟨fun y hy => ?_, fun y hy => ?_, ?_, rfl⟩
    all_goals simp_all [update_apply]

/-- The entry is off the list of the colour; all else is as it was. -/
structure OffColor (s : PfnDatabase) (l : MmLists) (entry c : Nat) (s' : PfnDatabase) : Prop where
  originalPte : ∀ y, y ≠ coloredListHead →
    s'.OriginalPte y = if y = s.PteFrame entry then s.OriginalPte entry else s.OriginalPte y
  pteFrame : ∀ y, y ≠ pfnListHead →
    s'.PteFrame y = if y = s.OriginalPte entry then s.PteFrame entry else s.PteFrame y
  color : s'.color = update s.color l (update (s.color l) c ⟨
    if s.PteFrame entry = coloredListHead then s.OriginalPte entry else (s.color l c).Flink,
    if s.OriginalPte entry = pfnListHead then
      (if s.PteFrame entry = coloredListHead then pfnListHead else s.PteFrame entry)
    else (s.color l c).Blink,
    (s.color l c).Count⟩)
  rest : s' = { s with OriginalPte := s'.OriginalPte, PteFrame := s'.PteFrame, color := s'.color }

namespace OffColor

variable (h : OffColor s l e c s')

include h

lemma flink_eq : s'.Flink = s.Flink := by rw [h.rest]

lemma blink_eq : s'.Blink = s.Blink := by rw [h.rest]

lemma list_eq : s'.list = s.list := by rw [h.rest]

lemma flags_eq : s'.flags = s.flags := by rw [h.rest]

lemma referenceCount_eq : s'.ReferenceCount = s.ReferenceCount := by rw [h.rest]

lemma available_eq : s'.MmAvailablePages = s.MmAvailablePages := by rw [h.rest]

lemma count_eq : (s'.color l c).Count = (s.color l c).Count := by
  rw [h.color, update_self, update_self]

end OffColor

lemma offColor_unlinkFirst (hf : s.PteFrame e = coloredListHead) :
    OffColor s l e c (s.unlinkFirstOfColor l e c) := by
  unfold unlinkFirstOfColor
  dsimp only [setColor]
  by_cases hn : s.OriginalPte e = pfnListHead
  all_goals
    simp only [hn, ne_eq, not_true_eq_false, not_false_eq_true, if_true, if_false, update_idem, update_self]
    refine ⟨fun y hy => ?_, fun y hy => ?_, ?_, rfl⟩
    all_goals simp_all [update_apply]

lemma offColor_unlinkFromColor (hs : s.PteFrame e ≠ e)
    (hf : (s.color l c).Flink = e ↔ s.PteFrame e = coloredListHead) :
    ∃ s', s.unlinkFromColor l e c = some s' ∧ OffColor s l e c s' := by
  unfold unlinkFromColor
  by_cases hh : s.PteFrame e = coloredListHead
  · rw [if_pos (hf.mpr hh)]
    exact ⟨_, rfl, offColor_unlinkFirst hh⟩
  rw [if_neg (mt hf.mp hh), if_neg hh]
  dsimp only [setColor]
  have hr : update s.OriginalPte (s.PteFrame e) (s.OriginalPte e) e =
      s.OriginalPte e := update_of_ne hs.symm _ _
  by_cases hn : s.OriginalPte e = pfnListHead
  · rw [if_neg (by rw [hr]; exact not_not.mpr hn)]
    refine ⟨_, rfl, fun y hy => ?_, fun y hy => ?_, ?_, rfl⟩
    · exact update_apply ..
    · rw [if_neg (hn ▸ hy)]
    · rw [if_neg hh, if_pos hn, if_neg hh]
  rw [if_pos (by rw [hr]; exact hn)]
  refine ⟨_, rfl, fun y hy => ?_, fun y hy => ?_, ?_, rfl⟩
  · exact update_apply ..
  · rw [hr]
    exact update_apply ..
  · rw [if_neg hh, if_neg hn, update_eq_self, update_eq_self]

end Steps

/-- The entry is off its global list and off the list of the colour `c`. -/
structure Unlinked (s : PfnDatabase) (l : MmLists) (entry c : Nat) (s' : PfnDatabase) : Prop where
  flink : ∀ y, y ≠ entry → y ≠ pfnListHead → s'.Flink y = if y = s.Blink entry then s.Flink entry else s.Flink y
  blink : ∀ y, y ≠ entry → y ≠ pfnListHead → s'.Blink y = if y = s.Flink entry then s.Blink entry else s.Blink y
  originalPte : ∀ y, y ≠ entry → y ≠ coloredListHead →
    s'.OriginalPte y = if y = s.PteFrame entry then s.OriginalPte entry else s.OriginalPte y
  pteFrame : ∀ y, y ≠ entry → y ≠ pfnListHead →
    s'.PteFrame y = if y = s.OriginalPte entry then s.PteFrame entry else s.PteFrame y
  flags : ∀ y, y ≠ entry → s'.flags y = s.flags y
  referenceCount : s'.ReferenceCount = s.ReferenceCount
  list : s'.list l = ⟨((s.list l).Total + (2 ^ 32 - 1)) % 2 ^ 32,
    if s.Blink entry = pfnListHead then s.Flink entry else (s.list l).Flink,
    if s.Flink entry = pfnListHead then s.Blink entry else (s.list l).Blink⟩
  color : s'.color l c = ⟨
    if s.PteFrame entry = coloredListHead then s.OriginalPte entry else (s.color l c).Flink,
    if s.OriginalPte entry = pfnListHead then
      (if s.PteFrame entry = coloredListHead then pfnListHead else s.PteFrame entry)
    else (s.color l c).Blink,
    (s.color l c).Count - 1⟩
  color_ne : ∀ c', c' ≠ c → s'.color l c' = s.color l c'
  other : ∀ l', l' ≠ l → s'.list l' = s.list l' ∧ s'.color l' = s.color l'
  available : s'.MmAvailablePages = s.MmAvailablePages - 1

namespace PageLists

variable (h : PageLists memory s pages) (hl : l.Available) (hpg : pages l = xs ++ e :: ys)

include h hl hpg

lemma list_entry : DoubleList s.Flink s.Blink pfnListHead pfnListHead (s.list l).Flink (s.list l).Blink
    (xs ++ e :: ys) := hpg ▸ h.list l hl

lemma color_entry : DoubleList s.OriginalPte s.PteFrame pfnListHead coloredListHead
    (s.color l (pageColor memory e)).Flink (s.color l (pageColor memory e)).Blink
    (ofColor memory (pageColor memory e) xs ++ e :: ofColor memory (pageColor memory e) ys) := by
  have hc := h.color l (pageColor memory e) hl (pageColor_le memory e)
  rwa [hpg, ofColor_append, ofColor_cons_self] at hc

omit h hl in
lemma entry_mem : e ∈ pages l := hpg ▸ mem_append_right _ mem_cons_self

/-- The list is not empty, and so short that the count does not wrap. -/
lemma total_pred : ((s.list l).Total + (2 ^ 32 - 1)) % 2 ^ 32 = (xs ++ ys).length := by
  have ht := h.total l hl
  have hln := h.length_le hl
  have hh : coloredListHead < 2 ^ 32 := by decide
  rw [hpg] at hln ht
  simp only [length_append, length_cons] at hln ht ⊢
  omega

lemma neighbours : (s.Blink e = pfnListHead ∨ s.Blink e ∈ pages l) ∧
    (s.Flink e = pfnListHead ∨ s.Flink e ∈ pages l) := by
  have hls := h.list_entry hl hpg
  rw [hpg]
  exact ⟨hls.prev_mem.imp_right fun hm => mem_append_left _ hm,
    hls.next_mem.imp_right fun hm => mem_append_right _ (mem_cons_of_mem _ hm)⟩

lemma color_neighbours : (s.PteFrame e = coloredListHead ∨
      s.PteFrame e ∈ pages l ∧ pageColor memory (s.PteFrame e) = pageColor memory e) ∧
    (s.OriginalPte e = pfnListHead ∨ s.OriginalPte e ∈ pages l ∧
        pageColor memory (s.OriginalPte e) = pageColor memory e) := by
  have hcl := h.color_entry hl hpg
  rw [hpg]
  refine ⟨hcl.prev_mem.imp_right fun hm => ?_, hcl.next_mem.imp_right fun hm => ?_⟩
  · obtain ⟨hm, hc⟩ := mem_ofColor.mp hm
    exact ⟨mem_append_left _ hm, hc⟩
  · obtain ⟨hm, hc⟩ := mem_ofColor.mp hm
    exact ⟨mem_append_right _ (mem_cons_of_mem _ hm), hc⟩

variable (hu : Unlinked s l e (pageColor memory e) s')

include hu

lemma unlinked_list : DoubleList s'.Flink s'.Blink pfnListHead pfnListHead (s'.list l).Flink
    (s'.list l).Blink (xs ++ ys) := by
  have hls := h.list_entry hl hpg
  have hm {y : Nat} (hy : y ∈ xs ++ ys) : y ≠ e ∧ y ≠ pfnListHead := by
    have hnd := nodup_middle.mp hls.nodup
    have hy' : y ∈ e :: (xs ++ ys) := mem_cons_of_mem _ hy
    refine ⟨?_, fun hc => hls.nil_notMem (hc ▸ perm_middle.mem_iff.mpr hy')⟩
    rintro rfl
    exact (nodup_cons.mp hnd).1 hy
  refine hls.remove (fun y hy => hu.flink y (hm hy).1 (hm hy).2)
    (fun y hy => hu.blink y (hm hy).1 (hm hy).2) ?_ ?_
  · rw [hu.list]
  rw [hu.list]
  dsimp only
  by_cases hn : s.Blink e = pfnListHead
  · rw [if_pos hn, hn]
  · rw [if_neg hn]

lemma unlinked_color (hc : c ≤ memory.MmSecondaryColorMask) :
    DoubleList s'.OriginalPte s'.PteFrame pfnListHead coloredListHead (s'.color l c).Flink
      (s'.color l c).Blink (ofColor memory c (xs ++ ys)) := by
  have hnd : (e :: (xs ++ ys)).Nodup := nodup_middle.mp (h.list_entry hl hpg).nodup
  have he {y : Nat} (hy : y ∈ ofColor memory c (xs ++ ys)) : y ≠ e ∧ y ∈ pages l := by
    have hy := (mem_ofColor.mp hy).1
    refine ⟨?_, hpg ▸ perm_middle.mem_iff.mpr (mem_cons_of_mem _ hy)⟩
    rintro rfl
    exact (nodup_cons.mp hnd).1 hy
  have hh {y : Nat} (hy : y ∈ pages l) : y ≠ coloredListHead ∧ y ≠ pfnListHead := by
    have := h.page_lt hl hy
    have := coloredListHead_lt
    omega
  by_cases hcl : c = pageColor memory e
  · subst hcl
    rw [ofColor_append]
    refine (h.color_entry hl hpg).remove (fun y hy => ?_) (fun y hy => ?_) ?_ ?_
    · rw [← ofColor_append] at hy
      exact hu.originalPte y (he hy).1 (hh (he hy).2).1
    · rw [← ofColor_append] at hy
      exact hu.pteFrame y (he hy).1 (hh (he hy).2).2
    · rw [hu.color]
    · rw [hu.color]
  -- the neighbours have the colour of the entry
  have ho := h.color l c hl hc
  rw [hpg, ofColor_append, ofColor_cons_ne hcl, ← ofColor_append] at ho
  rw [hu.color_ne c hcl]
  obtain ⟨hp, hn⟩ := h.color_neighbours hl hpg
  refine ho.congr (fun y hy => ?_) fun y hy => ?_
  · rw [hu.originalPte y (he hy).1 (hh (he hy).2).1, if_neg]
    rintro rfl
    rcases hp with hnl | ⟨-, hc'⟩
    · exact (hh (he hy).2).1 hnl
    · exact hcl ((mem_ofColor.mp hy).2.symm.trans hc')
  rw [hu.pteFrame y (he hy).1 (hh (he hy).2).2, if_neg]
  rintro rfl
  rcases hn with hnl | ⟨-, hc'⟩
  · exact (hh (he hy).2).2 hnl
  · exact hcl ((mem_ofColor.mp hy).2.symm.trans hc')

lemma unlinked_count (hc : c ≤ memory.MmSecondaryColorMask) :
    (s'.color l c).Count = (ofColor memory c (xs ++ ys)).length := by
  have hcn := h.count l c hl hc
  by_cases hcl : c = pageColor memory e
  · subst hcl
    rw [hpg, ofColor_append, ofColor_cons_self] at hcn
    rw [hu.color, ofColor_append]
    simp only [length_append, length_cons] at hcn ⊢
    omega
  · rw [hpg, ofColor_append, ofColor_cons_ne hcl, ← ofColor_append] at hcn
    rw [hu.color_ne c hcl, hcn]

lemma unlink : PageLists memory s' (update pages l (xs ++ ys)) := by
  have hm {y : Nat} (hy : y ∈ xs ++ ys) : y ∈ pages l ∧ y ≠ e := by
    refine ⟨hpg ▸ perm_middle.mem_iff.mpr (mem_cons_of_mem _ hy), ?_⟩
    rintro rfl
    exact (nodup_cons.mp (nodup_middle.mp (h.list_entry hl hpg).nodup)).1 hy
  refine h.replace hl (h.unlinked_list hl hpg hu) ?_ (fun c hc => h.unlinked_color hl hpg hu hc)
    (fun c hc => h.unlinked_count hl hpg hu hc) (fun l' _ hne => hu.other l' hne)
    (fun l' hl' hne y hy => ?_) (fun y hy => ?_) hu.referenceCount ?_
  · rw [hu.list]
    exact h.total_pred hl hpg
  · -- a page of the other list is no neighbour of the entry
    have ho : y ∉ pages l := fun hc => h.apart l' l hl' hl hne y hy hc
    have he : y ≠ e := fun hc => ho (hc ▸ entry_mem hpg)
    have hlt := h.page_lt hl' hy
    have hh := coloredListHead_lt
    obtain ⟨hb, hf⟩ := h.neighbours hl hpg
    obtain ⟨hfr, hp⟩ := h.color_neighbours hl hpg
    refine ⟨fun hc => ho (hm hc).1, ?_, ?_, ?_, ?_, hu.flags y he⟩
    · rw [hu.flink y he (by omega), if_neg]
      rintro rfl
      rcases hb with hc | hc
      · omega
      · exact ho hc
    · rw [hu.blink y he (by omega), if_neg]
      rintro rfl
      rcases hf with hc | hc
      · omega
      · exact ho hc
    · rw [hu.originalPte y he (by omega), if_neg]
      rintro rfl
      rcases hfr with hc | ⟨hc, -⟩
      · omega
      · exact ho hc
    rw [hu.pteFrame y he (by omega), if_neg]
    rintro rfl
    rcases hp with hc | ⟨hc, -⟩
    · omega
    · exact ho hc
  · obtain ⟨hy, hne⟩ := hm hy
    rw [hu.flags y hne]
    exact ⟨h.isPage l hl y hy, h.location l hl y hy, h.unused l hl y hy⟩
  have hps : 0 < s.MmAvailablePages := by
    rw [h.available]
    rcases hl with rfl | rfl <;> rw [hpg] <;> simp only [length_append, length_cons] <;> omega
  rw [hu.available, hpg]
  simp only [length_append, length_cons]
  omega

end PageLists

/-! ### The routines -/

lemma unlinked_of {s1 s2 s3 : PfnDatabase} (hls : OffList s l e s1)
    (hcl : OffColor s2 l e c s3) (hp : s2.OriginalPte = s.OriginalPte)
    (hf : s2.PteFrame = s.PteFrame) (ht : s2.color = s.color)
    (hfk : ∀ y, y ≠ e → s'.Flink y = s1.Flink y)
    (hb : ∀ y, y ≠ e → s'.Blink y = s1.Blink y)
    (hp' : ∀ y, y ≠ e → s'.OriginalPte y = s3.OriginalPte y)
    (hf' : s'.PteFrame = s3.PteFrame) (hfl : ∀ y, y ≠ e → s'.flags y = s.flags y)
    (hr : s'.ReferenceCount = s.ReferenceCount) (hls' : s'.list = s1.list)
    (hcl' : s'.color = update s3.color l
      (update (s3.color l) c { s3.color l c with Count := (s3.color l c).Count - 1 }))
    (ha : s'.MmAvailablePages = s.MmAvailablePages - 1) : Unlinked s l e c s' := by
  have hc3 := hcl.color
  rw [hp, hf, ht] at hc3
  refine ⟨fun y hy hh => ?_, fun y hy hh => ?_, fun y hy hh => ?_, fun y hy hh => ?_, hfl, hr, ?_, ?_,
    fun c' hc' => ?_, fun l' hl' => ⟨?_, ?_⟩, ha⟩
  · rw [hfk y hy, hls.flink y hh]
  · rw [hb y hy, hls.blink y hh]
  · rw [hp' y hy, hcl.originalPte y hh, hp, hf]
  · rw [hf', hcl.pteFrame y hh, hp, hf]
  · rw [hls', hls.list, update_self]
  · rw [hcl', hc3]
    simp [update_self]
  · rw [hcl', hc3]
    simp [update_self, update_of_ne hc']
  · rw [hls', hls.list, update_of_ne hl']
  · rw [hcl', hc3, update_of_ne hl', update_of_ne hl']

namespace PageLists

variable (h : PageLists memory s pages) (hl : l.Available) (hpg : pages l = xs ++ e :: ys)

include h hl hpg

lemma entry_checks : (s.flags e).PageLocation = l ∧ (s.list l).Total ≠ 0 ∧
    1 ≤ (s.color l (pageColor memory e)).Count ∧ s.MmAvailablePages ≠ 0 := by
  have hln : (pages l).length ≠ 0 := by
    rw [hpg]
    simp
  refine ⟨h.location l hl e (entry_mem hpg), (h.total l hl).trans_ne hln, ?_, ?_⟩
  · rw [h.count l _ hl (pageColor_le memory e), hpg, ofColor_append, ofColor_cons_self, length_append, length_cons]
    omega
  · rw [h.available]
    rcases hl with rfl | rfl <;> omega

lemma unlinked_listInvariant (hu : Unlinked s l e (pageColor memory e) s') :
    PfnDatabase.listInvariant (s'.list l) :=
  listInvariant_of (h.unlinked_list hl hpg hu) (by rw [hu.list]; exact h.total_pred hl hpg)

lemma unlinkPage_spec (hw : (s.flags e).WriteInProgress = false)
    (hr : (s.flags e).ReadInProgress = false) :
    ∃ s', s.miUnlinkFreeOrZeroedPage memory e = some s' ∧ PageLists memory s' (update pages l (xs ++ ys)) ∧
      s'.Flink e = 0 ∧ s'.Blink e = 0 ∧ s'.OriginalPte e = 0 := by
  obtain ⟨hlc, htl, hcn, ha⟩ := h.entry_checks hl hpg
  have hls := offList_unlinkFromList s l e
  have hc := h.color_entry hl hpg
  have hf := hls.pteFrame_eq
  have ht := hls.color_eq
  have hs : (s.unlinkFromList l e).PteFrame e ≠ e := by
    rw [hf]
    exact hc.prev_ne_self
  have hfs : ((s.unlinkFromList l e).color l (pageColor memory e)).Flink = e ↔
      (s.unlinkFromList l e).PteFrame e = coloredListHead := by
    rw [hf, ht]
    exact hc.first_eq_iff
  obtain ⟨s3, heq, hcl⟩ := offColor_unlinkFromColor hs hfs
  have hcn3 : (s3.color l (pageColor memory e)).Count = (s.color l (pageColor memory e)).Count := by
    rw [hcl.count_eq, ht]
  have ha3 := hcl.available_eq.trans hls.available_eq
  let t := s3.color l (pageColor memory e)
  let s4 : PfnDatabase :=
    { s3.setColor l (pageColor memory e) { t with Count := t.Count - 1 } with
      OriginalPte := update s3.OriginalPte e 0
      Flink := update s3.Flink e 0
      Blink := update s3.Blink e 0 }
  have hu : Unlinked s l e (pageColor memory e)
      { s4 with MmAvailablePages := s4.MmAvailablePages - 1 } := by
    refine unlinked_of hls hcl hls.originalPte_eq hf ht (fun y hy => ?_) (fun y hy => ?_)
      (fun y hy => update_of_ne hy _ _) rfl
      (fun y _ => congrFun (hcl.flags_eq.trans hls.flags_eq) y)
      (hcl.referenceCount_eq.trans hls.referenceCount_eq) hcl.list_eq rfl
      (congrArg (· - 1) ha3)
    · exact (update_of_ne hy _ _).trans (congrFun hcl.flink_eq y)
    · exact (update_of_ne hy _ _).trans (congrFun hcl.blink_eq y)
  have hin := h.unlinked_listInvariant hl hpg hu
  refine ⟨_, ?_, h.unlink hl hpg hu, update_self .., update_self .., update_self ..⟩
  have hz : s4.MmAvailablePages ≠ 0 := ha3.trans_ne ha
  unfold miUnlinkFreeOrZeroedPage
  rw [hlc, if_neg (by simp [hw, hr]), if_neg (by simp [hl, h.listInvariant hl, htl]), heq,
    Option.bind_eq_bind, Option.bind_some, uncountColor, if_neg (by omega), Option.bind_some]
  change (if PfnDatabase.listInvariant (s4.list l) = true then s4.miDecrementAvailablePages else none) = _
  rw [if_pos hin, miDecrementAvailablePages, if_neg hz]

lemma miRemovePageByColor_spec (hfs : s.PteFrame e = coloredListHead) :
    ∃ s', s.miRemovePageByColor memory e (pageColor memory e) = some s' ∧
      PageLists memory s' (update pages l (xs ++ ys)) ∧
      s'.Flink e = 0 ∧ s'.Blink e = 0 ∧ s'.OriginalPte e = 0 ∧
      (s'.flags e).PageLocation = .zeroedPageList ∧ s'.ReferenceCount = s.ReferenceCount := by
  obtain ⟨hlc, -, hcn, ha⟩ := h.entry_checks hl hpg
  obtain ⟨hr, hrm, -⟩ := h.unused l hl e (entry_mem hpg)
  have hls := offList_unlinkFromList s l e
  -- between the two parts the links of the page are cleared, and its flags
  let s1 := s.unlinkFromList l e
  let s2 : PfnDatabase := { s1 with
    Flink := update s1.Flink e 0
    Blink := update s1.Blink e 0
    flags := update s1.flags e
      { PageLocation := .zeroedPageList, ReadInProgress := false, WriteInProgress := false,
        RemovalRequested := false, Rom := false, PageColor := (s1.flags e).PageColor,
        CacheAttribute := (s1.flags e).CacheAttribute } }
  have hf : s2.PteFrame = s.PteFrame := hls.pteFrame_eq
  have ht : s2.color = s.color := hls.color_eq
  let s3 := s2.unlinkFirstOfColor l e (pageColor memory e)
  have hc : OffColor s2 l e (pageColor memory e) s3 :=
    offColor_unlinkFirst ((congrFun hf e).trans hfs)
  have hcn3 : (s3.color l (pageColor memory e)).Count = (s.color l (pageColor memory e)).Count := by
    rw [hc.count_eq, ht]
  have hrf : s3.ReferenceCount = s.ReferenceCount :=
    hc.referenceCount_eq.trans hls.referenceCount_eq
  have ha3 : s3.MmAvailablePages = s.MmAvailablePages :=
    hc.available_eq.trans hls.available_eq
  let t := s3.color l (pageColor memory e)
  let s4 : PfnDatabase :=
    { s3.setColor l (pageColor memory e) { t with Count := t.Count - 1 } with
      OriginalPte := update s3.OriginalPte e 0 }
  have hu : Unlinked s l e (pageColor memory e)
      { s4 with MmAvailablePages := s4.MmAvailablePages - 1 } := by
    refine unlinked_of hls hc hls.originalPte_eq hf ht (fun y hy => ?_) (fun y hy => ?_)
      (fun y hy => update_of_ne hy _ _) rfl (fun y hy => ?_) hrf hc.list_eq rfl
      (congrArg (· - 1) ha3)
    · exact (congrFun hc.flink_eq y).trans (update_of_ne hy _ _)
    · exact (congrFun hc.blink_eq y).trans (update_of_ne hy _ _)
    · rw [← hls.flags_eq]
      exact (congrFun hc.flags_eq y).trans (update_of_ne hy _ _)
  have hin := h.unlinked_listInvariant hl hpg hu
  refine ⟨_, ?_, h.unlink hl hpg hu, (congrFun hc.flink_eq e).trans (update_self ..),
    (congrFun hc.blink_eq e).trans (update_self ..), update_self .., ?_, hrf⟩
  swap
  · have hfl : s3.flags e = s2.flags e := congrFun hc.flags_eq e
    change (s3.flags e).PageLocation = _
    rw [hfl]
    change (update s1.flags e _ e).PageLocation = _
    rw [update_self]
  have hz : s4.MmAvailablePages ≠ 0 := ha3.trans_ne ha
  have hin1 : PfnDatabase.listInvariant (s1.list l) := by
    change PfnDatabase.listInvariant (s3.list l) = true at hin
    rwa [hc.list_eq] at hin
  have hcn2 : ¬ (s2.color l (pageColor memory e)).Count < 1 := by
    rw [ht]
    omega
  unfold miRemovePageByColor
  rw [hlc, if_neg (Nat.not_lt.mpr (pageColor_le memory e)), if_neg (by simp [hr, hrm]),
    if_neg (by simp [hl, h.listInvariant hl]), if_neg (by rw [hin1]; decide), if_neg hcn2]
  change ((s3.uncountColor l (pageColor memory e)).bind fun s =>
    PfnDatabase.miDecrementAvailablePages { s with OriginalPte := update s.OriginalPte e 0 }) = _
  rw [uncountColor, if_neg (by omega), Option.bind_some]
  change s4.miDecrementAvailablePages = _
  rw [miDecrementAvailablePages, if_neg hz]

end PageLists

end PfnDatabase

end FreeNT.Mm
