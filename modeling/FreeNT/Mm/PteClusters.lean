import FreeNT.Mm.SystemPtes

/-!
# The list of free clusters

`Clusters s free`: from `MmFirstFreeSystemPte` the links lead through the clusters `free`,
and each has its size. A cluster uses its first PTE and, if it has more than one, its
second, so that other PTEs may change (`Clusters.frame`). A cluster is taken off
the list (`Clusters.unlink`) and put on it (`Clusters.insert`) by the links at the place
before it.
-/

namespace FreeNT.Mm

open Nat

open FreeNT.Span List

variable {s s' : SystemPtes} {r r' : Span} {free pr ps : List Span} {l l' : Option Nat} {i n v : Nat}

namespace SystemPtes

@[simp]
lemma nextEntry_set : (s.setNextEntry l v).nextEntry l' =
    if l' = l then v % nextEntries else s.nextEntry l' := by
  cases l <;> cases l' <;> simp [setNextEntry, nextEntry, setPte]
  split <;> rfl

@[simp]
lemma oneEntry_set : ((s.setNextEntry l v).pte i).OneEntry = (s.pte i).OneEntry := by
  cases l with
  | none => rfl
  | some j =>
    simp only [setNextEntry, setPte]
    split <;> simp_all

lemma pte_setNextEntry (hne : l ≠ some i) : (s.setNextEntry l v).pte i = s.pte i := by
  cases l with
  | none => rfl
  | some j => exact if_neg fun h => hne (congrArg some h.symm)

@[simp]
lemma totalFree_set : (s.setNextEntry l v).totalFree = s.totalFree := by cases l <;> rfl

lemma pte_setPte {p : ListPte} (hne : i ≠ n) : (s.setPte n p).pte i = s.pte i := if_neg hne

end SystemPtes

open SystemPtes

/-- The cluster has its size in its first PTE, or in the second. -/
def SizeAt (s : SystemPtes) (r : Span) : Prop :=
  (s.pte r.start).OneEntry = decide (r.size = 1) ∧ (r.size ≠ 1 → s.nextEntry (some (r.start + 1)) = r.size)

lemma SizeAt.clusterSize (h : SizeAt s r) : s.clusterSize r.start = r.size := by
  unfold SystemPtes.clusterSize
  rw [h.1]
  split
  · simp_all
  · exact h.2 (by simp_all)

lemma SizeAt.congr (h : SizeAt s r) (ho : (s'.pte r.start).OneEntry = (s.pte r.start).OneEntry)
    (hn : r.size ≠ 1 → s'.nextEntry (some (r.start + 1)) = s.nextEntry (some (r.start + 1))) : SizeAt s' r :=
  ⟨ho.trans h.1, fun hne => (hn hne).trans (h.2 hne)⟩

lemma SizeAt.frame (h : SizeAt s r) (hp : 0 < r.size) (hs : ∀ i, r.Has i → s'.pte i = s.pte i) : SizeAt s' r := by
  refine h.congr ?_ fun hne => ?_
  · rw [hs r.start ⟨le_refl _, by unfold stop; omega⟩]
  · show (s'.pte _).NextEntry = (s.pte _).NextEntry
    rw [hs (r.start + 1) ⟨le_succ _, by unfold stop; omega⟩]

structure Clusters (s : SystemPtes) (free : List Span) : Prop where
  links : ChainFrom id s.nextEntry emptyPteList none (free.map start)
  sizes : ∀ r ∈ free, SizeAt s r
  pos : ∀ r ∈ free, 0 < r.size
  apart : free.Pairwise Apart
  below : ∀ r ∈ free, r.stop ≤ emptyPteList

/-- The place before what follows the clusters. -/
def placeAfter (pre : List Span) : Option Nat := endOf none (pre.map start)

namespace Clusters

lemma start_lt (h : Clusters s free) (hr : r ∈ free) : r.start < emptyPteList := by
  have := h.pos r hr
  have := h.below r hr
  unfold stop at this
  omega

lemma nodup (h : Clusters s free) : (none :: (free.map start).map some).Nodup := by
  refine nodup_cons.mpr ⟨by simp, Nodup.map (fun _ _ => Option.some.inj) ?_⟩
  refine pairwise_map.mpr (h.apart.imp_of_mem fun {r r'} hr hr' ha => ?_)
  have := h.pos r hr
  have := h.pos r' hr'
  unfold Apart stop at ha
  omega

lemma next_end (h : Clusters s pr) : s.nextEntry (placeAfter pr) = emptyPteList := by
  have hl := h.links
  rw [← append_nil (pr.map start)] at hl
  exact hl.drop

lemma next_cons (h : Clusters s (pr ++ r :: ps)) : s.nextEntry (placeAfter pr) = r.start := by
  have hl := h.links
  rw [map_append] at hl
  exact hl.drop.1

lemma frame (h : Clusters s free) (hf : s'.firstFree = s.firstFree)
    (hs : ∀ r ∈ free, ∀ i, r.Has i → s'.pte i = s.pte i) : Clusters s' free := by
  refine ⟨h.links.congr (congrArg ListPte.NextEntry hf) fun i hi => ?_, fun r hr => ?_, h.pos, h.apart, h.below⟩
  · obtain ⟨r, hr, rfl⟩ := mem_map.mp hi
    have := h.pos r hr
    exact congrArg ListPte.NextEntry (hs r hr r.start ⟨le_refl _, by unfold stop; omega⟩)
  · exact (h.sizes r hr).frame (h.pos r hr) (hs r hr)

section

variable (h : Clusters s (pr ++ ps)) (hr : r ∈ pr ++ ps)

include h hr

lemma place_ne (hne : r.size ≠ 1) : placeAfter pr ≠ some (r.start + 1) := by
  intro heq
  have hm : placeAfter pr ∈ none :: (pr.map start).map some := endOf_mem
  rw [heq] at hm
  obtain ⟨r', hr', hs⟩ : ∃ r' ∈ pr, r'.start = r.start + 1 := by simpa using hm
  have hr'' : r' ∈ pr ++ ps := mem_append_left _ hr'
  have := h.pos r hr
  have hn : r ≠ r' := by
    rintro rfl
    omega
  have hap := h.apart.forall hr hr'' hn
  unfold Apart stop at hap
  omega

lemma sizes_setNextEntry : SizeAt (s.setNextEntry (placeAfter pr) v) r :=
  (h.sizes r hr).congr oneEntry_set fun hne => by rw [nextEntry_set, if_neg (h.place_ne hr hne).symm]

end

lemma sublist {free' : List Span} (h : Clusters s free) (hsb : free'.Sublist free)
    (hl : ChainFrom id s'.nextEntry emptyPteList none (free'.map start)) (hs : ∀ r ∈ free', SizeAt s' r) :
    Clusters s' free' :=
  ⟨hl, hs, fun r hr => h.pos r (hsb.subset hr), h.apart.sublist hsb, fun r hr => h.below r (hsb.subset hr)⟩

lemma splice {ps' : List Span} (h : Clusters s (pr ++ ps))
    (hs : ∀ l, l ≠ placeAfter pr → l ∈ none :: (pr.map start).map some → s'.nextEntry l = s.nextEntry l)
    (hps : ChainFrom id s'.nextEntry emptyPteList (placeAfter pr) (ps'.map start)) :
    ChainFrom id s'.nextEntry emptyPteList none ((pr ++ ps').map start) := by
  have hl := h.links
  have hnd := h.nodup
  rw [map_append] at hl hnd ⊢
  rw [map_append, ← cons_append] at hnd
  exact hl.splice hnd.of_append_left (fun p hp hne => hs p hne hp) hps

section

variable (h : Clusters s (pr ++ ps))

include h

lemma place_ne_start (hr : r ∈ ps) : some r.start ≠ placeAfter pr := by
  intro heq
  have hnd := h.nodup
  rw [map_append, map_append, ← cons_append] at hnd
  have hm : some r.start ∈ (ps.map start).map some := mem_map_of_mem (mem_map_of_mem hr)
  exact (disjoint_of_nodup_append hnd) (heq ▸ endOf_mem) hm

lemma next_lt : s.nextEntry (placeAfter pr) % nextEntries = s.nextEntry (placeAfter pr) := by
  refine mod_eq_of_lt ?_
  cases ps with
  | nil =>
    rw [append_nil] at h
    rw [h.next_end]
    decide
  | cons r ps =>
    rw [h.next_cons]
    have := h.start_lt (mem_append_right _ mem_cons_self)
    unfold emptyPteList at this
    unfold nextEntries
    omega

lemma rest_links :
    Chain id (fun i => s.nextEntry (some i)) emptyPteList (s.nextEntry (placeAfter pr)) (ps.map start) := by
  have hl := h.links
  rw [map_append] at hl
  exact hl.drop

end

lemma placeAfter_snoc : placeAfter (pr ++ [r]) = some r.start := by
  unfold placeAfter
  rw [map_append, endOf_append]
  rfl

lemma unlink (h : Clusters s (pr ++ r :: ps)) :
    Clusters (s.setNextEntry (placeAfter pr) (s.nextEntry (some r.start))) (pr ++ ps) := by
  have hs : (pr ++ ps).Sublist (pr ++ r :: ps) := Sublist.append_left (sublist_cons_self _ _) _
  refine h.sublist hs (h.splice (fun l hne _ => ?_) ?_) fun x hx => h.sizes_setNextEntry (hs.subset hx)
  · rw [nextEntry_set, if_neg hne]
  have h' : Clusters s ((pr ++ [r]) ++ ps) := by rwa [append_assoc]
  have hn := h'.next_lt
  have hr := h'.rest_links
  rw [placeAfter_snoc] at hn hr
  unfold ChainFrom
  rw [nextEntry_set, if_pos rfl, hn]
  refine hr.congr fun i hi => ?_
  obtain ⟨x, hx, rfl⟩ := mem_map.mp hi
  rw [nextEntry_set, if_neg (h.place_ne_start (mem_cons_of_mem _ hx))]

lemma insert (h : Clusters s (pr ++ ps)) (hsz : SizeAt s r) (hps : 0 < r.size) (hb : r.stop ≤ emptyPteList)
    (ha : ∀ x ∈ pr ++ ps, r.Apart x) :
    Clusters ((s.setNextEntry (some r.start) (s.nextEntry (placeAfter pr))).setNextEntry (placeAfter pr) r.start)
      (pr ++ r :: ps) := by
  have hs : r.start < emptyPteList := by unfold stop at hb; omega
  have hmd : r.start % nextEntries = r.start := mod_eq_of_lt (lt_trans hs (by decide))
  have hne (x : Span) (hx : x ∈ pr ++ ps) : x.start ≠ r.start := by
    have := ha x hx
    have := h.pos x hx
    unfold Apart stop at *
    omega
  have hp : some r.start ≠ placeAfter pr := by
    intro heq
    have hm : placeAfter pr ∈ none :: (pr.map start).map some := endOf_mem
    rw [← heq] at hm
    obtain ⟨x, hx, hxr⟩ : ∃ x ∈ pr, x.start = r.start := by simpa using hm
    exact hne x (mem_append_left _ hx) hxr
  have hn : s.nextEntry (placeAfter pr) % nextEntries = s.nextEntry (placeAfter pr) := h.next_lt
  refine ⟨h.splice (fun l hl hm => ?_) ⟨?_, ?_⟩, fun x hx => ?_, ?_, ?_, ?_⟩
  · rw [nextEntry_set, if_neg hl, nextEntry_set, if_neg]
    rintro rfl
    obtain ⟨x, hx, hxr⟩ : ∃ x ∈ pr, x.start = r.start := by simpa using hm
    exact hne x (mem_append_left _ hx) hxr
  · rw [nextEntry_set, if_pos rfl, hmd]
    rfl
  · dsimp only
    rw [nextEntry_set, if_neg hp, nextEntry_set, if_pos rfl, hn]
    refine h.rest_links.congr fun i hi => ?_
    obtain ⟨x, hx, rfl⟩ := mem_map.mp hi
    rw [nextEntry_set, if_neg (h.place_ne_start hx), nextEntry_set,
      if_neg fun heq => hne x (mem_append_right _ hx) (Option.some.inj heq)]
  · rcases mem_cons.mp (perm_middle.mem_iff.mp hx) with rfl | hx
    · refine hsz.congr (oneEntry_set.trans oneEntry_set) fun ho => ?_
      rw [nextEntry_set, if_neg, nextEntry_set, if_neg]
      · intro heq
        have := Option.some.inj heq
        omega
      intro heq
      have hm : placeAfter pr ∈ none :: (pr.map start).map some := endOf_mem
      rw [← heq] at hm
      obtain ⟨y, hy, hyr⟩ : ∃ y ∈ pr, y.start = x.start + 1 := by simpa using hm
      have := ha y (mem_append_left _ hy)
      unfold Apart stop at *
      omega
    · refine (h.sizes x hx).congr (oneEntry_set.trans oneEntry_set) fun ho => ?_
      rw [nextEntry_set, if_neg (h.place_ne hx ho).symm, nextEntry_set, if_neg]
      intro heq
      have := Option.some.inj heq
      have := ha x hx
      have := h.pos x hx
      unfold Apart stop at *
      omega
  · intro x hx
    rcases mem_cons.mp (perm_middle.mem_iff.mp hx) with rfl | hx
    · exact hps
    · exact h.pos x hx
  · exact (pairwise_middle Apart.symm).mpr (pairwise_cons.mpr ⟨ha, h.apart⟩)
  intro x hx
  rcases mem_cons.mp (perm_middle.mem_iff.mp hx) with rfl | hx
  · exact hb
  · exact h.below x hx

/-- The walk stops before the first cluster that is large enough. -/
lemma findLoop_spec {k : Nat} (h : Clusters s (pr ++ free)) (hf : free.length < k) :
    ∃ sm l, free = sm ++ l ∧ (∀ r ∈ sm, r.size < n) ∧ (∀ r ∈ l.head?, n ≤ r.size) ∧
      s.findLoop n k (placeAfter pr) = some (placeAfter (pr ++ sm)) := by
  induction free generalizing pr k with
  | nil =>
    obtain ⟨k, rfl⟩ := exists_eq_add_one_of_ne_zero (ne_of_gt hf)
    rw [append_nil] at h
    refine ⟨[], [], rfl, nofun, nofun, ?_⟩
    rw [findLoop, if_pos h.next_end, append_nil]
  | cons r free ih =>
    obtain ⟨k, rfl⟩ := exists_eq_add_one_of_ne_zero (ne_of_gt (lt_of_le_of_lt (zero_le _) hf))
    have hm : r ∈ pr ++ r :: free := mem_append_right _ mem_cons_self
    rw [findLoop, h.next_cons, if_neg (Nat.ne_of_lt (h.start_lt hm)), (h.sizes r hm).clusterSize]
    split
    case isTrue hle =>
      refine ⟨[], r :: free, rfl, nofun, fun x hx => ?_, by rw [append_nil]⟩
      cases hx
      exact hle
    case isFalse hle =>
      have h' : Clusters s ((pr ++ [r]) ++ free) := by rwa [append_assoc]
      obtain ⟨sm, l, rfl, hs, hl, hfn⟩ := ih h' (lt_of_succ_lt_succ hf)
      refine ⟨r :: sm, l, rfl, fun x hx => ?_, hl, ?_⟩
      · rcases mem_cons.mp hx with rfl | hx
        · exact Nat.lt_of_not_le hle
        · exact hs x hx
      rw [placeAfter_snoc] at hfn
      rw [hfn, append_assoc]
      rfl

end Clusters

end FreeNT.Mm
