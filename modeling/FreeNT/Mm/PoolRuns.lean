import FreeNT.Lib.Run
import FreeNT.Mm.NonPagedPool

/-!
# Runs and allocations of the nonpaged pool

The pages that are mapped are shared out between allocations (`used`, those cached in the
S-list among them), free runs, and pages that a step is about to free (`PoolOk`). The marks of a
page tell where allocations begin and end, so that a page before or after one that is not
marked belongs to a free run (`PoolOk.run_after`, `PoolOk.run_before`), and its owner is the
first page of the run.

An allocation cuts its pages from the end of a run (`takeFromRun_spec`), and freed pages are
joined with the runs on both sides of them (`takeNext_spec`, `joinBefore_spec`,
`miFreePoolPages_spec`).
-/

namespace FreeNT.Mm

open FreeNT.Span NonPagedPool List Option

/-- The entries of a free run. -/
structure RunAt (s : NonPagedPool) (r : Span) : Prop where
  size : ∃ page, s.Page r.start = some page ∧ page.Size = r.size
  owner : ∀ i, r.Has i → ∃ page, s.Page i = some page ∧ page.Owner = r.start ∧ page.Signature = true

structure PoolOk (layout : PoolLayout) (s : NonPagedPool) (used loose free : List Span) : Prop where
  pos : ∀ r ∈ used ++ (loose ++ free), 0 < r.size
  cover : ∀ i, cover (used ++ (loose ++ free)) i = if (s.Page i).isSome then 1 else 0
  mapped : ∀ i, layout.Initial.Has i → (s.Page i).isSome
  inside : ∀ i, (s.Page i).isSome → layout.Initial.Has i ∨ layout.Expansion.Has i
  length : s.FreeListHead.length = maxFreePageLists
  lists : s.FreeListHead.flatten.Perm (free.map Span.start)
  runs : ∀ r ∈ free, RunAt s r
  starts : ∀ i page, s.Page i = some page → (page.StartOfAllocation = true ↔ ∃ r ∈ used, r.start = i)
  ends : ∀ i page, s.Page i = some page → (page.EndOfAllocation = true ↔ ∃ r ∈ used, r.stop = i + 1)
  parted : free.Pairwise fun r r' => ¬ r.Meets r'

variable {lt : PoolLayout} {s s' : NonPagedPool} {used l free rs used' l' free' : List Span} {r x y : Span}
  {i j k n : Nat} {f : PoolPage → PoolPage}

/-! ## Pages and lists -/

lemma page_setPage : (s.setPage i f).Page j = if j = i then (s.Page j).map f else s.Page j := rfl

@[simp] lemma page_removeEntry : (s.removeEntry i).Page = s.Page := rfl

@[simp] lemma page_insertTail : (s.insertTail i n).Page = s.Page := rfl

lemma has_start (h : 0 < r.size) : r.Has r.start := by
  unfold Has stop
  omega

lemma has_last (h : 0 < r.size) : r.Has (r.stop - 1) := by
  unfold Has stop
  omega

lemma flatten_removeEntry (h : s.FreeListHead.flatten.Nodup) :
    (s.removeEntry i).FreeListHead.flatten = s.FreeListHead.flatten.erase i := by
  rw [h.erase_eq_filter, filter_flatten, removeEntry]
  congr 1
  refine map_congr_left fun l hl => ?_
  exact (h.sublist (sublist_flatten_of_mem hl)).erase_eq_filter i

lemma flatten_insertTail (h : s.FreeListHead.length = maxFreePageLists) :
    (s.insertTail i n).FreeListHead.flatten.Perm (i :: s.FreeListHead.flatten) := by
  have hm : ∀ (ls : List (List Nat)) (k : Nat), k < ls.length →
      (ls.modify k (· ++ [i])).flatten.Perm (i :: ls.flatten) := by
    intro ls
    induction ls with
    | nil => exact fun k hk => absurd hk (Nat.not_lt_zero k)
    | cons l ls ih =>
      intro k hk
      cases k with
      | zero =>
        simp only [modify_zero_cons, flatten_cons, append_assoc]
        exact perm_middle
      | succ k =>
        exact ((ih k (Nat.lt_of_succ_lt_succ hk)).append_left l).trans perm_middle
  refine hm _ _ ?_
  rw [h, listIndex]
  unfold maxFreePageLists
  split <;> omega

namespace PoolOk

section

variable (h : PoolOk lt s used l free)

include h

lemma perm (hu : used'.Perm used) (hf : free'.Perm free) :
    PoolOk lt s used' l free' := by
  have ha : (used' ++ (l ++ free')).Perm (used ++ (l ++ free)) := hu.append (hf.append_left l)
  exact
    { pos := fun r hr => h.pos r (ha.mem_iff.mp hr)
      cover := fun i => (cover_perm ha i).trans (h.cover i)
      mapped := h.mapped
      inside := h.inside
      length := h.length
      lists := h.lists.trans (hf.map start).symm
      runs := fun r hr => h.runs r (hf.mem_iff.mp hr)
      starts := fun i page hp => (h.starts i page hp).trans (by simp only [hu.mem_iff])
      ends := fun i page hp => (h.ends i page hp).trans (by simp only [hu.mem_iff])
      parted := (hf.pairwise_iff fun h h' => h h'.symm).mpr h.parted }

lemma apart : (used ++ (l ++ free)).Pairwise Apart := by
  refine apart_of_cover_le h.pos fun i => ?_
  rw [h.cover]
  split <;> omega

lemma isSome_iff : (s.Page i).isSome ↔ ∃ r ∈ used ++ (l ++ free), r.Has i := by
  rw [← cover_pos, h.cover]
  split <;> simp_all

lemma unique (hx : x ∈ used ++ (l ++ free)) (hy : y ∈ used ++ (l ++ free))
    (hix : x.Has i) (hiy : y.Has i) : x = y := by
  by_contra hne
  have ha := h.apart.forall hx hy hne
  unfold Apart at ha
  unfold Has at hix hiy
  omega

lemma nodup : (free.map Span.start).Nodup := by
  have hf : free.Pairwise Apart := (pairwise_append.mp (pairwise_append.mp h.apart).2.1).2.1
  refine pairwise_map.mpr (hf.imp_of_mem fun {r r'} hr hr' ha => ?_)
  have h1 := h.pos r (by simp [hr])
  have h2 := h.pos r' (by simp [hr'])
  unfold Apart stop at ha
  omega

lemma not_used (hr : r ∈ l ++ free) (hi : r.Has i) : ∀ x ∈ used, ¬ x.Has i := by
  intro x hx hix
  have ha := (pairwise_append.mp h.apart).2.2 x hx r hr
  unfold Apart at ha
  unfold Has at hi hix
  omega

/-- No allocation starts or ends at a page that is not in use. -/
lemma unmarked {page : PoolPage} (hr : r ∈ l ++ free) (hi : r.Has i) (hp : s.Page i = some page) :
    page.StartOfAllocation = false ∧ page.EndOfAllocation = false := by
  rw [Bool.eq_false_iff, Bool.eq_false_iff, Ne, Ne, h.starts _ _ hp, h.ends _ _ hp]
  constructor
  · rintro ⟨x, hx, heq⟩
    exact h.not_used hr hi x hx (heq ▸ has_start (h.pos x (mem_append_left _ hx)))
  · rintro ⟨x, hx, heq⟩
    have hx' := has_last (h.pos x (mem_append_left _ hx))
    rw [heq] at hx'
    exact h.not_used hr hi x hx hx'

end

lemma retouch {g : Nat → PoolPage → PoolPage} (h : PoolOk lt s used l free)
    (hpg : ∀ j, s'.Page j = (s.Page j).map (g j))
    (hc : ∀ i, Span.cover (used' ++ (l' ++ free')) i = Span.cover (used ++ (l ++ free)) i)
    (hps : ∀ r ∈ used' ++ (l' ++ free'), 0 < r.size) (hln : s'.FreeListHead.length = s.FreeListHead.length)
    (hl : s'.FreeListHead.flatten.Perm (free'.map Span.start)) (hr : ∀ r ∈ free', RunAt s' r)
    (hst : ∀ i page, s.Page i = some page → ((g i page).StartOfAllocation = true ↔ ∃ r ∈ used', r.start = i))
    (he : ∀ i page, s.Page i = some page → ((g i page).EndOfAllocation = true ↔ ∃ r ∈ used', r.stop = i + 1))
    (hpr : free'.Pairwise fun r r' => ¬ r.Meets r') : PoolOk lt s' used' l' free' := by
  have hs (i : Nat) : (s'.Page i).isSome = (s.Page i).isSome := by rw [hpg, isSome_map]
  exact
    { pos := hps
      cover := fun i => by rw [hc, h.cover, hs]
      mapped := fun i hi => hs i ▸ h.mapped i hi
      inside := fun i hi => h.inside i (hs i ▸ hi)
      length := hln.trans h.length
      lists := hl
      runs := hr
      starts := fun i page hp => by
        obtain ⟨page', hp', rfl⟩ := map_eq_some_iff.mp ((hpg i).symm.trans hp)
        exact hst i page' hp'
      ends := fun i page hp => by
        obtain ⟨page', hp', rfl⟩ := map_eq_some_iff.mp ((hpg i).symm.trans hp)
        exact he i page' hp'
      parted := hpr }

end PoolOk

lemma RunAt.retouch {g : Nat → PoolPage → PoolPage} (h : RunAt s r) (hpg : ∀ j, s'.Page j = (s.Page j).map (g j))
    (hsz : ∀ page, (g r.start page).Size = page.Size)
    (how : ∀ i page, r.Has i → page.Signature → page.Owner = r.start →
      (g i page).Owner = r.start ∧ (g i page).Signature) : RunAt s' r := by
  constructor
  · obtain ⟨page, hp, hs⟩ := h.size
    exact ⟨g r.start page, by rw [hpg, hp]; rfl, (hsz page).trans hs⟩
  intro i hi
  obtain ⟨page, hp, ho, hsg⟩ := h.owner i hi
  obtain ⟨ho', hsg'⟩ := how i page hi hsg ho
  exact ⟨g i page, by rw [hpg, hp]; rfl, ho', hsg'⟩

/-! ## Allocating -/

lemma mark_start {b : Bool} (x : Span) (h : b ↔ ∃ r ∈ used, r.start = i) :
    (b || decide (i = x.start)) = true ↔ ∃ r ∈ x :: used, r.start = i := by
  simp only [Bool.or_eq_true, h, decide_eq_true_iff, mem_cons, exists_eq_or_imp]
  rw [or_comm, eq_comm]

lemma mark_end {b : Bool} (x : Span) (hx : 0 < x.size) (h : b ↔ ∃ r ∈ used, r.stop = i + 1) :
    (b || decide (i = x.start + (x.size - 1))) ↔ ∃ r ∈ x :: used, r.stop = i + 1 := by
  simp only [Bool.or_eq_true, h, decide_eq_true_iff, mem_cons, exists_eq_or_imp]
  rw [or_comm]
  refine or_congr_left ?_
  unfold stop
  omega

lemma page_cutRun : (s.cutRun i n).Page j = (s.Page j).map fun page =>
    { page with Size := if j = i then n else page.Size } := by
  have hp : (s.cutRun i n).Page = (s.setPage i ({ · with Size := n })).Page := by
    unfold cutRun
    split <;> rfl
  rw [hp, page_setPage]
  by_cases hj : j = i
  · simp [hj]
  · simp [hj]

lemma slist_cutRun : (s.cutRun i n).SList = s.SList := by
  unfold cutRun
  split <;> rfl

lemma length_cutRun : (s.cutRun i n).FreeListHead.length = s.FreeListHead.length := by
  unfold cutRun
  split <;> simp [insertTail, removeEntry, setPage]

lemma flatten_cutRun (h : PoolOk lt s used l (r :: free)) :
    (s.cutRun r.start n).FreeListHead.flatten.Perm
      (if n = 0 then free.map Span.start else r.start :: free.map Span.start) := by
  have hnd : s.FreeListHead.flatten.Nodup := h.lists.nodup_iff.mpr h.nodup
  have hr : ((s.setPage r.start ({ · with Size := n })).removeEntry r.start).FreeListHead.flatten.Perm
      (free.map start) := by
    have hp := h.lists.erase r.start
    rw [map_cons, erase_cons_head] at hp
    exact (flatten_removeEntry hnd).symm ▸ hp
  unfold cutRun
  by_cases hn : n = 0
  · simpa [hn] using hr
  simp only [ne_eq, hn, not_false_eq_true, if_true, if_false]
  refine (flatten_insertTail ?_).trans (hr.cons _)
  simpa [removeEntry, setPage] using h.length

lemma markAllocation_some (hfs : ∃ page, s.Page i = some page ∧ page.StartOfAllocation = false)
    (hl : ∃ page, s.Page (i + (k - 1)) = some page ∧ page.EndOfAllocation = false) :
    ∃ s', s.markAllocation i k = some s' ∧ s'.SList = s.SList ∧ s'.FreeListHead = s.FreeListHead ∧
      ∀ j, s'.Page j = (s.Page j).map fun page =>
        { page with
          StartOfAllocation := page.StartOfAllocation || decide (j = i)
          EndOfAllocation := page.EndOfAllocation || decide (j = i + (k - 1)) } := by
  obtain ⟨fr, hfs, hs⟩ := hfs
  obtain ⟨ls, hl, he⟩ := hl
  have hl' : ∃ page, (s.setPage i ({ · with StartOfAllocation := true })).Page (i + (k - 1)) = some page ∧
      page.EndOfAllocation = false := by
    rw [page_setPage, hl]
    split
    · exact ⟨_, rfl, he⟩
    · exact ⟨_, rfl, he⟩
  obtain ⟨page, hp, hf⟩ := hl'
  refine ⟨(s.setPage i ({ · with StartOfAllocation := true })).setPage (i + (k - 1))
    ({ · with EndOfAllocation := true }),
    by simp [markAllocation, hfs, hs, hp, hf], rfl, rfl, fun j => ?_⟩
  rw [page_setPage, page_setPage]
  cases s.Page j with
  | none => simp
  | some page =>
    by_cases h1 : j = i <;> by_cases h2 : j = i + (k - 1)
    · simp [if_pos h1, if_pos h2, decide_eq_true h1, decide_eq_true h2]
    · simp [if_pos h1, if_neg h2, decide_eq_true h1, decide_eq_false h2]
    · simp [if_neg h1, if_pos h2, decide_eq_false h1, decide_eq_true h2]
    · simp [if_neg h1, if_neg h2, decide_eq_false h1, decide_eq_false h2]

/-- A page after the last `k` pages of the run `r` are taken. -/
def takenPage (r : Span) (k j : Nat) (page : PoolPage) : PoolPage :=
  { page with
    StartOfAllocation := page.StartOfAllocation || decide (j = r.start + (r.size - k))
    EndOfAllocation := page.EndOfAllocation || decide (j = r.start + (r.size - k) + (k - 1))
    Size := if j = r.start then r.size - k else page.Size }

lemma takeFromRun_pages {entry : PoolPage} (h : PoolOk lt s used [] (r :: free)) (he : s.Page r.start = some entry)
    (hk : 0 < k) (hle : k ≤ r.size) :
    ∃ s', s.takeFromRun r.start entry k = some (r.start + (r.size - k), s') ∧ s'.SList = s.SList ∧
      s'.FreeListHead = (s.cutRun r.start (r.size - k)).FreeListHead ∧
      ∀ j, s'.Page j = (s.Page j).map (takenPage r k j) := by
  have hrn := h.runs r mem_cons_self
  have hsz : entry.Size = r.size := by
    obtain ⟨page, hp, hs⟩ := hrn.size
    rwa [some.inj (he.symm.trans hp)]
  have hf : r ∈ [] ++ r :: free := mem_cons_self
  have hb : r.Has (r.start + (r.size - k)) := by unfold Has stop; omega
  have hl : r.Has (r.start + (r.size - k) + (k - 1)) := by unfold Has stop; omega
  obtain ⟨fr, hfs, -⟩ := hrn.owner _ hb
  obtain ⟨ls, hls, -⟩ := hrn.owner _ hl
  have hfs' : ∃ page, (s.cutRun r.start (r.size - k)).Page (r.start + (r.size - k)) = some page ∧
      page.StartOfAllocation = false := by
    rw [page_cutRun, hfs]
    exact ⟨_, rfl, (h.unmarked hf hb hfs).1⟩
  have hl' : ∃ page, (s.cutRun r.start (r.size - k)).Page (r.start + (r.size - k) + (k - 1)) = some page ∧
      page.EndOfAllocation = false := by
    rw [page_cutRun, hls]
    exact ⟨_, rfl, (h.unmarked hf hl hls).2⟩
  obtain ⟨s', hs', hsl, hh, hpg⟩ := markAllocation_some hfs' hl'
  refine ⟨s', by simp [takeFromRun, hsz, hs'], hsl.trans slist_cutRun, hh, fun j => ?_⟩
  rw [hpg, page_cutRun, Option.map_map]
  rfl

section

variable (h : PoolOk lt s used [] (r :: free)) (hal : ∀ j, s'.Page j = (s.Page j).map (takenPage r k j))

include h hal

/-- The other free runs are as they were. -/
lemma runAt_taken : ∀ x ∈ free, RunAt s' x := by
  intro x hx
  have hrx := (pairwise_cons.mp (pairwise_append.mp h.apart).2.1).1 x hx
  have hps := h.pos x (by simp [hx])
  have hpr := h.pos r (by simp)
  refine (h.runs x (mem_cons_of_mem r hx)).retouch hal (fun page => ?_) fun i page _ hsg ho => ⟨ho, hsg⟩
  have hne : x.start ≠ r.start := by
    unfold Apart stop at hrx
    omega
  exact if_neg hne

variable (hh : s'.FreeListHead = (s.cutRun r.start (r.size - k)).FreeListHead)

include hh

lemma takeWhole (hk : 0 < k) (hw : r.size = k) : PoolOk lt s' (⟨r.start + (r.size - k), k⟩ :: used) [] free := by
  have hsm : (⟨r.start + (r.size - k), k⟩ : Span) = r := by simp [← hw]
  refine h.retouch hal (fun i => ?_) (fun x hx => ?_) (by rw [hh, length_cutRun]) ?_ (runAt_taken h hal)
    (fun i page hp => mark_start ⟨_, k⟩ (h.starts i page hp)) (fun i page hp =>
      mark_end ⟨_, k⟩ hk (h.ends i page hp))
    (pairwise_cons.mp h.parted).2
  · rw [hsm]
    exact cover_perm perm_middle.symm i
  · rw [hsm] at hx
    refine h.pos x ?_
    simp only [cons_append, nil_append, mem_cons, mem_append] at hx ⊢
    tauto
  · rw [hh]
    refine (flatten_cutRun h).trans ?_
    rw [if_pos (by omega)]

/-- What is left of the run, after its last `k` pages are taken, is a run. -/
lemma takeLast (hk : 0 < k) (hlt : k < r.size) :
    PoolOk lt s' (⟨r.start + (r.size - k), k⟩ :: used) [] (⟨r.start, r.size - k⟩ :: free) := by
  have hr : 0 < r.size - k := by omega
  have hpr := pairwise_cons.mp h.parted
  refine h.retouch hal (fun i => ?_) (fun x hx => ?_) (by rw [hh, length_cutRun]) ?_ (fun x hx => ?_)
    (fun i page hp => mark_start ⟨_, k⟩ (h.starts i page hp)) (fun i page hp =>
      mark_end ⟨_, k⟩ hk (h.ends i page hp)) ?_
  · have hj : stop ⟨r.start, r.size - k⟩ = start ⟨r.start + (r.size - k), k⟩ := rfl
    have hc := cover_join (l := used ++ free) hj i
    rw [show (⟨r.start, r.size - k + k⟩ : Span) = r by rw [Nat.sub_add_cancel (Nat.le_of_lt hlt)]] at hc
    calc cover (⟨r.start + (r.size - k), k⟩ :: used ++ ([] ++ ⟨r.start, r.size - k⟩ :: free)) i
        = cover (⟨r.start, r.size - k⟩ :: ⟨r.start + (r.size - k), k⟩ :: (used ++ free)) i :=
          cover_perm perm_middle i
      _ = cover (r :: (used ++ free)) i := hc.symm
      _ = cover (used ++ ([] ++ r :: free)) i := cover_perm perm_middle.symm i
  · simp only [cons_append, nil_append, mem_cons, mem_append] at hx
    rcases hx with rfl | hx | rfl | hx
    · exact hk
    · exact h.pos x (by simp [hx])
    · exact hr
    · exact h.pos x (by simp [hx])
  · rw [hh]
    refine (flatten_cutRun h).trans ?_
    rw [if_neg (by omega), map_cons]
  · rcases mem_cons.mp hx with rfl | hx
    · have hrn := h.runs r mem_cons_self
      obtain ⟨entry, he, -⟩ := hrn.size
      refine ⟨⟨_, by rw [hal, he]; rfl, if_pos rfl⟩, fun i hi => ?_⟩
      obtain ⟨page, hp, ho, hsg⟩ := hrn.owner i (by unfold Has stop at hi ⊢; dsimp only at hi; omega)
      rw [hal, hp]
      exact ⟨_, rfl, ho, hsg⟩
    · exact runAt_taken h hal x hx
  refine pairwise_cons.mpr ⟨fun x hx hm => ?_, hpr.2⟩
  have hrx := (pairwise_cons.mp (pairwise_append.mp h.apart).2.1).1 x hx
  have hps := h.pos x (by simp [hx])
  have hn := hpr.1 x hx
  unfold Meets at hm hn
  unfold Apart at hrx
  unfold stop at *
  dsimp only at hm
  omega

end

lemma takeFromRun_spec {entry : PoolPage} (h : PoolOk lt s used [] (r :: free)) (he : s.Page r.start = some entry)
    (hk : 0 < k) (hle : k ≤ r.size) :
    ∃ s', s.takeFromRun r.start entry k = some (r.start + (r.size - k), s') ∧ s'.SList = s.SList ∧
      PoolOk lt s' (⟨r.start + (r.size - k), k⟩ :: used) []
        (if r.size = k then free else ⟨r.start, r.size - k⟩ :: free) := by
  obtain ⟨s', hs', hsl, hh, hal⟩ := takeFromRun_pages h he hk hle
  refine ⟨s', hs', hsl, ?_⟩
  by_cases hw : r.size = k
  · rw [if_pos hw]
    exact takeWhole h hal hh hk hw
  · rw [if_neg hw]
    exact takeLast h hal hh hk (by omega)

lemma findRun_spec {is : List Nat} (h : PoolOk lt s used l free) (his : ∀ i ∈ is, ∃ r ∈ free, r.start = i) :
    s.findRun n is = some none ∨ ∃ r ∈ free, ∃ page, s.findRun n is = some (some (r.start, page)) ∧
      s.Page r.start = some page ∧ n ≤ r.size := by
  induction is with
  | nil => exact .inl rfl
  | cons i is ih =>
    obtain ⟨r, hr, rfl⟩ := his i mem_cons_self
    obtain ⟨page, hp, hsz⟩ := (h.runs r hr).size
    have hs : page.Signature := by
      obtain ⟨page', hp', -, hs⟩ := (h.runs r hr).owner r.start (has_start (h.pos r (by simp [hr])))
      rwa [some.inj (hp.symm.trans hp')]
    by_cases hle : n ≤ page.Size
    · exact .inr ⟨r, hr, page, by simp [findRun, hp, hs, hle], hp, hsz ▸ hle⟩
    have hn : s.findRun n (r.start :: is) = s.findRun n is := by simp [findRun, hp, hs, hle]
    rw [hn]
    exact ih fun i hi => his i (mem_cons_of_mem _ hi)

lemma page_expand (hk : 0 < k) : (s.expand i k).Page j =
    if i ≤ j ∧ j < i + k then some ⟨decide (j = i), decide (j = i + (k - 1)), 0, false, 0⟩ else s.Page j := by
  simp only [expand, page_setPage]
  by_cases hin : i ≤ j ∧ j < i + k
  · by_cases h1 : j = i <;> by_cases h2 : j = i + (k - 1)
    · simp [if_pos hin, if_pos h1, if_pos h2, decide_eq_true h1, decide_eq_true h2]
    · simp [if_pos hin, if_pos h1, if_neg h2, decide_eq_true h1, decide_eq_false h2]
    · simp [if_pos hin, if_neg h1, if_pos h2, decide_eq_false h1, decide_eq_true h2]
    · simp [if_pos hin, if_neg h1, if_neg h2, decide_eq_false h1, decide_eq_false h2]
  have h1 : j ≠ i := by omega
  have h2 : j ≠ i + (k - 1) := by omega
  simp [if_neg hin, if_neg h1, if_neg h2]

lemma expand_spec (h : PoolOk lt s used [] free) (hk : 0 < k) (hn : ∀ j, i ≤ j → j < i + k → s.Page j = none)
    (hin : ∀ j, i ≤ j → j < i + k → lt.Expansion.Has j) : PoolOk lt (s.expand i k) (⟨i, k⟩ :: used) [] free := by
  have hp {j : Nat} := page_expand (s := s) (i := i) (j := j) hk
  have ho {x : Span} {j : Nat} (hx : x ∈ used ++ ([] ++ free)) (hj : x.Has j) :
    ¬ (i ≤ j ∧ j < i + k) := fun hij => by
    have hs := h.isSome_iff.mpr ⟨x, hx, hj⟩
    rw [hn j hij.1 hij.2] at hs
    cases hs
  have hol {x : Span} {j : Nat} (hx : x ∈ used ++ ([] ++ free)) (hj : x.Has j) :
    (s.expand i k).Page j = s.Page j := by
    rw [hp, if_neg (ho hx hj)]
  refine
    { pos := fun x hx => ?_
      cover := fun j => ?_
      mapped := fun j hj => ?_
      inside := fun j hj => ?_
      length := h.length
      lists := h.lists
      runs := fun x hx => ?_
      starts := fun j page hj => ?_
      ends := fun j page hj => ?_
      parted := h.parted }
  · rcases mem_cons.mp hx with rfl | hx
    · exact hk
    · exact h.pos x hx
  · rw [cons_append, cover_cons, h.cover, hp]
    by_cases hij : i ≤ j ∧ j < i + k
    · have hh : Has ⟨i, k⟩ j := hij
      simp [hij, hh, hn j hij.1 hij.2]
    · have hh : ¬ Has ⟨i, k⟩ j := hij
      simp [if_neg hij, if_neg hh]
  · rw [hp]
    split
    · rfl
    · exact h.mapped j hj
  · rw [hp] at hj
    split at hj
    · rename_i hij
      exact .inr (hin j hij.1 hij.2)
    · exact h.inside j hj
  · have hme : x ∈ used ++ ([] ++ free) := by simp [hx]
    constructor
    · rw [hol hme (has_start (h.pos x hme))]
      exact (h.runs x hx).size
    intro j hj
    rw [hol hme hj]
    exact (h.runs x hx).owner j hj
  · rw [hp] at hj
    split at hj
    · rename_i hij
      cases hj
      refine (mark_start (b := false) ⟨i, k⟩ (iff_of_false Bool.false_ne_true ?_))
      rintro ⟨x, hx, rfl⟩
      exact ho (mem_append_left _ hx) (has_start (h.pos x (mem_append_left _ hx))) hij
    rename_i hij
    have hm := mark_start ⟨i, k⟩ (h.starts j page hj)
    rwa [decide_eq_false (show ¬ j = i by omega), Bool.or_false] at hm
  rw [hp] at hj
  split at hj
  · rename_i hij
    cases hj
    refine (mark_end (b := false) ⟨i, k⟩ hk (iff_of_false Bool.false_ne_true ?_))
    rintro ⟨x, hx, hst⟩
    have hl := has_last (h.pos x (mem_append_left _ hx))
    rw [hst] at hl
    exact ho (mem_append_left _ hx) hl hij
  · rename_i hij
    have hm := mark_end ⟨i, k⟩ hk (h.ends j page hj)
    rwa [decide_eq_false (show ¬ j = i + (k - 1) by omega), Bool.or_false] at hm

/-! ## Freeing -/

variable {b c : Span}

lemma lastPage_spec {fl : Nat} (h : PoolOk lt s (b :: used) l free) (hi : b.Has i) (hf : b.stop ≤ i + fl) :
    s.lastPage fl i = some (b.stop - 1) := by
  have hb : b ∈ b :: used ++ (l ++ free) := mem_cons_self
  induction fl generalizing i with
  | zero =>
    unfold Has at hi
    omega
  | succ fl ih =>
    obtain ⟨page, hp⟩ := isSome_iff_exists.mp (h.isSome_iff.mpr ⟨b, hb, hi⟩)
    have he : page.EndOfAllocation ↔ b.stop = i + 1 := by
      rw [h.ends i page hp]
      refine ⟨?_, fun heq => ⟨b, mem_cons_self, heq⟩⟩
      rintro ⟨x, hx, heq⟩
      have hl := has_last (h.pos x (mem_append_left _ hx))
      rw [heq] at hl
      rwa [← h.unique (mem_append_left _ hx) hb hl hi]
    by_cases hl : b.stop = i + 1
    · simp [lastPage, hp, he.mpr hl, hl]
    have hnt : page.EndOfAllocation = false := Bool.eq_false_iff.mpr (mt he.mp hl)
    have hn : s.lastPage (fl + 1) i = s.lastPage fl (i + 1) := by simp [lastPage, hp, hnt]
    rw [hn]
    refine ih ?_ (by omega)
    unfold Has at hi ⊢
    omega

lemma clearMarks_spec (h : PoolOk lt s (b :: used) [] free) :
    PoolOk lt ((s.setPage b.start ({ · with StartOfAllocation := false })).setPage (b.stop - 1)
      ({ · with EndOfAllocation := false })) used [b] free := by
  have hps := h.pos b mem_cons_self
  have hal (j : Nat) : ((s.setPage b.start ({ · with StartOfAllocation := false })).setPage (b.stop - 1)
      ({ · with EndOfAllocation := false })).Page j = (s.Page j).map fun page =>
        { page with
          StartOfAllocation := page.StartOfAllocation && !decide (j = b.start)
          EndOfAllocation := page.EndOfAllocation && !decide (j = b.stop - 1) } := by
    rw [page_setPage, page_setPage]
    cases s.Page j with
    | none => simp
    | some page =>
      by_cases h1 : j = b.start <;> by_cases h2 : j = b.stop - 1
      · simp [if_pos h1, if_pos h2, decide_eq_true h1, decide_eq_true h2]
      · simp [if_pos h1, if_neg h2, decide_eq_true h1, decide_eq_false h2]
      · simp [if_neg h1, if_pos h2, decide_eq_false h1, decide_eq_true h2]
      · simp [if_neg h1, if_neg h2, decide_eq_false h1, decide_eq_false h2]
  have hpr : (used ++ ([b] ++ free)).Perm (b :: used ++ ([] ++ free)) := perm_middle
  -- no other allocation begins or ends with it
  have ha : ∀ x ∈ used, Apart b x ∧ 0 < x.size := fun x hx =>
    ⟨(pairwise_cons.mp h.apart).1 x (mem_append_left _ hx), h.pos x (by simp [hx])⟩
  refine h.retouch hal (fun i => cover_perm hpr i) (fun x hx => h.pos x (hpr.mem_iff.mp hx)) rfl h.lists
    (fun x hx => (h.runs x hx).retouch hal (fun _ => rfl) fun _ _ _ hs ho => ⟨ho, hs⟩)
    (fun i page hp => ?_) (fun i page hp => ?_) h.parted
  · have hm := h.starts i page hp
    simp only [mem_cons, exists_eq_or_imp] at hm
    simp only [Bool.and_eq_true, hm, Bool.not_eq_true', decide_eq_false_iff_not]
    constructor
    · rintro ⟨heq | hx, hne⟩
      · exact absurd heq.symm hne
      · exact hx
    rintro ⟨x, hx, rfl⟩
    obtain ⟨hbx, hx0⟩ := ha x hx
    refine ⟨.inr ⟨x, hx, rfl⟩, ?_⟩
    unfold Apart stop at hbx
    omega
  · have hm := h.ends i page hp
    simp only [mem_cons, exists_eq_or_imp] at hm
    simp only [Bool.and_eq_true, hm, Bool.not_eq_true', decide_eq_false_iff_not]
    constructor
    · rintro ⟨heq | hx, hne⟩
      · exact absurd (by omega) hne
      · exact hx
    rintro ⟨x, hx, heq⟩
    obtain ⟨hbx, hx0⟩ := ha x hx
    refine ⟨.inr ⟨x, hx, heq⟩, ?_⟩
    unfold Apart at hbx
    unfold stop at *
    omega

lemma PoolOk.run_after {page : PoolPage} (h : PoolOk lt s used [b] free) (hp : s.Page b.stop = some page)
    (hst : page.StartOfAllocation = false) : ∃ x ∈ free, x.start = b.stop := by
  have hb : b ∈ used ++ ([b] ++ free) := by simp
  have hps := h.pos b hb
  obtain ⟨x, hx, hh⟩ := h.isSome_iff.mp (isSome_iff_exists.mpr ⟨page, hp⟩)
  have hxb : x ≠ b := by
    rintro rfl
    unfold Has at hh
    omega
  have hs : x.start = b.stop := by
    by_contra hne
    refine hxb (h.unique hx hb (i := b.stop - 1) ?_ (has_last hps))
    unfold Has stop at hh ⊢
    unfold stop at hne
    omega
  simp only [mem_append, mem_singleton] at hx
  rcases hx with hx | hx | hx
  · rw [(h.starts _ _ hp).mpr ⟨x, hx, hs⟩] at hst
    cases hst
  · exact absurd hx hxb
  · exact ⟨x, hx, hs⟩

lemma PoolOk.run_before {page : PoolPage} (h : PoolOk lt s used [b] free) (hne : b.start ≠ 0)
    (hp : s.Page (b.start - 1) = some page) (he : page.EndOfAllocation = false) :
      ∃ x ∈ free, x.stop = b.start := by
  have hb : b ∈ used ++ ([b] ++ free) := by simp
  have hps := h.pos b hb
  obtain ⟨x, hx, hh⟩ := h.isSome_iff.mp (isSome_iff_exists.mpr ⟨page, hp⟩)
  have hxb : x ≠ b := by
    rintro rfl
    unfold Has at hh
    omega
  have hs : x.stop = b.start := by
    by_contra hne'
    refine hxb (h.unique hx hb (i := b.start) ?_ (has_start hps))
    unfold Has at hh ⊢
    omega
  simp only [mem_append, mem_singleton] at hx
  rcases hx with hx | hx | hx
  · rw [(h.ends _ _ hp).mpr ⟨x, hx, by omega⟩] at he
    cases he
  · exact absurd hx hxb
  · exact ⟨x, hx, hs⟩

lemma PoolOk.guarded (h : PoolOk lt s used l free) : s.Page lt.Initial.stop = none ∧
    (lt.Initial.start ≠ 0 → s.Page (lt.Initial.start - 1) = none) := by
  have hg := lt.guard
  constructor
  · by_contra hne
    rcases h.inside _ (isSome_iff_ne_none.mpr hne) with hin | hin <;> unfold Has at hin <;>
      unfold stop at * <;> omega
  intro hz
  by_contra hne
  rcases h.inside _ (isSome_iff_ne_none.mpr hne) with hin | hin <;> unfold Has at hin <;>
    unfold stop at * <;> omega

lemma takeNext_spec (h : PoolOk lt s used [b] free) :
    ∃ next s' free', s.takeNext lt (b.stop - 1) = some (next, s') ∧
    s'.SList = s.SList ∧ PoolOk lt s' used [⟨b.start, b.size + next⟩] free' ∧
    ∀ x ∈ free', x.start ≠ b.start + (b.size + next) := by
  have hps := h.pos b (by simp)
  have hsp : b.stop - 1 + 1 = b.stop := by unfold stop; omega
  -- there is no run after them
  have hn (hrs : s.takeNext lt (b.stop - 1) = some (0, s)) (hno : ∀ x ∈ free, x.start ≠ b.stop) :
      ∃ next s' free', s.takeNext lt (b.stop - 1) = some (next, s') ∧ s'.SList = s.SList ∧
        PoolOk lt s' used [⟨b.start, b.size + next⟩] free' ∧ ∀ x ∈ free', x.start ≠ b.start + (b.size + next) :=
    ⟨0, s, free, hrs, rfl, h, hno⟩
  have hvalid : ∀ x ∈ free, x.start = b.stop → (s.Page b.stop).isSome := fun x hx heq =>
    h.isSome_iff.mpr ⟨x, by simp [hx], heq ▸ has_start (h.pos x (by simp [hx]))⟩
  by_cases hl : b.stop - 1 = lt.Initial.stop - 1
  · refine hn (by simp [takeNext, hl]) fun x hx heq => ?_
    have hs := hvalid x hx heq
    rw [show b.stop = lt.Initial.stop by have := lt.initial_pos; unfold stop at *; omega, h.guarded.1] at hs
    cases hs
  cases hp : s.Page b.stop with
  | none =>
    refine hn (by simp [takeNext, hl, hsp, hp]) fun x hx heq => ?_
    have hs := hvalid x hx heq
    rw [hp] at hs
    cases hs
  | some page =>
    cases hst : page.StartOfAllocation with
    | true =>
      refine hn (by simp [takeNext, hl, hsp, hp, hst]) fun x hx heq => ?_
      obtain ⟨y, hy, hys⟩ := (h.starts _ _ hp).mp hst
      exact h.not_used (r := x) (by simp [hx]) (heq ▸ has_start (h.pos x (by simp [hx]))) y hy
        (hys ▸ has_start (h.pos y (by simp [hy])))
    | false =>
      obtain ⟨x, hx, hxs⟩ := h.run_after hp hst
      have hxp := h.pos x (by simp [hx])
      obtain ⟨page', hp', hsz⟩ := (h.runs x hx).size
      obtain ⟨page'', hp'', ho, hsg⟩ := (h.runs x hx).owner x.start (has_start hxp)
      obtain rfl := some.inj ((hxs ▸ hp).symm.trans hp')
      obtain rfl := some.inj ((hxs ▸ hp).symm.trans hp'')
      have hpe : free.Perm (x :: free.erase x) := perm_cons_erase hx
      have h' := h.perm (.refl used) hpe.symm
      have hpr := pairwise_cons.mp h'.parted
      refine ⟨x.size, s.removeEntry b.stop, free.erase x, ?_, rfl, ?_, fun y hy heq => ?_⟩
      · simp [takeNext, hl, hsp, hp, hst, hsg, ho, hxs, hsz]
      · refine h'.retouch (g := fun _ page => page) (fun j => by simp) (fun i => ?_) (fun y hy => ?_)
          (by simp [removeEntry]) ?_ (fun y hy => ?_) h'.starts h'.ends hpr.2
        · calc cover (used ++ ([⟨b.start, b.size + x.size⟩] ++ free.erase x)) i
              = cover (⟨b.start, b.size + x.size⟩ :: (used ++ free.erase x)) i := cover_perm perm_middle i
            _ = cover (b :: x :: (used ++ free.erase x)) i := cover_join hxs.symm i
            _ = cover (used ++ ([b] ++ x :: free.erase x)) i := by
              refine cover_perm ?_ i
              exact ((perm_middle (a := x)).symm.cons b).trans perm_middle.symm
        · simp only [mem_append, mem_singleton] at hy
          rcases hy with hy | rfl | hy
          · exact h.pos y (by simp [hy])
          · exact Nat.add_pos_left hps _
          · exact h.pos y (by simp [mem_of_mem_erase hy])
        · have hls := h'.lists.erase b.stop
          rw [map_cons, hxs, erase_cons_head] at hls
          exact (flatten_removeEntry (h'.lists.nodup_iff.mpr h'.nodup)).symm ▸ hls
        · have hr := h'.runs y (mem_cons_of_mem x hy)
          exact ⟨hr.size, hr.owner⟩
      · refine hpr.1 y hy (.inl ?_)
        rw [heq, stop, hxs, stop, Nat.add_assoc]

lemma label_spec (o : Nat) (hsm : ∀ j, i ≤ j → j < i + n → (s.Page j).isSome) :
    ∃ s', s.label o i n = some s' ∧ s'.SList = s.SList ∧ s'.FreeListHead = s.FreeListHead ∧
      ∀ j, s'.Page j = (s.Page j).map fun page =>
        { page with
          Owner := if i ≤ j ∧ j < i + n then o else page.Owner
          Signature := if i ≤ j ∧ j < i + n then true else page.Signature } := by
  induction n generalizing s i with
  | zero =>
    refine ⟨s, rfl, rfl, rfl, fun j => ?_⟩
    have hn : ¬ (i ≤ j ∧ j < i + 0) := by omega
    simp only [if_neg hn]
    cases s.Page j <;> rfl
  | succ n ih =>
    obtain ⟨page, hpg⟩ := isSome_iff_exists.mp (hsm i (Nat.le_refl i) (by omega))
    have hsm' : ∀ j, i + 1 ≤ j → j < i + 1 + n →
        ((s.setPage i ({ · with Owner := o, Signature := true })).Page j).isSome := by
      intro j hj hlt
      rw [page_setPage, if_neg (by omega)]
      exact hsm j (by omega) (by omega)
    obtain ⟨s', hs', hsl, hh, hp⟩ := ih hsm'
    refine ⟨s', by simp [label, hpg, hs'], hsl, hh, fun j => ?_⟩
    rw [hp, page_setPage]
    by_cases hji : j = i
    · have h1 : ¬ (i + 1 ≤ j ∧ j < i + 1 + n) := by omega
      have h2 : i ≤ j ∧ j < i + (n + 1) := by omega
      simp only [if_pos hji, if_neg h1, if_pos h2, Option.map_map]
      rfl
    · have hif : (i + 1 ≤ j ∧ j < i + 1 + n) ↔ (i ≤ j ∧ j < i + (n + 1)) := by omega
      simp only [if_neg hji, hif]

lemma PoolOk.joined (gs : List Span) (h : PoolOk lt s used [c] (gs ++ rs))
    (hcv : ∀ i, Span.cover (r :: (used ++ rs)) i = Span.cover (c :: (gs ++ (used ++ rs))) i) (hps : 0 < r.size)
    (hp : ∀ j, s'.Page j = (s.Page j).map fun page =>
      { page with
        Size := if j = r.start then r.size else page.Size
        Owner := if c.Has j then r.start else page.Owner
        Signature := if c.Has j then true else page.Signature })
    (how : ∀ i, r.Has i → ¬ c.Has i → ∃ page, s.Page i = some page ∧ page.Owner = r.start ∧ page.Signature)
    (hln : s'.FreeListHead.length = s.FreeListHead.length)
    (hl : s'.FreeListHead.flatten.Perm (r.start :: rs.map Span.start)) (hpr : ∀ x ∈ rs, ¬ r.Meets x) :
    PoolOk lt s' used [] (r :: rs) := by
  have hcv' (i : Nat) : Span.cover (used ++ ([] ++ r :: rs)) i = Span.cover (used ++ ([c] ++ (gs ++ rs))) i := by
    calc Span.cover (used ++ ([] ++ r :: rs)) i
        = Span.cover (r :: (used ++ rs)) i := cover_perm perm_middle i
      _ = Span.cover (c :: (gs ++ (used ++ rs))) i := hcv i
      _ = Span.cover (used ++ ([c] ++ (gs ++ rs))) i := by
        refine cover_perm ?_ i
        refine Perm.trans (.cons c ?_) perm_middle.symm
        exact perm_append_comm_assoc gs used rs
  have hps' : ∀ x ∈ used ++ ([] ++ r :: rs), 0 < x.size := by
    intro x hx
    simp only [nil_append, mem_append, mem_cons] at hx
    rcases hx with hx | rfl | hx
    · exact h.pos x (by simp [hx])
    · exact hps
    · exact h.pos x (by simp [hx])
  have ha : (used ++ ([] ++ r :: rs)).Pairwise Apart := by
    refine apart_of_cover_le hps' fun i => ?_
    rw [hcv', h.cover]
    split <;> omega
  have hr := (pairwise_cons.mp (pairwise_append.mp ha).2.1).1
  have hs : ∀ i, r.Has i → (s.Page i).isSome := by
    intro i hi
    have hps : 0 < Span.cover (used ++ ([] ++ r :: rs)) i := cover_pos.mpr ⟨r, by simp, hi⟩
    rw [hcv', h.cover] at hps
    by_contra hn
    simp [hn] at hps
  refine h.retouch hp hcv' hps' hln hl (fun x hx => ?_) h.starts h.ends ?_
  swap
  · exact pairwise_cons.mpr ⟨hpr, (pairwise_append.mp h.parted).2.1⟩
  rcases mem_cons.mp hx with rfl | hx
  · constructor
    · obtain ⟨page, hpg⟩ := isSome_iff_exists.mp (hs x.start (has_start hps))
      rw [hp, hpg]
      exact ⟨_, rfl, if_pos rfl⟩
    intro i hi
    by_cases hc : c.Has i
    · obtain ⟨page, hpg⟩ := isSome_iff_exists.mp (hs i hi)
      rw [hp, hpg]
      exact ⟨_, rfl, if_pos hc, if_pos hc⟩
    obtain ⟨page, hpg, ho, hsg⟩ := how i hi hc
    rw [hp, hpg]
    exact ⟨_, rfl, (if_neg hc).trans ho, (if_neg hc).trans hsg⟩
  · have hxp := h.pos x (by simp [hx])
    refine (h.runs x (mem_append_right gs hx)).retouch hp (fun page => if_neg ?_) fun i page hi hsg ho => ?_
    · have hrx := hr x hx
      unfold Apart stop at hrx
      omega
    have hn : ¬ c.Has i := fun hc => by
      have hcx := (pairwise_append.mp (pairwise_append.mp h.apart).2.1).2.2 c (by simp) x
        (mem_append_right gs hx)
      unfold Apart at hcx
      unfold Has at hc hi
      omega
    exact ⟨(if_neg hn).trans ho, (if_neg hn).trans hsg⟩

lemma joinBefore_spec (h : PoolOk lt s used [c] free) :
    (s.joinBefore lt c.start c.size = some (c.start, s) ∧ ∀ x ∈ free, x.stop ≠ c.start) ∨
    ∃ x ∈ free, ∃ s', s.joinBefore lt c.start c.size = some (x.start, s') ∧ x.stop = c.start ∧ s'.SList = s.SList ∧
      s'.FreeListHead.length = s.FreeListHead.length ∧ s'.FreeListHead.flatten.Perm (free.map Span.start) ∧
      ∀ j, s'.Page j = (s.Page j).map fun page =>
        { page with Size := if j = x.start then x.size + c.size else page.Size } := by
  have hvalid : ∀ x ∈ free, x.stop = c.start → c.start ≠ 0 ∧ (s.Page (c.start - 1)).isSome := by
    intro x hx heq
    have hps := h.pos x (by simp [hx])
    refine ⟨by unfold stop at heq; omega, h.isSome_iff.mpr ⟨x, by simp [hx], ?_⟩⟩
    rw [← heq]
    exact has_last hps
  by_cases hf : c.start = lt.Initial.start ∨ c.start = 0
  · refine .inl ⟨by simp [joinBefore, hf], fun x hx heq => ?_⟩
    obtain ⟨hne, hs⟩ := hvalid x hx heq
    have hin := hf.resolve_right hne
    rw [hin, h.guarded.2 (hin ▸ hne)] at hs
    cases hs
  cases hp : s.Page (c.start - 1) with
  | none =>
    refine .inl ⟨by simp [joinBefore, hf, hp], fun x hx heq => ?_⟩
    have hs := (hvalid x hx heq).2
    rw [hp] at hs
    cases hs
  | some page =>
    cases hen : page.EndOfAllocation with
    | true =>
      refine .inl ⟨by simp [joinBefore, hf, hp, hen], fun x hx heq => ?_⟩
      have hxp := h.pos x (by simp [hx])
      obtain ⟨y, hy, hys⟩ := (h.ends _ _ hp).mp hen
      have hyl := has_last (h.pos y (by simp [hy]))
      have hxl := has_last hxp
      refine h.not_used (r := x) (by simp [hx]) hxl y hy ?_
      rwa [heq, ← show y.stop - 1 = c.start - 1 by omega]
    | false =>
      have hne : c.start ≠ 0 := fun hz => hf (.inr hz)
      obtain ⟨x, hx, hxs⟩ := h.run_before hne hp hen
      have hxp := h.pos x (by simp [hx])
      have hl := has_last hxp
      rw [hxs] at hl
      obtain ⟨page', hp', ho, hsg⟩ := (h.runs x hx).owner _ hl
      obtain rfl := some.inj (hp.symm.trans hp')
      obtain ⟨entry, het, hsz⟩ := (h.runs x hx).size
      have ha (j : Nat) : (s.setPage x.start ({ · with Size := x.size + c.size })).Page j =
        (s.Page j).map fun page =>
          { page with Size := if j = x.start then x.size + c.size else page.Size } := by
        rw [page_setPage]
        by_cases hj : j = x.start <;> simp [hj]
      by_cases hsm : x.size < maxFreePageLists - 1
      swap
      · refine .inr ⟨x, hx, s.setPage x.start ({ · with Size := x.size + c.size }), ?_, hxs, rfl, rfl, h.lists, ha⟩
        simp [joinBefore, hf, hp, hen, hsg, ho, het, hsz, hsm]
      -- the run goes to another list
      have hnd : s.FreeListHead.flatten.Nodup := h.lists.nodup_iff.mpr h.nodup
      refine .inr ⟨x, hx, ((s.setPage x.start ({ · with Size := x.size + c.size })).removeEntry
        x.start).insertTail x.start
        (x.size + c.size), ?_, hxs, rfl, by simp [insertTail, removeEntry, setPage], ?_, ha⟩
      · simp [joinBefore, hf, hp, hen, hsg, ho, het, hsz, hsm]
      refine (flatten_insertTail (by simpa [removeEntry, setPage] using h.length)).trans ?_
      have he : ((s.setPage x.start ({ · with Size := x.size + c.size })).removeEntry
        x.start).FreeListHead.flatten =
        s.FreeListHead.flatten.erase x.start := flatten_removeEntry hnd
      rw [he]
      have hm : x.start ∈ s.FreeListHead.flatten := h.lists.mem_iff.mpr (mem_map_of_mem hx)
      exact (perm_cons_erase hm).symm.trans h.lists

lemma freePages_spec (h : PoolOk lt s used [c] free) (ha : ∀ x ∈ free, x.start ≠ c.stop) :
    ∃ entry s1 s' free', s.joinBefore lt c.start c.size = some (entry, s1) ∧
      (if entry = c.start then (s1.setPage c.start ({ · with Size := c.size })).insertTail c.start c.size else s1).label entry
        c.start c.size = some s' ∧ s'.SList = s.SList ∧ PoolOk lt s' used [] free' := by
  have hc : c ∈ used ++ ([c] ++ free) := by simp
  have hcp := h.pos c hc
  rcases joinBefore_spec h with ⟨hr, hb⟩ | ⟨x, hx, s1, hr, hxs, hsl, hln, hl, hp⟩
  · -- they are a run of their own
    have hsm : ∀ j, c.start ≤ j → j < c.start + c.size →
        (((s.setPage c.start ({ · with Size := c.size })).insertTail c.start c.size).Page j).isSome := by
      intro j hj hlt
      have := h.isSome_iff.mpr ⟨c, hc, ⟨hj, hlt⟩⟩
      rw [page_insertTail, page_setPage]
      split <;> simpa using this
    obtain ⟨s', hs', hsl, hh, hp⟩ := label_spec c.start hsm
    refine ⟨c.start, s, s', c :: free, hr, by rw [if_pos rfl, hs'], hsl, ?_⟩
    refine PoolOk.joined [] h (fun i => rfl) hcp (fun j => ?_) (fun i hi hn => absurd hi hn) ?_ ?_ fun x hx => ?_
    · rw [hp, page_insertTail, page_setPage]
      by_cases hj : j = c.start
      · simp only [if_pos hj, Option.map_map]
        rfl
      · simp only [if_neg hj]
        rfl
    · rw [hh]
      simp [insertTail, setPage]
    · rw [hh]
      exact (flatten_insertTail h.length).trans (h.lists.cons _)
    rintro (heq | heq)
    · exact ha x hx heq.symm
    · exact hb x hx heq
  · -- they are added to the run before them
    have hxp := h.pos x (by simp [hx])
    have hne : x.start ≠ c.start := by unfold stop at hxs; omega
    have hsm : ∀ j, c.start ≤ j → j < c.start + c.size → (s1.Page j).isSome := by
      intro j hj hlt
      have := h.isSome_iff.mpr ⟨c, hc, ⟨hj, hlt⟩⟩
      rw [hp]
      simpa using this
    obtain ⟨s', hs', hsl', hh, hp'⟩ := label_spec x.start hsm
    have hpr : free.Perm ([x] ++ free.erase x) := perm_cons_erase hx
    have h' := h.perm (.refl used) hpr.symm
    have hpa := pairwise_cons.mp h'.parted
    refine ⟨x.start, s1, s', ⟨x.start, x.size + c.size⟩ :: free.erase x,
      hr, by rw [if_neg hne, hs'], hsl'.trans hsl, ?_⟩
    refine PoolOk.joined [x] h' (fun i => ?_) (Nat.add_pos_left hxp _) (fun j => ?_) (fun i hi hn =>
      ?_) ?_ ?_ fun y hy => ?_
    · exact (cover_join hxs i).trans (cover_perm (.swap c x _) i)
    · rw [hp', hp, Option.map_map]
      rfl
    · refine (h.runs x hx).owner i ?_
      unfold Has at hi hn ⊢
      unfold stop at *
      dsimp only at hi
      omega
    · rw [hh, hln]
    · rw [hh]
      exact hl.trans (hpr.map start)
    have hy' : y ∈ free := mem_of_mem_erase hy
    rintro (heq | heq)
    · refine ha y hy' ?_
      rw [← heq]
      unfold stop at hxs ⊢
      dsimp only
      omega
    · exact hpa.1 y hy (.inr heq)

end FreeNT.Mm
