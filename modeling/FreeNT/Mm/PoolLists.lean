import FreeNT.Mm.PoolSteps

/-!
# The free lists of the nonpaged pool by size

An allocation looks for a run of `n` pages in the list with the index `listIndex n` and in those
after it, so that a run is found only if it is on the list of its size. All steps keep the runs
there (`Placed`) but one: a run of three pages that is joined with the pages behind it stays on
its list, as `MiFreePoolPages` takes it for one of the runs on the last list (`runs_found_fails`).
Without such a step every run is found (`runs_found`).
-/

namespace FreeNT.Mm

open FreeNT.Span NonPagedPool List Option

variable {layout : PoolLayout} {s s' : NonPagedPool} {u free : List Span} {b : Span} {i j k n : Nat}
  {f : PoolPage → PoolPage}

/-- Each list has runs of its own size only. -/
def Placed (s : NonPagedPool) : Prop :=
  ∀ k l, s.FreeListHead[k]? = some l → ∀ i ∈ l, ∀ page, s.Page i = some page → listIndex page.Size = k

lemma listIndex_eq (hn : 0 < n) : listIndex n = min n maxFreePageLists - 1 := by
  unfold listIndex maxFreePageLists
  split <;> omega

variable {l : List Span}

lemma PoolOk.nodup_lists (h : PoolOk layout s u l free) : s.FreeListHead.flatten.Nodup :=
    h.lists.nodup_iff.mpr h.nodup

namespace Placed

section

variable (h : Placed s)
include h

lemma setPage (hf : ∀ page, s.Page i = some page → i ∈ s.FreeListHead.flatten →
    listIndex (f page).Size = listIndex page.Size) :
    Placed (s.setPage i f) := by
  intro k l hl j hj page hp
  rw [page_setPage] at hp
  split at hp
  next heq =>
    subst heq
    obtain ⟨page, ho, rfl⟩ := map_eq_some_iff.mp hp
    rw [hf page ho (mem_flatten.mpr ⟨l, mem_of_getElem? hl, hj⟩)]
    exact h k l hl j hj page ho
  next => exact h k l hl j hj page hp

lemma setPage_size (hf : ∀ page, (f page).Size = page.Size) : Placed (s.setPage i f) :=
  h.setPage fun page _ _ => congrArg listIndex (hf page)

lemma removeEntry : Placed (s.removeEntry i) := by
  intro k l hl j hj
  rw [NonPagedPool.removeEntry, getElem?_map] at hl
  obtain ⟨l, ho, rfl⟩ := map_eq_some_iff.mp hl
  exact h k l ho j (mem_of_mem_erase hj)

lemma insertTail (hi : ∀ page, s.Page i = some page → page.Size = n) : Placed (s.insertTail i n) := by
  intro k l hl j hj page hp
  rw [NonPagedPool.insertTail, getElem?_modify] at hl
  obtain ⟨l, ho, rfl⟩ := map_eq_some_iff.mp hl
  split at hj
  next hk =>
    rcases mem_append.mp hj with hj | hj
    · exact h k l ho j hj page hp
    · rw [mem_singleton.mp hj] at hp
      rw [hi page hp, hk]
  next => exact h k l ho j hj page hp

section

variable (hnd : s.FreeListHead.flatten.Nodup)

include hnd

lemma drop : Placed ((s.setPage i f).removeEntry i) := by
  have hc : (s.setPage i f).removeEntry i = (s.removeEntry i).setPage i f := rfl
  rw [hc]
  refine h.removeEntry.setPage fun page _ hm => ?_
  rw [flatten_removeEntry hnd] at hm
  exact (hnd.not_mem_erase hm).elim

lemma move :
    Placed (((s.setPage i ({ · with Size := n })).removeEntry i).insertTail i n) := by
  refine (h.drop hnd).insertTail fun page hp => ?_
  rw [page_removeEntry, page_setPage, if_pos rfl] at hp
  obtain ⟨page, -, rfl⟩ := map_eq_some_iff.mp hp
  rfl

lemma cutRun : Placed (s.cutRun i n) := by
  unfold NonPagedPool.cutRun
  split
  · exact h.move hnd
  · exact h.drop hnd

end

lemma markAllocation (hs : s.markAllocation i k = some s') : Placed s' := by
  simp only [NonPagedPool.markAllocation, bind_eq_bind, bind_eq_some_iff] at hs
  obtain ⟨fr, -, hs⟩ := hs
  split at hs
  · cases hs
  obtain ⟨ls, -, hs⟩ := bind_eq_some_iff.mp hs
  split at hs
  · cases hs
  cases hs
  apply Placed.setPage_size
  · exact h.setPage_size fun _ => rfl
  · exact fun _ => rfl

lemma takeFromRun {entry : PoolPage} (hnd : s.FreeListHead.flatten.Nodup)
    (hs : s.takeFromRun i entry k = some (j, s')) : Placed s' := by
  obtain ⟨s1, hm, hs⟩ := bind_eq_some_iff.mp hs
  cases hs
  exact (h.cutRun hnd).markAllocation hm

lemma expand (hk : 0 < k) (hn : ∀ j ∈ s.FreeListHead.flatten, s.Page j ≠ none)
    (hnw : ∀ j, i ≤ j → j < i + k → s.Page j = none) : Placed (s.expand i k) := by
  intro m l hl j hj page hp
  have ho : ¬ (i ≤ j ∧ j < i + k) := fun hin =>
    hn j (mem_flatten.mpr ⟨l, mem_of_getElem? hl, hj⟩) (hnw j hin.1 hin.2)
  rw [page_expand hk, if_neg ho] at hp
  exact h m l hl j hj page hp

lemma takeNext (hs : s.takeNext layout i = some (n, s')) :
    Placed s' ∧ s'.Page = s.Page ∧ ∀ j ∈ s'.FreeListHead.flatten, j ∈ s.FreeListHead.flatten := by
  have hsm : Placed s ∧ s.Page = s.Page ∧ ∀ j ∈ s.FreeListHead.flatten,
    j ∈ s.FreeListHead.flatten := ⟨h, rfl, fun _ hj => hj⟩
  unfold NonPagedPool.takeNext at hs
  split at hs
  · cases hs
    exact hsm
  split at hs
  · cases hs
    exact hsm
  split at hs
  · cases hs
    refine ⟨h.removeEntry, rfl, fun j hj => ?_⟩
    obtain ⟨l, hl, hjl⟩ := mem_flatten.mp hj
    obtain ⟨l, ho, rfl⟩ := mem_map.mp hl
    exact mem_flatten.mpr ⟨l, ho, mem_of_mem_erase hjl⟩
  · cases hs

/-- A run that is joined keeps to the lists unless it has three pages. -/
lemma joinBefore (hnd : s.FreeListHead.flatten.Nodup)
    (ht : ∀ entry, s.Page j = some entry → j ∈ s.FreeListHead.flatten → j ≠ i → entry.Size ≠ 3)
    (hs : s.joinBefore layout i n = some (j, s')) (hj : j ≠ i) : Placed s' := by
  unfold NonPagedPool.joinBefore at hs
  split at hs
  · cases hs
    exact (hj rfl).elim
  split at hs
  · cases hs
    exact (hj rfl).elim
  split at hs
  swap
  · cases hs
  obtain ⟨entry, he, hs⟩ := bind_eq_some_iff.mp hs
  split at hs
  · cases hs
    exact h.move hnd
  rename_i hl
  cases hs
  refine h.setPage fun page hp hm => ?_
  have hne := ht entry he hm hj
  obtain rfl := some.inj (he.symm.trans hp)
  unfold maxFreePageLists at hl
  dsimp only
  rw [listIndex_eq (by omega), listIndex_eq (by omega)]
  unfold maxFreePageLists
  omega

end

lemma label {o : Nat} (n : Nat) : ∀ {s : NonPagedPool}
    {i : Nat}, Placed s → s.label o i n = some s' → Placed s' := by
  induction n with
  | zero =>
    intro s i h hs
    cases hs
    exact h
  | succ n ih =>
    intro s i h hs
    obtain ⟨page, -, hs⟩ := bind_eq_some_iff.mp hs
    refine ih ?_ hs
    exact h.setPage_size fun _ => rfl

end Placed

/-! ## Steps -/

lemma PoolOk.not_listed {r : Span} (h : PoolOk layout s u l free) (hr : r ∈ u) (hi : r.Has i) :
    i ∉ s.FreeListHead.flatten := by
  intro hm
  obtain ⟨x, hx, rfl⟩ := mem_map.mp (h.lists.mem_iff.mp hm)
  exact h.not_used (mem_append_right _ hx) (has_start (h.pos x (by simp [hx]))) r hr hi

lemma PoolOk.listed_mapped (h : PoolOk layout s u l free) : ∀ j ∈ s.FreeListHead.flatten, s.Page j ≠ none := by
  intro j hj hn
  obtain ⟨x, hx, rfl⟩ := mem_map.mp (h.lists.mem_iff.mp hj)
  obtain ⟨page, hp, -⟩ := (h.runs x hx).size
  rw [hn] at hp
  cases hp

lemma Placed.allocate {r rs : Option Nat} (h : Placed s) (hok : PoolOk layout s u [] free)
    (hn : ∀ i ∈ r, ∀ j, i ≤ j → j < i + bytesToPages n → s.Page j = none)
    (hs : s.miAllocatePoolPages n r = some (rs, s')) : Placed s' := by
  unfold miAllocatePoolPages at hs
  dsimp only at hs
  split at hs
  next =>
    cases hs
    exact h
  next hp =>
    split at hs
    · cases hs
      exact h
    obtain ⟨found, -, hs⟩ := bind_eq_some_iff.mp hs
    split at hs
    · obtain ⟨⟨bs, s1⟩, ht, hs⟩ := bind_eq_some_iff.mp hs
      cases hs
      exact h.takeFromRun hok.nodup_lists ht
    split at hs
    · cases hs
      exact h
    · cases hs
      exact h.expand (Nat.pos_of_ne_zero hp) hok.listed_mapped (hn _ rfl)

/-- A free run of three pages ends before the page. -/
def ThreeBefore (s : NonPagedPool) (i : Nat) : Prop :=
  ∃ j ∈ s.FreeListHead.flatten, ∃ page, s.Page j = some page ∧ page.Size = 3 ∧ j + 3 = i

/-- The page goes to the S-list. -/
def Cached (layout : PoolLayout) (s : NonPagedPool) (i : Nat) : Prop :=
  ∃ first, s.Page i = some first ∧ first.EndOfAllocation = true ∧ s.SList.length < layout.SListMaximum

lemma exists_size_of_setPage {page : PoolPage} (hf : ∀ page, (f page).Size = page.Size)
    (h : (s.setPage i f).Page j = some page) :
    ∃ page', s.Page j = some page' ∧ page'.Size = page.Size := by
  rw [page_setPage] at h
  split at h
  · obtain ⟨page, hp, rfl⟩ := map_eq_some_iff.mp h
    exact ⟨page, hp, (hf page).symm⟩
  · exact ⟨page, h, rfl⟩

lemma Placed.release (h : Placed s) (hok : PoolOk layout s (b :: u) [] free)
    (hj : Cached layout s b.start ∨
      ¬ ThreeBefore s b.start) (hs : s.miFreePoolPages layout b.start = some (n, s')) :
    Placed s' := by
  have hps := hok.pos b mem_cons_self
  have hb := has_start hps
  obtain ⟨fr, hf, hs⟩ := bind_eq_some_iff.mp hs
  split at hs
  next =>
    cases hs
    exact h
  next hch =>
    have ht := hj.resolve_left fun hc => by
      obtain ⟨page, hp, hen, hlt⟩ := hc
      obtain rfl := some.inj (hf.symm.trans hp)
      exact hch ⟨hen, hlt⟩
    have hls : s.lastPage (layout.Pages - b.start) b.start = some (b.stop - 1) := by
      refine lastPage_spec hok hb ?_
      have := bounds_used hok
      omega
    have hnm : b.stop - 1 - b.start + 1 = b.size := by unfold stop; omega
    obtain ⟨next, s1, free1, hn, -, hok1, -⟩ := takeNext_spec (clearMarks_spec hok)
    rw [hls] at hs
    simp only [do_some, hn, hnm] at hs
    obtain ⟨⟨entry, s2⟩, hr, hs⟩ := bind_eq_some_iff.mp hs
    obtain ⟨s3, hl, hs⟩ := bind_eq_some_iff.mp hs
    cases hs
    have hcl : Placed ((s.setPage b.start ({ · with StartOfAllocation := false })).setPage (b.stop - 1)
        ({ · with EndOfAllocation := false })) := by
      apply Placed.setPage_size
      · exact h.setPage_size fun _ => rfl
      · exact fun _ => rfl
    obtain ⟨hpl, hp, hsb⟩ := hcl.takeNext hn
    refine Placed.label _ ?_ hl
    rcases joinBefore_spec hok1 with ⟨hsp, -⟩ | ⟨x, hx, s2', hsp, hxs, -⟩
    · -- The pages are a run of their own, on no list so far.
      cases hsp.symm.trans hr
      rw [if_pos rfl]
      refine Placed.insertTail (Placed.setPage hpl fun page _ hm => ?_) fun page hp => ?_
      · exact (hok.not_listed mem_cons_self hb (hsb _ hm)).elim
      rw [page_setPage, if_pos rfl] at hp
      obtain ⟨page, -, rfl⟩ := map_eq_some_iff.mp hp
      rfl
    cases hsp.symm.trans hr
    have hxp := hok1.pos x (by simp [hx])
    have hne : x.start ≠ b.start := by
      dsimp only at hxs
      unfold stop at hxs
      omega
    rw [if_neg hne]
    refine hpl.joinBefore hok1.nodup_lists (fun e he hm _ hsz => ht ?_) hr hne
    obtain ⟨page, hst, hxz⟩ := (hok1.runs x hx).size
    obtain rfl := some.inj (he.symm.trans hst)
    rw [hp] at he
    obtain ⟨page1, hp1, hsz1⟩ := exists_size_of_setPage (by exact fun _ => rfl) he
    obtain ⟨page0, hp0, hsz0⟩ := exists_size_of_setPage (by exact fun _ => rfl) hp1
    refine ⟨x.start, hsb _ hm, page0, hp0, by omega, ?_⟩
    dsimp only at hxs
    unfold stop at hxs
    omega

/-! ## Runs -/

variable {p p' : PoolState}

/-- No run of three pages is joined with the pages behind it. -/
def JoinOk (layout : PoolLayout) (p : PoolState) : PoolOp → Prop
  | .free i => Cached layout p.pool i ∨ ¬ ThreeBefore p.pool i
  | _ => True

lemma poolStep_placed {op : PoolOp} (h : PoolShared layout p ∧ Placed p.pool)
    (hok : PoolStepOk layout p op ∧ JoinOk layout p op)
    (hs : poolStep layout p op = some p') : PoolShared layout p' ∧ Placed p'.pool := by
  refine ⟨poolStep_shared h.1 hok.1 hs, ?_⟩
  obtain ⟨⟨free, hpl⟩, hp⟩ := h
  cases op with
  | allocate n rs =>
    obtain ⟨⟨rl, pl⟩, hrs, hs⟩ := bind_eq_some_iff.mp hs
    cases hs
    exact hp.allocate hpl (fun i hi j hj hlt => (hok.1 i hi j hj hlt).2) hrs
  | free i =>
    obtain ⟨⟨nm, pl⟩, hrs, hs⟩ := bind_eq_some_iff.mp hs
    cases hs
    obtain ⟨r, hr, rfl⟩ := hok.1
    have hpr := (perm_cons_erase hr).append_right (cachedPages p.pool)
    exact hp.release (hpl.perm hpr.symm (.refl free)) hok.2 hrs
  | write i size o sg =>
    cases hs
    obtain ⟨r, hr, hi⟩ := hok.1
    exact hp.setPage fun page _ hm => (hpl.not_listed (mem_append_left _ hr) hi hm).elim

lemma placed_init (hsz : maxFreePageLists ≤ layout.Initial.size) : Placed (miInitializeNonPagedPool layout) := by
  intro k l hl i hi page hp
  have hls : k = 3 ∧ i = layout.Initial.start := by
    unfold miInitializeNonPagedPool at hl
    obtain _ | _ | _ | _ | k := k <;> simp at hl <;> subst hl <;> simp at hi
    exact ⟨rfl, hi⟩
  obtain ⟨rfl, rfl⟩ := hls
  unfold miInitializeNonPagedPool at hp
  dsimp only at hp
  rw [if_pos (has_start layout.initial_pos)] at hp
  cases hp
  unfold maxFreePageLists at hsz
  dsimp only
  rw [if_pos rfl, listIndex_eq (by omega), maxFreePageLists]
  omega

lemma Placed.mem_list {r : Span} (h : Placed s) (hok : PoolOk layout s u [] free) (hr : r ∈ free) :
    ∃ l, s.FreeListHead[listIndex r.size]? = some l ∧ r.start ∈ l := by
  obtain ⟨l, hl, hm⟩ := mem_flatten.mp (hok.lists.mem_iff.mpr (mem_map_of_mem hr))
  obtain ⟨k, hk⟩ := mem_iff_getElem?.mp hl
  obtain ⟨page, hp, hsz⟩ := (hok.runs r hr).size
  have hid := h k l hk r.start hm page hp
  rw [hsz] at hid
  exact ⟨l, by rw [hid, hk], hm⟩

lemma findRun_none {is : List Nat} (h : s.findRun n is = some none) :
    ∀ i ∈ is, ∀ page, s.Page i = some page → page.Size < n := by
  induction is with
  | nil => exact fun i hi => (not_mem_nil hi).elim
  | cons j is ih =>
    obtain ⟨entry, he, h⟩ := bind_eq_some_iff.mp h
    split at h
    · cases h
    split at h
    · cases h
    refine forall_mem_cons.mpr ⟨fun page hp => ?_, ih h⟩
    obtain rfl := some.inj (he.symm.trans hp)
    omega

/-- What serves a request if there is a run that is large enough: a cached page or the end of a run, whatever
`MiReserveSystemPtes` would return. -/
lemma Placed.served (h : Placed s) (hok : PoolOk layout s u [] free) (hn : 0 < bytesToPages n)
    (hlr : ∃ r ∈ free, bytesToPages n ≤ r.size) : ∃ i s', (bytesToPages n = 1 ∧ s.SList.head? = some i ∨
        ∃ r ∈ free, bytesToPages n ≤ r.size ∧ i = r.start + (r.size - bytesToPages n)) ∧
      ∀ rs, s.miAllocatePoolPages n rs = some (some i, s') := by
  unfold miAllocatePoolPages
  simp only [if_neg (Nat.ne_of_gt hn)]
  cases hc : if bytesToPages n = 1 then s.SList else [] with
  | cons i is =>
    split at hc
    next ho => exact ⟨i, _, .inl ⟨ho, by rw [hc]; rfl⟩, fun _ => rfl⟩
    next => cases hc
  | nil =>
    have hs : ∀ i ∈ (s.FreeListHead.drop (listIndex (bytesToPages n))).flatten, ∃ r ∈ free, r.start = i := by
      intro i hi
      obtain ⟨l, hl, hil⟩ := mem_flatten.mp hi
      exact mem_map.mp (hok.lists.mem_iff.mp (mem_flatten.mpr ⟨l, mem_of_mem_drop hl, hil⟩))
    rcases findRun_spec (n := bytesToPages n) hok hs with hf | ⟨r, hr, page, hf, hp, hle⟩
    swap
    · obtain ⟨s', ht, -, -⟩ := takeFromRun_spec (hok.perm (.refl u) (perm_cons_erase hr).symm) hp hn hle
      exact ⟨_, s', .inr ⟨r, hr, hle, rfl⟩, fun _ => by simp [hf, ht]⟩
    obtain ⟨r, hr, hle⟩ := hlr
    obtain ⟨l, hl, hm⟩ := h.mem_list hok hr
    obtain ⟨page, hp, hsz⟩ := (hok.runs r hr).size
    have hid : listIndex (bytesToPages n) ≤ listIndex r.size := by
      rw [listIndex_eq hn, listIndex_eq (by omega)]
      omega
    have hd : (s.FreeListHead.drop (listIndex (bytesToPages n)))[listIndex r.size - listIndex
      (bytesToPages n)]? = some l := by
      rw [getElem?_drop, show listIndex (bytesToPages n) + (listIndex r.size - listIndex (bytesToPages n)) =
        listIndex r.size by omega, hl]
    have := findRun_none hf r.start (mem_flatten.mpr ⟨l, mem_of_getElem? hd, hm⟩) page hp
    omega

/-- The free runs are on the lists of their sizes, and a request is served as long as one of them is
large enough. -/
def RunsFound (layout : PoolLayout) (p : PoolState) : Prop :=
  ∃ free, PoolOk layout p.pool (p.live ++ cachedPages p.pool) [] free ∧
    (∀ r ∈ free, ∃ l, p.pool.FreeListHead[min r.size maxFreePageLists - 1]? = some l ∧ r.start ∈ l) ∧
    ∀ n, 0 < bytesToPages n → (∃ r ∈ free, bytesToPages n ≤ r.size) → ∃ i pool,
      (bytesToPages n = 1 ∧ p.pool.SList.head? = some i ∨
        ∃ r ∈ free, bytesToPages n ≤ r.size ∧ i = r.start + (r.size - bytesToPages n)) ∧
      ∀ reserved, p.pool.miAllocatePoolPages n reserved = some (some i, pool)

/-- In every run without a run of three pages that is joined, all free runs are found. -/
theorem runs_found (layout : PoolLayout) (hsize : maxFreePageLists ≤ layout.Initial.size)
    (ops : List PoolOp) (p : PoolState)
    (hrun : Run (poolStep layout) (fun p op => PoolStepOk layout p op ∧ JoinOk layout p op)
      ⟨miInitializeNonPagedPool layout, []⟩ ops p) : RunsFound layout p := by
  obtain ⟨⟨free, hok⟩, hp⟩ := hrun.invariant (fun p => PoolShared layout p ∧ Placed p.pool) poolStep_placed
    ⟨.init layout, placed_init hsize⟩
  refine ⟨free, hok, fun r hr => ?_, fun n hn hl => hp.served hok hn hl⟩
  rw [← listIndex_eq (hok.pos r (by simp [hr]))]
  exact hp.mem_list hok hr

theorem runs_found_two : ∃ p, Run (poolStep smallLayout)
    (fun p op => PoolStepOk smallLayout p op ∧ JoinOk smallLayout p op)
    ⟨miInitializeNonPagedPool smallLayout, []⟩ [.allocate 8192 none, .allocate 5000 none, .free 20] p ∧
    RunsFound smallLayout p := by
  refine Run.exists_and ?_ fun p hr => runs_found smallLayout (by decide) _ p hr
  refine ⟨_, .cons ⟨?_, trivial⟩ rfl <| .cons ⟨?_, trivial⟩ rfl <| .cons ⟨?_, .inr ?_⟩ rfl (.nil _)⟩
  · exact nofun
  · exact nofun
  · exact ⟨⟨20, 2⟩, by decide, rfl⟩
  rintro ⟨j, hj, page, hp, ht, hs⟩
  obtain rfl : j = 16 := mem_singleton.mp hj
  omega

/-- Three pages are left when four are freed behind them: the run of seven stays on the list for three. -/
theorem runs_found_fails : ∃ p, Run (poolStep smallLayout) (PoolStepOk smallLayout)
    ⟨miInitializeNonPagedPool smallLayout, []⟩
    [.allocate 4096 none, .allocate 16384 none, .free 19] p ∧
      (p.pool.miAllocatePoolPages 16384 none).map (·.1) = some none ∧
    ¬ RunsFound smallLayout p := by
  have hrn : ∃ p, Run (poolStep smallLayout) (PoolStepOk smallLayout) ⟨miInitializeNonPagedPool smallLayout, []⟩
      [.allocate 4096 none, .allocate 16384 none, .free 19] p ∧
        (p.pool.miAllocatePoolPages 16384 none).map (·.1) = some none ∧
      p.pool.FreeListHead = [[], [], [16], []] ∧ (p.pool.Page 16).map PoolPage.Size = some 7 := by
    refine ⟨_, .cons ?_ rfl <| .cons ?_ rfl <| .cons ?_ rfl (.nil _), rfl, rfl, rfl⟩
    · exact nofun
    · exact nofun
    · exact ⟨⟨19, 4⟩, by decide, rfl⟩
  obtain ⟨p, hrn, hn, hls, hs⟩ := hrn
  refine ⟨p, hrn, hn, ?_⟩
  rintro ⟨free, hok, hpl, -⟩
  have hm : 16 ∈ free.map Span.start := hok.lists.mem_iff.mp (by rw [hls]; decide)
  obtain ⟨r, hr, hst⟩ := mem_map.mp hm
  obtain ⟨page, hp, hsz⟩ := (hok.runs r hr).size
  rw [hst] at hp
  rw [hp] at hs
  have hr7 : r.size = 7 := hsz.symm.trans (some.inj hs)
  obtain ⟨l, hl, hin⟩ := hpl r hr
  rw [hls, hr7] at hl
  cases hl
  exact not_mem_nil hin

/-- A request for as many pages as there are in a row, mapped and neither allocated nor cached, is
served from the pool. -/
theorem row_served (layout : PoolLayout) (hsize : maxFreePageLists ≤ layout.Initial.size)
    (ops : List PoolOp) (p : PoolState)
    (hrun : Run (poolStep layout) (fun p op => PoolStepOk layout p op ∧ JoinOk layout p op)
      ⟨miInitializeNonPagedPool layout, []⟩ ops p) (n i : Nat) (hpos : 0 < bytesToPages n)
    (hrow : ∀ j, Has ⟨i, bytesToPages n⟩ j → (p.pool.Page j).isSome ∧
      ∀ r ∈ p.live ++ cachedPages p.pool, ¬ r.Has j) :
    ∃ j pool, ∀ reserved, p.pool.miAllocatePoolPages n reserved = some (some j, pool) := by
  obtain ⟨⟨free, hok⟩, hp⟩ := hrun.invariant (fun p => PoolShared layout p ∧ Placed p.pool) poolStep_placed
    ⟨.init layout, placed_init hsize⟩
  have hf : free.Pairwise Apart := (pairwise_append.mp hok.apart).2.1
  have hl : ∃ r ∈ free, bytesToPages n ≤ r.size := by
    refine size_le_of_row (r := ⟨i, bytesToPages n⟩) hf hok.parted hpos fun j hj => ?_
    obtain ⟨hm, hu⟩ := hrow j hj
    have hc := hok.cover j
    rw [if_pos hm] at hc
    obtain ⟨x, hx, hxj⟩ := cover_pos.mp (hc ▸ Nat.one_pos)
    exact ⟨x, (mem_append.mp hx).resolve_left fun hx => hu x hx hxj, hxj⟩
  obtain ⟨j, pool, -, hj⟩ := hp.served hok hpos hl
  exact ⟨j, pool, hj⟩

theorem row_served_two : ∃ p, Run (poolStep smallLayout)
    (fun p op => PoolStepOk smallLayout p op ∧ JoinOk smallLayout p op)
    ⟨miInitializeNonPagedPool smallLayout, []⟩ [.allocate 8192 none] p ∧
    ∃ j pool, ∀ reserved, p.pool.miAllocatePoolPages 8192 reserved = some (some j, pool) := by
  obtain ⟨p, hr, hp⟩ : ∃ p,
    Run (poolStep smallLayout) (fun p op => PoolStepOk smallLayout p op ∧ JoinOk smallLayout p op)
      ⟨miInitializeNonPagedPool smallLayout, []⟩ [.allocate 8192 none] p ∧
      ∀ j < 18, 16 ≤ j → (p.pool.Page j).isSome ∧ ∀ r ∈ p.live ++ cachedPages p.pool, ¬ r.Has j :=
    ⟨_, .single ⟨nofun, trivial⟩ rfl, by decide⟩
  exact ⟨p, hr, row_served smallLayout (by decide) _ p hr 8192 16 (by decide) fun j hj => hp j hj.2 hj.1⟩

end FreeNT.Mm
