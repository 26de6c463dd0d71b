import FreeNT.Mm.PoolRuns

/-!
# The nonpaged pool over a run

In every run of allocations and frees of what is allocated, with the owners of allocations
writing to their pages in between, the pages that are mapped are shared out between the
allocations, the pages cached in the S-list and the free runs (`PoolShared`,
`pool_shared_out`). No two free runs meet, in the initial pool or outside of it.
-/

namespace FreeNT.Mm

open FreeNT.Span NonPagedPool List Option

variable {layout : PoolLayout} {s s' : NonPagedPool} {u free : List Span} {b : Span} {i n : Nat}

lemma bounds_used (h : PoolOk layout s (b :: u) [] free) : b.stop ≤ layout.Pages := by
  have hp := h.pos b mem_cons_self
  have hs := h.isSome_iff.mpr ⟨b, mem_cons_self, has_last hp⟩
  have h1 := layout.initial_le
  have h2 := layout.expansion_le
  rcases h.inside _ hs with hin | hin <;> unfold Has at hin <;> unfold stop at * <;> omega

lemma miFreePoolPages_spec (h : PoolOk layout s (b :: u) [] free) :
    ∃ s', s.miFreePoolPages layout b.start = some (b.size, s') ∧
      (s' = { s with SList := b.start :: s.SList } ∧ b.size = 1 ∨
        s'.SList = s.SList ∧ ∃ free', PoolOk layout s' u [] free') := by
  have hb : b ∈ b :: u ++ ([] ++ free) := mem_cons_self
  have hp := h.pos b hb
  have hst := has_start hp
  obtain ⟨f, hf⟩ := isSome_iff_exists.mp (h.isSome_iff.mpr ⟨b, hb, hst⟩)
  have he : f.EndOfAllocation → b.size = 1 := by
    intro he
    obtain ⟨x, hx, heq⟩ := (h.ends _ _ hf).mp he
    have hl := has_last (h.pos x (mem_append_left _ hx))
    rw [heq, Nat.add_sub_cancel] at hl
    rw [h.unique (mem_append_left _ hx) hb hl hst] at heq
    unfold stop at heq
    omega
  by_cases hc : f.EndOfAllocation ∧ s.SList.length < layout.SListMaximum
  · exact ⟨_, by simp [miFreePoolPages, hf, hc, he hc.1], .inl ⟨rfl, he hc.1⟩⟩
  have hl : s.lastPage (layout.Pages - b.start) b.start = some (b.stop - 1) := by
    refine lastPage_spec h hst ?_
    have := bounds_used h
    omega
  have hn : b.stop - 1 - b.start + 1 = b.size := by unfold stop; omega
  obtain ⟨next, s1, free1, hnx, hs1, h1, ha⟩ := takeNext_spec (clearMarks_spec h)
  obtain ⟨entry, s2, s', free', hj, hlb, hs, h'⟩ := freePages_spec h1 ha
  refine ⟨s', ?_, .inr ⟨hs.trans hs1, free', h'⟩⟩
  simp only [miFreePoolPages, hf, bind_eq_bind, bind_some, if_neg hc, hl, hn, hnx]
  simp only [hj, bind_some, hlb]
  rfl

/-- An allocation fails only if there is nothing to expand the pool with. -/
lemma miAllocatePoolPages_spec {rs : Option Nat} (h : PoolOk layout s u [] free)
    (hrs : ∀ i ∈ rs, ∀ j, i ≤ j → j < i + bytesToPages n → layout.Expansion.Has j ∧ s.Page j = none) :
    ∃ rl s', s.miAllocatePoolPages n rs = some (rl, s') ∧ (rl = none ∧ s' = s ∨
        (∃ i is, rl = some i ∧ bytesToPages n = 1 ∧ s.SList = i :: is ∧ s' = { s with SList := is }) ∨
        ∃ i free', rl = some i ∧ s'.SList = s.SList ∧ PoolOk layout s' (⟨i, bytesToPages n⟩ :: u) [] free') := by
  unfold miAllocatePoolPages
  by_cases hz : bytesToPages n = 0
  · exact ⟨none, s, by simp [hz], .inl ⟨rfl, rfl⟩⟩
  have hps : 0 < bytesToPages n := Nat.pos_of_ne_zero hz
  simp only [if_neg hz]
  cases hc : if bytesToPages n = 1 then s.SList else [] with
  | cons i is =>
    split at hc
    · rename_i ho
      exact ⟨_, _, rfl, .inr (.inl ⟨i, is, rfl, ho, hc, rfl⟩)⟩
    · cases hc
  | nil =>
    have hs : ∀ i ∈ (s.FreeListHead.drop (listIndex (bytesToPages n))).flatten, ∃ r ∈ free, r.start = i := by
      intro i hi
      obtain ⟨l, hl, hil⟩ := mem_flatten.mp hi
      have hm : i ∈ s.FreeListHead.flatten := mem_flatten.mpr ⟨l, mem_of_mem_drop hl, hil⟩
      exact mem_map.mp (h.lists.mem_iff.mp hm)
    rcases findRun_spec (n := bytesToPages n) h hs with hf | ⟨r, hr, page, hf, hp, hle⟩
    · cases rs with
      | none => exact ⟨none, s, by simp [hf], .inl ⟨rfl, rfl⟩⟩
      | some i =>
        refine ⟨some i, s.expand i (bytesToPages n), by simp [hf], .inr (.inr ⟨i, free, rfl, rfl, ?_⟩)⟩
        exact expand_spec h hps (fun j hj hlt => (hrs i rfl j hj hlt).2) fun j hj hlt => (hrs i rfl j hj hlt).1
    · obtain ⟨s', ht, hsl, h'⟩ := takeFromRun_spec (h.perm (.refl u) (perm_cons_erase hr).symm) hp hps hle
      exact ⟨_, s', by simp [hf, ht], .inr (.inr ⟨_, _, rfl, hsl, h'⟩)⟩

/-! ## Runs -/

/-- The pool, and the allocations that have not been freed. -/
structure PoolState where
  pool : NonPagedPool
  live : List Span

inductive PoolOp where
  | allocate (sizeInBytes : Nat) (reserved : Option Nat)
  | free (i : Nat)
  /-- The owner of an allocation writes to one of its pages. -/
  | write (i size owner : Nat) (signature : Bool)

def poolStep (layout : PoolLayout) (p : PoolState) : PoolOp → Option PoolState
  | .allocate sizeInBytes reserved => do
    let (result, pool) ← p.pool.miAllocatePoolPages sizeInBytes reserved
    return ⟨pool, result.elim p.live fun i => ⟨i, bytesToPages sizeInBytes⟩ :: p.live⟩
  | .free i => do
    let (_, pool) ← p.pool.miFreePoolPages layout i
    return ⟨pool, p.live.eraseP (·.start == i)⟩
  | .write i size owner signature =>
    some ⟨p.pool.setPage i ({ · with Size := size, Owner := owner, Signature := signature }), p.live⟩

/-- `MiReserveSystemPtes` returns PTEs of the expansion that are not in use; what is freed has
been allocated and not freed; and only the owner of an allocation writes to it. -/
def PoolStepOk (layout : PoolLayout) (p : PoolState) : PoolOp → Prop
  | .allocate sizeInBytes reserved => ∀ i ∈ reserved, ∀ j, i ≤ j → j < i + bytesToPages sizeInBytes →
      layout.Expansion.Has j ∧ p.pool.Page j = none
  | .free i => ∃ r ∈ p.live, r.start = i
  | .write i _ _ _ => ∃ r ∈ p.live, r.Has i

/-- The single pages in the S-list. -/
def cachedPages (s : NonPagedPool) : List Span := s.SList.map (⟨·, 1⟩)

/-- What holds of the pool between the calls. -/
def PoolShared (layout : PoolLayout) (p : PoolState) : Prop :=
  ∃ free, PoolOk layout p.pool (p.live ++ cachedPages p.pool) [] free

variable {p p' : PoolState}

lemma PoolShared.init (layout : PoolLayout) : PoolShared layout ⟨miInitializeNonPagedPool layout, []⟩ := by
  refine ⟨[layout.Initial], ?_⟩
  have hp (i : Nat) : ((miInitializeNonPagedPool layout).Page i).isSome ↔ layout.Initial.Has i := by
    by_cases hi : layout.Initial.Has i <;> simp [miInitializeNonPagedPool, hi]
  have hm : ∀ i page, (miInitializeNonPagedPool layout).Page i = some page →
      page.StartOfAllocation = false ∧ page.EndOfAllocation = false := by
    intro i page hi
    simp only [miInitializeNonPagedPool] at hi
    split at hi
    · cases hi
      exact ⟨rfl, rfl⟩
    · cases hi
  refine
    { pos := fun r hr => ?_
      cover := fun i => ?_
      mapped := fun i hi => (hp i).mpr hi
      inside := fun i hi => .inl ((hp i).mp hi)
      length := rfl
      lists := .refl _
      runs := fun r hr => ?_
      starts := fun i page hi => by simp [(hm i page hi).1, cachedPages, miInitializeNonPagedPool]
      ends := fun i page hi => by simp [(hm i page hi).2, cachedPages, miInitializeNonPagedPool]
      parted := pairwise_singleton _ _ }
  · rw [mem_singleton.mp hr]
    exact layout.initial_pos
  · have hc : Span.cover [layout.Initial] i = if layout.Initial.Has i then 1 else 0 := by
      simp [Span.cover]
    refine hc.trans ?_
    simp [hp]
  rw [mem_singleton.mp hr]
  constructor
  · exact ⟨_, if_pos (has_start layout.initial_pos), if_pos rfl⟩
  · exact fun i hi => ⟨_, if_pos hi, rfl, rfl⟩

lemma PoolOk.slist (h : PoolOk layout s u [] free) (l : List Nat) :
    PoolOk layout { s with SList := l } u [] free :=
  { h with runs := fun r hr => ⟨(h.runs r hr).size, (h.runs r hr).owner⟩ }

lemma PoolShared.release (h : PoolShared layout p) (hi : ∃ r ∈ p.live, r.start = i) :
    ∃ r ∈ p.live, r.start = i ∧ ∃ pl, p.pool.miFreePoolPages layout i = some (r.size, pl) ∧
      PoolShared layout ⟨pl, p.live.eraseP (·.start == i)⟩ := by
  obtain ⟨free, h⟩ := h
  obtain ⟨r, hr, hri⟩ := hi
  obtain ⟨a, l1, l2, -, hai, hl, he⟩ := exists_of_eraseP (p := fun r : Span => r.start == i) hr (by simp [hri])
  obtain rfl : a.start = i := by simpa using hai
  have hp : (p.live ++ cachedPages p.pool).Perm (a :: (l1 ++ l2 ++ cachedPages p.pool)) := by
    rw [hl]
    exact perm_middle.append_right _
  have h' := h.perm hp.symm (.refl free)
  obtain ⟨pl, hrs, hc⟩ := miFreePoolPages_spec h'
  refine ⟨a, by simp [hl], rfl, pl, hrs, ?_⟩
  rw [he]
  rcases hc with ⟨rfl, ho⟩ | ⟨hs, free', hf⟩
  · refine ⟨free, (h'.slist (a.start :: p.pool.SList)).perm ?_ (.refl free)⟩
    have ha : (⟨a.start, 1⟩ : Span) = a := by rw [← ho]
    simp only [cachedPages, map_cons, ha]
    exact perm_middle
  · exact ⟨free', by simpa only [cachedPages, hs] using hf⟩

lemma PoolShared.allocate {rs : Option Nat} (h : PoolShared layout p)
    (hr : PoolStepOk layout p (.allocate n rs)) :
    ∃ r pl, p.pool.miAllocatePoolPages n rs = some (r, pl) ∧
      PoolShared layout ⟨pl, r.elim p.live fun i => ⟨i, bytesToPages n⟩ :: p.live⟩ := by
  obtain ⟨free, h⟩ := h
  obtain ⟨r, pl, hrs, hc⟩ := miAllocatePoolPages_spec h hr
  refine ⟨r, pl, hrs, ?_⟩
  rcases hc with ⟨rfl, rfl⟩ | ⟨i, is, rfl, ho, hs, rfl⟩ | ⟨i, free', rfl, hs, hf⟩
  · exact ⟨free, h⟩
  · refine ⟨free, (h.slist is).perm ?_ (.refl free)⟩
    simp only [elim_some, ho, cachedPages, hs, map_cons]
    exact perm_middle.symm
  · exact ⟨free', by simpa only [cachedPages, hs, elim_some, cons_append] using hf⟩

lemma PoolShared.write (h : PoolShared layout p) (hi : ∃ r ∈ p.live, r.Has i) (size o : Nat) (sg : Bool) :
    PoolShared layout ⟨p.pool.setPage i ({ · with Size := size, Owner := o, Signature := sg }), p.live⟩ := by
  obtain ⟨free, h⟩ := h
  obtain ⟨r, hr, hri⟩ := hi
  have ha (j : Nat) : (p.pool.setPage i ({ · with Size := size, Owner := o, Signature := sg })).Page j =
      (p.pool.Page j).map fun page =>
        if j = i then { page with Size := size, Owner := o, Signature := sg } else page := by
    rw [page_setPage]
    by_cases hj : j = i <;> simp [hj]
  -- the page is in no free run
  have hn : ∀ x ∈ free, ¬ x.Has i := fun x hx hxi =>
    h.not_used (r := x) (by simp [hx]) hxi r (mem_append_left _ hr) hri
  refine ⟨free, h.retouch ha (fun _ => rfl) h.pos rfl h.lists (fun x hx => ?_) (fun j page hj => ?_)
    (fun j page hj => ?_) h.parted⟩
  · have hxp := h.pos x (by simp [hx])
    refine (h.runs x hx).retouch ha (fun page => ?_) fun j page hj hs ho => ?_
    · rw [if_neg]
      rintro rfl
      exact hn x hx (has_start hxp)
    rw [if_neg]
    · exact ⟨ho, hs⟩
    · rintro rfl
      exact hn x hx hj
  · refine Iff.trans ?_ (h.starts j page hj)
    split <;> rfl
  · refine Iff.trans ?_ (h.ends j page hj)
    split <;> rfl

lemma poolStep_shared {op : PoolOp} (h : PoolShared layout p) (hok : PoolStepOk layout p op)
    (hs : poolStep layout p op = some p') : PoolShared layout p' := by
  cases op with
  | allocate n rs =>
    obtain ⟨rl, pl, hr, h'⟩ := h.allocate hok
    simp only [poolStep, hr] at hs
    cases hs
    exact h'
  | free i =>
    obtain ⟨r, -, -, pl, hr, h'⟩ := h.release hok
    simp only [poolStep, hr] at hs
    cases hs
    exact h'
  | write i size o sg =>
    cases hs
    exact h.write hok size o sg

/-- In every state that is reached, allocations, cached pages and free runs share out the pages
that are mapped, and the marks, the owners and the sizes are theirs. -/
theorem pool_shared_out (layout : PoolLayout) (ops : List PoolOp) (p : PoolState)
    (hrun : Run (poolStep layout) (PoolStepOk layout) ⟨miInitializeNonPagedPool layout, []⟩ ops p) :
    ∃ free : List Span, (p.live ++ cachedPages p.pool ++ free).Pairwise Apart ∧
      (∀ i, (∃ r ∈ p.live ++ cachedPages p.pool ++ free, r.Has i) ↔ (p.pool.Page i).isSome) ∧
      (∀ i, layout.Initial.Has i → (p.pool.Page i).isSome) ∧
      (∀ i page, p.pool.Page i = some page →
        (page.StartOfAllocation = true ↔ ∃ r ∈ p.live ++ cachedPages p.pool, r.start = i) ∧
        (page.EndOfAllocation = true ↔ ∃ r ∈ p.live ++ cachedPages p.pool, r.stop = i + 1)) ∧
      p.pool.FreeListHead.flatten.Perm (free.map Span.start) ∧
      (∀ r ∈ free, (∃ page, p.pool.Page r.start = some page ∧ page.Size = r.size) ∧
        ∀ i, r.Has i → ∃ page, p.pool.Page i = some page ∧ page.Owner = r.start) ∧
      (free.Pairwise fun r r' => ¬ r.Meets r') ∧
      (∀ r ∈ p.live, ∃ pool, p.pool.miFreePoolPages layout r.start = some (r.size, pool)) ∧
      ∀ n reserved, PoolStepOk layout p (.allocate n reserved) →
        ∃ result pool, p.pool.miAllocatePoolPages n reserved = some (result, pool) := by
  have hs := hrun.invariant (PoolShared layout) poolStep_shared (.init layout)
  obtain ⟨free, h⟩ := id hs
  refine ⟨free, h.apart, fun i => h.isSome_iff.symm, h.mapped, fun i page hi =>
    ⟨h.starts i page hi, h.ends i page hi⟩,
    h.lists, fun r hr => ⟨(h.runs r hr).size, fun i hi => ?_⟩, h.parted, fun r hr => ?_, fun n reserved hok => ?_⟩
  · obtain ⟨page, hp, ho, -⟩ := (h.runs r hr).owner i hi
    exact ⟨page, hp, ho⟩
  · obtain ⟨x, hx, hst, pool, hrs, -⟩ := hs.release ⟨r, hr, rfl⟩
    have hxr : x = r := by
      have hxm : x ∈ p.live ++ cachedPages p.pool ++ ([] ++ free) := by simp [hx]
      have hrm : r ∈ p.live ++ cachedPages p.pool ++ ([] ++ free) := by simp [hr]
      exact h.unique hxm hrm (hst ▸ has_start (h.pos x hxm)) (has_start (h.pos r hrm))
    exact ⟨pool, hxr ▸ hrs⟩
  · obtain ⟨result, pool, hrs, -⟩ := hs.allocate hok
    exact ⟨result, pool, hrs⟩

/-- Eight pages, and an expansion of six after a guard page. -/
def smallLayout : PoolLayout :=
  { Initial := ⟨16, 8⟩, Expansion := ⟨25, 6⟩, Pages := 32, SListMaximum := 4, initial_pos := by decide
    initial_le := by decide, expansion_le := by decide, guard := by decide }

/-- Two allocations, of which the first is freed, and one that expands the pool. -/
theorem pool_shared_out_three : ∃ p, Run (poolStep smallLayout) (PoolStepOk smallLayout)
    ⟨miInitializeNonPagedPool smallLayout, []⟩ [.allocate 8192 none, .allocate 5000 none, .free 22,
      .allocate 20480 (some 25)] p ∧
    p.live = [⟨25, 5⟩, ⟨20, 2⟩] ∧ ∃ free : List Span, (p.live ++ cachedPages p.pool ++ free).Pairwise Apart ∧
      (∀ i, (∃ r ∈ p.live ++ cachedPages p.pool ++ free, r.Has i) ↔ (p.pool.Page i).isSome) ∧
      free.Pairwise fun r r' => ¬ r.Meets r' := by
  refine Run.exists_and_and ?_ fun p hr => ?_
  swap
  · obtain ⟨free, ha, hc, -, -, -, -, hp, -⟩ := pool_shared_out smallLayout _ p hr
    exact ⟨free, ha, hc, hp⟩
  refine ⟨_, .cons ?_ rfl <| .cons ?_ rfl <| .cons ?_ rfl <| .cons ?_ rfl (.nil _), rfl⟩
  · exact nofun
  · exact nofun
  · exact ⟨⟨22, 2⟩, by decide, rfl⟩
  rintro _ ⟨⟩ j hle hlt
  have hlt' : j < 30 := hlt
  obtain rfl | rfl | rfl | rfl | rfl : j = 25 ∨ j = 26 ∨ j = 27 ∨ j = 28 ∨ j = 29 := by omega
  all_goals exact ⟨by decide, rfl⟩

end FreeNT.Mm
