import FreeNT.Mm.PteClusters

/-!
# Reserving and releasing system PTEs

The invariant of a pool (`PoolInv`): the free clusters and the reserved PTEs share out the
PTEs of the pool, the list is ordered by size, no two clusters meet, and
`MmTotalFreeSystemPtes` is the sum of their sizes. A reservation takes PTEs from the end of
the first cluster that is large enough (`reserve_spec`); a release joins them with
the clusters that they meet (`releaseLoop_spec`, `release_spec`).
-/

namespace FreeNT.Mm

open Nat hiding size sum_append

open FreeNT.Span SystemPtes List Option

variable {space : PteSpace} {s s' : SystemPtes} {r c : Span} {free pre rs reserved : List Span} {n : Nat}

structure PoolInv (space : PteSpace) (s : SystemPtes) (free reserved : List Span) : Prop where
  clusters : Clusters s free
  shares : SharesOut (free ++ reserved) space.start space.size
  sorted : free.Pairwise fun r r' => r.size ≤ r'.size
  parted : free.Pairwise fun r r' => ¬ r.Meets r'
  total : s.totalFree = (free.map size).sum

lemma PoolInv.length_lt (h : PoolInv space s free reserved) : free.length < nextEntries := by
  have hl := h.shares.length_le
  have hb := space.below
  rw [length_append] at hl
  unfold emptyPteList at hb
  unfold nextEntries
  omega

lemma PoolInv.total_le (h : PoolInv space s free reserved) :
    (free.map size).sum + (reserved.map size).sum = space.size := by
  rw [← sum_append, ← map_append, h.shares.sum]

lemma PteSpace.size_lt (space : PteSpace) : space.size < 2 ^ 20 := by
  have := space.below
  unfold emptyPteList at this
  omega

variable {large : List Span}

/-- A cluster goes to the place before the first one that is as large. -/
lemma sorted_insert {sm : List Span} (hsr : (sm ++ large).Pairwise fun r r' => r.size ≤ r'.size)
    (hsm : ∀ x ∈ sm, x.size ≤ r.size) (hlr : ∀ x ∈ large, r.size ≤ x.size) :
    (sm ++ r :: large).Pairwise fun r r' => r.size ≤ r'.size := by
  obtain ⟨hs, hl, hsl⟩ := pairwise_append.mp hsr
  refine pairwise_append.mpr ⟨hs, pairwise_cons.mpr ⟨hlr, hl⟩, fun x hx y hy => ?_⟩
  rcases mem_cons.mp hy with rfl | hy
  · exact hsm x hx
  · exact hsl x hx y hy

lemma large_of_head (hs : large.Pairwise fun r r' => r.size ≤ r'.size)
    (hh : ∀ x ∈ large.head?, n ≤ x.size) : ∀ x ∈ large, n ≤ x.size := by
  cases large with
  | nil => exact nofun
  | cons y large =>
    intro x hx
    have hy := hh y rfl
    rcases mem_cons.mp hx with rfl | hx
    · exact hy
    · exact le_trans hy ((pairwise_cons.mp hs).1 x hx)

variable {i : Nat}

lemma pte_zeroCluster (hsz : SizeAt s r) (hp : 0 < r.size) (hi : ¬ r.Has i) :
    (s.zeroCluster r.start).pte i = s.pte i := by
  unfold zeroCluster
  have h0 : i ≠ r.start := fun h => hi ⟨by omega, by unfold stop; omega⟩
  split
  · exact pte_setPte h0
  case isFalse ho =>
    have hne : r.size ≠ 1 := fun h => ho (by rw [hsz.1, h]; rfl)
    have h1 : i ≠ r.start + 1 := fun h => hi ⟨by omega, by unfold stop; omega⟩
    rw [pte_setPte h1, pte_setPte h0]

lemma firstFree_zeroCluster : (s.zeroCluster i).firstFree = s.firstFree := by
  unfold zeroCluster
  split <;> rfl

lemma totalFree_zeroCluster : (s.zeroCluster i).totalFree = s.totalFree := by
  unfold zeroCluster
  split <;> rfl

lemma Clusters.take {ps : List Span} (h : Clusters s (pre ++ r :: ps)) :
    Clusters ((s.setNextEntry (placeAfter pre) (s.nextEntry (some r.start))).zeroCluster r.start) (pre ++ ps) := by
  have hm : r ∈ pre ++ r :: ps := mem_append_right _ mem_cons_self
  have ha := (pairwise_cons.mp ((pairwise_middle Apart.symm).mp h.apart)).1
  refine h.unlink.frame firstFree_zeroCluster fun x hx i hi => ?_
  refine pte_zeroCluster (h.sizes_setNextEntry hm) (h.pos r hm) fun hi' => ?_
  have := ha x hx
  unfold Apart Has stop at *
  omega

lemma relink_spec (h : Clusters s free) (hln : free.length < nextEntries)
    (hs : free.Pairwise fun r r' => r.size ≤ r'.size) (hsz : SizeAt s r) (hp : 0 < r.size)
    (hb : r.stop ≤ emptyPteList) (ha : ∀ x ∈ free, r.Apart x) :
    ∃ s' free', s.relink r.start r.size = some s' ∧ Clusters s' free' ∧ free'.Perm (r :: free) ∧
      free'.Pairwise fun r r' => r.size ≤ r'.size := by
  obtain ⟨sm, large, rfl, hsm, hl, hf⟩ := @Clusters.findLoop_spec s free [] r.size _ h hln
  refine ⟨_, sm ++ r :: large, ?_, h.insert hsz hp hb ha, perm_middle, ?_⟩
  · rw [relink, show (none : Option Nat) = placeAfter [] from rfl, hf]
    rfl
  · exact sorted_insert hs (fun x hx => le_of_lt (hsm x hx)) (large_of_head (pairwise_append.mp hs).2.1 hl)

/-- The first part of a cluster that is divided. -/
def divided (s : SystemPtes) (i rest : Nat) : SystemPtes :=
  if rest = 1 then (s.setOneEntry i true).setPte (i + rest) .zero else s.setNextEntry (some (i + 1)) rest

lemma divided_spec (hsz : SizeAt s r) {k : Nat} (hk : 0 < k) (hkr : k < r.size) (hlt : r.size < nextEntries) :
    SizeAt (divided s r.start k) ⟨r.start, k⟩ ∧ (divided s r.start k).firstFree = s.firstFree ∧
      ∀ i, ¬ r.Has i → (divided s r.start k).pte i = s.pte i := by
  unfold divided
  split
  case isTrue ho =>
    subst ho
    refine ⟨⟨?_, fun hne => absurd rfl hne⟩, rfl, fun i hi => ?_⟩
    · simp [setOneEntry, setPte]
    have h0 : i ≠ r.start := fun h => hi ⟨by omega, by unfold stop; omega⟩
    have h1 : i ≠ r.start + 1 := fun h => hi ⟨by omega, by unfold stop; omega⟩
    rw [pte_setPte h1, setOneEntry, pte_setPte h0]
  case isFalse ho =>
    refine ⟨⟨?_, fun _ => ?_⟩, rfl, fun i hi => ?_⟩
    · rw [oneEntry_set, hsz.1, decide_eq_false (by omega), decide_eq_false ho]
    · rw [nextEntry_set, if_pos rfl, mod_eq_of_lt (by omega)]
    refine pte_setNextEntry fun heq => hi ?_
    have := some.inj heq
    exact ⟨by omega, by unfold stop; omega⟩

lemma PoolInv.take (h : PoolInv space s (pre ++ r :: large) reserved) :
    PoolInv space { (s.setNextEntry (placeAfter pre) (s.nextEntry (some r.start))).zeroCluster r.start with
      totalFree := ((pre ++ r :: large).map size).sum - r.size } (pre ++ large) (r :: reserved) := by
  have hs : (pre ++ large).Sublist (pre ++ r :: large) := Sublist.append_left (sublist_cons_self _ _) _
  refine ⟨h.clusters.take.frame rfl fun _ _ _ _ => rfl, ?_, h.sorted.sublist hs, h.parted.sublist hs, ?_⟩
  · exact h.shares.perm (by simpa using Perm.append_left pre perm_middle)
  have hsm : ((pre ++ r :: large).map size).sum = r.size + ((pre ++ large).map size).sum :=
    (perm_middle.map size).sum_eq
  show _ - r.size = _
  omega

lemma PoolInv.divide {k : Nat} (h : PoolInv space s (pre ++ r :: large) reserved) (hn : 0 < n)
    (hk : 0 < k) (hkn : k + n = r.size) :
    ∃ s' free', (divided (s.setNextEntry (placeAfter pre) (s.nextEntry (some r.start)))
      r.start k).relink r.start k = some s' ∧
      PoolInv space { s' with totalFree := ((pre ++ r :: large).map size).sum - n } free'
        (⟨r.start + k, n⟩ :: reserved) := by
  have hme : r ∈ pre ++ r :: large := mem_append_right _ mem_cons_self
  have hsb : (pre ++ large).Sublist (pre ++ r :: large) := Sublist.append_left (sublist_cons_self _ _) _
  have ha := (pairwise_cons.mp ((pairwise_middle Apart.symm).mp h.clusters.apart)).1
  have hb := h.clusters.below r hme
  have hlt : r.size < nextEntries := by
    unfold stop emptyPteList at hb
    unfold nextEntries
    omega
  obtain ⟨hkp, hfs, hs⟩ := divided_spec (h.clusters.sizes_setNextEntry hme) hk (by omega) hlt
  have hf := h.clusters.unlink.frame hfs fun x hx i hi => hs i fun hi' => by
    have := ha x hx
    unfold Apart Has stop at *
    omega
  have ha' (x : Span) (hx : x ∈ pre ++ large) : Apart ⟨r.start, k⟩ x := by
    have := ha x hx
    unfold Apart stop at *
    dsimp only
    omega
  have hl := h.length_lt
  rw [(perm_middle : (pre ++ r :: large).Perm _).length_eq, length_cons] at hl
  obtain ⟨s', free', hr, hc, hp, hsr⟩ := relink_spec hf (by omega) (h.sorted.sublist hsb) hkp hk
    (show r.start + k ≤ _ by unfold stop at hb; omega) ha'
  refine ⟨s', free', hr, ⟨hc.frame rfl fun _ _ _ _ => rfl, ?_, hsr, ?_, ?_⟩⟩
  · -- the cluster is the part that stays and the part that is returned
    have hw : SharesOut (⟨r.start, k + n⟩ :: (pre ++ large ++ reserved)) space.start space.size := by
      rw [hkn]
      exact h.shares.perm (by simpa using perm_middle.symm)
    have hpr := (@sharesOut_join ⟨r.start, k⟩ ⟨r.start + k, n⟩ _ _ _ hk hn rfl).mp hw
    refine hpr.perm (perm_middle.trans ?_)
    exact (Perm.cons _ (hp.append_right _)).trans (.swap _ _ _)
  · refine (hp.pairwise_iff fun hm hm' =>
      hm hm'.symm).mpr (pairwise_cons.mpr ⟨fun x hx hmt => ?_, h.parted.sublist hsb⟩)
    have hnt := (pairwise_cons.mp ((pairwise_middle fun hm hm' => hm hm'.symm).mp h.parted)).1 x hx
    have := ha x hx
    unfold Meets Apart stop at *
    dsimp only at hmt
    omega
  have hsm : ((pre ++ r :: large).map size).sum = r.size + ((pre ++ large).map size).sum :=
    (perm_middle.map size).sum_eq
  have := (hp.map size).sum_eq
  rw [map_cons, sum_cons] at this
  show _ - n = _
  dsimp only at this
  omega

/-- A reservation finds a cluster exactly if there is one that is large enough, and
takes the PTEs from it. -/
lemma reserve_spec (h : PoolInv space s free reserved) (hn : 1 ≤ n) :
    (∀ r ∈ free, r.size < n) ∧ s.miReserveSystemPtes n = some (s, none) ∨
      (∃ r ∈ free, n ≤ r.size) ∧ ∃ s' i free', s.miReserveSystemPtes n = some (s', some i) ∧
        PoolInv space s' free' (⟨i, n⟩ :: reserved) := by
  obtain ⟨sm, large, rfl, hs, hl, hf⟩ := @Clusters.findLoop_spec s free [] n _ h.clusters h.length_lt
  rw [show placeAfter [] = none from rfl, nil_append] at hf
  rw [miReserveSystemPtes, miReserveAlignedSystemPtes, hf, do_some]
  cases large with
  | nil =>
    rw [append_nil] at h
    refine .inl ⟨by rwa [append_nil], if_pos h.clusters.next_end⟩
  | cons r large =>
    have hm : r ∈ sm ++ r :: large := mem_append_right _ mem_cons_self
    have hle : n ≤ r.size := hl r rfl
    refine .inr ⟨⟨r, hm, hle⟩, ?_⟩
    rw [h.clusters.next_cons, if_neg (Nat.ne_of_lt (h.clusters.start_lt hm))]
    dsimp only
    rw [(h.clusters.sizes r hm).clusterSize, totalFree_set, h.total]
    -- the total does not wrap
    have ht : (((sm ++ r :: large).map size).sum + 2 ^ 32 - n) % 2 ^ 32 =
      ((sm ++ r :: large).map size).sum - n := by
      have hsp := space.size_lt
      have hsm : ((sm ++ r :: large).map size).sum = r.size + ((sm ++ large).map size).sum :=
        (perm_middle.map size).sum_eq
      have := h.total_le
      omega
    rw [ht]
    split
    case isTrue heq =>
      subst heq
      exact ⟨_, _, _, rfl, h.take⟩
    case isFalse hne =>
      obtain ⟨s', free', hr, hin⟩ := h.divide hn (show 0 < r.size - n by omega) (by omega)
      unfold divided at hr
      rw [hr, do_some]
      exact ⟨_, _, free', rfl, hin⟩

/-- What the walk of a release knows about `InsertPte` when it has passed the clusters
`pre` and has `n` PTEs to put: NULL, or the place before the first one that is as large. -/
inductive InsertAt (rest : List Span) (n : Nat) : List Span → Option (Option Nat) → Prop
  | null {pre : List Span} (hpre : ∀ x ∈ pre, x.size ≤ n) : InsertAt rest n pre none
  | found {small mid : List Span} (hsmall : ∀ x ∈ small, x.size ≤ n) (hlarge : ∀ x ∈ mid ++ rest, n ≤ x.size) :
    InsertAt rest n (small ++ mid) (some (placeAfter small))

lemma InsertAt.step {insert : Option (Option Nat)} (h : InsertAt (r :: rs) n pre insert)
    (hsr : (r :: rs).Pairwise fun r r' => r.size ≤ r'.size) :
    InsertAt rs n (pre ++ [r]) (if insert = none ∧ n ≤ r.size then some (placeAfter pre) else insert) := by
  have hr := (pairwise_cons.mp hsr).1
  cases h with
  | null hp =>
    split
    case isTrue hle =>
      refine .found hp fun x hx => ?_
      rcases mem_cons.mp hx with rfl | hx
      · exact hle.2
      · exact le_trans hle.2 (hr x hx)
    case isFalse hle =>
      refine .null fun x hx => ?_
      rcases mem_append.mp hx with hx | hx
      · exact hp x hx
      rw [mem_singleton.mp hx]
      by_contra hlt
      exact hle ⟨rfl, by omega⟩
  | @found sm m hs hl =>
    rw [if_neg fun h => absurd h.1 (some_ne_none _), append_assoc]
    refine .found hs fun x hx => hl x ?_
    simpa using hx

/-- The PTEs to release and a cluster that they meet. -/
def joined (r cur : Span) : Span := ⟨if r.start < cur.start then r.start else cur.start, cur.size + r.size⟩

lemma joined_shares {l : List Span} (hr : 0 < r.size) (hc : 0 < c.size) (hm : r.Meets c) :
    SharesOut (joined r c :: l) space.start space.size ↔ SharesOut (c :: r :: l) space.start space.size := by
  unfold joined
  rcases hm with hm | hm
  · rw [if_pos (by unfold stop at hm; omega), add_comm, sharesOut_join hr hc hm]
    exact ⟨fun h => h.perm (.swap _ _ _), fun h => h.perm (.swap _ _ _)⟩
  · rw [if_neg (by unfold stop at hm; omega), sharesOut_join hc hr hm]

lemma joined_not_meets {x : Span} (hm : r.Meets c) (hc : ¬ x.Meets c) (hr : ¬ x.Meets r) :
    ¬ x.Meets (joined r c) := by
  unfold joined
  unfold Meets stop at *
  dsimp only
  split <;> omega

/-- The loop of a release: it takes off the list the clusters that meet the PTEs, and
finds the place in the order for them. -/
lemma releaseLoop_spec {k : Nat} {insert : Option (Option Nat)} (h : Clusters s (pre ++ rs))
    (hf : rs.length < k) (hs : SharesOut (c :: (pre ++ rs ++ reserved)) space.start space.size)
    (hsr : (pre ++ rs).Pairwise fun r r' => r.size ≤ r'.size)
    (hp : (pre ++ rs).Pairwise fun r r' => ¬ r.Meets r') (hpr : ∀ x ∈ pre, ¬ x.Meets c)
    (hin : InsertAt rs c.size pre insert) :
    ∃ s' c' sm large, releaseLoop k s c (placeAfter pre) insert = some (s', c', placeAfter sm) ∧
      Clusters s' (sm ++ large) ∧ SharesOut (c' :: (sm ++ large ++ reserved)) space.start space.size ∧
      (sm ++ large).Sublist (pre ++ rs) ∧ (∀ x ∈ sm, x.size ≤ c'.size) ∧ (∀ x ∈ large, c'.size ≤ x.size) ∧
      (∀ x ∈ sm ++ large, ¬ x.Meets c') ∧ s'.totalFree = s.totalFree := by
  induction rs generalizing k s pre c insert with
  | nil =>
    obtain ⟨k, rfl⟩ := exists_eq_add_one_of_ne_zero (ne_of_gt hf)
    rw [append_nil] at h hs hsr hp
    rw [releaseLoop, if_pos h.next_end]
    cases hin with
    | null hle =>
      refine ⟨s, c, pre, [], rfl, ?_, ?_, ?_, hle, nofun, ?_, rfl⟩ <;> rw [append_nil]
      exacts [h, hs, hpr]
    | @found sm m hsm hlr =>
      rw [append_nil] at hlr
      exact ⟨s, c, sm, m, rfl, h, hs, sublist_append_left _ _, hsm, hlr, hpr, rfl⟩
  | cons r rs ih =>
    obtain ⟨k, rfl⟩ := exists_eq_add_one_of_ne_zero (ne_of_gt (lt_of_le_of_lt (zero_le _) hf))
    have hme : r ∈ pre ++ r :: rs := mem_append_right _ mem_cons_self
    have hsb : (pre ++ rs).Sublist (pre ++ r :: rs) := Sublist.append_left (sublist_cons_self _ _) _
    rw [releaseLoop, h.next_cons, if_neg (Nat.ne_of_lt (h.start_lt hme))]
    dsimp only
    rw [(h.sizes r hme).clusterSize]
    split
    case isTrue hmt =>
      have hmt : r.Meets c := hmt
      have hs' : SharesOut (c :: r :: (pre ++ rs ++ reserved)) space.start space.size :=
        hs.perm (.cons _ (by simpa using perm_middle.symm))
      have hlt : c.size + r.size < 2 ^ 32 := by
        have hsu := hs'.sum
        have := space.size_lt
        rw [map_cons, map_cons, sum_cons, sum_cons] at hsu
        omega
      rw [mod_eq_of_lt hlt]
      have hn := (pairwise_cons.mp ((pairwise_middle fun hm hm' => hm hm'.symm).mp hp)).1
      obtain ⟨s', c', sm, large, hl, h1, h2, h3, h4, h5, h6, h7⟩ :=
        @ih _ (joined r c) pre k none h.take (lt_of_succ_lt_succ hf)
        ((joined_shares (hs'.pos r (by simp)) (hs'.pos c (by simp)) hmt).mpr hs')
        (hsr.sublist hsb) (hp.sublist hsb)
        (fun x hx => joined_not_meets hmt (hpr x hx) fun hm => hn x (mem_append_left _ hx) hm.symm)
        (.null fun x hx => le_trans ((pairwise_append.mp hsr).2.2 x hx r mem_cons_self) (le_add_left _ _))
      exact ⟨s', c', sm, large, hl, h1, h2, h3.trans hsb, h4, h5, h6,
        h7.trans (totalFree_zeroCluster.trans totalFree_set)⟩
    case isFalse hmt =>
      have ha : pre ++ r :: rs = pre ++ [r] ++ rs := by rw [append_assoc]; rfl
      have hst := hin.step (pairwise_append.mp hsr).2.1
      rw [ha] at h hs hsr hp ⊢
      obtain ⟨s', c', sm, large, hl, hr⟩ := ih h (lt_of_succ_lt_succ hf) hs hsr hp (fun x hx => by
          rcases mem_append.mp hx with hx | hx
          · exact hpr x hx
          · rwa [mem_singleton.mp hx]) hst
      rw [Clusters.placeAfter_snoc] at hl
      exact ⟨s', c', sm, large, hl, hr⟩

/-- A new cluster is made out of the PTEs. -/
def madeCluster (s : SystemPtes) (r : Span) : SystemPtes :=
  if r.size ≠ 1 then (s.setOneEntry r.start false).setNextEntry (some (r.start + 1)) r.size
  else s.setOneEntry r.start true

lemma madeCluster_spec (hp : 0 < r.size) (hlt : r.size < nextEntries) :
    SizeAt (madeCluster s r) r ∧ (madeCluster s r).firstFree = s.firstFree ∧
      (∀ i, ¬ r.Has i → (madeCluster s r).pte i = s.pte i) ∧ (madeCluster s r).totalFree = s.totalFree := by
  unfold madeCluster
  split
  case isTrue ho =>
    refine ⟨⟨?_, fun _ => ?_⟩, rfl, fun i hi => ?_, rfl⟩
    · simp [setOneEntry, setPte, ho]
    · rw [nextEntry_set, if_pos rfl, mod_eq_of_lt hlt]
    have h0 : i ≠ r.start := fun h => hi ⟨by omega, by unfold stop; omega⟩
    rw [pte_setNextEntry, setOneEntry, pte_setPte h0]
    intro heq
    have := some.inj heq
    exact hi ⟨by omega, by unfold stop; omega⟩
  case isFalse ho =>
    rw [not_not] at ho
    refine ⟨⟨?_, fun hne => absurd ho hne⟩, rfl, fun i hi => ?_, rfl⟩
    · simp [setOneEntry, setPte, ho]
    · exact pte_setPte fun h => hi ⟨by omega, by unfold stop; omega⟩

lemma release_spec (h : PoolInv space s free reserved) (hr : r ∈ reserved) :
    ∃ s' free', s.miReleaseSystemPtes r.start r.size = some s' ∧ PoolInv space s' free' (reserved.erase r) := by
  have hp : (free ++ reserved).Perm (r :: (free ++ reserved.erase r)) :=
    ((perm_cons_erase hr).append_left free).trans perm_middle
  have hs := h.shares.perm hp.symm
  have ha := (pairwise_cons.mp hs.apart).1
  have hz : Clusters { s.zeroMemory r.start r.size with totalFree := (s.totalFree + r.size) % 2 ^ 32 } free := by
    refine h.clusters.frame rfl fun x hx i hi => if_neg fun hi' => ?_
    have := ha x (mem_append_left _ hx)
    unfold Apart Has stop at *
    omega
  obtain ⟨s1, c, sm, large, hlp, hc, hs', hsb, hsm, hl, hmt, ht⟩ :=
    @releaseLoop_spec space _ r [] free _ nextEntries none hz h.length_lt hs h.sorted h.parted nofun (.null nofun)
  have hps := hs'.pos c mem_cons_self
  have ha' := (pairwise_cons.mp hs'.apart).1
  have hbn := hs'.bounds mem_cons_self
  have hb := space.below
  have hlt : c.size < nextEntries := by
    unfold stop at hbn
    unfold emptyPteList at hb
    unfold nextEntries
    omega
  obtain ⟨hsz, hf, hsa, ht'⟩ := @madeCluster_spec s1 c hps hlt
  have hmd := hc.frame hf fun x hx i hi => hsa i fun hi' => by
    have := ha' x (mem_append_left _ hx)
    unfold Apart Has stop at *
    omega
  have hin := hmd.insert hsz hps (by omega) fun x hx => ha' x (mem_append_left _ hx)
  refine ⟨_, sm ++ c :: large, ?_, ⟨hin, ?_, ?_, ?_, ?_⟩⟩
  · exact bind_eq_some_iff.mpr ⟨_, hlp, rfl⟩
  · exact hs'.perm (by simp)
  · exact sorted_insert (h.sorted.sublist hsb) hsm hl
  · refine (pairwise_middle fun hm hm' => hm hm'.symm).mpr
      (pairwise_cons.mpr ⟨fun x hx hm => hmt x hx hm.symm, h.parted.sublist hsb⟩)
  rw [totalFree_set, totalFree_set, ht', ht]
  have hsu := hs.sum
  have hsu' := hs'.sum
  have hlt := space.size_lt
  have hmi : ((sm ++ c :: large).map size).sum = c.size + ((sm ++ large).map size).sum :=
    (perm_middle.map size).sum_eq
  rw [map_cons, sum_cons, map_append, sum_append] at hsu hsu'
  show (s.totalFree + r.size) % 2 ^ 32 = _
  rw [h.total]
  omega

lemma initial_inv (space : PteSpace) (before : SystemPtes) :
    PoolInv space (before.miInitializeSystemPtes space.start space.size) [space.toSpan] [] := by
  have hb := space.below
  have ht := space.two_le
  have hlt := space.size_lt
  have hs : space.start % nextEntries = space.start := by
    unfold emptyPteList at hb
    exact mod_eq_of_lt (by unfold nextEntries; omega)
  refine ⟨⟨⟨?_, ?_⟩, ?_, ?_, pairwise_singleton _ _, ?_⟩, ?_, pairwise_singleton _ _, pairwise_singleton _ _, ?_⟩
  · exact hs
  · simp [miInitializeSystemPtes, nextEntry, setNextEntry, setPte, Chain, emptyPteList, nextEntries]
  · intro r hr
    rw [mem_singleton.mp hr]
    refine ⟨?_, fun _ => ?_⟩
    · rw [decide_eq_false (by omega)]
      simp [miInitializeSystemPtes, setNextEntry, setPte, zeroMemory, ListPte.zero, show 0 < space.size by omega]
    · rw [← mod_eq_of_lt (show space.size < nextEntries from hlt)]
      simp [miInitializeSystemPtes, nextEntry, setNextEntry, setPte]
  · intro r hr
    rw [mem_singleton.mp hr]
    omega
  · intro r hr
    rw [mem_singleton.mp hr]
    exact hb
  · rw [append_nil]
    exact sharesOut_singleton (Nat.lt_of_lt_of_le Nat.zero_lt_two ht)
  · simp [miInitializeSystemPtes]

lemma PoolInv.write (h : PoolInv space s free reserved) (hr : r ∈ reserved) {i : Nat} (hi : r.Has i)
    (pt : ListPte) :
    PoolInv space (s.setPte i pt) free reserved := by
  refine ⟨h.clusters.frame rfl fun x hx j hj => pte_setPte ?_, h.shares, h.sorted, h.parted, h.total⟩
  rintro rfl
  have := (pairwise_append.mp h.shares.apart).2.2 x hx r hr
  unfold Apart Has stop at *
  omega

/-! ## Runs -/

variable {p p' : PtePool}

lemma pteStep_inv {c : PteCall} (h : ∃ free, PoolInv space p.ptes free p.reserved) (hok : PteOk p c)
    (hs : pteStep p c = some p') : ∃ free, PoolInv space p'.ptes free p'.reserved := by
  obtain ⟨free, h⟩ := h
  cases c with
  | reserve n =>
    rcases reserve_spec h hok with ⟨-, heq⟩ | ⟨-, s', i, free', heq, h'⟩ <;>
    · rw [pteStep, heq, map_some, some.injEq] at hs
      subst hs
      first | exact ⟨free, h⟩ | exact ⟨free', h'⟩
  | release r =>
    obtain ⟨s', free', heq, h'⟩ := release_spec h hok
    rw [pteStep, heq, map_some, some.injEq] at hs
    subst hs
    exact ⟨free', h'⟩
  | write i pt =>
    obtain ⟨r, hr, hi⟩ := hok
    cases hs
    exact ⟨free, h.write hr hi pt⟩

/-- The pool in every state that can be reached. -/
theorem systemPtes_shared_out {before : SystemPtes} {calls : List PteCall}
    (hrun : Run pteStep PteOk (space.initial before) calls p) :
    ∃ free, Clusters p.ptes free ∧ (free ++ p.reserved).Pairwise Apart ∧
      (∀ i, (∃ r ∈ free ++ p.reserved, r.Has i) ↔ space.start ≤ i ∧ i < space.start + space.size) ∧
      (free.Pairwise fun r r' => r.size ≤ r'.size) ∧ (free.Pairwise fun r r' => ¬ r.Meets r') ∧
      p.ptes.totalFree = (free.map size).sum ∧
      (∀ n, 1 ≤ n → ∃ s' result, p.ptes.miReserveSystemPtes n = some (s', result) ∧
        (result = none ↔ ¬ ∃ r ∈ free, n ≤ r.size)) ∧
      ∀ r ∈ p.reserved, ∃ s', p.ptes.miReleaseSystemPtes r.start r.size = some s' := by
  obtain ⟨free, h⟩ : ∃ free, PoolInv space p.ptes free p.reserved :=
    hrun.invariant (fun p => ∃ free, PoolInv space p.ptes free p.reserved) pteStep_inv ⟨_,
      initial_inv space before⟩
  refine ⟨free, h.clusters, h.shares.apart, fun i => h.shares.covers, h.sorted, h.parted, h.total,
    fun n hn => ?_, fun r hr => ?_⟩
  · rcases reserve_spec h hn with ⟨hs, heq⟩ | ⟨hl, s', i, -, heq, -⟩
    · refine ⟨_, _, heq, fun _ => ?_, fun _ => rfl⟩
      rintro ⟨r, hr, hle⟩
      exact Nat.not_le_of_lt (hs r hr) hle
    · exact ⟨_, _, heq, nofun, fun hnt => absurd hl hnt⟩
  · obtain ⟨s', -, heq, -⟩ := release_spec h hr
    exact ⟨s', heq⟩

/-- Eight PTEs, of which three are reserved. -/
theorem systemPtes_shared_out_eight : ∃ p free, Run pteStep PteOk
    (PteSpace.initial ⟨⟨16, 8⟩, by decide, by decide⟩ ⟨.zero, fun _ => .zero, 0⟩) [.reserve 3] p ∧
    p.reserved = [⟨21, 3⟩] ∧ Clusters p.ptes free ∧ (free ++ p.reserved).Pairwise Apart := by
  obtain ⟨p, hrn, hr⟩ : ∃ p, Run pteStep PteOk
      (PteSpace.initial ⟨⟨16, 8⟩, by decide, by decide⟩ ⟨.zero, fun _ => .zero, 0⟩) [.reserve 3] p ∧
      p.reserved = [⟨21, 3⟩] := ⟨_, .single (show 1 ≤ 3 by decide) rfl, rfl⟩
  obtain ⟨free, hc, ha, -⟩ := systemPtes_shared_out hrn
  exact ⟨p, free, hrn, hr, hc, ha⟩

/-- A reservation fails just if no PTEs in a row that are not reserved are as many as it asks for. -/
theorem reserve_fails_iff {before : SystemPtes} {calls : List PteCall}
    (hrun : Run pteStep PteOk (space.initial before) calls p) (hn : 1 ≤ n) :
    (∃ s', p.ptes.miReserveSystemPtes n = some (s', none)) ↔
      ∀ i, space.start ≤ i → i + n ≤ space.start + space.size → ∃ r ∈ p.reserved, ¬ r.Apart ⟨i, n⟩ := by
  obtain ⟨free, h⟩ : ∃ free, PoolInv space p.ptes free p.reserved :=
    hrun.invariant (fun p => ∃ free, PoolInv space p.ptes free p.reserved) pteStep_inv ⟨_,
      initial_inv space before⟩
  obtain ⟨ha, -, har⟩ := pairwise_append.mp h.shares.apart
  rcases reserve_spec h hn with ⟨hs, heq⟩ | ⟨⟨r, hr, hle⟩, s', i, -, heq, -⟩
  · refine ⟨fun _ i hi hin => ?_, fun _ => ⟨_, heq⟩⟩
    by_contra hno
    obtain ⟨x, hx, hle⟩ : ∃ x ∈ free, n ≤ x.size := by
      refine size_le_of_row (r := ⟨i, n⟩) ha h.parted hn fun j hj => ?_
      obtain ⟨x, hx, hxj⟩ := h.shares.covers.mpr ⟨hi.trans hj.1, hj.2.trans_le hin⟩
      refine ⟨x, (mem_append.mp hx).resolve_right fun hx => hno ⟨x, hx, ?_⟩, hxj⟩
      unfold Has Apart at *
      omega
    exact (hs x hx).not_ge hle
  · rw [heq]
    refine ⟨nofun, fun hall => ?_⟩
    have hb := h.shares.bounds (mem_append_left _ hr)
    unfold stop at hb
    obtain ⟨x, hx, hxr⟩ := hall r.start hb.1 (by omega)
    have := har r hr x hx
    unfold Apart stop at *
    dsimp only at hxr
    omega

/-- Five PTEs are left, but not six. -/
theorem reserve_fails_six : ∃ p, Run pteStep PteOk
    (PteSpace.initial ⟨⟨16, 8⟩, by decide, by decide⟩ ⟨.zero, fun _ => .zero, 0⟩) [.reserve 3] p ∧
    ∃ s', p.ptes.miReserveSystemPtes 6 = some (s', none) := by
  obtain ⟨p, hr, hp⟩ : ∃ p, Run pteStep PteOk
      (PteSpace.initial ⟨⟨16, 8⟩, by decide, by decide⟩ ⟨.zero, fun _ => .zero, 0⟩) [.reserve 3] p ∧
      p.reserved = [⟨21, 3⟩] := ⟨_, .single (show 1 ≤ 3 by decide) rfl, rfl⟩
  refine ⟨p, hr, (reserve_fails_iff hr (by decide)).mpr fun i h1 h2 => ⟨⟨21, 3⟩, by simp [hp], ?_⟩⟩
  change 16 ≤ i at h1
  change i + 6 ≤ 24 at h2
  unfold Apart stop
  dsimp only
  omega

end FreeNT.Mm
