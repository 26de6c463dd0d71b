import FreeNT.FsRtl.McbRemove

/-!
# Adding blocks to an MCB

`FsRtlAddBaseMcbEntry` removes the range of the new run first, and then merges the new run
with the one before it, if the logical blocks are contiguous, and with the one after it, if
its `StartingLbn` is not greater (`makeRoom_spec`). `insertRun_spec`: the runs afterwards.
`added_iff`: what of the runs before it makes the result right.
-/

namespace FreeNT.FsRtl

open SplayTree FreeNT.Rtl FreeNT.Rtl.SplayTable List Option LargeMcbMappingEntry

variable {m : BaseMcb} {xs ys zs : List LargeMcbMappingEntry} {nr run e f : LargeMcbMappingEntry}
  {v vbn lbn n : Int64}

/-- No run of the list has a block of the new one. -/
def FreeOf (newRun : LargeMcbMappingEntry) (xs : List LargeMcbMappingEntry) : Prop :=
  ∀ e ∈ xs, e.RunEndVbn ≤ newRun.RunStartVbn ∨ newRun.RunEndVbn ≤ e.RunStartVbn

lemma free_cutRuns (h : RunsOk xs) (hlt : nr.RunStartVbn < nr.RunEndVbn) : FreeOf nr (cutRuns nr xs) := by
  intro f hf
  obtain ⟨e, he, hc⟩ := mem_filterMap.mp hf
  obtain ⟨-, hb, -, -, hne⟩ := cutRun_some hlt (h.bounds e he).2 hc
  have hinter := intersects_iff hlt hb
  grind

lemma intersects_block (he : e.RunStartVbn < e.RunEndVbn) (hv : v < v + 1) :
    mcbMappingIntersectCompare ⟨v, v + 1, lbn⟩ e = .eq ↔ e.Has v := by
  simp only [mcbMappingIntersectCompare, LargeMcbMappingEntry.Has]
  grind

section

variable (h : McbOk m xs) (hps : 0 ≤ nr.RunStartVbn) (hlt : nr.RunStartVbn < nr.RunEndVbn) (hfr : FreeOf nr xs)

include h hps hlt hfr

/-- The run that ends where the new one starts is merged with it if the logical blocks are contiguous. -/
lemma mergeLower_spec : (∃ m', mergeLower m nr = some (m', nr) ∧ McbOk m' xs ∧
      ∀ low ∈ xs, low.RunEndVbn = nr.RunStartVbn →
        low.StartingLbn + (low.RunEndVbn - low.RunStartVbn) ≠ nr.StartingLbn) ∨
    ∃ m' ys low zs, mergeLower m nr =
        some (m', { nr with RunStartVbn := low.RunStartVbn, StartingLbn := low.StartingLbn }) ∧
          xs = ys ++ low :: zs ∧
      McbOk m' (ys ++ zs) ∧ low.RunEndVbn = nr.RunStartVbn ∧
      low.StartingLbn + (low.RunEndVbn - low.RunStartVbn) = nr.StartingLbn := by
  obtain ⟨ns, hln⟩ := h.linked
  have hn : nr.RunStartVbn - 1 < nr.RunStartVbn - 1 + 1 := by grind
  -- a run that has the block before the new one ends there
  have hen : ∀ e ∈ xs, mcbMappingIntersectCompare ⟨nr.RunStartVbn - 1, nr.RunStartVbn - 1 + 1, -1⟩ e = .eq ↔
      e.RunEndVbn = nr.RunStartVbn := by
    intro e he
    have hb := h.runs.bounds e he
    have ho := hfr e he
    rw [intersects_block hb.2 hn]
    simp only [LargeMcbMappingEntry.Has]
    grind
  rw [mergeLower]
  rcases hln.lookup (h.runs.cut_intersect ⟨nr.RunStartVbn - 1, nr.RunStartVbn - 1 + 1,
    -1⟩) with ⟨hl, hne⟩ | ⟨t, n, ys, low, zs, hl, rfl, heq, hat⟩
  · refine .inl ⟨m, ?_, h, fun low hlw hed => absurd ((hen low hlw).mpr hed) (hne low hlw)⟩
    rw [hl]
    rfl
  have hlw : low ∈ ys ++ low :: zs := by simp
  have hed := (hen low hlw).mp heq
  rw [hl, do_some]
  dsimp only
  rw [if_neg hat.ne_zero, hat.userData, do_some]
  by_cases hlb : low.StartingLbn + (low.RunEndVbn - low.RunStartVbn) = nr.StartingLbn
  · obtain ⟨t', hd, hok⟩ := h.delete hat
    refine .inr ⟨_, ys, low, zs, ?_, rfl, hok, hed, hlb⟩
    rw [if_pos hlb, if_neg (not_not.mpr hed), hd]
    rfl
  refine .inl ⟨_, by rw [if_neg hlb]; rfl, h.at hat, fun e he hed' => ?_⟩
  have hs : e = low := by
    by_contra hne
    have hp := h.runs.pair he hlw hne
    have he := h.runs.bounds e he
    have hlw := h.runs.bounds low hlw
    grind
  rwa [hs]

/-- The run that starts where the new one ends is merged with it if its `StartingLbn` is not less. -/
lemma mergeHigher_spec : (∃ m', mergeHigher m nr = some (m', nr) ∧ McbOk m' xs ∧
      ∀ high ∈ xs, high.RunStartVbn = nr.RunEndVbn → ¬ nr.StartingLbn ≤ high.StartingLbn) ∨
    ∃ m' ys high zs, mergeHigher m nr = some (m', { nr with RunEndVbn := high.RunEndVbn }) ∧
      xs = ys ++ high :: zs ∧
      McbOk m' (ys ++ zs) ∧ high.RunStartVbn = nr.RunEndVbn ∧ nr.StartingLbn ≤ high.StartingLbn := by
  obtain ⟨ns, hln⟩ := h.linked
  -- a run that has the block after the new one starts there; after the greatest number there is none
  have hst : ∀ e ∈ xs, mcbMappingIntersectCompare ⟨nr.RunEndVbn, nr.RunEndVbn + 1, -1⟩ e = .eq ↔
      e.RunStartVbn = nr.RunEndVbn := by
    intro e he
    have ho := hfr e he
    simp only [mcbMappingIntersectCompare]
    grind
  rw [mergeHigher]
  rcases hln.lookup (h.runs.cut_intersect ⟨nr.RunEndVbn, nr.RunEndVbn + 1, -1⟩) with ⟨hl, hne⟩ | ⟨t,
    n, ys, high, zs, hl, rfl, heq, hat⟩
  · refine .inl ⟨m, ?_, h, fun high hh hs => absurd ((hst high hh).mpr hs) (hne high hh)⟩
    rw [hl]
    rfl
  have hh : high ∈ ys ++ high :: zs := by simp
  have hs := (hst high hh).mp heq
  rw [hl, do_some]
  dsimp only
  rw [if_neg hat.ne_zero, hat.userData, do_some]
  by_cases hlb : nr.StartingLbn ≤ high.StartingLbn
  · obtain ⟨t', hd, hok⟩ := h.delete hat
    refine .inr ⟨_, ys, high, zs, ?_, rfl, hok, hs, hlb⟩
    rw [if_pos hlb, if_neg (not_not.mpr hs), hd]
    rfl
  refine .inl ⟨_, by rw [if_neg hlb]; rfl, h.at hat, fun e he hs' => ?_⟩
  have hsm : e = high := by
    by_contra hne
    have hp := h.runs.pair he hh hne
    have he := h.runs.bounds e he
    have hh := h.runs.bounds high hh
    grind
  rwa [hsm]

end

/-- How a new run is merged with the runs `xs`, which are free of it. -/
structure Merged (xs : List LargeMcbMappingEntry) (newRun run : LargeMcbMappingEntry) : Prop where
  lower : (run.RunStartVbn = newRun.RunStartVbn ∧ run.StartingLbn = newRun.StartingLbn ∧
      ∀ low ∈ xs, low.RunEndVbn = newRun.RunStartVbn →
        low.StartingLbn + (low.RunEndVbn - low.RunStartVbn) ≠ newRun.StartingLbn) ∨
    ∃ low ∈ xs, low.RunEndVbn = newRun.RunStartVbn ∧
      low.StartingLbn + (low.RunEndVbn - low.RunStartVbn) = newRun.StartingLbn ∧
      run.RunStartVbn = low.RunStartVbn ∧ run.StartingLbn = low.StartingLbn
  upper : (run.RunEndVbn = newRun.RunEndVbn ∧
      ∀ high ∈ xs, high.RunStartVbn = newRun.RunEndVbn → ¬ run.StartingLbn ≤ high.StartingLbn) ∨
    ∃ high ∈ xs, high.RunStartVbn = newRun.RunEndVbn ∧ run.StartingLbn ≤ high.StartingLbn ∧
      run.RunEndVbn = high.RunEndVbn

/-- The new run, merged, and the runs that are left beside it. -/
structure McbRoom (xs : List LargeMcbMappingEntry) (newRun run : LargeMcbMappingEntry)
    (rest : List LargeMcbMappingEntry) : Prop where
  merged : Merged xs newRun run
  bounds : 0 ≤ run.RunStartVbn ∧ run.RunStartVbn ≤ newRun.RunStartVbn ∧ newRun.RunEndVbn ≤ run.RunEndVbn
  free : FreeOf run rest
  sub : ∀ e ∈ rest, e ∈ xs
  covered : ∀ e ∈ xs, e ∈ rest ∨ run.RunStartVbn ≤ e.RunStartVbn ∧ e.RunEndVbn ≤ run.RunEndVbn

lemma mem_middle {a b : LargeMcbMappingEntry} : a ∈ ys ++ b :: zs ↔ a = b ∨ a ∈ ys ++ zs := by
  rw [perm_middle.mem_iff, mem_cons]

lemma RunsOk.free_rest (h : RunsOk (ys ++ e :: zs)) : FreeOf e (ys ++ zs) := by
  have hnd : (ys ++ e :: zs).Nodup := by
    refine h.sorted.imp_of_mem fun {a b} ha _ hab heq => ?_
    have hb := h.bounds a ha
    grind
  rw [nodup_middle, nodup_cons] at hnd
  intro f hf
  exact h.pair (mem_middle.mpr (.inr hf)) (mem_middle.mpr (.inl rfl)) fun heq => hnd.1 (heq ▸ hf)

lemma mergeRuns_spec (h : McbOk m xs) (hps : 0 ≤ nr.RunStartVbn)
    (hlt : nr.RunStartVbn < nr.RunEndVbn) (hfr : FreeOf nr xs) :
    ∃ m1 run1 m2 run r, mergeLower m nr = some (m1, run1) ∧ mergeHigher m1 run1 = some (m2, run) ∧ McbOk m2 r ∧
      McbRoom xs nr run r := by
  -- after the first merge, with `run1` and the runs `rest1`
  obtain ⟨m1, run1, r1, hlw, hok1, hr⟩ : ∃ m1 run1 r1, mergeLower m nr = some (m1, run1) ∧ McbOk m1 r1 ∧
      (run1.RunEndVbn = nr.RunEndVbn ∧ ((run1.RunStartVbn = nr.RunStartVbn ∧ run1.StartingLbn = nr.StartingLbn ∧
        ∀ low ∈ xs, low.RunEndVbn = nr.RunStartVbn →
          low.StartingLbn + (low.RunEndVbn - low.RunStartVbn) ≠ nr.StartingLbn) ∨
        ∃ low ∈ xs, low.RunEndVbn = nr.RunStartVbn ∧
          low.StartingLbn + (low.RunEndVbn - low.RunStartVbn) = nr.StartingLbn ∧
          run1.RunStartVbn = low.RunStartVbn ∧ run1.StartingLbn = low.StartingLbn) ∧
        (0 ≤ run1.RunStartVbn ∧ run1.RunStartVbn ≤ nr.RunStartVbn) ∧ FreeOf run1 r1 ∧ (∀ e ∈ r1, e ∈ xs) ∧
        ∀ e ∈ xs, e ∈ r1 ∨ run1.RunStartVbn ≤ e.RunStartVbn ∧ e.RunEndVbn ≤ nr.RunStartVbn) := by
    rcases mergeLower_spec h hps hlt hfr with ⟨m', hm, hok, hne⟩ | ⟨m', ys, low, zs, hm, rfl, hok, hen, hlb⟩
    · exact ⟨m', nr, xs, hm, hok, rfl, .inl ⟨rfl, rfl, hne⟩, ⟨hps, Int64.le_refl _⟩, hfr,
        fun _ he => he, fun _ he => .inl he⟩
    have hlw := h.runs.bounds low (mem_middle.mpr (.inl rfl))
    refine ⟨m', _, ys ++ zs, hm, hok, rfl,
      .inr ⟨low, mem_middle.mpr (.inl rfl), hen, hlb, rfl, rfl⟩, ⟨hlw.1, by grind⟩, ?_,
      fun e he => mem_middle.mpr (.inr he), fun e he => ?_⟩
    · intro e he
      have h1 := h.runs.free_rest e he
      have h2 := hfr e (mem_middle.mpr (.inr he))
      have h3 := h.runs.bounds e (mem_middle.mpr (.inr he))
      grind
    rcases mem_middle.mp he with rfl | he
    · exact .inr ⟨Int64.le_refl _, by grind⟩
    · exact .inl he
  obtain ⟨hen, hl, ⟨hps1, hle1⟩, hfr1, hsb1, hc1⟩ := hr
  have hlt1 : run1.RunStartVbn < run1.RunEndVbn := by grind
  rcases mergeHigher_spec hok1 hps1 hlt1 hfr1 with ⟨m2, hm, hok, hne⟩ | ⟨m2, ys, high, zs, hm, rfl, hok, hs, hlb⟩
  · refine ⟨m1, run1, m2, run1, r1, hlw, hm, hok, ⟨hl, .inl ⟨hen, fun high hh hs => ?_⟩⟩, ⟨hps1, hle1, by grind⟩,
      hfr1, hsb1, fun e he => ?_⟩
    · rcases hc1 high hh with hh' | hcv
      · exact hne high hh' (by grind)
      · have := h.runs.bounds high hh
        grind
    rcases hc1 e he with he | hcv
    · exact .inl he
    · exact .inr ⟨hcv.1, by grind⟩
  have hh := hok1.runs.bounds high (mem_middle.mpr (.inl rfl))
  refine ⟨m1, run1, m2, _, ys ++ zs, hlw, hm, hok,
    ⟨hl, .inr ⟨high, hsb1 high (mem_middle.mpr (.inl rfl)), by grind, hlb, rfl⟩⟩,
    ⟨hps1, hle1, by grind⟩, ?_, fun e he => hsb1 e (mem_middle.mpr (.inr he)), fun e he => ?_⟩
  · intro e he
    have h1 := hok1.runs.free_rest e he
    have h2 := hfr1 e (mem_middle.mpr (.inr he))
    have h3 := hok1.runs.bounds e (mem_middle.mpr (.inr he))
    grind
  rcases hc1 e he with he | hcv
  · rcases mem_middle.mp he with rfl | he
    · exact .inr ⟨by grind, Int64.le_refl _⟩
    · exact .inl he
  · exact .inr ⟨hcv.1, by grind⟩

/-- A removal does not depend on the logical blocks. -/
lemma makeRoom_spec (h : McbOk m xs) (hvbn : 0 ≤ vbn) (hc : 0 < n) (hlt : vbn < vbn + n) :
    ∃ m' run r, makeRoom m vbn lbn n = some (m', run) ∧ McbOk m' r ∧
      McbRoom (cutRuns ⟨vbn, vbn + n, lbn⟩ xs) ⟨vbn, vbn + n, lbn⟩ run r := by
  obtain ⟨m0, hrm, hok0⟩ := removeMcb_spec h hvbn hc hlt
  have hfr : FreeOf ⟨vbn, vbn + n, lbn⟩ (cutRuns ⟨vbn, vbn + n, lbn⟩ xs) := free_cutRuns h.runs hlt
  obtain ⟨m1, run1, m2, run, r, hl, hh, hok, hr⟩ :=
    @mergeRuns_spec _ (cutRuns ⟨vbn, vbn + n, lbn⟩ xs) ⟨vbn, vbn + n, lbn⟩ hok0 hvbn hlt hfr
  refine ⟨m2, run, r, ?_, hok, hr⟩
  rw [makeRoom, hrm, do_some]
  dsimp only
  rw [hl, do_some]
  exact hh

lemma insertRun_spec {a : Nat} (h : McbOk m xs) (hps : 0 ≤ run.RunStartVbn)
    (hlt : run.RunStartVbn < run.RunEndVbn) (hfr : FreeOf run xs)
    (hf : Fresh headerSize (2 ^ 32) m.Mapping.InsertOrderList a) :
    ∃ t ys zs, rtlInsertElementGenericTable mcbMappingCompare m.Mapping run a = some (t, a, true) ∧ xs = ys ++ zs ∧
      McbOk { m with Mapping := t, PairCount := (m.PairCount + 1) % 2 ^ 32 } (ys ++ run :: zs) := by
  obtain ⟨ns, hl⟩ := h.linked
  have hne : ∀ e ∈ xs, mcbMappingCompare run e ≠ .eq := by
    intro e he
    have h2 := hfr e he
    simp only [mcbMappingCompare]
    grind
  obtain ⟨t, ys, zs, hin, rfl, hgt, hlz, l, r, hl', -⟩ := hl.insert (h.runs.cut_compare run hlt) hne hf
  obtain ⟨hys, hzs, hyz⟩ := pairwise_append.mp h.runs.sorted
  -- the comparison tells on which side of the new run another one is
  have hs : ∀ e ∈ ys ++ zs, (mcbMappingCompare run e = .gt → e.RunEndVbn ≤ run.RunStartVbn) ∧
      (mcbMappingCompare run e = .lt → run.RunEndVbn ≤ e.RunStartVbn) := by
    intro e he
    have h2 := hfr e he
    simp only [mcbMappingCompare]
    grind
  refine ⟨t, ys, zs, hin, rfl, ⟨_, hl'⟩, ⟨fun e he => ?_, ?_⟩, ?_⟩
  · rcases mem_middle.mp he with rfl | he
    · exact ⟨hps, hlt⟩
    · exact h.runs.bounds e he
  · refine pairwise_append.mpr ⟨hys, pairwise_cons.mpr ⟨fun z hz => ?_, hzs⟩, fun y hy z hz => ?_⟩
    · exact (hs z (mem_append_right _ hz)).2 (hlz z hz)
    rcases mem_cons.mp hz with rfl | hz
    · exact (hs y (mem_append_left _ hy)).1 (hgt y hy)
    · exact hyz y hy z hz
  have hln := h.length_le
  have hc := h.count
  simp only [length_append, length_cons] at hln hc ⊢
  omega

/-- The allocation of `FsRtlAddBaseMcbEntry` succeeds: the node is a block of memory that no other node has. -/
def AddAllocates (mcb : BaseMcb) (vbn lbn sectorCount : Int64) (allocated : Nat) : Prop :=
  ∀ mcb₁ int mcb₂ newRun, fsRtlLookupBaseMcbEntry mcb vbn = some (mcb₁, int) →
    makeRoom mcb₁ vbn lbn sectorCount = some (mcb₂, newRun) →
    Fresh headerSize (2 ^ 32) mcb₂.Mapping.InsertOrderList allocated

/-- The block is mapped, and not to where it is to be. -/
def Conflict (xs : List LargeMcbMappingEntry) (vbn lbn : Int64) : Prop := lbnOf xs vbn ≠ -1 ∧ lbnOf xs vbn ≠ lbn

instance : Decidable (Conflict xs vbn lbn) := inferInstanceAs (Decidable (_ ∧ _))

lemma addMcb_conflict {a : Nat} (h : McbOk m xs) (hvbn : 0 ≤ vbn) (hcn : 0 < n) (hc : Conflict xs vbn lbn) :
    ∃ m', fsRtlAddBaseMcbEntry m vbn lbn n a = some (m', false) ∧ McbOk m' xs := by
  obtain ⟨m', found, hl, hok, hlb, hr⟩ := lookupMcb_spec h hvbn
  refine ⟨m', ?_, hok⟩
  rw [fsRtlAddBaseMcbEntry, if_neg (Int64.not_lt.mpr hvbn), if_neg (Int64.not_le.mpr hcn), hl, do_some]
  dsimp only
  rw [Conflict, ← hlb] at hc
  rw [if_pos ⟨hr hc.1, hc⟩]
  rfl

/-- Otherwise the runs are cut, and the new one is merged with what is left of them. -/
lemma addMcb_spec {a : Nat} (h : McbOk m xs) (hvbn : 0 ≤ vbn) (hcn : 0 < n) (hlt : vbn < vbn + n)
    (hc : ¬ Conflict xs vbn lbn) (ha : AddAllocates m vbn lbn n a) :
    ∃ m' run ys zs, fsRtlAddBaseMcbEntry m vbn lbn n a = some (m', true) ∧ McbOk m' (ys ++ run :: zs) ∧
      McbRoom (cutRuns ⟨vbn, vbn + n, lbn⟩ xs) ⟨vbn, vbn + n, lbn⟩ run (ys ++ zs) := by
  obtain ⟨m1, found, hl, hok1, hlb, -⟩ := lookupMcb_spec h hvbn
  obtain ⟨m2, run, r, hm, hok2, hr⟩ := @makeRoom_spec _ _ _ lbn _ hok1 hvbn hcn hlt
  have hrn : run.RunStartVbn < run.RunEndVbn :=
    Int64.lt_of_le_of_lt hr.bounds.2.1 (Int64.lt_of_lt_of_le hlt hr.bounds.2.2)
  obtain ⟨t, ys, zs, hin, rfl, hok⟩ := insertRun_spec hok2 hr.bounds.1 hrn hr.free (ha _ _ _ _ hl hm)
  refine ⟨_, run, ys, zs, ?_, hok, hr⟩
  rw [fsRtlAddBaseMcbEntry, if_neg (Int64.not_lt.mpr hvbn), if_neg (Int64.not_le.mpr hcn), hl, do_some]
  dsimp only
  rw [Conflict, ← hlb] at hc
  rw [if_neg fun h => hc h.2, hm, do_some]
  rw [hin]
  rfl

/-! ## What is said of the blocks -/

lemma lbnOf_added (hok : RunsOk (ys ++ run :: zs)) (hxs : RunsOk xs)
    (hr : McbRoom xs nr run (ys ++ zs)) (v : Int64) :
    lbnOf (ys ++ run :: zs) v = if run.Has v then run.lbn v else lbnOf xs v := by
  split
  · exact hok.lbnOf_mem (mem_middle.mpr (.inl rfl)) ‹_›
  rename_i hv
  by_cases hex : ∃ e ∈ xs, e.Has v
  · obtain ⟨e, he, hev⟩ := hex
    rw [hxs.lbnOf_mem he hev]
    rcases hr.covered e he with he | ⟨hs, hen⟩
    · exact hok.lbnOf_mem (mem_middle.mpr (.inr he)) hev
    · exact absurd ⟨Int64.le_trans hs hev.1, Int64.lt_of_lt_of_le hev.2 hen⟩ hv
  rw [RunsOk.lbnOf_none fun e he hev => hex ⟨e, he, hev⟩, RunsOk.lbnOf_none]
  intro e he hev
  rcases mem_middle.mp he with rfl | he
  · exact hv hev
  · exact hex ⟨e, hr.sub e he, hev⟩

/-- The `StartingLbn` of the run that a new one becomes: that of the run before it, if the logical
blocks are contiguous. -/
def firstLbn (newRun : LargeMcbMappingEntry) (xs : List LargeMcbMappingEntry) : Int64 :=
  match xs.find? fun e => e.RunStartVbn < newRun.RunStartVbn ∧ newRun.RunStartVbn ≤ e.RunEndVbn ∧
    e.StartingLbn + (newRun.RunStartVbn - e.RunStartVbn) = newRun.StartingLbn with
  | some e => e.StartingLbn
  | none => newRun.StartingLbn

/-- What of the runs makes adding a new one right.
* The new run is not merged with one that counts as a hole.
* A run around the range has no logical blocks after it.
* A run that starts in the range and ends after it has the logical blocks that it is to have, or counts as a hole.
* A run that starts after the range, and is merged, is contiguous. -/
structure Addable (newRun : LargeMcbMappingEntry) (xs : List LargeMcbMappingEntry) : Prop where
  first : firstLbn newRun xs ≠ -1
  around : ∀ e ∈ xs, e.RunStartVbn < newRun.RunStartVbn → newRun.RunEndVbn < e.RunEndVbn →
    ∀ v, newRun.RunEndVbn ≤ v → v < e.RunEndVbn → e.lbn v = -1
  inside : ∀ e ∈ xs, newRun.RunStartVbn ≤ e.RunStartVbn → e.RunStartVbn < newRun.RunEndVbn →
    newRun.RunEndVbn < e.RunEndVbn →
    firstLbn newRun xs ≤ e.StartingLbn ∧ e.StartingLbn ≠ -1 ∧
        e.StartingLbn = newRun.StartingLbn + (e.RunStartVbn - newRun.RunStartVbn) ∨
      e.StartingLbn < firstLbn newRun xs ∧ e.StartingLbn = -1
  next : ∀ e ∈ xs, e.RunStartVbn = newRun.RunEndVbn → firstLbn newRun xs ≤ e.StartingLbn →
    e.StartingLbn ≠ -1 ∧ e.StartingLbn = newRun.StartingLbn + (newRun.RunEndVbn - newRun.RunStartVbn)

section

variable (h : RunsOk xs) (hlt : nr.RunStartVbn < nr.RunEndVbn) (hm : Merged (cutRuns nr xs) nr run)

include h hlt

omit h in
lemma cutRun_eq_some (hb : e.RunStartVbn < e.RunEndVbn) : cutRun nr e = some f ↔
    e.RunStartVbn < nr.RunStartVbn ∧ nr.RunStartVbn ≤ e.RunEndVbn ∧ f = { e with RunEndVbn := nr.RunStartVbn } ∨
    nr.RunStartVbn ≤ e.RunStartVbn ∧ e.RunStartVbn ≤ nr.RunEndVbn ∧ nr.RunEndVbn < e.RunEndVbn ∧
      f = { e with RunStartVbn := nr.RunEndVbn } ∨
    (e.RunEndVbn < nr.RunStartVbn ∨ nr.RunEndVbn < e.RunStartVbn) ∧ f = e := by
  have hi := intersects_iff hlt hb
  rw [cutRun]
  obtain ⟨es, ee, el⟩ := e
  split_ifs <;> grind

lemma mem_cutRuns_lower : f ∈ cutRuns nr xs ∧ f.RunEndVbn = nr.RunStartVbn ↔
    ∃ e ∈ xs, e.RunStartVbn < nr.RunStartVbn ∧ nr.RunStartVbn ≤ e.RunEndVbn ∧
      f = { e with RunEndVbn := nr.RunStartVbn } := by
  simp only [cutRuns, mem_filterMap]
  constructor
  · rintro ⟨⟨e, he, hc⟩, hf⟩
    have hb := h.bounds e he
    rw [cutRun_eq_some hlt hb.2] at hc
    exact ⟨e, he, by grind⟩
  · rintro ⟨e, he, hs⟩
    exact ⟨⟨e, he, (cutRun_eq_some hlt (h.bounds e he).2).mpr (.inl hs)⟩, by rw [hs.2.2]⟩

lemma mem_cutRuns_upper : f ∈ cutRuns nr xs ∧ f.RunStartVbn = nr.RunEndVbn ↔
    ∃ e ∈ xs, nr.RunStartVbn ≤ e.RunStartVbn ∧ e.RunStartVbn ≤ nr.RunEndVbn ∧ nr.RunEndVbn < e.RunEndVbn ∧
      f = { e with RunStartVbn := nr.RunEndVbn } := by
  simp only [cutRuns, mem_filterMap]
  constructor
  · rintro ⟨⟨e, he, hc⟩, hf⟩
    have hb := h.bounds e he
    rw [cutRun_eq_some hlt hb.2] at hc
    exact ⟨e, he, by grind⟩
  · rintro ⟨e, he, hs⟩
    exact ⟨⟨e, he, (cutRun_eq_some hlt (h.bounds e he).2).mpr (.inr (.inl hs))⟩, by rw [hs.2.2.2]⟩

include hm

lemma firstLbn_eq : run.StartingLbn = firstLbn nr xs := by
  rw [firstLbn]
  cases hf : xs.find? fun e => e.RunStartVbn < nr.RunStartVbn ∧ nr.RunStartVbn ≤ e.RunEndVbn ∧
      e.StartingLbn + (nr.RunStartVbn - e.RunStartVbn) = nr.StartingLbn with
  | none =>
    rcases hm.lower with ⟨-, hl, -⟩ | ⟨low, hlw, hen, hl, -, -⟩
    · exact hl
    obtain ⟨e, he, hs, hle, rfl⟩ := (mem_cutRuns_lower h hlt).mp ⟨hlw, hen⟩
    have := find?_eq_none.mp hf e he
    simp [hs, hle, hl] at this
  | some e =>
    have he := mem_of_find?_eq_some hf
    have hp := find?_some hf
    simp only [decide_eq_true_eq] at hp
    obtain ⟨hs, hle, hl⟩ := hp
    have hc := (mem_cutRuns_lower h hlt).mpr ⟨e, he, hs, hle, rfl⟩
    rcases hm.lower with ⟨-, -, hne⟩ | ⟨low, hlw, hen, -, -, hsm⟩
    · exact absurd hl (hne _ hc.1 rfl)
    obtain ⟨e', he', hs', hle', rfl⟩ := (mem_cutRuns_lower h hlt).mp ⟨hlw, hen⟩
    have heq : e' = e := by
      by_contra hne
      have := h.pair he' he hne
      grind
    rw [hsm, heq]

/-- The new run reaches to `e`, if that is what is left after the range and is merged. -/
lemma merged_end (he : e ∈ cutRuns nr xs) (hs : e.RunStartVbn = nr.RunEndVbn) :
    run.RunEndVbn = if run.StartingLbn ≤ e.StartingLbn then e.RunEndVbn else nr.RunEndVbn := by
  have hok := cutRuns_ok h hlt
  rcases hm.upper with ⟨hen, hne⟩ | ⟨high, hh, hs', hl, hen⟩
  · rw [if_neg (hne e he hs), hen]
  have heq : high = e := by
    by_contra hne
    have hp := hok.pair hh he hne
    have h1 := hok.bounds high hh
    have h2 := hok.bounds e he
    grind
  subst heq
  rw [if_pos hl, hen]

omit h hlt in
lemma merged_end_none (hno : ∀ e ∈ cutRuns nr xs, e.RunStartVbn ≠ nr.RunEndVbn) :
    run.RunEndVbn = nr.RunEndVbn := by
  rcases hm.upper with ⟨he, -⟩ | ⟨high, hh, hs, -, -⟩
  · exact he
  · exact absurd hs (hno high hh)

omit h hlt in
lemma merged_lbn (hf : run.StartingLbn ≠ -1) (v : Int64) :
    run.lbn v = nr.StartingLbn + (v - nr.RunStartVbn) := by
  rw [lbn, if_neg hf]
  rcases hm.lower with ⟨hs, hl, -⟩ | ⟨low, -, he, hl, hs, hl'⟩
  · rw [hs, hl]
  · rw [hs, hl', ← hl, ← he]
    grind

lemma added_before (hv : v < nr.RunStartVbn) :
    (if run.Has v then run.lbn v else lbnOf (cutRuns nr xs) v) = lbnOf xs v := by
  rw [← lbnOf_cutRuns_before h hlt hv]
  split
  · rename_i hh
    rcases hm.lower with ⟨hs, -, -⟩ | ⟨low, hlw, he, -, hs, hl⟩
    · exact absurd hh.1 (Int64.not_le.mpr (hs ▸ hv))
    · rw [(cutRuns_ok h hlt).lbnOf_mem hlw ⟨hs ▸ hh.1, he ▸ hv⟩, lbn, lbn, hs, hl]
  · rfl

lemma added_around (he : e ∈ xs) (hv : e.Has v) (hle : nr.RunEndVbn ≤ v)
    (hs : e.RunStartVbn < nr.RunStartVbn) : (if run.Has v then run.lbn v else lbnOf (cutRuns nr xs) v) = -1 := by
  have hen : run.RunEndVbn = nr.RunEndVbn := by
    refine merged_end_none hm fun f hf hf' => ?_
    obtain ⟨e', he', hs', hle', hen', -⟩ := (mem_cutRuns_upper h hlt).mp ⟨hf, hf'⟩
    have hsm : e' = e := by
      refine h.unique he' he (v := nr.RunEndVbn) ⟨hle', hen'⟩ ⟨?_, Int64.lt_of_le_of_lt hle hv.2⟩
      exact Int64.le_of_lt (Int64.lt_trans hs hlt)
    rw [hsm] at hs'
    exact absurd hs (Int64.not_lt.mpr hs')
  rw [if_neg fun hh => absurd hh.2 (Int64.not_lt.mpr (hen ▸ hle)), lbnOf_cutRuns h hlt he hv,
    cutRun_middle hlt hv (Int64.lt_trans hs hlt) hle hs]

lemma added_next (hb : run.RunStartVbn ≤ nr.RunStartVbn) (he : e ∈ xs) (hv : e.Has v)
    (hle : nr.RunEndVbn ≤ v) (hs : nr.RunStartVbn ≤ e.RunStartVbn) (hen : e.RunStartVbn ≤ nr.RunEndVbn) :
    (if run.Has v then run.lbn v else lbnOf (cutRuns nr xs) v) =
      if run.StartingLbn ≤ e.StartingLbn then run.lbn v else { e with RunStartVbn := nr.RunEndVbn }.lbn v := by
  obtain ⟨hc, -⟩ := (mem_cutRuns_upper h hlt).mpr ⟨e, he, hs, hen, Int64.lt_of_le_of_lt hle hv.2, rfl⟩
  have hr := merged_end h hlt hm hc rfl
  by_cases hl : run.StartingLbn ≤ e.StartingLbn
  · rw [if_pos hl] at hr
    have hh : run.Has v := ⟨by grind, hr ▸ hv.2⟩
    rw [if_pos hh, if_pos hl]
  · rw [if_neg hl] at hr
    rw [if_neg fun hh => absurd hh.2 (Int64.not_lt.mpr (hr ▸ hle)), if_neg hl,
      (cutRuns_ok h hlt).lbnOf_mem hc ⟨hle, hv.2⟩]

lemma merged_not_has (hle : nr.RunEndVbn ≤ v)
    (hno : ∀ e ∈ xs, e.RunStartVbn ≤ nr.RunEndVbn → ¬ e.Has v) : ¬ run.Has v := by
  intro hh
  rcases hm.upper with ⟨hen, -⟩ | ⟨high, hhi, hs, -, hen⟩
  · exact absurd hh.2 (Int64.not_lt.mpr (hen ▸ hle))
  obtain ⟨e, he, -, hes, -, rfl⟩ := (mem_cutRuns_upper h hlt).mp ⟨hhi, hs⟩
  exact hno e he hes ⟨Int64.le_trans hes hle, hen ▸ hh.2⟩

lemma added_later (he : e ∈ xs) (hv : e.Has v) (hs : nr.RunEndVbn < e.RunStartVbn) :
    (if run.Has v then run.lbn v else lbnOf (cutRuns nr xs) v) = e.lbn v := by
  have hn := merged_not_has h hlt hm (Int64.le_trans (Int64.le_of_lt hs) hv.1) fun e' he' hle hv' =>
    absurd hle (Int64.not_le.mpr (h.unique he he' hv hv' ▸ hs))
  rw [if_neg hn, lbnOf_cutRuns h hlt he hv, cutRun_after hlt hv (Int64.le_of_lt hs)]

lemma added_none (hle : nr.RunEndVbn ≤ v) (hno : ∀ e ∈ xs, ¬ e.Has v) :
    (if run.Has v then run.lbn v else lbnOf (cutRuns nr xs) v) = -1 := by
  have hn := merged_not_has h hlt hm hle fun e he _ => hno e he
  rw [if_neg hn, lbnOf_cutRuns_none h hlt hno]

/-- After the new run is added, the blocks of its range are mapped as it says, and all others as
before, exactly if the runs are so. -/
lemma added_iff (hps : 0 ≤ nr.RunStartVbn) (hlb : 0 ≤ nr.StartingLbn)
    (hb : run.RunStartVbn ≤ nr.RunStartVbn ∧ nr.RunEndVbn ≤ run.RunEndVbn) :
    ((∀ v, nr.Has v → (if run.Has v then run.lbn v else lbnOf (cutRuns nr xs) v) = nr.StartingLbn +
      (v - nr.RunStartVbn)) ∧
      ∀ v, 0 ≤ v → ¬ nr.Has v → (if run.Has v then run.lbn v else lbnOf (cutRuns nr xs) v) = lbnOf xs v) ↔
    Addable nr xs := by
  have hf := firstLbn_eq h hlt hm
  have ho {v : Int64} (hle : nr.RunEndVbn ≤ v) : ¬ nr.Has v := fun hin => Int64.not_le.mpr hin.2 hle
  have hen : 0 ≤ nr.RunEndVbn := by grind
  constructor
  · rintro ⟨hin, hsm⟩
    have hne : run.StartingLbn ≠ -1 := by
      intro hh
      have hv := hin nr.RunStartVbn ⟨Int64.le_refl _, hlt⟩
      rw [if_pos ⟨hb.1, Int64.lt_of_lt_of_le hlt hb.2⟩, lbn, if_pos hh] at hv
      grind
    have hr := merged_lbn hm hne
    refine ⟨hf ▸ hne, fun e he hs ha v hle hv => ?_, fun e he hs ha hen' => ?_, fun e he hs hle => ?_⟩
    · have hhs : e.Has v := ⟨by grind, hv⟩
      rw [← h.lbnOf_mem he hhs, ← hsm v (Int64.le_trans hen hle) (ho hle), added_around h hlt hm he hhs hle hs]
    · have hhs : e.Has nr.RunEndVbn := ⟨Int64.le_of_lt ha, hen'⟩
      have hv := hsm nr.RunEndVbn hen (ho (Int64.le_refl _))
      rw [h.lbnOf_mem he hhs, added_next h hlt hm hb.1 he hhs (Int64.le_refl _) hs (Int64.le_of_lt ha), hr] at hv
      simp only [lbn] at hv
      rw [← hf]
      grind
    have hlt' : e.RunStartVbn < e.RunEndVbn := (h.bounds e he).2
    have hhs : e.Has nr.RunEndVbn := ⟨by grind, by grind⟩
    have hv := hsm nr.RunEndVbn hen (ho (Int64.le_refl _))
    rw [← hf] at hle
    rw [h.lbnOf_mem he hhs, added_next h hlt hm hb.1 he hhs (Int64.le_refl _) (by grind) (by grind),
      hr, if_pos hle] at hv
    simp only [lbn] at hv
    grind
  · intro had
    have hne : run.StartingLbn ≠ -1 := hf ▸ had.first
    have hr := merged_lbn hm hne
    refine ⟨fun v hv => ?_, fun v hnn hnt => ?_⟩
    · rw [if_pos ⟨Int64.le_trans hb.1 hv.1, Int64.lt_of_lt_of_le hv.2 hb.2⟩, hr]
    by_cases hbf : v < nr.RunStartVbn
    · exact added_before h hlt hm hbf
    have hle : nr.RunEndVbn ≤ v := Int64.not_lt.mp fun hlt => hnt ⟨Int64.not_lt.mp hbf, hlt⟩
    by_cases hex : ∃ e ∈ xs, e.Has v
    swap
    · have hno : ∀ e ∈ xs, ¬ e.Has v := fun e he hv => hex ⟨e, he, hv⟩
      rw [added_none h hlt hm hle hno, RunsOk.lbnOf_none hno]
    obtain ⟨e, he, hv⟩ := hex
    have ha : nr.RunEndVbn < e.RunEndVbn := Int64.lt_of_le_of_lt hle hv.2
    rw [h.lbnOf_mem he hv]
    by_cases hs : e.RunStartVbn < nr.RunStartVbn
    · rw [added_around h hlt hm he hv hle hs, had.around e he hs ha v hle hv.2]
    by_cases hl : nr.RunEndVbn < e.RunStartVbn
    · exact added_later h hlt hm he hv hl
    rw [added_next h hlt hm hb.1 he hv hle (Int64.not_lt.mp hs) (Int64.not_lt.mp hl), hr, hf]
    have hid := had.inside e he (Int64.not_lt.mp hs)
    have hn := had.next e he
    simp only [lbn]
    grind

end

end FreeNT.FsRtl
