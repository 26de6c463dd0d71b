import FreeNT.Rtl.BitmapSearch

/-!
# The longest clear runs (`lib/rtl/bitmap.c`)

`RtlFindClearRuns` fills the array with the first runs and keeps the index of a shortest one. Then
it compares each later run with that entry. It does not look for the new shortest entry after a
replacement, so that all replacements are made in one place: the array ends with the first
runs, and the longest of the later ones in place of the shortest (`rtlFindClearRuns_eq`). These are the longest
runs just where one replacement is enough (`longestRuns_iff`).
-/

namespace FreeNT.Rtl

open List Nat

structure RtlBitmapRun where
  StartingIndex : Nat
  NumberOfBits : Nat
  deriving DecidableEq, Repr

/-- `RtlFindNextForwardRunClear`: what it returns, and `*StartingRunIndex`. -/
def rtlFindNextForwardRunClear (bm : RtlBitmap) (fromIndex : Nat) : RtlBitmapRun :=
  if bm.SizeOfBitMap ≤ fromIndex then ⟨fromIndex, 0⟩
  else
    let start := fromIndex + rtlpGetLengthOfRunSet bm fromIndex MAXINDEX
    ⟨start, rtlpGetLengthOfRunClear bm start MAXINDEX⟩

/-- `RunArray[i]`. -/
def entryAt (runs : List RtlBitmapRun) (i : Nat) : RtlBitmapRun := runs.getD i ⟨0, 0⟩

/-- The first loop, with `left` entries to fill: the entries, `SmallestRun` and `FromIndex`. -/
def fillLoop (bm : RtlBitmap) : Nat → List RtlBitmapRun → Nat → Nat → List RtlBitmapRun × Nat × Nat
  | 0, runs, smallest, fromIndex => (runs, smallest, fromIndex)
  | left + 1, runs, smallest, fromIndex =>
    let r := rtlFindNextForwardRunClear bm fromIndex
    if r.NumberOfBits = 0 then (runs, smallest, fromIndex)
    else
      let smallest := if r.NumberOfBits < (entryAt (runs ++ [r]) smallest).NumberOfBits then runs.length else smallest
      fillLoop bm left (runs ++ [r]) smallest (r.StartingIndex + r.NumberOfBits)

/-- The loop over all runs for the new smallest one: `NumberOfBits` is that of the run just stored. -/
def smallestLoop (runs : List RtlBitmapRun) (numberOfBits smallest : Nat) : Nat :=
  (List.range runs.length).foldl (fun smallest run =>
    if numberOfBits < (entryAt runs smallest).NumberOfBits then run else smallest) smallest

/-- The second loop; `FromIndex` is advanced by the length of the run, not to its end. -/
def replaceLoop (bm : RtlBitmap) : Nat → List RtlBitmapRun → Nat → Nat → Option (List RtlBitmapRun)
  | 0, _, _, _ => none
  | fuel + 1, runs, smallest, fromIndex =>
    let r := rtlFindNextForwardRunClear bm fromIndex
    if r.NumberOfBits = 0 then some runs
    else if (entryAt runs smallest).NumberOfBits < r.NumberOfBits then
      let runs := runs.set smallest r
      replaceLoop bm fuel runs (smallestLoop runs r.NumberOfBits smallest) ((fromIndex + r.NumberOfBits) % 2 ^ 32)
    else replaceLoop bm fuel runs smallest ((fromIndex + r.NumberOfBits) % 2 ^ 32)

/-- `RtlFindClearRuns`: the entries of `RunArray` up to the number that it returns. -/
def rtlFindClearRuns (bm : RtlBitmap) (sizeOfRunArray : Nat) (locateLongestRuns : Bool) :
    Option (List RtlBitmapRun) :=
  let (runs, smallest, fromIndex) := fillLoop bm sizeOfRunArray [] 0 0
  if runs.length < sizeOfRunArray ∨ ¬ locateLongestRuns then some runs
  else replaceLoop bm (bm.SizeOfBitMap + 1) runs smallest fromIndex

/-! ## The runs of a bitmap -/

/-- A run of wanted bits that cannot be extended. -/
structure MaximalRun (want : Nat → Bool) (size : Nat) (r : RtlBitmapRun) : Prop where
  run : IsRun want size r.NumberOfBits r.StartingIndex
  pos : 0 < r.NumberOfBits
  before : r.StartingIndex = 0 ∨ want (r.StartingIndex - 1) = false
  behind : r.StartingIndex + r.NumberOfBits = size ∨ want (r.StartingIndex + r.NumberOfBits) = false

/-- A maximal run starts here. -/
def isStart (want : Nat → Bool) (i : Nat) : Bool := want i && (i == 0 || !want (i - 1))

/-- The wanted bits from a bit on. -/
def runAt (want : Nat → Bool) (size i : Nat) : RtlBitmapRun :=
    ⟨i, ((List.range' i (size - i)).takeWhile want).length⟩

/-- The maximal runs from a bit on, in order. -/
def runsFrom (want : Nat → Bool) (size i : Nat) : List RtlBitmapRun :=
  ((List.range' i (size - i)).filter (isStart want)).map (runAt want size)

variable {k : Nat}

section runs

variable {w : Nat → Bool} {z i j n : Nat}

lemma runAt_eq (hrn : IsRun w z n i) (he : i + n = z ∨ w (i + n) = false) : runAt w z i = ⟨i, n⟩ := by
  have hle := hrn.le
  obtain ⟨k, rfl⟩ : ∃ k, z = i + n + k := ⟨z - (i + n), by omega⟩
  have hs : range' i (i + n + k - i) = range' i n ++ range' (i + n) k := by
    rw [range'_append_1]
    congr 1
    omega
  have ha : ∀ j ∈ range' i n, w j = true := fun j hj => by
    rw [mem_range'_1] at hj
    exact hrn.all j hj.1 hj.2
  have hr : (range' (i + n) k).takeWhile w = [] := by
    cases k with
    | zero => rfl
    | succ k =>
      have hn : w (i + n) = false := he.resolve_left (by omega)
      rw [range'_succ, takeWhile_cons_of_neg (by simp [hn])]
  rw [runAt, hs, takeWhile_append_of_pos ha, hr, append_nil, length_range']

lemma runsFrom_skip (hij : i ≤ j) (hj : j ≤ z) (hno : ∀ k, i ≤ k → k < j → isStart w k = false) :
    runsFrom w z i = runsFrom w z j := by
  have hs : range' i (z - i) = range' i (j - i) ++ range' j (z - j) := by
    rw [show range' j (z - j) = range' (i + (j - i)) (z - j) by congr 1; omega, range'_append_1]
    congr 1
    omega
  have hn : (range' i (j - i)).filter (isStart w) = [] := by
    rw [filter_eq_nil_iff]
    intro k hk
    rw [mem_range'_1] at hk
    rw [hno k hk.1 (by omega)]
    exact Bool.false_ne_true
  rw [runsFrom, hs, filter_append, hn, nil_append]
  rfl

lemma runsFrom_start (hi : i < z) (hs : isStart w i) : runsFrom w z i = runAt w z i :: runsFrom w z (i + 1) := by
  rw [runsFrom, show z - i = z - (i + 1) + 1 by omega, range'_succ, filter_cons_of_pos hs]
  rfl

lemma not_isStart_of_run (hr : IsRun w z n i) (hk : i < k) (hkn : k < i + n) : isStart w k = false := by
  have hne : (k == 0) = false := beq_false_of_ne (by omega)
  rw [isStart, hr.all (k - 1) (by omega) (by omega), hne]
  simp

lemma runsFrom_run (hr : IsRun w z n i) (hp : 0 < n) (he : i + n = z ∨ w (i + n) = false)
    (hs : isStart w i) : runsFrom w z i = ⟨i, n⟩ :: runsFrom w z (i + n) := by
  have hle := hr.le
  rw [runsFrom_start (by omega) hs, runAt_eq hr he]
  exact congrArg _ (runsFrom_skip (by omega) hle fun k h1 h2 => not_isStart_of_run hr (by omega) h2)

lemma nodup_runsFrom : (runsFrom w z i).Nodup := by
  have hr : (range' i (z - i)).Nodup := nodup_range' ..
  refine Pairwise.map _ ?_ (hr.filter _)
  intro x y hne heq
  exact hne (congrArg RtlBitmapRun.StartingIndex heq)

end runs

/-! ## The two loops -/

variable {r : RtlBitmapRun}

section loops

variable (bm : RtlBitmap)

/-- The maximal clear runs from a bit on, in order. -/
def RtlBitmap.clearRuns (fromIndex : Nat) : List RtlBitmapRun := runsFrom bm.clearBit bm.SizeOfBitMap fromIndex

/-- A run of clear bits that ends at a set bit or with the bitmap. -/
structure ClearRun (start n : Nat) : Prop where
  run : IsRun bm.clearBit bm.SizeOfBitMap n start
  stops : start + n = bm.SizeOfBitMap ∨ bm.clearBit (start + n) = false

/-- The run returned from a bit on, with no clear bit before it. -/
structure NextRun (fromIndex : Nat) (r : RtlBitmapRun) : Prop where
  clear : ClearRun bm r.StartingIndex r.NumberOfBits
  pos : 0 < r.NumberOfBits
  le : fromIndex ≤ r.StartingIndex
  skipped : ∀ j, fromIndex ≤ j → j < r.StartingIndex → bm.clearBit j = false

variable {bm}

lemma not_isStart_of_set {w : Nat → Bool} {j : Nat} (h : w j = false) : isStart w j = false := by
  rw [isStart, h, Bool.false_and]

variable {s n : Nat}

lemma ClearRun.not_start (h : ClearRun bm s n) : s + n < bm.SizeOfBitMap → bm.clearBit (s + n) → False := by
  intro hlt hc
  rcases h.stops with hsize | hs
  · omega
  · rw [hs] at hc
    cases hc

variable {fromIndex : Nat}

lemma NextRun.isStart_or (h : NextRun bm fromIndex r) :
    isStart bm.clearBit r.StartingIndex ∨ r.StartingIndex = fromIndex := by
  by_cases heq : r.StartingIndex = fromIndex
  · exact .inr heq
  have hle := h.le
  have hc := h.clear.run.all r.StartingIndex (Nat.le_refl _) (Nat.lt_add_of_pos_right h.pos)
  have hs := h.skipped (r.StartingIndex - 1) (by omega) (by omega)
  exact .inl (by rw [isStart, hc, hs]; simp)

lemma NextRun.clearRuns_eq (h : NextRun bm fromIndex r) (hs : isStart bm.clearBit r.StartingIndex) :
    bm.clearRuns fromIndex = r :: bm.clearRuns (r.StartingIndex + r.NumberOfBits) := by
  have hle := h.clear.run.le
  rw [RtlBitmap.clearRuns, runsFrom_skip h.le (by omega) fun k h1 h2 => not_isStart_of_set (h.skipped k h1 h2),
    runsFrom_run h.clear.run h.pos h.clear.stops hs]
  rfl

variable (hsize : bm.SizeOfBitMap + 31 < 2 ^ 32) (hfr : fromIndex ≤ bm.SizeOfBitMap)
include hsize

lemma clearRun_of_lt {c : Nat} (hc : c < bm.SizeOfBitMap) :
    ClearRun bm c (rtlpGetLengthOfRunClear bm c MAXINDEX) := by
  have h := scans_clear bm MAXINDEX hsize
  have hle := h.run_le c hc
  refine ⟨⟨by omega, h.run_all c hc⟩, ?_⟩
  rcases h.run_end c hc with he | he
  · rw [min_eq_right (by rw [MAXINDEX]; omega)] at he
    exact .inl (by omega)
  · exact .inr he

include hfr

lemma next_cases (hr : rtlFindNextForwardRunClear bm fromIndex = r) :
    r.NumberOfBits = 0 ∧ bm.clearRuns fromIndex = [] ∨ NextRun bm fromIndex r := by
  have h := scans_clear bm MAXINDEX hsize
  rw [rtlFindNextForwardRunClear] at hr
  split at hr
  next hle =>
    rw [← hr]
    exact .inl ⟨rfl, by rw [RtlBitmap.clearRuns, runsFrom, Nat.sub_eq_zero_of_le hle]; rfl⟩
  next hlt =>
    have hc : fromIndex < bm.SizeOfBitMap := by omega
    have hs := h.skip_le fromIndex hc
    have hn := h.skip_not fromIndex hc
    subst hr
    by_cases he : fromIndex + rtlpGetLengthOfRunSet bm fromIndex MAXINDEX = bm.SizeOfBitMap
    · refine .inl ⟨?_, ?_⟩
      · rw [he]
        exact h.run_size
      rw [RtlBitmap.clearRuns, runsFrom_skip hfr (le_refl _) fun k h1 h2 =>
        not_isStart_of_set (hn k h1 (by omega)),
        runsFrom, Nat.sub_self]
      rfl
    have hcl := (h.skip_end fromIndex hc).resolve_left he
    have hrn := clearRun_of_lt hsize (c := fromIndex + rtlpGetLengthOfRunSet bm fromIndex MAXINDEX) (by omega)
    refine .inr ⟨hrn, ?_, le_add_right _ _, hn⟩
    refine pos_of_ne_zero fun h0 => ?_
    rw [show rtlpGetLengthOfRunClear bm (fromIndex + rtlpGetLengthOfRunSet bm fromIndex MAXINDEX)
      MAXINDEX = 0 from h0] at hrn
    exact hrn.not_start (by omega) hcl

omit hsize hfr

/-- The bit is not inside a run. -/
def Between (bm : RtlBitmap) (fromIndex : Nat) : Prop :=
  fromIndex < bm.SizeOfBitMap → bm.clearBit fromIndex = true → isStart bm.clearBit fromIndex = true

lemma ClearRun.between (h : ClearRun bm s n) : Between bm (s + n) := fun hlt hc => (h.not_start hlt hc).elim

/-- The index of a shortest run, `0` if there is none. -/
structure Shortest (runs : List RtlBitmapRun) (m : Nat) : Prop where
  lt : m < max runs.length 1
  le : ∀ r ∈ runs, (entryAt runs m).NumberOfBits ≤ r.NumberOfBits

variable {m : Nat}

lemma entryAt_append {runs : List RtlBitmapRun} (h : m < runs.length) (r : RtlBitmapRun) :
    entryAt (runs ++ [r]) m = entryAt runs m := by
  simp [entryAt, getElem?_append_left h]

lemma entryAt_length (runs : List RtlBitmapRun) (r : RtlBitmapRun) : entryAt (runs ++ [r]) runs.length = r := by
  simp [entryAt]

lemma Shortest.append {runs : List RtlBitmapRun} (h : Shortest runs m) (r : RtlBitmapRun) :
    Shortest (runs ++ [r]) (if r.NumberOfBits <
      (entryAt (runs ++ [r]) m).NumberOfBits then runs.length else m) := by
  have hlt := h.lt
  have hln : (runs ++ [r]).length = runs.length + 1 := length_append
  have ho : ∀ r' ∈ runs, (entryAt (runs ++ [r]) m).NumberOfBits ≤ r'.NumberOfBits := by
    intro r' hr'
    have hp := length_pos_of_mem hr'
    rw [entryAt_append (by omega)]
    exact h.le r' hr'
  split
  next hl =>
    refine ⟨by omega, fun r' hr' => ?_⟩
    rw [entryAt_length]
    rcases mem_append.1 hr' with hme | hme
    · have := ho r' hme
      omega
    · rw [mem_singleton.1 hme]
  next hl =>
    refine ⟨by omega, fun r' hr' => ?_⟩
    rcases mem_append.1 hr' with hme | hme
    · exact ho r' hme
    · rw [mem_singleton.1 hme]
      omega

include hsize

lemma fillLoop_spec (left : Nat) : ∀ (runs : List RtlBitmapRun) (sm fromIndex : Nat), fromIndex ≤ bm.SizeOfBitMap →
    Between bm fromIndex → Shortest runs sm → ∃ sm' fromIndex',
      fillLoop bm left runs sm fromIndex = (runs ++ (bm.clearRuns fromIndex).take left, sm', fromIndex') ∧
        fromIndex' ≤ bm.SizeOfBitMap ∧ Between bm fromIndex' ∧
        bm.clearRuns fromIndex' = (bm.clearRuns fromIndex).drop left ∧
        Shortest (runs ++ (bm.clearRuns fromIndex).take left) sm' := by
  induction left with
  | zero =>
    intro runs sm fromIndex hfr hb hs
    rw [take_zero, append_nil]
    exact ⟨sm, fromIndex, rfl, hfr, hb, rfl, hs⟩
  | succ left ih =>
    intro runs sm fromIndex hfr hb hs
    rw [fillLoop]
    rcases next_cases hsize hfr rfl with ⟨hz, hnl⟩ | hn
    · rw [if_pos hz, hnl, take_nil, append_nil, drop_nil]
      exact ⟨sm, fromIndex, rfl, hfr, hb, hnl, hs⟩
    have hst : isStart bm.clearBit (rtlFindNextForwardRunClear bm fromIndex).StartingIndex := by
      rcases hn.isStart_or with hst | heq
      · exact hst
      have hle := hn.clear.run.le
      have hp := hn.pos
      rw [heq] at hle ⊢
      exact hb (by omega) (hn.clear.run.all fromIndex (by omega) (by omega))
    have heq := hn.clearRuns_eq hst
    obtain ⟨sm', fromIndex', hf, hr⟩ := ih (runs ++ [rtlFindNextForwardRunClear bm fromIndex]) _ _
      hn.clear.run.le hn.clear.between (hs.append _)
    refine ⟨sm', fromIndex', ?_, ?_⟩
    · rw [if_neg (ne_of_gt hn.pos), hf, heq, take_succ_cons, append_assoc]
      rfl
    · rw [heq, take_succ_cons, drop_succ_cons, ← singleton_append, ← append_assoc]
      exact hr

omit hsize

/-- The longer of two runs, the first if they are equally long. -/
def longer (r r' : RtlBitmapRun) : RtlBitmapRun := if r.NumberOfBits < r'.NumberOfBits then r' else r

lemma le_longer (r r' : RtlBitmapRun) :
    r.NumberOfBits ≤ (longer r r').NumberOfBits ∧ r'.NumberOfBits ≤ (longer r r').NumberOfBits := by
  rw [longer]
  split <;> omega

lemma longer_longer (r r' : RtlBitmapRun) : longer (longer r r') r' = longer r r' := by
  rw [longer, if_neg (not_lt.2 (le_longer r r').2)]

section entry

variable {runs : List RtlBitmapRun} {m : Nat} (hm : m < runs.length)
include hm

lemma entryAt_set (r : RtlBitmapRun) : entryAt (runs.set m r) m = r := by simp [entryAt, hm]

lemma entryAt_eq : entryAt runs m = runs[m] := by
  rw [entryAt, getD_eq_getElem?_getD, getElem?_eq_getElem hm, Option.getD_some]

lemma set_entryAt : runs.set m (entryAt runs m) = runs := by rw [entryAt_eq hm, set_getElem_self]

lemma exists_set_eq (r : RtlBitmapRun) :
    ∃ pre post, runs = pre ++ entryAt runs m :: post ∧ runs.set m r = pre ++ r :: post := by
  obtain ⟨pre, post, hs, -, hst⟩ : ∃ pre post, runs = pre ++ runs[m] :: post ∧ pre.length = m ∧
      runs.set m r = pre ++ r :: post := exists_of_set hm
  rw [← entryAt_eq hm] at hs
  exact ⟨pre, post, hs, hst⟩

/-- No entry is shorter than the one just stored in the place of the smallest run, as that is the
entry the loop compares it with. -/
lemma smallestLoop_set (r : RtlBitmapRun) : smallestLoop (runs.set m r) r.NumberOfBits m = m := by
  rw [smallestLoop]
  induction range (runs.set m r).length with
  | nil => rfl
  | cons run rs ih => rw [foldl_cons, entryAt_set hm, if_neg (lt_irrefl _), ih]

lemma replaceLoop_succ {f : Nat} (hr : rtlFindNextForwardRunClear bm fromIndex = r)
    (hp : 0 < r.NumberOfBits) : replaceLoop bm (f + 1) runs m fromIndex =
      replaceLoop bm f (runs.set m (longer (entryAt runs m) r)) m ((fromIndex + r.NumberOfBits) % 2 ^ 32) := by
  rw [replaceLoop, hr, if_neg (ne_of_gt hp), longer]
  by_cases hl : (entryAt runs m).NumberOfBits < r.NumberOfBits
  · rw [if_pos hl, if_pos hl]
    dsimp only
    rw [smallestLoop_set hm]
  · rw [if_neg hl, if_neg hl, set_entryAt hm]

end entry

lemma clearRuns_inside (h : ClearRun bm s n) (hk : s < k) (hkn : k ≤ s + n) :
    bm.clearRuns k = bm.clearRuns (s + n) :=
  runsFrom_skip hkn h.run.le fun _ h1 h2 => not_isStart_of_run h.run (by omega) h2

include hsize

/-- The second loop leaves the longest of the later runs in the place of the smallest run. It may find the end of a
run again, or a whole run: these are not longer than the entry, which has been compared with that run. -/
lemma replaceLoop_spec (f : Nat) : ∀ (runs : List RtlBitmapRun) (fromIndex : Nat),
    bm.SizeOfBitMap - fromIndex < f → fromIndex ≤ bm.SizeOfBitMap → m < runs.length →
    (isStart bm.clearBit fromIndex ∨ ∀ n, ClearRun bm fromIndex n → n ≤ (entryAt runs m).NumberOfBits) →
    replaceLoop bm f runs m fromIndex =
      some (runs.set m ((bm.clearRuns fromIndex).foldl longer (entryAt runs m))) := by
  induction f with
  | zero => intro _ _ h; omega
  | succ f ih =>
    intro runs fromIndex hf hfr hm hp
    rcases next_cases hsize hfr rfl with ⟨hz, hnl⟩ | hnx
    · rw [replaceLoop, if_pos hz, hnl, foldl_nil, set_entryAt hm]
    rw [replaceLoop_succ hm rfl hnx.pos]
    generalize rtlFindNextForwardRunClear bm fromIndex = r at hnx
    have hps := hnx.pos
    have hle := hnx.clear.run.le
    have hge := hnx.le
    have he := le_longer (entryAt runs m) r
    rw [mod_eq_of_lt (by omega)]
    have ht := ih (runs.set m (longer (entryAt runs m) r)) (fromIndex + r.NumberOfBits) (by omega) (by omega)
      (by rw [length_set]; exact hm)
    rw [entryAt_set hm, set_set] at ht
    by_cases hs : isStart bm.clearBit r.StartingIndex
    · have hl := hnx.clearRuns_eq hs
      by_cases hb : fromIndex + r.NumberOfBits ≤ r.StartingIndex
      · -- The run is ahead of the new index, and is found again.
        have hsk : bm.clearRuns fromIndex = bm.clearRuns (fromIndex + r.NumberOfBits) :=
          runsFrom_skip (by omega) (by omega) fun k h1 h2 => not_isStart_of_set (hnx.skipped k h1 (by omega))
        rw [ht, ← hsk, hl, foldl_cons, foldl_cons, longer_longer]
        by_cases heq : fromIndex + r.NumberOfBits = r.StartingIndex
        · exact .inl (by rw [heq]; exact hs)
        refine .inr fun n hn => Nat.le_of_not_lt fun hlt => ?_
        have := hnx.skipped (fromIndex + r.NumberOfBits) (by omega) (by omega)
        rw [hn.run.all _ (Nat.le_refl _) (by omega)] at this
        cases this
      have hin := clearRuns_inside hnx.clear (k := fromIndex + r.NumberOfBits) (by omega) (by omega)
      rw [ht, hin, hl, foldl_cons]
      refine .inr fun n hn => le_trans ?_ he.2
      refine Nat.le_of_not_lt fun hlt => ?_
      have hnle := hn.run.le
      exact hnx.clear.not_start (by omega) (hn.run.all _ (by omega) (by omega))
    · -- The end of a run compared before.
      have heq := hnx.isStart_or.resolve_left hs
      have hc := hnx.clear
      rw [heq] at hc hs
      have hkp : longer (entryAt runs m) r = entryAt runs m :=
        if_neg (not_lt.2 (hp.resolve_left hs r.NumberOfBits hc))
      have hsk : bm.clearRuns fromIndex = bm.clearRuns (fromIndex + r.NumberOfBits) := by
        refine runsFrom_skip (by omega) (by omega) fun k h1 h2 => ?_
        by_cases hk : k = fromIndex
        · rw [hk]
          exact eq_false_of_ne_true hs
        · exact not_isStart_of_run hc.run (by omega) h2
      rw [ht, hsk, hkp]
      refine .inr fun n hn => Nat.le_of_not_lt fun hlt => ?_
      have hnle := hn.run.le
      exact hc.not_start (by omega) (hn.run.all _ (by omega) (by omega))

end loops

/-! ## The selection -/

/-- The runs that the routine should return: all, or as many as fit and none that is shorter than one left out. -/
structure LongestRuns (bm : RtlBitmap) (sizeOfRunArray : Nat) (result : List RtlBitmapRun) : Prop where
  nodup : result.Nodup
  maximal : ∀ r ∈ result, MaximalRun bm.clearBit bm.SizeOfBitMap r
  count : result.length = min sizeOfRunArray (bm.clearRuns 0).length
  longest : ∀ r, MaximalRun bm.clearBit bm.SizeOfBitMap r → r ∉ result → ∀ r' ∈ result,
    r.NumberOfBits ≤ r'.NumberOfBits

/-- Two of the later runs are longer than two of the first ones. -/
def TwoLonger (first later : List RtlBitmapRun) : Prop :=
  ∃ r₁ ∈ later, ∃ r₂ ∈ later, r₁ ≠ r₂ ∧ ∃ f₁ ∈ first, ∃ f₂ ∈ first, f₁ ≠ f₂ ∧
    ∀ r ∈ [r₁, r₂], ∀ f ∈ [f₁, f₂], f.NumberOfBits < r.NumberOfBits

instance (first later : List RtlBitmapRun) : Decidable (TwoLonger first later) :=
  inferInstanceAs (Decidable (∃ r₁ ∈ later, ∃ r₂ ∈ later, _))

/-- What the second loop leaves in the place of `s`. -/
structure Replacement (s b : RtlBitmapRun) (later : List RtlBitmapRun) : Prop where
  from_later : b ≠ s → b ∈ later ∧ s.NumberOfBits < b.NumberOfBits
  le : ∀ r ∈ later, r.NumberOfBits ≤ b.NumberOfBits

lemma replacement_foldl (s : RtlBitmapRun) (later : List RtlBitmapRun) :
    Replacement s (later.foldl longer s) later := by
  induction later generalizing s with
  | nil => exact ⟨fun h => (h rfl).elim, fun r hr => (not_mem_nil hr).elim⟩
  | cons r later ih =>
    have h := ih (longer s r)
    have hle : s.NumberOfBits ≤ (later.foldl longer (longer s r)).NumberOfBits ∧
        r.NumberOfBits ≤ (later.foldl longer (longer s r)).NumberOfBits := by
      have hln := le_longer s r
      by_cases heq : later.foldl longer (longer s r) = longer s r
      · rw [heq]
        exact hln
      · have := (h.from_later heq).2
        omega
    refine ⟨fun hne => ?_, forall_mem_cons.2 ⟨hle.2, h.le⟩⟩
    by_cases heq : later.foldl longer (longer s r) = longer s r
    · rw [foldl_cons, heq] at hne ⊢
      rw [longer] at hne ⊢
      split
      next hl => exact ⟨mem_cons_self, hl⟩
      next hl => rw [if_neg hl] at hne; exact (hne rfl).elim
    have hme := h.from_later heq
    have := (le_longer s r).1
    exact ⟨mem_cons_of_mem _ hme.1, by rw [foldl_cons]; omega⟩

variable {pre post later : List RtlBitmapRun} {b : RtlBitmapRun}

lemma Replacement.nodup {s : RtlBitmapRun} (hb : Replacement s b later)
    (hnd : (pre ++ s :: post ++ later).Nodup) : (pre ++ b :: post).Nodup := by
  by_cases heq : b = s
  · rw [heq]
    exact (nodup_append.1 hnd).1
  have hpr : (pre ++ s :: post ++ later).Perm (s :: (pre ++ post) ++ later) := perm_middle.append_right _
  have hp := nodup_append.1 (hpr.nodup_iff.1 hnd)
  refine perm_middle.nodup_iff.2 (nodup_cons.2 ⟨fun hme => ?_, (nodup_cons.1 hp.1).2⟩)
  exact hp.2.2 b (mem_cons_of_mem _ hme) b (hb.from_later heq).1 rfl

lemma Replacement.mem {s : RtlBitmapRun} (hb : Replacement s b later)
    (hr : r ∈ pre ++ b :: post) : r ∈ pre ++ s :: post ++ later := by
  by_cases heq : b = s
  · exact mem_append_left _ (heq ▸ hr)
  have hme := (hb.from_later heq).1
  simp only [mem_append, mem_cons] at hr ⊢
  rcases hr with h | rfl | h
  · exact .inl (.inl h)
  · exact .inr hme
  · exact .inl (.inr (.inr h))

/-- The entries are the longest runs just if one replacement is enough. -/
lemma selection_iff {s : RtlBitmapRun}
    (hnd : (pre ++ s :: post ++ later).Nodup) (hsh : ∀ r ∈ pre ++ s :: post, s.NumberOfBits ≤ r.NumberOfBits)
    (hb : Replacement s b later) :
    (∀ r ∈ pre ++ s :: post ++ later, r ∉ pre ++ b :: post → ∀ r' ∈ pre ++ b :: post,
      r.NumberOfBits ≤ r'.NumberOfBits) ↔
      ¬ TwoLonger (pre ++ s :: post) later := by
  have hp := nodup_append.1 hnd
  have hd : ∀ r ∈ pre ++ s :: post, r ∉ later := fun r hr hla => hp.2.2 r hr r hla rfl
  have hme (x r : RtlBitmapRun) : r ∈ pre ++ x :: post ↔ r = x ∨ r ∈ pre ++ post := by
    simp only [mem_append, mem_cons]
    tauto
  have hs : s ∉ pre ++ post := by
    have hc : (s :: (pre ++ post)).Nodup := perm_middle.nodup_iff.1 hp.1
    exact (nodup_cons.1 hc).1
  constructor
  · rintro hl ⟨r1, hr1, r2, hr2, hr, f1, hf1, f2, hf2, hf, hls⟩
    -- One of the two later runs is left out, and one of the two first ones is not replaced.
    obtain ⟨r, hrm, hrl, hrb⟩ : ∃ r ∈ [r1, r2], r ∈ later ∧ r ≠ b := by
      by_cases h : r1 = b
      · exact ⟨r2, by simp, hr2, fun h2 => hr (h.trans h2.symm)⟩
      · exact ⟨r1, by simp, hr1, h⟩
    obtain ⟨f, hfm, hft, hfs⟩ : ∃ f ∈ [f1, f2], f ∈ pre ++ s :: post ∧ f ≠ s := by
      by_cases h : f1 = s
      · exact ⟨f2, by simp, hf2, fun h2 => hf (h.trans h2.symm)⟩
      · exact ⟨f1, by simp, hf1, h⟩
    have hn : r ∉ pre ++ b :: post := fun h =>
      hd r ((hme s r).2 (.inr (((hme b r).1 h).resolve_left hrb))) hrl
    have hle := hl r (mem_append_right _ hrl) hn f ((hme b f).2 (.inr (((hme s f).1 hft).resolve_left hfs)))
    exact absurd (hls r hrm f hfm) (not_lt.2 hle)
  · intro ht r hr hn r' hr'
    rw [hme] at hn hr'
    rcases mem_append.1 hr with hrf | hrl
    · have hrs : r = s := ((hme s r).1 hrf).resolve_right fun h => hn (.inr h)
      have hne : b ≠ s := fun h => hn (.inl (hrs.trans h.symm))
      rw [hrs]
      rcases hr' with rfl | hr'
      · exact le_of_lt (hb.from_later hne).2
      · exact hsh r' ((hme s r').2 (.inr hr'))
    have hrb := hb.le r hrl
    rcases hr' with rfl | hr'
    · exact hrb
    have hft := (hme s r').2 (.inr hr')
    have hle := hsh r' hft
    refine Nat.le_of_not_lt fun hlt => ht ?_
    have hne : b ≠ s := fun h => by
      rw [h] at hrb
      omega
    refine ⟨b, (hb.from_later hne).1, r, hrl, fun h => hn (.inl h.symm), s, (hme s s).2 (.inl rfl), r', hft,
      fun h => hs (h ▸ hr'), ?_⟩
    simp only [forall_mem_cons, not_mem_nil, false_imp_iff, implies_true, and_true]
    omega

section result

variable {bm : RtlBitmap} (hsize : bm.SizeOfBitMap + 31 < 2 ^ 32)
include hsize

lemma mem_clearRuns : r ∈ bm.clearRuns 0 ↔ MaximalRun bm.clearBit bm.SizeOfBitMap r := by
  rw [RtlBitmap.clearRuns, runsFrom, mem_map]
  constructor
  · rintro ⟨i, hi, rfl⟩
    rw [mem_filter, mem_range'_1, isStart, Bool.and_eq_true] at hi
    obtain ⟨hrn, hc, hb⟩ := hi
    have hr := clearRun_of_lt (c := i) hsize (by omega)
    rw [runAt_eq hr.run hr.stops]
    refine ⟨hr.run, pos_of_ne_zero fun h0 => ?_, by simpa using hb, hr.stops⟩
    rw [show rtlpGetLengthOfRunClear bm i MAXINDEX = 0 from h0] at hr
    exact hr.not_start (by omega) hc
  intro h
  have hle := h.run.le
  have hp := h.pos
  refine ⟨r.StartingIndex, ?_, runAt_eq h.run h.behind⟩
  rw [mem_filter, mem_range'_1, isStart, h.run.all _ (le_refl _) (by omega)]
  refine ⟨by omega, ?_⟩
  simpa using h.before

/-- The first runs, and the longest later one in the place of a shortest of them. -/
lemma rtlFindClearRuns_eq (hk : 0 < k) : ∃ m, Shortest ((bm.clearRuns 0).take k) m ∧
    rtlFindClearRuns bm k true = some (if (bm.clearRuns 0).length < k then bm.clearRuns 0
      else ((bm.clearRuns 0).take k).set m (((bm.clearRuns 0).drop k).foldl longer (entryAt ((bm.clearRuns 0).take k) m))) := by
  have hb : Between bm 0 := fun _ hc => by rw [isStart, hc]; rfl
  obtain ⟨m, fromIndex, hf, hfr, he, hd, hs⟩ :=
    fillLoop_spec hsize k [] 0 0 (zero_le _) hb ⟨by decide, fun r hr => (not_mem_nil hr).elim⟩
  rw [nil_append] at hf hs
  refine ⟨m, hs, ?_⟩
  have hlt := hs.lt
  rw [rtlFindClearRuns, hf]
  dsimp only
  rw [length_take] at hlt ⊢
  by_cases hfw : (bm.clearRuns 0).length < k
  · rw [if_pos (.inl (by omega)), if_pos hfw, take_of_length_le (le_of_lt hfw)]
  rw [if_neg (by simp; omega), if_neg hfw, ← hd]
  refine replaceLoop_spec hsize _ _ _ (by omega) hfr (by rw [length_take]; omega) ?_
  by_cases hc : fromIndex < bm.SizeOfBitMap ∧ bm.clearBit fromIndex
  · exact .inl (he hc.1 hc.2)
  refine .inr fun n hn => Nat.le_of_not_lt fun hlt => hc ?_
  have hle := hn.run.le
  exact ⟨by omega, hn.run.all _ (Nat.le_refl _) (by omega)⟩

end result

/-- The routine returns the longest runs just where no two later runs are longer than two of the first ones. -/
theorem longestRuns_iff (bm : RtlBitmap) {k : Nat} (hk : 0 < k) (hsize : bm.SizeOfBitMap + 31 < 2 ^ 32) :
    ∃ result, rtlFindClearRuns bm k true = some result ∧
      (LongestRuns bm k result ↔ ¬ TwoLonger ((bm.clearRuns 0).take k) ((bm.clearRuns 0).drop k)) := by
  obtain ⟨m, hs, heq⟩ := rtlFindClearRuns_eq hsize hk
  have hn : (bm.clearRuns 0).Nodup := nodup_runsFrom
  refine ⟨_, heq, ?_⟩
  split
  next hf =>
    refine iff_of_true ⟨hn, fun r => (mem_clearRuns hsize).1, by omega, ?_⟩ ?_
    · exact fun r hr hnt => (hnt ((mem_clearRuns hsize).2 hr)).elim
    rw [drop_of_length_le (le_of_lt hf)]
    rintro ⟨r, hr, -⟩
    exact not_mem_nil hr
  next hmn =>
    have hlt := hs.lt
    rw [length_take] at hlt
    have hm : m < ((bm.clearRuns 0).take k).length := by rw [length_take]; omega
    have hb := replacement_foldl (entryAt ((bm.clearRuns 0).take k) m) ((bm.clearRuns 0).drop k)
    obtain ⟨pre, post, hsp, hst⟩ :=
      exists_set_eq hm (((bm.clearRuns 0).drop k).foldl longer (entryAt ((bm.clearRuns 0).take k) m))
    have ha := take_append_drop k (bm.clearRuns 0)
    have hle := hs.le
    have hc : (((bm.clearRuns 0).take k).set m
        (((bm.clearRuns 0).drop k).foldl longer (entryAt ((bm.clearRuns 0).take k) m))).length =
          min k (bm.clearRuns 0).length := by
      rw [length_set, length_take]
    rw [hst] at hc ⊢
    generalize entryAt ((bm.clearRuns 0).take k) m = s at hsp hb hle hc ⊢
    rw [hsp] at ha hle ⊢
    rw [← ha] at hn
    have hif := selection_iff hn hle hb
    rw [ha] at hif
    constructor
    · exact fun h => hif.1 fun r hr => h.longest r ((mem_clearRuns hsize).1 hr)
    refine fun h => ⟨hb.nodup hn, fun r hr => (mem_clearRuns hsize).1 ?_, hc, fun r hr => ?_⟩
    · rw [← ha]
      exact hb.mem hr
    · exact hif.2 h r ((mem_clearRuns hsize).2 hr)

/-- Runs of one, one, two and two bits. -/
def fourRuns : RtlBitmap := ⟨9, fun _ => 74⟩

theorem longestRuns_three :
    ∃ result, rtlFindClearRuns fourRuns 3 true = some result ∧ LongestRuns fourRuns 3 result := by
  obtain ⟨result, heq, hif⟩ := longestRuns_iff fourRuns (k := 3) (by decide) (by decide)
  exact ⟨result, heq, hif.2 (by decide)⟩

/-- For two runs the second run of two bits is left out, and a run of one bit returned. -/
theorem longestRuns_fails : ¬ ∃ result, rtlFindClearRuns fourRuns 2 true = some result ∧
    LongestRuns fourRuns 2 result := by
  rintro ⟨result, heq, hl⟩
  have hr : rtlFindClearRuns fourRuns 2 true = some [⟨4, 2⟩, ⟨2, 1⟩] := by decide +kernel
  rw [hr, Option.some.injEq] at heq
  subst heq
  have hrn : MaximalRun fourRuns.clearBit fourRuns.SizeOfBitMap ⟨7, 2⟩ := by
    refine ⟨⟨by decide, fun j h₁ h₂ => ?_⟩, by decide, .inr (by decide), .inl (by decide)⟩
    obtain rfl | rfl : j = 7 ∨ j = 8 := by dsimp only at h₁ h₂; omega
    · decide
    · decide
  exact absurd (hl.longest ⟨7, 2⟩ hrn (by decide) ⟨2, 1⟩ (by decide)) (by decide)

end FreeNT.Rtl
