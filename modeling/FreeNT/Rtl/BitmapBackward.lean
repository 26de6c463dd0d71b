import FreeNT.Rtl.Bitmap

/-!
# Clear runs, backwards (`lib/rtl/bitmap.c`)

`RtlFindLastBackwardRunClear` looks for the last clear bit up to an index, and for the start of
its run, going down word by word. The start it stores is right. The length it returns is
the distance of the two ends, which is one less than the length of the run: a run of one bit
has length 0, which also says that there is none.
-/

namespace FreeNT.Rtl

open List

/-- `BitScanReverse`: the highest set bit of a word. -/
def bitScanReverse (v : BitVec 32) : Nat := ((List.range 32).reverse.find? v.getLsbD).getD 0

/-- `while (Value == 0 && Buffer >= BitMapHeader->Buffer) Value = *Buffer--;`, with `b` words from
the first word up to `Buffer`: the value the loop stops at, and the number of words below it. -/
def skipZeroBack (word : Nat → BitVec 32) : Nat → BitVec 32 → BitVec 32 × Nat
  | 0, value => (value, 0)
  | b + 1, value => if value = 0 then skipZeroBack word b (word b) else (value, b + 1)

/-- `SizeOfBitMap - 1`, in 32 bits. -/
def lastIndex (bm : RtlBitmap) : Nat := if bm.SizeOfBitMap = 0 then MAXINDEX else bm.SizeOfBitMap - 1

/-- The length, and what `StartingRunIndex` is set to. -/
def rtlFindLastBackwardRunClear (bm : RtlBitmap) (fromIndex : Nat) : Nat × Option Nat :=
  let fromIndex := min fromIndex (lastIndex bm)
  let bitPos := 31 - fromIndex % 32
  let invValue := ~~~bm.Buffer (fromIndex / 32) <<< bitPos >>> bitPos
  let found := skipZeroBack (fun w => ~~~bm.Buffer w) (fromIndex / 32) invValue
  if found.1 = 0 then (0, none)
  else
    let bitPos := bitScanReverse found.1
    let fromIndex := found.2 * 32 + bitPos
    let value := ~~~found.1 <<< (31 - bitPos) >>> (31 - bitPos)
    let set := skipZeroBack bm.Buffer found.2 value
    let start := if set.1 ≠ 0 then set.2 * 32 + bitScanReverse set.1 + 1 else 0
    (fromIndex - start, some start)

/-! ## Scanning -/

variable {v : BitVec 32}

lemma bitScanReverse_spec (h : v ≠ 0) : bitScanReverse v < 32 ∧ v.getLsbD (bitScanReverse v) ∧
      ∀ j, bitScanReverse v < j → j < 32 → v.getLsbD j = false := by
  unfold bitScanReverse
  rcases hf : (range 32).reverse.find? v.getLsbD with _ | k
  · refine absurd (BitVec.eq_of_getLsbD_eq fun i hi => ?_) h
    simpa using find?_eq_none.mp hf i (mem_reverse.mpr (mem_range.mpr hi))
  obtain ⟨hk, before, after, hl, hb⟩ := find?_eq_some_iff_append.mp hf
  have hm := mem_of_find?_eq_some hf
  have hlt : k < 32 := mem_range.mp (mem_reverse.mp hm)
  refine ⟨hlt, hk, fun j hj hj' => ?_⟩
  simp only [Option.getD_some] at hj
  -- the indices before `k` in the list are those above it
  have hs : (before ++ k :: after).Pairwise (· > ·) := hl ▸ pairwise_reverse.mpr pairwise_lt_range
  have hjm : j ∈ before ++ k :: after := hl ▸ mem_reverse.mpr (mem_range.mpr hj')
  have hj : j ∈ before := by
    rcases mem_append.mp hjm with hin | hin
    · exact hin
    rcases mem_cons.mp hin with rfl | hin
    · omega
    · have := (pairwise_cons.mp (pairwise_append.mp hs).2.1).1 j hin
      omega
  simpa using hb j hj

lemma skipZeroBack_spec (w : Nat → BitVec 32) (b : Nat) (vl : BitVec 32) {c : Nat}
    (h : skipZeroBack w b vl = (v, c)) :
    (v ≠ 0 ∨ c = 0) ∧ (c = b ∧ v = vl ∨ c < b ∧ vl = 0 ∧ v = w c ∧ ∀ j, c < j → j < b → w j = 0) := by
  induction b generalizing vl with
  | zero =>
    obtain ⟨rfl, rfl⟩ := Prod.mk.inj h
    exact ⟨.inr rfl, .inl ⟨rfl, rfl⟩⟩
  | succ b ih =>
    rw [skipZeroBack] at h
    by_cases hvalue : vl = 0
    swap
    · rw [if_neg hvalue] at h
      obtain ⟨rfl, rfl⟩ := Prod.mk.inj h
      exact ⟨.inl hvalue, .inl ⟨rfl, rfl⟩⟩
    rw [if_pos hvalue] at h
    obtain ⟨he, hc⟩ := ih (w b) h
    refine ⟨he, .inr ?_⟩
    rcases hc with ⟨rfl, rfl⟩ | ⟨hlt, hz, hw, hb⟩
    · exact ⟨by omega, hvalue, rfl, fun j h1 h2 => by omega⟩
    refine ⟨by omega, hvalue, hw, fun j h1 h2 => ?_⟩
    by_cases hj : j = b
    · rw [hj, hz]
    · exact hb j h1 (by omega)

lemma getLsbD_maskLow (v : BitVec 32) {k i : Nat} (hk : k < 32) :
    (v <<< (31 - k) >>> (31 - k)).getLsbD i = (decide (i ≤ k) && v.getLsbD i) := by
  rw [BitVec.getLsbD_ushiftRight, BitVec.getLsbD_shiftLeft]
  by_cases h : i ≤ k
  · have hl : 31 - k + i < 32 := by omega
    simp [h, hl]
  · have hh : ¬ 31 - k + i < 32 := by omega
    simp [h, hh]

/-- The last one bit of the words at or below bit `k` of word `b`, whose bits above `k` were cleared in `value`. -/
lemma skipZeroBack_last (w : Nat → BitVec 32) {b k : Nat} (hk : k < 32) {value : BitVec 32}
    (hl : ∀ i < 32, value.getLsbD i = (decide (i ≤ k) && (w b).getLsbD i)) {c : Nat}
    (h : skipZeroBack w b value = (v, c)) :
    (v = 0 ∧ ∀ i, i ≤ b * 32 + k → (w (i / 32)).getLsbD (i % 32) = false) ∨
      (v ≠ 0 ∧ c ≤ b ∧ c * 32 + bitScanReverse v ≤ b * 32 + k ∧ bitScanReverse v < 32 ∧
        (∀ i, i ≤ bitScanReverse v → v.getLsbD i = (w c).getLsbD i) ∧
        (w c).getLsbD (bitScanReverse v) ∧
        ∀ i, c * 32 + bitScanReverse v < i → i ≤ b * 32 + k → (w (i / 32)).getLsbD (i % 32) = false) := by
  obtain ⟨he, hcs⟩ := skipZeroBack_spec w b value h
  -- bits of `v`, and the words between it and `b`
  have hb : ∀ i < 32, v.getLsbD i = (decide (c = b → i ≤ k) && (w c).getLsbD i) := by
    intro i hi
    rcases hcs with ⟨rfl, rfl⟩ | ⟨hlt, -, rfl, -⟩
    · rw [hl i hi]
      simp
    · rw [decide_eq_true (by omega), Bool.true_and]
  have hle : c ≤ b := by rcases hcs with ⟨rfl, -⟩ | ⟨hlt, -⟩ <;> omega
  have hs : ∀ i, i ≤ b * 32 + k → c < i / 32 → (w (i / 32)).getLsbD (i % 32) = false := by
    intro i hi hci
    rcases hcs with ⟨rfl, rfl⟩ | ⟨hlt, hz, -, hbw⟩
    · omega
    by_cases hib : i / 32 = b
    · have hbt := hl (i % 32) (by omega)
      rw [hz, BitVec.ofNat_eq_ofNat, BitVec.getLsbD_zero, decide_eq_true (by omega), Bool.true_and] at hbt
      rw [hib, ← hbt]
    · rw [hbw (i / 32) hci (by omega), BitVec.ofNat_eq_ofNat, BitVec.getLsbD_zero]
  by_cases hv : v = 0
  · refine .inl ⟨hv, fun i hi => ?_⟩
    have hc : c = 0 := he.resolve_left fun hne => hne hv
    by_cases hi0 : i / 32 = 0
    · have hbt := hb (i % 32) (by omega)
      rw [hv, BitVec.ofNat_eq_ofNat, BitVec.getLsbD_zero, decide_eq_true (by omega), Bool.true_and] at hbt
      rw [hi0, ← hc, ← hbt]
    · exact hs i hi (by omega)
  obtain ⟨hlt, hst, ha⟩ := bitScanReverse_spec hv
  generalize bitScanReverse v = p at *
  have hst' := hst
  rw [hb p hlt, Bool.and_eq_true, decide_eq_true_eq] at hst'
  obtain ⟨hpk, hw⟩ := hst'
  have hcb : c = b ∨ c < b := by omega
  refine .inr ⟨hv, hle, ?_, hlt, fun i hi => ?_, hw, fun i h1 h2 => ?_⟩
  · rcases hcb with hcb | hcb
    · have := hpk hcb
      omega
    · omega
  · rw [hb i (by omega), decide_eq_true fun hcb => by have := hpk hcb; omega, Bool.true_and]
  by_cases hci : c < i / 32
  · exact hs i h2 hci
  have hbt := ha (i % 32) (by omega) (by omega)
  rw [hb (i % 32) (by omega), decide_eq_true (by omega), Bool.true_and] at hbt
  rw [show i / 32 = c by omega]
  exact hbt

/-! ## The run -/

/-- `e` is the last clear bit up to `top`. -/
structure LastClear (bm : RtlBitmap) (top e : Nat) : Prop where
  le : e ≤ top
  clear : bm.testBit e = false
  last : ∀ i, e < i → i ≤ top → bm.testBit i = true

/-- `s` is the least index from which on all bits up to `e` are clear. -/
structure RunStart (bm : RtlBitmap) (e s : Nat) : Prop where
  le : s ≤ e
  clear : ∀ i, s ≤ i → i ≤ e → bm.testBit i = false
  least : ∀ t, (∀ i, t ≤ i → i ≤ e → bm.testBit i = false) → s ≤ t

lemma getLsbD_not_buffer (bm : RtlBitmap) (i : Nat) :
    (~~~bm.Buffer (i / 32)).getLsbD (i % 32) = !bm.testBit i := by
  rw [BitVec.getLsbD_not, decide_eq_true (by omega), Bool.true_and]
  rfl

/-- What the routine returns: nothing if there is no clear bit, and else the distance of the ends of
the run, and its start. -/
lemma lastBackwardRun_cases (bm : RtlBitmap) (k : Nat) :
    ((∀ i ≤ min k (lastIndex bm), bm.testBit i) ∧ rtlFindLastBackwardRunClear bm k = (0, none)) ∨
    ∃ e s, LastClear bm (min k (lastIndex bm)) e ∧ RunStart bm e s ∧
      rtlFindLastBackwardRunClear bm k = (e - s, some s) := by
  unfold rtlFindLastBackwardRunClear
  dsimp only
  generalize min k (lastIndex bm) = top
  have htp : top / 32 * 32 + top % 32 = top := Nat.div_add_mod' top 32
  rcases hf : skipZeroBack (fun w => ~~~bm.Buffer w) (top / 32) _ with ⟨v, c⟩
  have hm : ∀ i < 32, (~~~bm.Buffer (top / 32) <<< (31 - top % 32) >>> (31 - top % 32)).getLsbD i =
      (decide (i ≤ top % 32) && (~~~bm.Buffer (top / 32)).getLsbD i) :=
    fun i _ => getLsbD_maskLow _ (by omega)
  have hs := skipZeroBack_last (fun w => ~~~bm.Buffer w) (by omega) hm hf
  simp only [htp, getLsbD_not_buffer] at hs
  rcases hs with ⟨hv, ha⟩ | ⟨hv, hcb, hle, hp, hb, hc, hr⟩
  · refine .inl ⟨fun i hi => ?_, if_pos hv⟩
    simpa using ha i hi
  right
  rw [if_neg hv]
  generalize bitScanReverse v = p at *
  have hid : (c * 32 + p) / 32 = c ∧ (c * 32 + p) % 32 = p := by omega
  have hl : LastClear bm top (c * 32 + p) := by
    refine ⟨hle, ?_, fun i h1 h2 => by simpa using hr i h1 h2⟩
    have hbt := getLsbD_not_buffer bm (c * 32 + p)
    rw [hid.1, hid.2, hc] at hbt
    simpa using hbt.symm
  -- below the bit found the inverted word gives the word of the bitmap again
  have hm' : ∀ i < 32, (~~~v <<< (31 - p) >>> (31 - p)).getLsbD i =
    (decide (i ≤ p) && (bm.Buffer c).getLsbD i) := by
    intro i hi
    rw [getLsbD_maskLow _ hp]
    by_cases hip : i ≤ p
    · rw [BitVec.getLsbD_not, hb i hip, BitVec.getLsbD_not, decide_eq_true hi]
      simp
    · simp [hip]
  rcases hst : skipZeroBack bm.Buffer c _ with ⟨v', c'⟩
  have hs' := skipZeroBack_last bm.Buffer hp hm' hst
  rcases hs' with ⟨hv', ha⟩ | ⟨hv', hcb', hle', hp', -, ho, hr'⟩
  · refine ⟨c * 32 + p, 0, hl, ⟨Nat.zero_le _, fun i _ hi => ha i hi, fun t _ => Nat.zero_le t⟩, ?_⟩
    rw [if_neg (not_not.mpr hv')]
  rw [if_pos hv']
  generalize bitScanReverse v' = p' at *
  have hid' : (c' * 32 + p') / 32 = c' ∧ (c' * 32 + p') % 32 = p' := by omega
  have hbt : bm.testBit (c' * 32 + p') := by rw [RtlBitmap.testBit, hid'.1, hid'.2, ho]
  have hne : c' * 32 + p' ≠ c * 32 + p := by
    intro heq
    have hc' := hl.clear
    rw [← heq, hbt] at hc'
    cases hc'
  refine ⟨c * 32 + p, c' * 32 + p' + 1, hl, ⟨by omega, fun i h1 h2 => hr' i (by omega) h2, fun t ht => ?_⟩, rfl⟩
  by_contra hlt
  have hc' := ht (c' * 32 + p') (by omega) (by omega)
  rw [hbt] at hc'
  cases hc'

/-- What the routine is to return: the run that ends at the last clear bit, with its length, or 0 if
no bit is clear. -/
structure DescribesRun (bm : RtlBitmap) (fromIndex : Nat) : Prop where
  run : ∀ e, LastClear bm (min fromIndex (lastIndex bm)) e →
    ∃ s, RunStart bm e s ∧ rtlFindLastBackwardRunClear bm fromIndex = (e - s + 1, some s)
  none : (∀ i ≤ min fromIndex (lastIndex bm), bm.testBit i = true) →
    (rtlFindLastBackwardRunClear bm fromIndex).1 = 0

/-- The length is right only if there is nothing to describe: with a clear bit it is one too small. -/
theorem describesRun_iff (bm : RtlBitmap) (fromIndex : Nat) :
    DescribesRun bm fromIndex ↔ ∀ i ≤ min fromIndex (lastIndex bm), bm.testBit i = true := by
  rcases lastBackwardRun_cases bm fromIndex with ⟨ha, hr⟩ | ⟨e, s, hl, hst, hr⟩
  · refine iff_of_true ⟨fun e he => ?_, fun _ => by rw [hr]⟩ ha
    have hs := ha e he.le
    rw [he.clear] at hs
    exact nomatch hs
  refine iff_of_false (fun h => ?_) fun ha => ?_
  · obtain ⟨s', hst', hr'⟩ := h.run e hl
    rw [hr, Prod.mk.injEq, Option.some.injEq] at hr'
    omega
  have hs := ha e hl.le
  rw [hl.clear] at hs
  exact nomatch hs

/-- In a bitmap of eight clear bits the run that ends at bit 4 starts at 0 and has five bits. The
routine says four. With bit 0 only, it says none. -/
theorem describesRun_fails : rtlFindLastBackwardRunClear ⟨8, fun _ => 0⟩ 4 = (4, some 0) ∧
    ¬ DescribesRun ⟨8, fun _ => 0⟩ 4 ∧
      rtlFindLastBackwardRunClear ⟨8, fun _ => 0xFE⟩ 7 = (0, some 0) := by
  refine ⟨by decide, fun h => ?_, by decide⟩
  obtain ⟨s, -, hr⟩ := h.run 4
    ⟨by decide, by decide, fun i h₁ h₂ => absurd (h₂.trans (Nat.min_le_left _ _)) (by omega)⟩
  have hl : rtlFindLastBackwardRunClear ⟨8, fun _ => 0⟩ 4 = (4, some 0) := by decide
  rw [hl, Prod.mk.injEq, Option.some.injEq] at hr
  omega

end FreeNT.Rtl
