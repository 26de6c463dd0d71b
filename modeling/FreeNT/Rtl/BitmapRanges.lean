import FreeNT.Rtl.BitmapWords

/-!
# Ranges of bits, in both word sizes (`lib/rtl/bitmap.c`)

`RtlSetBits` and `RtlClearBits` change the bits of their range and no other, and
`RtlNumberOfSetBits` counts the set bits below the size. `RtlAreBitsClear` and `RtlAreBitsSet`
measure a run from the first bit of the range, and the sums they do that with wrap:
`BitPos + MaxLength + _BITCOUNT - 1` in the 32-bit routines, and in the 64-bit ones the position
in `RtlpGetLengthOfRunSet`, which is computed as a `ULONG`. Both happen from the same size on,
relative to the size of a word, so that the routines are exact just for smaller bitmaps
(`rangesExact_iff`).
-/

namespace FreeNT.Rtl.Words

open Nat

variable {w : Nat}

/-- `RTL_BITMAP`, or `RTL_BITMAP64`. -/
structure Bitmap (w : Nat) where
  SizeOfBitMap : Nat
  Buffer : Nat → BitVec w
  size_lt : SizeOfBitMap < 2 ^ w

def rtlSetBits (bm : Bitmap w) (start n : Nat) : Bitmap w :=
    { bm with Buffer := updateBits (setUpdate w) bm.Buffer start n }

def rtlClearBits (bm : Bitmap w) (start n : Nat) : Bitmap w :=
    { bm with Buffer := updateBits (clearUpdate w) bm.Buffer start n }

def rtlpGetLengthOfRunClear (bm : Bitmap w) (start maxLength : Nat) : Nat :=
  lengthOfRun id bm.Buffer bm.SizeOfBitMap start maxLength

/-- `RtlpGetLengthOfRunSet`: the position is cast to a `ULONG`. -/
def rtlpGetLengthOfRunSet (bm : Bitmap w) (start maxLength : Nat) : Nat :=
  lengthOfRun (· % 2 ^ 32) (fun k => ~~~bm.Buffer k) bm.SizeOfBitMap start maxLength

/-- The two tests, by the length of the run. -/
def areBits (bm : Bitmap w) (lengthOf : Nat → Nat → Nat) (start n : Nat) : Bool :=
  if bm.SizeOfBitMap < (start + n) % 2 ^ w ∨ (start + n) % 2 ^ w ≤ start then false else decide (n ≤ lengthOf start n)

def rtlAreBitsClear (bm : Bitmap w) : Nat → Nat → Bool := areBits bm (rtlpGetLengthOfRunClear bm)

def rtlAreBitsSet (bm : Bitmap w) : Nat → Nat → Bool := areBits bm (rtlpGetLengthOfRunSet bm)

/-! ## Counting -/

def bitCountTable : List Nat :=
  [0, 1, 1, 2, 1, 2, 2, 3, 1, 2, 2, 3, 2, 3, 3, 4, 1, 2, 2, 3, 2, 3, 3, 4, 2, 3, 3, 4, 3, 4, 4, 5,
   1, 2, 2, 3, 2, 3, 3, 4, 2, 3, 3, 4, 3, 4, 4, 5, 2, 3, 3, 4, 3, 4, 4, 5, 3, 4, 4, 5, 4, 5, 5, 6,
   1, 2, 2, 3, 2, 3, 3, 4, 2, 3, 3, 4, 3, 4, 4, 5, 2, 3, 3, 4, 3, 4, 4, 5, 3, 4, 4, 5, 4, 5, 5, 6,
   2, 3, 3, 4, 3, 4, 4, 5, 3, 4, 4, 5, 4, 5, 5, 6, 3, 4, 4, 5, 4, 5, 5, 6, 4, 5, 5, 6, 5, 6, 6, 7,
   1, 2, 2, 3, 2, 3, 3, 4, 2, 3, 3, 4, 3, 4, 4, 5, 2, 3, 3, 4, 3, 4, 4, 5, 3, 4, 4, 5, 4, 5, 5, 6,
   2, 3, 3, 4, 3, 4, 4, 5, 3, 4, 4, 5, 4, 5, 5, 6, 3, 4, 4, 5, 4, 5, 5, 6, 4, 5, 5, 6, 5, 6, 6, 7,
   2, 3, 3, 4, 3, 4, 4, 5, 3, 4, 4, 5, 4, 5, 5, 6, 3, 4, 4, 5, 4, 5, 5, 6, 4, 5, 5, 6, 5, 6, 6, 7,
   3, 4, 4, 5, 4, 5, 5, 6, 4, 5, 5, 6, 5, 6, 6, 7, 4, 5, 5, 6, 5, 6, 6, 7, 5, 6, 6, 7, 6, 7, 7, 8]

/-- Byte `k` of the buffer. -/
def byteAt (word : Nat → BitVec w) (k : Nat) : BitVec 8 := (word (k / (w / 8)) >>> (8 * (k % (w / 8)))).setWidth 8

/-- The loop over the whole bytes, with `left` of them left. -/
def countLoop (word : Nat → BitVec w) : Nat → Nat → Nat → Nat
  | 0, _, bitCount => bitCount
  | left + 1, k, bitCount =>
      countLoop word left (k + 1) ((bitCount + bitCountTable.getD (byteAt word k).toNat 0) % 2 ^ w)

def rtlNumberOfSetBits (bm : Bitmap w) : Nat :=
  let bitCount := countLoop bm.Buffer (bm.SizeOfBitMap / 8) 0 0
  if bm.SizeOfBitMap % 8 ≠ 0 then
    let shift := 8 - bm.SizeOfBitMap % 8
    (bitCount + bitCountTable.getD ((byteAt bm.Buffer (bm.SizeOfBitMap / 8)).toNat <<< shift &&& 0xFF) 0) % 2 ^ w
  else bitCount

lemma bitCountTable_byte : ∀ b : BitVec 8, bitCountTable.getD b.toNat 0 = (List.range 8).countP b.getLsbD := by
  decide +kernel

lemma bitCountTable_shift : ∀ b : BitVec 8, ∀ r : Fin 8,
    bitCountTable.getD (b.toNat <<< (8 - r.val) &&& 0xFF) 0 = (List.range r).countP b.getLsbD := by
  decide +kernel

/-- The number of set bits below an index. -/
def setBelow (word : Nat → BitVec w) (n : Nat) : Nat := (List.range n).countP (bitOf word)

lemma setBelow_le (wr : Nat → BitVec w) (n : Nat) : setBelow wr n ≤ n := by
  have h : setBelow wr n ≤ (List.range n).length := List.countP_le_length
  rwa [List.length_range] at h

/-- What the two test routines and the count should give, and that a change of a range is one of
that range only. -/
structure RangesExact (bm : Bitmap w) : Prop where
  set : ∀ s n i, s + n ≤ bm.SizeOfBitMap →
    bitOf (rtlSetBits bm s n).Buffer i = if s ≤ i ∧ i < s + n then true else bitOf bm.Buffer i
  clear : ∀ s n i, s + n ≤ bm.SizeOfBitMap →
    bitOf (rtlClearBits bm s n).Buffer i = if s ≤ i ∧ i < s + n then false else bitOf bm.Buffer i
  areSet : ∀ s n, 0 < n → s + n ≤ bm.SizeOfBitMap →
    (rtlAreBitsSet bm s n = true ↔ ∀ i, s ≤ i → i < s + n → bitOf bm.Buffer i = true)
  areClear : ∀ s n, 0 < n → s + n ≤ bm.SizeOfBitMap →
    (rtlAreBitsClear bm s n = true ↔ ∀ i, s ≤ i → i < s + n → bitOf bm.Buffer i = false)
  count : rtlNumberOfSetBits bm = setBelow bm.Buffer bm.SizeOfBitMap

section width

variable (hw : w = 32 ∨ w = 64)
include hw

section

variable (wr : Nat → BitVec w)

include wr

lemma byteAt_bit (k : Nat) {j : Nat} (hj : j < 8) : (byteAt wr k).getLsbD j = bitOf wr (8 * k + j) := by
  have hd : (8 * k + j) / w = k / (w / 8) := by rcases hw with rfl | rfl <;> omega
  have hm : (8 * k + j) % w = 8 * (k % (w / 8)) + j := by rcases hw with rfl | rfl <;> omega
  rw [byteAt, BitVec.getLsbD_setWidth, BitVec.getLsbD_ushiftRight, decide_eq_true hj, Bool.true_and, bitOf, hd, hm]

lemma setBelow_byte (k : Nat) {r : Nat} (hr : r ≤ 8) :
    setBelow wr (8 * k + r) = setBelow wr (8 * k) + (List.range r).countP (byteAt wr k).getLsbD := by
  rw [setBelow, List.range_add, List.countP_append, List.countP_map]
  congr 1
  refine List.countP_congr fun j hj => ?_
  rw [Function.comp_apply, byteAt_bit hw wr k (lt_of_lt_of_le (List.mem_range.mp hj) hr)]

lemma countLoop_eq (left : Nat) : ∀ k, 8 * (k + left) < 2 ^ w →
    countLoop wr left k (setBelow wr (8 * k)) = setBelow wr (8 * (k + left)) := by
  induction left with
  | zero => exact fun _ _ => rfl
  | succ left ih =>
    intro k hk
    have hn := setBelow_byte hw wr k (le_refl 8)
    have hle := setBelow_le wr (8 * k + 8)
    rw [countLoop, bitCountTable_byte, ← hn, mod_eq_of_lt (by omega)]
    exact (ih (k + 1) (by omega)).trans (by rw [add_right_comm, add_assoc])

end

lemma rtlNumberOfSetBits_eq (bm : Bitmap w) : rtlNumberOfSetBits bm = setBelow bm.Buffer bm.SizeOfBitMap := by
  have hlt := bm.size_lt
  have hl := countLoop_eq hw bm.Buffer (bm.SizeOfBitMap / 8) 0 (by omega)
  rw [zero_add] at hl
  have hrs := setBelow_byte hw bm.Buffer (bm.SizeOfBitMap / 8) (r := bm.SizeOfBitMap % 8) (by omega)
  rw [div_add_mod] at hrs
  have hle := setBelow_le bm.Buffer bm.SizeOfBitMap
  unfold rtlNumberOfSetBits
  dsimp only
  rw [show countLoop bm.Buffer (bm.SizeOfBitMap / 8) 0 0 = _ from hl]
  split
  next hr =>
    have ht := bitCountTable_shift (byteAt bm.Buffer (bm.SizeOfBitMap / 8)) ⟨bm.SizeOfBitMap % 8, by omega⟩
    rw [ht, ← hrs, mod_eq_of_lt (by omega)]
  next hr =>
    rw [Decidable.not_not.mp hr] at hrs
    exact hrs.symm

variable {bm : Bitmap w} {s n : Nat}

/-- A test by a length that is measured without wrapping. -/
lemma areBits_iff {c : Nat → Nat} {wr : Nat → BitVec w} (hr : s % w + n + (w - 1) < 2 ^ w)
    (hc : ∀ x < s + n + w, c x = x) (hn : 0 < n) (hs : s + n ≤ bm.SizeOfBitMap) :
    areBits bm (lengthOfRun c wr bm.SizeOfBitMap) s n ↔ ∀ i, s ≤ i → i < s + n → bitOf wr i = false := by
  have hsz := bm.size_lt
  have hm : min n (bm.SizeOfBitMap - s) = n := by omega
  have hlt : s < bm.SizeOfBitMap := by omega
  obtain ⟨-, hz, he⟩ := lengthOfRun_run hw wr n hlt (by rwa [hm]) (by rwa [hm, max_eq_right hn]) rfl
  rw [hm] at he
  rw [areBits, mod_eq_of_lt (by omega), if_neg (by omega), decide_eq_true_eq]
  constructor
  · exact fun hle i h1 h2 => hz i h1 (by omega)
  intro ha
  rcases he with hle | ho
  · exact hle
  refine Nat.le_of_not_lt fun hlt => ?_
  rw [ha _ (by omega) (by omega)] at ho
  cases ho

lemma bitOf_not (wr : Nat → BitVec w) (i : Nat) : bitOf (fun k => ~~~wr k) i = !bitOf wr i := by
  have hi : i % w < w := mod_lt i (by omega)
  rw [bitOf, BitVec.getLsbD_not, decide_eq_true hi, Bool.true_and, bitOf]

/-- In a bitmap of any size, `RtlAreBitsClear` is right for a range that is short enough. -/
lemma rtlAreBitsClear_iff (hr : s % w + n + (w - 1) < 2 ^ w) (hn : 0 < n) (hs : s + n ≤ bm.SizeOfBitMap) :
    rtlAreBitsClear bm s n ↔ ∀ i, s ≤ i → i < s + n → bitOf bm.Buffer i = false :=
  areBits_iff hw hr (fun _ _ => rfl) hn hs

/-- So is `RtlAreBitsSet`, if the range ends a word before bit `2 ^ 32`. -/
lemma rtlAreBitsSet_iff (hr : s % w + n + (w - 1) < 2 ^ w) (he : s + n + w ≤ 2 ^ 32) (hn : 0 < n)
    (hs : s + n ≤ bm.SizeOfBitMap) :
    rtlAreBitsSet bm s n ↔ ∀ i, s ≤ i → i < s + n → bitOf bm.Buffer i = true := by
  refine (areBits_iff hw hr (fun x hx => mod_eq_of_lt (by omega)) hn hs).trans ?_
  simp [bitOf_not hw]

lemma rangesExact_of_size (hsz : bm.SizeOfBitMap + (w - 1) < 2 ^ 32) : RangesExact bm := by
  have hp : 2 ^ 32 ≤ 2 ^ w := Nat.pow_le_pow_right (by decide) (by omega)
  have hr (s n : Nat) (hs : s + n ≤ bm.SizeOfBitMap) : s % w + n + (w - 1) < 2 ^ w := by
    have := mod_le s w
    omega
  exact ⟨fun s n i _ => updateBits_bit setUpdate_writes hw _ s n i,
    fun s n i _ => updateBits_bit clearUpdate_writes hw _ s n i,
    fun s n hn hs => rtlAreBitsSet_iff hw (hr s n hs) (by omega) hn hs,
    fun s n hn hs => rtlAreBitsClear_iff hw (hr s n hs) hn hs, rtlNumberOfSetBits_eq hw bm⟩

end width

/-! ## Where the sums wrap -/

/-- All bits are set but the first one of the last word of the first `2 ^ 32` bits. -/
def allButOne (w size : Nat) (hsize : size < 2 ^ w) : Bitmap w :=
  ⟨size, fun k => if k = 2 ^ 32 / w - 1 then ~~~1 else BitVec.allOnes w, hsize⟩

variable {size : Nat}

lemma allButOne_clear (hw : w = 32 ∨ w = 64) (hsz : size < 2 ^ w) :
    bitOf (allButOne w size hsz).Buffer (2 ^ 32 - w) = false := by
  have hd : (2 ^ 32 - w) / w = 2 ^ 32 / w - 1 := by rcases hw with rfl | rfl <;> omega
  have hm : (2 ^ 32 - w) % w = 0 := by rcases hw with rfl | rfl <;> omega
  rw [bitOf, hd, hm, allButOne]
  dsimp only
  rcases hw with rfl | rfl <;> decide

lemma lengthOfRun_allButOne_32 (hsz : size < 2 ^ 32) (hl : 2 ^ 32 ≤ size + 31) :
    rtlpGetLengthOfRunSet (allButOne 32 size hsz) 0 (2 ^ 32 - 31) = 2 ^ 32 - 31 := by
  have hm : min (2 ^ 32 - 31) (size - 0) = 2 ^ 32 - 31 := by omega
  have hp : ¬ (allButOne 32 size hsz).SizeOfBitMap ≤ 0 := show ¬ size ≤ 0 by omega
  rw [rtlpGetLengthOfRunSet, lengthOfRun, if_neg hp]
  dsimp only [allButOne]
  rw [hm]
  rfl

/-- With words of 64 bits the position of the clear bit is taken for zero. -/
lemma lengthOfRun_wraps {wr : Nat → BitVec 64} (hl : 2 ^ 32 ≤ size + 63)
    (hz : ∀ i < 2 ^ 32 - 64, bitOf wr i = false) (ho : bitOf wr (2 ^ 32 - 64)) :
    2 ^ 32 - 63 ≤ lengthOfRun (· % 2 ^ 32) wr size 0 (2 ^ 32 - 63) := by
  rw [lengthOfRun, if_neg (by omega), min_eq_left (by omega)]
  dsimp only
  generalize hn : 0 / 64 + (0 % 64 + (2 ^ 32 - 63) + (64 - 1)) % 2 ^ 64 / 64 - (0 / 64 + 1) = n
  generalize hsk : skipZero wr n (wr (0 / 64) >>> (0 % 64) <<< (0 % 64)) (0 / 64 + 1) = res
  obtain ⟨v, b⟩ := res
  have h := skipZero_skipped (by decide) wr hsk
  have hge := h.ge
  have hle := h.le
  split
  next => exact le_refl _
  next hv =>
    obtain ⟨hk, hs, hbl⟩ := bitScanForward_spec hv
    generalize bitScanForward v = k at *
    have hb : b = 2 ^ 26 := by
      refine Nat.le_antisymm (by omega) (Nat.le_of_not_lt fun hlt => ?_)
      have hbt := h.value ((b - 1) * 64 + k) (by omega) (by omega)
      rw [hz _ (by omega), show ((b - 1) * 64 + k) % 64 = k by omega, hs] at hbt
      cases hbt
    have hk0 : k = 0 := by
      refine Nat.eq_zero_of_not_pos fun hp => ?_
      have hbt := h.value (2 ^ 32 - 64) (by omega) (by omega)
      rw [ho, show (2 ^ 32 - 64) % 64 = 0 by omega, hbl 0 hp] at hbt
      cases hbt
    split <;> omega

lemma not_rangesExact (hw : w = 32 ∨ w = 64) (hsz : size < 2 ^ w) (hl : 2 ^ 32 ≤ size + (w - 1)) :
    ¬ RangesExact (allButOne w size hsz) := by
  intro h
  have hbm : (allButOne w size hsz).SizeOfBitMap = size := rfl
  have ht : rtlAreBitsSet (allButOne w size hsz) 0 (2 ^ 32 - (w - 1)) := by
    rw [rtlAreBitsSet, areBits, zero_add, mod_eq_of_lt (by omega), if_neg (by omega), decide_eq_true_eq]
    rcases hw with rfl | rfl
    · rw [lengthOfRun_allButOne_32 hsz hl]
    refine lengthOfRun_wraps hl (fun i hi => ?_) (by rw [bitOf_not (.inr rfl), allButOne_clear (.inr rfl)]; rfl)
    rw [bitOf, allButOne]
    dsimp only
    rw [if_neg (by omega), BitVec.not_allOnes, BitVec.getLsbD_zero]
  have hs := (h.areSet 0 (2 ^ 32 - (w - 1)) (by omega) (by omega)).mp ht (2 ^ 32 - w) (by omega) (by omega)
  rw [allButOne_clear hw hsz] at hs
  cases hs

/-- The routines are exact just for the sizes for which the sums do not wrap. -/
theorem rangesExact_iff (hw : w = 32 ∨ w = 64) {size : Nat} (hsize : size < 2 ^ w) :
    (∀ bm : Bitmap w, bm.SizeOfBitMap = size → RangesExact bm) ↔ size + (w - 1) < 2 ^ 32 := by
  constructor
  · intro h
    refine Nat.lt_of_not_le fun hl => not_rangesExact hw hsize hl (h _ rfl)
  · rintro hlt bm rfl
    exact rangesExact_of_size hw hlt

theorem rangesExact_hundred : (allButOne 64 100 (by decide)).SizeOfBitMap = 100 ∧
    RangesExact (allButOne 64 100 (by decide)) :=
  ⟨rfl, (rangesExact_iff (.inr rfl) (by decide)).mpr (by decide) _ rfl⟩

theorem rangesExact_fails : ¬ RangesExact (allButOne 32 (2 ^ 32 - 1) (by decide)) ∧
    ¬ RangesExact (allButOne 64 (2 ^ 32) (by decide)) :=
  ⟨not_rangesExact (.inl rfl) (by decide) (by decide), not_rangesExact (.inr rfl) (by decide) (by decide)⟩

end FreeNT.Rtl.Words
