import Mathlib.Tactic.Common
import Mathlib.Tactic.Ring
import Mathlib.Data.List.Basic

/-!
# Buffers of words (`lib/rtl/bitmap.c`)

`bitmap.c` is compiled with words of 32 bits, and once more with words of 64 bits
(`USE_RTL_BITMAP64`). The routines are stated here for words of `w` bits. Bit `i` of a buffer is bit `i % w` of the
word `i / w` (`bitOf`).

* `updateBits_bit`: a range is set or cleared, and no other bit changes;
* `lengthOfRun_run`: the length of a run of zero bits, as long as the sums do not wrap.
-/

namespace FreeNT.Rtl.Words

open List BitVec Nat

variable {w : Nat}

def bitOf (word : Nat → BitVec w) (i : Nat) : Bool := (word (i / w)).getLsbD (i % w)

/-- The buffer with word `k` replaced. -/
def putWord (word : Nat → BitVec w) (k : Nat) (v : BitVec w) : Nat → BitVec w :=
    fun i => if i = k then v else word i

/-- `RtlFillMemoryUlong`, `RtlFillMemoryUlonglong`: the whole words of `length` bytes from word `k` on. -/
def fillWords (word : Nat → BitVec w) (k length : Nat) (pattern : BitVec w) : Nat → BitVec w :=
  fun i => if k ≤ i ∧ i < k + length / (w / 8) then pattern else word i

lemma bitOf_putWord (wr : Nat → BitVec w) (k : Nat) (v : BitVec w) (i : Nat) :
    bitOf (putWord wr k v) i = if i / w = k then v.getLsbD (i % w) else bitOf wr i := by
  unfold bitOf putWord; split <;> rfl

lemma bitOf_fillWords (wr : Nat → BitVec w) (k length : Nat) (p : BitVec w) (i : Nat) :
    bitOf (fillWords wr k length p) i =
      if k ≤ i / w ∧ i / w < k + length / (w / 8) then p.getLsbD (i % w) else bitOf wr i := by
  unfold bitOf fillWords; split <;> rfl

lemma getLsbD_highMask (k i : Nat) : (allOnes w <<< k).getLsbD i = decide (k ≤ i ∧ i < w) := by
  by_cases h : k ≤ i ∧ i < w
  · simp [h]
  by_cases hi : i < w
  · simp [show i < k by omega]
  · simp [hi]

lemma getLsbD_mask (v : BitVec w) {k i : Nat} (hi : i < w) :
    (v >>> k <<< k).getLsbD i = (decide (k ≤ i) && v.getLsbD i) := by
  by_cases h : k ≤ i
  · simp [h, hi, show ¬ i < k by omega, show k + (i - k) = i by omega]
  · simp [h, show i < k by omega]

/-! ## Changing a range -/

/-- What a routine does to the bits of a word under a mask, and what it fills whole words with. -/
structure Update (w : Nat) where
  change : BitVec w → BitVec w → BitVec w
  pattern : BitVec w

/-- The bits of a range from a word boundary on: the whole words, then the low bits of the next word. -/
def fullWords (u : Update w) (word : Nat → BitVec w) (k n : Nat) : Nat → BitVec w :=
  let word := fillWords word k (n / 8) u.pattern
  let k := k + n / w
  let n := n % w
  if n ≠ 0 then putWord word k (u.change (word k) (~~~(BitVec.allOnes w <<< n))) else word

/-- `RtlSetBits` and `RtlClearBits`. -/
def updateBits (u : Update w) (word : Nat → BitVec w) (start n : Nat) : Nat → BitVec w :=
  let k := start / w
  let bits := start % w
  if bits ≠ 0 then
    let mask := BitVec.allOnes w <<< bits
    let bits := w - bits
    if n < bits then
      let bits := bits - n
      putWord word k (u.change (word k) (mask <<< bits >>> bits))
    else fullWords u (putWord word k (u.change (word k) mask)) (k + 1) (n - bits)
  else fullWords u word k n

/-- The bits under the mask become `b`. -/
structure Update.Writes (u : Update w) (b : Bool) : Prop where
  change : ∀ v mask i, i < w → (u.change v mask).getLsbD i = if mask.getLsbD i then b else v.getLsbD i
  pattern : ∀ i < w, u.pattern.getLsbD i = b

/-- `RtlSetBits`. -/
def setUpdate (w : Nat) : Update w := ⟨(· ||| ·), BitVec.allOnes w⟩

/-- `RtlClearBits`. -/
def clearUpdate (w : Nat) : Update w := ⟨fun v mask => v &&& ~~~mask, 0⟩

lemma setUpdate_writes : (setUpdate w).Writes true := by
  refine ⟨fun v m i _ => ?_, fun i hi => ?_⟩
  · cases h : m.getLsbD i <;> simp [setUpdate, h]
  · rw [setUpdate, getLsbD_allOnes, decide_eq_true hi]

lemma clearUpdate_writes : (clearUpdate w).Writes false := by
  refine ⟨fun v m i hi => ?_, fun i _ => getLsbD_zero⟩
  rw [clearUpdate, getLsbD_and, getLsbD_not, decide_eq_true hi]
  cases m.getLsbD i <;> simp

section update

variable {u : Update w} {b : Bool} (hu : u.Writes b) (hw : w = 32 ∨ w = 64)
include hu hw

lemma fullWords_bit (wr : Nat → BitVec w) (k n i : Nat) :
    bitOf (fullWords u wr k n) i = if w * k ≤ i ∧ i < w * k + n then b else bitOf wr i := by
  have hi : i % w < w := mod_lt i (by omega)
  have hf (j : Nat) : bitOf (fillWords wr k (n / 8) u.pattern) j =
      if w * k ≤ j ∧ j < w * k + n / w * w then b else bitOf wr j := by
    have hj : j % w < w := mod_lt j (by omega)
    rw [bitOf_fillWords, hu.pattern _ hj]
    refine if_congr ?_ rfl rfl
    rcases hw with rfl | rfl <;> omega
  unfold fullWords
  dsimp only
  split
  next hn =>
    rw [bitOf_putWord]
    split
    next hk =>
      have ho := hf i
      rw [bitOf, hk] at ho
      rw [hu.change _ _ _ hi, ho, getLsbD_not, getLsbD_highMask, decide_eq_true hi, Bool.true_and]
      have hl : (!decide (n % w ≤ i % w ∧ i % w < w)) ↔ w * k ≤ i ∧ i < w * k + n := by
        rw [Bool.not_eq_true', decide_eq_false_iff_not]
        rcases hw with rfl | rfl <;> omega
      by_cases hin : w * k ≤ i ∧ i < w * k + n
      · rw [if_pos (hl.mpr hin), if_pos hin]
      · rw [if_neg (mt hl.mp hin), if_neg hin, if_neg]
        rcases hw with rfl | rfl <;> omega
    next hk =>
      rw [hf]
      refine if_congr ?_ rfl rfl
      rcases hw with rfl | rfl <;> omega
  next hn =>
    rw [hf]
    refine if_congr ?_ rfl rfl
    rcases hw with rfl | rfl <;> omega

lemma updateBits_bit (wr : Nat → BitVec w) (s n i : Nat) :
    bitOf (updateBits u wr s n) i = if s ≤ i ∧ i < s + n then b else bitOf wr i := by
  have hi : i % w < w := mod_lt i (by omega)
  unfold updateBits
  dsimp only
  split
  next hb =>
    split
    next hn =>
      rw [bitOf_putWord]
      split
      next hk =>
        rw [hu.change _ _ _ hi, getLsbD_ushiftRight, getLsbD_shiftLeft, getLsbD_highMask, ← hk]
        refine if_congr ?_ rfl rfl
        rw [Bool.and_eq_true, Bool.and_eq_true, Bool.not_eq_true', decide_eq_true_eq,
          decide_eq_false_iff_not, decide_eq_true_eq]
        rcases hw with rfl | rfl <;> omega
      next hk =>
        rw [if_neg]
        rcases hw with rfl | rfl <;> omega
    next hn =>
      rw [fullWords_bit hu hw, bitOf_putWord]
      by_cases hk : i / w = s / w
      · rw [if_pos hk, hu.change _ _ _ hi, getLsbD_highMask, ← hk, if_neg (by rcases hw with rfl | rfl <;> omega)]
        refine if_congr ?_ rfl rfl
        rw [decide_eq_true_eq]
        rcases hw with rfl | rfl <;> omega
      rw [if_neg hk]
      refine if_congr ?_ rfl rfl
      rcases hw with rfl | rfl <;> omega
  next hb =>
    rw [fullWords_bit hu hw]
    refine if_congr ?_ rfl rfl
    rcases hw with rfl | rfl <;> omega

end update

/-! ## Runs -/

/-- `BitScanForward`: the lowest set bit of a word. -/
def bitScanForward (v : BitVec w) : Nat := ((List.range w).find? v.getLsbD).getD 0

lemma bitScanForward_spec {v : BitVec w} (h : v ≠ 0) : bitScanForward v < w ∧ v.getLsbD (bitScanForward v) = true ∧
      ∀ j < bitScanForward v, v.getLsbD j = false := by
  unfold bitScanForward
  cases hf : (range w).find? v.getLsbD with
  | none =>
    refine absurd (eq_of_getLsbD_eq fun i hi => ?_) h
    simpa using find?_eq_none.mp hf i (mem_range.mpr hi)
  | some k =>
    obtain ⟨hk, as, bs, hl, has⟩ := find?_eq_some_iff_append.mp hf
    have hln : as.length = k ∧ k < w := by
      have h1 : (range w)[as.length]? = some k := by rw [hl]; simp
      obtain ⟨hlt, he⟩ := List.getElem?_eq_some_iff.mp h1
      simp only [length_range] at hlt
      rw [getElem_range] at he
      omega
    refine ⟨hln.2, hk, fun j hj => ?_⟩
    have hj' : j ∈ as := by
      have h1 : (range w)[j]? = as[j]? := by
        rw [hl, List.getElem?_append_left (by simp only [Option.getD_some] at hj; omega)]
      rw [List.getElem?_range (by simp only [Option.getD_some] at hj; omega)] at h1
      exact mem_of_getElem? h1.symm
    simpa using has j hj'

/-- `while (Value == 0 && Buffer < MaxBuffer) Value = *Buffer++;`, with `n`
words left: the value the loop stops at and the word after it. -/
def skipZero (word : Nat → BitVec w) : Nat → BitVec w → Nat → BitVec w × Nat
  | 0, value, buffer => (value, buffer)
  | n + 1, value, buffer =>
    if value = 0 then skipZero word n (word buffer) (buffer + 1) else (value, buffer)

/-- The length of a run of zero bits from `start` on, at least up to `maxLength` bits; `cast` is the type that
`(Buffer - BitMapHeader->Buffer) * _BITCOUNT` is computed in. -/
def lengthOfRun (cast : Nat → Nat) (word : Nat → BitVec w) (size start maxLength : Nat) : Nat :=
  if size ≤ start then 0
  else
    let buffer := start / w
    let bitPos := start % w
    let maxLength := min maxLength (size - start)
    let maxBuffer := buffer + (bitPos + maxLength + (w - 1)) % 2 ^ w / w
    let value := word buffer >>> bitPos <<< bitPos
    let (value, buffer) := skipZero word (maxBuffer - (buffer + 1)) value (buffer + 1)
    if value = 0 then maxLength
    else
      let length := (cast (buffer * w) + bitScanForward value + 2 ^ w - w - start) % 2 ^ w
      if size - start < length then size - start else length

lemma skipZero_spec (wr : Nat → BitVec w) (n : Nat) : ∀ (vl : BitVec w) (bf : Nat) {v : BitVec w} {b : Nat},
    skipZero wr n vl bf = (v, b) →
    (v ≠ 0 ∨ b = bf + n) ∧ (b = bf ∧ v = vl ∨
        bf < b ∧ b ≤ bf + n ∧ vl = 0 ∧ v = wr (b - 1) ∧ ∀ j, bf ≤ j → j + 1 < b → wr j = 0) := by
  induction n with
  | zero =>
    intro vl bf v b h
    cases h
    exact ⟨.inr rfl, .inl ⟨rfl, rfl⟩⟩
  | succ n ih =>
    intro vl bf v b h
    rw [skipZero] at h
    split at h
    next hv =>
      obtain ⟨he, hr⟩ := ih _ _ h
      refine ⟨he.imp_right fun e => by omega, .inr ?_⟩
      rcases hr with ⟨rfl, rfl⟩ | ⟨hlt, hle, hz, rfl, ha⟩
      · exact ⟨by omega, by omega, hv, by rw [Nat.add_sub_cancel], fun j h1 h2 => by omega⟩
      refine ⟨by omega, by omega, hv, rfl, fun j h1 h2 => ?_⟩
      rcases eq_or_lt_of_le h1 with rfl | h1
      · exact hz
      · exact ha j h1 h2
    next hv =>
      cases h
      exact ⟨.inl hv, .inl ⟨rfl, rfl⟩⟩

/-- Where the words are all zero up to word `b - 1`, as the loop leaves them. -/
structure Skipped (word : Nat → BitVec w) (start n b : Nat) (v : BitVec w) : Prop where
  ge : start / w + 1 ≤ b
  le : b ≤ start / w + 1 + n
  zero : ∀ i, start ≤ i → i / w + 1 < b → bitOf word i = false
  value : ∀ i, start ≤ i → i / w + 1 = b → bitOf word i = v.getLsbD (i % w)
  low : b = start / w + 1 → ∀ i < start % w, v.getLsbD i = false
  stop : v ≠ 0 ∨ b = start / w + 1 + n

lemma skipZero_skipped (hw : 0 < w) (wr : Nat → BitVec w) {s n b : Nat} {v : BitVec w}
    (h : skipZero wr n (wr (s / w) >>> (s % w) <<< (s % w)) (s / w + 1) = (v, b)) :
    Skipped wr s n b v := by
  obtain ⟨hen, hc⟩ := skipZero_spec wr n _ _ h
  have hd {i : Nat} (hi : s ≤ i) : s / w ≤ i / w := Nat.div_le_div_right hi
  have hm {i : Nat} (hi : s ≤ i) (he : i / w = s / w) : s % w ≤ i % w := by
    have h1 := div_add_mod s w
    have h2 := div_add_mod i w
    rw [he] at h2
    omega
  rcases hc with ⟨rfl, rfl⟩ | ⟨hlt, hle, hz, rfl, ha⟩
  · refine ⟨le_refl _, by omega, fun i hi hb => ?_, fun i hi hb => ?_, fun _ i hi => ?_, hen⟩
    · have := hd hi
      omega
    · have he : i / w = s / w := by omega
      rw [getLsbD_mask _ (mod_lt _ hw), decide_eq_true (hm hi he), Bool.true_and, bitOf, he]
    · rw [getLsbD_mask _ (lt_trans hi (mod_lt _ hw)), decide_eq_false (by omega), Bool.false_and]
  refine ⟨by omega, hle, fun i hi hb => ?_, fun i hi hb => ?_, fun he => absurd he (by omega), hen⟩
  · by_cases he : i / w = s / w
    · have hbt := getLsbD_mask (wr (s / w)) (k := s % w) (mod_lt i hw)
      rw [hz, ofNat_eq_ofNat, getLsbD_zero, decide_eq_true (hm hi he), Bool.true_and] at hbt
      rw [bitOf, he, ← hbt]
    · have := hd hi
      rw [bitOf, ha (i / w) (by omega) hb, ofNat_eq_ofNat, getLsbD_zero]
  · rw [bitOf, ← hb, Nat.add_sub_cancel]

/-- The run: within the bitmap, all zero bits, and ended by `maxLength`, by the
end of the bitmap or by a one. -/
lemma lengthOfRun_run (hw : w = 32 ∨ w = 64) {c : Nat → Nat} (wr : Nat → BitVec w) {size s r : Nat} (ml : Nat)
    (hs : s < size) (hwr : s % w + min ml (size - s) + (w - 1) < 2 ^ w)
    (hc : ∀ x < s + max 1 (min ml (size - s)) + w, c x = x) (hr : lengthOfRun c wr size s ml = r) :
    r ≤ size - s ∧ (∀ i, s ≤ i → i < s + r → bitOf wr i = false) ∧
      (min ml (size - s) ≤ r ∨ bitOf wr (s + r)) := by
  unfold lengthOfRun at hr
  rw [if_neg (by omega)] at hr
  dsimp only at hr
  generalize hm : min ml (size - s) = len at hr hwr hc ⊢
  rw [mod_eq_of_lt (a := s % w + len + (w - 1)) hwr] at hr
  generalize hn : s / w + (s % w + len + (w - 1)) / w - (s / w + 1) = n at hr
  generalize hsk : skipZero wr n (wr (s / w) >>> (s % w) <<< (s % w)) (s / w + 1) = res at hr
  obtain ⟨v, b⟩ := res
  have h := skipZero_skipped (by omega) wr hsk
  have hge := h.ge
  have hle := h.le
  dsimp only at hr
  split at hr
  next hv0 =>
    subst hr
    have hbe := h.stop.resolve_left (fun hne => hne hv0)
    refine ⟨by omega, fun i h1 h2 => ?_, .inl (le_refl _)⟩
    by_cases hib : i / w + 1 < b
    · exact h.zero i h1 hib
    · -- the loop ran to the last word of the run
      rw [h.value i h1 (by rcases hw with rfl | rfl <;> omega), hv0, ofNat_eq_ofNat, getLsbD_zero]
  next hv0 =>
    obtain ⟨hk, hst, hb⟩ := bitScanForward_spec hv0
    generalize bitScanForward v = k at *
    have hlw : b = s / w + 1 → s % w ≤ k := fun he => Nat.le_of_not_lt fun hlt => by
      rw [h.low he k hlt] at hst
      cases hst
    rw [hc (b * w) (by rcases hw with rfl | rfl <;> omega)] at hr
    have hp : s ≤ (b - 1) * w + k := by rcases hw with rfl | rfl <;> omega
    have hl : (b * w + k + 2 ^ w - w - s) % 2 ^ w = (b - 1) * w + k - s := by
      rcases hw with rfl | rfl <;> omega
    rw [hl] at hr
    have hrn : ∀ i, s ≤ i → i < (b - 1) * w + k → bitOf wr i = false := by
      intro i h1 h2
      by_cases hib : i / w + 1 < b
      · exact h.zero i h1 hib
      · rw [h.value i h1 (by rcases hw with rfl | rfl <;> omega), hb _ (by rcases hw with rfl | rfl <;> omega)]
    split at hr
    next =>
      subst hr
      exact ⟨le_refl _, fun i h1 h2 => hrn i h1 (by omega), .inl (by omega)⟩
    next =>
      subst hr
      refine ⟨by omega, fun i h1 h2 => hrn i h1 (by omega), .inr ?_⟩
      have hkm : ((b - 1) * w + k) % w = k := by rcases hw with rfl | rfl <;> omega
      rw [Nat.add_sub_cancel' hp, h.value _ hp (by rcases hw with rfl | rfl <;> omega), hkm, hst]

end FreeNT.Rtl.Words
