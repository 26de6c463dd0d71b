import FreeNT.Rtl.BitmapWords

/-!
# Bitmaps (`lib/rtl/bitmap.c`)

An `RTL_BITMAP` is a size in bits and a buffer of 32-bit words. Bit `i` is bit
`i % 32` of word `i / 32` (`testBit`). The routines work word by word, as the
code does; what they do to single bits is stated after each of them:

* `rtlSetBits_testBit`: exactly the bits of the range are set;
* `rtlClearAllBits_testBit`: no bit is left;
* `rtlpGetLengthOfRun_run`: the length of a run of zero bits.
-/

namespace FreeNT.Rtl

open List

/-- `MAXINDEX`: the value of a search that failed. -/
def MAXINDEX : Nat := 0xFFFFFFFF

structure RtlBitmap where
  SizeOfBitMap : Nat
  Buffer : Nat → BitVec 32

namespace RtlBitmap

/-- Bit `i` (`RtlTestBit`, `RtlCheckBit`). -/
def testBit (bm : RtlBitmap) (i : Nat) : Bool := (bm.Buffer (i / 32)).getLsbD (i % 32)

end RtlBitmap

def rtlInitializeBitMap (buffer : Nat → BitVec 32) (size : Nat) : RtlBitmap := ⟨size, buffer⟩

/-- `RtlFillMemoryUlong` on the buffer: `length / 4` words from word `w` on. -/
def rtlFillMemoryUlong (bm : RtlBitmap) (w length : Nat) (pattern : BitVec 32) : RtlBitmap :=
  { bm with Buffer := Words.fillWords bm.Buffer w length pattern }

lemma fillMemory_testBit (bm : RtlBitmap) (w length : Nat) (p : BitVec 32) (i : Nat) :
    (rtlFillMemoryUlong bm w length p).testBit i =
      if w ≤ i / 32 ∧ i / 32 < w + length / 4 then p.getLsbD (i % 32) else bm.testBit i :=
  Words.bitOf_fillWords bm.Buffer w length p i

def rtlClearAllBits (bm : RtlBitmap) : RtlBitmap :=
  rtlFillMemoryUlong bm 0 ((bm.SizeOfBitMap + 31) / 32 * 4) 0

lemma rtlClearAllBits_testBit (bm : RtlBitmap) {i : Nat} (hi : i < bm.SizeOfBitMap) :
    (rtlClearAllBits bm).testBit i = false := by
  rw [rtlClearAllBits, fillMemory_testBit, if_pos (by omega)]
  exact BitVec.getLsbD_zero

/-! ## Setting a range -/

def rtlSetBits (bm : RtlBitmap) (startingIndex numberToSet : Nat) : RtlBitmap :=
  { bm with Buffer := Words.updateBits (Words.setUpdate 32) bm.Buffer startingIndex numberToSet }

@[simp] lemma rtlSetBits_SizeOfBitMap (bm : RtlBitmap) (s n : Nat) :
    (rtlSetBits bm s n).SizeOfBitMap = bm.SizeOfBitMap := rfl

lemma rtlSetBits_testBit (bm : RtlBitmap) (s n i : Nat) :
    (rtlSetBits bm s n).testBit i = (bm.testBit i || decide (s ≤ i ∧ i < s + n)) := by
  refine (Words.updateBits_bit Words.setUpdate_writes (.inl rfl) bm.Buffer s n i).trans ?_
  split
  next h => rw [decide_eq_true h, Bool.or_true]
  next h => rw [decide_eq_false h, Bool.or_false]; rfl

/-! ## Runs and searches -/

/-- The length of a run of zero bits of `word` from `start` on, at least up to
`maxLength` bits (the two `RtlpGetLengthOfRun` routines differ in the word they
look at only). -/
def rtlpGetLengthOfRun (word : Nat → BitVec 32) (size start maxLength : Nat) : Nat :=
  Words.lengthOfRun id word size start maxLength

variable {s r : Nat}

lemma rtlpGetLengthOfRun_run (w : Nat → BitVec 32) {size : Nat} (ml : Nat)
    (hs : s < size) (hw : s % 32 + min ml (size - s) + 31 < 2 ^ 32)
    (hr : rtlpGetLengthOfRun w size s ml = r) :
    r ≤ size - s ∧ (∀ i, s ≤ i → i < s + r → (w (i / 32)).getLsbD (i % 32) = false) ∧
      (min ml (size - s) ≤ r ∨ (w ((s + r) / 32)).getLsbD ((s + r) % 32)) :=
  Words.lengthOfRun_run (.inl rfl) w ml hs hw (fun _ _ => rfl) hr

def rtlpGetLengthOfRunClear (bm : RtlBitmap) (start maxLength : Nat) : Nat :=
  rtlpGetLengthOfRun bm.Buffer bm.SizeOfBitMap start maxLength

def rtlpGetLengthOfRunSet (bm : RtlBitmap) (start maxLength : Nat) : Nat :=
  rtlpGetLengthOfRun (fun w => ~~~bm.Buffer w) bm.SizeOfBitMap start maxLength

/-- The search loop of `RtlFindClearBits` and `RtlFindSetBits`, entered while `enter` holds: `skip` passes the bits
that are not wanted, and `run` measures the run that follows. `none` if the loop does not end. -/
def searchLoop (skip run : Nat → Nat) (enter : Nat → Prop) [DecidablePred enter] (numberToFind : Nat) :
    Nat → Nat → Option (Option Nat)
  | 0, _ => none
  | fuel + 1, currentBit =>
    if enter currentBit then
      let currentBit := currentBit + skip currentBit
      let currentLength := run currentBit
      if numberToFind ≤ currentLength then some (some currentBit)
      else searchLoop skip run enter numberToFind fuel (currentBit + currentLength)
    else some none

/-- The two passes of both routines: up to the end of the bitmap, and, if the first did not start
there, from the front. A turn of the loop that does not return passes at least one bit or is at
the end of the bitmap, where it stays: with `SizeOfBitMap + 1` turns the loop ends or never does.
-/
def findBits (loop : Nat → Nat → Nat → Option (Option Nat)) (bm : RtlBitmap)
    (numberToFind hintIndex : Nat) : Option Nat :=
  let size := bm.SizeOfBitMap
  if size < numberToFind then some MAXINDEX
  else
    let hintIndex := if size ≤ hintIndex then 0 else hintIndex
    if numberToFind = 0 then some (hintIndex / 8 * 8)
    else
      match loop size (size + 1) hintIndex with
      | none => none
      | some (some i) => some i
      | some none =>
        if hintIndex ≠ 0 then
          (loop (min ((hintIndex + numberToFind) % 2 ^ 32) size) (size + 1) 0).map (·.getD MAXINDEX)
        else some MAXINDEX

def findClearBitsLoop (bm : RtlBitmap) (numberToFind margin : Nat) : Nat → Nat → Option (Option Nat) :=
  searchLoop (rtlpGetLengthOfRunSet bm · MAXINDEX) (rtlpGetLengthOfRunClear bm · numberToFind)
    (fun currentBit => (currentBit + numberToFind) % 2 ^ 32 < margin) numberToFind

def rtlFindClearBits (bm : RtlBitmap) (numberToFind hintIndex : Nat) : Option Nat :=
  findBits (findClearBitsLoop bm numberToFind) bm numberToFind hintIndex

/-- Unlike that of `RtlFindClearBits`, this loop is entered for a run that ends at the margin. -/
def findSetBitsLoop (bm : RtlBitmap) (numberToFind margin : Nat) : Nat → Nat → Option (Option Nat) :=
  searchLoop (rtlpGetLengthOfRunClear bm · MAXINDEX) (rtlpGetLengthOfRunSet bm · numberToFind)
    (fun currentBit => (currentBit + numberToFind) % 2 ^ 32 ≤ margin) numberToFind

def rtlFindSetBits (bm : RtlBitmap) (numberToFind hintIndex : Nat) : Option Nat :=
  findBits (findSetBitsLoop bm numberToFind) bm numberToFind hintIndex

lemma rtlFindSetBits_empty (bm : RtlBitmap) (h : bm.SizeOfBitMap = 0) (hint : Nat) :
    rtlFindSetBits bm 1 hint = some MAXINDEX := by
  unfold rtlFindSetBits findBits; dsimp only
  rw [if_pos (by omega)]

end FreeNT.Rtl
