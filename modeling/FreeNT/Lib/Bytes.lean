import Mathlib.Data.List.GetD
import FreeNT.Lib.Memory

/-!
# Byte strings in memory

Bytes and 16-bit words of a memory, and byte strings laid out in it.
`Holds m a bs` says that the string `bs` stands at `a`; a string that is put
together from parts stands in memory part after part (`holds_append`).
-/

namespace FreeNT

open List

namespace Mem

/-- The 16-bit little-endian word at `a`. -/
def readUshort (m : Mem) (a : Nat) : Nat := (m a).toNat + 2 ^ 8 * (m (a + 1)).toNat

/-- Store the low 8 bits of `v` at `a`. -/
def writeUchar (m : Mem) (a v : Nat) : Mem := fun x => if x = a then BitVec.ofNat 8 v else m x

/-- Store the low 16 bits of `v` at `a`. -/
def writeUshort (m : Mem) (a v : Nat) : Mem := fun x =>
  if a ≤ x ∧ x < a + 2 then BitVec.ofNat 8 (v / 2 ^ (8 * (x - a))) else m x

/-- The `n` bytes at `a`. -/
def bytes (m : Mem) (a n : Nat) : List Byte := (List.range n).map fun i => m (a + i)

/-- The string `bs` stands at `a`. -/
def Holds (m : Mem) (a : Nat) (bs : List Byte) : Prop := ∀ i < bs.length, m (a + i) = bs.getD i 0

/-- The `n` bytes at `b` of `m'` are those at `a` of `m`. -/
def Copied (m m' : Mem) (a b n : Nat) : Prop := ∀ i < n, m' (b + i) = m (a + i)

/-- The bytes of a 16-bit word. -/
def ushortBytes (v : Nat) : List Byte := [BitVec.ofNat 8 v, BitVec.ofNat 8 (v / 2 ^ 8)]

/-- The bytes of a 32-bit word. -/
def ulongBytes (v : Nat) : List Byte :=
  [BitVec.ofNat 8 v, BitVec.ofNat 8 (v / 2 ^ 8), BitVec.ofNat 8 (v / 2 ^ 16), BitVec.ofNat 8 (v / 2 ^ 24)]

variable {m m' : Mem} {a b n : Nat} {bs cs : List Byte}

lemma readUshort_lt (m : Mem) (a : Nat) : m.readUshort a < 2 ^ 16 := by
  unfold readUshort; omega

lemma readUshort_congr (h : Agree m m' a 2) : m'.readUshort a = m.readUshort a := by
  unfold readUshort
  rw [h a (by omega) (by omega), h (a + 1) (by omega) (by omega)]

lemma writeUchar_sep (m : Mem) (v : Nat) (h : b + n ≤ a ∨ a + 1 ≤ b) :
    Agree m (m.writeUchar a v) b n := fun x hx hx' => if_neg (by omega)

lemma writeUshort_sep (m : Mem) (v : Nat) (h : b + n ≤ a ∨ a + 2 ≤ b) :
    Agree m (m.writeUshort a v) b n := fun x hx hx' => if_neg (by omega)

lemma writeUchar_self (m : Mem) (a v : Nat) : m.writeUchar a v a = BitVec.ofNat 8 v := if_pos rfl

lemma readUshort_self (m : Mem) (a v : Nat) : (m.writeUshort a v).readUshort a = v % 2 ^ 16 := by
  simp only [readUshort, writeUshort, show a ≤ a ∧ a < a + 2 by omega,
    show a ≤ a + 1 ∧ a + 1 < a + 2 by omega, and_self, ite_true, BitVec.toNat_ofNat, Nat.sub_self,
    Nat.add_sub_cancel_left, Nat.mul_zero, Nat.pow_zero, Nat.div_one]
  omega

@[simp] lemma length_bytes (m : Mem) (a n : Nat) : (m.bytes a n).length = n := by simp [bytes]

variable {i n : Nat}

lemma getD_bytes (m : Mem) (a : Nat) (h : i < n) : (m.bytes a n).getD i 0 = m (a + i) := by
  simp [bytes, getD, h]

lemma holds_bytes (m : Mem) (a n : Nat) : Holds m a (m.bytes a n) := by
  intro i hi
  rw [length_bytes] at hi
  rw [getD_bytes m a hi]

lemma Holds.bytes_eq (h : Holds m a bs) : m.bytes a bs.length = bs := by
  apply ext_getElem?
  intro i
  by_cases hi : i < bs.length
  · have := h i hi
    simp only [bytes, getElem?_map, getElem?_range hi, Option.map_some, this]
    simp [getD, hi]
  · rw [getElem?_eq_none (by rw [length_bytes]; omega), getElem?_eq_none (by omega)]

lemma holds_nil (m : Mem) (a : Nat) : Holds m a [] := fun i hi => absurd hi (Nat.not_lt_zero i)

lemma holds_append : Holds m a (bs ++ cs) ↔ Holds m a bs ∧ Holds m (a + bs.length) cs := by
  constructor
  · intro h
    refine ⟨fun i hi => ?_, fun i hi => ?_⟩
    · rw [h i (by rw [length_append]; omega), getD_append _ _ _ _ hi]
    · rw [Nat.add_assoc, h _ (by rw [length_append]; omega), getD_append_right _ _ _ _ (by omega),
        Nat.add_sub_cancel_left]
  rintro ⟨h1, h2⟩ i hi
  rw [length_append] at hi
  by_cases hlt : i < bs.length
  · rw [h1 i hlt, getD_append _ _ _ _ hlt]
  have := h2 (i - bs.length) (by omega)
  rw [show a + bs.length + (i - bs.length) = a + i by omega] at this
  rw [this, getD_append_right _ _ _ _ (by omega)]

lemma Holds.congr (h : Holds m a bs) (hm : Agree m m' a bs.length) : Holds m' a bs := by
  intro i hi
  rw [hm (a + i) (by omega) (by omega), h i hi]

lemma Holds.append (h : Holds m a bs) (hm : Agree m m' a bs.length) (hc : Holds m' b cs)
    (hb : b = a + bs.length) : Holds m' a (bs ++ cs) :=
  holds_append.mpr ⟨h.congr hm, hb ▸ hc⟩

lemma Holds.copy (h : Holds m b bs) (d : Mem) (a : Nat) (hn : bs.length ≤ n) : Holds (d.copy a m b n) a bs := by
  intro i hi
  rw [← h i hi]
  show (if a ≤ a + i ∧ a + i < a + n then m (b + (a + i - a)) else d (a + i)) = _
  rw [if_pos (by omega), Nat.add_sub_cancel_left]

lemma holds_writeUchar (m : Mem) (a v : Nat) : Holds (m.writeUchar a v) a [BitVec.ofNat 8 v] := by
  intro i hi
  obtain rfl : i = 0 := by simpa using hi
  exact writeUchar_self m a v

lemma holds_writeUshort (m : Mem) (a v : Nat) : Holds (m.writeUshort a v) a (ushortBytes v) := by
  intro i hi
  have hi : i < 2 := hi
  rw [writeUshort, if_pos (by omega), Nat.add_sub_cancel_left]
  obtain rfl | rfl : i = 0 ∨ i = 1 := by omega
  · simp [ushortBytes]
  · rfl

lemma holds_writeUlong (m : Mem) (a v : Nat) : Holds (m.writeUlong a v) a (ulongBytes v) := by
  intro i hi
  have hi : i < 4 := hi
  rw [writeUlong, if_pos (by omega), Nat.add_sub_cancel_left]
  obtain rfl | rfl | rfl | rfl : i = 0 ∨ i = 1 ∨ i = 2 ∨ i = 3 := by omega
  · simp [ulongBytes]
  all_goals rfl

lemma Copied.readUshort (h : Copied m m' a b n) (hi : i + 1 < n) :
    m'.readUshort (b + i) = m.readUshort (a + i) := by
  unfold Mem.readUshort
  rw [h i (by omega), Nat.add_assoc, Nat.add_assoc, h (i + 1) hi]

lemma Copied.mono {k : Nat} (h : Copied m m' a b n) (hk : k ≤ n) : Copied m m' a b k := fun i hi => h i (by omega)

lemma Copied.trans {m1 m2 m3 : Mem} {a b c : Nat} (h1 : Copied m1 m2 a b n)
    (h2 : Copied m2 m3 b c n) : Copied m1 m3 a c n := fun i hi => (h2 i hi).trans (h1 i hi)

lemma Copied.congr {m1 m2 m3 : Mem} {a b : Nat} (h : Copied m1 m2 a b n) (hm : Agree m2 m3 b n) :
    Copied m1 m3 a b n := fun i hi => (hm (b + i) (by omega) (by omega)).trans (h i hi)

lemma copied_copy (d m : Mem) (a b n : Nat) : Copied m (d.copy b m a n) a b n := by
  intro i hi
  show (if b ≤ b + i ∧ b + i < b + n then m (a + (b + i - b)) else d (b + i)) = _
  rw [if_pos (by omega), Nat.add_sub_cancel_left]

lemma Holds.readUshort (h : Holds m a bs) (hi : i + 1 < bs.length) :
    m.readUshort (a + i) = (bs.getD i 0).toNat + 2 ^ 8 * (bs.getD (i + 1) 0).toNat := by
  unfold Mem.readUshort
  rw [h i (by omega), Nat.add_assoc, h (i + 1) hi]

end Mem

end FreeNT
