import FreeNT.Lib.Run
import Mathlib.Tactic.Ring
import Mathlib.Tactic.Push

/-!
# Byte memory

A memory is a function from addresses to bytes. Little-endian 32-bit words are
read as natural numbers (`readUlong`) or as signed integers (`readLong`), and
written back (`writeUlong`); `fill` and `copy` are the two block operations.
The lemmas give what a read sees after a write: the value written, at the same
place (`_self`), and the old value, at a place apart from it (`_sep`).
`Agree m m' a n` says that two memories hold the same bytes on `[a, a + n)`.
-/

namespace FreeNT

abbrev Byte := BitVec 8

abbrev Mem := Nat → Byte

/-- The two's complement value of a 32-bit word. -/
def toLong (n : Nat) : Int := if n < 2 ^ 31 then n else (n : Int) - 2 ^ 32

/-- The 32-bit word of an integer. -/
def ofLong (i : Int) : Nat := (i % 2 ^ 32).toNat

lemma ofLong_lt (i : Int) : ofLong i < 2 ^ 32 := by unfold ofLong; omega

lemma toLong_ofLong {i : Int} (h1 : -2 ^ 31 ≤ i) (h2 : i < 2 ^ 31) : toLong (ofLong i) = i := by
  unfold toLong ofLong; split <;> omega

variable {n : Nat}

lemma toLong_of_lt (h : n < 2 ^ 31) : toLong n = n := by unfold toLong; omega

namespace Mem

/-- The 32-bit little-endian word at `a`. -/
def readUlong (m : Mem) (a : Nat) : Nat :=
  (m a).toNat + 2 ^ 8 * (m (a + 1)).toNat + 2 ^ 16 * (m (a + 2)).toNat + 2 ^ 24 * (m (a + 3)).toNat

/-- The signed 32-bit little-endian word at `a`. -/
def readLong (m : Mem) (a : Nat) : Int := toLong (m.readUlong a)

/-- Store the low 32 bits of `v` at `a`. -/
def writeUlong (m : Mem) (a v : Nat) : Mem := fun x =>
  if a ≤ x ∧ x < a + 4 then BitVec.ofNat 8 (v / 2 ^ (8 * (x - a))) else m x

/-- Store the signed word `i` at `a`. -/
def writeLong (m : Mem) (a : Nat) (i : Int) : Mem := m.writeUlong a (ofLong i)

/-- Set the `n` bytes at `a` to `b`. -/
def fill (m : Mem) (a n : Nat) (b : Byte) : Mem := fun x => if a ≤ x ∧ x < a + n then b else m x

/-- Copy the `n` bytes at `s` of `src` to `d`. -/
def copy (m : Mem) (d : Nat) (src : Mem) (s n : Nat) : Mem := fun x =>
  if d ≤ x ∧ x < d + n then src (s + (x - d)) else m x

/-- The two memories hold the same `n` bytes at `a`. -/
def Agree (m m' : Mem) (a n : Nat) : Prop := ∀ x, a ≤ x → x < a + n → m' x = m x

lemma Agree.refl (m : Mem) (a n : Nat) : Agree m m a n := fun _ _ _ => rfl

variable {a : Nat}

lemma Agree.trans {m1 m2 m3 : Mem} (h1 : Agree m1 m2 a n) (h2 : Agree m2 m3 a n) :
    Agree m1 m3 a n := fun x hx hx' => (h2 x hx hx').trans (h1 x hx hx')

variable {m m' : Mem}

variable {b k : Nat}

lemma Agree.sub (h : Agree m m' a n) (hb : a ≤ b) (hk : b + k ≤ a + n) :
    Agree m m' b k := fun x hx hx' => h x (by omega) (by omega)

lemma readUlong_lt (m : Mem) (a : Nat) : m.readUlong a < 2 ^ 32 := by
  unfold readUlong; omega

lemma readUlong_congr (h : Agree m m' a 4) : m'.readUlong a = m.readUlong a := by
  unfold readUlong
  rw [h a (by omega) (by omega), h (a + 1) (by omega) (by omega), h (a + 2) (by omega) (by omega),
    h (a + 3) (by omega) (by omega)]

lemma readLong_congr (h : Agree m m' a 4) : m'.readLong a = m.readLong a := by
  unfold readLong; rw [readUlong_congr h]

lemma writeUlong_of_ne (m : Mem) (v : Nat) {x : Nat} (h : x < a ∨ a + 4 ≤ x) :
    m.writeUlong a v x = m x := if_neg (by omega)

lemma writeUlong_sep (m : Mem) (v : Nat) (h : b + n ≤ a ∨ a + 4 ≤ b) :
    Agree m (m.writeUlong a v) b n := fun x hx hx' => if_neg (by omega)

lemma fill_sep (m : Mem) (c : Byte) (h : b + n ≤ a ∨ a + k ≤ b) :
    Agree m (m.fill a k c) b n := fun x hx hx' => if_neg (by omega)

lemma copy_sep (m sr : Mem) {d s : Nat} (h : b + n ≤ d ∨ d + k ≤ b) :
    Agree m (m.copy d sr s k) b n := fun x hx hx' => if_neg (by omega)

lemma readUlong_self (m : Mem) (a v : Nat) : (m.writeUlong a v).readUlong a = v % 2 ^ 32 := by
  simp only [readUlong, writeUlong, show a ≤ a ∧ a < a + 4 by omega, show a ≤ a + 1 ∧ a + 1 < a + 4 by omega,
    show a ≤ a + 2 ∧ a + 2 < a + 4 by omega, show a ≤ a + 3 ∧ a + 3 < a + 4 by omega, and_self, ite_true,
    BitVec.toNat_ofNat, Nat.sub_self, Nat.add_sub_cancel_left, Nat.mul_zero, Nat.pow_zero, Nat.div_one]
  omega

lemma readUlong_sep (m : Mem) (v : Nat) (h : b + 4 ≤ a ∨ a + 4 ≤ b) :
    (m.writeUlong a v).readUlong b = m.readUlong b := readUlong_congr (writeUlong_sep m v h)

lemma readUlong_writeLong_self (m : Mem) (a : Nat) (i : Int) : (m.writeLong a i).readUlong a = ofLong i := by
  have := ofLong_lt i
  rw [writeLong, readUlong_self, Nat.mod_eq_of_lt this]

lemma readLong_writeLong_self (m : Mem) (a : Nat) {i : Int} (h1 : -2 ^ 31 ≤ i) (h2 : i < 2 ^ 31) :
    (m.writeLong a i).readLong a = i := by
  rw [readLong, readUlong_writeLong_self, toLong_ofLong h1 h2]

lemma readUlong_of_readLong {s : Int} (h : m.readLong a = s) (hs : 0 ≤ s) : m.readUlong a = s.toNat := by
  have := m.readUlong_lt a
  unfold readLong toLong at h; split at h <;> omega

end Mem

end FreeNT
