import Mathlib.Data.Nat.Digits.Lemmas
import FreeNT.Rtl.Unicode

/-!
# Integer atoms (`sdk/lib/rtl/atom.c`)

A name of `#` and decimal digits stands for the atom of that number, below `0xC000`, and is not in
any table. `RtlpCheckIntegerAtom` reads the digits with `RtlUnicodeStringToInteger`, which counts
modulo `2 ^ 32` and gets no more than 32766 characters, and keeps the low 16 bits of the result.

So 0 and numbers above `0xBFFF` are accepted as long as these bits are below `0xC000`
(`integer_atom_iff`).
-/

namespace FreeNT.Rtl

def hashSign : WChar := 0x23

/-- The digit of a character in `RtlUnicodeStringToInteger`. -/
def digitOf (c : WChar) : Option Nat :=
  if 0x30 ≤ c ∧ c ≤ 0x39 then some (c.toNat - 0x30)
  else if 0x41 ≤ c ∧ c ≤ 0x5A then some (c.toNat - 0x41 + 10)
  else if 0x61 ≤ c ∧ c ≤ 0x7A then some (c.toNat - 0x61 + 10)
  else none

/-- The loop over the digits: it ends at a character that is not a digit of the base. -/
def digitLoop (base : Nat) : List WChar → Nat → Nat
  | [], runningTotal => runningTotal
  | c :: cs, runningTotal =>
    match digitOf c with
    | some digit => if digit < base then digitLoop base cs ((runningTotal * base + digit) % 2 ^ 32) else runningTotal
    | none => runningTotal

/-- `RtlUnicodeStringToInteger` (`sdk/lib/rtl/unicode.c`), for a base that is given. -/
def rtlUnicodeStringToInteger (s : List WChar) (base : Nat) : Nat :=
  match s.dropWhile (· ≤ 0x20) with
  | [] => 0
  | c :: cs =>
    if c = 0x2B then digitLoop base cs 0
    else if c = 0x2D then (2 ^ 32 - digitLoop base cs 0) % 2 ^ 32
    else digitLoop base (c :: cs) 0

/-- `RtlInitUnicodeString` cuts a string off at `MaxSize` bytes. -/
def rtlInitUnicodeString (s : List WChar) : List WChar := s.take 32766

/-- `RtlpCheckIntegerAtom`, for a string. -/
def rtlpCheckIntegerAtom : List WChar → Option Nat
  | [] => none
  | c :: cs =>
    if c = hashSign ∧ cs.all fun d => 0x30 ≤ d ∧ d ≤ 0x39 then some (rtlUnicodeStringToInteger (rtlInitUnicodeString cs) 10 % 2 ^ 16)
    else none

inductive AtomStatus where
  | success
  | invalidParameter
  | bufferTooSmall
  | other
  deriving DecidableEq, Repr

variable {σ : Type*} (addString : σ → List WChar → AtomStatus × Option Nat × σ) (table : σ)

/-- `RtlAddAtomToAtomTable`: what it does with a name that is not an integer atom is `addString`. -/
def rtlAddAtomToAtomTable (atomName : List WChar) : AtomStatus × Option Nat × σ :=
  match rtlpCheckIntegerAtom atomName with
  | some atomValue => if 0xC000 ≤ atomValue then (.invalidParameter, none, table) else (.success, some atomValue, table)
  | none => addString table atomName

/-- The digits of `%lu`. -/
def decimalDigits (n : Nat) : List Nat := if n = 0 then [0] else (Nat.digits 10 n).reverse

def digitChars (ds : List Nat) : List WChar := ds.map fun d => .ofNat 16 (0x30 + d)

/-- The name `#%lu`. -/
def integerAtomName (atom : Nat) : List WChar := hashSign :: digitChars (decimalDigits atom)

/-- `RtlQueryAtomInAtomTable` for an integer atom, with a buffer of `nameLength` bytes: what is copied there. -/
def rtlQueryAtomInAtomTable (atom nameLength : Nat) : AtomStatus × List WChar :=
  let name := integerAtomName atom
  let length := name.length % 2 ^ 8 * 2
  if nameLength < length + 2 then
    if nameLength < 4 then (.bufferTooSmall, []) else (.success, name.take ((nameLength - 2) / 2))
  else (.success, name.take (length / 2))

/-- The number of a sequence of digits. -/
def decimalValue (ds : List Nat) : Nat := Nat.ofDigits 10 ds.reverse

/-- The atom of a number from 1 to `0xBFFF`, and otherwise an invalid parameter; the table is as it was. -/
def IntegerAtomRight (value : Nat) (result : AtomStatus × Option Nat × σ) : Prop :=
  result = if 1 ≤ value ∧ value ≤ 0xBFFF then (.success, some value, table) else (.invalidParameter, none, table)

lemma decimalValue_append (as bs : List Nat) :
    decimalValue (as ++ bs) = decimalValue bs + 10 ^ bs.length * decimalValue as := by
  rw [decimalValue, List.reverse_append, Nat.ofDigits_append, List.length_reverse, decimalValue, decimalValue]

/-- The number of the first digits, which is smaller if there are others, unless both are 0. -/
lemma decimalValue_take (ds : List Nat) (k : Nat) : decimalValue (ds.take k) ≤ decimalValue ds ∧
    (k < ds.length → 0 < decimalValue ds → decimalValue (ds.take k) < decimalValue ds) := by
  have h := decimalValue_append (ds.take k) (ds.drop k)
  rw [List.take_append_drop] at h
  have hk : k < ds.length → 10 ≤ 10 ^ (ds.drop k).length := fun hk => Nat.le_self_pow (by simp; omega) 10
  have hp : 1 ≤ 10 ^ (ds.drop k).length := Nat.one_le_pow _ _ (by omega)
  constructor
  · nlinarith
  · intro hl h0
    nlinarith [hk hl]

variable {ds : List Nat} {n d : Nat}

lemma digitChar_cases (h : d < 10) : digitOf (.ofNat 16 (0x30 + d)) = some d ∧
    (0x30 : WChar) ≤ .ofNat 16 (0x30 + d) ∧ BitVec.ofNat 16 (0x30 + d) ≤ (0x39 : WChar) := by
  revert d
  decide

/-- The loop over decimal digits counts modulo `2 ^ 32`. -/
lemma digitLoop_eq (h : ∀ d ∈ ds, d < 10) (hn : n < 2 ^ 32) :
    digitLoop 10 (digitChars ds) n = (n * 10 ^ ds.length + decimalValue ds) % 2 ^ 32 := by
  induction ds generalizing n with
  | nil => simpa [digitChars, digitLoop, decimalValue] using (Nat.mod_eq_of_lt hn).symm
  | cons d ds ih =>
    obtain ⟨hd, hds⟩ := List.forall_mem_cons.mp h
    have hv : decimalValue (d :: ds) = decimalValue ds + 10 ^ ds.length * d := by
      simpa [decimalValue] using decimalValue_append [d] ds
    simp only [digitChars, List.map_cons, digitLoop, (digitChar_cases hd).1, if_pos hd]
    rw [← digitChars, ih hds (Nat.mod_lt _ (by decide)), hv, List.length_cons]
    refine (((Nat.mod_modEq (n * 10 + d) (2 ^ 32)).mul_right _).add_right _).trans (congrArg (· % 2 ^ 32) ?_)
    ring

lemma stringToInteger_eq (h : ∀ d ∈ ds, d < 10) : rtlUnicodeStringToInteger (digitChars ds)
    10 = decimalValue ds % 2 ^ 32 := by
  cases ds with
  | nil => rfl
  | cons d ds =>
    have hc : ∀ d < 10, ¬ BitVec.ofNat 16 (0x30 + d) ≤ (0x20 : WChar) ∧
      BitVec.ofNat 16 (0x30 + d) ≠ (0x2B : WChar) ∧
      BitVec.ofNat 16 (0x30 + d) ≠ (0x2D : WChar) := by decide
    obtain ⟨h1, h2, h3⟩ := hc d (h d List.mem_cons_self)
    rw [rtlUnicodeStringToInteger, digitChars, List.map_cons, List.dropWhile_cons_of_neg (by simpa using h1)]
    simp only [h2, h3, if_false]
    exact (digitLoop_eq h (by decide)).trans (by rw [Nat.zero_mul, Nat.zero_add])

lemma checkIntegerAtom_eq (h : ∀ d ∈ ds, d < 10) :
    rtlpCheckIntegerAtom (hashSign :: digitChars ds) = some (decimalValue (ds.take 32766) % 2 ^ 16) := by
  have hall : (digitChars ds).all (fun d => 0x30 ≤ d ∧ d ≤ 0x39) = true := by
    rw [List.all_eq_true]
    intro c hc
    obtain ⟨d, hd, rfl⟩ := List.mem_map.mp hc
    simpa using (digitChar_cases (h d hd)).2
  have ht : rtlInitUnicodeString (digitChars ds) = digitChars (ds.take 32766) := (List.map_take ..).symm
  simp only [rtlpCheckIntegerAtom, hall, and_self, if_true, ht]
  rw [stringToInteger_eq fun d hd => h d (List.mem_of_mem_take hd)]
  congr 1
  omega

lemma decimalDigits_spec (h1 : 1 ≤ n) (h2 : n < 0xC000) :
    (decimalDigits n).length ≤ 5 ∧ decimalValue (decimalDigits n) = n ∧ ∀ d ∈ decimalDigits n, d < 10 := by
  have hd : decimalDigits n = (Nat.digits 10 n).reverse := if_neg (by omega)
  rw [hd]
  refine ⟨?_, ?_, fun d h => Nat.digits_lt_base (m := n) (by omega) (List.mem_reverse.mp h)⟩
  · rw [List.length_reverse, Nat.digits_length_le_iff (by omega)]
    omega
  · rw [decimalValue, List.reverse_reverse, Nat.ofDigits_digits]

/-- The first digits of an atom are those of one that is not larger. -/
lemma addAtom_take (h1 : 1 ≤ n) (h2 : n < 0xC000) (k : Nat) :
    rtlAddAtomToAtomTable addString table (hashSign :: digitChars ((decimalDigits n).take k)) =
      (.success, some (decimalValue ((decimalDigits n).take k)), table) := by
  obtain ⟨hk, hv, hlt⟩ := decimalDigits_spec h1 h2
  have hle := (decimalValue_take (decimalDigits n) k).1
  rw [rtlAddAtomToAtomTable, checkIntegerAtom_eq fun d h => hlt d (List.mem_of_mem_take h),
    List.take_of_length_le (by simp; omega),
    Nat.mod_eq_of_lt (by omega)]
  exact if_neg (by omega)

lemma addAtom_right_iff (h : ∀ d ∈ ds, d < 10) :
    IntegerAtomRight table (decimalValue ds) (rtlAddAtomToAtomTable addString table (hashSign :: digitChars ds)) ↔
      (ds.length ≤ 32766 ∧ 1 ≤ decimalValue ds ∧ decimalValue ds ≤ 0xBFFF) ∨
        0xC000 ≤ decimalValue (ds.take 32766) % 2 ^ 16 := by
  obtain ⟨hle, hlt⟩ := decimalValue_take ds 32766
  have hsame : ds.length ≤ 32766 → decimalValue (ds.take 32766) = decimalValue ds :=
    fun hl => by rw [List.take_of_length_le hl]
  rw [IntegerAtomRight, rtlAddAtomToAtomTable, checkIntegerAtom_eq h]
  dsimp only
  split
  · rename_i ha
    refine iff_of_true ?_ (.inr ha)
    rw [if_neg (by omega)]
  split
  · rename_i hv
    simp only [Prod.mk.injEq, Option.some.injEq, and_true, true_and]
    omega
  · rename_i hv
    simp
    omega

/-- A name of digits is treated rightly if and only if it is not cut off and its number is from 1
to `0xBFFF`, or the low 16 bits of the number that is read are not those of an atom. The name
returned for an atom gives it back if and only if it is not cut off. -/
theorem integer_atom_iff :
    (∀ ds : List Nat, ds ≠ [] → (∀ d ∈ ds, d < 10) →
      (IntegerAtomRight table (decimalValue ds)
        (rtlAddAtomToAtomTable addString table (hashSign :: digitChars ds)) ↔
        (ds.length ≤ 32766 ∧ 1 ≤ decimalValue ds ∧ decimalValue ds ≤ 0xBFFF) ∨
          0xC000 ≤ decimalValue (ds.take 32766) % 2 ^ 16)) ∧
    ∀ atom nameLength, 1 ≤ atom → atom < 0xC000 → 4 ≤ nameLength → ∃ name,
      rtlQueryAtomInAtomTable atom nameLength = (.success, name) ∧
      (rtlAddAtomToAtomTable addString table name = (.success, some atom, table) ↔
        2 * (integerAtomName atom).length + 2 ≤ nameLength) := by
  refine ⟨fun ds _ h => addAtom_right_iff addString table h, fun atom nameLength h1 h2 h4 => ?_⟩
  obtain ⟨hk, hv, -⟩ := decimalDigits_spec h1 h2
  have hn : (integerAtomName atom).length = (decimalDigits atom).length + 1 := by
    simp [integerAtomName, digitChars]
  rw [rtlQueryAtomInAtomTable, Nat.mod_eq_of_lt (by omega)]
  by_cases hr : 2 * (integerAtomName atom).length + 2 ≤ nameLength
  · refine ⟨integerAtomName atom, ?_, iff_of_true ?_ hr⟩
    · rw [if_neg (by omega), List.take_of_length_le (by omega)]
    · have h := addAtom_take addString table h1 h2 5
      rwa [List.take_of_length_le hk, hv] at h
  · obtain ⟨k, hc⟩ : ∃ k, (nameLength - 2) / 2 = k + 1 := ⟨(nameLength - 2) / 2 - 1, by omega⟩
    have hcut := (decimalValue_take (decimalDigits atom) k).2 (by omega) (by omega)
    refine ⟨hashSign :: digitChars ((decimalDigits atom).take k), ?_, iff_of_false ?_ hr⟩
    · rw [if_pos (by omega), if_neg (by omega), hc, integerAtomName, List.take_succ_cons,
        digitChars, ← List.map_take, digitChars]
    · rw [addAtom_take addString table h1 h2]
      simp
      omega

/-- The name `#48` for the atom 48. -/
theorem integer_atom_small :
    IntegerAtomRight () 48 (rtlAddAtomToAtomTable (fun t _ =>
      (.other, none, t)) () (hashSign :: digitChars [4, 8])) ∧
    ∃ name, rtlQueryAtomInAtomTable 48 8 = (.success, name) ∧
      (rtlAddAtomToAtomTable (fun t _ => (.other, none, t)) () name = (.success, some 48, ()) ↔
        2 * (integerAtomName 48).length + 2 ≤ 8) :=
  have h := integer_atom_iff (fun t _ => (.other, none, t)) ()
  ⟨(h.1 [4, 8] (by simp) (by simp)).2 (.inl (by decide)), h.2 48 8 (by omega) (by omega) (by omega)⟩

/-- `#0` gives the atom 0 and `#65537` the atom 1. -/
theorem integer_atom_wrong :
    ¬ IntegerAtomRight () (decimalValue [0])
      (rtlAddAtomToAtomTable (fun t _ => (.other, none, t)) () (hashSign :: digitChars [0])) ∧
    rtlAddAtomToAtomTable (fun t _ =>
      (.other, none, t)) () (hashSign :: digitChars [6, 5, 5, 3, 7]) = (.success, some 1, ()) := by
  unfold IntegerAtomRight
  decide

end FreeNT.Rtl
