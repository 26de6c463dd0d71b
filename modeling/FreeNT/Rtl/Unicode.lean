import Mathlib.Tactic.Common
import Mathlib.Tactic.Ring

/-!
# Comparison of Unicode strings

`RtlpUpcaseUnicodeChar` (`sdk/lib/rtl/nls.c`) and the two comparisons built on it
(`sdk/lib/rtl/unicode.c`). A string is the list of its characters;
`NlsUnicodeUpcaseTable` is a parameter.
-/

namespace FreeNT.Rtl

abbrev WChar := BitVec 16

variable (table : WChar → WChar)

def rtlpUpcaseUnicodeChar (source : WChar) : WChar :=
  if source < 0x61 then source
  else if source ≤ 0x7A then source - 0x20
  else
    let offset := table ((source >>> 8) &&& 0xFF)
    let offset := table (offset + ((source >>> 4) &&& 0xF))
    let offset := table (offset + (source &&& 0xF))
    source + offset

/-- What a character counts as under a case rule. -/
def foldCase (caseInsensitive : Bool) (c : WChar) : WChar :=
  if caseInsensitive then rtlpUpcaseUnicodeChar table c else c

def compareLoop (caseInsensitive : Bool) : List WChar → List WChar → Int
  | c₁ :: s₁, c₂ :: s₂ =>
    let ret : Int := (foldCase table caseInsensitive c₁).toNat - (foldCase table caseInsensitive c₂).toNat
    if ret ≠ 0 then ret else compareLoop caseInsensitive s₁ s₂
  | _, _ => 0

def rtlCompareUnicodeString (s₁ s₂ : List WChar) (caseInsensitive : Bool) : Int :=
  let ret := compareLoop table caseInsensitive s₁ s₂
  if ret = 0 then 2 * (s₁.length : Int) - 2 * s₂.length else ret

def rtlEqualUnicodeString (s₁ s₂ : List WChar) (caseInsensitive : Bool) : Bool :=
  if s₁.length ≠ s₂.length then false
  else rtlCompareUnicodeString table s₁ s₂ caseInsensitive == 0

variable {table} {ci : Bool} {s₁ s₂ : List WChar}

lemma compareLoop_eq_zero (hl : s₁.length = s₂.length) : compareLoop table ci s₁ s₂ = 0 ↔
    s₁.map (foldCase table ci) = s₂.map (foldCase table ci) := by
  induction s₁ generalizing s₂ with
  | nil =>
    obtain rfl : s₂ = [] := List.length_eq_zero_iff.mp hl.symm
    exact ⟨fun _ => rfl, fun _ => rfl⟩
  | cons c1 s₁ ih =>
    obtain ⟨c2, s₂, rfl⟩ := List.exists_cons_of_length_eq_add_one hl.symm
    rw [compareLoop, List.map_cons, List.map_cons, List.cons.injEq, ← ih (Nat.succ.inj hl), ← BitVec.toNat_inj]
    split <;> omega

/-- Equal strings are the ones whose characters count as the same. -/
lemma equalString_iff : rtlEqualUnicodeString table s₁ s₂ ci ↔
    s₁.map (foldCase table ci) = s₂.map (foldCase table ci) := by
  unfold rtlEqualUnicodeString
  split
  case isTrue hl =>
    simp only [Bool.false_eq_true, false_iff]
    intro h
    exact hl (by simpa using congrArg List.length h)
  case isFalse hl =>
    have hl : s₁.length = s₂.length := by omega
    rw [← compareLoop_eq_zero hl, beq_iff_eq, rtlCompareUnicodeString]
    split <;> omega

lemma equalString_sensitive : rtlEqualUnicodeString table s₁ s₂ false ↔ s₁ = s₂ := by
  have hid : foldCase table false = id := rfl
  rw [equalString_iff, hid, List.map_id, List.map_id]

lemma map_upcase_of_equal (h : rtlEqualUnicodeString table s₁ s₂ ci) :
    s₁.map (rtlpUpcaseUnicodeChar table) = s₂.map (rtlpUpcaseUnicodeChar table) := by
  cases ci with
  | true => exact equalString_iff.mp h
  | false => rw [equalString_sensitive.mp h]

end FreeNT.Rtl
