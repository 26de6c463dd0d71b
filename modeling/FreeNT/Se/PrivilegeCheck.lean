import FreeNT.Se.AccessRights
import Mathlib.Data.List.Forall2

/-!
# Privilege checks (`SepPrivilegeCheck`)

`SepPrivilegeCheck` counts down the privileges that are still required and marks those it finds enabled in
the token. The array of the caller is a list, its count is the length.
-/

namespace FreeNT.Se

open List

def privilegeSetAllNecessary : BitVec 32 := 1
def sePrivilegeUsedForAccess : BitVec 32 := 0x80000000

/-- `Privileges[i].Attributes |= SE_PRIVILEGE_USED_FOR_ACCESS`. -/
def LuidAndAttributes.used (p : LuidAndAttributes) : LuidAndAttributes :=
  { p with Attributes := p.Attributes ||| sePrivilegeUsedForAccess }

/-- The loop over the requested privileges: the result, and the entries as it leaves them. The
loop over those of the token, which is left at the first one with the identifier, is all that a
single check does. -/
def privilegeLoop (token : Token) : List LuidAndAttributes → Nat → Option (Bool × List LuidAndAttributes)
  | [], required => if 0 < required then some (false, []) else none
  | p :: rest, required =>
    if sepSinglePrivilegeCheck p.Luid token then
      if required - 1 = 0 then some (true, p.used :: rest)
      else (privilegeLoop token rest (required - 1)).map fun res => (res.1, p.used :: res.2)
    else (privilegeLoop token rest required).map fun res => (res.1, p :: res.2)

/-- `PrivilegeControl & PRIVILEGE_SET_ALL_NECESSARY`. -/
def AllNecessary (control : BitVec 32) : Prop := control &&& privilegeSetAllNecessary ≠ 0
  deriving Decidable

def sepPrivilegeCheck (token : Token) (privileges : List LuidAndAttributes) (control : BitVec 32)
    (userMode : Bool) :
    Option (Bool × List LuidAndAttributes) :=
  if !userMode then some (true, privileges)
  else privilegeLoop token privileges (if AllNecessary control then privileges.length else 1)

/-- The privilege is enabled in the token. -/
def Enabled (token : Token) (luid : Nat) : Prop :=
  ∃ p ∈ token.Privileges, p.Luid = luid ∧ p.Attributes &&& sePrivilegeEnabled ≠ 0

/-- An entry before and after the check: it is marked only if it is enabled, and if `all` holds exactly then. -/
def Marks (token : Token) (all : Prop) (p q : LuidAndAttributes) : Prop :=
  q = p.used ∧ Enabled token p.Luid ∨ q = p ∧ (all → ¬ Enabled token p.Luid)

/-- The check returns the quantifier that is asked for, and marks the entries. -/
def PrivilegesChecked (token : Token) (privileges : List LuidAndAttributes) (control : BitVec 32) : Prop :=
  ∃ granted after, sepPrivilegeCheck token privileges control true = some (granted, after) ∧
    (granted = true ↔ if AllNecessary control then ∀ p ∈ privileges, Enabled token p.Luid
      else ∃ p ∈ privileges, Enabled token p.Luid) ∧
    Forall₂ (Marks token (AllNecessary control)) privileges after

variable {token : Token} {privileges : List LuidAndAttributes} {control : BitVec 32}

section
variable (hdistinct : token.Privileges.Pairwise (·.Luid ≠ ·.Luid))
include hdistinct

lemma enabled_iff {l : Nat} : sepSinglePrivilegeCheck l token ↔ Enabled token l := by
  unfold sepSinglePrivilegeCheck
  constructor
  · intro h
    split at h
    · rename_i p hp
      exact ⟨p, mem_of_find?_eq_some hp, by simpa using find?_some hp, bne_iff_ne.mp h⟩
    · cases h
  rintro ⟨p, hp, rfl, hon⟩
  obtain ⟨xs, ys, heq⟩ := append_of_mem hp
  rw [heq, pairwise_append] at hdistinct
  have hf : xs.find? (·.Luid == p.Luid) = none :=
    find?_eq_none.mpr fun x hx h => hdistinct.2.2 x hx p mem_cons_self (beq_iff_eq.mp h)
  simpa [heq, find?_append, hf] using hon

/-- The loop finds all if as many are enabled as are required. -/
lemma privilegeLoop_spec {r : Nat} {all : Prop} (hps : 0 < r) (ha : all → privileges.length ≤ r) :
    ∃ found after, privilegeLoop token privileges r = some (found, after) ∧
      (found = true ↔ r ≤ privileges.countP fun p => sepSinglePrivilegeCheck p.Luid token) ∧
      Forall₂ (Marks token all) privileges after := by
  induction privileges generalizing r with
  | nil => exact ⟨false, [], if_pos hps, by simp; omega, .nil⟩
  | cons p rs ih =>
    simp only [privilegeLoop, countP_cons, length_cons] at ha ⊢
    by_cases hp : sepSinglePrivilegeCheck p.Luid token
    swap
    · obtain ⟨found, after, heq, hf, haf⟩ := ih hps fun h => Nat.le_of_succ_le (ha h)
      exact ⟨found, _, by rw [if_neg hp, heq]; rfl, by rw [hf, if_neg hp, Nat.add_zero],
        .cons (.inr ⟨rfl, fun _ => mt (enabled_iff hdistinct).mpr hp⟩) haf⟩
    simp only [if_pos hp]
    have hm : Marks token all p p.used := .inl ⟨rfl, (enabled_iff hdistinct).mp hp⟩
    by_cases hl : r - 1 = 0
    · -- the entries that follow are not looked at; there are none if all are required
      refine ⟨true, _, if_pos hl, iff_of_true rfl (by omega), .cons hm ?_⟩
      refine forall₂_same.mpr fun q hq => .inr ⟨rfl, fun h => ?_⟩
      have := length_pos_of_mem hq
      have := ha h
      omega
    · obtain ⟨found, after, heq, hf, haf⟩ := @ih (r - 1) (by omega) fun h => Nat.le_sub_one_of_lt (ha h)
      exact ⟨found, _, by rw [if_neg hl, heq]; rfl, by rw [hf]; omega, .cons hm haf⟩

/-- The check is right except for a request of all of no privileges. -/
theorem privilegesChecked_iff :
    PrivilegesChecked token privileges control ↔ ¬ (privileges = [] ∧ AllNecessary control) := by
  have he (p : LuidAndAttributes) := @enabled_iff token hdistinct p.Luid
  simp only [PrivilegesChecked, sepPrivilegeCheck, Bool.not_true, Bool.false_eq_true, if_false]
  by_cases hal : AllNecessary control
  · simp only [if_pos hal]
    constructor
    · rintro ⟨g, after, heq, -⟩ ⟨rfl, -⟩
      cases heq
    intro hne
    obtain ⟨found, after, heq, hf, ha⟩ := privilegeLoop_spec hdistinct
      (length_pos_iff.mpr fun hn => hne ⟨hn, hal⟩) fun _ : AllNecessary control => Nat.le_refl privileges.length
    refine ⟨found, after, heq, hf.trans ?_, ha⟩
    rw [← Nat.le_antisymm_iff.trans (and_iff_right countP_le_length), countP_eq_length]
    exact forall₂_congr fun p _ => he p
  simp only [if_neg hal]
  refine iff_of_true ?_ fun h => hal h.2
  obtain ⟨found, after, heq, hf, ha⟩ := privilegeLoop_spec hdistinct Nat.one_pos fun h => absurd h hal
  refine ⟨found, after, heq, hf.trans (countP_pos_iff.trans ?_), ha⟩
  exact exists_congr fun p => and_congr_right fun _ => he p

end

/-- A token with two privileges, of which one is enabled. -/
def backupToken : Token := { userToken ⟨1, 5, [18]⟩ with Privileges := [⟨17, sePrivilegeEnabled⟩, ⟨18, 0⟩] }

theorem privilegesChecked_backup : PrivilegesChecked backupToken [⟨17, 0⟩, ⟨18, 0⟩] privilegeSetAllNecessary :=
  (privilegesChecked_iff (by simp [backupToken])).mpr fun h => cons_ne_nil _ _ h.1

/-- All of no privileges are enabled, but the check fails its assertion. -/
theorem privilegesChecked_fails : backupToken.Privileges.Pairwise (·.Luid ≠ ·.Luid) ∧
    (∀ p ∈ ([] : List LuidAndAttributes), Enabled backupToken p.Luid) ∧
      sepPrivilegeCheck backupToken [] privilegeSetAllNecessary true = none :=
  ⟨by simp [backupToken], nofun, rfl⟩

end FreeNT.Se
