import FreeNT.Rtl.Acl

/-!
# What a valid ACL holds

`RtlValidAcl` walks the ACEs. Every ACE it has passed lies in the first `AclSize`
bytes. The mask and the SID of an ACE need not lie in the ACE: the test of the
plain types leaves out the four bytes of the mask, and the SIDs of the other
types are not looked at.
-/

namespace FreeNT.Rtl

variable {m : Mem} {acl s ace n i : Nat}

/-- The `i`-th ACE of the list. -/
def aceAt (m : Mem) (acl i : Nat) : Nat := skipAces m i (acl + 8)

/-- The bytes of the GUIDs that the flags of an object ACE announce. -/
def guidBytes (m : Mem) (ace : Nat) : Nat :=
  (if (m.readUlong (ace + 8)).testBit 0 then 16 else 0) +
    (if (m.readUlong (ace + 8)).testBit 1 then 16 else 0)

/-- Where the SID of an ACE stands: behind the mask, and behind the compound type
or the object flags and the GUIDs. -/
def sidStart (m : Mem) (ace : Nat) : Nat :=
  if aceType m ace = 4 then ace + 12
  else if 5 ≤ aceType m ace ∧ aceType m ace ≤ 8 then ace + 12 + guidBytes m ace
  else ace + 8

/-- The whole mask and the whole SID lie inside the ACE. -/
def MaskAndSidInside (m : Mem) (ace : Nat) : Prop :=
  ace + 4 + 4 ≤ ace + aceSize m ace ∧ sidStart m ace + rtlLengthSid m (sidStart m ace) ≤ ace + aceSize m ace

/-- The sizes for which the mask and the SID of an ACE that passed lie inside it. -/
def SizeCovers (m : Mem) (ace : Nat) : Prop :=
  (aceType m ace ≤ 3 → aceSize m ace ≠ 4 + rtlLengthSid m (ace + 8)) ∧
    (3 < aceType m ace → sidStart m ace + rtlLengthSid m (sidStart m ace) ≤ ace + aceSize m ace)

instance : Decidable (MaskAndSidInside m ace) := by unfold MaskAndSidInside; infer_instance

lemma validAce_iff : validAce m s ace ↔ ace + 4 < s ∧ aceSize m ace % 2 = 0 ∧ ace + aceSize m ace ≤ s ∧
      (aceType m ace ≤ 3 → aceSize m ace % 4 = 0 ∧ sidRevision m (ace + 8) = 1 ∧
        subAuthorityCount m (ace + 8) ≤ 15 ∧ 4 + rtlLengthSid m (ace + 8) ≤ aceSize m ace) ∧
      (8 < aceType m ace → 4 ≤ aceSize m ace) := by
  unfold validAce rtlLengthSid
  split <;> [skip; split <;> [skip; split <;> [skip; split]]]
  case isTrue h => simp only [Bool.false_eq_true, false_iff]; omega
  case isFalse.isTrue h => simp only [Bool.false_eq_true, false_iff]; omega
  case isFalse.isFalse.isTrue h => simp only [Bool.false_eq_true, false_iff]; omega
  case isFalse.isFalse.isFalse.isTrue h =>
    split <;> [skip; split <;> [skip; split <;> [skip; split]]]
    all_goals simp only [Bool.false_eq_true, false_iff, Bool.not_eq_true', decide_eq_false_iff_not]
    all_goals omega
  case isFalse.isFalse.isFalse.isFalse h =>
    split <;> [skip; split]
    all_goals simp only [true_iff, Bool.not_eq_true', decide_eq_false_iff_not]
    all_goals omega

lemma sidStart_plain (h : aceType m ace ≤ 3) : sidStart m ace = ace + 8 := by
  unfold sidStart
  rw [if_neg (by omega), if_neg (by omega)]

lemma add_eight_le_sidStart (m : Mem) (ace : Nat) : ace + 8 ≤ sidStart m ace := by
  unfold sidStart
  split
  · omega
  · split <;> omega

lemma maskAndSidInside_iff (h : validAce m s ace) : MaskAndSidInside m ace ↔ SizeCovers m ace := by
  obtain ⟨-, -, -, hp, -⟩ := validAce_iff.mp h
  unfold MaskAndSidInside SizeCovers
  by_cases ht : aceType m ace ≤ 3
  · -- the size and the length of the SID are multiples of 4, so what misses is the mask
    obtain ⟨h4, -, -, hl⟩ := hp ht
    rw [sidStart_plain ht]
    simp only [rtlLengthSid] at hl ⊢
    omega
  have := add_eight_le_sidStart m ace
  omega

lemma validLoop_aces (h : validLoop m s n ace) (hi : i < n) :
    ace ≤ skipAces m i ace ∧ validAce m s (skipAces m i ace) := by
  induction n generalizing ace i with
  | zero => omega
  | succ n ih =>
    simp only [validLoop, Bool.and_eq_true] at h
    cases i with
    | zero => exact ⟨Nat.le_refl _, h.1⟩
    | succ i =>
      obtain ⟨hle, hv⟩ := ih h.2 (Nat.lt_of_succ_lt_succ hi)
      exact ⟨Nat.le_trans (Nat.le_add_right _ _) hle, hv⟩

lemma rtlValidAcl_iff : rtlValidAcl m acl ↔
    2 ≤ aclRevision m acl ∧ aclRevision m acl ≤ 4 ∧ aclSize m acl % 2 = 0 ∧ 8 ≤ aclSize m acl ∧
      validLoop m (aclEnd m acl) (aceCount m acl) (acl + 8) := by
  unfold rtlValidAcl
  split <;> [skip; split <;> [skip; split]]
  case isFalse.isFalse.isFalse =>
    exact ⟨fun h => ⟨by omega, by omega, by omega, by omega, h⟩, fun h => h.2.2.2.2⟩
  all_goals
    rw [iff_false_left (by decide)]
    omega

/-- In a valid ACL every ACE lies in the first `AclSize` bytes; the masks and the
SIDs lie inside their ACEs exactly if no plain ACE has room for its SID but
not for its mask, and the other ACEs are as large as their SIDs ask for. -/
theorem rtlValidAcl_walkable (h : rtlValidAcl m acl = true) :
    (∀ i < aceCount m acl, acl + 8 ≤ aceAt m acl i ∧
      aceAt m acl i + aceSize m (aceAt m acl i) ≤ acl + aclSize m acl) ∧
    ((∀ i < aceCount m acl, MaskAndSidInside m (aceAt m acl i)) ↔
      ∀ i < aceCount m acl, SizeCovers m (aceAt m acl i)) := by
  obtain ⟨-, -, -, -, hl⟩ := rtlValidAcl_iff.mp h
  have ha := fun i (hi : i < aceCount m acl) => validLoop_aces hl hi
  refine ⟨fun i hi => ?_, ?_⟩
  · obtain ⟨hle, hvalid⟩ := ha i hi
    obtain ⟨-, -, hs, -⟩ := validAce_iff.mp hvalid
    exact ⟨hle, hs⟩
  · refine forall_congr' fun i => forall_congr' fun hi => ?_
    exact maskAndSidInside_iff (ha i hi).2

/-- An ACL of 28 bytes with one ACE of 20 bytes for a SID with one subauthority. -/
def oneAceAcl : Mem := fun x =>
  ([2, 0, 28, 0, 1, 0, 0, 0, 0, 0, 20, 0, 255, 255, 255, 255, 1, 1, 0, 0, 0, 0, 0, 5, 18, 0, 0, 0] :
    List Byte).getD x 0

theorem rtlValidAcl_walkable_one :
    aceCount oneAceAcl 0 = 1 ∧ MaskAndSidInside oneAceAcl (aceAt oneAceAcl 0 0) := by
  refine ⟨by decide, (@rtlValidAcl_walkable oneAceAcl 0 (by decide)).2.mpr ?_ 0 (by decide)⟩
  intro i hi
  have hi : i < 1 := hi
  obtain rfl : i = 0 := by omega
  exact ⟨fun _ => by decide, fun h => absurd h (by decide)⟩

/-- The same SID in an ACE of 16 bytes: the last subauthority is outside. -/
def shortAceAcl : Mem := fun x =>
  ([2, 0, 24, 0, 1, 0, 0, 0, 0, 0, 16, 0, 255, 255, 255, 255, 1, 1, 0, 0, 0, 0, 0, 5, 18, 0, 0, 0] :
    List Byte).getD x 0

theorem rtlValidAcl_walkable_fails : rtlValidAcl shortAceAcl 0 = true ∧ aceCount shortAceAcl 0 = 1 ∧
    aclEnd shortAceAcl 0 = 24 ∧ aceType shortAceAcl (aceAt shortAceAcl 0 0) = 0 ∧
    sidStart shortAceAcl (aceAt shortAceAcl 0 0) = 16 ∧ rtlLengthSid shortAceAcl 16 = 12 ∧
    ¬ MaskAndSidInside shortAceAcl (aceAt shortAceAcl 0 0) := by decide

end FreeNT.Rtl
