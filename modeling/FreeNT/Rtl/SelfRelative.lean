import FreeNT.Rtl.SecurityDescriptor

/-!
# Packing a security descriptor

`RtlMakeSelfRelativeSD` puts the parts behind the descriptor in the order SACL, DACL, owner,
group, each at a multiple of four bytes (`sdOffset`). `Packed` is what holds between two of
the copies; `SelfRelative` is the finished descriptor. A SID or an ACL is valid wherever its
bytes are copied to, since the checks read no byte outside of it.
-/

namespace FreeNT.Rtl

open Mem Nat

section Copies

variable {m m' : Mem} {a b n k : Nat}

lemma validAce_copied (h : Copied m m' a b n) (hv : validAce m (a + n) (a + k)) :
    validAce m' (b + n) (b + k) ∧ aceSize m' (b + k) = aceSize m (a + k) := by
  obtain ⟨hr, he, hs, hp, ho⟩ := validAce_iff.mp hv
  have hsz : aceSize m' (b + k) = aceSize m (a + k) := by
    unfold aceSize
    rw [add_assoc, add_assoc]
    exact h.readUshort (by omega)
  have hty : aceType m' (b + k) = aceType m (a + k) := congrArg BitVec.toNat (h k (by omega))
  refine ⟨validAce_iff.mpr ?_, hsz⟩
  rw [hsz, hty]
  refine ⟨by omega, he, by omega, fun ht => ?_, ho⟩
  -- the size leaves room for the first two bytes of the SID
  obtain ⟨h4, hrv, hsb, hl⟩ := hp ht
  have hl' := hl
  unfold rtlLengthSid at hl'
  have hrv' : sidRevision m' (b + k + 8) = sidRevision m (a + k + 8) := by
    unfold sidRevision
    rw [add_assoc, add_assoc, h (k + 8) (by omega)]
  have hsb' : subAuthorityCount m' (b + k + 8) = subAuthorityCount m (a + k + 8) := by
    unfold subAuthorityCount
    rw [show b + k + 8 + 1 = b + (k + 9) by omega, show a + k + 8 + 1 = a + (k + 9) by omega, h (k + 9) (by omega)]
  unfold rtlLengthSid at hl ⊢
  rw [hrv', hsb']
  exact ⟨h4, hrv, hsb, hl⟩

lemma validLoop_copied (h : Copied m m' a b n) {count : Nat}
    (hv : validLoop m (a + n) count (a + k)) : validLoop m' (b + n) count (b + k) := by
  induction count generalizing k with
  | zero => rfl
  | succ count ih =>
    rw [validLoop, Bool.and_eq_true] at hv
    obtain ⟨ha, hsz⟩ := validAce_copied h hv.1
    rw [validLoop, Bool.and_eq_true, hsz, add_assoc]
    exact ⟨ha, ih (by rw [← add_assoc]; exact hv.2)⟩

lemma rtlValidAcl_copied (hv : rtlValidAcl m a) (h : Copied m m' a b (aclSize m a)) :
    aclSize m' b = aclSize m a ∧ rtlValidAcl m' b := by
  obtain ⟨hlw, hh, he, hm, hl⟩ := rtlValidAcl_iff.mp hv
  have hsz : aclSize m' b = aclSize m a := h.readUshort (by omega)
  have hr : aclRevision m' b = aclRevision m a := congrArg BitVec.toNat (h 0 (by omega))
  have hc : aceCount m' b = aceCount m a := h.readUshort (by omega)
  refine ⟨hsz, rtlValidAcl_iff.mpr ?_⟩
  unfold aclEnd at hl ⊢
  rw [hsz, hr, hc]
  exact ⟨hlw, hh, he, hm, validLoop_copied h hl⟩

lemma rtlValidSid_copied (hv : rtlValidSid m a) (h : Copied m m' a b (rtlLengthSid m a)) :
    rtlLengthSid m' b = rtlLengthSid m a ∧ rtlValidSid m' b := by
  have hm : 8 ≤ rtlLengthSid m a := le_add_right _ _
  have hr : sidRevision m' b = sidRevision m a := congrArg BitVec.toNat (h 0 (by omega))
  have hs : subAuthorityCount m' b = subAuthorityCount m a := congrArg BitVec.toNat (h 1 (by omega))
  unfold rtlLengthSid rtlValidSid at *
  rw [hr, hs]
  exact ⟨rfl, hv⟩

namespace SdPart

variable {f : SdPart}

lemma eight_le_length (hv : f.valid m a) : 8 ≤ f.length m a := by
  cases f with
  | owner | group => exact le_add_right _ _
  | sacl | dacl => exact (rtlValidAcl_iff.mp hv).2.2.2.1

lemma valid_copied (hv : f.valid m a) (h : Copied m m' a b (f.length m a)) :
    f.length m' b = f.length m a ∧ f.valid m' b := by
  cases f with
  | owner | group => exact rtlValidSid_copied hv h
  | sacl | dacl => exact rtlValidAcl_copied hv h

lemma field_bounds (f : SdPart) : 4 ≤ f.field ∧ f.field + 4 ≤ 20 := by cases f <;> decide

lemma field_apart {g : SdPart} (h : f ≠ g) : f.field + 4 ≤ g.field ∨ g.field + 4 ≤ f.field := by
  revert h
  cases f <;> cases g <;> decide

end SdPart

end Copies

section Layout

variable {m : Mem} {sd : Nat} {f g : SdPart}

/-- Where `RtlMakeSelfRelativeSD` puts a part. -/
def sdOffset (m : Mem) (sd : Nat) : SdPart → Nat
  | .sacl => 20
  | .dacl => 20 + sdPartSize m sd .sacl
  | .owner => 20 + sdPartSize m sd .sacl + sdPartSize m sd .dacl
  | .group => 20 + sdPartSize m sd .sacl + sdPartSize m sd .dacl + sdPartSize m sd .owner

lemma sdOffset_bounds (m : Mem) (sd : Nat) (f : SdPart) :
    20 ≤ sdOffset m sd f ∧ sdOffset m sd f + sdPartSize m sd f ≤ selfRelativeLength m sd := by
  unfold selfRelativeLength
  cases f <;> simp only [sdOffset] <;> omega

lemma sdOffset_apart (m : Mem) (sd : Nat) (h : f ≠ g) : sdOffset m sd f + sdPartSize m sd f ≤ sdOffset m sd g ∨
      sdOffset m sd g + sdPartSize m sd g ≤ sdOffset m sd f := by
  cases f <;> cases g <;> first | exact absurd rfl h | (simp only [sdOffset]; omega)

lemma sdPartSize_mod (m : Mem) (sd : Nat) (f : SdPart) : sdPartSize m sd f % 4 = 0 := by
  unfold sdPartSize
  dsimp only
  split <;> omega

lemma sdOffset_mod (m : Mem) (sd : Nat) (f : SdPart) : sdOffset m sd f % 4 = 0 := by
  have hs := sdPartSize_mod m sd .sacl
  have hd := sdPartSize_mod m sd .dacl
  have ho := sdPartSize_mod m sd .owner
  cases f <;> simp only [sdOffset] <;> omega

/-- The parts of the descriptor are valid. -/
def PartsValid (m : Mem) (sd : Nat) : Prop :=
  ∀ f : SdPart, sepGetFromDescriptor m sd f ≠ 0 → f.valid m (sepGetFromDescriptor m sd f) = true

lemma validDescriptor_iff : rtlValidSecurityDescriptor m sd ↔
    sdRevision m sd = securityDescriptorRevision ∧ PartsValid m sd := by
  have hp (f : SdPart) : (sepGetFromDescriptor m sd f == 0 || f.valid m (sepGetFromDescriptor m sd f)) ↔
        (sepGetFromDescriptor m sd f ≠ 0 → f.valid m (sepGetFromDescriptor m sd f)) := by
    rw [Bool.or_eq_true, beq_iff_eq]
    exact Decidable.or_iff_not_imp_left
  unfold rtlValidSecurityDescriptor
  simp only [Bool.and_eq_true, decide_eq_true_eq, hp, and_assoc]
  refine and_congr_right fun _ => ⟨?_, fun h => ⟨h _, h _, h _, h _⟩⟩
  rintro ⟨ho, hg, hd, hs⟩ f
  cases f <;> assumption

lemma sdPartSize_of_null (h : sepGetFromDescriptor m sd f = 0) : sdPartSize m sd f = 0 := if_pos h

lemma length_le_sdPartSize (h : sepGetFromDescriptor m sd f ≠ 0) :
    f.length m (sepGetFromDescriptor m sd f) ≤ sdPartSize m sd f := by
  have : sdPartSize m sd f = (f.length m (sepGetFromDescriptor m sd f) + 3) / 4 * 4 := if_neg h
  omega

lemma PartsValid.eight_le (hv : PartsValid m sd) (h : sepGetFromDescriptor m sd f ≠ 0) : 8 ≤ sdPartSize m sd f :=
  le_trans (SdPart.eight_le_length (hv f h)) (length_le_sdPartSize h)

lemma PartsValid.size_eq_zero_iff (hv : PartsValid m sd) :
    sdPartSize m sd f = 0 ↔ sepGetFromDescriptor m sd f = 0 := by
  refine ⟨fun h => ?_, sdPartSize_of_null⟩
  by_contra hne
  have := hv.eight_le hne
  omega

end Layout

/-- The buffer lies in the address space, apart from the descriptor and from its parts. -/
structure SdRoom (m : Mem) (sd rel : Nat) : Prop where
  fits : rel + selfRelativeLength m sd ≤ 2 ^ 32
  header : sd + 20 ≤ rel ∨ rel + selfRelativeLength m sd ≤ sd
  part : ∀ f, sepGetFromDescriptor m sd f ≠ 0 → sepGetFromDescriptor m sd f + sdPartSize m sd f ≤ rel ∨
      rel + selfRelativeLength m sd ≤ sepGetFromDescriptor m sd f

/-- The buffer once the parts of `done` are in it. -/
structure Packed (m : Mem) (sd rel : Nat) (done : List SdPart) (m' : Mem) : Prop where
  header : Copied m m' sd rel 4
  word : ∀ f, m'.readUlong (rel + f.field) =
    if f ∈ done ∧ sdPartSize m sd f ≠ 0 then sdOffset m sd f else 0
  copied : ∀ f ∈ done, Copied m m' (sepGetFromDescriptor m sd f) (rel + sdOffset m sd f) (sdPartSize m sd f)
  outside : ∀ x, x < rel ∨ rel + selfRelativeLength m sd ≤ x → m' x = m x

section Pack

variable {m m1 m' : Mem} {sd r : Nat} {d : List SdPart} {f : SdPart}

lemma readUlong_fill_zero (m : Mem) {a n b : Nat} (hl : a ≤ b) (hr : b + 4 ≤ a + n) :
    (m.fill a n 0).readUlong b = 0 := by
  unfold readUlong fill
  rw [if_pos (by omega), if_pos (by omega), if_pos (by omega), if_pos (by omega)]
  rfl

lemma packed_start (hr : SdRoom m sd r) : Packed m sd r []
      ((m.fill r (selfRelativeLength m sd) 0).copy r (m.fill r (selfRelativeLength m sd) 0) sd 4) := by
  have hl : 20 ≤ selfRelativeLength m sd := by unfold selfRelativeLength; omega
  refine ⟨?_, fun f => ?_, fun f hf => absurd hf List.not_mem_nil, fun x hx => ?_⟩
  · -- the descriptor is read after the buffer was cleared
    have hc := copied_copy (m.fill r (selfRelativeLength m sd) 0) (m.fill r (selfRelativeLength m sd) 0) sd r 4
    intro i hi
    rw [hc i hi]
    have := hr.header
    exact if_neg (by omega)
  · have hf := f.field_bounds
    rw [readUlong_congr (copy_sep _ _ (by omega)), readUlong_fill_zero m (by omega) (by omega),
      if_neg fun h => List.not_mem_nil h.1]
  · unfold copy fill
    rw [if_neg (by omega), if_neg (by omega)]

lemma Packed.step (h : Packed m sd r d m1) (hr : SdRoom m sd r) (hf : f ∉ d) : Packed m sd r (f :: d)
      (copyPart r (sepGetFromDescriptor m sd f) (sdPartSize m sd f) f (m1, r + sdOffset m sd f)).1 := by
  have hm {g : SdPart} (hg : g ≠ f) : g ∈ f :: d ↔ g ∈ d := by rw [List.mem_cons, or_iff_right hg]
  unfold copyPart
  split
  case isTrue hz =>
    -- a part that is not there changes nothing
    refine ⟨h.header, fun g => ?_, fun g hg => ?_, h.outside⟩
    · rw [h.word g]
      by_cases hgf : g = f
      · rw [if_neg (fun hc => hf (hgf ▸ hc.1)), if_neg (fun hc => hc.2 (hgf ▸ hz))]
      · simp [hm hgf]
    by_cases hgf : g = f
    · intro i hi
      rw [hgf, hz] at hi
      omega
    · exact h.copied g ((hm hgf).mp hg)
  case isFalse hsz =>
    have ho := sdOffset_bounds m sd f
    have hft := hr.fits
    have hfl := f.field_bounds
    have hn : sepGetFromDescriptor m sd f ≠ 0 := fun hc => hsz (sdPartSize_of_null hc)
    dsimp only
    rw [Nat.add_sub_cancel_left]
    -- what lies apart from the new part and from its word stays
    have hk (x : Nat) (hx : x < r + sdOffset m sd f ∨ r + sdOffset m sd f + sdPartSize m sd f ≤ x)
        (hw : x < r + f.field ∨ r + f.field + 4 ≤ x) :
        (m1.copy (r + sdOffset m sd f) m1 (sepGetFromDescriptor m sd f)
          (sdPartSize m sd f)).writeUlong (r + f.field) (sdOffset m sd f) x = m1 x := by
      rw [writeUlong_of_ne _ _ hw]
      exact if_neg (by omega)
    refine ⟨?_, fun g => ?_, fun g hg => ?_, fun x hx => ?_⟩
    · exact h.header.congr fun x hx hx' => hk x (by omega) (by omega)
    · have hg := g.field_bounds
      by_cases hgf : g = f
      · rw [hgf, readUlong_self, if_pos ⟨List.mem_cons_self, hsz⟩]
        exact mod_eq_of_lt (by omega)
      have hap := SdPart.field_apart hgf
      rw [readUlong_congr fun x hx hx' => hk x (by omega) (by omega), h.word g]
      simp [hm hgf]
    · by_cases hgf : g = f
      · subst hgf
        refine Copied.congr (fun i hi => ?_) (writeUlong_sep _ _ (by omega))
        have hp := hr.part g hn
        rw [copied_copy _ _ _ _ _ i hi, h.outside _ (by omega)]
      have hap := sdOffset_apart m sd hgf
      have hg' := sdOffset_bounds m sd g
      exact (h.copied g ((hm hgf).mp hg)).congr fun x hx hx' => hk x (by omega) (by omega)
    · rw [hk x (by omega) (by omega), h.outside x hx]

end Pack

/-- The finished descriptor. -/
structure SelfRelative (m : Mem) (sd rel : Nat) (m' : Mem) : Prop where
  revision : sdRevision m' rel = sdRevision m sd
  control : sdControl m' rel = sdControl m sd ||| seSelfRelative
  word : ∀ f : SdPart, m'.readUlong (rel + f.field) =
    if sdPartSize m sd f ≠ 0 then sdOffset m sd f else 0
  copied : ∀ f, Copied m m' (sepGetFromDescriptor m sd f) (rel + sdOffset m sd f) (sdPartSize m sd f)

section Finish

variable {m m1 m' : Mem} {sd r n : Nat} {f : SdPart}

lemma sdControl_write (m : Mem) (sd : Nat) (c : BitVec 16) : sdControl (m.writeUshort (sd + 2) c.toNat) sd = c := by
  unfold sdControl
  rw [readUshort_self, mod_eq_of_lt c.isLt, BitVec.ofNat_toNat, BitVec.setWidth_eq]

lemma Packed.finish (h : Packed m sd r [.group, .owner, .dacl, .sacl] m1) : SelfRelative m sd r
      (m1.writeUshort (r + 2) (sdControl m1 r ||| seSelfRelative).toNat) := by
  have ha (f : SdPart) : f ∈ [SdPart.group, .owner, .dacl, .sacl] := by cases f <;> decide
  refine ⟨?_, ?_, fun f => ?_, fun f => ?_⟩
  · unfold sdRevision
    rw [writeUshort_sep m1 _ (Or.inl (le_refl (r + 2))) r (le_refl _) (by omega)]
    exact congrArg BitVec.toNat (h.header 0 (by decide))
  · rw [sdControl_write]
    unfold sdControl
    rw [h.header.readUshort (by decide)]
  · have hf := f.field_bounds
    rw [readUlong_congr (writeUshort_sep _ _ (by omega)), h.word f]
    simp [ha f, true_and]
  · have hf := sdOffset_bounds m sd f
    exact (h.copied f (ha f)).congr (writeUshort_sep _ _ (by omega))

lemma copyPart_current (r p size c : Nat) (f : SdPart) (m : Mem) : (copyPart r p size f (m, c)).2 = c + size := by
  unfold copyPart
  split
  case isTrue h => rw [h, add_zero]
  case isFalse => rfl

lemma rtlMakeSelfRelativeSD_small (r : Nat) (h : n < selfRelativeLength m sd) :
    rtlMakeSelfRelativeSD m sd r n = (m, .bufferTooSmall, selfRelativeLength m sd) := if_pos h

/-- One copy after the other: each starts where the last one ended. -/
lemma Packed.next {d : List SdPart} {s : Mem × Nat} (h : Packed m sd r d s.1)
    (hr : SdRoom m sd r) (hf : f ∉ d) (hs : s.2 = r + sdOffset m sd f) :
    Packed m sd r (f :: d) (copyPart r (sepGetFromDescriptor m sd f) (sdPartSize m sd f) f s).1 ∧
      (copyPart r (sepGetFromDescriptor m sd f) (sdPartSize m sd f) f s).2 =
        r + (sdOffset m sd f + sdPartSize m sd f) := by
  obtain ⟨m1, c⟩ := s
  obtain rfl : c = r + sdOffset m sd f := hs
  exact ⟨h.step hr hf, by rw [copyPart_current, add_assoc]⟩

lemma rtlMakeSelfRelativeSD_spec (hr : SdRoom m sd r) (hn : selfRelativeLength m sd ≤ n) :
    ∃ m', rtlMakeSelfRelativeSD m sd r n = (m', .success, n) ∧ SelfRelative m sd r m' := by
  refine ⟨_, if_neg (not_lt.mpr hn), Packed.finish ?_⟩
  obtain ⟨hs, hc⟩ := Packed.next (s := (_, r + 20)) (f := .sacl) (packed_start hr) hr (by decide) rfl
  obtain ⟨hd, hc⟩ := hs.next (f := .dacl) hr (by decide) hc
  obtain ⟨ho, hc⟩ := hd.next (f := .owner) hr (by decide) (by rw [hc]; rfl)
  exact (ho.next hr (by decide) (by rw [hc]; rfl)).1

end Finish

end FreeNT.Rtl
