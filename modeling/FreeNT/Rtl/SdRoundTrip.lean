import Mathlib.Data.List.Basic
import FreeNT.Rtl.SelfRelative

/-!
# Security descriptors to the self-relative form and back

What `RtlMakeSelfRelativeSD` makes of a valid absolute descriptor always goes back to the same
descriptor, but `RtlValidRelativeSecurityDescriptor` does not always accept it. It looks for an
ACL whenever the flag is set, also where the ACL is NULL, and it asks for the 12 bytes
of a SID with one subauthority, which the SID at the end need not have.
-/

namespace FreeNT.Rtl

open Mem

section Flags

variable {c flag : BitVec 16}

lemma flagSet_or_selfRelative (h : seSelfRelative &&& flag = 0) : flagSet (c ||| seSelfRelative)
    flag = flagSet c flag := by
  unfold flagSet
  rw [BitVec.and_comm, BitVec.and_or_distrib_left, BitVec.and_comm flag seSelfRelative, h, BitVec.and_comm]
  exact congrArg (· != 0) BitVec.or_zero

lemma present_or_selfRelative (c : BitVec 16) (f : SdPart) : f.present (c ||| seSelfRelative) = f.present c := by
  cases f with
  | owner | group => rfl
  | sacl | dacl => exact flagSet_or_selfRelative (by decide)

lemma flagSet_selfRelative (c : BitVec 16) : flagSet (c ||| seSelfRelative) seSelfRelative = true := by
  have h : (c ||| seSelfRelative) &&& seSelfRelative = seSelfRelative := by
    ext i
    grind
  unfold flagSet
  rw [h]
  decide

lemma or_and_not_selfRelative (h : flagSet c seSelfRelative = false) :
    (c ||| seSelfRelative) &&& ~~~seSelfRelative = c := by
  have h : c &&& seSelfRelative = 0 := by simpa [flagSet] using h
  ext i hi
  have hb := congrArg (fun v => v[i]) h
  grind

end Flags

variable {m m' m₁ : Mem} {sd rel : Nat} {f : SdPart}

lemma getFrom_absent (h : f.present (sdControl m sd) = false) : sepGetFromDescriptor m sd f = 0 := by
  unfold sepGetFromDescriptor
  rw [h]
  rfl

lemma sepGetFromDescriptor_relative (hp : f.present (sdControl m sd))
    (hs : flagSet (sdControl m sd) seSelfRelative) :
    sepGetFromDescriptor m sd f = if m.readUlong (sd + f.field) = 0 then 0
      else (sd + m.readUlong (sd + f.field)) % 2 ^ 32 := by
  unfold sepGetFromDescriptor
  rw [hp, if_neg (by decide), if_pos hs]

lemma sepGetFromDescriptor_absolute (hp : f.present (sdControl m sd))
    (hs : flagSet (sdControl m sd) seSelfRelative = false) :
    sepGetFromDescriptor m sd f = m.readUlong (sd + f.field) := by
  unfold sepGetFromDescriptor
  rw [hp, if_neg (by decide), hs, if_neg (by decide)]

namespace SelfRelative

variable (h : SelfRelative m sd rel m') (hroom : SdRoom m sd rel) (hv : PartsValid m sd)

include h

lemma word_null (hf : sepGetFromDescriptor m sd f = 0) : m'.readUlong (rel + f.field) = 0 := by
  rw [h.word f, if_neg (not_not.mpr (sdPartSize_of_null hf))]

include hv

lemma word_part (hf : sepGetFromDescriptor m sd f ≠ 0) : m'.readUlong (rel + f.field) = sdOffset m sd f := by
  rw [h.word f, if_pos (mt hv.size_eq_zero_iff.mp hf)]

lemma part (hf : sepGetFromDescriptor m sd f ≠ 0) :
    f.length m' (rel + sdOffset m sd f) = f.length m (sepGetFromDescriptor m sd f) ∧
      f.valid m' (rel + sdOffset m sd f) :=
  SdPart.valid_copied (hv f hf) ((h.copied f).mono (length_le_sdPartSize hf))

include hroom

omit h in
lemma address (hf : sepGetFromDescriptor m sd f ≠ 0) :
    (rel + sdOffset m sd f) % 2 ^ 32 = rel + sdOffset m sd f := by
  have hsz := hv.eight_le hf
  have ho := sdOffset_bounds m sd f
  have hft := hroom.fits
  rw [Nat.mod_eq_of_lt (by omega)]

lemma get : sepGetFromDescriptor m' rel f =
    if sepGetFromDescriptor m sd f = 0 then 0 else rel + sdOffset m sd f := by
  have hpr : f.present (sdControl m' rel) = f.present (sdControl m sd) := by
    rw [h.control, present_or_selfRelative]
  by_cases hp : f.present (sdControl m sd)
  · rw [sepGetFromDescriptor_relative (hpr.trans hp) (by rw [h.control, flagSet_selfRelative])]
    by_cases hn : sepGetFromDescriptor m sd f = 0
    · rw [if_pos hn, if_pos (h.word_null hn)]
    · have ho := sdOffset_bounds m sd f
      rw [if_neg hn, h.word_part hv hn, address hroom hv hn, if_neg (by omega)]
  · have hp : f.present (sdControl m sd) = false := Bool.eq_false_iff.mpr hp
    rw [getFrom_absent (hpr.trans hp), getFrom_absent hp, if_pos rfl]

lemma size : sdPartSize m' rel f = sdPartSize m sd f := by
  have hg := h.get hroom hv (f := f)
  unfold sdPartSize
  by_cases hn : sepGetFromDescriptor m sd f = 0
  · rw [hg, if_pos hn, if_pos rfl, if_pos hn]
  · have ho := sdOffset_bounds m sd f
    rw [hg, if_neg hn, if_neg hn, if_neg (by omega), (h.part hv hn).1]

end SelfRelative

/-! ### The validator -/

lemma validateOffset_some {o length minLength : Nat} (ho : 20 ≤ o)
    (hlt : o < length) (hmd : o % 4 = 0) (hm : o + minLength ≤ length) :
    rtlpValidateSDOffsetAndSize o length minLength = some (length - o) := by
  unfold rtlpValidateSDOffsetAndSize
  rw [if_neg (by omega), if_neg (by omega), if_neg (by omega), if_neg (by omega)]

lemma validateOffset_none {o length minLength : Nat} (h : o < 20 ∨ length < o + minLength) :
    rtlpValidateSDOffsetAndSize o length minLength = none := by
  unfold rtlpValidateSDOffsetAndSize
  split
  case isTrue => rfl
  case isFalse =>
    split
    case isTrue => rfl
    case isFalse => rw [if_pos (by omega)]

/-- The ACLs whose flags are set are there, and the SID at the end has a subauthority. -/
structure Convertible (m : Mem) (sd : Nat) : Prop where
  sacl : flagSet (sdControl m sd) seSaclPresent = true → sepGetFromDescriptor m sd .sacl ≠ 0
  dacl : flagSet (sdControl m sd) seDaclPresent = true → sepGetFromDescriptor m sd .dacl ≠ 0
  group : sepGetFromDescriptor m sd .group ≠ 0 → subAuthorityCount m (sepGetFromDescriptor m sd .group) ≠ 0
  owner : sepGetFromDescriptor m sd .group = 0 → sepGetFromDescriptor m sd .owner ≠ 0 →
    subAuthorityCount m (sepGetFromDescriptor m sd .owner) ≠ 0

section Lengths

lemma sdPartSize_sid (hf : f = .owner ∨ f = .group) (hne : sepGetFromDescriptor m sd f ≠ 0) :
    sdPartSize m sd f = 8 + 4 * subAuthorityCount m (sepGetFromDescriptor m sd f) := by
  have hl : f.length m (sepGetFromDescriptor m sd f) =
    8 + 4 * subAuthorityCount m (sepGetFromDescriptor m sd f) := by
    obtain rfl | rfl := hf <;> rfl
  have : sdPartSize m sd f = (f.length m (sepGetFromDescriptor m sd f) + 3) / 4 * 4 := if_neg hne
  omega

lemma PartsValid.acl_room (hv : PartsValid m sd) (hf : f = .sacl ∨ f = .dacl)
    (hne : sepGetFromDescriptor m sd f ≠ 0) :
    sdOffset m sd f + f.minLength ≤ selfRelativeLength m sd := by
  have hsz := hv.eight_le hne
  have ho := sdOffset_bounds m sd f
  have hm : f.minLength = 8 := by obtain rfl | rfl := hf <;> rfl
  omega

lemma group_room_iff (hne : sepGetFromDescriptor m sd .group ≠ 0) :
    sdOffset m sd .group + SdPart.minLength .group ≤ selfRelativeLength m sd ↔
      subAuthorityCount m (sepGetFromDescriptor m sd .group) ≠ 0 := by
  have hsz := sdPartSize_sid (Or.inr rfl) hne
  simp only [sdOffset, SdPart.minLength, selfRelativeLength]
  omega

/-- A group behind the owner makes up for what an owner without subauthorities lacks. -/
lemma PartsValid.owner_room_iff (hv : PartsValid m sd) (hne : sepGetFromDescriptor m sd .owner ≠ 0) :
    sdOffset m sd .owner + SdPart.minLength .owner ≤ selfRelativeLength m sd ↔
      (sepGetFromDescriptor m sd .group = 0 →
        subAuthorityCount m (sepGetFromDescriptor m sd .owner) ≠ 0) := by
  have hsz := sdPartSize_sid (Or.inl rfl) hne
  by_cases hg : sepGetFromDescriptor m sd .group = 0
  · have := sdPartSize_of_null hg
    simp only [sdOffset, SdPart.minLength, selfRelativeLength, hg, true_implies]
    omega
  have := hv.eight_le hg
  simp only [sdOffset, SdPart.minLength, selfRelativeLength, hg, false_implies, iff_true]
  omega

end Lengths

namespace SelfRelative

variable (h : SelfRelative m sd rel m') (hroom : SdRoom m sd rel) (hv : PartsValid m sd)

include h hroom hv

lemma validRelativePart_iff : validRelativePart m' rel (selfRelativeLength m sd) f ↔
      sepGetFromDescriptor m sd f ≠ 0 ∧ sdOffset m sd f + f.minLength ≤ selfRelativeLength m sd := by
  unfold validRelativePart
  by_cases hn : sepGetFromDescriptor m sd f = 0
  · rw [h.word_null hn, validateOffset_none (Or.inl (by decide))]
    simp [hn]
  have ho := sdOffset_bounds m sd f
  have hsz := hv.eight_le hn
  have hw := h.word_part hv hn
  by_cases hm : sdOffset m sd f + f.minLength ≤ selfRelativeLength m sd
  · have hp := h.part hv hn
    have hl := length_le_sdPartSize hn
    rw [hw, validateOffset_some ho.1 (by omega) (sdOffset_mod m sd f) hm]
    dsimp only
    rw [SelfRelative.address hroom hv hn, hp.1, hp.2, Bool.true_and, decide_eq_true_iff]
    exact iff_of_true (by omega) ⟨hn, hm⟩
  · rw [hw, validateOffset_none (Or.inr (by omega))]
    simp [hm]

/-- The check of a SID, if the caller asks for no SID that is not there. -/
lemma sid_iff {r flag : BitVec 32} (hr : r &&& flag ≠ 0 → sepGetFromDescriptor m sd f ≠ 0) :
    (if m'.readUlong (rel + f.field) ≠ 0 then validRelativePart m' rel (selfRelativeLength m sd) f
      else r &&& flag == 0) = true ↔
      (sepGetFromDescriptor m sd f ≠ 0 → sdOffset m sd f + f.minLength ≤ selfRelativeLength m sd) := by
  by_cases hn : sepGetFromDescriptor m sd f = 0
  · have hf : r &&& flag = 0 := by
      by_contra hne
      exact hr hne hn
    rw [if_neg (not_not.mpr (h.word_null hn)), hf]
    exact iff_of_true rfl fun hne => absurd hn hne
  have ho := sdOffset_bounds m sd f
  rw [if_pos (by rw [h.word_part hv hn]; omega), h.validRelativePart_iff hroom hv]
  exact ⟨fun hc _ => hc.2, fun hc => ⟨hn, hc hn⟩⟩

lemma acl_iff (hf : f = .sacl ∨ f = .dacl) :
    (if f.present (sdControl m' rel) then validRelativePart m' rel (selfRelativeLength m sd) f
      else true) ↔
      (f.present (sdControl m sd) → sepGetFromDescriptor m sd f ≠ 0) := by
  rw [h.control, present_or_selfRelative]
  by_cases hp : f.present (sdControl m sd)
  · rw [if_pos hp, h.validRelativePart_iff hroom hv]
    exact ⟨fun hc _ => hc.1, fun hc => ⟨hc hp, hv.acl_room hf (hc hp)⟩⟩
  · rw [if_neg hp]
    exact iff_of_true rfl fun hc => absurd hc hp

lemma rtlValidRelative_iff (hr : sdRevision m sd = securityDescriptorRevision) {r : BitVec 32}
    (how : r &&& ownerSecurityInformation ≠ 0 → sepGetFromDescriptor m sd .owner ≠ 0)
    (hgr : r &&& groupSecurityInformation ≠ 0 → sepGetFromDescriptor m sd .group ≠ 0) :
    rtlValidRelativeSecurityDescriptor m' rel (selfRelativeLength m sd) r ↔ Convertible m sd := by
  have hl : 20 ≤ selfRelativeLength m sd := by unfold selfRelativeLength; omega
  have hh : ¬(selfRelativeLength m sd < 20 ∨ sdRevision m' rel ≠ securityDescriptorRevision ∨
      (!flagSet (sdControl m' rel) seSelfRelative)) := by
    rw [h.revision, hr, h.control, flagSet_selfRelative]
    simp only [ne_eq, not_true_eq_false, Bool.not_true, Bool.false_eq_true, or_false]
    omega
  unfold rtlValidRelativeSecurityDescriptor
  rw [if_neg hh, Bool.and_eq_true, Bool.and_eq_true, Bool.and_eq_true, h.sid_iff hroom hv how,
    h.sid_iff hroom hv hgr, h.acl_iff hroom hv (Or.inr rfl), h.acl_iff hroom hv (Or.inl rfl)]
  constructor
  · rintro ⟨⟨⟨ho, hg⟩, hd⟩, hs⟩
    exact ⟨hs, hd, fun hne => (group_room_iff hne).mp (hg hne), fun hn hne =>
      (hv.owner_room_iff hne).mp (ho hne) hn⟩
  intro hc
  exact ⟨⟨⟨fun hne => (hv.owner_room_iff hne).mpr fun hn => hc.owner hn hne,
    fun hne => (group_room_iff hne).mpr (hc.group hne)⟩, hc.dacl⟩, hc.sacl⟩

end SelfRelative

/-! ### The way back -/

/-- The buffers for the absolute form lie apart from one another and from the self-relative
descriptor. Where there is no part, the buffer may be anything. -/
structure AbsoluteRoom (m : Mem) (sd rel : Nat) (buffers : SdBuffers) : Prop where
  sd_pos : 0 < buffers.sd
  sd_apart : buffers.sd + 20 ≤ rel ∨ rel + selfRelativeLength m sd ≤ buffers.sd
  bounds : ∀ f, sepGetFromDescriptor m sd f ≠ 0 → 0 < buffers.part f ∧ buffers.part f < 2 ^ 32
  part_sd : ∀ f, sepGetFromDescriptor m sd f ≠ 0 →
    buffers.part f + sdPartSize m sd f ≤ buffers.sd ∨ buffers.sd + 20 ≤ buffers.part f
  part_rel : ∀ f, sepGetFromDescriptor m sd f ≠ 0 →
    buffers.part f + sdPartSize m sd f ≤ rel ∨ rel + selfRelativeLength m sd ≤ buffers.part f
  part_part : ∀ f g, f ≠ g → sepGetFromDescriptor m sd f ≠ 0 → sepGetFromDescriptor m sd g ≠ 0 →
    buffers.part f + sdPartSize m sd f ≤ buffers.part g ∨ buffers.part g + sdPartSize m sd g ≤ buffers.part f

/-- The absolute descriptor once the parts of `done` are in their buffers. -/
structure Unpacked (m : Mem) (sd rel : Nat) (m' : Mem) (buffers : SdBuffers) (done : List SdPart)
    (m'' : Mem) : Prop where
  revision : sdRevision m'' buffers.sd = sdRevision m sd
  control : sdControl m'' buffers.sd = sdControl m sd
  word : ∀ f, m''.readUlong (buffers.sd + f.field) =
    if f ∈ done ∧ sepGetFromDescriptor m sd f ≠ 0 then buffers.part f else 0
  copied : ∀ f ∈ done, sepGetFromDescriptor m sd f ≠ 0 → Copied m m'' (sepGetFromDescriptor m sd f) (buffers.part f)
      (f.length m (sepGetFromDescriptor m sd f))
  source : Agree m' m'' rel (selfRelativeLength m sd)

section Unpack

variable {buffers sizes : SdBuffers} {d : List SdPart}

lemma sdControl_congr {a : Nat} (h : Agree m m' a 4) : sdControl m' a = sdControl m a := by
  unfold sdControl
  rw [readUshort_congr (h.sub (by omega) (by omega))]

lemma sdRevision_congr {a : Nat} (h : Agree m m' a 4) : sdRevision m' a = sdRevision m a := by
  unfold sdRevision
  rw [h a (by omega) (by omega)]

/-- The header as it is once the words are cleared and the flag too. -/
def clearHeader (m : Mem) (sd rel : Nat) : Mem :=
  let m₁ := m.copy sd m rel 20
  let m₂ := wipePart sd .dacl (wipePart sd .sacl (wipePart sd .group (wipePart sd .owner m₁)))
  m₂.writeUshort (sd + 2) (sdControl m₂ sd &&& ~~~seSelfRelative).toNat

lemma wipePart_header (m : Mem) (sd : Nat) (f : SdPart) : Agree m (wipePart sd f m) sd 4 := by
  have hf := f.field_bounds
  exact writeUlong_sep _ _ (by omega)

lemma readUlong_wipe_self (m : Mem) (sd : Nat) (f : SdPart) : (wipePart sd f m).readUlong (sd + f.field) = 0 :=
  (readUlong_self m _ _).trans (Nat.zero_mod _)

lemma readUlong_wipe_ne (m : Mem) (sd : Nat) {f g : SdPart} (h : f ≠ g) :
    (wipePart sd f m).readUlong (sd + g.field) = m.readUlong (sd + g.field) := by
  have := SdPart.field_apart h
  exact readUlong_sep m _ (by omega)

lemma readUlong_wipeParts (m : Mem) (sd : Nat) (f : SdPart) :
    (wipePart sd .dacl (wipePart sd .sacl (wipePart sd .group (wipePart sd .owner m)))).readUlong
      (sd + f.field) = 0 := by
  cases f with
  | dacl => exact readUlong_wipe_self _ _ _
  | sacl =>
    rw [readUlong_wipe_ne _ _ (by decide)]
    exact readUlong_wipe_self _ _ _
  | group =>
    rw [readUlong_wipe_ne _ _ (by decide), readUlong_wipe_ne _ _ (by decide)]
    exact readUlong_wipe_self _ _ _
  | owner =>
    rw [readUlong_wipe_ne _ _ (by decide), readUlong_wipe_ne _ _ (by decide), readUlong_wipe_ne _ _ (by decide)]
    exact readUlong_wipe_self _ _ _

lemma clearHeader_outside (m : Mem) {sd rel x : Nat} (hx : x < sd ∨ sd + 20 ≤ x) :
    clearHeader m sd rel x = m x := by
  unfold clearHeader wipePart
  dsimp only [SdPart.field]
  rw [writeUshort, if_neg (by omega), writeUlong_of_ne _ _ (by omega), writeUlong_of_ne _ _ (by omega),
    writeUlong_of_ne _ _ (by omega), writeUlong_of_ne _ _ (by omega)]
  exact if_neg (by omega)

lemma unpacked_start (h : SelfRelative m sd rel m') (ha : flagSet (sdControl m sd) seSelfRelative = false)
    (hb : AbsoluteRoom m sd rel buffers) :
    Unpacked m sd rel m' buffers [] (clearHeader m' buffers.sd rel) := by
  have hh : Agree (m'.copy buffers.sd m' rel 20) _ buffers.sd 4 :=
    (((wipePart_header _ _ .owner).trans (wipePart_header _ _ .group)).trans
      (wipePart_header _ _ .sacl)).trans (wipePart_header _ _ .dacl)
  have hcp := copied_copy m' m' rel buffers.sd 20
  refine ⟨?_, ?_, fun f => ?_, fun f hf => absurd hf List.not_mem_nil, fun x hx hx' => ?_⟩
  · unfold clearHeader sdRevision
    rw [writeUshort_sep _ _ (Or.inl (Nat.le_refl _)) buffers.sd (Nat.le_refl _) (by omega),
      hh buffers.sd (Nat.le_refl _) (by omega)]
    exact (congrArg BitVec.toNat (hcp 0 (by decide))).trans h.revision
  · unfold clearHeader
    have hcn : sdControl (m'.copy buffers.sd m' rel 20) buffers.sd = sdControl m' rel := by
      unfold sdControl
      rw [hcp.readUshort (by decide)]
    rw [sdControl_write, sdControl_congr hh, hcn, h.control, or_and_not_selfRelative ha]
  · have hf := f.field_bounds
    unfold clearHeader
    rw [readUlong_congr (writeUshort_sep _ _ (by omega)), readUlong_wipeParts, if_neg fun hc =>
      List.not_mem_nil hc.1]
  · have := hb.sd_apart
    exact clearHeader_outside m' (by omega)

lemma Unpacked.step (hu : Unpacked m sd rel m' buffers d m₁) (h : SelfRelative m sd rel m')
    (hroom : SdRoom m sd rel) (hv : PartsValid m sd) (hb : AbsoluteRoom m sd rel buffers)
    (hf : f ∉ d) :
    Unpacked m sd rel m' buffers (f :: d)
      (movePart buffers.sd (sepGetFromDescriptor m' rel f) (buffers.part f) f m₁) := by
  have hm {g : SdPart} (hg : g ≠ f) : g ∈ f :: d ↔ g ∈ d := by rw [List.mem_cons, or_iff_right hg]
  rw [h.get hroom hv]
  by_cases hn : sepGetFromDescriptor m sd f = 0
  · -- a part that is not there changes nothing
    rw [if_pos hn, movePart, if_pos rfl]
    refine ⟨hu.revision, hu.control, fun g => ?_, fun g hg hne => ?_, hu.source⟩
    · rw [hu.word g]
      by_cases hgf : g = f
      · rw [if_neg (fun hc => hf (hgf ▸ hc.1)), if_neg (fun hc => hc.2 (hgf ▸ hn))]
      · simp [hm hgf]
    have hgf : g ≠ f := by
      rintro rfl
      exact hne hn
    exact hu.copied g ((hm hgf).mp hg) hne
  -- the part is read from the self-relative descriptor, which stays as it is
  have ho := sdOffset_bounds m sd f
  have hl := length_le_sdPartSize hn
  have hs : Copied m m₁ (sepGetFromDescriptor m sd f) (rel + sdOffset m sd f)
    (f.length m (sepGetFromDescriptor m sd f)) :=
    ((h.copied f).mono hl).congr (hu.source.sub (by omega) (by omega))
  rw [if_neg hn, movePart, if_neg (by omega), (SdPart.valid_copied (hv f hn) hs).1]
  have hbn := hb.bounds f hn
  have hsd := hb.part_sd f hn
  have hr := hb.part_rel f hn
  have ha := hb.sd_apart
  have hfl := f.field_bounds
  -- what lies apart from the buffer and from the word stays
  have hk (x : Nat) (hx : x < buffers.part f ∨ buffers.part f + f.length m (sepGetFromDescriptor m sd f) ≤ x)
      (hw : x < buffers.sd + f.field ∨ buffers.sd + f.field + 4 ≤ x) :
      (m₁.copy (buffers.part f) m₁ (rel + sdOffset m sd f)
        (f.length m (sepGetFromDescriptor m sd f))).writeUlong (buffers.sd + f.field)
        (buffers.part f) x = m₁ x := by
    rw [writeUlong_of_ne _ _ hw]
    exact if_neg (by omega)
  have hh := fun x (hx : buffers.sd ≤ x) (hx' : x < buffers.sd + 4) =>
    hk x (by omega) (by omega)
  refine ⟨?_, ?_, fun g => ?_, fun g hg hne => ?_, fun x hx hx' => ?_⟩
  · rw [sdRevision_congr hh, hu.revision]
  · rw [sdControl_congr hh, hu.control]
  · have hg := g.field_bounds
    by_cases hgf : g = f
    · rw [hgf, readUlong_self, if_pos ⟨List.mem_cons_self, hn⟩]
      exact Nat.mod_eq_of_lt hbn.2
    have hap := SdPart.field_apart hgf
    rw [readUlong_congr fun x hx hx' => hk x (by omega) (by omega), hu.word g]
    simp [hm hgf]
  · by_cases hgf : g = f
    · subst hgf
      exact (hs.trans (copied_copy _ _ _ _ _)).congr (writeUlong_sep _ _ (by omega))
    have hap := hb.part_part g f hgf hne hn
    have hg' := hb.part_sd g hne
    have hl' := length_le_sdPartSize hne
    exact (hu.copied g ((hm hgf).mp hg) hne).congr fun x hx hx' =>
      hk x (by omega) (by omega)
  · rw [hk x (by omega) (by omega), hu.source x hx hx']

/-- The sizes of the buffers that the absolute form needs. -/
def sdNeeded (m : Mem) (sd : Nat) : SdBuffers := ⟨20, sdPartSize m sd⟩

def SdBuffers.Enough (needed sizes : SdBuffers) : Prop :=
  needed.sd ≤ sizes.sd ∧ ∀ f, needed.part f ≤ sizes.part f

/-- Both descriptors have the same revision and control flags and the same parts. -/
structure SameDescriptor (m : Mem) (sd : Nat) (m' : Mem) (sd' : Nat) : Prop where
  revision : sdRevision m' sd' = sdRevision m sd
  control : sdControl m' sd' = sdControl m sd
  null : ∀ f, sepGetFromDescriptor m' sd' f = 0 ↔ sepGetFromDescriptor m sd f = 0
  length : ∀ f : SdPart, sepGetFromDescriptor m sd f ≠ 0 →
    f.length m' (sepGetFromDescriptor m' sd' f) = f.length m (sepGetFromDescriptor m sd f)
  bytes : ∀ f : SdPart, sepGetFromDescriptor m sd f ≠ 0 →
    m'.bytes (sepGetFromDescriptor m' sd' f) (f.length m (sepGetFromDescriptor m sd f)) =
      m.bytes (sepGetFromDescriptor m sd f) (f.length m (sepGetFromDescriptor m sd f))

lemma Unpacked.same (hu : Unpacked m sd rel m' buffers [.sacl, .dacl, .group, .owner] m₁)
    (hab : flagSet (sdControl m sd) seSelfRelative = false) (hv : PartsValid m sd)
    (hb : AbsoluteRoom m sd rel buffers) : SameDescriptor m sd m₁ buffers.sd := by
  have ha (f : SdPart) : f ∈ [SdPart.sacl, .dacl, .group, .owner] := by cases f <;> decide
  have hg (f : SdPart) : sepGetFromDescriptor m₁ buffers.sd f =
      if sepGetFromDescriptor m sd f ≠ 0 then buffers.part f else 0 := by
    by_cases hp : f.present (sdControl m sd)
    · rw [sepGetFromDescriptor_absolute (hu.control ▸ hp) (hu.control ▸ hab), hu.word f]
      simp [ha f, true_and]
    · have hp : f.present (sdControl m sd) = false := Bool.eq_false_iff.mpr hp
      rw [getFrom_absent (hu.control ▸ hp), if_neg (not_not.mpr (getFrom_absent hp))]
  refine ⟨hu.revision, hu.control, fun f => ?_, fun f hf => ?_, fun f hf => ?_⟩
  · rw [hg f]
    by_cases hn : sepGetFromDescriptor m sd f = 0
    · rw [if_neg (not_not.mpr hn)]
      exact iff_of_true rfl hn
    have := hb.bounds f hn
    rw [if_pos hn]
    exact iff_of_false (by omega) hn
  · rw [hg f, if_pos hf, (SdPart.valid_copied (hv f hf) (hu.copied f (ha f) hf)).1]
  · rw [hg f, if_pos hf]
    exact List.map_congr_left fun i hi => hu.copied f (ha f) hf i (List.mem_range.mp hi)

variable (h : SelfRelative m sd rel m') (hroom : SdRoom m sd rel) (hv : PartsValid m sd)

include h hroom hv

lemma tooSmall_iff : (buffers.sd == 0 || decide (sizes.sd < 20) || decide
    (sizes.part .owner < sdPartSize m' rel .owner) ||
      decide (sizes.part .group < sdPartSize m' rel .group) ||
      decide (sizes.part .dacl < sdPartSize m' rel .dacl) ||
      decide (sizes.part .sacl < sdPartSize m' rel .sacl)) ↔
      buffers.sd = 0 ∨ ¬(sdNeeded m sd).Enough sizes := by
  have ha : (∀ f, sdPartSize m sd f ≤ sizes.part f) ↔
      sdPartSize m sd .owner ≤ sizes.part .owner ∧ sdPartSize m sd .group ≤ sizes.part .group ∧
        sdPartSize m sd .dacl ≤ sizes.part .dacl ∧ sdPartSize m sd .sacl ≤ sizes.part .sacl := by
    refine ⟨fun hc => ⟨hc _, hc _, hc _, hc _⟩, ?_⟩
    rintro ⟨ho, hg, hd, hs⟩ f
    cases f <;> assumption
  simp only [Bool.or_eq_true, beq_iff_eq, decide_eq_true_eq, h.size hroom hv, SdBuffers.Enough, sdNeeded, ha]
  omega

lemma toAbsolute_small (hs : buffers.sd = 0 ∨ ¬(sdNeeded m sd).Enough sizes) :
    rtlSelfRelativeToAbsoluteSD m' rel buffers sizes = (m', .bufferTooSmall, sdNeeded m sd) := by
  have hsz : sdPartSize m' rel = sdPartSize m sd := funext fun f => h.size hroom hv
  unfold rtlSelfRelativeToAbsoluteSD
  rw [h.control, flagSet_selfRelative, if_neg (by decide), if_pos ((tooSmall_iff h hroom hv).mpr hs), hsz]
  rfl

lemma toAbsolute_spec (ha : flagSet (sdControl m sd) seSelfRelative = false)
    (hb : AbsoluteRoom m sd rel buffers) (hs : (sdNeeded m sd).Enough sizes) :
    ∃ m'', rtlSelfRelativeToAbsoluteSD m' rel buffers sizes = (m'', .success, sizes) ∧
      SameDescriptor m sd m'' buffers.sd := by
  have hr : ¬(buffers.sd = 0 ∨ ¬(sdNeeded m sd).Enough sizes) := by
    have := hb.sd_pos
    rintro (hz | hsm)
    · omega
    · exact hsm hs
  have ho := (unpacked_start h ha hb).step h hroom hv hb (f := .owner) (by decide)
  have hg := ho.step h hroom hv hb (f := .group) (by decide)
  have hd := hg.step h hroom hv hb (f := .dacl) (by decide)
  have hsc := hd.step h hroom hv hb (f := .sacl) (by decide)
  refine ⟨_, ?_, hsc.same ha hv hb⟩
  unfold rtlSelfRelativeToAbsoluteSD
  rw [h.control, flagSet_selfRelative, if_neg (by decide), if_neg (mt (tooSmall_iff h hroom hv).mp hr)]
  rfl

end Unpack

/-- A valid absolute descriptor goes to the self-relative form and back, to the same descriptor,
given the room, and otherwise the sizes that are needed are told. The self-relative form is
valid exactly if every ACL whose flag is set is there and the SID at the end has a
subauthority. -/
theorem sd_round_trip (habs : flagSet (sdControl m sd) seSelfRelative = false)
    (hvalid : rtlValidSecurityDescriptor m sd = true) (hroom : SdRoom m sd rel) :
    (∀ n < selfRelativeLength m sd,
      rtlMakeSelfRelativeSD m sd rel n = (m, .bufferTooSmall, selfRelativeLength m sd)) ∧
    ∀ n ≥ selfRelativeLength m sd, ∃ m', rtlMakeSelfRelativeSD m sd rel n = (m', .success, n) ∧
      (∀ required : BitVec 32,
        (required &&& ownerSecurityInformation ≠ 0 → sepGetFromDescriptor m sd .owner ≠ 0) →
        (required &&& groupSecurityInformation ≠ 0 → sepGetFromDescriptor m sd .group ≠ 0) →
        (rtlValidRelativeSecurityDescriptor m' rel (selfRelativeLength m sd) required = true ↔ Convertible m sd)) ∧
      (∀ buffers sizes, buffers.sd = 0 ∨ ¬(sdNeeded m sd).Enough sizes →
        rtlSelfRelativeToAbsoluteSD m' rel buffers sizes = (m', .bufferTooSmall, sdNeeded m sd)) ∧
      ∀ buffers sizes, AbsoluteRoom m sd rel buffers → (sdNeeded m sd).Enough sizes →
        ∃ m'', rtlSelfRelativeToAbsoluteSD m' rel buffers sizes = (m'', .success, sizes) ∧
          SameDescriptor m sd m'' buffers.sd := by
  obtain ⟨hr, hv⟩ := validDescriptor_iff.mp hvalid
  refine ⟨fun n hn => rtlMakeSelfRelativeSD_small rel hn, fun n hn => ?_⟩
  obtain ⟨m', hm, h⟩ := rtlMakeSelfRelativeSD_spec hroom hn
  exact ⟨m', hm, fun required ho hg => h.rtlValidRelative_iff hroom hv hr ho hg,
    fun buffers sizes hs => toAbsolute_small h hroom hv hs,
    fun buffers sizes hb hs => toAbsolute_spec h hroom hv habs hb hs⟩

/-- An absolute descriptor at address 100 with an owner of one subauthority at 200 and, if
`daclPresent`, the flag of a DACL that is NULL. -/
def ownerSd (daclPresent : Bool) : Mem := fun x =>
  if 100 ≤ x ∧ x < 120 then
    ([1, 0, if daclPresent then 4 else 0, 0, 200, 0, 0, 0] : List Byte).getD (x - 100) 0
  else ([1, 1, 0, 0, 0, 0, 0, 5, 18, 0, 0, 0] : List Byte).getD (x - 200) 0

lemma ownerSd_room (dp : Bool) : SdRoom (ownerSd dp) 100 1000 := by
  refine ⟨by cases dp <;> decide, Or.inl (by decide), fun f _ => Or.inl ?_⟩
  cases f <;> cases dp <;> decide

theorem sd_round_trip_owner : ∃ m', rtlMakeSelfRelativeSD (ownerSd false) 100 1000 32 = (m', .success, 32) ∧
      rtlValidRelativeSecurityDescriptor m' 1000 32 0 = true := by
  obtain ⟨-, hb⟩ := sd_round_trip (by decide) (by decide) (ownerSd_room false)
  obtain ⟨m', hm, hvalid, -⟩ := hb 32 (by decide)
  refine ⟨m', hm, (hvalid 0 (by decide) (by decide)).mpr ⟨?_, ?_, ?_, ?_⟩⟩ <;> decide

/-- A NULL DACL that is present: the descriptor is valid, its self-relative form is not. -/
theorem sd_round_trip_null_dacl :
    rtlValidSecurityDescriptor (ownerSd true) 100 = true ∧
      (rtlMakeSelfRelativeSD (ownerSd true) 100 1000 32).2.1 = .success ∧
      rtlValidRelativeSecurityDescriptor (rtlMakeSelfRelativeSD (ownerSd true) 100 1000 32).1 1000 32 0 =
        false := by
  refine ⟨by decide, by decide, by decide⟩

end FreeNT.Rtl
