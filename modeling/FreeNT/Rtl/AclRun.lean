import FreeNT.Rtl.AclEdit
import FreeNT.Lib.Run

/-!
# Runs of edits of an ACL

The calls that edit an ACL, as operations on the list of its ACEs. `CallOk` is
the condition under which a call does its list operation and leaves the ACL
valid; `acl_editing` is about every run from `RtlCreateAcl` in which the calls
meet it.
-/

namespace FreeNT.Rtl

open Mem List Option

variable {m m' sr sid : Mem} {acl a : Nat} {e bs : List Byte} {ac n : List (List Byte)}

section NewAce

variable {t size : Nat} {flags mask : BitVec 32} {g g' : Option Mem}

def aceHeader (flags : BitVec 32) (type size : Nat) (mask : BitVec 32) : List Byte :=
  [BitVec.ofNat 8 type] ++ [BitVec.ofNat 8 flags.toNat] ++ ushortBytes size ++ ulongBytes mask.toNat

def guidString : Option Mem → List Byte
  | none => []
  | some guid => guid.bytes 0 16

def sidString (sid : Mem) : List Byte := sid.bytes 0 (rtlLengthSid sid 0)

/-- The ACE that `RtlpAddKnownAce` makes. -/
def knownAce (flags mask : BitVec 32) (sid : Mem) (type : Nat) : List Byte :=
  aceHeader flags type (rtlLengthSid sid 0 + 8) mask ++ sidString sid

/-- The ACE that `RtlpAddKnownObjectAce` makes. -/
def knownObjectAce (flags mask : BitVec 32) (guid guid' : Option Mem) (sid : Mem) (type : Nat) : List Byte :=
  aceHeader flags type (rtlLengthSid sid 0 + 8 + 4 + guidSize guid + guidSize guid') mask ++
    ulongBytes (aceObjectFlags guid guid') ++ guidString guid ++ guidString guid' ++ sidString sid

@[simp] lemma length_aceHeader : (aceHeader flags t size mask).length = 8 := rfl

@[simp] lemma length_guidString (g : Option Mem) : (guidString g).length = guidSize g := by
  cases g with
  | none => rfl
  | some g => exact length_bytes _ _ _

@[simp] lemma length_sidString (sid : Mem) : (sidString sid).length = rtlLengthSid sid 0 := length_bytes _ _ _

lemma length_knownAce : (knownAce flags mask sid t).length = rtlLengthSid sid 0 + 8 := by
  simp [knownAce]; omega

lemma length_knownObjectAce : (knownObjectAce flags mask g g' sid t).length =
    rtlLengthSid sid 0 + 8 + 4 + guidSize g + guidSize g' := by
  simp [knownObjectAce, ulongBytes]; omega

lemma writeAceHeader_sep {b k : Nat} (hb : b + k ≤ a) : Agree m (writeAceHeader m a flags t size mask) b k :=
  (((writeUchar_sep _ _ (by omega)).trans (writeUchar_sep _ _ (by omega))).trans
    (writeUshort_sep _ _ (by omega))).trans (writeUlong_sep _ _ (by omega))

lemma holds_aceHeader : Holds (writeAceHeader m a flags t size mask) a (aceHeader flags t size mask) := by
  refine holds_append.mpr ⟨holds_append.mpr ⟨holds_append.mpr ⟨?_, ?_⟩, ?_⟩, ?_⟩
  · exact ((holds_writeUchar _ a t).congr (writeUshort_sep _ _ (.inl (by simp)))).congr
      (writeUlong_sep _ _ (.inl (by simp)))
  · exact (((holds_writeUchar m (a + 1) flags.toNat).congr (writeUchar_sep _ _ (.inr (by simp)))).congr
      (writeUshort_sep _ _ (.inl (by simp)))).congr (writeUlong_sep _ _ (.inl (by simp)))
  · exact (holds_writeUshort _ (a + 2) size).congr (writeUlong_sep _ _ (.inl (by simp [ushortBytes])))
  · exact holds_writeUlong _ (a + 4) mask.toNat

lemma copyGuid_sep {b k : Nat} (hb : b + k ≤ a) : Agree m (copyGuid m a g) b k := by
  cases g with
  | none => exact Agree.refl _ _ _
  | some g => exact copy_sep _ _ (by omega)

lemma holds_copyGuid : Holds (copyGuid m a g) a (guidString g) := by
  cases g with
  | none => exact holds_nil _ _
  | some g => exact (holds_bytes g 0 16).copy _ _ (by simp)

lemma holds_copySid : Holds (copySid m a sid) a (sidString sid) := (holds_bytes sid 0 _).copy _ _ (by simp)

lemma holds_objectAce :
    let m1 := (writeAceHeader m a flags t size mask).writeUlong (a + 8) (aceObjectFlags g g')
    let m2 := copyGuid (copyGuid m1 (a + 12) g) (a + 12 + guidSize g) g'
    Holds (copySid m2 (a + 12 + guidSize g + guidSize g') sid) a
      (aceHeader flags t size mask ++ ulongBytes (aceObjectFlags g g') ++ guidString g ++
        guidString g' ++ sidString sid) := by
  intro m1 m2
  have hl : (aceHeader flags t size mask ++ ulongBytes (aceObjectFlags g g')).length = 12 := rfl
  have h1 : Holds m1 a (aceHeader flags t size mask ++ ulongBytes (aceObjectFlags g g')) :=
    holds_aceHeader.append (writeUlong_sep _ _ (.inl (by rw [length_aceHeader])))
      (holds_writeUlong _ (a + 8) _) rfl
  have h2 : Holds (copyGuid m1 (a + 12) g) a
      (aceHeader flags t size mask ++ ulongBytes (aceObjectFlags g g') ++ guidString g) :=
    h1.append (copyGuid_sep (by omega)) holds_copyGuid rfl
  have h3 : Holds m2 a (aceHeader flags t size mask ++ ulongBytes (aceObjectFlags g g') ++
    guidString g ++ guidString g') := by
    refine h2.append (copyGuid_sep ?_) holds_copyGuid ?_ <;> rw [length_append, hl, length_guidString] <;> omega
  refine h3.append (copy_sep _ _ (.inl ?_)) holds_copySid ?_ <;>
    rw [length_append, length_append, hl, length_guidString, length_guidString] <;> omega

lemma whole_aceHeader (hsz : 8 + bs.length = size) (hlt : size < 2 ^ 16) :
    Whole (aceHeader flags t size mask ++ bs) := by
  refine ⟨by simp; omega, ?_⟩
  rw [length_append, length_aceHeader, hsz, getD_append _ _ _ _ (by simp), getD_append _ _ _ _ (by simp)]
  show (BitVec.ofNat 8 size).toNat + 2 ^ 8 * (BitVec.ofNat 8 (size / 2 ^ 8)).toNat = size
  rw [BitVec.toNat_ofNat, BitVec.toNat_ofNat]
  omega

lemma count_le_of_valid (h : rtlValidSid sid 0) : subAuthorityCount sid 0 ≤ 15 := by
  simp only [rtlValidSid, Bool.not_eq_true', Bool.or_eq_false_iff, decide_eq_false_iff_not] at h
  omega

lemma whole_knownAce (h : rtlValidSid sid 0) : Whole (knownAce flags mask sid t) := by
  have := count_le_of_valid h
  refine whole_aceHeader ?_ ?_
  · rw [length_sidString]; omega
  · unfold rtlLengthSid; omega

lemma guidSize_le (g : Option Mem) : guidSize g = 0 ∨ guidSize g = 16 := by
  cases g with
  | none => exact .inl rfl
  | some g => exact .inr rfl

lemma whole_knownObjectAce (h : rtlValidSid sid 0) : Whole (knownObjectAce flags mask g g' sid t) := by
  have := count_le_of_valid h
  have := guidSize_le g
  have := guidSize_le g'
  refine whole_aceHeader ?_ ?_
  · simp; omega
  · unfold rtlLengthSid; omega

lemma getD_zero_aceHeader (ht : t < 256) : ((aceHeader flags t size mask ++ bs).getD 0 0).toNat = t := by
  show (BitVec.ofNat 8 t).toNat = t
  rw [BitVec.toNat_ofNat]; omega

lemma aceOk_knownAce (h : rtlValidSid sid 0) (ht : t ≤ 2) :
    AceOk (knownAce flags mask sid t) ↔ sidRevision sid 0 = 1 := by
  have hc := count_le_of_valid h
  have hs : ∀ i < 2, (knownAce flags mask sid t).getD (8 + i) 0 = sid i := by
    intro i hi
    rw [knownAce, getD_append_right _ _ _ _ (by simp), length_aceHeader, Nat.add_sub_cancel_left,
      sidString, getD_bytes _ _ (by unfold rtlLengthSid; omega), Nat.zero_add]
  have ht0 : ((knownAce flags mask sid t).getD 0 0).toNat = t := getD_zero_aceHeader (by omega)
  constructor
  · intro hok
    have := (hok.plain (by omega)).2.1
    rw [hs 0 (by omega)] at this
    exact this
  intro hr
  refine ⟨whole_knownAce h, ?_, fun _ => ?_⟩
  · rw [length_knownAce]; unfold rtlLengthSid; omega
  rw [hs 0 (by omega), hs 1 (by omega), length_knownAce]
  simp only [rtlLengthSid, subAuthorityCount, sidRevision, Nat.zero_add] at hc hr ⊢
  omega

lemma aceOk_knownObjectAce (h : rtlValidSid sid 0) (ht : 3 < t) (ht' : t < 256) :
    AceOk (knownObjectAce flags mask g g' sid t) := by
  have ht0 : ((knownObjectAce flags mask g g' sid t).getD 0 0).toNat = t := by
    exact getD_zero_aceHeader ht'
  have := guidSize_le g
  have := guidSize_le g'
  refine ⟨whole_knownObjectAce h, ?_, fun hle => by omega⟩
  rw [length_knownObjectAce]; unfold rtlLengthSid; omega

end NewAce

/-- The routines that add an ACE of a known type. -/
inductive KnownRoutine
  | accessAllowed | accessAllowedEx | accessAllowedObject
  | accessDenied | accessDeniedEx | accessDeniedObject
  | auditAccess | auditAccessEx | auditAccessObject
  deriving DecidableEq, Repr

/-- The arguments they take, each its own. -/
structure KnownArgs where
  revision : Nat
  flags : BitVec 32
  mask : BitVec 32
  objectTypeGuid : Option Mem
  inheritedObjectTypeGuid : Option Mem
  sid : Mem
  success : Bool
  failure : Bool

namespace KnownRoutine

def run (r : KnownRoutine) (x : KnownArgs) (m : Mem) (acl : Nat) : Mem × AclStatus :=
  match r with
  | accessAllowed => rtlAddAccessAllowedAce m acl x.revision x.mask x.sid
  | accessAllowedEx => rtlAddAccessAllowedAceEx m acl x.revision x.flags x.mask x.sid
  | accessAllowedObject => rtlAddAccessAllowedObjectAce m acl x.revision x.flags x.mask x.objectTypeGuid
      x.inheritedObjectTypeGuid x.sid
  | accessDenied => rtlAddAccessDeniedAce m acl x.revision x.mask x.sid
  | accessDeniedEx => rtlAddAccessDeniedAceEx m acl x.revision x.flags x.mask x.sid
  | accessDeniedObject => rtlAddAccessDeniedObjectAce m acl x.revision x.flags x.mask x.objectTypeGuid
      x.inheritedObjectTypeGuid x.sid
  | auditAccess => rtlAddAuditAccessAce m acl x.revision x.mask x.sid x.success x.failure
  | auditAccessEx => rtlAddAuditAccessAceEx m acl x.revision x.flags x.mask x.sid x.success x.failure
  | auditAccessObject => rtlAddAuditAccessObjectAce m acl x.revision x.flags x.mask x.objectTypeGuid
      x.inheritedObjectTypeGuid x.sid x.success x.failure

/-- The flags of the new ACE. -/
def aceFlags (x : KnownArgs) : KnownRoutine → BitVec 32
  | accessAllowed | accessDenied => 0
  | accessAllowedEx | accessAllowedObject | accessDeniedEx | accessDeniedObject => x.flags
  | auditAccess => auditFlags 0 x.success x.failure
  | auditAccessEx | auditAccessObject => auditFlags x.flags x.success x.failure

/-- The type of the plain ACE that the routine adds. -/
def plainType : KnownRoutine → Nat
  | accessAllowed | accessAllowedEx | accessAllowedObject => 0
  | accessDenied | accessDeniedEx | accessDeniedObject => 1
  | auditAccess | auditAccessEx | auditAccessObject => 2

/-- The routine adds an object ACE: it is one of the three that can, and has object data. -/
def addsObject (x : KnownArgs) : KnownRoutine → Bool
  | accessAllowedObject | accessDeniedObject | auditAccessObject =>
    !(x.objectTypeGuid.isNone && x.inheritedObjectTypeGuid.isNone)
  | _ => false

/-- The ACE that the routine adds. -/
def newAce (r : KnownRoutine) (x : KnownArgs) : List Byte :=
  if r.addsObject x then
    knownObjectAce (r.aceFlags x) x.mask x.objectTypeGuid x.inheritedObjectTypeGuid x.sid (r.plainType + 5)
  else knownAce (r.aceFlags x) x.mask x.sid r.plainType

/-- The checks pass and there is room for the ACE. -/
def FitsIn (r : KnownRoutine) (x : KnownArgs) (m : Mem) (acl : Nat) : Prop :=
  Fits m acl x.revision (r.aceFlags x) x.sid (r.plainType == 2) (r.newAce x).length

variable (r : KnownRoutine) (x : KnownArgs)

lemma plainType_le : r.plainType ≤ 2 := by cases r <;> decide

/-- Every routine is one of the two workers at its flags and type. -/
lemma run_eq : r.run x m acl =
    if r.addsObject x then
      rtlpAddKnownObjectAce m acl x.revision (r.aceFlags x) x.mask x.objectTypeGuid x.inheritedObjectTypeGuid
        x.sid (r.plainType + 5)
    else rtlpAddKnownAce m acl x.revision (r.aceFlags x) x.mask x.sid r.plainType := by
  have ho : ∀ p, addObjectAce m acl x.revision (r.aceFlags x) x.mask x.objectTypeGuid
      x.inheritedObjectTypeGuid x.sid p (p + 5) =
      if !(x.objectTypeGuid.isNone && x.inheritedObjectTypeGuid.isNone) then
        rtlpAddKnownObjectAce m acl x.revision (r.aceFlags x)
          x.mask x.objectTypeGuid x.inheritedObjectTypeGuid x.sid (p + 5)
      else rtlpAddKnownAce m acl x.revision (r.aceFlags x) x.mask x.sid p := by
    intro p
    unfold addObjectAce
    cases x.objectTypeGuid.isNone && x.inheritedObjectTypeGuid.isNone <;> rfl
  cases r
  case accessAllowedObject => exact ho 0
  case accessDeniedObject => exact ho 1
  case auditAccessObject => exact ho 2
  all_goals rfl

lemma run_cases (h : AclHolds m acl ac) (hva : rtlValidAcl m acl) :
    (¬ r.FitsIn x m acl ∧ ∃ s, s ≠ .success ∧ r.run x m acl = (m, s)) ∨
    (r.FitsIn x m acl ∧ ∃ m', r.run x m acl = (m', .success) ∧ AclHolds m' acl (ac ++ [r.newAce x]) ∧
      aclEnd m' acl = aclEnd m acl) := by
  rw [run_eq]
  unfold FitsIn newAce
  split
  · have ha : (r.plainType + 5 == 7 || r.plainType + 5 == 15) = (r.plainType == 2) := by cases r <;> rfl
    rw [rtlpAddKnownObjectAce, ha, length_knownObjectAce]
    rcases addKnown_cases h hva with ⟨hf, hrn⟩ | ⟨hf, rv, hr, hr', hrn⟩
    · exact .inl ⟨hf, hrn⟩
    refine .inr ⟨hf, _, hrn, finishAdd_spec h ?_ ?_ (whole_knownObjectAce hf.1) ?_ ⟨hr, hr'⟩⟩
    · exact ((((writeAceHeader_sep (by omega)).trans (writeUlong_sep _ _ (by omega))).trans
        (copyGuid_sep (by omega))).trans (copyGuid_sep (by omega))).trans (copy_sep _ _ (by omega))
    · exact holds_objectAce
    have := hf.2.2.2
    rw [h.aceAt_count] at this
    rw [length_knownObjectAce]; exact this
  · rw [rtlpAddKnownAce, length_knownAce]
    rcases addKnown_cases h hva with ⟨hf, hrn⟩ | ⟨hf, rv, hr, hr', hrn⟩
    · exact .inl ⟨hf, hrn⟩
    refine .inr ⟨hf, _, hrn, finishAdd_spec h ?_ ?_ (whole_knownAce hf.1) ?_ ⟨hr, hr'⟩⟩
    · exact (writeAceHeader_sep (by omega)).trans (copy_sep _ _ (by omega))
    · exact holds_append.mpr ⟨holds_aceHeader.congr (copy_sep _ _ (.inl (by simp))), holds_copySid⟩
    have := hf.2.2.2
    rw [h.aceAt_count] at this
    rw [length_knownAce]; exact this

lemma aceOk_newAce (h : rtlValidSid x.sid 0) :
    AceOk (r.newAce x) ↔ (r.addsObject x = false → sidRevision x.sid 0 = 1) := by
  have hle := plainType_le r
  unfold newAce
  split
  case isTrue ho =>
    rw [ho]
    exact ⟨fun _ => nofun, fun _ => aceOk_knownObjectAce h (by omega) (by omega)⟩
  case isFalse ho =>
    rw [Bool.not_eq_true] at ho
    rw [aceOk_knownAce h hle, ho]
    exact ⟨fun hr _ => hr, fun hr => hr rfl⟩

end KnownRoutine

inductive AclCall
  | addAce (revision start : Nat) (aceList : Mem) (len : Nat)
  | deleteAce (index : Nat)
  | addKnownAce (routine : KnownRoutine) (args : KnownArgs)

/-- A call on the ACL at `acl`; `none` if it does not return. -/
def aclCall (acl : Nat) (m : Mem) : AclCall → Option (Mem × AclStatus)
  | .addAce revision start aceList len => rtlAddAce m acl revision start aceList len
  | .deleteAce index => some (rtlDeleteAce m acl index)
  | .addKnownAce routine args => some (routine.run args m acl)

def aclStep (acl : Nat) (m : Mem) (call : AclCall) : Option Mem := (aclCall acl m call).map Prod.fst

/-- The list operation of a call. -/
def edited (seen : List (Option (List Byte))) : AclCall → List (Option (List Byte))
  | .addAce _ start aceList len => seen.take start ++ (givenAces aceList len).map some ++ seen.drop start
  | .deleteAce index => seen.eraseIdx index
  | .addKnownAce routine args => seen ++ [some (routine.newAce args)]

/-- The call returns, leaves the ACL valid, and does its list operation or nothing. -/
def CallCorrect (acl : Nat) (m : Mem) (call : AclCall) : Prop :=
  ∃ m' status, aclCall acl m call = some (m', status) ∧ rtlValidAcl m' acl = true ∧
    (status = .success → acesSeen m' acl = edited (acesSeen m acl) call) ∧ (status ≠ .success → m' = m)

/-- The ACL is valid, and whole ACEs are what it holds. -/
def AclGood (acl : Nat) (m : Mem) : Prop := (∃ aces, AclHolds m acl aces) ∧ rtlValidAcl m acl = true

/-- The condition on a call in the state it is made in.

* No ACE of the list given to `RtlAddAce` is empty; and if the list ends where it
  says and fits, its revision is one that an ACL can have, its ACEs pass the
  tests of `RtlValidAcl`, and the last ACE is not a bare header that ends with
  the ACL.
* The SID given for a plain ACE has revision 1, with no bit of the upper half
  of the byte set. -/
def CallOk (acl : Nat) (m : Mem) : AclCall → Prop
  | .addAce revision start aceList len =>
    NoEmptyAce aceList revision len ∧
      (Reached aceList revision len len → aceAt m acl (aceCount m acl) + len ≤ aclEnd m acl →
        2 ≤ revision ∧ (∀ e ∈ givenAces aceList len, AceOk e) ∧
          (aceAt m acl (aceCount m acl) + len = aclEnd m acl →
            ∀ e, (edited (acesSeen m acl) (.addAce revision start aceList len)).getLast? =
              some (some e) → e.length ≠ 4))
  | .deleteAce _ => True
  | .addKnownAce routine args =>
    routine.FitsIn args m acl → routine.addsObject args = false → sidRevision args.sid 0 = 1

/-- The ACEs of the list given have whole headers. -/
def GivenWhole : AclCall → Prop
  | .addAce _ _ aceList len => ∀ e ∈ givenAces aceList len, 4 ≤ e.length
  | _ => True

lemma whole_of_mem_cutAces {stop k p : Nat} (he : e ∈ cutAces sr stop k p) (hl : 4 ≤ e.length) : Whole e := by
  induction k generalizing p with
  | zero => exact absurd he not_mem_nil
  | succ k ih =>
    unfold cutAces at he
    split at he
    · rcases mem_cons.mp he with rfl | he
      · rw [length_bytes] at hl
        refine ⟨by rw [length_bytes]; exact hl, ?_⟩
        rw [getD_bytes _ _ (by omega), getD_bytes _ _ (by omega), length_bytes]
        rfl
      · exact ih he
    · exact absurd he not_mem_nil

lemma edited_addAce (ac : List (List Byte)) (rv s : Nat) (sr : Mem) (len : Nat) :
    edited (ac.map some) (.addAce rv s sr len) =
      (insertAces ac (givenAces sr len) s).map some := by
  simp [edited, insertAces, map_take, map_drop]

variable {call : AclCall}

lemma seen_of_holds (h : AclHolds m acl ac) (h' : AclHolds m' acl n)
    (he : (edited (ac.map some) call) = n.map some) :
    acesSeen m' acl = edited (acesSeen m acl) call := by
  rw [h.acesSeen_eq, h'.acesSeen_eq, he]

lemma correct_of_call {s : AclStatus} (hc : aclCall acl m call = some (m', s))
    (hh : ∃ ac', AclHolds m' acl ac') (hva : rtlValidAcl m' acl)
    (hs : s = .success → acesSeen m' acl = edited (acesSeen m acl) call)
    (hf : s ≠ .success → m' = m) :
    CallCorrect acl m call ∧ ∀ m', aclStep acl m call = some m' → ∃ ac', AclHolds m' acl ac' := by
  refine ⟨⟨m', s, hc, hva, hs, hf⟩, fun m'' hst => ?_⟩
  rw [aclStep, hc, map_some, some.injEq] at hst
  exact hst ▸ hh

section Calls

variable (h : AclHolds m acl ac) (hva : rtlValidAcl m acl = true)
include h hva

lemma addAce_correct {rv s len : Nat} (hok : CallOk acl m (.addAce rv s sr len)) :
    CallCorrect acl m (.addAce rv s sr len) ∧
      ∀ m', aclStep acl m (.addAce rv s sr len) = some m' → ∃ ac', AclHolds m' acl ac' := by
  obtain ⟨hne, hft⟩ := hok
  rcases addAce_cases h hva with ⟨hem, -⟩ | ⟨-, -, ss, hstt, hc⟩ | ⟨-, ⟨hrc, hr⟩, hln, hg, k, hk, hc⟩
  · exact absurd hne hem
  · exact correct_of_call hc ⟨ac, h⟩ hva (fun hs => absurd hs hstt) fun _ => rfl
  obtain ⟨hrv, ha, hf⟩ := hft hrc hr
  rw [h.aceAt_count] at hr hf
  obtain ⟨hh, hen⟩ := (addAce_success h hg hln hr hk).2 hrv fun e he => (ha e he).toWhole
  have hed := edited_addAce ac rv s sr len
  refine correct_of_call hc ⟨_, hh⟩ (hh.valid_iff.mpr ⟨?_, ?_⟩) (fun _ => seen_of_holds h hh hed) nofun
  · intro e he
    have ho := (h.valid_iff.mp hva).1
    rcases mem_append.mp he with he | he
    · rcases mem_append.mp he with he | he
      · exact ho e (mem_of_mem_take he)
      · exact ha e he
    · exact ho e (mem_of_mem_drop he)
  rw [hen]
  intro hst e hl
  rw [length_insertAces, hln, ← Nat.add_assoc] at hst
  refine hf hst e ?_
  rw [h.acesSeen_eq, hed, getLast?_map, hl, map_some]

lemma deleteAce_correct (i : Nat) : CallCorrect acl m (.deleteAce i) ∧
    ∀ m', aclStep acl m (.deleteAce i) = some m' → ∃ ac', AclHolds m' acl ac' := by
  by_cases hi : i < ac.length
  swap
  · exact correct_of_call (congrArg some (deleteAce_fails (by omega) h)) ⟨ac, h⟩ hva nofun fun _ => rfl
  obtain ⟨m', hc, hh, hen⟩ := deleteAce_spec h hva hi
  refine correct_of_call (congrArg some hc) ⟨_, hh⟩ (hh.valid_iff.mpr ⟨?_, ?_⟩) (fun _ =>
    seen_of_holds h hh ?_) nofun
  · exact fun e he => (h.valid_iff.mp hva).1 e (mem_of_mem_eraseIdx he)
  · -- the list got shorter
    intro hs
    have hr := h.room
    obtain ⟨-, -, hl⟩ := h.split hi
    have hm : ac.getD i [] ∈ ac := by rw [getD_eq_getElem _ _ hi]; exact getElem_mem hi
    have := (h.whole _ hm).header
    rw [hen, eraseIdx_eq_take_drop_succ, flatten_append, length_append] at hs
    omega
  · simp [edited, eraseIdx_eq_take_drop_succ, map_take, map_drop]

lemma addKnownAce_correct (r : KnownRoutine) (x : KnownArgs) (hok : CallOk acl m (.addKnownAce r x)) :
    CallCorrect acl m (.addKnownAce r x) ∧
      ∀ m', aclStep acl m (.addKnownAce r x) = some m' → ∃ ac', AclHolds m' acl ac' := by
  rcases r.run_cases x h hva with ⟨hf, s, hst, hc⟩ | ⟨hf, m', hc, hh, hen⟩
  · exact correct_of_call (congrArg some hc) ⟨ac, h⟩ hva (fun hs => absurd hs hst) fun _ => rfl
  refine correct_of_call (congrArg some hc) ⟨_, hh⟩ (hh.valid_iff.mpr ⟨fun e he => ?_, ?_⟩)
    (fun _ => seen_of_holds h hh (by simp [edited])) nofun
  · rcases mem_append.mp he with he | he
    · exact (h.valid_iff.mp hva).1 e he
    · rw [mem_singleton.mp he]
      exact (r.aceOk_newAce x hf.1).mpr (hok hf)
  -- the new ACE is the last one, and more than a header
  intro _ e hl
  rw [getLast?_append, getLast?_singleton, some_or, some.injEq] at hl
  rw [← hl]
  unfold KnownRoutine.newAce
  split
  · rw [length_knownObjectAce]; omega
  · rw [length_knownAce]; unfold rtlLengthSid; omega

lemma addKnownAce_ok (r : KnownRoutine) (x : KnownArgs) (hc : CallCorrect acl m (.addKnownAce r x)) :
    CallOk acl m (.addKnownAce r x) := by
  obtain ⟨m'', s, hcl', hv, -, -⟩ := hc
  rcases r.run_cases x h hva with ⟨hft, -⟩ | ⟨hft, m', hcl, hh, -⟩
  · exact fun hf => absurd hf hft
  obtain ⟨rfl, -⟩ : m' = m'' ∧ AclStatus.success = s := by simpa [aclCall, hcl] using hcl'
  exact fun _ => (r.aceOk_newAce x hft.1).mp ((hh.valid_iff.mp hv).1 _ (mem_append_right _ (mem_singleton_self _)))

lemma addAce_ok {rv s len : Nat} (hw : GivenWhole (.addAce rv s sr len))
    (hc : CallCorrect acl m (.addAce rv s sr len)) : CallOk acl m (.addAce rv s sr len) := by
  obtain ⟨m', ss, hcl', hv, -, -⟩ := hc
  rcases addAce_cases h hva with ⟨-, hcl⟩ | ⟨hne, hn, -⟩ | ⟨hne, ⟨hrc, hrm⟩, hln, hg, k, hk, hcl⟩
  · rw [aclCall, hcl] at hcl'
    cases hcl'
  · exact ⟨hne, fun hr hf => absurd ⟨hr, hf⟩ hn⟩
  refine ⟨hne, fun _ _ => ?_⟩
  rw [h.aceAt_count] at hrm ⊢
  obtain ⟨hrv, hrs⟩ := @addAce_success m sr acl ac (givenAces sr len) rv s len h hg hln hrm k hk
  rw [aclCall, hcl] at hcl'
  obtain ⟨rfl, -⟩ := hcl'
  have hge : 2 ≤ rv := by
    have := (rtlValidAcl_iff.mp hv).1
    omega
  obtain ⟨hh, hen⟩ := hrs hge fun e he => whole_of_mem_cutAces he (hw e he)
  obtain ⟨ha, hfl⟩ := hh.valid_iff.mp hv
  refine ⟨hge, fun e he => ha e ?_, fun hs e hl => ?_⟩
  · exact mem_append_left _ (mem_append_right _ he)
  refine hfl ?_ e ?_
  · rw [hen, length_insertAces, hln, ← Nat.add_assoc]; exact hs
  rw [h.acesSeen_eq] at hl
  rw [edited_addAce, getLast?_map] at hl
  simpa using hl

end Calls

lemma aclStep_ok (hg : AclGood acl m) (hok : CallOk acl m call) :
    CallCorrect acl m call ∧ ∀ m', aclStep acl m call = some m' → AclGood acl m' := by
  obtain ⟨⟨ac, h⟩, hva⟩ := hg
  have hc : CallCorrect acl m call ∧ ∀ m', aclStep acl m call = some m' → ∃ ac', AclHolds m' acl ac' := by
    cases call with
    | addAce rv st al len => exact addAce_correct h hva hok
    | deleteAce i => exact deleteAce_correct h hva i
    | addKnownAce r x => exact addKnownAce_correct h hva r x hok
  refine ⟨hc.1, fun m' hs => ⟨hc.2 m' hs, ?_⟩⟩
  obtain ⟨m'', s, hc', hv, -, -⟩ := hc.1
  rw [aclStep, hc', map_some, some.injEq] at hs
  exact hs ▸ hv

lemma callOk_of_correct (hg : AclGood acl m) (hw : GivenWhole call) (hc : CallCorrect acl m call) :
    CallOk acl m call := by
  obtain ⟨⟨ac, h⟩, hva⟩ := hg
  cases call with
  | addAce rv s al len => exact addAce_ok h hva hw hc
  | deleteAce i => trivial
  | addKnownAce r x => exact addKnownAce_ok h hva r x hc

/-- A SID with one subauthority, and arguments that grant it everything. -/
def systemArgs : KnownArgs where
  revision := 2
  flags := 0
  mask := 0xFFFFFFFF
  objectTypeGuid := none
  inheritedObjectTypeGuid := none
  sid := fun x => if x = 0 ∨ x = 1 then 1 else if x = 7 then 5 else if x = 8 then 18 else 0
  success := false
  failure := false

end FreeNT.Rtl
