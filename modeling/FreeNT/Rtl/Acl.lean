import FreeNT.Lib.Bytes

/-!
# Access control lists

`sdk/lib/rtl/acl.c`, over byte memory. An ACL is a header (`AclRevision` at 0,
`Sbz1` at 1, `AclSize` at 2, `AceCount` at 4, `Sbz2` at 6) and after its 8 bytes
the ACEs, one after the other. An ACE is a header (`AceType` at 0, `AceFlags` at 1,
`AceSize` at 2) and, for the types that carry one, an access mask at 4 and a SID:
at 8 in the plain types, at 12 in the compound type, and behind the object
flags and up to two GUIDs in the object types.

The caller's buffers (a list of ACEs, a SID, a GUID) are memories of their own,
read from address 0. Pointer sums are taken in unbounded arithmetic. A call that
does not return is `none`.
-/

namespace FreeNT.Rtl

inductive AclStatus
  | success | invalidParameter | invalidAcl | invalidSid | revisionMismatch | allottedSpaceExceeded
  | bufferTooSmall
  deriving DecidableEq, Repr

section Layout

variable (m : Mem)

def aclRevision (acl : Nat) : Nat := (m acl).toNat

def aclSize (acl : Nat) : Nat := m.readUshort (acl + 2)

def aceCount (acl : Nat) : Nat := m.readUshort (acl + 4)

def aclEnd (acl : Nat) : Nat := acl + aclSize m acl

def aceType (ace : Nat) : Nat := (m ace).toNat

def aceSize (ace : Nat) : Nat := m.readUshort (ace + 2)

def sidRevision (sid : Nat) : Nat := (m sid).toNat

def subAuthorityCount (sid : Nat) : Nat := (m (sid + 1)).toNat

/-- `FIELD_OFFSET(SID, SubAuthority[SubAuthorityCount])`. -/
def rtlLengthSid (sid : Nat) : Nat := 8 + 4 * subAuthorityCount m sid

end Layout

/-- `SID_REVISION` and `SID_MAX_SUB_AUTHORITIES`, of a SID that is not NULL. -/
def rtlValidSid (m : Mem) (sid : Nat) : Bool :=
  !(sidRevision m sid &&& 0xF != 1 || decide (subAuthorityCount m sid > 15))

/-- The body of the loop of `RtlValidAcl`. -/
def validAce (m : Mem) (stop ace : Nat) : Bool :=
  if ace + 4 ≥ stop then false
  else if aceSize m ace / 2 * 2 ≠ aceSize m ace then false
  else if ace + aceSize m ace > stop then false
  else if aceType m ace ≤ 3 then
    if aceSize m ace / 4 * 4 ≠ aceSize m ace then false
    else if aceSize m ace < 4 then false
    else if sidRevision m (ace + 8) ≠ 1 then false
    else if subAuthorityCount m (ace + 8) > 15 then false
    else !decide (aceSize m ace < 4 + rtlLengthSid m (ace + 8))
  else if aceType m ace = 4 then true
  else if 5 ≤ aceType m ace ∧ aceType m ace ≤ 8 then true
  else !decide (aceSize m ace < 4)

def validLoop (m : Mem) (stop : Nat) : Nat → Nat → Bool
  | 0, _ => true
  | n + 1, ace => validAce m stop ace && validLoop m stop n (ace + aceSize m ace)

def rtlValidAcl (m : Mem) (acl : Nat) : Bool :=
  if aclRevision m acl < 2 ∨ aclRevision m acl > 4 then false
  else if aclSize m acl / 2 * 2 ≠ aclSize m acl then false
  else if aclSize m acl < 8 then false
  else validLoop m (aclEnd m acl) (aceCount m acl) (acl + 8)

/-- The ACE `n` places after the one at `ace`. -/
def skipAces (m : Mem) : Nat → Nat → Nat
  | 0, ace => ace
  | n + 1, ace => skipAces m n (ace + aceSize m ace)

def freeLoop (m : Mem) (stop : Nat) : Nat → Nat → Option Nat
  | 0, current => some current
  | n + 1, current => if current ≥ stop then none else freeLoop m stop n (current + aceSize m current)

/-- `none` for FALSE, `some none` for TRUE with a NULL pointer. -/
def rtlFirstFreeAce (m : Mem) (acl : Nat) : Option (Option Nat) :=
  (freeLoop m (aclEnd m acl) (aceCount m acl) (acl + 8)).map fun current =>
    if current ≤ aclEnd m acl then some current else none

def rtlGetAce (m : Mem) (acl aceIndex : Nat) : Option Nat :=
  if aclRevision m acl < 2 ∨ aclRevision m acl > 4 ∨ aceIndex ≥ aceCount m acl then none
  else
    match freeLoop m (aclEnd m acl) aceIndex (acl + 8) with
    | none => none
    | some ace => if ace ≥ aclEnd m acl then none else some ace

def rtlpAddData (m aceList : Mem) (aceListLength ace offset : Nat) : Mem :=
  let m := if offset > 0 then m.copy (ace + aceListLength) m ace offset else m
  if aceListLength ≠ 0 then m.copy ace aceList 0 aceListLength else m

def rtlpDeleteData (m : Mem) (ace size offset : Nat) : Mem :=
  let m := if size < offset then m.copy ace m (ace + size) (offset - size) else m
  -- `Offset - AceSize` is a ULONG
  if (offset + 2 ^ 32 - size) % 2 ^ 32 < offset then m.fill (ace + offset - size) size 0 else m

def rtlCreateAcl (m : Mem) (acl size revision : Nat) : Mem × AclStatus :=
  if size < 8 then (m, .bufferTooSmall)
  else if revision < 2 ∨ revision > 4 ∨ size > 65535 then (m, .invalidParameter)
  else
    let m := m.writeUshort (acl + 2) ((size + 3) / 4 * 4)
    let m := m.writeUchar acl revision
    let m := m.writeUshort (acl + 4) 0
    let m := m.writeUchar (acl + 1) 0
    (m.writeUshort (acl + 6) 0, .success)

/-- The revision test of `RtlAddAce` for an ACE of its list. -/
def aceAllowed (revision type : Nat) : Bool :=
  if type ≤ 8 then
    if type > 4 then !decide (revision < 4)
    else if type > 3 then !decide (revision < 3)
    else true
  else true

/-- The first loop of `RtlAddAce`: `some none` if it returns
`STATUS_INVALID_PARAMETER`, and otherwise the place it stops at and the number
of ACEs it has passed. Out of fuel, the loop does not end. -/
def addAceLoop (aceList : Mem) (revision stop : Nat) : Nat → Nat → Nat → Option (Option (Nat × Nat))
  | 0, _, _ => none
  | fuel + 1, ace, count =>
    if ace < stop then
      if aceAllowed revision (aceType aceList ace) then
        addAceLoop aceList revision stop fuel (ace + aceSize aceList ace) ((count + 1) % 2 ^ 16)
      else some none
    else some (some (ace, count))

def rtlAddAce (m : Mem) (acl revision startingIndex : Nat) (aceList : Mem) (aceListLength : Nat) :
    Option (Mem × AclStatus) :=
  if !rtlValidAcl m acl then some (m, .invalidParameter)
  else
    match rtlFirstFreeAce m acl with
    | none => some (m, .invalidParameter)
    | some freeAce =>
      -- every ACE that is not empty takes the loop one byte on
      match addAceLoop aceList revision aceListLength (aceListLength + 1) 0 0 with
      | none => none
      | some none => some (m, .invalidParameter)
      | some (some (ace, newAceCount)) =>
        if ace > aceListLength then some (m, .invalidParameter)
        else
          match freeAce with
          | none => some (m, .bufferTooSmall)
          | some free =>
            if free + aceListLength > aclEnd m acl then some (m, .bufferTooSmall)
            else
              let ace := skipAces m (min startingIndex (aceCount m acl)) (acl + 8)
              let m₁ := rtlpAddData m aceList aceListLength ace (free - ace)
              let m₂ := m₁.writeUshort (acl + 4) (aceCount m₁ acl + newAceCount)
              some (m₂.writeUchar acl (min (aclRevision m₂ acl) revision), .success)

def rtlDeleteAce (m : Mem) (acl aceIndex : Nat) : Mem × AclStatus :=
  if !rtlValidAcl m acl then (m, .invalidParameter)
  else if aceCount m acl ≤ aceIndex then (m, .invalidParameter)
  else
    match rtlFirstFreeAce m acl with
    | none => (m, .invalidParameter)
    | some freeAce =>
      let ace := skipAces m aceIndex (acl + 8)
      let m₁ := rtlpDeleteData m ace (aceSize m ace)
        ((freeAce.getD 0 + 2 ^ 32 - ace % 2 ^ 32) % 2 ^ 32)
      (m₁.writeUshort (acl + 4) (aceCount m₁ acl + (2 ^ 16 - 1)), .success)

/-- `VALID_INHERIT_FLAGS`, and `SUCCESSFUL_ACCESS_ACE_FLAG` and
`FAILED_ACCESS_ACE_FLAG` too in the ACEs for auditing. -/
def invalidFlags (audit : Bool) (flags : BitVec 32) : BitVec 32 :=
  if audit then flags &&& ~~~0xDF#32 else flags &&& ~~~0x1F#32

/-- What `RtlpAddKnownAce` and `RtlpAddKnownObjectAce` check before they look
for room: the status they fail with, or the revision and the free ACE. -/
def addKnownChecks (m : Mem) (acl revision : Nat) (flags : BitVec 32) (sid : Mem) (audit : Bool) :
    Except AclStatus (Nat × Option Nat) :=
  if !rtlValidSid sid 0 then .error .invalidSid
  else if aclRevision m acl > 4 ∨ revision > 4 then .error .revisionMismatch
  else if invalidFlags audit flags ≠ 0 then .error .invalidParameter
  else if !rtlValidAcl m acl then .error .invalidAcl
  else
    match rtlFirstFreeAce m acl with
    | none => .error .invalidAcl
    | some ace => .ok (if revision < aclRevision m acl then aclRevision m acl else revision, ace)

/-- The header and the mask of the new ACE. -/
def writeAceHeader (m : Mem) (ace : Nat) (flags : BitVec 32) (type size : Nat) (mask : BitVec 32) : Mem :=
  let m := m.writeUchar (ace + 1) flags.toNat
  let m := m.writeUchar ace type
  let m := m.writeUshort (ace + 2) size
  m.writeUlong (ace + 4) mask.toNat

/-- `RtlCopySid(RtlLengthSid(Sid), Dest, Sid)`. -/
def copySid (m : Mem) (dest : Nat) (sid : Mem) : Mem := m.copy dest sid 0 (rtlLengthSid sid 0)

def finishAdd (m : Mem) (acl revision : Nat) : Mem :=
  let m := m.writeUshort (acl + 4) (aceCount m acl + 1)
  m.writeUchar acl revision

/-- The common body of `RtlpAddKnownAce` and `RtlpAddKnownObjectAce`: `writeAce`
writes the ACE of `size` bytes at the place it is given. -/
def addKnown (m : Mem) (acl revision : Nat) (flags : BitVec 32) (sid : Mem) (audit : Bool) (size : Nat)
    (writeAce : Nat → Mem) : Mem × AclStatus :=
  match addKnownChecks m acl revision flags sid audit with
  | .error status => (m, status)
  | .ok (_, none) => (m, .allottedSpaceExceeded)
  | .ok (revision, some ace) =>
    if ace + size > aclEnd m acl then (m, .allottedSpaceExceeded)
    else (finishAdd (writeAce ace) acl revision, .success)

def rtlpAddKnownAce (m : Mem) (acl revision : Nat) (flags mask : BitVec 32) (sid : Mem) (type : Nat) :
    Mem × AclStatus :=
  let size := rtlLengthSid sid 0 + 8
  addKnown m acl revision flags sid (type == 2) size fun ace =>
    copySid (writeAceHeader m ace flags type size mask) (ace + 8) sid

def guidSize (guid : Option Mem) : Nat := if guid.isSome then 16 else 0

def copyGuid (m : Mem) (dest : Nat) : Option Mem → Mem
  | none => m
  | some guid => m.copy dest guid 0 16

/-- `ACE_OBJECT_TYPE_PRESENT` and `ACE_INHERITED_OBJECT_TYPE_PRESENT`. -/
def aceObjectFlags (objectTypeGuid inheritedObjectTypeGuid : Option Mem) : Nat :=
  (if objectTypeGuid.isSome then 1 else 0) + (if inheritedObjectTypeGuid.isSome then 2 else 0)

def rtlpAddKnownObjectAce (m : Mem) (acl revision : Nat) (flags mask : BitVec 32)
    (objectTypeGuid inheritedObjectTypeGuid : Option Mem) (sid : Mem) (type : Nat) : Mem × AclStatus :=
  let size := rtlLengthSid sid 0 + 8 + 4 + guidSize objectTypeGuid + guidSize inheritedObjectTypeGuid
  addKnown m acl revision flags sid (type == 7 || type == 15) size fun ace =>
    let m := writeAceHeader m ace flags type size mask
    let m := m.writeUlong (ace + 8) (aceObjectFlags objectTypeGuid inheritedObjectTypeGuid)
    let m := copyGuid m (ace + 12) objectTypeGuid
    let sidStart := ace + 12 + guidSize objectTypeGuid
    let m := copyGuid m sidStart inheritedObjectTypeGuid
    copySid m (sidStart + guidSize inheritedObjectTypeGuid) sid

section KnownAces

variable (m : Mem) (acl revision : Nat) (flags mask : BitVec 32)
  (objectTypeGuid inheritedObjectTypeGuid : Option Mem) (sid : Mem) (success failure : Bool)

def rtlAddAccessAllowedAceEx : Mem × AclStatus := rtlpAddKnownAce m acl revision flags mask sid 0

def rtlAddAccessAllowedAce : Mem × AclStatus := rtlpAddKnownAce m acl revision 0 mask sid 0

def rtlAddAccessDeniedAceEx : Mem × AclStatus := rtlpAddKnownAce m acl revision flags mask sid 1

def rtlAddAccessDeniedAce : Mem × AclStatus := rtlpAddKnownAce m acl revision 0 mask sid 1

/-- The flags with `SUCCESSFUL_ACCESS_ACE_FLAG` and `FAILED_ACCESS_ACE_FLAG` as asked for. -/
def auditFlags : BitVec 32 :=
  flags ||| (if success then 0x40 else 0) ||| (if failure then 0x80 else 0)

def rtlAddAuditAccessAceEx : Mem × AclStatus :=
  rtlpAddKnownAce m acl revision (auditFlags flags success failure) mask sid 2

def rtlAddAuditAccessAce : Mem × AclStatus :=
  rtlpAddKnownAce m acl revision (auditFlags 0 success failure) mask sid 2

/-- The common body of the three routines for object ACEs: without object data
they add the plain ACE. -/
def addObjectAce (plain object : Nat) : Mem × AclStatus :=
  if objectTypeGuid.isNone && inheritedObjectTypeGuid.isNone then
    rtlpAddKnownAce m acl revision flags mask sid plain
  else
    rtlpAddKnownObjectAce m acl revision flags mask objectTypeGuid inheritedObjectTypeGuid sid object

def rtlAddAccessAllowedObjectAce : Mem × AclStatus :=
  addObjectAce m acl revision flags mask objectTypeGuid inheritedObjectTypeGuid sid 0 5

def rtlAddAccessDeniedObjectAce : Mem × AclStatus :=
  addObjectAce m acl revision flags mask objectTypeGuid inheritedObjectTypeGuid sid 1 6

def rtlAddAuditAccessObjectAce : Mem × AclStatus :=
  addObjectAce m acl revision (auditFlags flags success failure) mask objectTypeGuid
    inheritedObjectTypeGuid sid 2 7

end KnownAces

end FreeNT.Rtl
