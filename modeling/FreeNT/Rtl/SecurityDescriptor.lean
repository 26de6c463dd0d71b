import FreeNT.Rtl.AclWalk

/-!
# Security descriptors

`sdk/lib/rtl/sd.c` and the accessors of `ntoskrnl/include/internal/se.h`, on i386. A
descriptor is 20 bytes: the revision, a byte of padding, the control flags and four words for
the owner, the group, the SACL and the DACL. In an absolute descriptor these are
pointers, in a self-relative one offsets from its start; 0 is NULL. The two SIDs and the two
ACLs are treated alike (`SdPart`), each routine with its own order of them.
-/

namespace FreeNT.Rtl

open Mem

inductive SdPart
  | owner | group | sacl | dacl
  deriving DecidableEq, Repr

def securityDescriptorRevision : Nat := 1

def seDaclPresent : BitVec 16 := 0x0004
def seSaclPresent : BitVec 16 := 0x0010
def seSelfRelative : BitVec 16 := 0x8000

def ownerSecurityInformation : BitVec 32 := 0x1
def groupSecurityInformation : BitVec 32 := 0x2

def flagSet (control flag : BitVec 16) : Bool := control &&& flag != 0

namespace SdPart

/-- The place of the word in the descriptor. -/
def field : SdPart → Nat
  | owner => 4
  | group => 8
  | sacl => 12
  | dacl => 16

/-- An ACL counts only if its flag is set. -/
def present (control : BitVec 16) : SdPart → Bool
  | owner | group => true
  | sacl => flagSet control seSaclPresent
  | dacl => flagSet control seDaclPresent

/-- `sizeof(SID)` and `sizeof(ACL)`. -/
def minLength : SdPart → Nat
  | owner | group => 12
  | sacl | dacl => 8

/-- `RtlLengthSid` or `AclSize`. -/
def length (m : Mem) (p : Nat) : SdPart → Nat
  | owner | group => rtlLengthSid m p
  | sacl | dacl => aclSize m p

def valid (m : Mem) (p : Nat) : SdPart → Bool
  | owner | group => rtlValidSid m p
  | sacl | dacl => rtlValidAcl m p

end SdPart

section Routines

variable (m : Mem)

def sdRevision (sd : Nat) : Nat := (m sd).toNat

def sdControl (sd : Nat) : BitVec 16 := BitVec.ofNat 16 (m.readUshort (sd + 2))

/-- `SepGetOwnerFromDescriptor` and the three others. -/
def sepGetFromDescriptor (sd : Nat) (f : SdPart) : Nat :=
  if !f.present (sdControl m sd) then 0
  else if flagSet (sdControl m sd) seSelfRelative then
    if m.readUlong (sd + f.field) = 0 then 0 else (sd + m.readUlong (sd + f.field)) % 2 ^ 32
  else m.readUlong (sd + f.field)

/-- The size of a part in `RtlpQuerySecurityDescriptor`, rounded up to words. -/
def sdPartSize (sd : Nat) (f : SdPart) : Nat :=
  let p := sepGetFromDescriptor m sd f
  if p = 0 then 0 else (f.length m p + 3) / 4 * 4

def rtlValidSecurityDescriptor (sd : Nat) : Bool :=
  let ok (f : SdPart) :=
    sepGetFromDescriptor m sd f == 0 || f.valid m (sepGetFromDescriptor m sd f)
  sdRevision m sd = securityDescriptorRevision && ok .owner && ok .group && ok .dacl && ok .sacl

/-- The length that is safe to read. -/
def rtlpValidateSDOffsetAndSize (offset length minLength : Nat) : Option Nat :=
  if offset < 20 then none
  else if length ≤ offset then none
  else if length - offset < minLength then none
  else if offset / 4 * 4 ≠ offset then none
  else some (length - offset)

/-- A part of a self-relative descriptor lies in it and is valid. -/
def validRelativePart (sd length : Nat) (f : SdPart) : Bool :=
  match rtlpValidateSDOffsetAndSize (m.readUlong (sd + f.field)) length f.minLength with
  | none => false
  | some maxLength =>
    let p := (sd + m.readUlong (sd + f.field)) % 2 ^ 32
    f.valid m p && decide (f.length m p ≤ maxLength)

/-- A SID is looked at if its offset is not 0, an ACL if its flag is set. -/
def rtlValidRelativeSecurityDescriptor (sd length : Nat) (requiredInformation : BitVec 32) : Bool :=
  let sid (f : SdPart) (flag : BitVec 32) :=
    if m.readUlong (sd + f.field) ≠ 0 then validRelativePart m sd length f
    else requiredInformation &&& flag == 0
  let acl (f : SdPart) :=
    if f.present (sdControl m sd) then validRelativePart m sd length f else true
  if length < 20 ∨ sdRevision m sd ≠ securityDescriptorRevision ∨ !flagSet (sdControl m sd) seSelfRelative then false
  else sid .owner ownerSecurityInformation && sid .group groupSecurityInformation &&
    acl .dacl && acl .sacl

end Routines

inductive SdStatus
  | success | bufferTooSmall | badDescriptorFormat
  deriving DecidableEq, Repr

/-- `TotalLength` of `RtlMakeSelfRelativeSD`. -/
def selfRelativeLength (m : Mem) (sd : Nat) : Nat :=
  20 + sdPartSize m sd .owner + sdPartSize m sd .group + sdPartSize m sd .sacl +
    sdPartSize m sd .dacl

/-- A part goes to `current`, and its offset into the descriptor. -/
def copyPart (rel p size : Nat) (f : SdPart) (s : Mem × Nat) : Mem × Nat :=
  if size = 0 then s
  else ((s.1.copy s.2 s.1 p size).writeUlong (rel + f.field) (s.2 - rel), s.2 + size)

/-- The result has the length that is needed, or the length that was given. -/
def rtlMakeSelfRelativeSD (m : Mem) (sd rel bufferLength : Nat) : Mem × SdStatus × Nat :=
  let put (f : SdPart) := copyPart rel (sepGetFromDescriptor m sd f) (sdPartSize m sd f) f
  if bufferLength < selfRelativeLength m sd then (m, .bufferTooSmall, selfRelativeLength m sd)
  else
    let m₁ := m.fill rel (selfRelativeLength m sd) 0
    let m₂ := m₁.copy rel m₁ sd 4
    let m₃ := (put .group (put .owner (put .dacl (put .sacl (m₂, rel + 20))))).1
    (m₃.writeUshort (rel + 2) (sdControl m₃ rel ||| seSelfRelative).toNat, .success, bufferLength)

/-- The buffers for an absolute descriptor and for its parts, or their sizes. -/
structure SdBuffers where
  sd : Nat
  part : SdPart → Nat

def wipePart (sd : Nat) (f : SdPart) (m : Mem) : Mem := m.writeUlong (sd + f.field) 0

/-- A part goes to its buffer, and the buffer into the descriptor. -/
def movePart (sd p buffer : Nat) (f : SdPart) (m : Mem) : Mem :=
  if p = 0 then m else (m.copy buffer m p (f.length m p)).writeUlong (sd + f.field) buffer

def rtlSelfRelativeToAbsoluteSD (m : Mem) (rel : Nat) (buffers sizes : SdBuffers) :
    Mem × SdStatus × SdBuffers :=
  let tooSmall (f : SdPart) := decide (sizes.part f < sdPartSize m rel f)
  let move (f : SdPart) := movePart buffers.sd (sepGetFromDescriptor m rel f) (buffers.part f) f
  if !flagSet (sdControl m rel) seSelfRelative then (m, .badDescriptorFormat, sizes)
  else if buffers.sd == 0 || decide (sizes.sd < 20) || tooSmall .owner || tooSmall .group ||
      tooSmall .dacl || tooSmall .sacl then
    (m, .bufferTooSmall, ⟨20, sdPartSize m rel⟩)
  else
    let m₁ := m.copy buffers.sd m rel 20
    let m₂ := wipePart buffers.sd .dacl (wipePart buffers.sd .sacl
      (wipePart buffers.sd .group (wipePart buffers.sd .owner m₁)))
    let m₃ := m₂.writeUshort (buffers.sd + 2) (sdControl m₂ buffers.sd &&& ~~~seSelfRelative).toNat
    (move .sacl (move .dacl (move .group (move .owner m₃))), .success, sizes)

end FreeNT.Rtl
