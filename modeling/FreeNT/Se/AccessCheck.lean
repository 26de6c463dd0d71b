import Mathlib.Tactic.Common
import Mathlib.Data.List.Basic

/-!
# Access checks (`ntoskrnl/se/accesschk.c`, `access.c`, `priv.c`, `lib/rtl/access.c`)

An access check takes a token, a security descriptor and a mask of desired rights to a mask
of granted rights and a status. The rights of a mask are its bits.

`SeAccessCheck` checks for the token of a subject context, `NtAccessCheck` for the token of
a handle; both leave the list of entries to `SepAccessCheck`. A failed assertion gives
`none`. Pointers of the caller are valid, locks are not modelled, and the list of object
types is the empty one that both routines pass.
-/

namespace FreeNT.Se

abbrev AccessMask := BitVec 32

def readControl : AccessMask := 0x00020000
def writeDac : AccessMask := 0x00040000
def writeOwner : AccessMask := 0x00080000
def accessSystemSecurity : AccessMask := 0x01000000
def maximumAllowed : AccessMask := 0x02000000
def genericAll : AccessMask := 0x10000000
def genericExecute : AccessMask := 0x20000000
def genericWrite : AccessMask := 0x40000000
def genericRead : AccessMask := 0x80000000

structure GenericMapping where
  GenericRead : AccessMask
  GenericWrite : AccessMask
  GenericExecute : AccessMask
  GenericAll : AccessMask
  deriving DecidableEq, Repr

/-- `if (*AccessMask & Flag) *AccessMask |= Rights`. -/
def mapFlag (flag rights mask : AccessMask) : AccessMask := if mask &&& flag ≠ 0 then mask ||| rights else mask

def rtlMapGenericMask (mask : AccessMask) (mapping : GenericMapping) : AccessMask :=
  let mask := mapFlag genericRead mapping.GenericRead mask
  let mask := mapFlag genericWrite mapping.GenericWrite mask
  let mask := mapFlag genericExecute mapping.GenericExecute mask
  let mask := mapFlag genericAll mapping.GenericAll mask
  mask &&& ~~~(genericRead ||| genericWrite ||| genericExecute ||| genericAll)

/-! ## Tokens and descriptors -/

/-- A `SID`; the number of sub-authorities is the length of the list. -/
structure Sid where
  Revision : Nat
  IdentifierAuthority : Nat
  SubAuthority : List Nat
  deriving DecidableEq, Repr

structure SidAndAttributes where
  Sid : Sid
  Attributes : BitVec 32
  deriving DecidableEq, Repr

def seGroupEnabled : BitVec 32 := 0x00000004
def seGroupUseForDenyOnly : BitVec 32 := 0x00000010

structure LuidAndAttributes where
  Luid : Nat
  Attributes : BitVec 32
  deriving DecidableEq, Repr

def sePrivilegeEnabled : BitVec 32 := 0x00000002
def seSecurityPrivilege : Nat := 8
def seTakeOwnershipPrivilege : Nat := 9

inductive TokenType where
  | primary
  | impersonation
  deriving DecidableEq, Repr

/-- `SECURITY_IMPERSONATION_LEVEL`, by number. -/
abbrev ImpersonationLevel := Nat

def securityIdentification : ImpersonationLevel := 1
def securityImpersonation : ImpersonationLevel := 2

structure Token where
  UserAndGroups : List SidAndAttributes
  Privileges : List LuidAndAttributes
  TokenType : TokenType
  ImpersonationLevel : ImpersonationLevel
  /-- `TOKEN_IS_RESTRICTED` of `TokenFlags`. -/
  Restricted : Bool
  deriving DecidableEq, Repr

inductive AceType where
  | accessAllowed
  | accessDenied
  /-- A type that the check does not support. -/
  | other
  deriving DecidableEq, Repr

structure Ace where
  AceType : AceType
  /-- `INHERIT_ONLY_ACE` of `AceFlags`. -/
  InheritOnly : Bool
  AccessMask : AccessMask
  Sid : Sid
  deriving DecidableEq, Repr

structure SecurityDescriptor where
  Revision : Nat
  /-- `SE_SELF_RELATIVE` and `SE_DACL_PRESENT` of `Control`. -/
  SelfRelative : Bool
  DaclPresent : Bool
  Owner : Option Sid
  Group : Option Sid
  Dacl : Option (List Ace)
  deriving DecidableEq, Repr

def securityDescriptorRevision : Nat := 1

structure SubjectContext where
  ClientToken : Option Token
  ImpersonationLevel : ImpersonationLevel
  PrimaryToken : Token
  deriving DecidableEq, Repr

/-- The token that a check uses. -/
def SubjectContext.token (ctx : SubjectContext) : Token := ctx.ClientToken.getD ctx.PrimaryToken

inductive NtStatus where
  | success
  | accessDenied
  | privilegeNotHeld
  | badImpersonationLevel
  | unknownRevision
  | genericNotMapped
  | noImpersonationToken
  | insufficientResources
  | bufferTooSmall
  | invalidSecurityDescr
  /-- A failure of a routine outside of the model, by number. -/
  | other (status : Nat)
  deriving DecidableEq, Repr

/-! ## Owners and privileges -/

/-- The loop of `SepSidInTokenEx` over the identifiers; `first` at the user. -/
def sidInList (sid : Sid) (deny : Bool) : Bool → List SidAndAttributes → Bool
  | _, [] => false
  | first, s :: rest =>
    if s.Sid.Revision = sid.Revision ∧ s.Sid.SubAuthority.length = sid.SubAuthority.length ∧ sid = s.Sid then
      (first && s.Attributes &&& seGroupUseForDenyOnly == 0) || s.Attributes &&& seGroupEnabled != 0 ||
        (deny && s.Attributes &&& seGroupUseForDenyOnly != 0)
    else sidInList sid deny false rest

/-- `SepSidInTokenEx`, which asserts that the identifiers are not the restricted ones. -/
def sepSidInTokenEx (token : Token) (sid : Sid) (deny restricted : Bool) : Option Bool :=
  if restricted then none else some (sidInList sid deny true token.UserAndGroups)

def sepSidInToken (token : Token) (sid : Sid) : Bool := sidInList sid false true token.UserAndGroups

/-- `SepTokenIsOwner`, which asserts that there is an owner. -/
def sepTokenIsOwner (token : Token) (sd : SecurityDescriptor) : Option Bool := do
  let owner ← sd.Owner
  if sepSidInToken token owner && token.Restricted then sepSidInTokenEx token owner false true
  else return sepSidInToken token owner

/-- `SepSinglePrivilegeCheck`, for a caller in user mode. -/
def sepSinglePrivilegeCheck (luid : Nat) (token : Token) : Bool :=
  match token.Privileges.find? (·.Luid == luid) with
  | some p => p.Attributes &&& sePrivilegeEnabled != 0
  | none => false

/-- `SePrivilegePolicyCheck`, for a caller in user mode, up to the privilege set: the rights that
privileges give. -/
def sePrivilegePolicyCheck (desired : AccessMask) (token : Token) : Option AccessMask :=
  if desired &&& accessSystemSecurity ≠ 0 ∧ ¬ sepSinglePrivilegeCheck seSecurityPrivilege token then none
  else
    let mask := if desired &&& accessSystemSecurity ≠ 0 then accessSystemSecurity else 0
    some (if desired &&& writeOwner ≠ 0 ∧
      sepSinglePrivilegeCheck seTakeOwnershipPrivilege token then mask ||| writeOwner
      else mask)

/-! ## The check -/

/-- One turn of the loop for `MAXIMUM_ALLOWED`: the rights granted and denied so far. -/
def maximumAce (token : Token) (mapping : GenericMapping) (acc : AccessMask × AccessMask) (ace : Ace) :
    AccessMask × AccessMask :=
  if ace.InheritOnly then acc
  else
    match ace.AceType with
    | .accessDenied =>
      if sepSidInToken token ace.Sid then (acc.1, acc.2 ||| (rtlMapGenericMask ace.AccessMask mapping &&& ~~~acc.1)) else acc
    | .accessAllowed =>
      if sepSidInToken token ace.Sid then (acc.1 ||| (rtlMapGenericMask ace.AccessMask mapping &&& ~~~acc.2), acc.2) else acc
    | .other => acc

/-- The loop over the entries: the rights that remain, up to an entry that denies one of them. -/
def remainingAccess (token : Token) (mapping : GenericMapping) : List Ace → AccessMask → AccessMask
  | [], remaining => remaining
  | ace :: aces, remaining =>
    if ace.InheritOnly then remainingAccess token mapping aces remaining
    else
      match ace.AceType with
      | .accessDenied =>
        if sepSidInToken token ace.Sid && (remaining &&& rtlMapGenericMask ace.AccessMask mapping) != 0 then remaining
        else remainingAccess token mapping aces remaining
      | .accessAllowed =>
        if sepSidInToken token ace.Sid then
          remainingAccess token mapping aces (remaining &&& ~~~rtlMapGenericMask ace.AccessMask mapping)
        else remainingAccess token mapping aces remaining
      | .other => remainingAccess token mapping aces remaining

/-- `SepAccessCheck`: the rights granted, and the status. -/
def sepAccessCheck (sd : SecurityDescriptor) (ctx : SubjectContext) (desired previous : AccessMask)
    (mapping : GenericMapping) : AccessMask × NtStatus :=
  if desired = 0 then
    if previous = 0 then (previous, .accessDenied) else (previous, .success)
  else
    let desired := rtlMapGenericMask desired mapping
    let previous := if previous ≠ 0 then rtlMapGenericMask previous mapping else previous
    match sePrivilegePolicyCheck desired ctx.token with
    | none => (previous, .privilegeNotHeld)
    | some mask =>
      let remaining := desired &&& ~~~mask
      let previous := previous ||| mask
      if remaining = 0 then (previous, .success)
      else if sd.Revision ≠ securityDescriptorRevision then (previous, .unknownRevision)
      else
        match if sd.DaclPresent then sd.Dacl else none with
        | none =>
          if remaining &&& maximumAllowed ≠ 0 then
            (((previous ||| remaining) &&& ~~~maximumAllowed) ||| mapping.GenericAll, .success)
          else (previous ||| remaining, .success)
        | some [] =>
          if remaining = maximumAllowed ∧ previous ≠ 0 then (previous, .success) else (0, .accessDenied)
        | some aces =>
          if desired &&& maximumAllowed ≠ 0 then
            let granted := (aces.foldl (maximumAce ctx.token mapping) (0, 0)).1
            if remaining &&& ~~~(maximumAllowed ||| granted) ≠ 0 then (0, .accessDenied)
            else if previous ||| granted ≠ 0 then (previous ||| granted, .success)
            else (previous ||| granted, .accessDenied)
          else
            -- the loop is run, but rights that remain after it are only reported
            let _remaining := remainingAccess ctx.token mapping aces remaining
            let previous := previous ||| desired
            if previous = 0 then (previous, .accessDenied) else (previous, .success)

/-- The rights of an owner, taken from the desired ones: what is left of these, and the rights granted. -/
def ownerRights (token : Token) (sd : SecurityDescriptor) (desired previous : AccessMask) :
    Option (AccessMask × AccessMask) :=
  if desired &&& (writeDac ||| readControl ||| maximumAllowed) = 0 then some (desired, previous)
  else do
    if ← sepTokenIsOwner token sd then
      let previous := if desired &&& maximumAllowed ≠ 0 then previous ||| (writeDac ||| readControl)
        else previous ||| (desired &&& (writeDac ||| readControl))
      return (desired &&& ~~~(writeDac ||| readControl), previous)
    else return (desired, previous)

/-- What a check writes: `GrantedAccess`, if it is written, and `AccessStatus`. -/
structure AccessResult where
  Granted : Option AccessMask
  Status : NtStatus
  deriving DecidableEq, Repr

/-- `SeAccessCheck`: the result, and what it writes. -/
def seAccessCheck (sd : Option SecurityDescriptor) (ctx : SubjectContext) (desired previous : AccessMask)
    (mapping : GenericMapping) (userMode : Bool) : Option (Bool × AccessResult) :=
  if !userMode then
    let granted := if desired &&& maximumAllowed ≠ 0 then
        mapping.GenericAll ||| (desired &&& ~~~maximumAllowed) ||| previous
      else desired ||| previous
    some (true, ⟨some granted, .success⟩)
  else
    match sd with
    | none => some (false, ⟨none, .accessDenied⟩)
    | some sd =>
      if ctx.ClientToken.isSome ∧ ctx.ImpersonationLevel < securityImpersonation then
        some (false, ⟨none, .badImpersonationLevel⟩)
      else do
        let (desired, previous) ← ownerRights ctx.token sd desired previous
        if desired = 0 then
          if previous = 0 then return (false, ⟨some previous, .accessDenied⟩)
          else return (true, ⟨some previous, .success⟩)
        else
          let (granted, status) := sepAccessCheck sd ctx desired previous mapping
          return (status == .success, ⟨some granted, status⟩)

/-! ## The system service -/

/-- What `NtAccessCheck` is given, and what the routines it calls before the check return. -/
structure AccessRequest where
  UserMode : Bool
  SecurityDescriptor : Option SecurityDescriptor
  /-- `ObReferenceObjectByHandle` for `TokenHandle`. -/
  Token : Except NtStatus Token
  DesiredAccess : AccessMask
  GenericMapping : GenericMapping
  PrivilegeSetLength : Nat
  /-- An exception when the parameters are probed, and when the descriptor is. -/
  Probe : Option NtStatus
  DescriptorProbe : Option NtStatus
  /-- The privilege set is allocated. -/
  Allocated : Bool
  /-- `SeCaptureSecurityDescriptor` fails after it has checked the revision. -/
  Capture : Option NtStatus

/-- What `NtAccessCheck` returns and writes: `GrantedAccess` and `AccessStatus`, the length of the
privilege set, and the privileges in it. -/
structure NtAccessResult where
  Status : NtStatus
  Access : Option (AccessMask × NtStatus)
  PrivilegeSetLength : Option Nat
  PrivilegeSet : Option (List Nat)
  deriving DecidableEq, Repr

/-- A return without an answer. -/
def NtAccessResult.failed (status : NtStatus) (privileges : Option (List Nat)) : NtAccessResult :=
  ⟨status, none, none, privileges⟩

/-- The privileges that `SePrivilegePolicyCheck` reports for the rights they give. -/
def privilegesUsed (mask : AccessMask) : List Nat :=
  (if mask &&& writeOwner ≠ 0 then [seTakeOwnershipPrivilege] else []) ++
    if mask &&& accessSystemSecurity ≠ 0 then [seSecurityPrivilege] else []

def sizeofPrivilegeSet : Nat := 20
def sizeofLuidAndAttributes : Nat := 12

def sepGetPrivilegeSetLength (count : Nat) : Nat :=
  if count = 0 then sizeofPrivilegeSet - sizeofLuidAndAttributes
  else sizeofPrivilegeSet + (count - 1) * sizeofLuidAndAttributes

/-- The length that `NtAccessCheck` requires of the privilege set. -/
def requiredPrivilegeSetLength (privileges : List Nat) : Nat :=
  if privileges = [] then sizeofPrivilegeSet else sepGetPrivilegeSetLength privileges.length

/-- The descriptor, the rights to check and those granted already, and the privileges reported,
when the subject context of the calling thread is captured. -/
structure Prepared where
  SecurityDescriptor : SecurityDescriptor
  DesiredAccess : AccessMask
  PreviouslyGrantedAccess : AccessMask
  PrivilegeSet : List Nat

/-- `NtAccessCheck` on the descriptor, for the given token. -/
def ntCheckDescriptor (r : AccessRequest) (token : Token) (desired previous : AccessMask) (privileges : List Nat) :
    Except (Option NtAccessResult) Prepared :=
  match r.SecurityDescriptor with
  | none => .error (some (.failed .invalidSecurityDescr (some privileges)))
  | some sd =>
    match r.DescriptorProbe with
    | some status => .error (some (.failed status (some privileges)))
    | none =>
      if sd.Revision ≠ securityDescriptorRevision then .error (some (.failed .unknownRevision (some privileges)))
      else
        match r.Capture with
        | some status => .error (some (.failed status (some privileges)))
        | none =>
          -- the offsets of a self-relative descriptor are added to its address, and so are not `NULL`
          if sd.SelfRelative = false ∧ (sd.Owner = none ∨ sd.Group = none) then
            .error (some (.failed .invalidSecurityDescr (some privileges)))
          else
            match ownerRights token sd desired previous with
            | none => .error none
            | some (desired, previous) => .ok ⟨sd, desired, previous, privileges⟩

/-- `NtAccessCheck` in user mode, up to the check: it fails or asserts, or goes on. -/
def ntPrepare (r : AccessRequest) : Except (Option NtAccessResult) Prepared :=
  match r.Probe with
  | some status => .error (some (.failed status none))
  | none =>
    if r.DesiredAccess &&& (genericRead ||| genericWrite ||| genericExecute ||| genericAll) ≠ 0 then
      .error (some (.failed .genericNotMapped none))
    else
      match r.Token with
      | .error status => .error (some (.failed status none))
      | .ok token =>
        if token.TokenType ≠ .impersonation then .error (some (.failed .noImpersonationToken none))
        else if token.ImpersonationLevel < securityIdentification then .error (some (.failed .badImpersonationLevel none))
        else
          match sePrivilegePolicyCheck r.DesiredAccess token with
          | none => .error (some ⟨.success, some (0, .privilegeNotHeld), none, none⟩)
          | some mask =>
            let privileges := privilegesUsed mask
            if privileges ≠ [] ∧ r.Allocated = false then
              .error (some ⟨.success, some (0, .insufficientResources), none, none⟩)
            else
              let required := requiredPrivilegeSetLength privileges
              if r.PrivilegeSetLength < required then .error (some ⟨.bufferTooSmall, none, some required, none⟩)
              else ntCheckDescriptor r token (r.DesiredAccess &&& ~~~mask) mask privileges

/-- `NtAccessCheck`, called by a thread with the given subject context. -/
def ntAccessCheck (r : AccessRequest) (ctx : SubjectContext) : Option NtAccessResult :=
  if !r.UserMode then
    let granted := if r.DesiredAccess &&& maximumAllowed ≠ 0 then
        r.GenericMapping.GenericAll ||| (r.DesiredAccess &&& ~~~maximumAllowed)
      else r.DesiredAccess
    some ⟨.success, some (granted, .success), none, none⟩
  else
    match ntPrepare r with
    | .error res => res
    | .ok p =>
      let access := if p.DesiredAccess = 0 then (p.PreviouslyGrantedAccess, .success)
        else sepAccessCheck p.SecurityDescriptor ctx p.DesiredAccess p.PreviouslyGrantedAccess r.GenericMapping
      some ⟨.success, some access, none, some p.PrivilegeSet⟩

end FreeNT.Se
