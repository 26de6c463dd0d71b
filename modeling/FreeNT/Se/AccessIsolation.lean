import FreeNT.Se.AccessRights

/-!
# Answers about a given token

`NtAccessCheck` is given a token, and tests privileges and the owner for it. But the list of
entries is checked for the subject context of the calling thread. `ntAccessCheck_isolated_iff`
says for which requests the answer nevertheless is the same for all callers: those that are
answered before the list is reached, or for which it does not matter whom it is checked for
(`Settled`).
-/

namespace FreeNT.Se

open BitVec hiding not_or or_assoc

open Option hiding or_assoc

variable {token : Token} {sd : SecurityDescriptor} {m : GenericMapping} {a : List Ace} {r : AccessRequest}
  {d ps : AccessMask} {b : Nat}

/-! ## Requests that reach the check -/

/-- The token has the owner of the descriptor. -/
def Owns (token : Token) (sd : SecurityDescriptor) : Prop :=
    ∃ sid, sd.Owner = some sid ∧ sepSidInToken token sid = true

/-- The privilege to take ownership gives the right. -/
def TakesOwnership (token : Token) (b : Nat) : Prop :=
  writeOwner.getLsbD b = true ∧ sepSinglePrivilegeCheck seTakeOwnershipPrivilege token = true

/-- A desired right that neither a privilege nor the owner gives. -/
def Left (token : Token) (sd : SecurityDescriptor) (desired : AccessMask) (b : Nat) : Prop :=
  desired.getLsbD b = true ∧ accessSystemSecurity.getLsbD b = false ∧ ¬ TakesOwnership token b ∧
    ¬ (Owns token sd ∧ (readControl ||| writeDac).getLsbD b = true)

/-- A right that a privilege or the owner gives. -/
def Held (token : Token) (sd : SecurityDescriptor) (desired : AccessMask) (b : Nat) : Prop :=
  desired.getLsbD b = true ∧ (accessSystemSecurity.getLsbD b = true ∨ TakesOwnership token b) ∨
    Owns token sd ∧ (readControl ||| writeDac).getLsbD b = true ∧
      (desired.getLsbD b = true ∨ desired.getLsbD maximumBit = true)

/-- The request, in user mode, is not answered before the rights of the descriptor are checked. -/
structure Reaches (r : AccessRequest) (token : Token) (sd : SecurityDescriptor) : Prop where
  userMode : r.UserMode = true
  probe : r.Probe = none
  specific : r.DesiredAccess &&& genericFlags = 0
  handle : r.Token = .ok token
  type : token.TokenType = .impersonation
  level : securityIdentification ≤ token.ImpersonationLevel
  security : r.DesiredAccess &&& accessSystemSecurity ≠ 0 → sepSinglePrivilegeCheck seSecurityPrivilege token = true
  allocated : (∃ b, r.DesiredAccess.getLsbD b = true ∧
    (accessSystemSecurity.getLsbD b = true ∨ TakesOwnership token b)) →
    r.Allocated = true
  length : sizeofPrivilegeSet ≤ r.PrivilegeSetLength
  lengthBoth : r.DesiredAccess &&& accessSystemSecurity ≠ 0 →
    (∃ b, r.DesiredAccess.getLsbD b = true ∧ TakesOwnership token b) →
    sizeofPrivilegeSet + sizeofLuidAndAttributes ≤ r.PrivilegeSetLength
  descriptor : r.SecurityDescriptor = some sd
  descriptorProbe : r.DescriptorProbe = none
  revision : sd.Revision = securityDescriptorRevision
  capture : r.Capture = none
  owner : sd.SelfRelative = false → sd.Owner.isSome = true ∧ sd.Group.isSome = true
  asserts : r.DesiredAccess &&& (writeDac ||| readControl ||| maximumAllowed) ≠ 0 →
    sd.Owner.isSome = true ∧ ¬ (Owns token sd ∧ token.Restricted = true)

lemma ownerRights_bits (hn : d &&& (writeDac ||| readControl ||| maximumAllowed) ≠ 0 →
      sd.Owner.isSome ∧ ¬ (Owns token sd ∧ token.Restricted)) :
    ∃ d' ps', ownerRights token sd d ps = some (d', ps') ∧ (∀ b, d'.getLsbD b ↔
        d.getLsbD b ∧ ¬ (Owns token sd ∧ (readControl ||| writeDac).getLsbD b = true)) ∧
      ∀ b, ps'.getLsbD b ↔ ps.getLsbD b ∨ Owns token sd ∧
        (readControl ||| writeDac).getLsbD b = true ∧ (d.getLsbD b ∨ d.getLsbD maximumBit) := by
  have hlt (b : Nat) : d.getLsbD b → b < 32 := lt_of_getLsbD
  have hmx := @and_bit_ne_zero d _ _ fun b => bit_maximumAllowed
  rw [ownerRights]
  split
  · rename_i hz
    have hb (b : Nat) := mask_eq_zero.mp hz b
    refine ⟨_, _, rfl, fun b => ?_, fun b => ?_⟩ <;> have := hb b <;> rw [getLsbD_or] <;> grind
  rename_i hne
  obtain ⟨hs, hr⟩ := hn hne
  obtain ⟨s, hsd⟩ := isSome_iff_exists.mp hs
  have ho : Owns token sd ↔ sepSidInToken token s := by
    rw [Owns, hsd]
    simp
  have hc : sepTokenIsOwner token sd = some (sepSidInToken token s) := by
    rw [sepTokenIsOwner, hsd, bind_eq_bind, bind_some, if_neg]
    · rfl
    · rwa [Bool.and_eq_true, ← ho]
  rw [hc, bind_eq_bind, bind_some]
  cases hin : sepSidInToken token s with
  | false => refine ⟨_, _, rfl, fun b => ?_, fun b => ?_⟩ <;> simp [ho, hin]
  | true =>
    refine ⟨_, _, rfl, fun b => ?_, fun b => ?_⟩
    · have := hlt b
      grind
    · simp only [ho, hmx]
      split <;> simp only [getLsbD_or, getLsbD_and] <;> grind

lemma ownerRights_some (h : ownerRights token sd d ps ≠ none)
    (hds : d &&& (writeDac ||| readControl ||| maximumAllowed) ≠ 0) :
    sd.Owner.isSome ∧ ¬ (Owns token sd ∧ token.Restricted) := by
  rw [ownerRights, if_neg hds] at h
  rcases sepTokenIsOwner_cases token sd with ⟨hc, -⟩ | hc
  · rw [hc] at h
    exact absurd rfl h
  rw [sepTokenIsOwner] at hc
  cases hs : sd.Owner with
  | none => simp [hs] at hc
  | some s =>
    refine ⟨rfl, ?_⟩
    rintro ⟨⟨s', hs', hin⟩, hr⟩
    rw [hs] at hs' hc
    cases hs'
    rw [bind_eq_bind, bind_some, hin, hr] at hc
    cases hc

lemma policy_bits {ms : AccessMask} (h : sePrivilegePolicyCheck d token = some ms) :
    (d &&& accessSystemSecurity ≠ 0 → sepSinglePrivilegeCheck seSecurityPrivilege token = true) ∧
      ∀ b, ms.getLsbD b ↔ d.getLsbD b ∧ (accessSystemSecurity.getLsbD b ∨ TakesOwnership token b) := by
  have hh : ¬ (d &&& accessSystemSecurity ≠ 0 ∧
    sepSinglePrivilegeCheck seSecurityPrivilege token = false) := fun hp => by
      rw [sePrivilegePolicyCheck, if_pos ⟨hp.1, by simp [hp.2]⟩] at h
      cases h
  obtain ⟨g, hg, hb⟩ := privilegePolicy_spec hh
  rw [hg] at h
  cases h
  refine ⟨fun hd => ?_, hb⟩
  have := not_and.mp hh hd
  simpa using this

section
variable {ms : AccessMask} (hms : ∀ b, ms.getLsbD b = true ↔
  d.getLsbD b = true ∧ (accessSystemSecurity.getLsbD b = true ∨ TakesOwnership token b))
include hms

lemma mask_system : ms &&& accessSystemSecurity ≠ 0 ↔ d &&& accessSystemSecurity ≠ 0 := by
  have hf (b : Nat) : accessSystemSecurity.getLsbD b ↔ b = 24 := bit_systemSecurity
  rw [and_bit_ne_zero hf, and_bit_ne_zero hf, hms, hf]
  simp

lemma mask_owner : ms &&& writeOwner ≠ 0 ↔ ∃ b, d.getLsbD b = true ∧ TakesOwnership token b := by
  have hf (b : Nat) : writeOwner.getLsbD b ↔ b = 19 := bit_writeOwner
  rw [and_bit_ne_zero hf, hms]
  constructor
  · rintro ⟨hd, hsy | ht⟩
    · cases hsy
    · exact ⟨19, hd, ht⟩
  rintro ⟨b, hd, ht⟩
  obtain rfl := (hf b).mp ht.1
  exact ⟨hd, .inr ht⟩

lemma privilegesUsed_ne_nil : privilegesUsed ms ≠ [] ↔
    ∃ b, d.getLsbD b ∧ (accessSystemSecurity.getLsbD b ∨ TakesOwnership token b) := by
  have hor : (∃ b, d.getLsbD b ∧ (accessSystemSecurity.getLsbD b ∨ TakesOwnership token b)) ↔
      ms &&& writeOwner ≠ 0 ∨ ms &&& accessSystemSecurity ≠ 0 := by
    rw [mask_owner hms, mask_system hms, and_bit_ne_zero fun b => bit_systemSecurity]
    simp only [bit_systemSecurity]
    grind
  rw [hor, privilegesUsed]
  split_ifs <;> simp_all

lemma required_le {length : Nat} : ¬ length < requiredPrivilegeSetLength (privilegesUsed ms) ↔
    sizeofPrivilegeSet ≤ length ∧ (d &&& accessSystemSecurity ≠ 0 →
      (∃ b, d.getLsbD b ∧ TakesOwnership token b) → sizeofPrivilegeSet + sizeofLuidAndAttributes ≤ length) := by
  rw [← mask_system hms, ← mask_owner hms, requiredPrivilegeSetLength, privilegesUsed]
  split_ifs <;> simp_all [sepGetPrivilegeSetLength, sizeofPrivilegeSet, sizeofLuidAndAttributes]
  omega

lemma mask_rest : (d &&& ~~~ms) &&& (writeDac ||| readControl ||| maximumAllowed) =
    d &&& (writeDac ||| readControl ||| maximumAllowed) := by
  refine mask_ext fun b => ?_
  have hb := hms b
  have hne : ms.getLsbD b → (writeDac ||| readControl ||| maximumAllowed).getLsbD b = false := by
    rw [hb]
    rintro ⟨-, hsy | ht⟩
    · rw [bit_systemSecurity.mp hsy]
      rfl
    · rw [bit_writeOwner.mp ht.1]
      rfl
  grind

end

lemma reaches_of_prepare {p : Prepared} (hus : r.UserMode) (h : ntPrepare r = .ok p) :
    ∃ token, Reaches r token p.SecurityDescriptor := by
  -- one branch at a time; those that are answered at once are not the case
  rw [ntPrepare] at h
  split at h
  · cases h
  rename_i hpr
  split at h
  · cases h
  rename_i hsp
  split at h
  · cases h
  rename_i token ht
  split at h
  · cases h
  rename_i hty
  split at h
  · cases h
  rename_i hl
  split at h
  · cases h
  rename_i ms hp
  obtain ⟨hs, hms⟩ := policy_bits hp
  dsimp only at h
  split at h
  · cases h
  rename_i ha
  split at h
  · cases h
  rename_i hln
  rw [required_le hms] at hln
  rw [ntCheckDescriptor] at h
  split at h
  · cases h
  rename_i sd hsd
  split at h
  · cases h
  rename_i hd
  split at h
  · cases h
  rename_i hrv
  split at h
  · cases h
  rename_i hc
  split at h
  · cases h
  rename_i ho
  split at h
  · cases h
  rename_i hr
  cases h
  refine ⟨token, hus, hpr, not_not.mp hsp, ht, not_not.mp hty, Nat.not_lt.mp hl, hs,
    fun hu => ?_, hln.1, hln.2, hsd, hd, not_not.mp hrv, hc, fun hrl => ?_,
    fun hds => ?_⟩
  · rw [← privilegesUsed_ne_nil hms] at hu
    simpa [hu] using ha
  · have := not_and.mp ho hrl
    simpa [isSome_iff_ne_none] using this
  rw [← mask_rest hms] at hds
  refine ownerRights_some (?_ : ownerRights token sd _ ms ≠ none) hds
  rw [hr]
  exact nofun

/-- A request that reaches the check goes to it with the rights left and those held. -/
lemma prepare_of_reaches (h : Reaches r token sd) : ∃ p, ntPrepare r = .ok p ∧ p.SecurityDescriptor = sd ∧
    (∀ b, p.DesiredAccess.getLsbD b ↔ Left token sd r.DesiredAccess b) ∧
    ∀ b, p.PreviouslyGrantedAccess.getLsbD b ↔ Held token sd r.DesiredAccess b := by
  obtain ⟨ms, hpl, -⟩ := @privilegePolicy_spec r.DesiredAccess token fun hp => by simp [h.security hp.1] at hp
  obtain ⟨-, hms⟩ := policy_bits hpl
  obtain ⟨d', ps', hrg, hds, hpv⟩ := @ownerRights_bits token sd (r.DesiredAccess &&& ~~~ms) ms
    (by rw [mask_rest hms]; exact h.asserts)
  have hsp : ¬ r.DesiredAccess &&& (genericRead ||| genericWrite ||| genericExecute ||| genericAll) ≠ 0 :=
    not_not.mpr h.specific
  have ha : ¬ (privilegesUsed ms ≠ [] ∧ r.Allocated = false) := by
    rintro ⟨hu, hf⟩
    rw [h.allocated ((privilegesUsed_ne_nil hms).mp hu)] at hf
    cases hf
  have hl := (required_le hms).mpr ⟨h.length, h.lengthBoth⟩
  have ho : ¬ (sd.SelfRelative = false ∧ (sd.Owner = none ∨ sd.Group = none)) := by
    rintro ⟨hrl, hn⟩
    have := h.owner hrl
    simp only [isSome_iff_ne_none] at this
    exact hn.elim this.1 this.2
  have hr (b : Nat) : (r.DesiredAccess &&& ~~~ms).getLsbD b = true ↔ r.DesiredAccess.getLsbD b ∧
    ¬ ms.getLsbD b := by
    grind
  have hm (b : Nat) (hb : ms.getLsbD b) : b = 24 ∨ b = 19 :=
    ((hms b).mp hb).2.imp bit_systemSecurity.mp fun ht => bit_writeOwner.mp ht.1
  refine ⟨⟨sd, d', ps', privilegesUsed ms⟩, ?_, rfl, fun b => ?_, fun b => ?_⟩
  · simp only [ntPrepare, h.probe, if_neg hsp, h.handle, if_neg (not_not.mpr h.type),
      if_neg (Nat.not_lt.mpr h.level),
      hpl, if_neg ha, if_neg hl, ntCheckDescriptor, h.descriptor, h.descriptorProbe,
      if_neg (not_not.mpr h.revision), h.capture, if_neg ho, hrg]
  · rw [hds, hr, hms, Left]
    grind
  have hmx : ¬ ms.getLsbD maximumBit := fun hb => by rcases hm _ hb with h | h <;> cases h
  rw [hpv, hr, hr, hms, Held]
  grind

/-! ## Checks that do not depend on the token -/

/-- It does not matter for which token the rights left are checked. -/
inductive Settled (sd : SecurityDescriptor) (mapping : GenericMapping) (left held : Nat → Prop) : Prop
  | nothing : (∀ b, ¬ left b) → Settled sd mapping left held
  | unprotected : sd.DaclPresent = false ∨ sd.Dacl = none → Settled sd mapping left held
  /-- The empty list gives no right, except that of a privilege. -/
  | empty : sd.DaclPresent = true → sd.Dacl = some [] →
    (∃ b, left b ∧ writeOwner.getLsbD b = false ∧ b ≠ maximumBit) ∨ (∀ b, writeOwner.getLsbD b = true → ¬ left b) →
    Settled sd mapping left held
  /-- A list with entries gives all rights, if `MAXIMUM_ALLOWED` is not desired. -/
  | specific (aces : List Ace) : sd.DaclPresent = true → sd.Dacl = some aces → aces ≠ [] → ¬ left maximumBit →
    Settled sd mapping left held
  /-- With `MAXIMUM_ALLOWED` alone, there is no token that is allowed more than is held. -/
  | maximumAlone (aces : List Ace) : sd.DaclPresent = true → sd.Dacl = some aces → aces ≠ [] →
    (∀ b, left b ↔ b = maximumBit) → (∀ token b, Allowed token mapping aces b → held b) →
      Settled sd mapping left held
  /-- With `MAXIMUM_ALLOWED` and other rights, there is no token that is allowed these. -/
  | maximum (aces : List Ace) : sd.DaclPresent = true → sd.Dacl = some aces → aces ≠ [] → left maximumBit →
    (∀ token, ∃ b, left b ∧ b ≠ maximumBit ∧ writeOwner.getLsbD b = false ∧ ¬ Allowed token mapping aces b) →
    Settled sd mapping left held

variable {ctx : SubjectContext}

/-- A token without identifiers and privileges. -/
def nobody : Token := ⟨[], [], .primary, 0, false⟩

/-- The token, with the privilege to take ownership. -/
def taker (token : Token) : Token := { token with Privileges := [⟨seTakeOwnershipPrivilege, sePrivilegeEnabled⟩] }

lemma not_takesOwnership_nobody : ¬ TakesOwnership nobody b := fun h => by cases h.2

lemma not_allowed_nobody : ¬ Allowed nobody m a b := by
  rintro ⟨pr, ac, p, -, hg, -⟩
  cases hg.2.2.1

lemma takesOwnership_taker : TakesOwnership (taker token) b ↔ writeOwner.getLsbD b := and_iff_left rfl

lemma allowed_taker : Allowed (taker token) m a b ↔ Allowed token m a b := Iff.rfl

section
variable (hrv : sd.Revision = securityDescriptorRevision) (hds : d ≠ 0)
  (hsp : rtlMapGenericMask d m = d) (hpv : rtlMapGenericMask ps m = ps)
  (hsy : ∀ b, accessSystemSecurity.getLsbD b = true → ¬ d.getLsbD b = true)

include hsp hsy in
lemma policy_caller : ∃ g, sePrivilegePolicyCheck (rtlMapGenericMask d m) token = some g ∧
    (∀ b, g.getLsbD b ↔ d.getLsbD b ∧ TakesOwnership token b) ∧
    ∀ b, (d &&& ~~~g).getLsbD b = true ↔ d.getLsbD b = true ∧ ¬ TakesOwnership token b := by
  obtain ⟨g, hg, hbt⟩ := @privilegePolicy_spec d token fun hp => by
    obtain ⟨b, hb⟩ := mask_ne_zero.mp hp.1
    rw [getLsbD_and, Bool.and_eq_true] at hb
    exact hsy b hb.2 hb.1
  have hbt (b : Nat) : g.getLsbD b ↔ d.getLsbD b ∧ TakesOwnership token b := by
    have := hsy b
    rw [hbt, TakesOwnership]
    grind
  rw [hsp]
  refine ⟨g, hg, hbt, fun b => ?_⟩
  have hlt : d.getLsbD b → b < 32 := lt_of_getLsbD
  have := hbt b
  rw [getLsbD_and, getLsbD_not]
  grind

lemma not_takes_maximum : ¬ TakesOwnership token maximumBit := by
  rintro ⟨h, -⟩
  cases h

include hrv hds hsp hpv hsy

lemma check_unprotected (hdc : sd.DaclPresent = false ∨ sd.Dacl = none) : sepAccessCheck sd ctx d ps m =
      (if d.getLsbD maximumBit = true then ((ps ||| d) &&& ~~~maximumAllowed) ||| m.GenericAll
        else ps ||| d, .success) := by
  obtain ⟨g, hg, hb, hr⟩ := @policy_caller ctx.token _ _ hsp hsy
  have hn : (if sd.DaclPresent = true then sd.Dacl else none) = none := by rcases hdc with h | h <;> simp [h]
  have hp : (if ps ≠ 0 then ps else ps) = ps := ite_self _
  have hu : ps ||| g ||| (d &&& ~~~g) = ps ||| d := by
    refine mask_ext fun b => ?_
    grind
  have hm : (d &&& ~~~g) &&& maximumAllowed ≠ 0 ↔ d.getLsbD maximumBit = true := by
    rw [and_bit_ne_zero fun b => bit_maximumAllowed, hr]
    exact and_iff_left not_takes_maximum
  rw [hsp] at hg
  simp only [sepAccessCheck, if_neg hds, hsp, hpv, hg, hp, hrv, ne_eq, not_true, if_false, hn, hu]
  simp only [hm]
  split
  · -- a privilege gives all that is desired
    rename_i hz
    have hnt : ¬ d.getLsbD maximumBit := by
      rw [← hm, hz]
      decide
    rw [if_neg hnt, ← hu, hz]
    exact congrArg (Prod.mk · _) or_zero.symm
  · split <;> rfl

section
variable (hps : sd.DaclPresent = true) (hdc : sd.Dacl = some a)
include hps hdc

lemma sepAccessCheck_specific (hne : a ≠ []) (hm : ¬ d.getLsbD maximumBit) :
    sepAccessCheck sd ctx d ps m = (ps ||| d, .success) := by
  obtain ⟨g, hg, hb, hr⟩ := @policy_caller ctx.token _ _ hsp hsy
  rw [check_eq hps hdc hds hg]
  simp only [hsp, hpv, hrv, ne_eq, not_true, if_false, if_neg hne, if_neg hm]
  split <;> refine congrArg (Prod.mk · _) (mask_ext fun b => ?_) <;> have := hb b <;> simp only [getLsbD_or]
  · rename_i hz
    grind
  · grind

variable (hls : d.getLsbD maximumBit = true ∨ a = [])

include hls

/-- The list of entries denies what it does not allow, if it is empty or `MAXIMUM_ALLOWED` is desired. -/
lemma check_denied (hb : d.getLsbD b)
    (hn : ¬ TakesOwnership ctx.token b) (hne : b ≠ maximumBit) (ha : ¬ Allowed ctx.token m a b) :
    sepAccessCheck sd ctx d ps m = (0, .accessDenied) := by
  obtain ⟨g, hg, hbt, hrs⟩ := @policy_caller ctx.token _ _ hsp hsy
  rw [check_eq hps hdc hds hg]
  have hr := (hrs b).mpr ⟨hb, hn⟩
  have hm : ¬ maximumAllowed.getLsbD b := by rwa [bit_maximumAllowed]
  simp only [hsp, hpv, hrv, ne_eq, not_true, if_false, if_neg (mask_ne_zero.mpr ⟨b, hr⟩)]
  split
  · refine if_neg fun h => hm ?_
    rw [← h.1, hr]
  rename_i hc
  rw [if_pos (hls.resolve_right hc)]
  refine if_pos (mask_ne_zero.mpr ⟨b, ?_⟩)
  have hgr := mt maximum_granted.mp ha
  grind

lemma check_maximum (ha : ∀ b, d.getLsbD b = true → TakesOwnership ctx.token b ∨ b = maximumBit ∨
    Allowed ctx.token m a b) :
    ∃ gr, sepAccessCheck sd ctx d ps m = (gr, if gr = 0 then .accessDenied else .success) ∧ ∀ b,
      gr.getLsbD b ↔ ps.getLsbD b ∨
        d.getLsbD b ∧ TakesOwnership ctx.token b ∨ Allowed ctx.token m a b := by
  obtain ⟨g, hgv, hbt, hr⟩ := @policy_caller ctx.token _ _ hsp hsy
  rw [check_eq hps hdc hds hgv]
  simp only [hsp, hpv, hrv, ne_eq, not_true, if_false]
  have hm : (d &&& ~~~g).getLsbD maximumBit = true ↔ d.getLsbD maximumBit = true := by
    rw [hr]
    exact and_iff_left not_takes_maximum
  by_cases hn : a = []
  · -- the empty list allows nothing
    subst hn
    have hh (b : Nat) : (ps ||| g).getLsbD b = true ↔ ps.getLsbD b = true ∨
        d.getLsbD b ∧ TakesOwnership ctx.token b ∨ Allowed ctx.token m [] b := by
      rw [getLsbD_or, Bool.or_eq_true, hbt, or_iff_left (@not_allowed_nil m b ctx.token)]
    refine ⟨ps ||| g, ?_, hh⟩
    rw [if_pos rfl]
    split
    · rename_i hz
      obtain ⟨b, hb⟩ := mask_ne_zero.mp hds
      have hg : g.getLsbD b := by
        grind
      rw [if_neg (mask_ne_zero.mpr ⟨b, by rw [getLsbD_or, hg, Bool.or_true]⟩)]
    rename_i hrs
    have ho : d &&& ~~~g = maximumAllowed := by
      have hs (b : Nat) (hb : (d &&& ~~~g).getLsbD b = true) : b = maximumBit := by
        obtain ⟨hd, ht⟩ := (hr b).mp hb
        exact ((ha b hd).resolve_left ht).resolve_right not_allowed_nil
      obtain ⟨b, hb⟩ := mask_ne_zero.mp hrs
      refine mask_ext fun b => ?_
      have := @bit_maximumAllowed b
      grind
    by_cases hz : ps ||| g = 0
    · rw [if_neg (fun h => h.2 hz), if_pos hz, hz]
    · rw [if_pos ⟨ho, hz⟩, if_neg hz]
  · have hmx := hls.resolve_right hn
    have hgr (b : Nat) := @maximum_granted m b ctx.token a
    have hle : ¬ ¬ (d &&& ~~~g) &&& ~~~(maximumAllowed ||| (a.foldl (maximumAce ctx.token m) (0, 0)).1) = 0 := by
      refine not_not.mpr (mask_eq_zero.mpr fun b => ?_)
      have := @bit_maximumAllowed b
      grind
    rw [if_neg (mask_ne_zero.mpr ⟨maximumBit, hm.mpr hmx⟩), if_neg hn, if_pos hmx, if_neg hle]
    refine ⟨ps ||| g ||| (a.foldl (maximumAce ctx.token m) (0, 0)).1, ?_, fun b => ?_⟩
    · rw [ite_not]
      split <;> rfl
    · simp only [getLsbD_or, Bool.or_eq_true, hbt, hgr, or_assoc]

/-- If the list allows no more than is held, `MAXIMUM_ALLOWED` gives what is held. -/
lemma sepAccessCheck_held (ho : ∀ b, d.getLsbD b → b = maximumBit)
    (hh : ∀ b, Allowed ctx.token m a b → ps.getLsbD b) :
    sepAccessCheck sd ctx d ps m = (ps, if ps = 0 then .accessDenied else .success) := by
  obtain ⟨g, heq, hg⟩ := @check_maximum _ _ _ _ _ ctx hrv hds hsp hpv
    hsy hps hdc hls fun b hb => .inr (.inl (ho b hb))
  have hs : g = ps := mask_ext fun b => by
    have hno : ¬ (d.getLsbD b ∧ TakesOwnership ctx.token b) := fun ⟨hb, ht⟩ =>
      not_takes_maximum (ho b hb ▸ ht)
    grind
  rw [heq, hs]

end

lemma sepAccessCheck_isolated_iff : (∀ ctx ctx', sepAccessCheck sd ctx d ps m = sepAccessCheck sd ctx' d ps m) ↔
      Settled sd m (d.getLsbD ·) (ps.getLsbD ·) := by
  constructor
  · intro h
    by_cases hn : sd.DaclPresent = false ∨ sd.Dacl = none
    · exact .unprotected hn
    rw [not_or, Bool.not_eq_false] at hn
    obtain ⟨hps, hs⟩ := hn
    obtain ⟨a, hdc⟩ := ne_none_iff_exists'.mp hs
    -- a caller without identifiers and privileges has nothing, and is compared with one that has something
    have hd {b : Nat} (hls : d.getLsbD maximumBit ∨ a = []) (hb : d.getLsbD b)
        (hne : b ≠ maximumBit) : sepAccessCheck sd ⟨none, 0, nobody⟩ d ps m = (0, .accessDenied) :=
      check_denied hrv hds hsp hpv hsy hps hdc hls hb not_takesOwnership_nobody hne not_allowed_nobody
    have hm (token : Token) (hls : d.getLsbD maximumBit ∨ a = []) :=
      @check_maximum _ _ _ _ _ ⟨none, 0, token⟩ hrv hds hsp hpv hsy hps hdc hls
    by_cases hnl : a = []
    · subst hnl
      by_cases hex : (∃ b, d.getLsbD b ∧ writeOwner.getLsbD b = false ∧ b ≠ maximumBit) ∨
          ∀ b, writeOwner.getLsbD b → ¬ d.getLsbD b
      · exact .empty hps hdc hex
      -- only the right of the privilege is left
      push Not at hex
      obtain ⟨ho, b, how, hb⟩ := hex
      have hne : b ≠ maximumBit := by
        rintro rfl
        cases how
      obtain ⟨g, heq, hg⟩ := hm (taker nobody) (.inr rfl) fun c hc => by
        rw [SubjectContext.token, getD_none, takesOwnership_taker]
        grind
      rw [h _ ⟨none, 0, nobody⟩, hd (.inr rfl) hb hne, Prod.mk.injEq] at heq
      have hbt := (hg b).mpr (.inr (.inl ⟨hb, takesOwnership_taker.mpr how⟩))
      rw [← heq.1, mask_eq_zero.mp rfl b] at hbt
      cases hbt
    by_cases hmx : d.getLsbD maximumBit
    swap
    · exact .specific a hps hdc hnl hmx
    by_cases hex : ∃ b, d.getLsbD b ∧ b ≠ maximumBit
    swap
    · have ho (b : Nat) (hb : d.getLsbD b) : b = maximumBit := not_not.mp fun hne => hex ⟨b, hb, hne⟩
      refine .maximumAlone a hps hdc hnl (fun b => ⟨ho b, fun hb => hb ▸ hmx⟩) fun token b hb => ?_
      obtain ⟨g, heq, hg⟩ := hm token (.inl hmx) fun c hc => .inr (.inl (ho c hc))
      rw [h _ ⟨none, 0, nobody⟩, @sepAccessCheck_held _ _ _ _ _ ⟨none, 0, nobody⟩ hrv hds hsp hpv hsy
        hps hdc (.inl hmx) ho fun c hc => absurd hc not_allowed_nobody, Prod.mk.injEq] at heq
      rw [heq.1]
      exact (hg b).mpr (.inr (.inr hb))
    refine .maximum a hps hdc hnl hmx fun token => ?_
    by_contra ha
    push Not at ha
    obtain ⟨b, hb, hne⟩ := hex
    obtain ⟨g, heq, hg⟩ := hm (taker token) (.inl hmx) fun c hc => by
      rw [SubjectContext.token, getD_none, takesOwnership_taker, allowed_taker]
      grind
    rw [h _ ⟨none, 0, nobody⟩, hd (.inl hmx) hb hne, Prod.mk.injEq] at heq
    have hbt : g.getLsbD b := by
      rw [hg, SubjectContext.token, getD_none, takesOwnership_taker, allowed_taker]
      grind
    rw [← heq.1, mask_eq_zero.mp rfl b] at hbt
    cases hbt
  · intro h ctx ctx'
    cases h with
    | nothing hno => exact absurd (mask_eq_zero.mpr fun b => Bool.eq_false_iff.mpr (hno b)) hds
    | unprotected hdc =>
      rw [check_unprotected hrv hds hsp hpv hsy hdc, check_unprotected hrv hds hsp hpv hsy hdc]
    | empty hps hdc hor =>
      by_cases hex : ∃ b, d.getLsbD b ∧ writeOwner.getLsbD b = false ∧ b ≠ maximumBit
      · obtain ⟨b, hb, how, hmx⟩ := hex
        have hd (ctx : SubjectContext) : sepAccessCheck sd ctx d ps m = (0, .accessDenied) :=
          check_denied hrv hds hsp hpv hsy hps hdc (.inr rfl) hb
            (fun ht => by rw [ht.1] at how; cases how) hmx not_allowed_nil
        rw [hd, hd]
      have ho (b : Nat) (hb : d.getLsbD b) : b = maximumBit := by
        grind
      have hh (ctx : SubjectContext) : sepAccessCheck sd ctx d ps m = _ :=
        sepAccessCheck_held hrv hds hsp hpv hsy hps hdc (.inr rfl) ho fun b hb => absurd hb not_allowed_nil
      rw [hh, hh]
    | specific a hps hdc hne hmx =>
      rw [sepAccessCheck_specific hrv hds hsp hpv hsy hps hdc hne hmx,
        sepAccessCheck_specific hrv hds hsp hpv hsy hps hdc hne hmx]
    | maximumAlone a hps hdc hne hmx hh =>
      have hh (ctx : SubjectContext) : sepAccessCheck sd ctx d ps m = _ :=
        sepAccessCheck_held hrv hds hsp hpv hsy hps hdc (.inl ((hmx _).mpr rfl))
          (fun b => (hmx b).mp) (hh ctx.token)
      rw [hh, hh]
    | maximum a hps hdc hne hmx hnt =>
      have hd (ctx : SubjectContext) : sepAccessCheck sd ctx d ps m = (0, .accessDenied) := by
        obtain ⟨b, hb, hbm, how, hnt⟩ := hnt ctx.token
        exact check_denied hrv hds hsp hpv hsy hps hdc (.inl hmx) hb
          (fun ht => by rw [ht.1] at how; cases how) hbm hnt
      rw [hd, hd]

end

/-! ## Requests -/

/-- The status and the rights that `NtAccessCheck` answers are the same for all calling threads
exactly if the request is answered before the list of entries is reached, or the rights left are
settled. -/
theorem ntAccessCheck_isolated_iff (r : AccessRequest) :
    (∀ ctx ctx', (ntAccessCheck r ctx).map (·.Access) = (ntAccessCheck r ctx').map (·.Access)) ↔
      ∀ token sd, Reaches r token sd →
        Settled sd r.GenericMapping (Left token sd r.DesiredAccess) (Held token sd r.DesiredAccess) := by
  cases hu : r.UserMode with
  | false =>
    refine ⟨fun _ token sd h => absurd (h.userMode.symm.trans hu) nofun, fun _ ctx ctx' => ?_⟩
    simp only [ntAccessCheck, hu, Bool.not_false, if_true]
  | true =>
    cases hpr : ntPrepare r with
    | error rs =>
      refine ⟨fun _ token sd h => ?_, fun _ ctx ctx' => ?_⟩
      · obtain ⟨p, hp, -⟩ := prepare_of_reaches h
        cases hpr.symm.trans hp
      · simp only [ntAccessCheck, hu, hpr]
    | ok p =>
      obtain ⟨token, hr⟩ := reaches_of_prepare hu hpr
      obtain ⟨p', hp', -, hl, hh⟩ := prepare_of_reaches hr
      cases hpr.symm.trans hp'
      -- the token and the descriptor are those of the request
      have hun {Q : Token → SecurityDescriptor → Prop} : (∀ token sd, Reaches r token sd → Q token sd) ↔
          Q token p.SecurityDescriptor := by
        refine ⟨fun h => h _ _ hr, fun h token' sd' h' => ?_⟩
        cases hr.handle.symm.trans h'.handle
        cases hr.descriptor.symm.trans h'.descriptor
        exact h
      have hg (b : Nat) (hb : r.DesiredAccess.getLsbD b = true) : genericFlags.getLsbD b = false := by
        have := mask_eq_zero.mp hr.specific b
        rwa [getLsbD_and, hb, Bool.true_and] at this
      have hsp : rtlMapGenericMask p.DesiredAccess r.GenericMapping = p.DesiredAccess :=
        map_of_bits fun b hb => hg b ((hl b).mp hb).1
      have hpv : rtlMapGenericMask p.PreviouslyGrantedAccess r.GenericMapping = p.PreviouslyGrantedAccess := by
        refine map_of_bits fun b hb => ?_
        rcases (hh b).mp hb with ⟨hd, -⟩ | ⟨-, ho, -⟩
        · exact hg b hd
        · rcases bit_owner.mp ho with rfl | rfl <;> rfl
      have hsy (b : Nat) (hb : accessSystemSecurity.getLsbD b = true) :
        ¬ p.DesiredAccess.getLsbD b = true := fun hd => by
        rw [((hl b).mp hd).2.1] at hb
        cases hb
      rw [hun, ← funext fun b => propext (hl b), ← funext fun b => propext (hh b)]
      by_cases hz : p.DesiredAccess = 0
      · refine ⟨fun _ => .nothing fun b => ?_, fun _ ctx ctx' => ?_⟩
        · rw [mask_eq_zero.mp hz b]
          exact nofun
        · simp only [ntAccessCheck, hu, hpr, if_pos hz]
      rw [← sepAccessCheck_isolated_iff hr.revision hz hsp hpv hsy]
      simp only [ntAccessCheck, hu, hpr, if_neg hz, Bool.not_true, Bool.false_eq_true, if_false,
        map_some, some.injEq]

/-- A request of all rights allowed, about a token that is allowed none, to a descriptor that allows
one right to a user. -/
def maximumRequest (user : Sid) : AccessRequest where
  UserMode := true
  SecurityDescriptor := some ⟨securityDescriptorRevision, false, true, some ⟨1, 5, [32]⟩, some ⟨1, 5, [32]⟩,
    some [⟨.accessAllowed, false, 1, user⟩]⟩
  Token := .ok ⟨[⟨⟨1, 1, [0]⟩, seGroupEnabled⟩], [], .impersonation, securityImpersonation, false⟩
  DesiredAccess := maximumAllowed
  GenericMapping := ⟨0, 0, 0, 0⟩
  PrivilegeSetLength := sizeofPrivilegeSet
  Probe := none
  DescriptorProbe := none
  Allocated := true
  Capture := none

/-- Asked about the same token, `NtAccessCheck` grants the right to one caller and denies all access to another. -/
theorem ntAccessCheck_isolated_fails :
    let user : Sid := ⟨1, 5, [18]⟩
    (ntAccessCheck (maximumRequest user) ⟨none, 0, userToken user⟩).map (·.Access) = some (some (1, .success)) ∧
    (ntAccessCheck (maximumRequest user) ⟨none, 0, userToken ⟨1, 1, [0]⟩⟩).map (·.Access) =
      some (some (0, .accessDenied)) := by
  decide

end FreeNT.Se
