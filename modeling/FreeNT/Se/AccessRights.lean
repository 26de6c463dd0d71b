import FreeNT.Se.AccessCheck

/-!
# Rights that a check may grant

A right is allowed by a list of entries if an entry for the token allows it and no entry
before that denies it (`Allowed`). Both loops compute this: the one for `MAXIMUM_ALLOWED`
collects the rights allowed (`maximum_allowed`), and the other one leaves no right exactly
if all are allowed (`remainingAccess_eq_zero`). But the check does not look at the rights
that the second loop leaves.

`accessCheck_enforced_iff` says when a check nevertheless grants only rights that are
allowed, or are given by the owner, a privilege or an earlier grant (`Justified`).
-/

namespace FreeNT.Se

open Bool hiding not_and not_not not_or or_assoc

open BitVec hiding not_and not_not not_or or_assoc

open Option hiding or_assoc

/-! ## Masks -/

variable {m m' : AccessMask} {mapping : GenericMapping} {b : Nat}

lemma mask_ext (h : ∀ b, m.getLsbD b = m'.getLsbD b) : m = m' := eq_of_getLsbD_eq fun b _ => h b

lemma mask_eq_zero : m = 0 ↔ ∀ b, m.getLsbD b = false :=
    ⟨fun h b => by simp [h], fun h => mask_ext fun b => by simp [h]⟩

lemma mask_ne_zero : m ≠ 0 ↔ ∃ b, m.getLsbD b := by
  rw [ne_eq, mask_eq_zero, not_forall]
  simp [not_eq_false]

/-- The flags for generic rights. -/
def genericFlags : AccessMask := genericRead ||| genericWrite ||| genericExecute ||| genericAll

lemma mapFlag_or (f r : AccessMask) : mapFlag f r (m ||| m') = mapFlag f r m ||| mapFlag f r m' := by
  have hor : (m ||| m') &&& f ≠ 0 ↔ m &&& f ≠ 0 ∨ m' &&& f ≠ 0 := by
    grind
  simp only [mapFlag, hor]
  refine mask_ext fun b => ?_
  split_ifs <;> grind

lemma map_or : rtlMapGenericMask (m ||| m')
    mapping = rtlMapGenericMask m mapping ||| rtlMapGenericMask m' mapping := by
  refine mask_ext fun b => ?_
  simp only [rtlMapGenericMask, mapFlag_or, getLsbD_and, getLsbD_or]
  grind

lemma map_of_specific (h : m &&& genericFlags = 0) : rtlMapGenericMask m mapping = m := by
  have hbt (b : Nat) : ¬ (m.getLsbD b ∧ genericFlags.getLsbD b) := fun hb => by
    have := mask_eq_zero.mp h b
    rw [getLsbD_and, hb.1, hb.2] at this
    cases this
  have hf (f r : AccessMask) (hf : ∀ b, f.getLsbD b → genericFlags.getLsbD b) : mapFlag f r m = m := by
    refine if_neg (not_not.mpr (mask_eq_zero.mpr fun b => ?_))
    grind
  have hfl (b : Nat) : genericFlags.getLsbD b =
      (genericRead.getLsbD b || genericWrite.getLsbD b || genericExecute.getLsbD b || genericAll.getLsbD b) := by
    simp [genericFlags, getLsbD_or]
  simp only [rtlMapGenericMask]
  refine mask_ext fun b => ?_
  grind

lemma map_specific (m : AccessMask) : rtlMapGenericMask m mapping &&& genericFlags = 0 := by
  refine mask_eq_zero.mpr fun b => ?_
  simp only [rtlMapGenericMask, genericFlags, getLsbD_and, getLsbD_not]
  grind

lemma map_zero : rtlMapGenericMask 0 mapping = 0 := map_of_specific rfl

/-! ## Entries -/

/-- The entry is of the given type and for the token, is not only inherited, and has the right. -/
def Gives (type : AceType) (token : Token) (mapping : GenericMapping) (ace : Ace) (b : Nat) : Prop :=
  ace.InheritOnly = false ∧ ace.AceType = type ∧ sepSidInToken token ace.Sid = true ∧
    (rtlMapGenericMask ace.AccessMask mapping).getLsbD b = true

/-- An entry allows the right, and no entry before it denies it. -/
def Allowed (token : Token) (mapping : GenericMapping) (aces : List Ace) (b : Nat) : Prop :=
  ∃ pre ace post, aces = pre ++ ace :: post ∧ Gives .accessAllowed token mapping ace b ∧
    ∀ d ∈ pre, ¬ Gives .accessDenied token mapping d b

variable {token : Token} {ac : Ace} {aces : List Ace}

lemma not_allowed_nil : ¬ Allowed token mapping [] b := by
  rintro ⟨pr, ac, p, h, -⟩
  simp at h

lemma allowed_cons : Allowed token mapping (ac :: aces) b ↔ Gives .accessAllowed token mapping ac b ∨
    ¬ Gives .accessDenied token mapping ac b ∧ Allowed token mapping aces b := by
  constructor
  · rintro ⟨_ | ⟨d, pr⟩, a, p, h, ha, hdn⟩
    · cases h
      exact .inl ha
    · cases h
      exact .inr ⟨hdn _ List.mem_cons_self, pr, a, p, rfl, ha, fun d hd => hdn d (List.mem_cons_of_mem _ hd)⟩
  rintro (ha | ⟨hn, pr, a, p, rfl, ha, hdn⟩)
  · exact ⟨[], ac, aces, rfl, ha, nofun⟩
  · exact ⟨ac :: pr, a, p, rfl, ha, List.forall_mem_cons.mpr ⟨hn, hdn⟩⟩

/-- The first loop adds the rights allowed, but for those denied before. -/
lemma maximum_allowed (g d : AccessMask) : ((aces.foldl (maximumAce token mapping) (g, d)).1.getLsbD b) ↔
      g.getLsbD b ∨ d.getLsbD b = false ∧ Allowed token mapping aces b := by
  induction aces generalizing g d with
  | nil => simp [not_allowed_nil]
  | cons ac aces ih =>
    rw [List.foldl_cons, allowed_cons]
    simp only [maximumAce, Gives]
    split
    · rename_i hin
      rw [ih]
      simp [hin]
    cases ht : ac.AceType with
    | accessAllowed | accessDenied =>
      split_ifs <;> simp only [ih, getLsbD_or, getLsbD_and, getLsbD_not] <;> grind
    | other => simp [ih]

/-- The first loop collects the rights allowed. -/
lemma maximum_granted : (aces.foldl (maximumAce token mapping) (0, 0)).1.getLsbD b ↔
    Allowed token mapping aces b := by
  rw [maximum_allowed]
  simp

/-! ## Grants -/

/-- The rights that a check may grant. -/
inductive Justified (token : Token) (sd : SecurityDescriptor) (mapping : GenericMapping) (previous : AccessMask)
    (aces : List Ace) (b : Nat) : Prop
  | previous : (rtlMapGenericMask previous mapping).getLsbD b = true → Justified token sd mapping previous aces b
  | security : accessSystemSecurity.getLsbD b = true → sepSinglePrivilegeCheck seSecurityPrivilege token = true →
    Justified token sd mapping previous aces b
  | takeOwnership : writeOwner.getLsbD b = true → sepSinglePrivilegeCheck seTakeOwnershipPrivilege token = true →
    Justified token sd mapping previous aces b
  | owner (sid : Sid) : (readControl ||| writeDac).getLsbD b = true → sd.Owner = some sid →
      sepSidInToken token sid = true →
    Justified token sd mapping previous aces b
  | allowed : Allowed token mapping aces b → Justified token sd mapping previous aces b

/-- The rights that are not taken from the mask for the owner. -/
def unowned (token : Token) (sd : SecurityDescriptor) (desired : AccessMask) : AccessMask :=
  if sd.Owner.any (sepSidInToken token) then desired &&& ~~~(writeDac ||| readControl) else desired

/-- The right is left for the list of entries: it is not taken for the owner, nor does a privilege give it. -/
def LeftToDacl (token : Token) (sd : SecurityDescriptor) (mapping : GenericMapping)
    (desired : AccessMask) (b : Nat) : Prop :=
  (rtlMapGenericMask (unowned token sd desired) mapping).getLsbD b = true ∧ accessSystemSecurity.getLsbD b = false ∧
    ¬ (writeOwner.getLsbD b = true ∧ sepSinglePrivilegeCheck seTakeOwnershipPrivilege token = true)

/-- The right `MAXIMUM_ALLOWED`. -/
def maximumBit : Nat := 25

/-- The inputs, other than those with nothing to grant, for which a check fails. -/
inductive Refused (sd : SecurityDescriptor) (ctx : SubjectContext) (mapping : GenericMapping)
    (desired previous : AccessMask)
    (aces : List Ace) : Prop
  | level : ctx.ClientToken.isSome = true → ctx.ImpersonationLevel < securityImpersonation →
    Refused sd ctx mapping desired previous aces
  | noOwner : desired &&& (writeDac ||| readControl) ≠ 0 → sd.Owner = none →
      Refused sd ctx mapping desired previous aces
  | restricted (sid : Sid) : desired &&& (writeDac ||| readControl) ≠ 0 → sd.Owner = some sid →
    sepSidInToken ctx.token sid = true → ctx.token.Restricted = true → Refused sd ctx mapping desired previous aces
  | privilege : rtlMapGenericMask (unowned ctx.token sd desired) mapping &&& accessSystemSecurity ≠ 0 →
    sepSinglePrivilegeCheck seSecurityPrivilege ctx.token = false → Refused sd ctx mapping desired previous aces
  | revision (b : Nat) : LeftToDacl ctx.token sd mapping desired b → sd.Revision ≠ securityDescriptorRevision →
    Refused sd ctx mapping desired previous aces
  | empty (b : Nat) : aces = [] → LeftToDacl ctx.token sd mapping desired b → b ≠ maximumBit →
    Refused sd ctx mapping desired previous aces
  | maximum (b : Nat) : LeftToDacl ctx.token sd mapping desired maximumBit →
      LeftToDacl ctx.token sd mapping desired b →
    b ≠ maximumBit → ¬ Allowed ctx.token mapping aces b → Refused sd ctx mapping desired previous aces
  | nothing : LeftToDacl ctx.token sd mapping desired maximumBit →
    (∀ b, (rtlMapGenericMask previous mapping).getLsbD b = false ∧ ¬ Allowed ctx.token mapping aces b) →
    unowned ctx.token sd desired = desired →
    (∀ b, (rtlMapGenericMask desired mapping).getLsbD b = true → LeftToDacl ctx.token sd mapping desired b) →
    Refused sd ctx mapping desired previous aces

/-! ## Owner and privileges -/

variable {sd : SecurityDescriptor} {ctx : SubjectContext} {desired previous : AccessMask}

lemma sepTokenIsOwner_cases (token : Token) (sd : SecurityDescriptor) :
    sepTokenIsOwner token sd = none ∧ (sd.Owner = none ∨
        ∃ s, sd.Owner = some s ∧ sepSidInToken token s ∧ token.Restricted) ∨
      sepTokenIsOwner token sd = some (sd.Owner.any (sepSidInToken token)) := by
  rw [sepTokenIsOwner]
  cases sd.Owner with
  | none => exact .inl ⟨rfl, .inl rfl⟩
  | some s =>
    rw [bind_eq_bind, bind_some]
    split
    · rename_i h
      rw [and_eq_true] at h
      exact .inl ⟨rfl, .inr ⟨s, rfl, h⟩⟩
    · exact .inr rfl

/-- The rights that the owner has are taken from the desired ones, and added to those granted. -/
lemma ownerRights_spec (hmax : desired &&& maximumAllowed = 0)
    (hn : desired &&& (writeDac ||| readControl) ≠ 0 → sepTokenIsOwner token sd ≠ none) :
    ownerRights token sd desired previous =
      some (unowned token sd desired, previous ||| (desired &&& ~~~unowned token sd desired)) := by
  have hm : desired &&& (writeDac ||| readControl ||| maximumAllowed) = desired &&& (writeDac ||| readControl) := by
    refine mask_ext fun b => ?_
    have := mask_eq_zero.mp hmax b
    grind
  rw [ownerRights, hm]
  split
  · -- no right of the owner is desired
    rename_i hz
    have hb (b : Nat) := mask_eq_zero.mp hz b
    have hu : unowned token sd desired = desired := by
      refine mask_ext fun b => ?_
      have := hb b
      rw [unowned]
      split
      · simp only [getLsbD_and, getLsbD_not] at this ⊢
        grind
      · rfl
    rw [hu]
    refine congrArg some (congrArg (Prod.mk _) (mask_ext fun b => ?_))
    grind
  · rename_i hz
    rcases sepTokenIsOwner_cases token sd with ⟨hc, -⟩ | hc
    · exact absurd hc (hn hz)
    rw [hc, bind_eq_bind, bind_some, unowned]
    split
    · rw [if_neg (not_not.mpr hmax)]
      refine congrArg some (congrArg (Prod.mk _) (mask_ext fun b => ?_))
      grind
    refine congrArg some (congrArg (Prod.mk _) (mask_ext fun b => ?_))
    grind

/-- Without an owner to check, the check of the owner asserts. -/
lemma ownerRights_none (hd : desired &&& (writeDac ||| readControl) ≠ 0) (hn : sepTokenIsOwner token sd = none) :
    ownerRights token sd desired previous = none := by
  rw [ownerRights, if_neg, hn]
  · rfl
  obtain ⟨b, hb⟩ := mask_ne_zero.mp hd
  refine mask_ne_zero.mpr ⟨b, ?_⟩
  grind

lemma bit_systemSecurity : accessSystemSecurity.getLsbD b ↔ b = 24 := by
  rw [show accessSystemSecurity = twoPow 32 24 from rfl, getLsbD_twoPow]
  grind

lemma bit_writeOwner : writeOwner.getLsbD b ↔ b = 19 := by
  rw [show writeOwner = twoPow 32 19 from rfl, getLsbD_twoPow]
  grind

lemma bit_maximumAllowed : maximumAllowed.getLsbD b ↔ b = maximumBit := by
  rw [show maximumAllowed = twoPow 32 25 from rfl, getLsbD_twoPow, maximumBit]
  grind

lemma bit_owner : (readControl ||| writeDac).getLsbD b = true ↔ b = 17 ∨ b = 18 := by
  rw [show readControl = twoPow 32 17 from rfl, show writeDac = twoPow 32 18 from rfl, getLsbD_or,
    getLsbD_twoPow, getLsbD_twoPow]
  grind

lemma and_bit_ne_zero {f : AccessMask} {k : Nat} (hf : ∀ b, f.getLsbD b ↔ b = k) :
    m &&& f ≠ 0 ↔ m.getLsbD k = true := by
  rw [mask_ne_zero]
  constructor
  · rintro ⟨b, hb⟩
    rw [getLsbD_and, and_eq_true, hf] at hb
    exact hb.2 ▸ hb.1
  · intro h
    exact ⟨k, by rw [getLsbD_and, h, (hf k).mpr rfl, Bool.true_and]⟩

lemma privilegePolicy_spec (hh : ¬ (m &&& accessSystemSecurity ≠ 0 ∧
    sepSinglePrivilegeCheck seSecurityPrivilege token = false)) : ∃ g, sePrivilegePolicyCheck m token = some g ∧
      ∀ b, g.getLsbD b ↔ m.getLsbD b ∧ (accessSystemSecurity.getLsbD b ∨
        writeOwner.getLsbD b ∧ sepSinglePrivilegeCheck seTakeOwnershipPrivilege token) := by
  rw [sePrivilegePolicyCheck, if_neg (by simpa using hh)]
  refine ⟨_, rfl, fun b => ?_⟩
  have hs := @and_bit_ne_zero m _ _ fun b => bit_systemSecurity
  have ho := @and_bit_ne_zero m _ _ fun b => bit_writeOwner
  split_ifs <;> simp only [getLsbD_or, or_eq_true, bit_systemSecurity, bit_writeOwner] <;> grind

/-! ## What is granted -/

lemma map_of_bits (h : ∀ b, m.getLsbD b → genericFlags.getLsbD b = false) : rtlMapGenericMask m mapping = m := by
  refine map_of_specific (mask_eq_zero.mpr fun b => ?_)
  grind

lemma not_generic_of_map (h : (rtlMapGenericMask m mapping).getLsbD b) : genericFlags.getLsbD b = false := by
  have hz := mask_eq_zero.mp (@map_specific mapping m) b
  rwa [getLsbD_and, h, Bool.true_and] at hz

lemma Allowed.not_generic (h : Allowed token mapping aces b) : genericFlags.getLsbD b = false := by
  obtain ⟨pr, ac, p, -, hg, -⟩ := h
  exact not_generic_of_map hg.2.2.2

lemma bit_owned : (desired &&& ~~~unowned token sd desired).getLsbD b = true → b = 17 ∨ b = 18 := by
  rw [← bit_owner, unowned]
  split <;> simp only [getLsbD_and, getLsbD_not, getLsbD_or] <;> grind

lemma map_owned : rtlMapGenericMask (desired &&& ~~~unowned token sd desired) mapping =
    desired &&& ~~~unowned token sd desired := by
  refine map_of_bits fun b hb => ?_
  rcases bit_owned hb with rfl | rfl <;> rfl

lemma unowned_sub (h : (unowned token sd desired).getLsbD b) : desired.getLsbD b := by
  rw [unowned] at h
  split at h
  · rw [getLsbD_and, and_eq_true] at h
    exact h.1
  · exact h

lemma unowned_or : unowned token sd desired ||| (desired &&& ~~~unowned token sd desired) = desired := by
  refine mask_ext fun b => ?_
  have hs := @unowned_sub b token sd desired
  grind

lemma map_desired : rtlMapGenericMask desired mapping =
    rtlMapGenericMask (unowned token sd desired) mapping ||| (desired &&& ~~~unowned token sd desired) := by
  conv_lhs => rw [← @unowned_or token sd desired]
  rw [map_or, map_owned]

/-- `SepAccessCheck`, once the rights that privileges give are known. -/
lemma check_eq (hpresent : sd.DaclPresent) (hdacl : sd.Dacl = some aces) (hd : desired ≠ 0)
    {gv : AccessMask} (hg : sePrivilegePolicyCheck (rtlMapGenericMask desired mapping) ctx.token = some gv) :
    sepAccessCheck sd ctx desired previous mapping =
      let held := rtlMapGenericMask previous mapping ||| gv
      let r := rtlMapGenericMask desired mapping &&& ~~~gv
      if r = 0 then (held, .success)
      else if sd.Revision ≠ securityDescriptorRevision then (held, .unknownRevision)
      else if aces = [] then if r = maximumAllowed ∧ held ≠ 0 then (held, .success) else (0, .accessDenied)
      else if (rtlMapGenericMask desired mapping).getLsbD maximumBit = true then
        let g := (aces.foldl (maximumAce ctx.token mapping) (0, 0)).1
        if r &&& ~~~(maximumAllowed ||| g) ≠ 0 then (0, .accessDenied)
        else if held ||| g ≠ 0 then (held ||| g, .success) else (held ||| g, .accessDenied)
      else (held ||| rtlMapGenericMask desired mapping, .success) := by
  have hp : (if previous ≠ 0 then rtlMapGenericMask previous mapping else previous) =
    rtlMapGenericMask previous mapping := by
    split
    · rfl
    · rename_i h
      rw [not_not.mp h, map_zero]
  have hmax := @and_bit_ne_zero (rtlMapGenericMask desired mapping) _ _ fun b => bit_maximumAllowed
  simp only [sepAccessCheck, if_neg hd, hg, hp, hpresent, if_true, hdacl, hmax]
  split
  · rfl
  rename_i hr
  split
  · rfl
  cases aces with
  | nil => simp
  | cons ac aces =>
    have hne : rtlMapGenericMask previous mapping ||| gv ||| rtlMapGenericMask desired mapping ≠ 0 := by
      obtain ⟨b, hb⟩ := mask_ne_zero.mp hr
      refine mask_ne_zero.mpr ⟨b, ?_⟩
      grind
    simp only [if_false, if_neg hne, reduceCtorEq]

lemma check_privilege (hd : desired ≠ 0) (h : rtlMapGenericMask desired mapping &&& accessSystemSecurity ≠ 0 ∧
      sepSinglePrivilegeCheck seSecurityPrivilege ctx.token = false) :
    (sepAccessCheck sd ctx desired previous mapping).2 = .privilegeNotHeld := by
  have hn : sePrivilegePolicyCheck (rtlMapGenericMask desired mapping) ctx.token = none := by
    rw [sePrivilegePolicyCheck, if_pos ⟨h.1, by simp [h.2]⟩]
  simp only [sepAccessCheck, if_neg hd, hn]

/-- What `SepAccessCheck` grants, if no right that the list of entries decides on is refused. -/
lemma sepAccessCheck_granted (hpresent : sd.DaclPresent) (hdacl : sd.Dacl = some aces) (hd : desired ≠ 0)
    {g : AccessMask} (hgv : sePrivilegePolicyCheck (rtlMapGenericMask desired mapping) ctx.token = some g)
    (hs : ∀ b, g.getLsbD b → (rtlMapGenericMask desired mapping).getLsbD b ∧ b ≠ maximumBit)
    {r : AccessMask} (hr : r = rtlMapGenericMask desired mapping &&& ~~~g)
    (hrv : r ≠ 0 → sd.Revision = securityDescriptorRevision)
    (he : aces = [] → ∀ b, r.getLsbD b → b = maximumBit)
    (hm : r.getLsbD maximumBit → ∀ b, r.getLsbD b → b ≠ maximumBit → Allowed ctx.token mapping aces b)
    (hn : r.getLsbD maximumBit → rtlMapGenericMask previous mapping ||| g ≠ 0 ∨ ∃ b,
      Allowed ctx.token mapping aces b) :
    ∃ gr, sepAccessCheck sd ctx desired previous mapping = (gr, .success) ∧
      ((rtlMapGenericMask desired mapping).getLsbD maximumBit = false →
        gr = rtlMapGenericMask previous mapping ||| rtlMapGenericMask desired mapping) ∧
      ((rtlMapGenericMask desired mapping).getLsbD maximumBit → ∀ b, gr.getLsbD b ↔
        (rtlMapGenericMask previous mapping).getLsbD b ∨ g.getLsbD b ∨ Allowed ctx.token mapping aces b) := by
  rw [check_eq hpresent hdacl hd hgv]
  dsimp only
  rw [← hr]
  have hbt (b : Nat) : r.getLsbD b ↔ (rtlMapGenericMask desired mapping).getLsbD b ∧ ¬ g.getLsbD b := by
    grind
  split
  · -- the privileges give all of them
    rename_i hz
    refine ⟨_, rfl, fun _ => mask_ext fun b => ?_, fun hmax => ?_⟩
    · simp only [getLsbD_or]
      grind
    · exact absurd ((hbt maximumBit).mpr ⟨hmax, fun hg => (hs _ hg).2 rfl⟩) (by simp [hz])
  rename_i hrs
  rw [if_neg (not_not.mpr (hrv hrs))]
  obtain ⟨b0, hb0⟩ := mask_ne_zero.mp hrs
  split
  · -- the empty list allows nothing: only `MAXIMUM_ALLOWED` is left
    rename_i hnl
    have ho := he hnl
    obtain rfl := ho b0 hb0
    subst hnl
    have ha : r = maximumAllowed := mask_ext fun b => by
      have := @bit_maximumAllowed b
      grind
    have hh := (hn hb0).resolve_right fun h => h.elim fun b hb => not_allowed_nil hb
    rw [if_pos ⟨ha, hh⟩]
    refine ⟨_, rfl, fun hmax => ?_, fun _ b => ?_⟩
    · rw [((hbt _).mp hb0).1] at hmax
      cases hmax
    · simp only [getLsbD_or, or_eq_true]
      simp [not_allowed_nil]
  have hgr (b : Nat) := @maximum_granted mapping b ctx.token aces
  split
  swap
  · rename_i hmax
    refine ⟨_, rfl, fun _ => mask_ext fun b => ?_, fun hmax' => absurd hmax' hmax⟩
    grind
  -- `MAXIMUM_ALLOWED`
  rename_i hmax
  have hmx := (hbt maximumBit).mpr ⟨hmax, fun hg => (hs _ hg).2 rfl⟩
  rw [if_neg, if_pos]
  · refine ⟨_, rfl, fun hmax' => ?_, fun _ b => ?_⟩
    · rw [hmax] at hmax'
      cases hmax'
    · simp only [getLsbD_or, or_eq_true, hgr, or_assoc]
  · rcases hn hmx with hh | ⟨b, hb⟩
    · obtain ⟨b, hb⟩ := mask_ne_zero.mp hh
      exact mask_ne_zero.mpr ⟨b, by rw [getLsbD_or, hb, Bool.true_or]⟩
    · exact mask_ne_zero.mpr ⟨b, by rw [getLsbD_or, (hgr b).mpr hb, Bool.or_true]⟩
  refine not_not.mpr (mask_eq_zero.mpr fun b => ?_)
  have := @bit_maximumAllowed b
  grind

/-- The rights left for the list of entries are those that privileges do not give. -/
lemma left_iff {g : AccessMask} (hb : ∀ b, g.getLsbD b ↔
      (rtlMapGenericMask (unowned token sd desired) mapping).getLsbD b ∧ (accessSystemSecurity.getLsbD b ∨
        writeOwner.getLsbD b ∧ sepSinglePrivilegeCheck seTakeOwnershipPrivilege token)) :
    (rtlMapGenericMask (unowned token sd desired) mapping &&& ~~~g).getLsbD b = true ↔
      LeftToDacl token sd mapping desired b := by
  rw [LeftToDacl, getLsbD_and, getLsbD_not]
  grind

lemma seAccessCheck_eq (hmax : desired &&& maximumAllowed = 0)
    (hl : ¬ (ctx.ClientToken.isSome ∧ ctx.ImpersonationLevel < securityImpersonation))
    (hn : desired &&& (writeDac ||| readControl) ≠ 0 → sepTokenIsOwner ctx.token sd ≠ none) :
    seAccessCheck (some sd) ctx desired previous mapping true =
      let desired' := unowned ctx.token sd desired
      let previous' := previous ||| (desired &&& ~~~desired')
      if desired' = 0 then
        if previous' = 0 then some (false, ⟨some previous', .accessDenied⟩) else some (true, ⟨some previous', .success⟩)
      else
        let r := sepAccessCheck sd ctx desired' previous' mapping
        some (r.2 == .success, ⟨some r.1, r.2⟩) := by
  simp only [seAccessCheck, Bool.not_true, Bool.false_eq_true, if_false, if_neg hl, ownerRights_spec hmax hn,
    bind_eq_bind, bind_some]
  split <;> rfl

/-- The check of the owner asserts only in the cases that are refused. -/
lemma owner_ne_none (h : ¬ Refused sd ctx mapping desired previous aces)
    (hd : desired &&& (writeDac ||| readControl) ≠ 0) : sepTokenIsOwner ctx.token sd ≠ none := by
  intro hn
  rcases sepTokenIsOwner_cases ctx.token sd with ⟨-, ho | ⟨s, ho, hin, hr⟩⟩ | hs
  · exact h (.noOwner hd ho)
  · exact h (.restricted s hd ho hin hr)
  · cases hn.symm.trans hs

/-- `SepAccessCheck` fails for the rights that the list of entries refuses. -/
lemma check_refused (hpresent : sd.DaclPresent) (hdacl : sd.Dacl = some aces) {previous' : AccessMask}
    (hz : unowned ctx.token sd desired ≠ 0) {left : Nat} (hl : LeftToDacl ctx.token sd mapping desired left)
    (h : sd.Revision ≠ securityDescriptorRevision ∨ (aces = [] ∧ left ≠ maximumBit) ∨
      LeftToDacl ctx.token sd mapping desired maximumBit ∧
        (left ≠ maximumBit ∧ ¬ Allowed ctx.token mapping aces left ∨
        (∀ b, (rtlMapGenericMask previous' mapping).getLsbD b = false ∧ ¬ Allowed ctx.token mapping aces b) ∧
        ∀ b, (rtlMapGenericMask (unowned ctx.token sd desired) mapping).getLsbD b →
          LeftToDacl ctx.token sd mapping desired b)) :
    (sepAccessCheck sd ctx (unowned ctx.token sd desired) previous' mapping).2 ≠ .success := by
  by_cases hp : rtlMapGenericMask (unowned ctx.token sd desired) mapping &&& accessSystemSecurity ≠ 0 ∧
      sepSinglePrivilegeCheck seSecurityPrivilege ctx.token = false
  · rw [check_privilege hz hp]
    decide
  obtain ⟨g, hgv, hbt⟩ := privilegePolicy_spec hp
  have hbi (b : Nat) := @left_iff mapping b ctx.token sd desired g hbt
  have hr := mask_ne_zero.mpr ⟨left, (hbi left).mpr hl⟩
  rw [check_eq hpresent hdacl hz hgv]
  dsimp only
  rw [if_neg hr]
  split
  · exact nofun
  rename_i hrv
  have h := h.resolve_left hrv
  split
  · -- the empty list
    rename_i hn
    rw [if_neg]
    · decide
    rintro ⟨ho, hh⟩
    rcases h with ⟨-, hne⟩ | ⟨hm, ⟨hne, -⟩ | ⟨hno, ha⟩⟩
    · exact hne (bit_maximumAllowed.mp (ho ▸ (hbi left).mpr hl))
    · exact hne (bit_maximumAllowed.mp (ho ▸ (hbi left).mpr hl))
    obtain ⟨b, hb⟩ := mask_ne_zero.mp hh
    rw [getLsbD_or, (hno b).1, Bool.false_or] at hb
    have hd := (hbt b).mp hb
    grind
  rename_i hc
  obtain ⟨hm, h⟩ := h.resolve_left fun hn => hc hn.1
  have hg (b : Nat) := @maximum_granted mapping b ctx.token aces
  rw [if_pos hm.1]
  split
  · decide
  rename_i hrs
  rw [if_neg]
  · exact nofun
  intro hh
  rcases h with ⟨hne, hnt⟩ | ⟨hno, ha⟩
  · have hl' := (hbi left).mpr hl
    refine hrs (mask_ne_zero.mpr ⟨left, ?_⟩)
    have hmx : maximumAllowed.getLsbD left = false := by
      have := @bit_maximumAllowed left
      grind
    rw [getLsbD_and, hl', getLsbD_not, getLsbD_or, hmx]
    grind
  obtain ⟨b, hb⟩ := mask_ne_zero.mp hh
  grind

/-- The rights of the owner do not include `MAXIMUM_ALLOWED`. -/
lemma owned_ne_maximum (hb : (desired &&& ~~~unowned token sd desired).getLsbD b = true) : b ≠ maximumBit := by
  rintro rfl
  rcases bit_owned hb with hb | hb <;> cases hb

lemma map_desired_owned (hz : unowned token sd desired = 0) :
    rtlMapGenericMask desired mapping = desired &&& ~~~unowned token sd desired := by
  rw [@map_desired mapping token sd desired, hz, map_zero]
  exact zero_or

lemma map_desired_maximum : (rtlMapGenericMask desired mapping).getLsbD maximumBit =
    (rtlMapGenericMask (unowned token sd desired) mapping).getLsbD maximumBit := by
  have ho := @owned_ne_maximum maximumBit token sd desired
  rw [@map_desired mapping token sd desired, getLsbD_or]
  grind

section
variable {gv : AccessMask} (hbt : ∀ b, gv.getLsbD b ↔
  (rtlMapGenericMask (unowned ctx.token sd desired) mapping).getLsbD b ∧ (accessSystemSecurity.getLsbD b ∨
    writeOwner.getLsbD b ∧ sepSinglePrivilegeCheck seTakeOwnershipPrivilege ctx.token))
include hbt

lemma privilege_bit (hb : gv.getLsbD b) :
    (rtlMapGenericMask (unowned ctx.token sd desired) mapping).getLsbD b ∧ b ≠ maximumBit := by
  obtain ⟨hd, hsy | ⟨how, -⟩⟩ := (hbt b).mp hb
  · rw [bit_systemSecurity.mp hsy] at hd ⊢
    exact ⟨hd, by decide⟩
  · rw [bit_writeOwner.mp how] at hd ⊢
    exact ⟨hd, by decide⟩

variable (h : ¬ Refused sd ctx mapping desired previous aces)
include h

/-- Where all that is allowed is asked for, something is. -/
lemma exists_granted (hm : (rtlMapGenericMask (unowned ctx.token sd desired) mapping &&&
    ~~~gv).getLsbD maximumBit) :
    rtlMapGenericMask (previous ||| (desired &&& ~~~unowned ctx.token sd desired)) mapping ||| gv ≠ 0 ∨
      ∃ b, Allowed ctx.token mapping aces b := by
  have hlf (b : Nat) := @left_iff mapping b ctx.token sd desired gv hbt
  by_contra hn
  rw [not_or, not_not, not_exists, map_or, map_owned] at hn
  have hno := mask_eq_zero.mp hn.1
  simp only [getLsbD_or, or_eq_false_iff] at hno
  refine h (.nothing ((hlf _).mp hm) (fun b => ⟨(hno b).1.1, hn.2 b⟩) ?_ fun b hb => ?_)
  · have ho : desired &&& ~~~unowned ctx.token sd desired = 0 := mask_eq_zero.mpr fun b => (hno b).1.2
    have hal := @unowned_or ctx.token sd desired
    rw [ho] at hal
    exact or_zero.symm.trans hal
  have hb' := congrArg (getLsbD · b) (@map_desired mapping ctx.token sd desired)
  simp only [getLsbD_or] at hb'
  rw [hb, (hno b).1.2, Bool.or_false] at hb'
  rw [← hlf, getLsbD_and, getLsbD_not, ← hb', (hno b).2]
  simpa using lt_of_getLsbD hb

/-- Where all that is allowed is asked for, what privileges do not give is allowed, as the check is not refused. -/
lemma allowed_of_left (hm : (rtlMapGenericMask desired mapping).getLsbD maximumBit)
    (hb : (rtlMapGenericMask (unowned ctx.token sd desired) mapping).getLsbD b) (hnot : gv.getLsbD b = false)
    (hne : b ≠ maximumBit) : Allowed ctx.token mapping aces b := by
  have hle (b : Nat) (hb : (rtlMapGenericMask (unowned ctx.token sd desired) mapping).getLsbD b)
      (hnot : gv.getLsbD b = false) : LeftToDacl ctx.token sd mapping desired b := by
    rw [← left_iff hbt, getLsbD_and, getLsbD_not, hb, hnot]
    simpa using lt_of_getLsbD hb
  have hml := hle maximumBit (map_desired_maximum.symm.trans hm) (eq_false_iff.mpr fun hg =>
    (privilege_bit hbt hg).2 rfl)
  exact not_not.mp fun hno => h (.maximum b hml (hle b hb hnot) hne hno)

end

section
variable (hpresent : sd.DaclPresent = true) (hdacl : sd.Dacl = some aces) (hmax : desired &&& maximumAllowed = 0)
include hpresent hdacl hmax

lemma granted_of_not_refused (h : ¬ Refused sd ctx mapping desired previous aces) :
    (rtlMapGenericMask desired mapping = 0 ∧ ∃ r,
      seAccessCheck (some sd) ctx desired previous mapping true = some (false, r)) ∨
      ∃ g, seAccessCheck (some sd) ctx desired previous mapping true = some (true, ⟨some g, .success⟩) ∧
        ((rtlMapGenericMask desired mapping).getLsbD maximumBit = false →
          rtlMapGenericMask g mapping = rtlMapGenericMask previous mapping ||| rtlMapGenericMask desired mapping) ∧
        ((rtlMapGenericMask desired mapping).getLsbD maximumBit →
          ∀ b, (rtlMapGenericMask g mapping).getLsbD b ↔ (rtlMapGenericMask previous mapping).getLsbD b ∨
            (rtlMapGenericMask desired mapping).getLsbD b ∧ b ≠ maximumBit ∨ Allowed ctx.token mapping aces b) := by
  have hlv : ¬ (ctx.ClientToken.isSome ∧ ctx.ImpersonationLevel < securityImpersonation) :=
    fun hl => h (.level hl.1 hl.2)
  rw [seAccessCheck_eq hmax hlv (owner_ne_none h)]
  dsimp only
  split
  · -- only rights of the owner are desired
    rename_i hz
    have hal := @map_desired_owned mapping ctx.token sd desired hz
    split
    · rename_i hnt
      refine .inl ⟨mask_eq_zero.mpr fun b => ?_, _, rfl⟩
      have hb := mask_eq_zero.mp hnt b
      rw [getLsbD_or, or_eq_false_iff] at hb
      rw [hal, hb.2]
    refine .inr ⟨_, rfl, fun _ => ?_, fun hma => ?_⟩
    · rw [map_or, map_owned, hal]
    · rw [hal] at hma
      exact absurd rfl (owned_ne_maximum hma)
  rename_i hz
  obtain ⟨gv, hgi, hbt⟩ := privilegePolicy_spec fun hp => h (.privilege hp.1 hp.2)
  have hlf (b : Nat) := @left_iff mapping b ctx.token sd desired gv hbt
  obtain ⟨g, heq, hpl, hmx⟩ := @sepAccessCheck_granted mapping aces sd ctx _
    (previous ||| (desired &&& ~~~unowned ctx.token sd desired)) hpresent hdacl hz gv hgi (fun b =>
      privilege_bit hbt) _ rfl
    (fun hne => by
      obtain ⟨b, hb⟩ := mask_ne_zero.mp hne
      exact not_not.mp fun hr => h (.revision b ((hlf b).mp hb) hr))
    (fun hnl b hb => not_not.mp fun hne => h (.empty b hnl ((hlf b).mp hb) hne))
    (fun hm b hb hne => not_not.mp fun hnot => h (.maximum b ((hlf _).mp hm) ((hlf b).mp hb) hne hnot))
    (exists_granted hbt h)
  rw [← map_desired_maximum] at hpl hmx
  have hs : rtlMapGenericMask g mapping = g := by
    refine map_of_bits fun b hb => ?_
    cases hm : (rtlMapGenericMask desired mapping).getLsbD maximumBit with
    | false =>
      rw [hpl hm, getLsbD_or, or_eq_true] at hb
      rcases hb with hb | hb <;> exact not_generic_of_map hb
    | true =>
      rcases (hmx hm b).mp hb with hb | hb | hb
      · exact not_generic_of_map hb
      · exact not_generic_of_map (privilege_bit hbt hb).1
      · exact hb.not_generic
  have hds (b : Nat) := congrArg (getLsbD · b) (@map_desired mapping ctx.token sd desired)
  simp only [getLsbD_or] at hds
  rw [map_or, map_owned] at hpl hmx
  refine .inr ⟨g, by rw [heq]; rfl, fun hm => ?_, fun hm b => ?_⟩
  · rw [hs, hpl hm]
    refine mask_ext fun b => ?_
    grind
  have ha : (rtlMapGenericMask (unowned ctx.token sd desired) mapping).getLsbD b →
    gv.getLsbD b = false → b ≠ maximumBit →
      Allowed ctx.token mapping aces b := allowed_of_left hbt h hm
  have ho := @owned_ne_maximum b ctx.token sd desired
  have hpb : gv.getLsbD b → (rtlMapGenericMask (unowned ctx.token sd desired) mapping).getLsbD b ∧ b ≠ maximumBit :=
    privilege_bit hbt
  grind

lemma refused_fails (h : Refused sd ctx mapping desired previous aces) (r : AccessResult) :
    seAccessCheck (some sd) ctx desired previous mapping true ≠ some (true, r) := by
  intro hrs
  by_cases hlv : ctx.ClientToken.isSome ∧ ctx.ImpersonationLevel < securityImpersonation
  · simp [seAccessCheck, hlv] at hrs
  by_cases hn : desired &&& (writeDac ||| readControl) ≠ 0 ∧ sepTokenIsOwner ctx.token sd = none
  · simp [seAccessCheck, hlv, ownerRights_none hn.1 hn.2] at hrs
  rw [not_and] at hn
  rw [seAccessCheck_eq hmax hlv hn] at hrs
  have hs : unowned ctx.token sd desired ≠ 0 → (sepAccessCheck sd ctx (unowned ctx.token sd desired)
      (previous ||| (desired &&& ~~~unowned ctx.token sd desired)) mapping).2 = .success := fun hz => by
    simp only [if_neg hz, some.injEq, Prod.mk.injEq, beq_iff_eq] at hrs
    exact hrs.1
  have hz : ∀ {b : Nat}, (rtlMapGenericMask (unowned ctx.token sd desired) mapping).getLsbD b →
      unowned ctx.token sd desired ≠ 0 := fun {b} hb heq => by
    rw [heq, map_zero, mask_eq_zero.mp rfl b] at hb
    cases hb
  cases h with
  | level hc hlw => exact hlv ⟨hc, hlw⟩
  | noOwner hd ho => exact hn hd (by rw [sepTokenIsOwner, ho]; rfl)
  | restricted s hd ho hin hr =>
    refine hn hd ?_
    rw [sepTokenIsOwner, ho, bind_eq_bind, bind_some, hin, hr]
    rfl
  | privilege hd hp =>
    obtain ⟨b, hb⟩ := mask_ne_zero.mp hd
    rw [getLsbD_and, and_eq_true] at hb
    exact absurd (hs (hz hb.1)) (by rw [check_privilege (hz hb.1) ⟨hd, hp⟩]; decide)
  | revision b hl hrv => exact check_refused hpresent hdacl (hz hl.1) hl (.inl hrv) (hs (hz hl.1))
  | empty b hnl hl hne =>
    exact check_refused hpresent hdacl (hz hl.1) hl (.inr (.inl ⟨hnl, hne⟩)) (hs (hz hl.1))
  | maximum b hm hl hne hnt =>
    exact check_refused hpresent hdacl (hz hl.1) hl (.inr (.inr ⟨hm, .inl ⟨hne, hnt⟩⟩)) (hs (hz hl.1))
  | nothing hm hno hsm ha =>
    refine check_refused hpresent hdacl (hz hm.1) hm
      (.inr (.inr ⟨hm, .inr ⟨fun b => ⟨?_, (hno b).2⟩, ?_⟩⟩)) (hs (hz hm.1))
    · rw [hsm, map_or, BitVec.getLsbD_or, (hno b).1, Bool.false_or, BitVec.and_not_self, map_zero]
      exact mask_eq_zero.mp rfl b
    · rwa [hsm]

end

/-- Neither the owner nor a privilege gives `MAXIMUM_ALLOWED`. -/
lemma justified_maximum (h : Justified token sd mapping previous aces maximumBit) :
    (rtlMapGenericMask previous mapping).getLsbD maximumBit ∨ Allowed token mapping aces maximumBit := by
  cases h with
  | previous h => exact .inl h
  | allowed h => exact .inr h
  | security h => cases h
  | takeOwnership h => cases h
  | owner s h => cases h

/-- In user mode, a check of rights against a list of entries succeeds only with rights that are
allowed, and grants these and the previous ones, exactly if it is refused or the rights are
allowed. -/
theorem accessCheck_enforced_iff (hpresent : sd.DaclPresent = true) (hdacl : sd.Dacl = some aces)
    (hmax : desired &&& maximumAllowed = 0) :
    (∀ granted status, seAccessCheck (some sd) ctx desired previous mapping true = some (true,
      ⟨some granted, status⟩) →
      (∀ b, (rtlMapGenericMask desired mapping).getLsbD b = true → Justified ctx.token sd mapping previous aces b) ∧
      rtlMapGenericMask granted mapping =
        rtlMapGenericMask previous mapping ||| rtlMapGenericMask desired mapping) ↔
    Refused sd ctx mapping desired previous aces ∨
      (∀ b, (rtlMapGenericMask desired mapping).getLsbD b = true → Justified ctx.token sd mapping previous aces b) ∧
      ((rtlMapGenericMask desired mapping).getLsbD maximumBit = true → ∀ b, Allowed ctx.token mapping aces b →
        (rtlMapGenericMask previous mapping).getLsbD b = true ∨
          (rtlMapGenericMask desired mapping).getLsbD b = true) := by
  by_cases hrf : Refused sd ctx mapping desired previous aces
  · refine ⟨fun _ => .inl hrf, fun _ granted status hr => ?_⟩
    exact absurd hr (refused_fails hpresent hdacl hmax hrf _)
  rw [or_iff_right hrf]
  rcases granted_of_not_refused hpresent hdacl hmax hrf with ⟨hz, r, hr⟩ | ⟨granted, hr, hp, hmx⟩
  · have hn (b : Nat) : ¬ (rtlMapGenericMask desired mapping).getLsbD b = true := by
      rw [mask_eq_zero.mp hz b]
      decide
    refine ⟨fun _ => ⟨fun b hb => absurd hb (hn b), fun hb => absurd hb (hn _)⟩, fun _ granted status hr' => ?_⟩
    rw [hr] at hr'
    simp at hr'
  constructor
  · intro h
    obtain ⟨hj, heq⟩ := h granted .success hr
    refine ⟨hj, fun hm b hb => ?_⟩
    have hb := (hmx hm b).mpr (.inr (.inr hb))
    rwa [heq, getLsbD_or, or_eq_true] at hb
  intro ⟨hj, ha⟩ granted' status hr'
  rw [hr] at hr'
  cases hr'
  refine ⟨hj, ?_⟩
  cases hm : (rtlMapGenericMask desired mapping).getLsbD maximumBit with
  | false => exact hp hm
  | true =>
    refine mask_ext fun b => ?_
    have hb' : b = maximumBit → (rtlMapGenericMask previous mapping).getLsbD b = true ∨
      Allowed ctx.token mapping aces b := by
      rintro rfl
      exact justified_maximum (hj _ hm)
    rw [getLsbD_or]
    grind

/-- A token of one user. -/
def userToken (sid : Sid) : Token :=
  ⟨[⟨sid, seGroupEnabled⟩], [], .primary, 0, false⟩

/-- A descriptor with one entry, for one right. -/
def oneEntry (type : AceType) (sid : Sid) : SecurityDescriptor :=
  ⟨securityDescriptorRevision, false, true, none, none, some [⟨type, false, 1, sid⟩]⟩

/-- With an entry that allows the right, the check is enforced. -/
theorem accessCheck_enforced_allow :
    let sid : Sid := ⟨1, 5, [18]⟩
    let ctx : SubjectContext := ⟨none, 0, userToken sid⟩
    seAccessCheck (some (oneEntry .accessAllowed sid)) ctx 1 0 ⟨0, 0, 0, 0⟩ true = some (true, ⟨some 1, .success⟩) ∧
    ∀ g s, seAccessCheck (some (oneEntry .accessAllowed sid)) ctx 1 0 ⟨0, 0, 0, 0⟩ true = some (true, ⟨some g, s⟩) →
      (∀ b, (rtlMapGenericMask 1 ⟨0, 0, 0, 0⟩).getLsbD b = true →
        Justified ctx.token (oneEntry .accessAllowed sid) ⟨0, 0, 0, 0⟩ 0 [⟨.accessAllowed, false, 1, sid⟩] b) ∧
      rtlMapGenericMask g ⟨0, 0, 0, 0⟩ = rtlMapGenericMask 0 ⟨0, 0, 0, 0⟩ ||| rtlMapGenericMask 1 ⟨0, 0, 0, 0⟩ := by
  refine ⟨by decide, (accessCheck_enforced_iff rfl rfl (by decide)).mpr (.inr ⟨fun b hb => ?_, fun hb => ?_⟩)⟩
  · exact .allowed ⟨[], _, [], rfl, ⟨rfl, rfl, by decide, hb⟩, nofun⟩
  · exact absurd hb (by decide)

/-- An entry that denies the right to the user does not stop the check from granting it. -/
theorem accessCheck_enforced_fails :
    let sid : Sid := ⟨1, 5, [18]⟩
    let ctx : SubjectContext := ⟨none, 0, userToken sid⟩
    let sd := oneEntry .accessDenied sid
    sd.DaclPresent = true ∧ (1 : AccessMask) &&& maximumAllowed = 0 ∧
      seAccessCheck (some sd) ctx 1 0 ⟨0, 0, 0, 0⟩ true = some (true, ⟨some 1, .success⟩) ∧
      ¬ Justified ctx.token sd ⟨0, 0, 0, 0⟩ 0 [⟨.accessDenied, false, 1, sid⟩] 0 := by
  refine ⟨by decide, by decide, by decide, fun h => ?_⟩
  cases h with
  | previous h => exact absurd h (by decide)
  | security h => exact absurd h (by decide)
  | takeOwnership h => exact absurd h (by decide)
  | owner sid h => exact absurd h (by decide)
  | allowed h =>
    rcases allowed_cons.mp h with hg | ⟨-, hn⟩
    · exact absurd hg.2.1 (by decide)
    · exact not_allowed_nil hn

end FreeNT.Se
