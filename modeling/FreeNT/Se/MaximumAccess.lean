import FreeNT.Se.AccessIsolation

/-!
# The maximum access, and the fast traverse check

With `MAXIMUM_ALLOWED` alone, `SepAccessCheck` grants the rights for which the first entry that applies allows.
Entries that deny should also apply to deny-only groups, but the check looks for these with `Deny = FALSE`.
`SeFastTraverseCheck` does not map the generic flags of the entries.
-/

namespace FreeNT.Se

open List

/-! ## The first entry -/

/-- The entry applies to the right `b`; with `deny`, an entry that denies applies to deny-only groups too. -/
def applies (deny : Bool) (token : Token) (mapping : GenericMapping) (b : Nat) (ace : Ace) : Bool :=
  !ace.InheritOnly && (rtlMapGenericMask ace.AccessMask mapping).getLsbD b &&
    match ace.AceType with
    | .accessAllowed => sidInList ace.Sid false true token.UserAndGroups
    | .accessDenied => sidInList ace.Sid deny true token.UserAndGroups
    | .other => false

/-- The first entry that applies allows the right. -/
def FirstAllows (deny : Bool) (token : Token) (mapping : GenericMapping) (aces : List Ace) (b : Nat) : Prop :=
  ∃ ace, aces.find? (applies deny token mapping b) = some ace ∧ ace.AceType = .accessAllowed

variable {deny : Bool} {t : Token} {mapping : GenericMapping} {aces : List Ace} {ace : Ace} {b : Nat}

lemma sidInList_deny {s : Sid} {f : Bool} {u : List SidAndAttributes} (h : sidInList s false f u) :
    sidInList s true f u := by
  fun_induction sidInList s false f u <;> grind [sidInList]

lemma gives_iff (tp : AceType) (hne : tp ≠ .other) : Gives tp t mapping ace b ↔
    applies false t mapping b ace ∧ ace.AceType = tp := by
  unfold Gives applies sepSidInToken
  grind

lemma applies_deny (h : applies false t mapping b ace) : applies true t mapping b ace := by
  have := @sidInList_deny ace.Sid true t.UserAndGroups
  unfold applies at h ⊢
  grind

lemma applies_of_sid (h : applies true t mapping b ace)
    (hs : sepSidInToken t ace.Sid ∨ ace.AceType = .accessAllowed) :
    applies false t mapping b ace := by
  unfold applies sepSidInToken at *
  grind

lemma applies_type (h : applies deny t mapping b ace) :
    ace.AceType = .accessAllowed ∨ ace.AceType = .accessDenied := by
  unfold applies at h
  cases ht : ace.AceType <;> simp_all

lemma find?_of_imp {α : Type} {p q : α → Bool} {l : List α} {a : α} (him : ∀ x, q x → p x) (h : l.find? p = some a)
    (ha : q a) : l.find? q = some a := by
  obtain ⟨-, pr, ps, rfl, hp⟩ := find?_eq_some_iff_append.mp h
  refine find?_eq_some_iff_append.mpr ⟨ha, pr, ps, rfl, fun x hx => ?_⟩
  grind

lemma allowed_iff : Allowed t mapping aces b ↔ FirstAllows false t mapping aces b := by
  unfold FirstAllows
  induction aces with
  | nil => simp [not_allowed_nil]
  | cons ace aces ih =>
    rw [allowed_cons, ih, gives_iff .accessAllowed nofun, gives_iff .accessDenied nofun]
    by_cases h : applies false t mapping b ace
    · rcases applies_type h with ht | ht <;> simp [h, ht]
    · simp [h]

/-! ## The maximum access -/

variable {sd : SecurityDescriptor} {ctx : SubjectContext}

lemma not_system_of_maximum (b : Nat) (hs : accessSystemSecurity.getLsbD b) :
    ¬ maximumAllowed.getLsbD b := fun hb => by
  cases bit_systemSecurity.mp hs
  cases hb

lemma maximum_bits (hr : sd.Revision = securityDescriptorRevision) (hp : sd.DaclPresent = true)
    (hd : sd.Dacl = some aces) : (sepAccessCheck sd ctx maximumAllowed 0 mapping).1.getLsbD b ↔
      FirstAllows false ctx.token mapping aces b := by
  have ho (b : Nat) (hb : maximumAllowed.getLsbD b) := bit_maximumAllowed.mp hb
  obtain ⟨g, heq, hg⟩ := @check_maximum _ mapping _ maximumAllowed 0 ctx hr (by decide)
    (map_of_specific rfl) map_zero not_system_of_maximum hp hd (.inl rfl) fun b hb => .inr (.inl (ho b hb))
  have hn : ¬ (maximumAllowed.getLsbD b = true ∧ TakesOwnership ctx.token b) := fun ⟨hb, ht⟩ =>
    not_takes_maximum (ho b hb ▸ ht)
  rw [heq, hg, ← allowed_iff]
  simp [hn]

/-- The maximum access is exact if no right that an entry allows is denied first to a deny-only group. -/
theorem maximumAllowed_exact_iff (hrevision : sd.Revision = securityDescriptorRevision)
    (hpresent : sd.DaclPresent = true)
    (hdacl : sd.Dacl = some aces) :
    (∀ b, (sepAccessCheck sd ctx maximumAllowed 0 mapping).1.getLsbD b = true ↔
      FirstAllows true ctx.token mapping aces b) ↔
      ∀ b ace, aces.find? (applies true ctx.token mapping b) = some ace → ace.AceType = .accessDenied →
        sepSidInToken ctx.token ace.Sid = false → ¬ FirstAllows false ctx.token mapping aces b := by
  simp only [maximum_bits hrevision hpresent hdacl]
  refine forall_congr' fun b => ⟨fun he d hd hdn hs hf => ?_, fun hno => ⟨fun hf => ?_, ?_⟩⟩
  · obtain ⟨a, ha, ht⟩ := he.mp hf
    cases hd.symm.trans ha
    cases ht.symm.trans hdn
  · obtain ⟨a, ha, ht⟩ := hf
    obtain ⟨d, hd⟩ := Option.isSome_iff_exists.mp
      (find?_isSome.mpr ⟨a, mem_of_find?_eq_some ha, applies_deny (find?_some ha)⟩)
    refine ⟨d, hd, (applies_type (find?_some hd)).resolve_right fun hdn => ?_⟩
    by_cases hs : sepSidInToken ctx.token d.Sid
    · -- the entry applies to the check as well
      cases (find?_of_imp (fun _ => applies_deny) hd (applies_of_sid (find?_some hd) (.inl hs))).symm.trans ha
      cases ht.symm.trans hdn
    · exact hno d hd hdn (by simpa using hs) ⟨a, ha, ht⟩
  · rintro ⟨a, ha, ht⟩
    exact ⟨a, find?_of_imp (fun _ => applies_deny) ha (applies_of_sid (find?_some ha) (.inr ht)), ht⟩

/-- A token of a user, with a group that is only for denying. -/
def denyOnlyToken : Token := ⟨[⟨⟨1, 5, [18]⟩, seGroupEnabled⟩,
    ⟨⟨1, 5, [32]⟩, seGroupUseForDenyOnly⟩], [], .primary, 0, false⟩

theorem maximumAllowed_exact_one : (sepAccessCheck (oneEntry .accessAllowed ⟨1, 5, [18]⟩) ⟨none, 0, denyOnlyToken⟩
    maximumAllowed 0 ⟨0, 0, 0, 0⟩).1.getLsbD 0 = true ↔
      FirstAllows true denyOnlyToken ⟨0, 0, 0, 0⟩ [⟨.accessAllowed, false, 1, ⟨1, 5, [18]⟩⟩] 0 :=
  (maximumAllowed_exact_iff rfl rfl rfl).mpr (fun b ace h hd => by
    cases mem_singleton.mp (mem_of_find?_eq_some h)
    cases hd) 0

/-- The group is denied the right first, but the check grants it. -/
theorem maximumAllowed_exact_fails :
    let aces : List Ace := [⟨.accessDenied, false, 1, ⟨1, 5, [32]⟩⟩, ⟨.accessAllowed, false, 1, ⟨1, 5, [18]⟩⟩]
    (sepAccessCheck ⟨securityDescriptorRevision, false, true, none, none, some aces⟩ ⟨none, 0,
      denyOnlyToken⟩ maximumAllowed 0
        ⟨0, 0, 0, 0⟩).1.getLsbD 0 = true ∧ ¬ FirstAllows true denyOnlyToken ⟨0, 0, 0, 0⟩ aces 0 := by
  refine ⟨by decide, ?_⟩
  rintro ⟨ace, h, ht⟩
  cases h
  cases ht

/-! ## The fast traverse check -/

def seWorldSid : Sid := ⟨1, 1, [0]⟩

/-- The loop over the entries, which looks at their masks as they are. -/
def traverseLoop (desired : AccessMask) : List Ace → Bool
  | [] => false
  | ace :: aces =>
    if ace.InheritOnly then traverseLoop desired aces
    else
      match ace.AceType with
      | .accessAllowed =>
        if ace.AccessMask &&& desired = 0 then traverseLoop desired aces
        else if seWorldSid = ace.Sid then true else traverseLoop desired aces
      | .accessDenied => if ace.AccessMask &&& desired ≠ 0 then false else traverseLoop desired aces
      | .other => traverseLoop desired aces

/-- `SeFastTraverseCheck`, which asserts that the caller is in user mode. `restricted` is
`TOKEN_IS_RESTRICTED` of the flags of the access state. -/
def seFastTraverseCheck (sd : Option SecurityDescriptor) (restricted : Bool) (desired : AccessMask)
    (userMode : Bool) :
    Option Bool :=
  if !userMode then none
  else
    match sd with
    | none => some false
    | some sd =>
      match if sd.DaclPresent then sd.Dacl else none with
      | none => some true
      | some [] => some false
      | some aces => if restricted then some false else some (traverseLoop desired aces)

variable {desired : AccessMask}

lemma map_keeps {m : AccessMask} (h : m.getLsbD b) (hg : genericFlags.getLsbD b = false) :
    (rtlMapGenericMask m mapping).getLsbD b := by
  have hf (f r m : AccessMask) (h : m.getLsbD b) : (mapFlag f r m).getLsbD b := by
    unfold mapFlag
    split <;> simp [h]
  change (_ &&& ~~~genericFlags).getLsbD b
  rw [BitVec.getLsbD_and, BitVec.getLsbD_not, hg, decide_eq_true (BitVec.lt_of_getLsbD h),
    Bool.not_false, Bool.and_true,
    Bool.and_true]
  exact hf _ _ _ (hf _ _ _ (hf _ _ _ (hf _ _ _ h)))

/-- The loop finds an entry that allows the right to all, and before it no entry with the right that denies. -/
lemma traverseLoop_true (hd : ∀ i, desired.getLsbD i = true ↔ i = b) (h : traverseLoop desired aces) :
    ∃ pr ace p, aces = pr ++ ace :: p ∧ ace.InheritOnly = false ∧ ace.AceType = .accessAllowed ∧
      ace.Sid = seWorldSid ∧ ace.AccessMask.getLsbD b = true ∧
      ∀ d ∈ pr, d.InheritOnly = false → d.AceType = .accessDenied → d.AccessMask.getLsbD b = false := by
  have hb (m : AccessMask) : m &&& desired = 0 ↔ m.getLsbD b = false := by
    rw [← not_iff_not, ← ne_eq, and_bit_ne_zero hd, Bool.not_eq_false]
  fun_induction traverseLoop desired aces with
  | case1 => cases h
  | case4 ace aces hin ht hm hs =>
    exact ⟨[], ace, aces, rfl, by simpa using hin, ht, hs.symm, by simpa using mt (hb _).mpr hm, nofun⟩
  | case6 => cases h
  | case2 ace aces _ ih | case3 ace aces _ _ _ ih | case5 ace aces _ _ _ _ ih
  | case7 ace aces _ _ _ ih | case8 ace aces _ _ ih =>
    obtain ⟨pr, a, p, rfl, hr⟩ := ih h
    refine ⟨ace :: pr, a, p, rfl, ?_⟩
    grind

/-- The descriptor is of a known revision and, with a list of entries, the right is not a generic
flag and is not denied first by an entry without it in its own mask. -/
def Visible (sd : SecurityDescriptor) (token : Token) (mapping : GenericMapping) (b : Nat) : Prop :=
  sd.Revision = securityDescriptorRevision ∧ ∀ aces, sd.DaclPresent = true → sd.Dacl = some aces →
    genericFlags.getLsbD b = false ∧ ∀ d, aces.find? (applies false token mapping b) = some d →
      d.AceType = .accessDenied → d.AccessMask.getLsbD b = true

/-- The right that the fast check gives is in the maximum access if what denies it is visible. -/
theorem seFastTraverseCheck_granted_iff {restricted : Bool} (hdesired : ∀ i, desired.getLsbD i = true ↔ i = b)
    (hall : mapping.GenericAll.getLsbD b = true) (hworld : sepSidInToken ctx.token seWorldSid = true)
    (hfast : seFastTraverseCheck (some sd) restricted desired true = some true) :
    (sepAccessCheck sd ctx maximumAllowed 0 mapping).1.getLsbD b = true ↔ Visible sd ctx.token mapping b := by
  unfold Visible
  by_cases hr : sd.Revision = securityDescriptorRevision
  swap
  · refine iff_of_false ?_ fun h => hr h.1
    have hpl : sePrivilegePolicyCheck maximumAllowed ctx.token = some 0 := rfl
    have hne : maximumAllowed ≠ 0 := by decide
    simp only [sepAccessCheck, @map_of_specific maximumAllowed mapping rfl, hpl, if_neg hne, if_pos hr, ne_eq,
      not_true, if_false]
    split_ifs <;> simp
  rw [and_iff_right hr]
  have hn (hdc : sd.DaclPresent = false ∨ sd.Dacl = none) :
      (sepAccessCheck sd ctx maximumAllowed 0 mapping).1.getLsbD b = true := by
    rw [check_unprotected hr (by decide) (map_of_specific rfl) map_zero not_system_of_maximum hdc,
      if_pos (by decide)]
    simp [hall]
  by_cases hp : sd.DaclPresent
  swap
  · exact iff_of_true (hn (.inl (by simpa using hp))) fun _ h => absurd h hp
  cases hdc : sd.Dacl with
  | none => exact iff_of_true (hn (.inr hdc)) (by simp)
  | some aces =>
    simp only [hp, Option.some.injEq, forall_const, forall_eq']
    rw [maximum_bits hr hp hdc]
    have hl : traverseLoop desired aces := by
      unfold seFastTraverseCheck at hfast
      grind
    obtain ⟨p, a, ps, rfl, hin, ht, hs, hm, hpr⟩ := traverseLoop_true hdesired hl
    constructor
    · intro hf
      refine ⟨(allowed_iff.mpr hf).not_generic, fun d hd hdn => ?_⟩
      obtain ⟨a', ha', ht'⟩ := hf
      cases hd.symm.trans ha'
      cases ht'.symm.trans hdn
    rintro ⟨hg, hrw⟩
    have ha : applies false ctx.token mapping b a :=
      ((gives_iff .accessAllowed nofun).mp ⟨hin, ht, hs ▸ hworld, map_keeps hm hg⟩).1
    rw [FirstAllows]
    rw [find?_append, find?_cons_of_pos ha] at hrw ⊢
    cases hd : p.find? (applies false ctx.token mapping b) with
    | none => exact ⟨a, rfl, ht⟩
    | some d =>
      -- an entry before that denies has the right in its own mask, but then the loop ends at it
      rw [hd] at hrw
      have hap := find?_some hd
      refine ⟨d, rfl, (applies_type hap).resolve_right fun hdn => ?_⟩
      have hin : d.InheritOnly = false := by
        unfold applies at hap
        grind
      cases (hrw d rfl hdn).symm.trans (hpr d (mem_of_find?_eq_some hd) hin hdn)

/-- A descriptor with an entry for all users at the end. -/
def worldAfter (aces : List Ace) : SecurityDescriptor :=
  ⟨securityDescriptorRevision, false, true, none, none, some (aces ++ [⟨.accessAllowed, false, 1, seWorldSid⟩])⟩

theorem seFastTraverseCheck_granted_world : seFastTraverseCheck (some (worldAfter [])) false 1 true = some true ∧
    ((sepAccessCheck (worldAfter []) ⟨none, 0, userToken seWorldSid⟩ maximumAllowed 0 ⟨0, 0, 0,
      1⟩).1.getLsbD 0 = true ↔
      Visible (worldAfter []) (userToken seWorldSid) ⟨0, 0, 0, 1⟩ 0) :=
  ⟨rfl, @seFastTraverseCheck_granted_iff _ 0 _ ⟨none, 0,
    userToken seWorldSid⟩ 1 false (by simp [BitVec.getLsbD_one]) rfl rfl rfl⟩

/-- An entry that denies all with a generic flag comes first. -/
theorem seFastTraverseCheck_granted_fails :
    let sd := worldAfter [⟨.accessDenied, false, genericAll, seWorldSid⟩]
    seFastTraverseCheck (some sd) false 1 true = some true ∧
      sepSidInToken (userToken seWorldSid) seWorldSid = true ∧
      (sepAccessCheck sd ⟨none, 0, userToken seWorldSid⟩ maximumAllowed 0 ⟨0, 0, 0, 1⟩).1.getLsbD 0 = false := by
  decide

end FreeNT.Se
