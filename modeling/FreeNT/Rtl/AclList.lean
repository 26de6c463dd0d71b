import FreeNT.Rtl.AclWalk

/-!
# The list of ACEs in an ACL

An ACE is a byte string whose size field is its length (`Whole`), and it is
`AceOk` if it passes the tests of `RtlValidAcl` wherever it stands. `AclHolds`
says that an ACL holds a list of such strings; the walks of the routines are
then sums of lengths (`skipAces_laid`, `freeLoop_laid`, `validLoop_laid`).
-/

namespace FreeNT.Rtl

open Mem List Option

variable {m m' : Mem} {al a s i n : Nat} {e : List Byte} {ac : List (List Byte)}

/-- A byte string with an ACE header whose size field is the length of the string. -/
structure Whole (e : List Byte) : Prop where
  header : 4 ≤ e.length
  size : (e.getD 2 0).toNat + 2 ^ 8 * (e.getD 3 0).toNat = e.length

/-- The string passes the tests of `RtlValidAcl` on the ACE alone. -/
structure AceOk (e : List Byte) : Prop extends Whole e where
  even : e.length % 2 = 0
  plain : (e.getD 0 0).toNat ≤ 3 → e.length % 4 = 0 ∧ (e.getD 8 0).toNat = 1 ∧
    (e.getD 9 0).toNat ≤ 15 ∧ 12 + 4 * (e.getD 9 0).toNat ≤ e.length

/-- A list of ACEs that ends at `stop` does not end with a bare header there. -/
def NotFlush (stop a : Nat) (aces : List (List Byte)) : Prop :=
  a + aces.flatten.length = stop → ∀ e, aces.getLast? = some e → e.length ≠ 4

section

variable (h : Holds m a e)

include h

lemma aceSize_eq (he : Whole e) : aceSize m a = e.length := by
  have := he.header
  unfold aceSize
  rw [h.readUshort (by omega), he.size]

lemma aceType_eq (he : Whole e) : aceType m a = (e.getD 0 0).toNat := by
  have := he.header
  have := h 0 (by omega)
  rw [Nat.add_zero] at this
  rw [aceType, this]

lemma sid_eq (hl : 12 ≤ e.length) :
    sidRevision m (a + 8) = (e.getD 8 0).toNat ∧ subAuthorityCount m (a + 8) = (e.getD 9 0).toNat := by
  refine ⟨?_, ?_⟩
  · rw [sidRevision, h 8 (by omega)]
  · rw [subAuthorityCount, Nat.add_assoc, h 9 (by omega)]

lemma validAce_holds (he : Whole e) : validAce m s a ↔ a + 4 < s ∧ a + e.length ≤ s ∧ AceOk e := by
  have hh := he.header
  rw [validAce_iff, aceSize_eq h he, aceType_eq h he]
  constructor
  · rintro ⟨hs, hev, hst, hp, -⟩
    refine ⟨hs, hst, he, hev, fun ht => ?_⟩
    obtain ⟨h4, hrv, hcn, hln⟩ := hp ht
    have hl : 12 ≤ e.length := by unfold rtlLengthSid at hln; omega
    rw [rtlLengthSid, (sid_eq h hl).2] at hln
    rw [(sid_eq h hl).1] at hrv
    rw [(sid_eq h hl).2] at hcn
    exact ⟨h4, hrv, hcn, by omega⟩
  rintro ⟨hs, hst, hok⟩
  refine ⟨hs, hok.even, hst, fun ht => ?_, fun _ => hh⟩
  obtain ⟨h4, hrv, hcn, hln⟩ := hok.plain ht
  obtain ⟨hr, hc⟩ := sid_eq h (show 12 ≤ e.length by omega)
  rw [rtlLengthSid, hr, hc]
  exact ⟨h4, hrv, hcn, by omega⟩

end

section Walks

variable (hw : ∀ e ∈ ac, Whole e) (h : Holds m a ac.flatten)
include hw h

lemma skipAces_laid (hn : n ≤ ac.length) : skipAces m n a = a + (ac.take n).flatten.length := by
  induction ac generalizing a n with
  | nil => obtain rfl : n = 0 := by simpa using hn
           rfl
  | cons e r ih =>
    cases n with
    | zero => rfl
    | succ n =>
      obtain ⟨h1, h2⟩ := holds_append.mp h
      rw [skipAces, aceSize_eq h1 (hw e (mem_cons_self ..)),
        ih (fun e he => hw e (mem_cons_of_mem _ he)) h2 (Nat.le_of_succ_le_succ hn),
        take_succ_cons, flatten_cons, length_append, Nat.add_assoc]

lemma freeLoop_laid (hs : a + ac.flatten.length ≤ s) (hn : n ≤ ac.length) :
    freeLoop m s n a = some (a + (ac.take n).flatten.length) := by
  induction ac generalizing a n with
  | nil => obtain rfl : n = 0 := by simpa using hn
           rfl
  | cons e r ih =>
    cases n with
    | zero => rfl
    | succ n =>
      rw [flatten_cons] at h hs
      rw [length_append] at hs
      obtain ⟨h1, h2⟩ := holds_append.mp h
      have he := hw e (mem_cons_self ..)
      have := he.header
      rw [freeLoop, if_neg (by omega), aceSize_eq h1 he,
        ih (fun e he => hw e (mem_cons_of_mem _ he)) h2 (by omega) (Nat.le_of_succ_le_succ hn),
        take_succ_cons, flatten_cons, length_append, Nat.add_assoc]

lemma validLoop_laid (hst : a + ac.flatten.length ≤ s) :
    validLoop m s ac.length a ↔ (∀ e ∈ ac, AceOk e) ∧ NotFlush s a ac := by
  induction ac generalizing a with
  | nil => simp [validLoop, NotFlush]
  | cons e r ih =>
    rw [flatten_cons] at h hst
    rw [length_append] at hst
    obtain ⟨h1, h2⟩ := holds_append.mp h
    have he := hw e (mem_cons_self ..)
    have hh := he.header
    rw [length_cons, validLoop, Bool.and_eq_true, validAce_holds h1 he, aceSize_eq h1 he,
      ih (fun e he => hw e (mem_cons_of_mem _ he)) h2 (by omega), forall_mem_cons]
    have hfl : NotFlush s a (e :: r) ↔ a + 4 < s ∧ NotFlush s (a + e.length) r := by
      unfold NotFlush
      rw [flatten_cons, length_append, ← Nat.add_assoc]
      cases r with
      | nil =>
        simp only [flatten_nil, length_nil, getLast?_singleton, getLast?_nil,
          some.injEq, reduceCtorEq, false_implies, implies_true, and_true, forall_eq']
        omega
      | cons e' r' =>
        -- the next header is inside, so this one is not flush
        have := (hw e' (mem_cons_of_mem _ (mem_cons_self ..))).header
        rw [flatten_cons, length_append] at hst
        exact ⟨fun hf => ⟨by omega, hf⟩, fun hf => hf.2⟩
    rw [hfl]
    constructor
    · rintro ⟨⟨hs, -, hok⟩, hr, hl⟩
      exact ⟨⟨hok, hr⟩, hs, hl⟩
    · rintro ⟨⟨hok, hr⟩, hs, hl⟩
      exact ⟨⟨hs, by omega, hok⟩, hr, hl⟩

end Walks

lemma length_le_flatten (hw : ∀ e ∈ ac, Whole e) : 4 * ac.length ≤ ac.flatten.length := by
  induction ac with
  | nil => simp
  | cons e r ih =>
    have he := (hw e (mem_cons_self ..)).header
    have := ih fun e he => hw e (mem_cons_of_mem _ he)
    rw [flatten_cons, length_append, length_cons]
    omega

/-- The ACL at `acl` has a good header and holds these ACEs. -/
structure AclHolds (m : Mem) (acl : Nat) (aces : List (List Byte)) : Prop where
  revision : 2 ≤ aclRevision m acl ∧ aclRevision m acl ≤ 4
  size : aclSize m acl % 2 = 0 ∧ 8 ≤ aclSize m acl
  count : aceCount m acl = aces.length
  holds : Holds m (acl + 8) aces.flatten
  room : acl + 8 + aces.flatten.length ≤ aclEnd m acl
  whole : ∀ e ∈ aces, Whole e

/-- The ACE that `RtlGetAce` returns. -/
def aceSeen (m : Mem) (acl i : Nat) : Option (List Byte) :=
  (rtlGetAce m acl i).map fun ace => m.bytes ace (aceSize m ace)

def acesSeen (m : Mem) (acl : Nat) : List (Option (List Byte)) :=
  (List.range (aceCount m acl)).map (aceSeen m acl)

namespace AclHolds

variable (h : AclHolds m al ac)
include h

lemma valid_iff : rtlValidAcl m al ↔ (∀ e ∈ ac, AceOk e) ∧ NotFlush (aclEnd m al) (al + 8) ac := by
  rw [rtlValidAcl_iff, h.count, validLoop_laid h.whole h.holds h.room]
  exact ⟨fun hv => hv.2.2.2.2, fun hv => ⟨h.revision.1, h.revision.2, h.size.1, h.size.2, hv⟩⟩

lemma aceAt_eq (hi : i ≤ ac.length) : aceAt m al i = al + 8 + (ac.take i).flatten.length :=
    skipAces_laid h.whole h.holds hi

lemma aceAt_count : aceAt m al (aceCount m al) = al + 8 + ac.flatten.length := by
  rw [h.aceAt_eq (by rw [h.count]), h.count, take_length]

lemma firstFree : rtlFirstFreeAce m al = some (some (al + 8 + ac.flatten.length)) := by
  have hr := h.room
  rw [rtlFirstFreeAce, h.count, freeLoop_laid h.whole h.holds hr (Nat.le_refl _), take_length, map_some, if_pos hr]

lemma split (hi : i < ac.length) : Holds m (al + 8 + (ac.take i).flatten.length) (ac.getD i []) ∧
    Holds m (al + 8 + (ac.take i).flatten.length + (ac.getD i []).length) (ac.drop (i + 1)).flatten ∧
    ac.flatten.length = (ac.take i).flatten.length + (ac.getD i []).length +
      (ac.drop (i + 1)).flatten.length := by
  have hs : ac = ac.take i ++ ac.getD i [] :: ac.drop (i + 1) := by
    rw [getD_eq_getElem _ _ hi, getElem_cons_drop, take_append_drop]
  have hf : ac.flatten = (ac.take i).flatten ++ (ac.getD i [] ++ (ac.drop (i + 1)).flatten) := by
    conv_lhs => rw [hs]
    rw [flatten_append, flatten_cons]
  have hh := h.holds
  rw [hf] at hh
  obtain ⟨-, hr⟩ := holds_append.mp hh
  obtain ⟨ha, ht⟩ := holds_append.mp hr
  refine ⟨ha, ht, ?_⟩
  rw [hf, length_append, length_append, Nat.add_assoc]

lemma aceSeen_eq (hi : i < ac.length) : aceSeen m al i = some (ac.getD i []) := by
  have hr := h.room
  obtain ⟨ha, -, hl⟩ := h.split hi
  have hm : ac.getD i [] ∈ ac := by rw [getD_eq_getElem _ _ hi]; exact getElem_mem hi
  have hw := h.whole _ hm
  have := hw.header
  have hg : rtlGetAce m al i = some (al + 8 + (ac.take i).flatten.length) := by
    rw [rtlGetAce, if_neg (by have := h.revision; have := h.count; omega),
      freeLoop_laid h.whole h.holds hr (Nat.le_of_lt hi)]
    exact if_neg (by omega)
  rw [aceSeen, hg, map_some, aceSize_eq ha hw, ha.bytes_eq]

lemma acesSeen_eq : acesSeen m al = ac.map some := by
  apply ext_getElem?
  intro i
  rw [acesSeen, h.count]
  by_cases hi : i < ac.length
  · rw [getElem?_map, getElem?_range hi, map_some, h.aceSeen_eq hi, getElem?_map,
      getElem?_eq_getElem hi, getD_eq_getElem _ _ hi, map_some]
  · rw [getElem?_eq_none (by simp only [length_map, length_range]; omega),
      getElem?_eq_none (by rw [length_map]; omega)]

end AclHolds

end FreeNT.Rtl
