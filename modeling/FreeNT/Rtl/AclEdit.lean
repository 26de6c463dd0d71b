import FreeNT.Rtl.AclList

/-!
# Editing an ACL

What `RtlCreateAcl`, `RtlAddAce`, `RtlDeleteAce` and the two workers of the
known-ACE routines do to the list of ACEs of an ACL.
-/

namespace FreeNT.Rtl

open Mem List Option

variable {m m' sr sd : Mem} {al a s i n : Nat} {e bs cs : List Byte} {ac nw : List (List Byte)}

lemma AclHolds.edit (h : AclHolds m al ac) (hrv : 2 ≤ aclRevision m' al ∧ aclRevision m' al ≤ 4)
    (hsz : aclSize m' al = aclSize m al) (hc : aceCount m' al = nw.length)
    (hh : Holds m' (al + 8) nw.flatten)
    (hr : al + 8 + nw.flatten.length ≤ aclEnd m al) (hw : ∀ e ∈ nw, Whole e) :
    AclHolds m' al nw ∧ aclEnd m' al = aclEnd m al := by
  have he : aclEnd m' al = aclEnd m al := by rw [aclEnd, hsz, aclEnd]
  exact ⟨⟨hrv, by rw [hsz]; exact h.size, hc, hh, by rw [he]; exact hr, hw⟩, he⟩

lemma header_written (h : Agree m m' al 8) (c rv : Nat) :
    let m2 := (m'.writeUshort (al + 4) c).writeUchar al rv
    aclRevision m2 al = rv % 2 ^ 8 ∧ aclSize m2 al = aclSize m al ∧ aceCount m2 al = c % 2 ^ 16 ∧
      ∀ bs, Holds m' (al + 8) bs → Holds m2 (al + 8) bs := by
  refine ⟨?_, ?_, ?_, fun bs hbs => ?_⟩
  · rw [aclRevision, writeUchar_self, BitVec.toNat_ofNat]
  · rw [aclSize, readUshort_congr (writeUchar_sep _ _ (by omega)),
      readUshort_congr (writeUshort_sep _ _ (by omega)), readUshort_congr (h.sub (by omega) (by omega)), aclSize]
  · rw [aceCount, readUshort_congr (writeUchar_sep _ _ (by omega)), readUshort_self]
  · exact (hbs.congr (writeUshort_sep _ _ (by omega))).congr (writeUchar_sep _ _ (by omega))

section Create

variable {z rv : Nat}

lemma create_cases : rtlCreateAcl m al z rv = (m', .success) ↔
    8 ≤ z ∧ z ≤ 65535 ∧ 2 ≤ rv ∧ rv ≤ 4 ∧
      m' = ((((m.writeUshort (al + 2) ((z + 3) / 4 * 4)).writeUchar al rv).writeUshort (al + 4)
        0).writeUchar (al + 1) 0).writeUshort (al + 6) 0 := by
  unfold rtlCreateAcl
  split <;> [skip; split]
  case isFalse.isFalse =>
    simp only [Prod.mk.injEq, and_true]
    exact ⟨fun h => ⟨by omega, by omega, by omega, by omega, h.symm⟩, fun h => h.2.2.2.2.symm⟩
  all_goals
    simp only [Prod.mk.injEq, reduceCtorEq, and_false, false_iff]
    omega

variable (h : rtlCreateAcl m al z rv = (m', .success))

include h

lemma create_header :
    aclRevision m' al = rv ∧ aclSize m' al = (z + 3) / 4 * 4 % 2 ^ 16 ∧ aceCount m' al = 0 := by
  obtain ⟨-, -, hr, hr', rfl⟩ := create_cases.mp h
  refine ⟨?_, ?_, ?_⟩
  · rw [aclRevision, writeUshort_sep _ _ (show al + 1 ≤ al + 6 ∨ _ by omega) al (by omega) (by omega),
      writeUchar_sep _ _ (show al + 1 ≤ al + 1 ∨ _ by omega) al (by omega) (by omega),
      writeUshort_sep _ _ (show al + 1 ≤ al + 4 ∨ _ by omega) al (by omega) (by omega), writeUchar_self,
      BitVec.toNat_ofNat]
    omega
  · rw [aclSize, readUshort_congr (writeUshort_sep _ _ (by omega)),
      readUshort_congr (writeUchar_sep _ _ (by omega)), readUshort_congr (writeUshort_sep _ _ (by omega)),
      readUshort_congr (writeUchar_sep _ _ (by omega)), readUshort_self]
  · rw [aceCount, readUshort_congr (writeUshort_sep _ _ (by omega)),
      readUshort_congr (writeUchar_sep _ _ (by omega)), readUshort_self, Nat.zero_mod]

/-- A size near the largest USHORT is rounded up to 0. -/
lemma create_valid_iff : rtlValidAcl m' al ↔ z ≤ 65532 := by
  obtain ⟨hsz, hsz', hr, hr', -⟩ := create_cases.mp h
  obtain ⟨h1, h2, h3⟩ := create_header h
  rw [rtlValidAcl_iff, h1, h2, h3]
  simp only [validLoop, and_true]
  omega

lemma create_holds (hsz : z ≤ 65532) : AclHolds m' al [] := by
  obtain ⟨hm, -, hr, hr', -⟩ := create_cases.mp h
  obtain ⟨h1, h2, h3⟩ := create_header h
  refine ⟨by omega, by omega, h3, holds_nil _ _, ?_, fun e he => absurd he not_mem_nil⟩
  rw [aclEnd, flatten_nil, length_nil]
  omega

end Create

section AddData

/-- Move the rest away and put the new string in. -/
lemma addData_holds (hbf : Holds m a bs) (ha : Holds m (a + bs.length) cs)
    (hn : Holds sr 0 e) : Holds (rtlpAddData m sr e.length (a + bs.length) cs.length) a (bs ++ e ++ cs) := by
  have hm : ∀ d : Mem, Holds d a bs → Holds d (a + bs.length + e.length) cs →
      Holds (if e.length ≠ 0 then d.copy (a + bs.length) sr 0 e.length else d) a (bs ++ e ++ cs) := by
    intro d hb hc
    rw [holds_append, holds_append, length_append, ← Nat.add_assoc]
    split
    · exact ⟨⟨hb.congr (copy_sep _ _ (by omega)), hn.copy _ _ (Nat.le_refl _)⟩, hc.congr (copy_sep _ _ (by omega))⟩
    · obtain rfl : e = [] := eq_nil_of_length_eq_zero (by omega)
      exact ⟨⟨hb, holds_nil _ _⟩, hc⟩
  apply hm
  · split
    · exact hbf.congr (copy_sep _ _ (by omega))
    · exact hbf
  split
  · exact ha.copy _ _ (Nat.le_refl _)
  · obtain rfl : cs = [] := eq_nil_of_length_eq_zero (by omega)
    exact holds_nil _ _

lemma addData_sep {l o b k : Nat} (hb : b + k ≤ a) : Agree m (rtlpAddData m sr l a o) b k := by
  unfold rtlpAddData
  split <;> split
  · exact (copy_sep _ _ (by omega)).trans (copy_sep _ _ (by omega))
  · exact copy_sep _ _ (by omega)
  · exact copy_sep _ _ (by omega)
  · exact Agree.refl _ _ _

lemma deleteData_holds (ha : Holds m (a + e.length) cs) (hlt : e.length + cs.length < 2 ^ 32) :
    Holds (rtlpDeleteData m a e.length (e.length + cs.length)) a cs := by
  unfold rtlpDeleteData
  dsimp only
  have hm : Holds (if e.length < e.length + cs.length then
      m.copy a m (a + e.length) (e.length + cs.length - e.length) else m) a cs := by
    split
    · exact ha.copy _ _ (by omega)
    · obtain rfl : cs = [] := eq_nil_of_length_eq_zero (by omega)
      exact holds_nil _ _
  split
  · exact hm.congr (fill_sep _ _ (by omega))
  · exact hm

lemma deleteData_sep {z o b k : Nat} (hb : b + k ≤ a) (hsz : z ≤ o) :
    Agree m (rtlpDeleteData m a z o) b k := by
  unfold rtlpDeleteData
  dsimp only
  split <;> split
  · exact (copy_sep _ _ (by omega)).trans (fill_sep _ _ (by omega))
  · exact fill_sep _ _ (by omega)
  · exact copy_sep _ _ (by omega)
  · exact Agree.refl _ _ _

end AddData

section AddAce

variable {rv : Nat} {p c : Nat}

/-- The places the first loop of `RtlAddAce` comes to. -/
inductive Reached (src : Mem) (revision stop : Nat) : Nat → Prop
  | start : Reached src revision stop 0
  | next {p : Nat} : Reached src revision stop p → p < stop → aceAllowed revision (aceType src p) = true →
    Reached src revision stop (p + aceSize src p)

/-- The ACEs in the bytes from `p` to `stop`, by their size fields. -/
def cutAces (src : Mem) (stop : Nat) : Nat → Nat → List (List Byte)
  | 0, _ => []
  | fuel + 1, p =>
    if p < stop then src.bytes p (aceSize src p) :: cutAces src stop fuel (p + aceSize src p) else []

/-- The ACEs of the caller's list. -/
def givenAces (src : Mem) (len : Nat) : List (List Byte) := cutAces src len (len + 1) 0

/-- No ACE that the loop passes is empty. -/
def NoEmptyAce (src : Mem) (revision stop : Nat) : Prop :=
  ∀ p, Reached src revision stop p → p < stop → aceAllowed revision (aceType src p) = true → aceSize src p ≠ 0

lemma addAceLoop_ends (hne : NoEmptyAce sr rv s) {k : Nat}
    (hp : Reached sr rv s p) (hf : s - p < k) :
    addAceLoop sr rv s k p c ≠ none := by
  induction k generalizing p c with
  | zero => omega
  | succ k ih =>
    unfold addAceLoop
    split
    case isTrue hlt =>
      split
      case isTrue ha =>
        have := hne p hp hlt ha
        exact ih (hp.next hlt ha) (by omega)
      case isFalse => exact some_ne_none _
    case isFalse => exact some_ne_none _

lemma addAceLoop_empty (hlt : p < s) (ha : aceAllowed rv (aceType sr p))
    (hsz : aceSize sr p = 0) (k : Nat) : addAceLoop sr rv s k p c = none := by
  induction k generalizing c with
  | zero => rfl
  | succ k ih => rw [addAceLoop, if_pos hlt, if_pos ha, hsz, Nat.add_zero, ih]

lemma addAceLoop_reached (hp : Reached sr rv s p) (k : Nat) :
    addAceLoop sr rv s k 0 0 = none ∨
      ∃ k' c, addAceLoop sr rv s k 0 0 = addAceLoop sr rv s k' p c := by
  induction hp with
  | start => exact .inr ⟨k, 0, rfl⟩
  | @next p _ hlt ha ih =>
    rcases ih with h | ⟨k', c, h⟩
    · exact .inl h
    cases k' with
    | zero => exact .inl h
    | succ k' =>
      rw [addAceLoop, if_pos hlt, if_pos ha] at h
      exact .inr ⟨k', _, h⟩

lemma addAceLoop_ends_iff : addAceLoop sr rv s (s + 1) 0 0 ≠ none ↔ NoEmptyAce sr rv s := by
  constructor
  · intro h p hp hlt ha hsz
    rcases addAceLoop_reached hp (s + 1) with h' | ⟨k', c, h'⟩
    · exact h h'
    · exact h (h'.trans (addAceLoop_empty hlt ha hsz k'))
  · intro hne
    exact addAceLoop_ends hne .start (by omega)

lemma addAceLoop_cut {j q k : Nat} (hp : Reached sr rv s p)
    (h : addAceLoop sr rv s j p c = some (some (q, k))) :
    Reached sr rv s q ∧ s ≤ q ∧ q = p + (cutAces sr s j p).flatten.length ∧
      k % 2 ^ 16 = (c + (cutAces sr s j p).length) % 2 ^ 16 ∧
      Holds sr p (cutAces sr s j p).flatten := by
  induction j generalizing p c with
  | zero => exact absurd h (by rw [addAceLoop]; exact nofun)
  | succ j ih =>
    unfold addAceLoop at h
    unfold cutAces
    split at h
    case isTrue hlt =>
      split at h
      case isTrue ha =>
        obtain ⟨hq, hs, hln, hc, hh⟩ := ih (hp.next hlt ha) h
        rw [if_pos hlt, flatten_cons, length_append, length_bytes, length_cons]
        refine ⟨hq, hs, by omega, by omega, holds_append.mpr ⟨holds_bytes _ _ _, ?_⟩⟩
        rw [length_bytes]
        exact hh
      case isFalse => exact absurd h (by simp)
    case isFalse hlt =>
      obtain ⟨rfl, rfl⟩ := h
      rw [if_neg hlt]
      exact ⟨hp, by omega, rfl, rfl, holds_nil _ _⟩

lemma addAceLoop_at_stop (hs : Reached sr rv s s) (hne : NoEmptyAce sr rv s) :
    ∃ k, addAceLoop sr rv s (s + 1) 0 0 = some (some (s, k)) := by
  rcases addAceLoop_reached hs (s + 1) with h | ⟨j', c, h⟩
  · exact absurd h (addAceLoop_ends_iff.mpr hne)
  cases j' with
  | zero => exact absurd h (addAceLoop_ends_iff.mpr hne)
  | succ j' =>
    refine ⟨c, h.trans ?_⟩
    rw [addAceLoop, if_neg (Nat.lt_irrefl _)]

/-- Insert the given ACEs at an index, or at the end when it is past it. -/
def insertAces (aces news : List (List Byte)) (start : Nat) : List (List Byte) :=
  aces.take start ++ news ++ aces.drop start

lemma length_insertAces (ac nw : List (List Byte)) (start : Nat) :
    (insertAces ac nw start).flatten.length = ac.flatten.length + nw.flatten.length := by
  have : ac.flatten.length = (ac.take start).flatten.length + (ac.drop start).flatten.length := by
    rw [← length_append, ← flatten_append, take_append_drop]
  rw [insertAces, flatten_append, flatten_append, length_append, length_append]
  omega

variable {start l : Nat}

/-- The memory after the data has been put in. -/
def addedData (m : Mem) (acl start : Nat) (src : Mem) (len free : Nat) : Mem :=
  let ace := skipAces m (min start (aceCount m acl)) (acl + 8)
  rtlpAddData m src len ace (free - ace)

lemma addAce_cases (h : AclHolds m al ac) (hv : rtlValidAcl m al) :
    (¬ NoEmptyAce sr rv l ∧ rtlAddAce m al rv start sr l = none) ∨
    (NoEmptyAce sr rv l ∧ ¬ (Reached sr rv l l ∧ aceAt m al (aceCount m al) + l ≤ aclEnd m al) ∧
      ∃ ss, ss ≠ .success ∧ rtlAddAce m al rv start sr l = some (m, ss)) ∨
    (NoEmptyAce sr rv l ∧ (Reached sr rv l l ∧ aceAt m al (aceCount m al) + l ≤ aclEnd m al) ∧
      (givenAces sr l).flatten.length = l ∧ Holds sr 0 (givenAces sr l).flatten ∧
      ∃ k, k % 2 ^ 16 = (givenAces sr l).length % 2 ^ 16 ∧ rtlAddAce m al rv start sr l =
          let m1 := addedData m al start sr l (al + 8 + ac.flatten.length)
          let m2 := m1.writeUshort (al + 4) (aceCount m1 al + k)
          some (m2.writeUchar al (min (aclRevision m2 al) rv), .success)) := by
  unfold rtlAddAce
  rw [hv, h.firstFree, h.aceAt_count]
  simp only [Bool.not_true, Bool.false_eq_true, if_false]
  by_cases hne : NoEmptyAce sr rv l
  swap
  · refine .inl ⟨hne, ?_⟩
    have hl : addAceLoop sr rv l (l + 1) 0 0 = none := by
      by_contra hl
      exact hne (addAceLoop_ends_iff.mp hl)
    rw [hl]
  refine .inr ?_
  rcases hl : addAceLoop sr rv l (l + 1) 0 0 with _ | _ | ⟨q, k⟩
  · exact absurd hl (addAceLoop_ends_iff.mpr hne)
  · refine .inl ⟨hne, fun hr => ?_, .invalidParameter, nofun, rfl⟩
    obtain ⟨k, hk⟩ := addAceLoop_at_stop hr.1 hne
    rw [hl] at hk
    cases hk
  obtain ⟨hq, hs, hln, hk, hh⟩ := addAceLoop_cut .start hl
  dsimp only
  by_cases ho : q > l
  · refine .inl ⟨hne, fun hr => ?_, .invalidParameter, nofun, if_pos ho⟩
    obtain ⟨k', hk'⟩ := addAceLoop_at_stop hr.1 hne
    rw [hl] at hk'
    simp only [some.injEq, Prod.mk.injEq] at hk'
    omega
  obtain rfl : q = l := by omega
  rw [if_neg ho]
  by_cases hrm : al + 8 + ac.flatten.length + q > aclEnd m al
  · refine .inl ⟨hne, fun hr => by omega, .bufferTooSmall, nofun, if_pos hrm⟩
  refine .inr ⟨hne, ⟨hq, by omega⟩, ?_, hh, k, ?_, if_neg hrm⟩
  · rw [givenAces]; omega
  · rw [givenAces]; omega

variable (h : AclHolds m al ac) (hnw : Holds sr 0 nw.flatten) (hln : nw.flatten.length = l)

include h hnw hln

lemma addedData_spec : Holds (addedData m al start sr l (al + 8 + ac.flatten.length)) (al + 8)
        (insertAces ac nw start).flatten ∧
      Agree m (addedData m al start sr l (al + 8 + ac.flatten.length)) al 8 := by
  have hp : skipAces m (min start (aceCount m al)) (al + 8) = al + 8 + (ac.take start).flatten.length := by
    have := h.aceAt_eq (show min start (aceCount m al) ≤ ac.length by rw [h.count]; omega)
    rw [← aceAt, this, h.count, ← take_eq_take_min]
  have hf : ac.flatten = (ac.take start).flatten ++ (ac.drop start).flatten := by
    rw [← flatten_append, take_append_drop]
  have hh := h.holds
  rw [hf] at hh
  obtain ⟨hb, ha⟩ := holds_append.mp hh
  have ho : al + 8 + ac.flatten.length - (al + 8 + (ac.take start).flatten.length) =
      (ac.drop start).flatten.length := by
    rw [hf, length_append]; omega
  unfold addedData
  dsimp only
  rw [hp, ho]
  refine ⟨?_, addData_sep (by omega)⟩
  rw [insertAces, flatten_append, flatten_append, ← hln]
  exact addData_holds hb ha hnw

lemma addAce_success (hrm : al + 8 + ac.flatten.length + l ≤ aclEnd m al) {k : Nat}
    (hk : k % 2 ^ 16 = nw.length % 2 ^ 16) :
    let m1 := addedData m al start sr l (al + 8 + ac.flatten.length)
    let m2 := m1.writeUshort (al + 4) (aceCount m1 al + k)
    let m' := m2.writeUchar al (min (aclRevision m2 al) rv)
    aclRevision m' al = min (aclRevision m al) rv ∧ (2 ≤ rv → (∀ e ∈ nw, Whole e) →
        AclHolds m' al (insertAces ac nw start) ∧ aclEnd m' al = aclEnd m al) := by
  intro m1 m2 m'
  obtain ⟨hh, ha⟩ : Holds m1 (al + 8) (insertAces ac nw start).flatten ∧ Agree m m1 al 8 :=
    addedData_spec h hnw hln
  have hre2 : aclRevision m2 al = aclRevision m al := by
    have hsp : Agree m1 m2 al 1 := writeUshort_sep _ _ (by omega)
    rw [aclRevision, hsp al (by omega) (by omega), ha al (by omega) (by omega), aclRevision]
  have hc1 : aceCount m1 al = ac.length := by
    rw [aceCount, readUshort_congr (ha.sub (by omega) (by omega)), ← aceCount, h.count]
  obtain ⟨hre, hsz, hc, hkp⟩ := header_written ha (aceCount m1 al + k)
    (min (aclRevision m2 al) rv)
  have hrv := h.revision
  have hm : min (aclRevision m al) rv % 2 ^ 8 = min (aclRevision m al) rv := by omega
  have hre' : aclRevision m' al = min (aclRevision m al) rv := by
    rw [← hm, ← hre2]; exact hre
  refine ⟨hre', fun hr hw => ?_⟩
  have hin : ∀ e ∈ insertAces ac nw start, Whole e := by
    intro e he
    rcases mem_append.mp he with he | he
    · rcases mem_append.mp he with he | he
      · exact h.whole e (mem_of_mem_take he)
      · exact hw e he
    · exact h.whole e (mem_of_mem_drop he)
  have ht := length_insertAces ac nw start
  have hl : (insertAces ac nw start).length = ac.length + nw.length := by
    simp only [insertAces, length_append, length_take, length_drop]; omega
  have hs := length_le_flatten hin
  have hlt := Mem.readUshort_lt m (al + 2)
  rw [aclEnd, aclSize] at hrm
  refine h.edit ?_ hsz ?_ (hkp _ hh) ?_ hin
  · rw [hre']; omega
  · rw [hc, hc1]; omega
  · rw [aclEnd, aclSize]; omega

end AddAce

section DeleteAce

lemma deleteAce_fails (hi : ac.length ≤ i) (h : AclHolds m al ac) :
    rtlDeleteAce m al i = (m, .invalidParameter) := by
  rw [rtlDeleteAce, h.count, if_pos hi, ite_self]

lemma deleteAce_spec (h : AclHolds m al ac) (hv : rtlValidAcl m al) (hi : i < ac.length) :
    ∃ m', rtlDeleteAce m al i = (m', .success) ∧ AclHolds m' al (ac.eraseIdx i) ∧
      aclEnd m' al = aclEnd m al := by
  obtain ⟨hac, haf, hln⟩ := h.split hi
  have hme : ac.getD i [] ∈ ac := by rw [getD_eq_getElem _ _ hi]; exact getElem_mem hi
  have hw := h.whole _ hme
  have hrm := h.room
  have hlt := Mem.readUshort_lt m (al + 2)
  rw [aclEnd, aclSize] at hrm
  have hp : skipAces m i (al + 8) = al + 8 + (ac.take i).flatten.length :=
    h.aceAt_eq (Nat.le_of_lt hi)
  have ho : (al + 8 + ac.flatten.length + 2 ^ 32 - (al + 8 + (ac.take i).flatten.length) % 2 ^ 32) % 2 ^ 32 =
      (ac.getD i []).length + (ac.drop (i + 1)).flatten.length := by omega
  have her : (ac.eraseIdx i).flatten = (ac.take i).flatten ++ (ac.drop (i + 1)).flatten := by
    rw [eraseIdx_eq_take_drop_succ, flatten_append]
  unfold rtlDeleteAce
  rw [hv, h.firstFree, h.count]
  simp only [Bool.not_true, Bool.false_eq_true, if_false, getD_some]
  rw [if_neg (by omega), hp, aceSize_eq hac hw, ho]
  refine ⟨_, rfl, ?_⟩
  generalize hm1 : rtlpDeleteData m (al + 8 + (ac.take i).flatten.length) (ac.getD i []).length
    ((ac.getD i []).length + (ac.drop (i + 1)).flatten.length) = m1
  have ha : Agree m m1 al (8 + (ac.take i).flatten.length) := by
    rw [← hm1]; exact deleteData_sep (by omega) (by omega)
  have hr : Holds m1 (al + 8 + (ac.take i).flatten.length) (ac.drop (i + 1)).flatten := by
    rw [← hm1]; exact deleteData_holds haf (by omega)
  have hb : Holds m (al + 8) (ac.take i).flatten := by
    have := h.holds
    rw [← take_append_drop i ac, flatten_append] at this
    exact (holds_append.mp this).1
  have hc1 : aceCount m1 al = ac.length := by
    rw [aceCount, readUshort_congr (ha.sub (by omega) (by omega)), ← aceCount, h.count]
  have hl := length_eraseIdx_of_lt hi
  have hc := h.count
  have hs := Mem.readUshort_lt m (al + 4)
  rw [aceCount] at hc
  refine h.edit ?_ ?_ ?_ ?_ ?_ ?_
  · rw [aclRevision, writeUshort_sep _ _ (show al + 1 ≤ al + 4 ∨ _ by omega) al (by omega) (by omega),
      ha al (by omega) (by omega)]
    exact h.revision
  · rw [aclSize, readUshort_congr (writeUshort_sep _ _ (by omega)),
      readUshort_congr (ha.sub (by omega) (by omega)), aclSize]
  · rw [aceCount, readUshort_self, hc1]; omega
  · rw [her]
    refine Holds.congr (holds_append.mpr ⟨?_, hr⟩) (writeUshort_sep _ _ (by omega))
    exact hb.congr (ha.sub (by omega) (by omega))
  · rw [her, length_append, aclEnd, aclSize]; omega
  · exact fun e he => h.whole e (mem_of_mem_eraseIdx he)

end DeleteAce

section KnownAce

variable {rv t z : Nat} {f ms : BitVec 32} {ad : Bool} {wa : Nat → Mem}

/-- The ACE is added: the checks pass and there is room. -/
def Fits (m : Mem) (acl revision : Nat) (flags : BitVec 32) (sid : Mem) (audit : Bool) (size : Nat) : Prop :=
  rtlValidSid sid 0 = true ∧ revision ≤ 4 ∧ invalidFlags audit flags = 0 ∧
    aceAt m acl (aceCount m acl) + size ≤ aclEnd m acl

lemma addKnown_cases (h : AclHolds m al ac) (hv : rtlValidAcl m al) :
    (¬ Fits m al rv f sd ad z ∧ ∃ ss, ss ≠ .success ∧
      addKnown m al rv f sd ad z wa = (m, ss)) ∨
    (Fits m al rv f sd ad z ∧ ∃ r, 2 ≤ r ∧ r ≤ 4 ∧ addKnown m al rv f sd ad z wa =
        (finishAdd (wa (al + 8 + ac.flatten.length)) al r, .success)) := by
  have hr := h.revision
  unfold addKnown addKnownChecks Fits
  rw [h.aceAt_count, h.firstFree, hv]
  by_cases h1 : rtlValidSid sd 0
  swap
  · refine .inl ⟨fun hf => h1 hf.1, .invalidSid, nofun, ?_⟩
    simp only [h1, Bool.not_false, if_true]
  by_cases h2 : rv ≤ 4
  swap
  · refine .inl ⟨fun hf => h2 hf.2.1, .revisionMismatch, nofun, ?_⟩
    simp only [h1, Bool.not_true, Bool.false_eq_true, if_false,
      if_pos (show aclRevision m al > 4 ∨ rv > 4 by omega)]
  by_cases h3 : invalidFlags ad f = 0
  · simp only [h1, h3, Bool.not_true, Bool.false_eq_true, if_false, ne_eq, not_true_eq_false,
      if_neg (show ¬ (aclRevision m al > 4 ∨ rv > 4) by omega)]
    by_cases h4 : al + 8 + ac.flatten.length + z ≤ aclEnd m al
    · refine .inr ⟨⟨trivial, h2, trivial, h4⟩, _, ?_, ?_, if_neg (by omega)⟩ <;> split <;> omega
    · exact .inl ⟨fun hf => h4 hf.2.2.2, .allottedSpaceExceeded, nofun, if_pos (by omega)⟩
  refine .inl ⟨fun hf => h3 hf.2.2.1, .invalidParameter, nofun, ?_⟩
  simp only [h1, h3, Bool.not_true, Bool.false_eq_true, if_false, ne_eq, not_false_eq_true, if_true,
    if_neg (show ¬ (aclRevision m al > 4 ∨ rv > 4) by omega)]

lemma finishAdd_spec {m1 : Mem} (h : AclHolds m al ac)
    (ha : Agree m m1 al (8 + ac.flatten.length)) (hac : Holds m1 (al + 8 + ac.flatten.length) e)
    (he : Whole e) (hrm : al + 8 + ac.flatten.length + e.length ≤ aclEnd m al)
    (hrv : 2 ≤ rv ∧ rv ≤ 4) :
    AclHolds (finishAdd m1 al rv) al (ac ++ [e]) ∧
      aclEnd (finishAdd m1 al rv) al = aclEnd m al := by
  have hc1 : aceCount m1 al = ac.length := by
    rw [aceCount, readUshort_congr (ha.sub (by omega) (by omega)), ← aceCount, h.count]
  obtain ⟨hr, hsz, hc, hk⟩ := header_written (ha.sub (Nat.le_refl _) (by omega))
    (aceCount m1 al + 1) rv
  have hs := length_le_flatten h.whole
  have hlt := Mem.readUshort_lt m (al + 2)
  have hf : (ac ++ [e]).flatten = ac.flatten ++ e := by simp
  unfold finishAdd
  refine h.edit ?_ hsz ?_ (hk _ ?_) ?_ ?_
  · rw [hr]; omega
  · rw [aclEnd, aclSize] at hrm
    rw [hc, hc1, length_append, length_singleton]; omega
  · rw [hf]
    exact holds_append.mpr ⟨h.holds.congr (ha.sub (by omega) (by omega)), hac⟩
  · rw [hf, length_append]; omega
  intro e' he'
  rcases mem_append.mp he' with he' | he'
  · exact h.whole e' he'
  · rw [mem_singleton.mp he']; exact he

end KnownAce

end FreeNT.Rtl
