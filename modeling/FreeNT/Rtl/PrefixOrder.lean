import Mathlib.Data.List.Lex
import Mathlib.Order.Compare
import FreeNT.Rtl.UnicodePrefix

/-!
# The order of prefixes

`CompareUnicodeStrings` without regard to case orders strings by their keys: characters are
upcased, and a backslash comes before all others (`key`). With a case index it tells whether
a prefix consists of the first names of a string (`IsNamePrefix`, `matching_iff`).

The key of a prefix with as many names as another one does not lie between that and a string
that the other one is a prefix of (`nameCount_lt`), so that a search for a string in
the order of keys comes to the prefix of it (`findTurn_cut`, `findTurn_unique`). Here prefixes
do not end in a backslash, a single one apart (`CleanName`).
-/

namespace FreeNT.Rtl

open SplayTree List

variable (table : WChar → WChar)

/-- The string as it is compared: characters before the index as they are, the others upcased. -/
def foldAt : Nat → List WChar → List WChar
  | _, [] => []
  | 0, c :: s => rtlpUpcaseUnicodeChar table c :: foldAt 0 s
  | k + 1, c :: s => c :: foldAt k s

/-- The prefix consists of the first names of the string; a single backslash stands for no name. -/
def IsNamePrefix (k : Nat) (p s : List WChar) : Prop :=
  p = [backslash] ∧ s.head? = some backslash ∨
    foldAt table k p <+: foldAt table k s ∧ (s.length = p.length ∨ s[p.length]? = some backslash)

/-- The place of a character in the order. -/
def rank (c : WChar) : Nat := if c = backslash then 0 else c.toNat + 1

def key (s : List WChar) : List Nat := (foldAt table 0 s).map rank

/-- The number of names in a string. -/
def nameCount (s : List WChar) : Nat := 1 + s.dropLast.count backslash

lemma rank_injective : Function.Injective rank := by
  intro c d h
  unfold rank at h
  split at h <;> split at h
  · simp_all
  · omega
  · omega
  · exact BitVec.toNat_inj.mp (by omega)

lemma rank_eq_zero {c : WChar} : rank c = 0 ↔ c = backslash := by
  unfold rank
  split <;> simp_all

variable {table} {k : Nat} {p q s : List WChar}

@[simp] lemma length_foldAt (k : Nat) (s : List WChar) : (foldAt table k s).length = s.length := by
  fun_induction foldAt table k s <;> simp_all

@[simp] lemma length_key (s : List WChar) : (key table s).length = s.length := by simp [key]

lemma foldAt_eq_map (s : List WChar) : foldAt table 0 s = s.map (rtlpUpcaseUnicodeChar table) := by
  induction s with
  | nil => rfl
  | cons c s ih => rw [foldAt, ih, map_cons]

lemma foldAt_of_length_le (h : s.length ≤ k) : foldAt table k s = s := by
  induction s generalizing k with
  | nil => cases k <;> rfl
  | cons c s ih =>
    cases k with
    | zero => simp at h
    | succ k => rw [foldAt, ih (Nat.le_of_succ_le_succ h)]

lemma foldAt_take (k n : Nat) (s : List WChar) : foldAt table k (s.take n) = (foldAt table k s).take n := by
  induction s generalizing k n with
  | nil => cases k <;> simp [foldAt]
  | cons c s ih =>
    cases n with
    | zero => cases k <;> simp [foldAt]
    | succ n => cases k <;> simp [foldAt, ih]

lemma upcase_foldAt (k : Nat) (h : foldAt table k p = foldAt table k q) : foldAt table 0 p = foldAt table 0 q := by
  induction p generalizing k q with
  | nil =>
    have hl := congrArg length h
    rw [length_foldAt, length_foldAt] at hl
    rw [length_eq_zero_iff.mp hl.symm]
  | cons c p ih =>
    cases q with
    | nil => cases k <;> simp [foldAt] at h
    | cons d q =>
      cases k with
      | zero => exact h
      | succ k =>
        rw [foldAt, foldAt, cons.injEq] at h
        rw [foldAt, foldAt, h.1, ih k h.2]

lemma foldAt_zero_isPrefix (h : foldAt table k p <+: foldAt table k s) : foldAt table 0 p <+: foldAt table 0 s := by
  have heq : foldAt table k p = foldAt table k (s.take p.length) := by
    rw [foldAt_take]
    simpa using prefix_iff_eq_take.mp h
  have hz := upcase_foldAt k heq
  rw [foldAt_take] at hz
  exact hz ▸ take_prefix _ _

lemma IsNamePrefix.zero (h : IsNamePrefix table k p s) : IsNamePrefix table 0 p s :=
  h.imp id fun h => ⟨foldAt_zero_isPrefix h.1, h.2⟩

/-! ## The comparison -/

lemma compareFrom_eq_none : compareFrom table k p s = none ↔
    foldAt table k p <+: foldAt table k s ∨ foldAt table k s <+: foldAt table k p := by
  fun_induction compareFrom table k p s with
  | case1 => simp [foldAt]
  | case2 => simp [foldAt]
  | case3 c p d s h => simp [foldAt, h.2, Ne.symm h.2]
  | case4 c p d s h ih =>
    have heq : rtlpUpcaseUnicodeChar table c = rtlpUpcaseUnicodeChar table d := by
      by_contra hne
      exact h ⟨fun hcd => hne (hcd ▸ rfl), hne⟩
    simp [foldAt, heq, ih]
  | case5 k c p d s h => simp [foldAt, h, Ne.symm h]
  | case6 k c p d s h ih =>
    obtain rfl := not_not.mp h
    simp [foldAt, ih]

lemma compareFrom_zero_some {x y : WChar} (h : compareFrom table 0 p s = some (x, y)) : x ≠ y ∧
    ∃ u p' s', foldAt table 0 p = u ++ x :: p' ∧ foldAt table 0 s = u ++ y :: s' := by
  induction p generalizing s with
  | nil => simp [compareFrom] at h
  | cons c p ih =>
    cases s with
    | nil => simp [compareFrom] at h
    | cons d s =>
      rw [compareFrom] at h
      split at h
      · rename_i hne
        cases h
        exact ⟨hne.2, [], foldAt table 0 p, foldAt table 0 s, rfl, rfl⟩
      rename_i hn
      have heq : rtlpUpcaseUnicodeChar table c = rtlpUpcaseUnicodeChar table d := by
        by_contra hne
        exact hn ⟨fun hcd => hne (hcd ▸ rfl), hne⟩
      obtain ⟨hne, u, p', s', hp, hs⟩ := ih h
      exact ⟨hne, rtlpUpcaseUnicodeChar table c :: u, p', s', by rw [foldAt, hp]; rfl, by rw [foldAt, hs, heq]; rfl⟩

lemma matching_iff : (compareUnicodeStrings table p s k).matching ↔ IsNamePrefix table k p s := by
  unfold compareUnicodeStrings
  split
  · rename_i h
    exact ⟨fun _ => .inl ⟨h.1, h.2.2⟩, fun _ => rfl⟩
  rename_i hs
  have hif : IsNamePrefix table k p s ↔
      foldAt table k p <+: foldAt table k s ∧ (s.length = p.length ∨ s[p.length]? = some backslash) := by
    refine ⟨fun h => ?_, .inr⟩
    rcases h with ⟨rfl, hh⟩ | h
    · -- a string of one character
      obtain ⟨s', rfl⟩ := head?_eq_some_iff.mp hh
      have hn : s' = [] := by
        by_contra hne
        exact hs ⟨rfl, by simpa using length_pos_iff.mpr hne, rfl⟩
      rw [hn]
      exact ⟨prefix_rfl, .inl rfl⟩
    · exact h
  rw [hif]
  cases hc : compareFrom table k p s with
  | some found =>
    have hnt : ¬ foldAt table k p <+: foldAt table k s := fun h => by
      rw [compareFrom_eq_none.mpr (.inl h)] at hc
      cases hc
    simp only [hnt, false_and, iff_false, Bool.not_eq_true]
    split_ifs <;> rfl
  | none =>
    rcases Nat.lt_trichotomy p.length s.length with hlt | heq | hgt
    · have hp : foldAt table k p <+: foldAt table k s := by
        refine (compareFrom_eq_none.mp hc).resolve_right fun h => ?_
        have := h.length_le
        rw [length_foldAt, length_foldAt] at this
        omega
      simp only [hlt, if_true, hp, true_and]
      split
      · rename_i hb
        exact ⟨fun _ => .inr hb, fun _ => rfl⟩
      rename_i hb
      refine ⟨nofun, fun h => ?_⟩
      rcases h with h | h
      · omega
      · exact absurd h hb
    · have hp : foldAt table k p <+: foldAt table k s := by
        rcases compareFrom_eq_none.mp hc with h | h
        · exact h
        · exact h.eq_of_length (by simp [heq]) ▸ prefix_rfl
      simp only [heq, Nat.lt_irrefl, if_false, hp, true_and, true_or, iff_true]
      rfl
    simp only [Nat.not_lt.mpr (Nat.le_of_lt hgt), if_false, hgt, if_true]
    refine ⟨nofun, fun h => ?_⟩
    have := h.1.length_le
    rw [length_foldAt, length_foldAt] at this
    omega

lemma compare_eq_equal : compareUnicodeStrings table p s k = .equal ↔ foldAt table k p = foldAt table k s := by
  unfold compareUnicodeStrings
  split
  · rename_i h
    refine ⟨nofun, fun heq => ?_⟩
    have hl := congrArg length heq
    rw [length_foldAt, length_foldAt, h.1] at hl
    simp at hl
    omega
  cases hc : compareFrom table k p s with
  | some found =>
    have hne : foldAt table k p ≠ foldAt table k s := fun h => by
      rw [compareFrom_eq_none.mpr (.inl (h ▸ prefix_rfl))] at hc
      cases hc
    simp only [hne, iff_false]
    split_ifs <;> exact nofun
  | none =>
    constructor
    · intro h
      have heq : p.length = s.length := by
        split_ifs at h
        omega
      rcases compareFrom_eq_none.mp hc with h | h
      · exact h.eq_of_length (by simp [heq])
      · exact (h.eq_of_length (by simp [heq])).symm
    intro h
    have heq := congrArg length h
    rw [length_foldAt, length_foldAt] at heq
    simp [heq]

/-! ## Keys -/

lemma key_eq_iff : key table p = key table q ↔ foldAt table 0 p = foldAt table 0 q :=
  (map_injective_iff.mpr rank_injective).eq_iff

lemma IsNamePrefix.keys (h : IsNamePrefix table 0 p s) : key table p <+: key table s := by
  rcases h with ⟨rfl, hh⟩ | ⟨h, -⟩
  · obtain ⟨s', rfl⟩ := head?_eq_some_iff.mp hh
    exact ⟨key table s', rfl⟩
  · exact h.map rank

lemma initial_eq_or_lt {a b : List Nat} (h : a <+: b) : a = b ∨ a < b := by
  obtain ⟨x, rfl⟩ := h
  induction a with
  | nil =>
    cases x with
    | nil => exact .inl rfl
    | cons c x => exact .inr (nil_lt_cons c x)
  | cons c a ih => exact ih.imp (congrArg (c :: ·)) fun hlt => cons_lt_cons_iff.mpr (.inr ⟨rfl, hlt⟩)

lemma append_lt_append {u a b : List Nat} {x y : Nat} (h : x < y) : u ++ x :: a < u ++ y :: b := by
  induction u with
  | nil => exact cons_lt_cons_iff.mpr (.inl h)
  | cons c u ih => exact cons_lt_cons_iff.mpr (.inr ⟨rfl, ih⟩)

/-- The result tells the order of the keys; a prefix counts as less. -/
lemma compare_cases (table : WChar → WChar) (p s : List WChar) :
    compareUnicodeStrings table p s 0 = .equal ∧ key table p = key table s ∨
    (compareUnicodeStrings table p s 0 = .less ∨ compareUnicodeStrings table p s 0 = .isPrefix) ∧
      key table p < key table s ∨
    compareUnicodeStrings table p s 0 = .greater ∧ key table s < key table p := by
  by_cases heq : key table p = key table s
  · exact .inl ⟨compare_eq_equal.mpr (key_eq_iff.mp heq), heq⟩
  have hne : compareUnicodeStrings table p s 0 ≠ .equal := mt compare_eq_equal.mp (mt key_eq_iff.mpr heq)
  by_cases hm : (compareUnicodeStrings table p s 0).matching
  · have hlt := (initial_eq_or_lt (IsNamePrefix.keys (matching_iff.mp hm))).resolve_left heq
    cases hr : compareUnicodeStrings table p s 0 with
    | equal => exact absurd hr hne
    | isPrefix => exact .inr (.inl ⟨.inr rfl, hlt⟩)
    | less => simp [hr, PrefixCompare.matching] at hm
    | greater => simp [hr, PrefixCompare.matching] at hm
  -- the strings differ at a character, or one of them ends
  unfold compareUnicodeStrings at hm ⊢
  split at hm
  · exact absurd rfl hm
  rename_i hsp
  cases hc : compareFrom table 0 p s with
  | some found =>
    obtain ⟨x, y⟩ := found
    obtain ⟨hxy, u, p', s', hp, hs⟩ := compareFrom_zero_some hc
    have hl (h : rank x < rank y) : key table p < key table s := by
      simpa [key, hp, hs] using append_lt_append h
    have hg (h : rank y < rank x) : key table s < key table p := by
      simpa [key, hp, hs] using append_lt_append h
    dsimp only
    split_ifs with hx hy hlt
    · have hy : y ≠ backslash := fun hy => hxy (hx.trans hy.symm)
      exact .inr (.inl ⟨.inl rfl, hl (by simp [rank, hx, hy])⟩)
    · exact .inr (.inr ⟨rfl, hg (by simp [rank, hx, hy])⟩)
    · have : x.toNat < y.toNat := hlt
      exact .inr (.inl ⟨.inl rfl, hl (by simpa [rank, hx, hy] using this)⟩)
    have hge : ¬ x.toNat < y.toNat := hlt
    have hne' : x.toNat ≠ y.toNat := mt BitVec.toNat_inj.mp hxy
    exact .inr (.inr ⟨rfl, hg (by simp only [rank, hx, hy, if_false]; omega)⟩)
  | none =>
    rw [hc] at hm
    rcases compareFrom_eq_none.mp hc with h | h
    · have hln := h.length_le
      have hlt := (initial_eq_or_lt (show key table p <+: key table s from h.map rank)).resolve_left heq
      rw [length_foldAt, length_foldAt] at hln
      split_ifs at hm ⊢ with h1 h2 h3
      · exact absurd rfl hm
      · exact .inr (.inl ⟨.inl rfl, hlt⟩)
      · omega
      · exact absurd rfl hm
    have hln := h.length_le
    have hlt := (initial_eq_or_lt (show key table s <+: key table p from h.map rank)).resolve_left (Ne.symm heq)
    rw [length_foldAt, length_foldAt] at hln
    split_ifs at hm ⊢ with h1 h2 h3
    · omega
    · omega
    · exact .inr (.inr ⟨rfl, hlt⟩)
    · exact absurd rfl hm

/-! ## Numbers of names -/

/-- A prefix that does not end in a backslash, unless it is one. -/
structure CleanName (p : List WChar) : Prop where
  ne_nil : p ≠ []
  last : p.getLast? = some backslash → p = [backslash]
  length : p.length ≤ 32767

instance (p : List WChar) : Decidable (CleanName p) :=
  decidable_of_iff (p ≠ [] ∧ (p.getLast? = some backslash → p = [backslash]) ∧ p.length ≤ 32767)
    ⟨fun h => ⟨h.1, h.2.1, h.2.2⟩, fun h => ⟨h.ne_nil, h.last, h.length⟩⟩

/-- No other character is upcased to a backslash. -/
def KeepsBackslash (table : WChar → WChar) : Prop := ∀ c, rtlpUpcaseUnicodeChar table c = backslash → c = backslash

lemma upcase_backslash : rtlpUpcaseUnicodeChar table backslash = backslash := rfl

lemma exists_append_of_between {a b x : List Nat} (hlt : a < b) (hle : b = a ++ x ∨ b < a ++ x) :
    ∃ y, y ≠ [] ∧ b = a ++ y ∧ (y = x ∨ y < x) := by
  induction a generalizing b with
  | nil =>
    refine ⟨b, fun hn => ?_, rfl, hle⟩
    rw [hn] at hlt
    exact absurd hlt (lt_irrefl [])
  | cons c a ih =>
    cases b with
    | nil => exact absurd hlt (not_lt_nil _)
    | cons d b =>
      have hdc : d = c ∧ (b = a ++ x ∨ b < a ++ x) := by
        rcases hle with heq | hle
        · obtain ⟨rfl, rfl⟩ := cons.inj heq
          exact ⟨rfl, .inl rfl⟩
        rcases cons_lt_cons_iff.mp hle with hd | ⟨rfl, hb⟩
        · rcases cons_lt_cons_iff.mp hlt with hc | ⟨rfl, -⟩ <;> omega
        · exact ⟨rfl, .inr hb⟩
      obtain ⟨rfl, hle'⟩ := hdc
      have hab : a < b := by
        rcases cons_lt_cons_iff.mp hlt with hc | ⟨-, hab⟩
        · omega
        · exact hab
      obtain ⟨y, hy, rfl, hyx⟩ := ih hab hle'
      exact ⟨y, hy, rfl, hyx⟩

lemma count_dropLast_le (a : List Nat) : a.dropLast.count 0 ≤ a.count 0 := (dropLast_sublist a).count_le 0

variable (hup : KeepsBackslash table)

include hup

lemma rank_upcase {c : WChar} : rank (rtlpUpcaseUnicodeChar table c) = 0 ↔ c = backslash :=
  rank_eq_zero.trans ⟨hup c, fun h => by rw [h, upcase_backslash]⟩

lemma nameCount_key (s : List WChar) : nameCount s = 1 + (key table s).dropLast.count 0 := by
  rw [nameCount, key, foldAt_eq_map, map_map, ← map_dropLast, count, count, countP_map]
  congr 2
  funext c
  simp [rank_upcase hup]

lemma key_eq_single : key table p = [0] ↔ p = [backslash] := by
  rw [key, foldAt_eq_map, map_map]
  constructor
  · intro h
    obtain ⟨c, hc, hr⟩ := map_eq_singleton_iff.mp h
    rw [hc, (rank_upcase hup).mp hr]
  · rintro rfl
    rfl

lemma IsNamePrefix.congr (hk : key table p = key table q) (h : IsNamePrefix table 0 p s) :
    IsNamePrefix table 0 q s := by
  have hl : p.length = q.length := by simpa using congrArg length hk
  rcases h with ⟨rfl, hh⟩ | ⟨h, he⟩
  · exact .inl ⟨(key_eq_single hup).mp (hk ▸ (key_eq_single hup).mpr rfl), hh⟩
  · exact .inr ⟨key_eq_iff.mp hk ▸ h, hl ▸ he⟩

lemma nameCount_le (h : IsNamePrefix table 0 p s) : nameCount p ≤ nameCount s := by
  obtain ⟨x, hx⟩ := h.keys
  rw [nameCount_key hup, nameCount_key hup, ← hx]
  rcases eq_or_ne x [] with rfl | hne
  · rw [append_nil]
  rw [dropLast_append_of_ne_nil hne, count_append]
  have := count_dropLast_le (key table p)
  omega

/-- A key between those of a prefix and of a string that it fits has more names. -/
lemma nameCount_lt (hp : p ≠ []) (hq : CleanName q) (hm : IsNamePrefix table 0 p s)
    (hlt : key table p < key table q) (hle : key table q = key table s ∨ key table q < key table s) :
    nameCount p < nameCount q := by
  obtain ⟨x, hx⟩ := hm.keys
  rw [← hx] at hle
  obtain ⟨y, hy, hqy, hyx⟩ := exists_append_of_between hlt hle
  rw [nameCount_key hup, nameCount_key hup, hqy]
  rcases hm with ⟨rfl, -⟩ | ⟨-, he⟩
  · -- the single backslash
    rw [(key_eq_single hup).mpr rfl, dropLast_append_of_ne_nil hy]
    simp
  -- the string goes on with a backslash, and so does the second prefix
  have hxz : ∃ x', x = 0 :: x' := by
    have hln : s.length = p.length + x.length := by simpa using (congrArg length hx).symm
    rcases he with he | he
    · obtain rfl : x = [] := length_eq_zero_iff.mp (by omega)
      rcases hyx with rfl | hyx
      · exact absurd rfl hy
      · exact absurd hyx (not_lt_nil _)
    have hg : (key table s)[p.length]? = some 0 := by
      rw [key, foldAt_eq_map, map_map, getElem?_map, he]
      rfl
    rw [← hx, getElem?_append_right (by simp)] at hg
    cases x with
    | nil => cases hg
    | cons c x =>
      obtain rfl : c = 0 := by simpa using hg
      exact ⟨x, rfl⟩
  obtain ⟨x', rfl⟩ := hxz
  obtain ⟨y', rfl⟩ : ∃ y', y = 0 :: y' := by
    cases y with
    | nil => exact absurd rfl hy
    | cons c y =>
      rcases hyx with heq | hyx
      · exact ⟨y, by rw [(cons.inj heq).1]⟩
      rcases cons_lt_cons_iff.mp hyx with hc | ⟨rfl, -⟩
      · omega
      · exact ⟨y, rfl⟩
  have hy' : y' ≠ [] := by
    rintro rfl
    -- the second prefix would end in the backslash
    have hl : q.getLast? = some backslash := by
      have hk : (key table q).getLast? = some 0 := by rw [hqy, getLast?_append]; rfl
      rw [key, foldAt_eq_map, map_map, getLast?_map] at hk
      obtain ⟨c, hc, hr⟩ := Option.map_eq_some_iff.mp hk
      rw [hc, (rank_upcase hup).mp hr]
    have hs := (key_eq_single hup).mpr (hq.last hl)
    rw [hqy] at hs
    have := congrArg length hs
    simp at this
    exact hp this
  rw [dropLast_append_of_ne_nil (cons_ne_nil _ _), dropLast_cons_of_ne_nil hy', count_append, count_cons_self]
  have := count_dropLast_le (key table p)
  omega

/-! ## The turns of a search -/

omit hup

/-- The nodes are in the order of their keys. -/
def KeyLt (table : WChar → WChar) (a b : PrefixNode) : Prop := key table a.Entry.Prefix < key table b.Entry.Prefix

lemma findTurn_eq {n : PrefixNode} : findTurn table s n = .eq ↔ IsNamePrefix table 0 n.Entry.Prefix s := by
  rw [← matching_iff, findTurn]
  cases compareUnicodeStrings table n.Entry.Prefix s 0 <;> simp [PrefixCompare.matching]

lemma findTurn_cases (table : WChar → WChar) (s : List WChar) (n : PrefixNode) :
    findTurn table s n = .eq ∧ IsNamePrefix table 0 n.Entry.Prefix s ∨
    findTurn table s n = .gt ∧ key table n.Entry.Prefix < key table s ∨
    findTurn table s n = .lt ∧ key table s < key table n.Entry.Prefix := by
  rcases compare_cases table n.Entry.Prefix s with ⟨h, -⟩ | ⟨h | h, hlt⟩ | ⟨h, hlt⟩
  · have heq : findTurn table s n = .eq := by simp [findTurn, h]
    exact .inl ⟨heq, findTurn_eq.mp heq⟩
  · exact .inr (.inl ⟨by simp [findTurn, h], hlt⟩)
  · have heq : findTurn table s n = .eq := by simp [findTurn, h]
    exact .inl ⟨heq, findTurn_eq.mp heq⟩
  · exact .inr (.inr ⟨by simp [findTurn, h], hlt⟩)

lemma insertTurn_cases (table : WChar → WChar) (s : List WChar) (n : PrefixNode) :
    insertTurn table s n = .eq ∧ key table s = key table n.Entry.Prefix ∨
    insertTurn table s n = .gt ∧ key table n.Entry.Prefix < key table s ∨
    insertTurn table s n = .lt ∧ key table s < key table n.Entry.Prefix := by
  rcases compare_cases table n.Entry.Prefix s with ⟨h, heq⟩ | ⟨h | h, hlt⟩ | ⟨h, hlt⟩
  · exact .inl ⟨by simp [insertTurn, h], heq.symm⟩
  · exact .inr (.inl ⟨by simp [insertTurn, h], hlt⟩)
  · exact .inr (.inl ⟨by simp [insertTurn, h], hlt⟩)
  · exact .inr (.inr ⟨by simp [insertTurn, h], hlt⟩)

lemma insertTurn_cut {ns : List PrefixNode} (h : ns.Pairwise (KeyLt table)) : Cut (insertTurn table s) ns := by
  refine h.imp fun {a b} hab => ⟨fun ha => ?_, fun hb => ?_⟩
  · have hlt : key table s < key table a.Entry.Prefix := by
      rcases insertTurn_cases table s a with ⟨h, -⟩ | ⟨h, -⟩ | ⟨-, h⟩
      · simp [h] at ha
      · simp [h] at ha
      · exact h
    have hsb := lt_trans hlt hab
    rcases insertTurn_cases table s b with ⟨-, h⟩ | ⟨-, h⟩ | ⟨h, -⟩
    · exact absurd hsb (h ▸ lt_irrefl _)
    · exact absurd hsb (lt_asymm h)
    · exact h
  have hlt : key table b.Entry.Prefix < key table s := by
    rcases insertTurn_cases table s b with ⟨h, -⟩ | ⟨-, h⟩ | ⟨h, -⟩
    · simp [h] at hb
    · exact h
    · simp [h] at hb
  have hsa := lt_trans hab hlt
  rcases insertTurn_cases table s a with ⟨-, h⟩ | ⟨h, -⟩ | ⟨-, h⟩
  · exact absurd hsa (h ▸ lt_irrefl _)
  · exact h
  · exact absurd hsa (lt_asymm h)

variable {ns : List PrefixNode} {c : Nat} (hsr : ns.Pairwise (KeyLt table))
  (hcl : ∀ n ∈ ns, CleanName n.Entry.Prefix ∧ nameCount n.Entry.Prefix = c)

include hup hsr hcl

lemma findTurn_cut : Cut (findTurn table s) ns := by
  refine hsr.imp_of_mem fun {a b} ha hb hab => ⟨fun hat => ?_, fun hbt => ?_⟩
  · have hlt : key table s < key table b.Entry.Prefix := by
      rcases findTurn_cases table s a with ⟨h, -⟩ | ⟨h, -⟩ | ⟨-, h⟩
      · simp [h] at hat
      · simp [h] at hat
      · exact lt_trans h hab
    rcases findTurn_cases table s b with ⟨-, h⟩ | ⟨-, h⟩ | ⟨h, -⟩
    · rcases initial_eq_or_lt h.keys with heq | hgt
      · exact absurd hlt (heq ▸ lt_irrefl _)
      · exact absurd hlt (lt_asymm hgt)
    · exact absurd hlt (lt_asymm h)
    · exact h
  · have hlt : key table b.Entry.Prefix < key table s := by
      rcases findTurn_cases table s b with ⟨h, -⟩ | ⟨-, h⟩ | ⟨h, -⟩
      · simp [h] at hbt
      · exact h
      · simp [h] at hbt
    rcases findTurn_cases table s a with ⟨-, h⟩ | ⟨h, -⟩ | ⟨-, h⟩
    · -- the first one fits the string, and the second one lies between
      have := nameCount_lt hup (hcl a ha).1.ne_nil (hcl b hb).1 h hab (.inr hlt)
      rw [(hcl a ha).2, (hcl b hb).2] at this
      omega
    · exact h
    · exact absurd (lt_trans hab hlt) (lt_asymm h)

lemma findTurn_unique : ns.Pairwise fun a b =>
    ¬ (IsNamePrefix table 0 a.Entry.Prefix s ∧ IsNamePrefix table 0 b.Entry.Prefix s) := by
  refine hsr.imp_of_mem fun {a b} ha hb hab hbt => ?_
  have := nameCount_lt hup (hcl a ha).1.ne_nil (hcl b hb).1 hbt.1 hab (initial_eq_or_lt hbt.2.keys)
  rw [(hcl a ha).2, (hcl b hb).2] at this
  omega

end FreeNT.Rtl
