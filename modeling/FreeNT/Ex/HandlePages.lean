import FreeNT.Ex.Handle

/-!
# The pages of a handle table

`Paged c n`: the table code `c` leads to the `n` pages it has room for, whatever its level,
and to no other. Then the entries below `512 * n` can be read and written as if they were
one array (`Paged.entry_setEntry`), and a new page comes after them
(`growTable_spec`).
-/

namespace FreeNT.Ex

open TableCode HandleTable Option Function

variable {c : TableCode} {n i j k : Nat} {e : HandleEntry} {page : LowTable}

/-- The most pages that a table can have. -/
def maxPages : Nat := 32 * 1024

def Paged : TableCode → Nat → Prop
  | .low _, n => n = 1
  | .mid table, n => 2 ≤ n ∧ n ≤ 1024 ∧ ∀ k < 1024, (table k).isSome = true ↔ k < n
  | .high table, n => 1024 < n ∧ n ≤ maxPages ∧ (∀ a < 32, (table a).isSome = true ↔ a * 1024 < n) ∧
    ∀ a m, table a = some m → ∀ b < 1024, (m b).isSome = true ↔ a * 1024 + b < n

section

variable (h : Paged c n)

include h

lemma Paged.le_max : 1 ≤ n ∧ n ≤ maxPages := by
  unfold maxPages
  cases c with
  | low => have : n = 1 := h; omega
  | mid => have := h.1; have := h.2.1; omega
  | high => have := h.1; have := h.2.1; unfold maxPages at this; omega

lemma Paged.isSome_page (hk : k < n) : (c.page k).isSome := by
  have hle := h.le_max.2
  unfold maxPages at hle
  cases c with
  | low => rfl
  | mid t =>
    obtain ⟨-, hmd, ht⟩ := h
    exact (ht (k % 1024) (by omega)).mpr (by omega)
  | high t =>
    obtain ⟨-, -, hh, hmd⟩ := h
    obtain ⟨m, hm⟩ := isSome_iff_exists.mp ((hh (k / 1024 % 1024) (by omega)).mpr (by omega))
    simp only [page, hm, bind_some]
    exact (hmd _ m hm (k % 1024) (by omega)).mpr (by omega)

lemma Paged.page_setPage (hk : k < n) (hj : j < n) :
    (c.setPage k page).page j = if j = k then some page else c.page j := by
  have hle := h.le_max.2
  unfold maxPages at hle
  cases c with
  | low =>
    have : n = 1 := h
    rw [if_pos (by omega)]
    rfl
  | mid t =>
    have := h.2.1
    simp only [setPage, TableCode.page, update_apply]
    rw [Nat.mod_eq_of_lt (show j < 1024 by omega), Nat.mod_eq_of_lt (show k < 1024 by omega)]
  | high t =>
    obtain ⟨-, -, hh, hmd⟩ := h
    obtain ⟨m, hm⟩ := isSome_iff_exists.mp ((hh (k / 1024 % 1024) (by omega)).mpr (by omega))
    simp only [setPage, TableCode.page, update_apply, hm, map_some]
    by_cases hhi : j / 1024 % 1024 = k / 1024 % 1024
    · rw [if_pos hhi, bind_some, hhi, hm, bind_some, update_apply]
      by_cases hlo : j % 1024 = k % 1024
      · rw [if_pos hlo, if_pos (by omega)]
      · rw [if_neg hlo, if_neg (show ¬ j = k from fun h => hlo (h ▸ rfl))]
    · rw [if_neg hhi, if_neg (show ¬ j = k from fun h => hhi (h ▸ rfl))]

lemma Paged.setPage (hk : k < n) : Paged (c.setPage k page) n := by
  have hle := h.le_max.2
  unfold maxPages at hle
  cases c with
  | low => exact h
  | mid t =>
    obtain ⟨h1, h2, ht⟩ := h
    refine ⟨h1, h2, fun b hb => ?_⟩
    rw [update_apply]
    split
    · simp only [isSome_some, true_iff]
      omega
    · exact ht b hb
  | high t =>
    obtain ⟨h1, h2, hh, hmd⟩ := h
    obtain ⟨m, hm⟩ := isSome_iff_exists.mp ((hh (k / 1024 % 1024) (by omega)).mpr (by omega))
    refine ⟨h1, h2, fun a ha => ?_, fun a m' hm' b hb => ?_⟩
    · rw [update_apply]
      split
      case isTrue heq =>
        rw [hm, heq]
        simp only [map_some, isSome_some, true_iff]
        omega
      case isFalse => exact hh a ha
    rw [update_apply] at hm'
    split at hm'
    case isTrue heq =>
      rw [hm, map_some, some.injEq] at hm'
      subst hm' heq
      rw [update_apply]
      split
      · simp only [isSome_some, true_iff]
        omega
      · exact hmd _ m hm b hb
    case isFalse => exact hmd a m' hm' b hb

lemma Paged.setEntry (hi : i < 512 * n) : Paged (c.setEntry i e) n := by
  obtain ⟨page, hp⟩ := isSome_iff_exists.mp (h.isSome_page (show i / 512 < n by omega))
  rw [TableCode.setEntry, hp]
  exact h.setPage (by omega)

lemma Paged.entry_setEntry (hi : i < 512 * n) (hj : j < 512 * n) :
    (c.setEntry i e).entry j = if j = i then some e else c.entry j := by
  obtain ⟨page, hpg⟩ := isSome_iff_exists.mp (h.isSome_page (show i / 512 < n by omega))
  rw [TableCode.setEntry, hpg]
  rw [entry, h.page_setPage (by omega) (by omega)]
  by_cases hp : j / 512 = i / 512
  · rw [if_pos hp, map_some, update_apply]
    by_cases hl : j % 512 = i % 512
    · rw [if_pos hl, if_pos (by omega)]
    · rw [if_neg hl, if_neg (show ¬ j = i from fun h => hl (h ▸ rfl)), entry, hp, hpg, map_some]
  · rw [if_neg hp, if_neg (show ¬ j = i from fun h => hp (h ▸ rfl))]
    rfl

end

lemma Paged.entries_set {E : Nat → HandleEntry} (h : Paged c n) (hE : ∀ j < 512 * n, c.entry j = some (E j))
    (hi : i < 512 * n) : ∀ j < 512 * n, (c.setEntry i e).entry j = some (update E i e j) := by
  intro j hj
  rw [h.entry_setEntry hi hj, update_apply, hE j hj]
  split <;> rfl

/-- The new code has the old pages and the new one. -/
structure Grown (c c' : TableCode) (n : Nat) (new : LowTable) : Prop where
  paged : Paged c' (n + 1)
  old : ∀ k < n, c'.page k = c.page k
  new : c'.page n = some new

variable {new : LowTable}

lemma grown_low {b : LowTable} :
    Grown (.low b) (.mid fun k => if k = 1 then some new else if k = 0 then some b else none) 1 new := by
  refine ⟨⟨Nat.le_refl _, by decide, fun k _ => ?_⟩, fun k hk => ?_, rfl⟩
  · by_cases h1 : k = 1
    · simp [h1]
    by_cases h0 : k = 0
    · simp [h0]
    · simp only [h1, h0, if_false, isSome_none, Bool.false_eq_true, false_iff]
      omega
  · obtain rfl : k = 0 := by omega
    rfl

lemma grown_mid {t : MidTable} (h : Paged (.mid t) n) (hn : n < 1024) :
    Grown (.mid t) (.mid (update t n (some new))) n new := by
  obtain ⟨h1, h2, ht⟩ := h
  refine ⟨⟨by omega, by omega, fun k hk => ?_⟩, fun k hk => ?_, ?_⟩
  · rw [update_apply]
    split
    case isTrue heq => simp [heq]
    case isFalse hne =>
      rw [ht k hk]
      omega
  · simp only [page]
    rw [update_of_ne (by omega)]
  · simp only [page]
    rw [Nat.mod_eq_of_lt hn, update_self]

lemma grown_mid_full {t : MidTable} (h : Paged (.mid t) 1024) :
    Grown (.mid t) (.high fun k => if k = 0 then some t else if k = 1 then some (firstPage new) else none) 1024
      new := by
  obtain ⟨h1, h2, ht⟩ := h
  refine ⟨⟨by omega, by decide, fun a ha => ?_, fun a m hm b hb => ?_⟩, fun k hk => ?_, rfl⟩
  · dsimp only
    split
    · simp only [isSome_some, true_iff]
      omega
    split
    · simp only [isSome_some, true_iff]
      omega
    · simp only [isSome_none, Bool.false_eq_true, false_iff]
      omega
  · dsimp only at hm
    split at hm
    case isTrue h0 =>
      cases hm
      rw [ht b hb]
      omega
    case isFalse h0 =>
      split at hm
      case isTrue h1 =>
        cases hm
        rw [firstPage]
        split
        · simp only [isSome_some, true_iff]
          omega
        · simp only [isSome_none, Bool.false_eq_true, false_iff]
          omega
      case isFalse => cases hm
  · simp only [page]
    rw [if_pos (by omega), bind_some]

lemma grown_high {t : Nat → Option MidTable} {m' : MidTable} (h : Paged (.high t) n)
    (hn : n < maxPages) (ho : ∀ b < 1024, b ≠ n % 1024 →
      m' b = (t (n / 1024)).bind fun m => m b) (hnw : m' (n % 1024) = some new) :
    Grown (.high t) (.high (update t (n / 1024) (some m'))) n new := by
  obtain ⟨h1, h2, hh, hmd⟩ := h
  unfold maxPages at hn
  have his (b : Nat) (hb : b < 1024) : (m' b).isSome ↔ n / 1024 * 1024 + b < n + 1 := by
    by_cases hl : b = n % 1024
    · rw [hl, hnw]
      simp only [isSome_some, true_iff]
      omega
    rw [ho b hb hl]
    cases hm : t (n / 1024) with
    | none =>
      have hlt : n ≤ n / 1024 * 1024 := Nat.le_of_not_lt (mt (hh (n / 1024) (by omega)).mpr (by rw [hm]; decide))
      simp only [bind_none, isSome_none, Bool.false_eq_true, false_iff]
      intro hb'
      exact hl (by omega)
    | some m =>
      rw [bind_some, hmd _ m hm b hb]
      omega
  refine ⟨⟨by omega, by unfold maxPages; omega, fun a ha => ?_, fun a m hm b hb => ?_⟩, fun k hk => ?_, ?_⟩
  · rw [update_apply]
    split
    · simp only [isSome_some, true_iff]
      omega
    · rw [hh a ha]
      omega
  · rw [update_apply] at hm
    split at hm
    case isTrue heq =>
      cases hm
      rw [heq]
      exact his b hb
    case isFalse hne =>
      rw [hmd a m hm b hb]
      omega
  · simp only [page, update_apply]
    split
    case isTrue heq =>
      rw [bind_some, ho _ (by omega) (by omega), heq]
    case isFalse => rfl
  · simp only [page]
    rw [Nat.mod_eq_of_lt (show n / 1024 < 1024 by omega), update_self, bind_some, hnw]

/-- The table grows by a page, or there is no memory, or it is full. -/
lemma growTable_spec {t : HandleTable} (a : Nat → Bool) (h : Paged t.TableCode n)
    (hn : t.NextHandleNeedingPool = 4 * (512 * n)) :
    growTable a t = some none ∧ ((∀ k, a k) → maxPages ≤ n) ∨ ∃ c, growTable a t = some (some c) ∧
        Grown t.TableCode c n (expAllocateLowLevelTable t.NextHandleNeedingPool) := by
  unfold growTable
  rw [hn]
  cases hc : t.TableCode with
  | low bs =>
    rw [hc] at h
    obtain rfl : n = 1 := h
    dsimp only
    split
    · exact .inr ⟨_, rfl, grown_low⟩
    · exact .inl ⟨rfl, fun ha => by simp_all⟩
  | mid tb =>
    rw [hc] at h
    dsimp only
    rw [show 4 * (512 * n) / (4 * 512) = n by omega]
    split
    case isTrue hlt =>
      split
      · have hno : ¬ (tb n).isSome := fun hs => by
          have := (h.2.2 n hlt).mp hs
          omega
        rw [if_neg hno]
        exact .inr ⟨_, rfl, grown_mid h hlt⟩
      · exact .inl ⟨rfl, fun ha => by simp_all⟩
    case isFalse hge =>
      obtain rfl : n = 1024 := by have := h.2.1; omega
      split
      · exact .inr ⟨_, rfl, grown_mid_full h⟩
      · exact .inl ⟨rfl, fun ha => by simp_all⟩
  | high tb =>
    rw [hc] at h
    dsimp only
    rw [show 4 * (512 * n) / (4 * (1024 * 512)) = n / 1024 by omega]
    split
    · exact .inl ⟨rfl, fun _ => by unfold maxPages; omega⟩
    have hlt : n < maxPages := by unfold maxPages; omega
    cases hm : tb (n / 1024) with
    | none =>
      dsimp only
      split
      · -- the first page of a new mid level table
        have hf : n % 1024 = 0 := by
          have := mt (h.2.2.1 (n / 1024) (by omega)).mpr (by rw [hm]; decide)
          omega
        refine .inr ⟨_, rfl, grown_high h hlt (fun b _ hne => ?_) ?_⟩
        · rw [hm, bind_none, firstPage, if_neg (by omega)]
        · rw [firstPage, if_pos hf]
      · exact .inl ⟨rfl, fun ha => by simp_all⟩
    | some m =>
      dsimp only
      rw [show (4 * (512 * n) / 4 - n / 1024 * (1024 * 512)) / 512 = n % 1024 by omega]
      split
      · have hno : ¬ (m (n % 1024)).isSome := fun hs => by
          have := (h.2.2.2 _ m hm (n % 1024) (by omega)).mp hs
          omega
        rw [if_neg hno]
        refine .inr ⟨_, rfl, grown_high h hlt (fun b _ hne => ?_) (update_self ..)⟩
        rw [hm, bind_some, update_of_ne hne]
      · exact .inl ⟨rfl, fun ha => by simp_all⟩

end FreeNT.Ex
