import Mathlib.Data.List.Pairwise
import Mathlib.Data.List.Nodup
import FreeNT.Lib.Hull
import FreeNT.FsRtl.FileLock

/-!
# The table of ranges

The entries of the table are intervals of which no two touch, in their order (`Ranges`).
The routines that merge and restore shared entries keep that up:

* `swallow_spec`, `rebuild_spec`: an element takes in the entries that it touches, and
  is inserted in their place;
* `putBack_spec`: the ranges that an entry covered are put back, each covered by an entry
  that touches nothing but what the old one touched.
-/

namespace FreeNT.FsRtl

open FreeNT.Rtl SplayTree FreeNT.Interval List Option

def LockElement.span (e : LockElement) : Interval := ⟨e.StartingByte.toInt, e.EndingByte.toInt⟩

def LockSharedRange.span (r : LockSharedRange) : Interval := ⟨r.Start.toInt, r.End.toInt⟩

abbrev LockEntry := TableEntry LockElement

def entrySpan (e : LockEntry) : Interval := e.UserData.span

/-! ## Comparing -/

variable {x y : LockElement}

lemma lockCompare_cases (x y : LockElement) : lockCompare x y = .eq ∧ Touches x.span y.span ∨
    lockCompare x y = .lt ∧ Before x.span y.span ∨ lockCompare x y = .gt ∧ Before y.span x.span := by
  simp only [lockCompare, Touches, Before, LockElement.span]
  split
  · exact .inl ⟨rfl, by omega⟩
  split
  · exact .inr (.inl ⟨rfl, by omega⟩)
  split
  · exact .inr (.inr ⟨rfl, by omega⟩)
  · exact .inl ⟨rfl, by omega⟩

lemma lockCompare_eq : lockCompare x y = .eq ↔ Touches x.span y.span := by
  rcases lockCompare_cases x y with ⟨hc, h⟩ | ⟨hc, h⟩ | ⟨hc, h⟩
  · simp [hc, h]
  · simp [hc, h.not_touches]
  · simp [hc, mt Touches.symm h.not_touches]

lemma lockCompare_lt : lockCompare x y = .lt ↔ Before x.span y.span := by
  rcases lockCompare_cases x y with ⟨hc, h⟩ | ⟨hc, h⟩ | ⟨hc, h⟩
  · simp only [hc, reduceCtorEq, false_iff]
    exact fun hb => hb.not_touches h
  · simp [hc, h]
  · simp [hc, h.asymm]

lemma lockCompare_gt : lockCompare x y = .gt ↔ Before y.span x.span := by
  rcases lockCompare_cases x y with ⟨hc, h⟩ | ⟨hc, h⟩ | ⟨hc, h⟩
  · simp only [hc, reduceCtorEq, false_iff]
    exact fun hb => hb.not_touches h.symm
  · simp [hc, h.asymm]
  · simp [hc, h]

/-- The entries are valid intervals, each before the next one. -/
structure Ranges (t : GenericTable LockElement) : Prop where
  table : t.Ok
  sorted : t.entries.Pairwise fun a b => Before (entrySpan a) (entrySpan b)
  valid : ∀ e ∈ t.entries, (entrySpan e).Valid

variable {t t' : GenericTable LockElement}

lemma Ranges.cut (h : Ranges t) (x : LockElement) : Cut (fun e => lockCompare x e.UserData) t.entries :=
  h.sorted.imp fun hab => ⟨fun hlt => lockCompare_lt.mpr ((lockCompare_lt.mp hlt).trans hab),
    fun hgt => lockCompare_gt.mpr (hab.trans (lockCompare_gt.mp hgt))⟩

lemma Ranges.eq_of_touches (h : Ranges t) {a b : LockEntry} (ha : a ∈ t.entries) (hb : b ∈ t.entries)
    (ht : Touches (entrySpan a) (entrySpan b)) : a = b := by
  by_contra hne
  have hs : Std.Symm fun a b : LockEntry => ¬ Touches (entrySpan a) (entrySpan b) := ⟨fun a b h h' => h h'.symm⟩
  exact (h.sorted.imp Before.not_touches).forall ha hb hne ht

lemma Ranges.nodup (h : Ranges t) : t.entries.Nodup :=
  h.sorted.imp fun {a b} hb (heq : a = b) => hb.not_touches (heq ▸ .inr (.inr rfl))

lemma Ranges.of_entries (h : Ranges t) (hok : t'.Ok) (heq : t'.entries = t.entries) : Ranges t' :=
  ⟨hok, heq ▸ h.sorted, heq ▸ h.valid⟩

variable {e : LockEntry}

lemma Ranges.deleted (h : Ranges t) {ls : List LockEntry} {rs : List LockEntry}
    (hd : t.Deleted t' ls e rs) : Ranges t' := by
  have hs : t'.entries.Sublist t.entries := by
    rw [hd.before, hd.after]
    exact (Sublist.refl ls).append (sublist_cons_self e rs)
  exact ⟨hd.ok h.table, h.sorted.sublist hs, fun e he => h.valid e (hs.subset he)⟩

lemma Ranges.inserted (h : Ranges t) {ls : List LockEntry} {rs : List LockEntry}
    (hi : t.Inserted t' ls e rs) (hls : ∀ a ∈ ls, lockCompare e.UserData a.UserData = .gt)
    (hrs : ∀ a ∈ rs, lockCompare e.UserData a.UserData = .lt) (hv : (entrySpan e).Valid) : Ranges t' := by
  have hs := h.sorted
  rw [hi.before, pairwise_append] at hs
  refine ⟨hi.ok h.table, ?_, ?_⟩
  · rw [hi.after, pairwise_append, pairwise_cons]
    refine ⟨hs.1, ⟨fun a ha => lockCompare_lt.mp (hrs a ha), hs.2.1⟩, fun a ha b hb => ?_⟩
    rcases mem_cons.mp hb with rfl | hb
    · exact lockCompare_gt.mp (hls a ha)
    · exact hs.2.2 a ha b hb
  intro a ha
  rw [hi.after, mem_append, mem_cons] at ha
  rcases ha with ha | rfl | ha
  · exact h.valid a (by rw [hi.before]; exact mem_append_left _ ha)
  · exact hv
  · exact h.valid a (by rw [hi.before]; exact mem_append_right _ ha)

/-- A lookup leaves the entry it finds at the root, where it can be deleted. -/
structure Found (t t₁ : GenericTable LockElement) (x : LockElement) (e : LockEntry)
    (l r : SplayTree LockEntry) : Prop where
  root : t₁.TableRoot = .node l e r
  entries : t.entries = l.toList ++ e :: r.toList
  touches : Touches x.span (entrySpan e)
  ranges : Ranges t₁
  shared : t₁ = { t with TableRoot := .node l e r }

lemma lookup_found (hr : Ranges t) (h : rtlLookupElementGenericTable lockCompare t x = (some e, t')) :
    ∃ l r, Found t t' x e l r := by
  obtain ⟨l, r, rfl, he, heq⟩ := rtlLookup_found h
  exact ⟨l, r, rfl, he, lockCompare_eq.mp heq, hr.of_entries (hr.table.withRoot he.symm) he.symm, rfl⟩

lemma lookup_none (hr : Ranges t) (h : rtlLookupElementGenericTable lockCompare t x = (none, t')) :
    t' = t ∧ ∀ e ∈ t.entries, ¬ Touches x.span (entrySpan e) := by
  obtain ⟨rfl, hn⟩ := rtlLookup_none (hr.cut x) h
  exact ⟨rfl, fun e he ht => hn e he (lockCompare_eq.mpr ht)⟩

namespace Found

variable {t₁ : GenericTable LockElement} {e : LockEntry} {l r : SplayTree LockEntry}

section

variable (h : Found t t₁ x e l r)

include h

lemma entries_eq : t₁.entries = t.entries := by
  rw [h.entries, GenericTable.entries, h.root, toList_node]

lemma mem : e ∈ t.entries := by
  rw [h.entries]
  simp

lemma delete : ∃ t2, rtlDeleteElementGenericTable lockCompare t₁ e.UserData = (true, t2) ∧
    t2.TableRoot = remove l r [] ∧ Ranges t2 ∧ t2.entries = l.toList ++ r.toList := by
  obtain ⟨t2, hdl, hr, hd⟩ :=
    rtlDelete_root h.root (show lockCompare e.UserData e.UserData = .eq from lockCompare_eq.mpr (.inr (.inr rfl)))
  exact ⟨t2, hdl, hr, h.ranges.deleted hd, hd.after⟩

end

lemma not_mem (hr : Ranges t) (h : Found t t₁ x e l r) : e ∉ l.toList ++ r.toList := by
  have hnd := hr.nodup
  rw [h.entries, nodup_middle, nodup_cons] at hnd
  exact hnd.1

lemma mem_iff (h : Found t t₁ x e l r) {z : LockEntry} : z ∈ t.entries ↔ z = e ∨ z ∈ l.toList ++ r.toList := by
  rw [h.entries]
  simp only [mem_append, mem_cons]
  tauto

end Found

/-! ## Merging -/

lemma expand_span (x y : LockElement) : (fsRtlpExpandLockElement x y).span = hull x.span y.span := by
  simp only [fsRtlpExpandLockElement, LockElement.span, hull]
  split <;> split <;> simp_all <;> omega

/-- `y` is `x`, grown by the entries `gone`, and touches no more than they. -/
structure Grown (x y : LockElement) (gone : LockEntry → Prop) : Prop where
  same : y = { x with StartingByte := y.StartingByte, EndingByte := y.EndingByte }
  valid : y.span.Valid
  covers : Covers y.span x.span
  coversGone : ∀ e, gone e → Covers y.span (entrySpan e)
  touches : ∀ c, Touches y.span c → Touches x.span c ∨ ∃ e, gone e ∧ Touches (entrySpan e) c

lemma Grown.refl (hx : x.span.Valid) : Grown x x fun _ => False := ⟨rfl, hx, .refl _, nofun, fun _ h => .inl h⟩

lemma Grown.step {g : LockEntry → Prop} (hx : x.span.Valid) (he : (entrySpan e).Valid)
    (ht : Touches x.span (entrySpan e)) (h : Grown (fsRtlpExpandLockElement x e.UserData) y g) :
    Grown x y fun e' => e' = e ∨ g e' := by
  have hs : (fsRtlpExpandLockElement x e.UserData).span = hull x.span (entrySpan e) := expand_span x e.UserData
  refine ⟨h.same.trans ?_, h.valid, h.covers.trans (hs ▸ hull_covers_left ht), ?_, fun c hc => ?_⟩
  · simp only [fsRtlpExpandLockElement]
    split <;> split <;> rfl
  · rintro e' (rfl | hg)
    · exact h.covers.trans (hs ▸ hull_covers_right ht)
    · exact h.coversGone e' hg
  rcases h.touches c hc with hc | ⟨e', hg, hc⟩
  · rw [hs] at hc
    rcases touches_hull hx he ht hc with hc | hc
    · exact .inl hc
    · exact .inr ⟨e, .inl rfl, hc⟩
  · exact .inr ⟨e', .inr hg, hc⟩

lemma Grown.congr {g g' : LockEntry → Prop} (h : Grown x y g) (heq : ∀ e, g e ↔ g' e) : Grown x y g' := by
  rwa [show g' = g from funext fun e => propext (heq e).symm]

/-- The range of `y` is joined from that of `x` and those of the entries that `x` touches. -/
def JoinedFrom (t : GenericTable LockElement) (x y : LockElement) : Prop :=
  ∀ P, Joined P x.span → (∀ e ∈ t.entries, Touches x.span (entrySpan e) → Joined P (entrySpan e)) → Joined P y.span

lemma swallow_spec (hr : Ranges t) (hx : x.span.Valid) {k : Nat} (hfl : t.entries.length < k) :
    ∃ t' y, swallow k t x = some (t', y) ∧ Ranges t' ∧
      t'.entries = t.entries.filter (fun e => ¬ Touches x.span (entrySpan e)) ∧
      Grown x y (fun e => e ∈ t.entries ∧ Touches x.span (entrySpan e)) ∧ JoinedFrom t x y ∧
      ((∃ e ∈ t.entries, Touches x.span (entrySpan e)) ∨ AtStart t → AtStart t') := by
  induction k generalizing t x with
  | zero => cases hfl
  | succ k ih =>
    rw [swallow]
    rcases hl : rtlLookupElementGenericTable lockCompare t x with ⟨_ | e, t₁⟩
    · obtain ⟨rfl, hn⟩ := lookup_none hr hl
      refine ⟨t₁, x, rfl, hr, ?_, (Grown.refl hx).congr fun e => ⟨False.elim, fun h => hn e h.1 h.2⟩,
        fun P hP _ => hP, fun h => ?_⟩
      · exact (filter_eq_self.mpr fun e he => decide_eq_true (hn e he)).symm
      · exact h.resolve_left fun ⟨e, he, ht⟩ => hn e he ht
    obtain ⟨l, r, hf⟩ := lookup_found hr hl
    obtain ⟨t2, hd, -, hr2, hen⟩ := hf.delete
    have hvalid := hr.valid e hf.mem
    have hsp : (fsRtlpExpandLockElement x e.UserData).span = hull x.span (entrySpan e) := expand_span x e.UserData
    have hg : (fsRtlpExpandLockElement x e.UserData).span.Valid := hsp ▸ hull_valid hx
    -- the grown element touches those of the other entries that the element touches
    have hs : ∀ z ∈ t2.entries, Touches (fsRtlpExpandLockElement x e.UserData).span (entrySpan z) ↔
        Touches x.span (entrySpan z) := fun z hz => by
      rw [hen] at hz
      rw [hsp]
      refine ⟨fun h => (touches_hull hx hvalid hf.touches h).resolve_right fun h => ?_,
        (hull_covers_left hf.touches).touches_of⟩
      exact hf.not_mem hr (hr.eq_of_touches hf.mem (hf.mem_iff.mpr (.inr hz)) h ▸ hz)
    have hlt : t2.entries.length < k := by
      rw [hf.entries, length_append, length_cons] at hfl
      rw [hen, length_append]
      omega
    obtain ⟨t', y, hrs, hr', hen', hy, hj, hst⟩ := ih hr2 hg hlt
    refine ⟨t', y, ?_, hr', ?_, (hy.step hx hvalid hf.touches).congr fun z => ?_, fun P hPx hPt => ?_,
      fun _ => hst (.inr (atStart_deleted hd))⟩
    · dsimp only
      rw [hd]
      exact hrs
    · rw [hen', filter_congr fun z hz => decide_eq_decide.mpr (not_congr (hs z hz)), hen,
        hf.entries, filter_append,
        filter_append, filter_cons, if_neg (by simp [hf.touches])]
    · rw [hf.mem_iff, ← hen]
      constructor
      · rintro (rfl | ⟨hz, hzt⟩)
        · exact ⟨.inl rfl, hf.touches⟩
        · exact ⟨.inr hz, (hs z hz).mp hzt⟩
      rintro ⟨rfl | hz, hzt⟩
      · exact .inl rfl
      · exact .inr ⟨hz, (hs z hz).mpr hzt⟩
    · refine hj P (hsp ▸ hPx.join (hPt e hf.mem hf.touches) hf.touches) fun z hz hzt => ?_
      exact hPt z (hf.mem_iff.mpr (.inr (hen ▸ hz))) ((hs z hz).mp hzt)

/-- The entry `e` has taken the place of those that `x` touches. -/
structure Rebuilt (t t' : GenericTable LockElement) (x : LockElement) (e : LockEntry) : Prop where
  ranges : Ranges t'
  entries : ∃ ls rs, ls ++ rs = t.entries.filter (fun z => ¬ Touches x.span (entrySpan z)) ∧
    t'.entries = ls ++ e :: rs
  grown : Grown x e.UserData fun z => z ∈ t.entries ∧ Touches x.span (entrySpan z)

lemma Rebuilt.mem_iff {z : LockEntry} (h : Rebuilt t t' x e) :
    z ∈ t'.entries ↔ z = e ∨ z ∈ t.entries ∧ ¬ Touches x.span (entrySpan z) := by
  obtain ⟨ls, rs, hr, he⟩ := h.entries
  have hif : z ∈ ls ++ rs ↔ z ∈ t.entries ∧ ¬ Touches x.span (entrySpan z) := by
    rw [hr, mem_filter, decide_eq_true_eq]
  rw [he, ← hif]
  simp only [mem_append, mem_cons]
  tauto

lemma rebuild_spec (hr : Ranges t) (hx : x.span.Valid) {p p' : List Bool}
    (h : fsRtlpRebuildSharedLockRange t x p = some (t', p')) : ∃ e, Rebuilt t t' x e ∧ JoinedFrom t x e.UserData ∧
      ((∃ e ∈ t.entries, Touches x.span (entrySpan e)) ∨ AtStart t → AtStart t') := by
  obtain ⟨t₁, y, hs, hr1, he, hy, hj, hst⟩ :=
    swallow_spec hr hx (Nat.lt_succ_of_le (Nat.le_of_eq hr.table.count.symm))
  rw [fsRtlpRebuildSharedLockRange, hs, do_some] at h
  obtain ⟨⟨re, t2, p2⟩, hin, h⟩ := bind_eq_some_iff.mp h
  rcases rtlInsert_cases (hr1.cut y) hin with ⟨l, e, r, rfl, -⟩ | ⟨-, ⟨rfl, -⟩ | ⟨ls, rs, rfl, his, hls, hrs⟩⟩
  · cases h
  · cases h
  cases h
  refine ⟨_, ⟨hr1.inserted his hls hrs hy.valid, ⟨ls, rs, ?_, his.after⟩, hy⟩, hj, fun h => (hst h).inserted hin⟩
  rw [← he, his.before]

def Exclusive (e : LockEntry) : Bool := e.UserData.ExclusiveLock

/-- From `t` to `t'` shared entries were merged, or made new; those that do not touch `s` stayed. -/
structure Restored (s : Interval) (t t' : GenericTable LockElement) : Prop where
  ranges : Ranges t'
  exclusive : t'.entries.filter Exclusive = t.entries.filter Exclusive
  covered : ∀ z ∈ t.entries, ¬ Exclusive z → ∃ z' ∈ t'.entries, ¬ Exclusive z' ∧
    Covers (entrySpan z') (entrySpan z)
  others : ∀ z ∈ t.entries, ¬ Touches s (entrySpan z) → z ∈ t'.entries
  inside : ∀ z ∈ t'.entries, z ∈ t.entries ∨ ¬ Exclusive z

lemma Restored.refl (hr : Ranges t) (s : Interval) : Restored s t t :=
  ⟨hr, rfl, fun z hz hs => ⟨z, hz, hs, .refl _⟩, fun _ hz _ => hz, fun _ hz => .inl hz⟩

lemma Restored.trans {s : Interval} {t'' : GenericTable LockElement} (h : Restored s t t')
    (h' : Restored s t' t'') :
    Restored s t t'' := by
  refine ⟨h'.ranges, h'.exclusive.trans h.exclusive, fun z hz hs => ?_, fun z hz ht =>
    h'.others z (h.others z hz ht) ht,
    fun z hz => ?_⟩
  · obtain ⟨z', hz', hs', hc⟩ := h.covered z hz hs
    obtain ⟨z'', hz'', hs'', hc'⟩ := h'.covered z' hz' hs'
    exact ⟨z'', hz'', hs'', hc'.trans hc⟩
  rcases h'.inside z hz with hz | hs
  · exact h.inside z hz
  · exact .inr hs

lemma Rebuilt.restored {s : Interval} (h : Rebuilt t t' x e) (hx : x.ExclusiveLock = false)
    (hs : ∀ z ∈ t.entries, Touches x.span (entrySpan z) → ¬ Exclusive z) (hc : Covers s x.span) :
    Restored s t t' ∧ e ∈ t'.entries ∧ ¬ Exclusive e := by
  obtain ⟨ls, rs, hr, hen⟩ := h.entries
  have he : ¬ Exclusive e := by
    rw [Exclusive, h.grown.same, hx]
    decide
  have hm := fun z => h.mem_iff (z := z)
  refine ⟨⟨h.ranges, ?_, fun z hz hzs => ?_, fun z hz ht => ?_, fun z hz => ?_⟩, (hm e).mpr (.inl rfl), he⟩
  · rw [hen, List.filter_append, List.filter_cons, if_neg he, ← List.filter_append, hr, List.filter_filter]
    refine filter_congr fun z hz => ?_
    by_cases hzx : Exclusive z = true
    · simp only [hzx, Bool.true_and, decide_eq_true_eq]
      exact fun ht => hs z hz ht hzx
    · simp [hzx]
  · by_cases ht : Touches x.span (entrySpan z)
    · exact ⟨e, (hm e).mpr (.inl rfl), he, h.grown.coversGone z ⟨hz, ht⟩⟩
    · exact ⟨z, (hm z).mpr (.inr ⟨hz, ht⟩), hzs, .refl _⟩
  · exact (hm z).mpr (.inr ⟨hz, fun ht' => ht (hc.touches_of ht')⟩)
  rcases (hm z).mp hz with rfl | hz
  · exact .inr he
  · exact .inl hz.1

/-- The shared entries are joined from intervals with `P`. -/
def SharedJoined (P : Interval → Prop) (t : GenericTable LockElement) : Prop :=
  ∀ z ∈ t.entries, ¬ Exclusive z → Joined P (entrySpan z)

lemma Rebuilt.sharedJoined {P : Interval → Prop} (h : Rebuilt t t' x e) (hj : JoinedFrom t x e.UserData)
    (hs : ∀ z ∈ t.entries, Touches x.span (entrySpan z) → ¬ Exclusive z) (hx : Joined P x.span)
      (ht : SharedJoined P t) :
    SharedJoined P t' := fun z hz hzs => by
  rcases h.mem_iff.mp hz with rfl | ⟨hz, -⟩
  · exact hj P hx fun z hz hzt => ht z hz (hs z hz hzt)
  · exact ht z hz hzs

/-! ## Putting ranges back -/

lemma putBack_spec {find : LockElement} {fo : Nat} {rs : List LockSharedRange} (hr : Ranges t)
    (hv : ∀ r ∈ rs, r.span.Valid) (hf : ∀ r ∈ rs, Touches find.span r.span → Covers find.span r.span)
    (hs : ∀ z ∈ t.entries, Touches find.span (entrySpan z) → ¬ Exclusive z) {p p' : List Bool}
    (h : putBack find fo rs t p = some (t', p')) : Restored find.span t t' ∧
      (∀ r ∈ rs, Touches find.span r.span → ∃ e ∈ t'.entries, ¬ Exclusive e ∧ Covers (entrySpan e) r.span) ∧
      (∀ P : Interval → Prop, (∀ r ∈ rs, P r.span) → SharedJoined P t → SharedJoined P t') ∧
        (AtStart t → AtStart t') := by
  induction rs generalizing t p with
  | nil =>
    cases h
    exact ⟨.refl hr _, nofun, fun _ _ ht => ht, id⟩
  | cons r rs ih =>
    have hv' := fun r' hr' => hv r' (mem_cons_of_mem _ hr')
    have hf' := fun r' hr' => hf r' (mem_cons_of_mem _ hr')
    have hsp : (r.element fo).span = r.span := rfl
    rw [putBack] at h
    split at h
    · rename_i hcm
      have ht : ¬ Touches find.span r.span := fun ht => hcm (lockCompare_eq.mpr ht)
      obtain ⟨hrs, hcv, hj, hst⟩ := ih hr hv' hf' hs h
      exact ⟨hrs, forall_mem_cons.mpr ⟨fun h => absurd h ht, hcv⟩, fun P hP => hj P (forall_mem_cons.mp hP).2, hst⟩
    rename_i hcm
    have ht : Touches find.span r.span := lockCompare_eq.mp (not_not.mp hcm)
    have hc := hf r mem_cons_self ht
    obtain ⟨⟨t₁, p1⟩, hrb, h⟩ := bind_eq_some_iff.mp h
    obtain ⟨e, he, hj1, hst1⟩ := rebuild_spec hr (show (r.element fo).span.Valid from hv r mem_cons_self) hrb
    have hsr : ∀ z ∈ t.entries, Touches (r.element fo).span (entrySpan z) → ¬ Exclusive z := fun z hz hzt =>
      hs z hz (hc.touches_of hzt)
    obtain ⟨hrs1, hem, hes⟩ := he.restored rfl hsr hc
    have hs1 : ∀ z ∈ t₁.entries, Touches find.span (entrySpan z) → ¬ Exclusive z := fun z hz hzt =>
      (hrs1.inside z hz).elim (fun hz => hs z hz hzt) id
    obtain ⟨hrs, hcv, hj, hst⟩ := ih hrs1.ranges hv' hf' hs1 h
    refine ⟨hrs1.trans hrs, forall_mem_cons.mpr ⟨fun _ => ?_, hcv⟩, fun P hP ht => ?_, fun ht =>
      hst (hst1 (.inr ht))⟩
    · obtain ⟨z, hz, hzs, hzc⟩ := hrs.covered e hem hes
      exact ⟨z, hz, hzs, hzc.trans (hsp ▸ he.grown.covers)⟩
    · obtain ⟨hPr, hPrs⟩ := forall_mem_cons.mp hP
      exact hj P hPrs (he.sharedJoined hj1 hsr (.one hPr) ht)

end FreeNT.FsRtl
