import FreeNT.Rtl.Bitmap

/-!
# Searching a bitmap for a run (`lib/rtl/bitmap.c`)

`RtlFindClearBits` and `RtlFindSetBits` look for a run of `n` bits from the hint on, and then, if
there is none, from the front. Their loops are instances of one search (`searchLoop`): skip
the bits that are not wanted, measure the run that follows, and go on behind it. The search
finds the next run as long as the loop is entered before it (`searchLoop_spec`).

`RtlFindSetBits` enters its loop while the run can end at the margin, `RtlFindClearBits` only
while it ends before it. A run can start where the loop is entered only in the first turn, so
just two searches go wrong (`MissedRun`): that for a run as long as the bitmap, and that with the hint at
the last place where a run can start.
-/

namespace FreeNT.Rtl

open RtlBitmap

open Nat

/-! ## One search -/

/-- The bits `i`, …, `i + n - 1` are there, and wanted. -/
structure IsRun (want : Nat → Bool) (size n i : Nat) : Prop where
  le : i + n ≤ size
  all : ∀ j, i ≤ j → j < i + n → want j = true

/-- The first run from `start` on. -/
structure FirstRun (want : Nat → Bool) (size n start i : Nat) : Prop where
  le : start ≤ i
  run : IsRun want size n i
  first : ∀ j, start ≤ j → j < i → ¬ IsRun want size n j

/-- What the search is given: `skip` passes the bits that are not wanted, and `run` measures the
run of wanted bits up to the length `n`. -/
structure Scans (want : Nat → Bool) (size n : Nat) (skip run : Nat → Nat) : Prop where
  skip_le : ∀ c < size, skip c ≤ size - c
  skip_not : ∀ c < size, ∀ i, c ≤ i → i < c + skip c → want i = false
  skip_end : ∀ c < size, c + skip c = size ∨ want (c + skip c) = true
  run_le : ∀ c < size, run c ≤ size - c
  run_all : ∀ c < size, ∀ i, c ≤ i → i < c + run c → want i = true
  run_end : ∀ c < size, min n (size - c) ≤ run c ∨ want (c + run c) = false
  run_size : run size = 0

variable {cur : Nat}

variable {i : Nat}

section search

variable {w : Nat → Bool} {z n : Nat} {skip run : Nat → Nat} {e : Nat → Prop} [DecidablePred e]

lemma FirstRun.unique {s j : Nat} (hi : FirstRun w z n s i) (hj : FirstRun w z n s j) : i = j := by
  rcases lt_trichotomy i j with hlt | heq | hlt
  · exact absurd hi.run (hj.first i hi.le hlt)
  · exact heq
  · exact absurd hj.run (hi.first j hj.le hlt)

/-- One turn: either it finds the first run, or it goes on at a place behind `cur` up to which no run starts. -/
lemma searchTurn (h : Scans w z n skip run) (hn : 0 < n) (hcr : cur < z) :
    (n ≤ run (cur + skip cur) ∧ FirstRun w z n cur (cur + skip cur)) ∨
      (run (cur + skip cur) < n ∧ cur < cur + skip cur + run (cur + skip cur) ∧
        cur + skip cur + run (cur + skip cur) ≤ z ∧
        ∀ j, cur ≤ j → j ≤ cur + skip cur + run (cur + skip cur) → ¬ IsRun w z n j) := by
  have hle := h.skip_le cur hcr
  generalize hc : cur + skip cur = c at *
  have hs (j : Nat) (h1 : cur ≤ j) (h2 : j < c) : ¬ IsRun w z n j := fun hr => by
    have hw := hr.all j (le_refl j) (by omega)
    rw [h.skip_not cur hcr j h1 (by omega)] at hw
    exact nomatch hw
  by_cases he : c = z
  · -- nothing is left
    have hz : run c = 0 := by rw [he, h.run_size]
    refine .inr ⟨by omega, by omega, by omega, fun j h1 h2 hr => ?_⟩
    have hrun_le := hr.le
    exact hs j h1 (by omega) hr
  have hc' : c < z := by omega
  have hw : w c := by
    rw [← hc]
    exact (h.skip_end cur hcr).resolve_left (by omega)
  have hrun_le := h.run_le c hc'
  by_cases hl : n ≤ run c
  · exact .inl ⟨hl, by omega, ⟨by omega, fun j h1 h2 => h.run_all c hc' j h1 (by omega)⟩, hs⟩
  refine .inr ⟨by omega, ?_, by omega, fun j h1 h2 hr => ?_⟩
  · -- the bit at `c` is wanted, so its run is not empty
    rcases h.run_end c hc' with hm | hnt
    · omega
    have hne : run c ≠ 0 := by
      intro hz
      rw [hz, add_zero, hw] at hnt
      exact nomatch hnt
    omega
  by_cases hjc : j < c
  · exact hs j h1 hjc hr
  have hr' := hr.le
  rcases h.run_end c hc' with hm | hnt
  · omega
  have hw' := hr.all (c + run c) h2 (by omega)
  rw [hnt] at hw'
  exact nomatch hw'

/-- The loop is entered below `top`. It finds the first run from `cur` on; if it ends without one,
it was not entered at all, or no run starts up to `top`. -/
lemma searchLoop_spec (h : Scans w z n skip run) (hn : 0 < n) {top : Nat} (ht : top ≤ z)
    (he : ∀ c ≤ z, e c ↔ c < top) {k : Nat} (hc : cur ≤ z) (hf : z - cur < k) :
    (∃ i, searchLoop skip run e n k cur = some (some i) ∧ FirstRun w z n cur i) ∨
      (searchLoop skip run e n k cur = some none ∧
        (top ≤ cur ∨ ∀ j, cur ≤ j → j ≤ top → ¬ IsRun w z n j)) := by
  induction k generalizing cur with
  | zero => omega
  | succ k ih =>
    rw [searchLoop]
    by_cases hin : cur < top
    swap
    · rw [if_neg fun hm => hin ((he cur hc).mp hm)]
      exact .inr ⟨rfl, .inl (by omega)⟩
    rw [if_pos ((he cur hc).mpr hin)]
    rcases searchTurn h hn (show cur < z by omega) with ⟨hln, hfs⟩ | ⟨hs, hlt, hle, hno⟩
    · exact .inl ⟨_, if_pos hln, hfs⟩
    rw [if_neg (by omega)]
    generalize cur + skip cur + run (cur + skip cur) = next at *
    rcases ih hle (by omega) with ⟨i, hl, hfs⟩ | ⟨hl, hr⟩
    · refine .inl ⟨i, hl, by have := hfs.le; omega, hfs.run, fun j h1 h2 => ?_⟩
      by_cases hj : j ≤ next
      · exact hno j h1 hj
      · exact hfs.first j (by omega) h2
    refine .inr ⟨hl, .inr fun j h1 h2 => ?_⟩
    by_cases hj : j ≤ next
    · exact hno j h1 hj
    · exact hr.elim (fun ht => by omega) fun hr => hr j (by omega) h2

lemma searchLoop_stop {k : Nat} (hs : ¬ e cur) : searchLoop skip run e n (k + 1) cur = some none := by
  rw [searchLoop, if_neg hs]

end search

/-! ## The answer -/

/-- The answer of a search with a hint: the first run from the hint on, else the first run, else `MAXINDEX`. -/
def IsAnswer (want : Nat → Bool) (size n hint r : Nat) : Prop :=
  FirstRun want size n hint r ∨ (∀ j, hint ≤ j → ¬ IsRun want size n j) ∧
      (FirstRun want size n 0 r ∨ (∀ j, ¬ IsRun want size n j) ∧ r = MAXINDEX)

/-- The searches that `RtlFindClearBits` gets wrong: that for a run as long as the bitmap, and
that with the hint at the last place where a run can start, if there is a run there and another
one before it. -/
def MissedRun (want : Nat → Bool) (size n hint : Nat) : Prop :=
  0 < n ∧ ((n = size ∧ IsRun want size n 0) ∨
    (hint + n = size ∧ IsRun want size n hint ∧ ∃ j < hint, IsRun want size n j))

variable {r : Nat}

section answer

variable {w : Nat → Bool} {z n hint : Nat}

lemma IsAnswer.unique {s : Nat} (hr : IsAnswer w z n hint r) (hs : IsAnswer w z n hint s) : r = s := by
  rcases hr with hr | ⟨hn, hr⟩
  · rcases hs with hs | ⟨hn, -⟩
    · exact hr.unique hs
    · exact absurd hr.run (hn r hr.le)
  rcases hs with hs | ⟨-, hs⟩
  · exact absurd hs.run (hn s hs.le)
  rcases hr with hr | ⟨hr, rfl⟩ <;> rcases hs with hs | ⟨hs, rfl⟩
  · exact hr.unique hs
  · exact absurd hr.run (hs r)
  · exact absurd hs.run (hr s)
  · rfl

/-- The answer from the front is that from the last place where a run can start, unless it misses the run there. -/
lemma IsAnswer.of_front (h : IsAnswer w z n 0 r) (hpos : 0 < n) (hl : hint + n = z)
    (hm : ¬ MissedRun w z n hint) : IsAnswer w z n hint r := by
  rcases h with hf | ⟨ha, h⟩
  swap
  · exact .inr ⟨fun j _ => ha j (zero_le _), h⟩
  by_cases hrn : IsRun w z n hint
  · have hr : r = hint := by
      rcases lt_trichotomy r hint with hlt | heq | hlt
      · exact absurd ⟨hpos, .inr ⟨hl, hrn, r, hlt, hf.run⟩⟩ hm
      · exact heq
      · exact absurd hrn (hf.first hint (zero_le _) hlt)
    subst hr
    exact .inl ⟨le_refl _, hrn, fun j h1 h2 => absurd h1 (by omega)⟩
  refine .inr ⟨fun j hj hrn' => ?_, .inl hf⟩
  have hrun_le := hrn'.le
  obtain rfl : j = hint := by omega
  exact hrn hrn'

/-- The two passes of a search: from the hint on, and, if that fails, from the front up to the hint. -/
lemma isAnswer_passes {f s : Option Nat}
    (hf : (∃ i, f = some i ∧ FirstRun w z n hint i) ∨ (f = none ∧ ∀ j, hint ≤ j → ¬ IsRun w z n j))
    (hs : hint ≠ 0 → (∃ i, s = some i ∧ FirstRun w z n 0 i) ∨ (s = none ∧ ∀ j < hint, ¬ IsRun w z n j)) :
    IsAnswer w z n hint (f.getD (if hint ≠ 0 then s.getD MAXINDEX else MAXINDEX)) := by
  rcases hf with ⟨i, rfl, hf⟩ | ⟨rfl, hl⟩
  · exact .inl hf
  refine .inr ⟨hl, ?_⟩
  by_cases hz : hint = 0
  · refine .inr ⟨fun j => hl j (by omega), ?_⟩
    rw [Option.getD_none, if_neg (not_not.mpr hz)]
  rw [Option.getD_none, if_pos hz]
  rcases hs hz with ⟨i, rfl, hf⟩ | ⟨rfl, he⟩
  · exact .inl hf
  refine .inr ⟨fun j => ?_, rfl⟩
  rcases lt_or_ge j hint with hj | hj
  · exact he j hj
  · exact hl j hj

end answer

/-! ## The two routines -/

/-- A clear bit. -/
def RtlBitmap.clearBit (bm : RtlBitmap) (i : Nat) : Bool := !bm.testBit i

variable {z : Nat}

/-- The two run lengths of a word and of its complement, as the search needs them. -/
lemma scans_run {sw rn : Nat → BitVec 32} (hn : ∀ w, sw w = ~~~rn w) (n : Nat) (hw : z + 31 < 2 ^ 32) :
    Scans (fun i => !(rn (i / 32)).getLsbD (i % 32)) z n (rtlpGetLengthOfRun sw z · MAXINDEX)
      (rtlpGetLengthOfRun rn z · n) := by
  have hb (i : Nat) : (sw (i / 32)).getLsbD (i % 32) = !(rn (i / 32)).getLsbD (i % 32) := by
    rw [hn, BitVec.getLsbD_not, decide_eq_true (by omega), Bool.true_and]
  have hs (c : Nat) (hc : c < z) := rtlpGetLengthOfRun_run sw MAXINDEX hc (by omega) rfl
  have hr (c : Nat) (hc : c < z) := rtlpGetLengthOfRun_run rn n hc (by omega) rfl
  simp only [hb] at hs
  refine ⟨fun c hc => (hs c hc).1, fun c hc => (hs c hc).2.1, fun c hc => ?_, fun c hc => (hr c hc).1,
    fun c hc i h1 h2 => ?_, fun c hc => ?_, ?_⟩
  · refine (hs c hc).2.2.imp_left fun h => ?_
    have hle := (hs c hc).1
    rw [min_eq_right (by unfold MAXINDEX; omega)] at h
    omega
  · rw [(hr c hc).2.1 i h1 h2]
    rfl
  · exact (hr c hc).2.2.imp_right fun h => by rw [h]; rfl
  · rw [rtlpGetLengthOfRun, Words.lengthOfRun, if_pos (le_refl _)]

lemma scans_clear (bm : RtlBitmap) (n : Nat) (hw : bm.SizeOfBitMap + 31 < 2 ^ 32) :
    Scans bm.clearBit bm.SizeOfBitMap n (fun c => rtlpGetLengthOfRunSet bm c MAXINDEX)
      (fun c => rtlpGetLengthOfRunClear bm c n) :=
  scans_run (fun _ => rfl) n hw

lemma scans_set (bm : RtlBitmap) (n : Nat) (hw : bm.SizeOfBitMap + 31 < 2 ^ 32) :
    Scans bm.testBit bm.SizeOfBitMap n (fun c => rtlpGetLengthOfRunClear bm c MAXINDEX)
      (fun c => rtlpGetLengthOfRunSet bm c n) := by
  have h : Scans (fun i => !(~~~bm.Buffer (i / 32)).getLsbD (i % 32)) bm.SizeOfBitMap n
      (rtlpGetLengthOfRun bm.Buffer bm.SizeOfBitMap · MAXINDEX)
      (rtlpGetLengthOfRun (fun w => ~~~bm.Buffer w) bm.SizeOfBitMap · n) :=
    scans_run (fun _ => BitVec.not_not.symm) n hw
  have hb (i : Nat) : (!(~~~bm.Buffer (i / 32)).getLsbD (i % 32)) = bm.testBit i := by
    rw [BitVec.getLsbD_not, decide_eq_true (by omega), Bool.true_and, Bool.not_not]
    rfl
  simp only [hb] at h
  exact h

/-- Where the first pass starts. -/
def startIndex (bm : RtlBitmap) (hint : Nat) : Nat := if bm.SizeOfBitMap ≤ hint then 0 else hint

variable {bm : RtlBitmap} {hint : Nat}

lemma startIndex_lt (hsz : 0 < bm.SizeOfBitMap) : startIndex bm hint < bm.SizeOfBitMap := by
  unfold startIndex
  split <;> omega

variable {n : Nat}

lemma findBits_eq {loop : Nat → Nat → Nat → Option (Option Nat)} (bm : RtlBitmap) (hpos : 0 < n)
    (hle : n ≤ bm.SizeOfBitMap)
    (hadd : bm.SizeOfBitMap + n < 2 ^ 32) {f s : Option Nat}
    (hf : loop bm.SizeOfBitMap (bm.SizeOfBitMap + 1) (startIndex bm hint) = some f)
    (hs : loop (min (startIndex bm hint + n) bm.SizeOfBitMap) (bm.SizeOfBitMap + 1) 0 = some s) :
    findBits loop bm n hint = some (f.getD (if startIndex bm hint ≠ 0 then s.getD MAXINDEX else MAXINDEX)) := by
  have hlt : startIndex bm hint < bm.SizeOfBitMap := startIndex_lt (by omega)
  unfold findBits
  rw [if_neg (by omega), if_neg (by omega), ← startIndex, hf, mod_eq_of_lt (by omega), hs]
  cases f with
  | some i => rfl
  | none =>
    dsimp only
    split <;> rfl

section results

variable (bm : RtlBitmap) {n hint : Nat} (hpos : 0 < n) (hadd : bm.SizeOfBitMap + n < 2 ^ 32)
  (hwords : bm.SizeOfBitMap + 31 < 2 ^ 32)

include hpos hadd hwords

lemma findClearLoop_spec {margin : Nat} (hn : n ≤ margin) (hm : margin ≤ bm.SizeOfBitMap)
    (hcr : cur ≤ bm.SizeOfBitMap) :
    (∃ i, findClearBitsLoop bm n margin (bm.SizeOfBitMap + 1) cur = some (some i) ∧
        cur + n < margin ∧ FirstRun bm.clearBit bm.SizeOfBitMap n cur i) ∨
      (findClearBitsLoop bm n margin (bm.SizeOfBitMap + 1) cur = some none ∧
        (margin ≤ cur + n ∨ ∀ j, cur ≤ j → j + n ≤ margin → ¬ IsRun bm.clearBit bm.SizeOfBitMap n j)) := by
  rw [findClearBitsLoop]
  have he (c : Nat) (hc : c ≤ bm.SizeOfBitMap) : (c + n) % 2 ^ 32 < margin ↔ c < margin - n := by
    omega
  by_cases hin : cur < margin - n
  · rcases searchLoop_spec (scans_clear bm n hwords) hpos (by omega) he hcr (lt_succ_of_le (sub_le _ _))
      with ⟨i, hl, hf⟩ | ⟨hl, hno⟩
    · exact .inl ⟨i, hl, by omega, hf⟩
    · exact .inr ⟨hl, .inr fun j h1 h2 => (hno.resolve_left (by omega)) j h1 (by omega)⟩
  · exact .inr ⟨searchLoop_stop fun h => hin ((he cur hcr).mp h), .inl (by omega)⟩

lemma findSetBitsLoop_spec {margin : Nat} (hn : n ≤ margin) (hm : margin ≤ bm.SizeOfBitMap)
    (hcr : cur ≤ bm.SizeOfBitMap) :
    ∃ f, findSetBitsLoop bm n margin (bm.SizeOfBitMap + 1) cur = some f ∧
      ((∃ i, f = some i ∧ FirstRun bm.testBit bm.SizeOfBitMap n cur i) ∨
        (f = none ∧ ∀ j, cur ≤ j → j + n ≤ margin → ¬ IsRun bm.testBit bm.SizeOfBitMap n j)) := by
  rw [findSetBitsLoop]
  have he (c : Nat) (hc : c ≤ bm.SizeOfBitMap) : (c + n) % 2 ^ 32 ≤ margin ↔ c < margin - n + 1 := by
    omega
  rcases searchLoop_spec (scans_set bm n hwords) hpos (by omega) he hcr (lt_succ_of_le (sub_le _ _))
    with ⟨i, hl, hf⟩ | ⟨hl, hno⟩
  · exact ⟨_, hl, .inl ⟨i, rfl, hf⟩⟩
  refine ⟨_, hl, .inr ⟨rfl, fun j h1 h2 => ?_⟩⟩
  rcases hno with hs | hno
  · omega
  · exact hno j h1 (by omega)

variable (hle : n ≤ bm.SizeOfBitMap)

include hle

lemma rtlFindSetBits_answer :
    ∃ r, rtlFindSetBits bm n hint = some r ∧ IsAnswer bm.testBit bm.SizeOfBitMap n (startIndex bm hint) r := by
  have hlt : startIndex bm hint < bm.SizeOfBitMap := startIndex_lt (by omega)
  have hm : n ≤ min (startIndex bm hint + n) bm.SizeOfBitMap := by omega
  obtain ⟨f, hl, hf⟩ := findSetBitsLoop_spec bm hpos hadd hwords hle (le_refl _) (le_of_lt hlt)
  obtain ⟨s, hl', hs⟩ := findSetBitsLoop_spec bm hpos hadd hwords hm (min_le_right _ _) (zero_le _)
  refine ⟨_, findBits_eq bm hpos hle hadd hl hl', isAnswer_passes ?_ fun _ => ?_⟩
  · exact hf.imp_right fun ⟨hn, hno⟩ => ⟨hn, fun j hj hr => hno j hj hr.le hr⟩
  refine hs.imp_right fun ⟨hn, hno⟩ => ⟨hn, fun j hj hr => ?_⟩
  have hrun_le := hr.le
  exact hno j (zero_le _) (by omega) hr

/-- A run as long as the bitmap is never found. -/
lemma rtlFindClearBits_whole (hw : n = bm.SizeOfBitMap) : rtlFindClearBits bm n hint = some MAXINDEX := by
  have hs (m cur : Nat) (hn : n ≤ m) (hm : m ≤ bm.SizeOfBitMap) (hc : cur ≤ bm.SizeOfBitMap) :
      findClearBitsLoop bm n m (bm.SizeOfBitMap + 1) cur = some none := by
    rcases findClearLoop_spec bm hpos hadd hwords hn hm hc with ⟨i, -, hin, -⟩ | ⟨hl, -⟩
    · omega
    · exact hl
  have hlt : startIndex bm hint < bm.SizeOfBitMap := startIndex_lt (by omega)
  rw [rtlFindClearBits, findBits_eq bm hpos hle hadd (hs _ _ hle (le_refl _) (le_of_lt hlt))
    (hs _ _ (by omega) (min_le_right _ _) (zero_le _))]
  split <;> rfl

lemma rtlFindClearBits_last (hh : 0 < hint) (hls : hint + n = bm.SizeOfBitMap) :
    ∃ r, rtlFindClearBits bm n hint = some r ∧ IsAnswer bm.clearBit bm.SizeOfBitMap n 0 r := by
  have hs : startIndex bm hint = hint := if_neg (by omega)
  have hm : min (startIndex bm hint + n) bm.SizeOfBitMap = bm.SizeOfBitMap := by omega
  have hfs : findClearBitsLoop bm n bm.SizeOfBitMap (bm.SizeOfBitMap + 1) (startIndex bm hint) = some none := by
    rcases findClearLoop_spec bm hpos hadd hwords hle (le_refl _) (show startIndex bm hint ≤ _ by omega)
      with ⟨i, -, hin, -⟩ | ⟨hl, -⟩
    · omega
    · exact hl
  rcases findClearLoop_spec bm hpos hadd hwords hle (le_refl _) (zero_le _) with ⟨i, hl, -, hf⟩ | ⟨hl, hn⟩
  · rw [rtlFindClearBits, findBits_eq bm hpos hle hadd hfs (by rw [hm]; exact hl), if_pos (by omega)]
    exact ⟨_, rfl, .inl hf⟩
  rw [rtlFindClearBits, findBits_eq bm hpos hle hadd hfs (by rw [hm]; exact hl), if_pos (by omega)]
  have ha (j : Nat) : ¬ IsRun bm.clearBit bm.SizeOfBitMap n j := fun hr =>
    hn.resolve_left (by omega) j (zero_le _) hr.le hr
  exact ⟨_, rfl, .inr ⟨fun j _ => ha j, .inr ⟨ha, rfl⟩⟩⟩

/-- In every other case `RtlFindClearBits` gives the answer, too. -/
lemma rtlFindClearBits_other (hlt : n < bm.SizeOfBitMap) (ho : hint + n ≠ bm.SizeOfBitMap) :
    ∃ r, rtlFindClearBits bm n hint = some r ∧ IsAnswer bm.clearBit bm.SizeOfBitMap n (startIndex bm hint) r := by
  have hs : startIndex bm hint < bm.SizeOfBitMap := startIndex_lt (by omega)
  have ho : startIndex bm hint + n ≠ bm.SizeOfBitMap := by
    unfold startIndex
    split <;> omega
  have hfs : ∃ f, findClearBitsLoop bm n bm.SizeOfBitMap (bm.SizeOfBitMap + 1) (startIndex bm hint) = some f ∧
      ((∃ i, f = some i ∧ FirstRun bm.clearBit bm.SizeOfBitMap n (startIndex bm hint) i) ∨
        (f = none ∧ ∀ j, startIndex bm hint ≤ j → ¬ IsRun bm.clearBit bm.SizeOfBitMap n j)) := by
    rcases findClearLoop_spec bm hpos hadd hwords hle (le_refl _) (le_of_lt hs) with ⟨i, hl, -, hf⟩ | ⟨hl, hn⟩
    · exact ⟨_, hl, .inl ⟨i, rfl, hf⟩⟩
    refine ⟨_, hl, .inr ⟨rfl, fun j hj hr => ?_⟩⟩
    have hrun_le := hr.le
    rcases hn with hst | hn
    · omega
    · exact hn j hj hrun_le hr
  have hsn : ∃ s, findClearBitsLoop bm n (min (startIndex bm hint + n) bm.SizeOfBitMap)
    (bm.SizeOfBitMap + 1) 0 = some s ∧
      (startIndex bm hint ≠ 0 → (∃ i, s = some i ∧ FirstRun bm.clearBit bm.SizeOfBitMap n 0 i) ∨
        (s = none ∧ ∀ j < startIndex bm hint, ¬ IsRun bm.clearBit bm.SizeOfBitMap n j)) := by
    have hm : n ≤ min (startIndex bm hint + n) bm.SizeOfBitMap := by omega
    rcases findClearLoop_spec bm hpos hadd hwords hm (min_le_right _ _) (zero_le _) with ⟨i, hl, -, hf⟩ | ⟨hl, hn⟩
    · exact ⟨_, hl, fun _ => .inl ⟨i, rfl, hf⟩⟩
    refine ⟨_, hl, fun hz => .inr ⟨rfl, fun j hj hr => ?_⟩⟩
    have hrun_le := hr.le
    exact hn.resolve_left (by omega) j (zero_le _) (by omega) hr
  obtain ⟨f, hl, hfs⟩ := hfs
  obtain ⟨s, hl', hsn⟩ := hsn
  exact ⟨_, findBits_eq bm hpos hle hadd hl hl', isAnswer_passes hfs hsn⟩

lemma rtlFindClearBits_answer (hm : ¬ MissedRun bm.clearBit bm.SizeOfBitMap n hint) :
    ∃ r, rtlFindClearBits bm n hint = some r ∧ IsAnswer bm.clearBit bm.SizeOfBitMap n (startIndex bm hint) r := by
  by_cases hw : n = bm.SizeOfBitMap
  · refine ⟨_, rtlFindClearBits_whole bm hpos hadd hwords hle hw, ?_⟩
    have ha (j : Nat) : ¬ IsRun bm.clearBit bm.SizeOfBitMap n j := fun hrn => by
      have hrun_le := hrn.le
      obtain rfl : j = 0 := by omega
      exact hm ⟨hpos, .inl ⟨hw, hrn⟩⟩
    exact .inr ⟨fun j _ => ha j, .inr ⟨ha, rfl⟩⟩
  by_cases hl : hint + n = bm.SizeOfBitMap
  · obtain ⟨r, hr, han⟩ := rtlFindClearBits_last bm hpos hadd hwords hle (by omega) hl
    refine ⟨r, hr, ?_⟩
    have hs : startIndex bm hint = hint := if_neg (by omega)
    rw [hs]
    exact han.of_front hpos hl hm
  · exact rtlFindClearBits_other bm hpos hadd hwords hle (by omega) hl

end results

/-- `RtlFindClearBits` does what it is for: it finds a run if there is one, and, if there is one
from the hint on, the first of those. -/
structure FindsRun (bm : RtlBitmap) (n hint : Nat) : Prop where
  found : (∃ i, IsRun bm.clearBit bm.SizeOfBitMap n i) →
    ∃ i, rtlFindClearBits bm n hint = some i ∧ IsRun bm.clearBit bm.SizeOfBitMap n i
  none : (¬ ∃ i, IsRun bm.clearBit bm.SizeOfBitMap n i) → rtlFindClearBits bm n hint = some MAXINDEX
  least : hint < bm.SizeOfBitMap → (∃ i, hint ≤ i ∧ IsRun bm.clearBit bm.SizeOfBitMap n i) →
    ∃ i, rtlFindClearBits bm n hint = some i ∧ FirstRun bm.clearBit bm.SizeOfBitMap n hint i

lemma FindsRun.of_answer (hr : rtlFindClearBits bm n hint = some r)
    (h : IsAnswer bm.clearBit bm.SizeOfBitMap n (startIndex bm hint) r) : FindsRun bm n hint := by
  refine ⟨fun hex => ⟨r, hr, ?_⟩, fun hno => ?_, fun hin hex => ⟨r, hr, ?_⟩⟩
  · obtain ⟨i, hrn⟩ := hex
    rcases h with hf | ⟨-, hf | ⟨ha, -⟩⟩
    · exact hf.run
    · exact hf.run
    · exact absurd hrn (ha i)
  · rcases h with hf | ⟨-, hf | ⟨-, hm⟩⟩
    · exact absurd ⟨r, hf.run⟩ hno
    · exact absurd ⟨r, hf.run⟩ hno
    · rw [hr, hm]
  obtain ⟨i, hle, hrn⟩ := hex
  rw [startIndex, if_neg (by omega)] at h
  rcases h with hf | ⟨hl, -⟩
  · exact hf
  · exact absurd hrn (hl i hle)

lemma MissedRun.not_answer (h : MissedRun bm.clearBit bm.SizeOfBitMap n hint)
    (hadd : bm.SizeOfBitMap + n < 2 ^ 32) (hwords : bm.SizeOfBitMap + 31 < 2 ^ 32) :
    ∃ r, rtlFindClearBits bm n hint = some r ∧ ((r = MAXINDEX ∧ IsRun bm.clearBit bm.SizeOfBitMap n 0) ∨
        (r < hint ∧ hint < bm.SizeOfBitMap ∧ IsRun bm.clearBit bm.SizeOfBitMap n hint)) := by
  obtain ⟨hpos, ⟨hw, hrn⟩ | ⟨hl, hrn, j, hj, hrn'⟩⟩ := h
  · exact ⟨_, rtlFindClearBits_whole bm hpos hadd hwords (by omega) hw, .inl ⟨rfl, hrn⟩⟩
  obtain ⟨r, hr, han⟩ := rtlFindClearBits_last bm hpos hadd hwords (by omega) (by omega) hl
  refine ⟨r, hr, .inr ⟨?_, by omega, hrn⟩⟩
  rcases han with hf | ⟨ha, -⟩
  · have hle : r ≤ j := Nat.le_of_not_lt fun hlt => hf.first j (Nat.zero_le _) hlt hrn'
    omega
  · exact absurd hrn' (ha j (zero_le _))

lemma not_isRun_MAXINDEX {w : Nat → Bool} (hsz : z + 31 < 2 ^ 32) : ¬ IsRun w z n MAXINDEX := fun hr => by
  have hrun_le := hr.le
  unfold MAXINDEX at hrun_le
  omega

lemma MissedRun.not_findsRun (h : MissedRun bm.clearBit bm.SizeOfBitMap n hint)
    (hadd : bm.SizeOfBitMap + n < 2 ^ 32) (hwords : bm.SizeOfBitMap + 31 < 2 ^ 32) : ¬ FindsRun bm n hint := by
  intro hf
  obtain ⟨r, hr, ⟨rfl, hrn⟩ | ⟨hlt, hin, hrn⟩⟩ := h.not_answer hadd hwords
  · obtain ⟨i, hi, hrn'⟩ := hf.found ⟨0, hrn⟩
    rw [hr] at hi
    cases hi
    exact not_isRun_MAXINDEX hwords hrn'
  obtain ⟨i, hi, hfs⟩ := hf.least hin ⟨hint, le_refl _, hrn⟩
  rw [hr] at hi
  cases hi
  exact absurd hfs.le (by omega)

/-- `RtlFindClearBits` finds a run, the first from the hint on, just where it misses none. -/
theorem findsRun_iff (bm : RtlBitmap) {n hint : Nat} (hpos : 0 < n) (hle : n ≤ bm.SizeOfBitMap)
    (hadd : bm.SizeOfBitMap + n < 2 ^ 32) (hwords : bm.SizeOfBitMap + 31 < 2 ^ 32) :
    FindsRun bm n hint ↔ ¬ MissedRun bm.clearBit bm.SizeOfBitMap n hint := by
  constructor
  · intro hf hm
    exact hm.not_findsRun hadd hwords hf
  intro hm
  obtain ⟨r, hr, ha⟩ := rtlFindClearBits_answer bm hpos hadd hwords hle hm
  exact FindsRun.of_answer hr ha

/-- An empty bitmap. -/
def zeroBits (size : Nat) : RtlBitmap := ⟨size, fun _ => 0⟩

lemma zeroBits_isRun (hle : i + n ≤ z) : IsRun (zeroBits z).clearBit z n i :=
  ⟨hle, fun _ _ _ => by simp [RtlBitmap.clearBit, RtlBitmap.testBit, zeroBits]⟩

/-- Three clear bits of eight, from bit 4 on. -/
theorem findsRun_zeroBits : ∃ i, rtlFindClearBits (zeroBits 8)
    3 4 = some i ∧ FirstRun (zeroBits 8).clearBit 8 3 4 i := by
  have hf : FindsRun (zeroBits 8) 3 4 :=
    (findsRun_iff (zeroBits 8) (by decide) (by decide) (by decide) (by decide)).mpr fun hm => by
      rcases hm with ⟨-, ⟨hw, -⟩ | ⟨hl, -⟩⟩
      · exact nomatch hw
      · exact nomatch hl
  exact hf.least (by decide) ⟨4, le_refl _, zeroBits_isRun (by decide)⟩

/-- Eight clear bits are not found in an empty bitmap of eight bits; and of three from bit 5 on
the search gives those at the front. -/
theorem findsRun_fails : rtlFindClearBits (zeroBits 8) 8 0 = some MAXINDEX ∧ ¬ FindsRun (zeroBits 8) 8 0 ∧
      rtlFindClearBits (zeroBits 8) 3 5 = some 0 ∧ ¬ FindsRun (zeroBits 8) 3 5 := by
  have hw : rtlFindClearBits (zeroBits 8) 8 0 = some MAXINDEX := by decide
  have hl : rtlFindClearBits (zeroBits 8) 3 5 = some 0 := by decide
  refine ⟨hw, fun hf => ?_, hl, fun hf => ?_⟩
  · obtain ⟨i, hi, hr⟩ := hf.found ⟨0, zeroBits_isRun (by decide)⟩
    cases hi
    exact not_isRun_MAXINDEX (by decide) hr
  obtain ⟨i, hi, hfr⟩ := hf.least (by decide) ⟨5, le_refl _, zeroBits_isRun (by decide)⟩
  cases hi
  exact absurd hfr.le (by decide)

/-! ## Duality -/

/-- The bitwise complement of a bitmap. -/
def RtlBitmap.complement (bm : RtlBitmap) : RtlBitmap := ⟨bm.SizeOfBitMap, fun w => ~~~bm.Buffer w⟩

@[simp] lemma RtlBitmap.complement_clearBit (bm : RtlBitmap) : bm.complement.clearBit = bm.testBit := by
  funext i
  rw [clearBit, testBit, complement, BitVec.getLsbD_not, decide_eq_true (by omega), Bool.true_and, Bool.not_not]
  rfl

@[simp] lemma RtlBitmap.complement_SizeOfBitMap (bm : RtlBitmap) :
    bm.complement.SizeOfBitMap = bm.SizeOfBitMap := rfl

lemma rtlFindSetBits_trivial (bm : RtlBitmap) (hint : Nat) (h : n = 0 ∨ bm.SizeOfBitMap < n) :
    ∃ r, rtlFindSetBits bm n hint = some r ∧ rtlFindClearBits bm.complement n hint = some r := by
  unfold rtlFindClearBits rtlFindSetBits findBits
  dsimp only [complement_SizeOfBitMap]
  rcases h with rfl | hlt
  · rw [if_neg (not_lt_zero _), if_neg (not_lt_zero _), if_pos rfl, if_pos rfl]
    exact ⟨_, rfl, rfl⟩
  · rw [if_pos hlt, if_pos hlt]
    exact ⟨_, rfl, rfl⟩

/-- `RtlFindSetBits` on a bitmap is `RtlFindClearBits` on its complement, just where the latter misses no run. -/
theorem rtlFindSetBits_dual_iff (bm : RtlBitmap) {n hint : Nat}
    (hadd : n ≤ bm.SizeOfBitMap → bm.SizeOfBitMap + n < 2 ^ 32)
    (hwords : bm.SizeOfBitMap + 31 < 2 ^ 32) :
    (∃ r, rtlFindSetBits bm n hint = some r ∧ rtlFindClearBits bm.complement n hint = some r) ↔
      ¬ MissedRun bm.testBit bm.SizeOfBitMap n hint := by
  by_cases ht : n = 0 ∨ bm.SizeOfBitMap < n
  · refine iff_of_true (rtlFindSetBits_trivial bm hint ht) ?_
    rintro ⟨hpos, ⟨hw, -⟩ | ⟨hl, -⟩⟩ <;> omega
  have hpos : 0 < n := by omega
  have hle : n ≤ bm.SizeOfBitMap := by omega
  obtain ⟨r, hr, hs⟩ := rtlFindSetBits_answer bm hpos (hadd hle) hwords hle
  have hm : MissedRun bm.testBit bm.SizeOfBitMap n hint ↔
      MissedRun bm.complement.clearBit bm.complement.SizeOfBitMap n hint := by
    rw [complement_clearBit, complement_SizeOfBitMap]
  rw [hm]
  constructor
  · rintro ⟨r', hr', heq⟩ hm
    have ha : IsAnswer bm.complement.clearBit bm.SizeOfBitMap n (startIndex bm hint) r' := by
      rw [complement_clearBit, Option.some.inj (hr'.symm.trans hr)]
      exact hs
    exact hm.not_findsRun (hadd hle) hwords (FindsRun.of_answer heq ha)
  intro hm
  obtain ⟨r', hr', ha⟩ := rtlFindClearBits_answer bm.complement hpos (hadd hle) hwords hle hm
  rw [complement_clearBit] at ha
  exact ⟨r, hr, by rw [hr', ha.unique hs]⟩

/-- Three set bits of eight, from bit 4 on. -/
theorem rtlFindSetBits_dual_ones : ∃ r, rtlFindSetBits (zeroBits 8).complement 3 4 = some r ∧
      rtlFindClearBits (zeroBits 8).complement.complement 3 4 = some r :=
  (rtlFindSetBits_dual_iff (zeroBits 8).complement (fun _ => by decide) (by decide)).mpr fun hm => by
    rcases hm with ⟨-, ⟨hw, -⟩ | ⟨hl, -⟩⟩
    · exact nomatch hw
    · exact nomatch hl

/-- Eight bits of eight: the set ones are found, the clear ones of the complement are not. -/
theorem rtlFindSetBits_dual_fails : rtlFindSetBits (zeroBits 8).complement 8 0 = some 0 ∧
      rtlFindClearBits (zeroBits 8).complement.complement 8 0 = some MAXINDEX := by
  decide

lemma isRun_one {w : Nat → Bool} : IsRun w z 1 i ↔ i < z ∧ w i := by
  refine ⟨fun h => ⟨h.le, h.all i (le_refl _) (lt_succ_self i)⟩, fun h => ⟨h.1, fun j h1 h2 => ?_⟩⟩
  rw [show j = i by omega]
  exact h.2

/-- `RtlFindSetBits` for one bit, from a hint inside the bitmap: the next set bit; if there is
none from the hint on, the first one; if there is none at all, `MAXINDEX`. -/
lemma rtlFindSetBits_one (bm : RtlBitmap) (hsz : bm.SizeOfBitMap < 2 ^ 31) {hint : Nat}
    (hh : hint < bm.SizeOfBitMap) :
    ∃ r, rtlFindSetBits bm 1 hint = some r ∧
      ((r = MAXINDEX ∧ ∀ i < bm.SizeOfBitMap, bm.testBit i = false) ∨
        (r < bm.SizeOfBitMap ∧ bm.testBit r ∧
          (hint ≤ r ∧ (∀ i, hint ≤ i → i < r → bm.testBit i = false) ∨
            r < hint ∧ ∀ i, hint ≤ i → i < bm.SizeOfBitMap → bm.testBit i = false))) := by
  obtain ⟨r, hr, ha⟩ := @rtlFindSetBits_answer bm 1 hint (by decide) (by omega) (by omega) (by omega)
  refine ⟨r, hr, ?_⟩
  rw [startIndex, if_neg (by omega)] at ha
  have hc {i : Nat} (hi : i < bm.SizeOfBitMap) (hnt : ¬ IsRun bm.testBit bm.SizeOfBitMap 1 i) :
    bm.testBit i = false :=
    eq_false_of_ne_true fun h => hnt (isRun_one.mpr ⟨hi, h⟩)
  rcases ha with h | ⟨hn, h | ⟨hal, hm⟩⟩
  · have hr := isRun_one.mp h.run
    exact .inr ⟨hr.1, hr.2, .inl ⟨h.le, fun i h1 h2 => hc (by omega) (h.first i h1 h2)⟩⟩
  · have hr := isRun_one.mp h.run
    have hlt : r < hint := Nat.lt_of_not_le fun hle => hn r hle h.run
    exact .inr ⟨hr.1, hr.2, .inr ⟨hlt, fun i h1 h2 => hc h2 (hn i h1)⟩⟩
  · exact .inl ⟨hm, fun i hi => hc hi (hal i)⟩

end FreeNT.Rtl
