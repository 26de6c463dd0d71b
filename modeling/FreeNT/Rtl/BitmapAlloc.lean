import FreeNT.Lib.Run
import FreeNT.Lib.Span
import FreeNT.Rtl.BitmapSearch

/-!
# A bitmap that hands out ranges (`lib/rtl/bitmap.c`)

`RtlFindClearBitsAndSet` takes a run of clear bits and `RtlClearBits` gives it back. The search
may miss a run, but what it finds is clear (`rtlFindClearBits_sound`), and so no bit is handed out
twice (`bits_handed_out`).
-/

namespace FreeNT.Rtl

open List FreeNT.Span

def rtlClearBits (bm : RtlBitmap) (startingIndex numberToClear : Nat) : RtlBitmap :=
  { bm with Buffer := Words.updateBits (Words.clearUpdate 32) bm.Buffer startingIndex numberToClear }

def rtlFindClearBitsAndSet (bm : RtlBitmap) (numberToFind hintIndex : Nat) : Option (RtlBitmap × Nat) :=
  (rtlFindClearBits bm numberToFind hintIndex).map fun position =>
    (if position ≠ MAXINDEX then rtlSetBits bm position numberToFind else bm, position)

/-- The ranges in `live` are in use. -/
structure BitPool where
  bm : RtlBitmap
  live : List Span

inductive BitCall
  | findAndSet (numberToFind hintIndex : Nat)
  | clear (r : Span)

def bitStep (s : BitPool) : BitCall → Option BitPool
  | .findAndSet n hint => (rtlFindClearBitsAndSet s.bm n hint).map fun (bm, position) =>
      ⟨bm, if position ≠ MAXINDEX then ⟨position, n⟩ :: s.live else s.live⟩
  | .clear r => some ⟨rtlClearBits s.bm r.start r.size, s.live.erase r⟩

def BitOk (s : BitPool) : BitCall → Prop
  | .findAndSet .. => True
  | .clear r => r ∈ s.live

/-- Every bit that is set has one owner: it was set in `bm`, or is in one range. -/
structure HandedOut (bm : RtlBitmap) (s : BitPool) : Prop where
  size : s.bm.SizeOfBitMap = bm.SizeOfBitMap
  owner : ∀ i, cover s.live i + (bm.testBit i).toNat = (s.bm.testBit i).toNat

variable {bm : RtlBitmap} {s : BitPool}

lemma IsAnswer.isRun {w : Nat → Bool} {z n h r : Nat} (ha : IsAnswer w z n h r) :
    r = MAXINDEX ∨ IsRun w z n r := by
  rcases ha with hf | ⟨-, hf | ⟨-, hr⟩⟩
  · exact .inr hf.run
  · exact .inr hf.run
  · exact .inl hr

lemma rtlFindClearBits_sound (hsz : bm.SizeOfBitMap < 2 ^ 31) (n hint : Nat) :
    ∃ r, rtlFindClearBits bm n hint = some r ∧ (r = MAXINDEX ∨ IsRun bm.clearBit bm.SizeOfBitMap n r) := by
  by_cases hle : bm.SizeOfBitMap < n
  · exact ⟨_, if_pos hle, .inl rfl⟩
  by_cases hz : n = 0
  · refine ⟨_, by rw [rtlFindClearBits, findBits, if_neg hle, if_pos hz], .inr ⟨?_, by omega⟩⟩
    split <;> omega
  have hpos := Nat.pos_of_ne_zero hz
  by_cases hw : n = bm.SizeOfBitMap
  · exact ⟨_, rtlFindClearBits_whole bm hpos (by omega) (by omega) (by omega) hw, .inl rfl⟩
  by_cases hl : hint + n = bm.SizeOfBitMap
  · exact (rtlFindClearBits_last bm hpos (by omega) (by omega) (by omega) (by omega) hl).imp
      fun r => And.imp_right IsAnswer.isRun
  · exact (rtlFindClearBits_other bm hpos (by omega) (by omega) (by omega) (by omega) hl).imp
      fun r => And.imp_right IsAnswer.isRun

lemma clearBits_has (r : Span) (i : Nat) :
    (rtlClearBits bm r.start r.size).testBit i = if r.Has i then false else bm.testBit i :=
  Words.updateBits_bit Words.clearUpdate_writes (.inl rfl) bm.Buffer r.start r.size i

lemma setBits_has (r : Span) (i : Nat) :
    (rtlSetBits bm r.start r.size).testBit i = if r.Has i then true else bm.testBit i :=
  Words.updateBits_bit Words.setUpdate_writes (.inl rfl) bm.Buffer r.start r.size i

lemma bitStep_handedOut (h : HandedOut bm s) (hsz : bm.SizeOfBitMap < 2 ^ 31) {c : BitCall} (hc : BitOk s c) :
    ∃ s', bitStep s c = some s' ∧ HandedOut bm s' := by
  cases c with
  | findAndSet n hint =>
    obtain ⟨p, hp, hr⟩ := rtlFindClearBits_sound (h.size ▸ hsz) n hint
    refine ⟨_, by rw [bitStep, rtlFindClearBitsAndSet, hp]; rfl, ?_⟩
    by_cases hm : p = MAXINDEX
    · simpa [hm] using h
    refine ⟨by simp [hm, h.size], fun i => ?_⟩
    have ho := h.owner i
    simp only [ne_eq, hm, not_false_eq_true, if_true, cover_cons, setBits_has ⟨p, n⟩]
    split
    next hi =>
      have hb : s.bm.testBit i = false := by simpa [RtlBitmap.clearBit] using (hr.resolve_left hm).all i hi.1 hi.2
      simp_all
    next => exact ho
  | clear r =>
    refine ⟨_, rfl, h.size, fun i => ?_⟩
    have ho := h.owner i
    have := Bool.toNat_le (s.bm.testBit i)
    rw [cover_perm (perm_cons_erase hc), cover_cons] at ho
    show cover (s.live.erase r) i + _ = _
    rw [clearBits_has]
    split at ho
    next hi =>
      rw [if_pos hi, Bool.toNat_false]
      omega
    next hi => rwa [if_neg hi]

/-- In every run every bit that is set was set before, or is in one range that is in use, and not in
two. Every call returns. -/
theorem bits_handed_out (hsize : bm.SizeOfBitMap < 2 ^ 31) {calls : List BitCall}
    (hrun : Run bitStep BitOk ⟨bm, []⟩ calls s) :
    (∀ i, cover s.live i + (bm.testBit i).toNat = (s.bm.testBit i).toNat) ∧
      ∀ call, BitOk s call → ∃ s', bitStep s call = some s' := by
  have h : HandedOut bm s := by
    refine hrun.invariant (HandedOut bm) (fun h hok hs => ?_) ⟨rfl, fun i => Nat.zero_add _⟩
    obtain ⟨s', hs', h'⟩ := bitStep_handedOut h hsize hok
    cases hs'.symm.trans hs
    exact h'
  exact ⟨h.owner, fun call hok => (bitStep_handedOut h hsize hok).imp fun _ => And.left⟩

theorem bits_handed_out_three : ∃ s, Run bitStep BitOk ⟨⟨8, fun _ => 1⟩, []⟩ [.findAndSet 3 0]
    s ∧ s.live = [⟨1, 3⟩] ∧
    ∀ i, cover s.live i + (RtlBitmap.testBit ⟨8, fun _ => 1⟩ i).toNat = (s.bm.testBit i).toNat := by
  obtain ⟨s, hr, hl⟩ : ∃ s, Run bitStep BitOk ⟨⟨8, fun _ => 1⟩, []⟩ [.findAndSet 3 0] s ∧ s.live = [⟨1, 3⟩] :=
    ⟨_, .single trivial rfl, rfl⟩
  exact ⟨s, hr, hl, (bits_handed_out (by decide) hr).1⟩

end FreeNT.Rtl
