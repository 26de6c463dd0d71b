import FreeNT.Lib.Memory
import Mathlib.Data.List.Basic

/-!
# Writing to a device that can fail

A `Device` is a file, the offsets written so far and the outcomes of the writes to
come: a write fails if the next outcome says so, and otherwise succeeds.
`writeAll` writes in order, up to the first failure:

* `writeAll_fst`: it succeeds if the next outcomes all do (`Succeeds`);
* `writeAll_bytes`: then the file holds what was written, if the writes are apart;
* `writeAll_bytes_sep`: it leaves the other bytes as they were.
-/

namespace FreeNT

/-- `Length` bytes of `Source` from `Addr` on go to `Offset`. -/
structure WriteRequest where
  Offset : Nat
  Source : Mem
  Addr : Nat
  Length : Nat

/-- Two requests write to different bytes. -/
def WriteRequest.Apart (r r' : WriteRequest) : Prop :=
    r.Offset + r.Length ≤ r'.Offset ∨ r'.Offset + r'.Length ≤ r.Offset

structure Device where
  Bytes : Mem
  /-- The offsets of the writes that succeeded, the last one first. -/
  Written : List Nat
  Outcomes : List Bool

namespace Device

def write (d : Device) (r : WriteRequest) : Bool × Device :=
  if d.Outcomes.headD true then
    (true, ⟨d.Bytes.copy r.Offset r.Source r.Addr r.Length, r.Offset :: d.Written, d.Outcomes.tail⟩)
  else (false, { d with Outcomes := d.Outcomes.tail })

def writeAll (d : Device) : List WriteRequest → Bool × Device
  | [] => (true, d)
  | r :: rs =>
    let (ok, d) := d.write r
    if ok then d.writeAll rs else (false, d)

/-- The next `n` writes succeed. -/
def Succeeds (d : Device) (n : Nat) : Prop := ∀ o ∈ d.Outcomes.take n, o = true

instance (d : Device) (n : Nat) : Decidable (d.Succeeds n) := inferInstanceAs (Decidable (∀ o ∈ _, _))

variable {d : Device} {r : WriteRequest} {rs : List WriteRequest}

lemma succeeds_of_outcomes (h : d.Outcomes = []) (n : Nat) : d.Succeeds n := by simp [Succeeds, h]

lemma succeeds_succ (d : Device) (r : WriteRequest) (n : Nat) :
    d.Succeeds (n + 1) ↔ (d.write r).1 ∧ (d.write r).2.Succeeds n := by
  obtain ⟨b, w, os⟩ := d
  rcases os with _ | ⟨_ | _, os⟩ <;> simp [Succeeds, write]

lemma writeAll_fst (d : Device) (rs : List WriteRequest) : (d.writeAll rs).1 ↔ d.Succeeds rs.length := by
  induction rs generalizing d with
  | nil => simp [writeAll, Succeeds]
  | cons r rs ih =>
    rw [List.length_cons, succeeds_succ d r, writeAll]
    dsimp only
    by_cases hok : (d.write r).1
    · rw [if_pos hok, ih]
      exact ⟨fun h => ⟨hok, h⟩, And.right⟩
    · rw [if_neg hok]
      exact ⟨nofun, fun h => absurd h.1 hok⟩

lemma writeAll_cons (h : (d.writeAll (r :: rs)).1) :
    (d.write r).1 ∧ d.writeAll (r :: rs) = (d.write r).2.writeAll rs := by
  rw [writeAll] at h ⊢
  dsimp only at h ⊢
  by_cases hok : (d.write r).1
  · exact ⟨hok, by rw [if_pos hok]⟩
  · rw [if_neg hok] at h
    cases h

lemma write_ok (h : (d.write r).1) : (d.write r).2 =
    ⟨d.Bytes.copy r.Offset r.Source r.Addr r.Length, r.Offset :: d.Written, d.Outcomes.tail⟩ := by
  rw [write] at h ⊢
  split at h
  · rename_i hok
    rw [if_pos hok]
  · cases h

lemma write_outcomes (d : Device) (r : WriteRequest) : (d.write r).2.Outcomes = d.Outcomes.tail := by
  rw [write]
  split <;> rfl

lemma writeAll_outcomes (h : d.Outcomes = []) (rs : List WriteRequest) : (d.writeAll rs).2.Outcomes = [] := by
  induction rs generalizing d with
  | nil => exact h
  | cons r rs ih =>
    have ht : (d.write r).2.Outcomes = [] := by rw [write_outcomes, h]; rfl
    rw [writeAll]
    dsimp only
    split
    · exact ih ht
    · exact ht

lemma write_bytes_sep (d : Device) (r : WriteRequest) {a : Nat} (ha : a < r.Offset ∨ r.Offset + r.Length ≤ a) :
    (d.write r).2.Bytes a = d.Bytes a := by
  rw [write]
  split
  · exact if_neg (by omega)
  · rfl

lemma writeAll_bytes_sep (d : Device) {a : Nat}
    (ha : ∀ r ∈ rs, a < r.Offset ∨ r.Offset + r.Length ≤ a) : (d.writeAll rs).2.Bytes a = d.Bytes a := by
  induction rs generalizing d with
  | nil => rfl
  | cons r rs ih =>
    have hr := write_bytes_sep d r (ha r List.mem_cons_self)
    rw [writeAll]
    dsimp only
    split
    · rw [ih _ fun r' hr' => ha r' (List.mem_cons_of_mem _ hr'), hr]
    · exact hr

lemma writeAll_bytes (h : (d.writeAll rs).1) (hrs : rs.Pairwise WriteRequest.Apart) {r : WriteRequest}
    (hr : r ∈ rs) {k : Nat} (hk : k < r.Length) :
    (d.writeAll rs).2.Bytes (r.Offset + k) = r.Source (r.Addr + k) := by
  induction rs generalizing d with
  | nil => cases hr
  | cons x rs ih =>
    obtain ⟨hx, heq⟩ := writeAll_cons h
    obtain ⟨ha, hrs⟩ := List.pairwise_cons.mp hrs
    rw [heq] at h ⊢
    rcases List.mem_cons.mp hr with rfl | hr
    · -- the later writes are apart from this one
      rw [writeAll_bytes_sep _ fun y hy => ?_, write_ok hx]
      · exact (if_pos ⟨by omega, by omega⟩).trans (by rw [Nat.add_sub_cancel_left])
      · rcases ha y hy with h1 | h1 <;> omega
    · exact ih h hrs hr

lemma writeAll_written (h : (d.writeAll rs).1) :
    (d.writeAll rs).2.Written = (rs.map WriteRequest.Offset).reverse ++ d.Written := by
  induction rs generalizing d with
  | nil => rfl
  | cons r rs ih =>
    obtain ⟨hr, heq⟩ := writeAll_cons h
    rw [heq] at h ⊢
    rw [ih h, write_ok hr]
    simp

end Device

end FreeNT
