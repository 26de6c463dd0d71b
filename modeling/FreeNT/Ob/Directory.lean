import FreeNT.Rtl.Unicode
import FreeNT.Lib.Chain
import FreeNT.Lib.Run
import Mathlib.Data.List.Perm.Subperm

/-!
# Object directories

`ObpLookupEntryDirectory`, `ObpInsertEntryDirectory` and `ObpDeleteEntryDirectory`
(`ntoskrnl/ob/obdir.c`): 37 hash buckets of entries linked through `ChainLink`.
Entries and objects are addresses, 0 is NULL. A bucket or a `ChainLink` field is
an `EntrySlot`, as the lookup walks with a pointer to it. The directory is locked
exclusively; reference counts are left out. A failed assertion, a fault, or a
walk of more than `maxEntries` entries is `none`.
-/

namespace FreeNT.Ob

open Rtl

structure ObjectDirectory where
  HashBuckets : Nat → Nat
  ChainLink : Nat → Nat
  HashValue : Nat → BitVec 32
  Object : Nat → Nat

/-- The fields of `OBP_LOOKUP_CONTEXT` that the lookup leaves for the other two. -/
structure LookupContext where
  HashValue : BitVec 32
  HashIndex : Nat
  Object : Nat

inductive EntrySlot
  | bucket (i : Nat)
  | link (entry : Nat)
  deriving DecidableEq, Repr

namespace ObjectDirectory

def get (d : ObjectDirectory) : EntrySlot → Nat
  | .bucket i => d.HashBuckets i
  | .link entry => d.ChainLink entry

def set (d : ObjectDirectory) (v : Nat) : EntrySlot → ObjectDirectory
  | .bucket i => { d with HashBuckets := Function.update d.HashBuckets i v }
  | .link entry => { d with ChainLink := Function.update d.ChainLink entry v }

end ObjectDirectory

/-- Entries are 32-bit addresses. -/
def maxEntries : Nat := 2 ^ 32

variable (table : WChar → WChar) (nameOf : Nat → List WChar)

/-- One turn of the hash loop. -/
def hashStep (hash : BitVec 32) (c : WChar) : BitVec 32 :=
  let hash := hash + ((hash <<< 1) + (hash >>> 1))
  if c < 0x61 then hash + c.setWidth 32
  else if c > 0x7A then hash + (rtlpUpcaseUnicodeChar table c).setWidth 32
  else hash + (c - 0x20).setWidth 32

def hashName (name : List WChar) : BitVec 32 := name.foldl (hashStep table) 0

def bucketOf (hash : BitVec 32) : Nat := hash.toNat % 37

/-- The test of the lookup on an entry; `nameOf` gives the names of the objects. -/
def entryMatches (d : ObjectDirectory) (name : List WChar) (caseInsensitive : Bool) (entry : Nat) : Bool :=
  d.HashValue entry == hashName table name &&
    (name.length == (nameOf (d.Object entry)).length &&
      rtlEqualUnicodeString table name (nameOf (d.Object entry)) caseInsensitive)

/-- Where the walk stops: at a slot that holds NULL or an entry that matches. -/
def lookupLoop (d : ObjectDirectory) (found : Nat → Bool) : Nat → EntrySlot → Option EntrySlot
  | 0, _ => none
  | fuel + 1, slot =>
    if d.get slot = 0 then some slot
    else if found (d.get slot) then some slot
    else lookupLoop d found fuel (.link (d.get slot))

/-- Make the entry in `slot` the first of its bucket. -/
def moveToFront (d : ObjectDirectory) (slot : EntrySlot) (index : Nat) : ObjectDirectory :=
  let entry := d.get slot
  if slot ≠ .bucket index then
    let d := d.set (d.ChainLink entry) slot
    let d := d.set (d.HashBuckets index) (.link entry)
    d.set entry (.bucket index)
  else d

def obpLookupEntryDirectory (d : ObjectDirectory) (context : LookupContext) (name : List WChar)
    (caseInsensitive : Bool) : Option (ObjectDirectory × LookupContext) :=
  if name = [] then some (d, { context with Object := 0 })
  else
    let hash := hashName table name
    let index := bucketOf hash
    match lookupLoop d (entryMatches table nameOf d name caseInsensitive) maxEntries (.bucket index) with
    | none => none
    | some slot =>
      if d.get slot = 0 then some (d, ⟨hash, index, 0⟩)
      else some (moveToFront d slot index, ⟨hash, index, d.Object (d.get slot)⟩)

/-- The context is checked, with an assertion. `newEntry` is what the pool returned. -/
def obpInsertEntryDirectory (d : ObjectDirectory) (context : LookupContext) (object newEntry : Nat) :
    Option (ObjectDirectory × Bool) :=
  if context.Object ≠ 0 then none
  else if newEntry = 0 then some (d, false)
  else
    let d := { d with HashValue := Function.update d.HashValue newEntry context.HashValue }
    let d := d.set (d.HashBuckets context.HashIndex) (.link newEntry)
    let d := d.set newEntry (.bucket context.HashIndex)
    some ({ d with Object := Function.update d.Object newEntry object }, true)

/-- The directory and the entry that is freed. -/
def obpDeleteEntryDirectory (d : ObjectDirectory) (context : LookupContext) : Option (ObjectDirectory × Nat) :=
  let entry := d.HashBuckets context.HashIndex
  if entry = 0 then none
  else
    let d := d.set (d.ChainLink entry) (.bucket context.HashIndex)
    some (d.set 0 (.link entry), entry)

/-! ## Lookups -/

variable {table nameOf} {d : ObjectDirectory} {i v : Nat} {slot : EntrySlot} {xs ys zs : List Nat}
  {f : Nat → Bool} {n n' : List WChar} {ci : Bool}

lemma hashName_eq (n : List WChar) : hashName table n = (n.map (rtlpUpcaseUnicodeChar table)).foldl
      (fun (hash : BitVec 32) c => hash + ((hash <<< 1) + (hash >>> 1)) + c.setWidth 32) 0 := by
  rw [List.foldl_map, hashName]
  congr 1
  funext hash c
  unfold hashStep rtlpUpcaseUnicodeChar
  by_cases h1 : c < 0x61
  · rw [if_pos h1, if_pos h1]
  rw [if_neg h1, if_neg h1]
  by_cases h2 : c ≤ 0x7A
  · rw [if_pos h2, if_neg (by simpa using h2)]
  · rw [if_neg h2, if_pos (by simpa using h2)]

lemma hashName_of_equal (h : rtlEqualUnicodeString table n n' ci) : hashName table n = hashName table n' := by
  rw [hashName_eq, hashName_eq, map_upcase_of_equal h]

lemma ne_nil_of_equal (h : rtlEqualUnicodeString table n n' ci) (hne : n' ≠ []) : n ≠ [] := by
  rintro rfl
  have := equalString_iff.mp h
  exact hne (List.map_eq_nil_iff.mp this.symm)

/-- The slot after the entries `ys`. -/
def slotAfter (slot : EntrySlot) : List Nat → EntrySlot
  | [] => slot
  | y :: ys => slotAfter (.link y) ys

lemma slotAfter_concat (slot : EntrySlot) (ys : List Nat) (y : Nat) : slotAfter slot (ys ++ [y]) = .link y := by
  induction ys generalizing slot with
  | nil => rfl
  | cons z ys ih => exact ih _

/-- The walk over a chain: to its end, or to the first entry that matches. -/
lemma lookupLoop_spec {k : Nat} (hc : Chain id d.ChainLink 0 (d.get slot) xs)
    (hnz : ∀ e ∈ xs, e ≠ 0) (hfl : xs.length < k) :
    (lookupLoop d f k slot = some (slotAfter slot xs) ∧ d.get (slotAfter slot xs) = 0 ∧ ∀ e ∈ xs, f e = false) ∨
    (∃ ys e zs, xs = ys ++ e :: zs ∧ f e ∧ lookupLoop d f k slot = some (slotAfter slot ys) ∧
      d.get (slotAfter slot ys) = e) := by
  induction xs generalizing slot k with
  | nil =>
    cases k with
    | zero => exact absurd hfl (Nat.not_lt_zero _)
    | succ k =>
      have hen : d.get slot = 0 := hc
      refine .inl ⟨?_, hen, fun e he => absurd he List.not_mem_nil⟩
      rw [lookupLoop, if_pos hen]
      rfl
  | cons x xs ih =>
    obtain ⟨hx, hr⟩ := hc
    have hx : d.get slot = x := hx
    have hx0 := hnz x List.mem_cons_self
    cases k with
    | zero => exact absurd hfl (Nat.not_lt_zero _)
    | succ k =>
      rw [lookupLoop, hx, if_neg hx0]
      by_cases hf : f x
      · exact .inr ⟨[], x, xs, rfl, hf, if_pos hf, hx⟩
      rw [if_neg hf]
      have hln : Chain id d.ChainLink 0 (d.get (.link x)) xs := hr
      rcases ih hln (fun e he => hnz e (List.mem_cons_of_mem _ he)) (Nat.lt_of_succ_lt_succ hfl) with
        ⟨hl, hen, hn⟩ | ⟨ys, e, zs, rfl, he, hl, hg⟩
      · refine .inl ⟨hl, hen, List.forall_mem_cons.mpr ⟨?_, hn⟩⟩
        exact Bool.not_eq_true _ ▸ hf
      · exact .inr ⟨x :: ys, e, zs, rfl, he, hl, hg⟩

end FreeNT.Ob
