import FreeNT.Lib.Run
import Mathlib.Tactic.Ring

/-!
# The full name of a registry key

`CmpConstructName` (`ntoskrnl/config/cmkcbncb.c`) walks from a key control
block to the root twice: once to add up the size of the path, once to write
the names from the end of the buffer towards its beginning.
`NameLength` of a name control block counts characters for a compressed name
and bytes for a Unicode one; the second walk takes it for characters in both.

`none` is a write outside the allocated buffer, `some none` the null pointer.
-/

namespace FreeNT.Config

open List

/-- A name control block as `CmpGetNameControlBlock` leaves it; `Name` is the
memory from `Name` on, what follows the name included. -/
structure NameControlBlock where
  Compressed : Bool
  NameLength : Nat
  Name : Nat → Nat
  even : Compressed = false → 2 ∣ NameLength

/-- The characters of the name. -/
def NameControlBlock.characters (block : NameControlBlock) : Nat :=
  if block.Compressed then block.NameLength else block.NameLength / 2

/-- What `CmpConstructName` reads of a key control block and its `NameBlock`;
`keyNode` is the memory from `Name` on of the node `HvGetCell` returns. -/
structure KeyControlBlock extends NameControlBlock where
  KeyCell : Bool
  Delete : Bool
  KeyHive : Bool
  nonExist : Bool
  hiveEntryOrExit : Bool
  keyNode : Option (Nat → Nat)

def cmpCompressedNameSize (length : Nat) : Nat :=
  length % 2 ^ 16 * 2

/-- The first walk; a chain goes from the key to the root. -/
def pathSize (nameLength : Nat) : List KeyControlBlock → Nat
  | [] => nameLength
  | kcb :: parents =>
    let size :=
      if !kcb.Compressed then kcb.NameLength else cmpCompressedNameSize kcb.NameLength
    pathSize ((nameLength + size + 2) % 2 ^ 16) parents

/-- Stores `segment` from index `i` on. -/
def store (buffer : List Nat) (i : Nat) (segment : List Nat) : Option (List Nat) :=
  if i + segment.length ≤ buffer.length then
    some (buffer.take i ++ segment ++ buffer.drop (i + segment.length))
  else none

/-- Where the name is copied from, the key node having been found or not. -/
def KeyControlBlock.currentName (kcb : KeyControlBlock) (keyNode : Option (Nat → Nat)) :
    Nat → Nat :=
  if kcb.hiveEntryOrExit then kcb.Name else keyNode.getD kcb.Name

/-- The second walk. -/
def fillName (length : Nat) :
    List KeyControlBlock → Nat → Bool → List Nat → Option (Option (List Nat))
  | [], _, _, buffer => some (some buffer)
  | kcb :: parents, nameLength, deletedKey, buffer =>
    if (!kcb.KeyCell && !kcb.Delete) || !kcb.KeyHive || kcb.nonExist then some none
    else
      let deletedKey := deletedKey || kcb.Delete
      let keyNode := if deletedKey then none else kcb.keyNode
      if !deletedKey && keyNode.isNone then some none
      else do
        let count := kcb.NameLength
        let nameLength := (nameLength + (count + 1) * 2) % 2 ^ 16
        -- the difference is divided as an unsigned number
        let target := (length + 2 ^ 32 - nameLength) % 2 ^ 32 / 2
        let buffer ← store buffer target (92 :: (range count).map (kcb.currentName keyNode))
        fillName length parents nameLength deletedKey buffer

/-- `CmpConstructName`; `memory` is what `CmpAllocate` returns. -/
def cmpConstructName (memory : Option (Nat → Nat)) (chain : List KeyControlBlock) :
    Option (Option (Nat × List Nat)) :=
  let length := pathSize 0 chain
  match memory with
  | none => some none
  | some bytes => do
    let name ← fillName length chain 0 false ((range (length / 2)).map bytes)
    some (name.map fun buffer => (length, buffer))

/-! ## The path -/

/-- An existing key that is not fake. -/
def KeyControlBlock.Exists (kcb : KeyControlBlock) : Prop :=
  kcb.KeyCell ∧ kcb.Delete = false ∧ kcb.KeyHive ∧ kcb.nonExist = false ∧ kcb.keyNode.isSome

/-- A backslash and the key's name. -/
def KeyControlBlock.component (kcb : KeyControlBlock) : List Nat :=
  92 :: (range kcb.characters).map (kcb.currentName kcb.keyNode)

/-- The components from the root to the key. -/
def path (chain : List KeyControlBlock) : List Nat :=
  chain.reverse.flatMap (·.component)

/-- The name's length in its block is its number of characters. -/
def KeyControlBlock.Counted (kcb : KeyControlBlock) : Prop :=
  kcb.Compressed ∨ kcb.NameLength = 0

variable {kcb : KeyControlBlock} {chain : List KeyControlBlock} {n : Nat} {buffer r : List Nat}

@[simp]
lemma path_cons : path (kcb :: chain) = path chain ++ kcb.component := by simp [path]

lemma length_component (kcb : KeyControlBlock) : kcb.component.length = kcb.characters + 1 := by
  simp [KeyControlBlock.component]

lemma characters_le (kcb : KeyControlBlock) : kcb.characters ≤ kcb.NameLength := by
  simp only [NameControlBlock.characters]
  split <;> omega

lemma counted_iff : kcb.Counted ↔ kcb.characters = kcb.NameLength := by
  simp only [KeyControlBlock.Counted, NameControlBlock.characters]
  split
  · simp_all
  · have := kcb.even (by simp_all)
    simp_all
    omega

lemma size_eq (kcb : KeyControlBlock) (h : kcb.characters < 2 ^ 16) :
    (if !kcb.Compressed then kcb.NameLength else cmpCompressedNameSize kcb.NameLength) =
      2 * kcb.characters := by
  have := kcb.even
  cases hc : kcb.Compressed <;> simp_all [NameControlBlock.characters, cmpCompressedNameSize] <;> omega

lemma pathSize_eq (hn : n + 2 * (path chain).length < 2 ^ 16) :
    pathSize n chain = n + 2 * (path chain).length := by
  induction chain generalizing n with
  | nil => simp [pathSize, path]
  | cons kcb chain ih =>
    simp only [path_cons, length_append, length_component] at hn ⊢
    rw [pathSize, size_eq kcb (by omega), Nat.mod_eq_of_lt (by omega), ih (by omega)]
    omega

lemma fillName_cons (length : Nat) (h : kcb.Exists) : fillName length (kcb :: chain) n false buffer =
      let m := (n + (kcb.NameLength + 1) * 2) % 2 ^ 16
      (store buffer ((length + 2 ^ 32 - m) % 2 ^ 32 / 2)
        (92 :: (range kcb.NameLength).map (kcb.currentName kcb.keyNode))).bind
          (fillName length chain m false) := by
  obtain ⟨hc, hd, hh, he, hn⟩ := h
  obtain ⟨node, hn⟩ := Option.isSome_iff_exists.mp hn
  simp [fillName, hc, hd, hh, he, hn]

/-- The second walk stays inside the buffer only while the sizes it adds up
do: a sum beyond the length starts before the buffer, and one that wraps runs
over its end. No size is below the component's, so none may exceed it. -/
lemma fillName_le {length : Nat} (hl : length < 2 ^ 16 - 1) (hn : n ≤ length)
    (hb : 2 * buffer.length ≤ length) (he : ∀ kcb ∈ chain, kcb.Exists)
    (h : fillName length chain n false buffer = some (some r)) :
    n + 2 * (path chain).length ≤ length ∧
      (n + 2 * (path chain).length = length → ∀ kcb ∈ chain, kcb.Counted) := by
  induction chain generalizing n buffer with
  | nil => simpa [path]
  | cons kcb chain ih =>
    rw [fillName_cons length (he kcb (by simp))] at h
    obtain ⟨b, hs, h⟩ := Option.bind_eq_some_iff.mp h
    simp only [store, length_cons, length_map, length_range] at hs
    split at hs
    case isFalse => cases hs
    rename_i hf
    have hm : (n + (kcb.NameLength + 1) * 2) % 2 ^ 16 = n + (kcb.NameLength + 1) * 2 := by omega
    obtain ⟨hle, heq⟩ := ih (by omega) (by simp [← Option.some.inj hs]; omega) (fun k hk => he k (by simp [hk])) h
    have := characters_le kcb
    simp only [path_cons, length_append, length_component]
    exact ⟨by omega, fun hsm =>
      forall_mem_cons.mpr ⟨counted_iff.mpr (by omega), heq (by omega)⟩⟩

/-- With counted names the second walk leaves the path in front of what it
wrote before. -/
lemma fillName_path (f d : List Nat) (he : ∀ kcb ∈ chain, kcb.Exists)
    (hc : ∀ kcb ∈ chain, kcb.Counted) (hf : f.length = (path chain).length)
    (hl : 2 * (f ++ d).length < 2 ^ 16) :
    fillName (2 * (f ++ d).length) chain (2 * d.length) false (f ++ d) =
      some (some (path chain ++ d)) := by
  induction chain generalizing f d with
  | nil => simp_all [fillName, path]
  | cons kcb chain ih =>
    have hcn := counted_iff.mp (hc kcb (by simp))
    have hcm := length_component kcb
    simp only [path_cons, length_append] at hf hl ⊢
    rw [fillName_cons _ (he kcb (by simp)), ← hcn]
    have hm : (2 * d.length + (kcb.characters + 1) * 2) % 2 ^ 16 = 2 * (kcb.component ++ d).length := by
      simp only [length_append]
      omega
    have hi : (2 * (f.length + d.length) + 2 ^ 32 - 2 * (kcb.component ++ d).length) %
        2 ^ 32 / 2 = (path chain).length := by
      omega
    have hs : store (f ++ d) (path chain).length kcb.component =
      some (f.take (path chain).length ++ (kcb.component ++ d)) := by
      simp [store, hf, take_append_of_le_length]
    have hfr : (f.take (path chain).length).length = (path chain).length := by simp [hf]
    have hln : 2 * (f.length + d.length) = 2 * (f.take (path chain).length ++ (kcb.component ++ d)).length := by
      simp only [length_append, hfr]
      omega
    simp only [hm, hi]
    change (store _ _ kcb.component).bind _ = _
    rw [hs, Option.bind_some, hln, ih _ _ (fun k hk => he k (by simp [hk]))
      (fun k hk => hc k (by simp [hk])) hfr (by omega), append_assoc]

/-- A root key of one character: `n` compressed, or U+0410. -/
def rootKey (compressed : Bool) : KeyControlBlock :=
  { Compressed := compressed, NameLength := if compressed then 1 else 2,
    Name := fun _ => if compressed then 110 else 0x410, even := by simp +contextual,
    KeyCell := true, Delete := false, KeyHive := true, nonExist := false, hiveEntryOrExit := true,
    keyNode := some fun _ => 0 }

/-- A key `abc` below the root key. -/
def childKey : KeyControlBlock :=
  { rootKey true with NameLength := 3, Name := fun i => 97 + i, even := by simp [rootKey] }

end FreeNT.Config
