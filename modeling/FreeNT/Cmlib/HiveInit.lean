import FreeNT.Cmlib.HiveCell

/-!
# Creating a hive (`lib/cmlib/hiveinit.c`)

`hvpCreateHive` makes an empty hive: a base block with a new header, no blocks
and empty free lists, in a hive structure that `HvInitialize` has cleared.
-/

namespace FreeNT.Cmlib

open FreeNT.Rtl

/-- `HvpInitFileName`: the last 31 characters of the name, after clearing the field. -/
def hvpInitFileName (b : Mem) (fileName : Option (List (BitVec 16))) : Mem :=
  let b := b.fill 48 64 0
  match fileName with
  | none => b
  | some name =>
    let last := name.drop (name.length - 31)
    fun a =>
      if 48 ≤ a ∧ a < 48 + 2 * last.length then
        ((last.getD ((a - 48) / 2) 0) >>> (8 * ((a - 48) % 2))).setWidth 8
      else b a

/-- The base block of a new hive. -/
def newBaseBlock (fileName : Option (List (BitVec 16))) : Mem :=
  let b : Mem := fun _ => 0
  let b := b.writeUlong 0 HV_SIGNATURE
  let b := b.writeUlong 20 HSYS_MAJOR
  let b := b.writeUlong 24 HSYS_MINOR
  let b := b.writeUlong 28 HFILE_TYPE_PRIMARY
  let b := b.writeUlong 32 HBASE_FORMAT_MEMORY
  let b := b.writeUlong 44 1
  let b := b.writeUlong 36 HCELL_NIL
  let b := BaseBlock.setLength b 0
  let b := BaseBlock.setSequence1 b 1
  let b := BaseBlock.setSequence2 b 1
  let b := BaseBlock.setTimeStamp b 0
  let b := BaseBlock.setCheckSum b 0
  let b := b.writeUlong 4088 0
  hvpInitFileName b fileName

/-- A storage without blocks. -/
def emptyDual : Dual := ⟨0, fun _ => ⟨none, none⟩, fun _ => HCELL_NIL, fun _ => 0⟩

/-- The hive that `HvpCreateHive` leaves. -/
def newHive (fileName : Option (List (BitVec 16))) : HHive where
  BaseBlock := newBaseBlock fileName
  DirtyVector := ⟨0, fun _ => 0⟩
  DirtyCount := 0
  Version := HSYS_MINOR
  Storage := fun _ => emptyDual

/-- `HvpCreateHive`, by the outcome of the allocation of the base block. -/
def hvpCreateHive (fileName : Option (List (BitVec 16))) (allocated : Bool) : Except NtStatus HHive :=
  if allocated then .ok (newHive fileName) else .error .noMemory

end FreeNT.Cmlib
