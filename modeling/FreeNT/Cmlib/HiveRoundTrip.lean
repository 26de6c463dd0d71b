import FreeNT.Cmlib.HiveWrite
import FreeNT.Cmlib.HiveLoadSafe

/-!
# Writing a hive and loading it again

A hive whose stable storage keeps the invariant of the allocator, and whose base
block is that of a new hive but for its length (`Created`), is written to a file from
which `HvpInitializeMemoryHive` makes the same hive again (`Reloaded`):

* `written_verifies`: the base block in the file passes `HvpVerifyHiveHeader`;
* `loadBins_written`: the copied bins are those of the hive;
* `addBins_lists`: the rebuilt lists lead to the free cells of the hive.

`round_trip` says so of every hive that a run of calls in range reaches; the huge
request gives a hive whose file cannot be loaded (`round_trip_fails`).
-/

namespace FreeNT.Cmlib

open FreeNT.Rtl List Option Nat BaseBlock

variable {h h' : HHive} {im : Mem} {fileName : Option (List (BitVec 16))} {bins : List Bin}

/-! ## The base block in the file -/

/-- The base block is that of a new hive, but for its length. -/
def Created (h : HHive) : Prop :=
  ∃ fileName, ∀ a, ¬ (40 ≤ a ∧ a < 44) → h.BaseBlock a = newBaseBlock fileName a

variable {a : Nat}

lemma Created.readUlong (hn : Created h) (ha : a + 4 ≤ 40 ∨ 44 ≤ a ∧ a + 4 ≤ 48 ∨ 112 ≤ a) :
    h.BaseBlock.readUlong a = (newBaseBlock none).readUlong a := by
  obtain ⟨fileName, hn⟩ := hn
  rw [← newBlock_readUlong fileName (by omega)]
  exact Mem.readUlong_congr fun x h1 h2 => hn x (by omega)

lemma Created.sequence (hn : Created h) : BaseBlock.Sequence1 h.BaseBlock = BaseBlock.Sequence2 h.BaseBlock := by
  simp only [BaseBlock.Sequence1, BaseBlock.Sequence2]
  rw [hn.readUlong (by omega), hn.readUlong (by omega)]
  decide

/-- The base block that `HvWriteHive` leaves in the file. -/
def writtenHeader (h : HHive) (time : Nat) : Mem :=
  closeHeader (openHeader (BaseBlock.setTimeStamp h.BaseBlock time))

lemma written_readUlong (h : HHive) (time : Nat)
    (ha : a + 4 ≤ 4 ∨ 20 ≤ a ∧ a + 4 ≤ 28 ∨ 32 ≤ a ∧ a + 4 ≤ 508 ∨ 512 ≤ a) :
    (writtenHeader h time).readUlong a = h.BaseBlock.readUlong a := by
  rw [writtenHeader, close_readUlong _ (by omega), open_readUlong _ (by omega), stamp_readUlong _ _ (by omega)]

lemma writtenHeader_FileType (h : HHive) (time : Nat) :
    BaseBlock.FileType (writtenHeader h time) = HFILE_TYPE_PRIMARY := by
  rw [BaseBlock.FileType, writtenHeader, close_readUlong _ (by omega)]
  rfl

lemma checksum_congr {b b' : Mem} (heq : ∀ a < 508, b a = b' a) :
    hvpHiveHeaderChecksum b = hvpHiveHeaderChecksum b' := by
  have hs : (range 127).foldl (fun sum i => sum ^^^ b.readUlong (4 * i)) 0 =
      (range 127).foldl (fun sum i => sum ^^^ b'.readUlong (4 * i)) 0 := by
    refine foldl_ext _ _ _ fun sum i hi => ?_
    rw [Mem.readUlong_congr fun x h1 h2 => heq x (by rw [mem_range] at hi; omega)]
  rw [hvpHiveHeaderChecksum, hs]
  rfl

lemma hvpHiveHeaderChecksum_lt (b : Mem) : hvpHiveHeaderChecksum b < 2 ^ 32 := by
  have hs : ∀ (is : List Nat) (sum : Nat), sum < 2 ^ 32 →
    is.foldl (fun sum i => sum ^^^ b.readUlong (4 * i)) sum < 2 ^ 32 := by
    intro is
    induction is with
    | nil => exact fun sum h => h
    | cons i is ih => exact fun sum h => ih _ (xor_lt_two_pow h (Mem.readUlong_lt b _))
  have hlt := hs (range 127) 0 (by decide)
  rw [hvpHiveHeaderChecksum]
  split <;> split <;> omega

lemma closeHeader_CheckSum (b : Mem) :
    hvpHiveHeaderChecksum (closeHeader b) = BaseBlock.CheckSum (closeHeader b) := by
  simp only [closeHeader, setCheckSum, BaseBlock.CheckSum]
  rw [Mem.readUlong_self, mod_eq_of_lt (hvpHiveHeaderChecksum_lt _)]
  exact checksum_congr fun a ha => Mem.writeUlong_of_ne _ _ (by omega)

lemma hvpVerifyHiveHeader_congr {b b' : Mem} (heq : ∀ a < 4096, b a = b' a) :
    hvpVerifyHiveHeader b = hvpVerifyHiveHeader b' := by
  have hr : ∀ a, a + 4 ≤ 4096 → b.readUlong a = b'.readUlong a := fun a ha =>
    Mem.readUlong_congr fun x _ hx => heq x (by omega)
  have hsm := checksum_congr fun a (ha : a < 508) => heq a (by omega)
  have hsg : BaseBlock.Signature b = BaseBlock.Signature b' := hr 0 (by omega)
  have hm : BaseBlock.Major b = BaseBlock.Major b' := hr 20 (by omega)
  have hmn : BaseBlock.Minor b = BaseBlock.Minor b' := hr 24 (by omega)
  have ht : BaseBlock.FileType b = BaseBlock.FileType b' := hr 28 (by omega)
  have hf : BaseBlock.Format b = BaseBlock.Format b' := hr 32 (by omega)
  have hc : BaseBlock.Cluster b = BaseBlock.Cluster b' := hr 44 (by omega)
  have hs1 : BaseBlock.Sequence1 b = BaseBlock.Sequence1 b' := hr 4 (by omega)
  have hs2 : BaseBlock.Sequence2 b = BaseBlock.Sequence2 b' := hr 8 (by omega)
  have hch : BaseBlock.CheckSum b = BaseBlock.CheckSum b' := hr 508 (by omega)
  simp [hvpVerifyHiveHeader, hsm, hsg, hm, hmn, ht, hf, hc, hs1, hs2, hch]

lemma written_verifies (hn : Created h) (time : Nat) : hvpVerifyHiveHeader (writtenHeader h time) := by
  have hsg : BaseBlock.Signature (writtenHeader h time) = HV_SIGNATURE := by
    rw [BaseBlock.Signature, written_readUlong _ _ (by omega), hn.readUlong (by omega)]; decide
  have hm : BaseBlock.Major (writtenHeader h time) = HSYS_MAJOR := by
    rw [BaseBlock.Major, written_readUlong _ _ (by omega), hn.readUlong (by omega)]; decide
  have hmn : BaseBlock.Minor (writtenHeader h time) = HSYS_MINOR := by
    rw [BaseBlock.Minor, written_readUlong _ _ (by omega), hn.readUlong (by omega)]; decide
  have hf : BaseBlock.Format (writtenHeader h time) = HBASE_FORMAT_MEMORY := by
    rw [BaseBlock.Format, written_readUlong _ _ (by omega), hn.readUlong (by omega)]; decide
  have hc : BaseBlock.Cluster (writtenHeader h time) = 1 := by
    rw [BaseBlock.Cluster, written_readUlong _ _ (by omega), hn.readUlong (by omega)]; decide
  have hs : BaseBlock.Sequence1 (writtenHeader h time) = BaseBlock.Sequence2 (writtenHeader h time) :=
    closeHeader_eq (setTimeStamp_eq hn.sequence time)
  have hsm : hvpHiveHeaderChecksum (writtenHeader h time) =
    BaseBlock.CheckSum (writtenHeader h time) := closeHeader_CheckSum _
  simp [hvpVerifyHiveHeader, hsg, hm, hmn, writtenHeader_FileType, hf, hc, hs, hsm]

/-! ## The bins in the file -/

/-- The file has the base block and the blocks of the hive. -/
structure SavedImage (h : HHive) (time : Nat) (image : Mem) : Prop where
  header : ∀ k < 4096, image k = writtenHeader h time k
  data : ∀ x < 4096 * (h.Storage .stable).Length, image (4096 + x) = (h.Storage .stable).Mem x

variable {time : Nat}

section

variable (hw : WriteOk h) (hs : BaseBlock.Sequence1 h.BaseBlock = BaseBlock.Sequence2 h.BaseBlock)

include hw hs

lemma hvWriteHive_saves {dv dv' : Device} (hr : hvWriteHive h time dv = some (true, h', dv')) :
    SavedImage h time dv'.Bytes := by
  have ht : WriteOk { h with BaseBlock := setTimeStamp h.BaseBlock time } :=
    hw.withBaseBlock (stamp_readUlong _ _ (by omega))
  have hwt := @hvpWriteHive_spec _ false ht nofun (setTimeStamp_eq hs time) dv
  rw [hvWriteHive, hwt, some.injEq] at hr
  obtain ⟨-, hwr⟩ := writeResult_wrote hr
  refine ⟨hwr.header, fun x hx => ?_⟩
  have hm : x / 4096 ∈ blocksFrom { h with BaseBlock := setTimeStamp h.BaseBlock time } false 0 :=
    mem_blocksFrom.mpr ⟨⟨zero_le _, show _ < (h.Storage .stable).Length by omega⟩, nofun⟩
  have hb := hwr.blocks _ hm (x % 4096) (mod_lt _ (by decide))
  rwa [div_add_mod, show 4096 * (x / 4096 + 1) + x % 4096 = 4096 + x by omega] at hb

lemma hvWriteHive_ok (time : Nat) {dv : Device} (hd : dv.Outcomes = []) :
    ∃ h' dv', hvWriteHive h time dv = some (true, h', dv') := by
  have ht : WriteOk { h with BaseBlock := setTimeStamp h.BaseBlock time } :=
    hw.withBaseBlock (stamp_readUlong _ _ (by omega))
  have hwr := @hvpWriteHive_spec _ false ht nofun (setTimeStamp_eq hs time) dv
  obtain ⟨dv', hr, -⟩ := writeResult_ok { h with BaseBlock := setTimeStamp h.BaseBlock time }
    (setTimeStamp h.BaseBlock time) false hd
  exact ⟨_, dv', by rw [hvWriteHive, hwr, hr]⟩

end

lemma SavedImage.length (hs : SavedImage h time im) : BaseBlock.Length im = BaseBlock.Length h.BaseBlock := by
  rw [BaseBlock.Length, BaseBlock.Length, ← written_readUlong h time (by omega)]
  exact Mem.readUlong_congr fun x _ hx => hs.header x (by omega)

lemma SavedImage.verifies (hs : SavedImage h time im) (hn : Created h) : hvpVerifyHiveHeader im := by
  rw [hvpVerifyHiveHeader_congr hs.header, written_verifies hn]

variable {fuel : Nat}

lemma loadBins_written (hs : SavedImage h time im) (hl : Layout (h.Storage .stable) bins)
    (hfl : bins.length < fuel) :
    ∃ d, loadBins im (4096 * (h.Storage .stable).Length) LoadAlloc.all.Bin fuel 0 0
        (blankDual (h.Storage .stable).Length) = some (.ok d) ∧ Layout d bins ∧
          d.Length = (h.Storage .stable).Length ∧
      ∀ x < 4096 * (h.Storage .stable).Length, d.Mem x = (h.Storage .stable).Mem x := by
  have hr : ∀ x, x + 4 ≤ 4096 * (h.Storage .stable).Length →
      im.readUlong (4096 + x) = (h.Storage .stable).Mem.readUlong x := fun x hx => by
    simp only [Mem.readUlong, add_assoc]
    rw [hs.data x (by omega), hs.data (x + 1) (by omega), hs.data (x + 2) (by omega), hs.data (x + 3) (by omega)]
  have him : ∀ b ∈ bins, ImageBin im b := fun b hb => by
    obtain ⟨hsg, -, hsz, hp, ha, -, -⟩ := hl.binOk b hb
    have he := hl.bin_bounds hb
    exact ⟨(hr _ (by omega)).trans hsg, by rw [add_assoc]; exact (hr _ (by omega)).trans hsz, hp, ha⟩
  rcases loadBins_ok (d := blankDual (h.Storage .stable).Length) hl.tiles him (le_refl _) hfl with
    ⟨-, hf⟩ | ⟨d, hld, hc⟩
  · exact absurd (fun _ => rfl) hf
  have hm : ∀ x < 4096 * (h.Storage .stable).Length, d.Mem x = (h.Storage .stable).Mem x := fun x hx => by
    rw [hc.mem x (zero_le _) hx, hs.data x hx]
  have hln : d.Length = (h.Storage .stable).Length := hc.length
  refine ⟨d, hld, ⟨⟨hln ▸ hl.tiles, fun b hb => (hl.binOk b hb).congr fun x _ hx => ?_, hc.blocks⟩,
    hln ▸ hl.range⟩, hln, hm⟩
  have he := hl.bin_bounds hb
  exact hm x (by omega)

/-! ## The free lists -/

/-- The offsets of the free cells of a list. -/
def ToAdd (cs : List Cell) (o : Nat) : Prop := ∃ c ∈ cs, c.Free ∧ c.Offset = o

variable {d : Dual}

lemma Layout.pairwise (hl : Layout d bins) : (cells bins).Pairwise fun c c' => c.Offset ≠ c'.Offset := by
  have hin : ∀ b ∈ bins, ∀ c ∈ b.Cells, b.Offset ≤ c.Offset ∧ c.Offset + 16 ≤ b.Offset + b.Size :=
    fun b hb c hc => by
    have := hl.cell_bounds hb hc
    have := ((hl.binOk b hb).cellOk c hc).len_pos
    omega
  rw [cells, pairwise_flatMap]
  refine ⟨fun b hb => ?_, hl.tiles.pairwise.imp_of_mem fun {b b'} hb hb' hle c hc c' hc' => ?_⟩
  · refine (hl.binOk b hb).tiles.pairwise.imp_of_mem fun {c c'} hc _ hle => ?_
    have := ((hl.binOk b hb).cellOk c hc).len_pos
    omega
  have := hin b hb c hc
  have := hin b' hb' c' hc'
  omega

lemma addCells_lists {fl : Nat → List Nat} {b : Bin} (hb : b ∈ bins) {cs rest : List Cell}
    (hcs : ∀ c ∈ cs, c ∈ b.Cells) (hne : (cs ++ rest).Pairwise fun c c' => c.Offset ≠ c'.Offset)
    (hr : Rep .stable (h.Storage .stable) bins fl (ToAdd (cs ++ rest))) :
    ∃ h' fl', addCells h ⟨.stable, b.Offset⟩ cs = some h' ∧
      Rep .stable (h'.Storage .stable) bins fl' (ToAdd rest) := by
  induction cs generalizing h fl with
  | nil => exact ⟨h, fl, rfl, hr⟩
  | cons c cs ih =>
    have hcb := hcs c mem_cons_self
    have hc : c ∈ cells bins := mem_cells.mpr ⟨b, hb, hcb⟩
    obtain ⟨hfs, hne⟩ := pairwise_cons.mp hne
    have ih := fun {h fl} hr => @ih h fl (fun c hc => hcs c (mem_cons_of_mem _ hc)) hne hr
    rw [addCells, addCell]
    by_cases hf : c.Free
    swap
    · rw [if_neg hf, do_some]
      refine ih (hr.ex_congr fun o => ⟨?_, ?_⟩)
      · rintro ⟨x, hx, hxf, rfl⟩
        exact ⟨x, (mem_cons.mp hx).resolve_left fun heq => hf (heq ▸ hxf), hxf, rfl⟩
      · rintro ⟨x, hx, hxf, rfl⟩
        exact ⟨x, mem_cons_of_mem _ hx, hxf, rfl⟩
    have hbn := hr.layout.cell_bounds hb hcb
    have ho := hr.layout.offset_lt hc
    have hid : (h.readUlong ((⟨.stable, b.Offset⟩ : Ptr).add 4) + (c.Offset - b.Offset)) % 2 ^ 32 =
        orType .stable c.Offset := by
      change ((h.Storage .stable).Mem.readUlong (b.Offset + 4) + _) % _ = c.Offset
      rw [(hr.layout.binOk b hb).fileOffset]
      omega
    obtain ⟨h1, ha, ⟨fl1, hr1⟩, -⟩ := hvpAddFree_spec hr hc hf ⟨c, mem_cons_self, hf, rfl⟩
    rw [if_pos hf, hid, ha, do_some]
    refine ih (hr1.ex_congr fun o => ⟨?_, ?_⟩)
    · rintro ⟨⟨x, hx, hxf, rfl⟩, hxo⟩
      exact ⟨x, (mem_cons.mp hx).resolve_left fun heq => hxo (heq ▸ rfl), hxf, rfl⟩
    · rintro ⟨x, hx, hxf, rfl⟩
      exact ⟨⟨x, mem_cons_of_mem _ hx, hxf, rfl⟩, (hfs x hx).symm⟩

lemma addBins_lists {fl : Nat → List Nat} {bs : List Bin} (hbs : ∀ b ∈ bs, b ∈ bins)
    (hne : (cells bs).Pairwise fun c c' => c.Offset ≠ c'.Offset)
    (hr : Rep .stable (h.Storage .stable) bins fl (ToAdd (cells bs))) :
    ∃ h' fl', addBins h bs = some h' ∧ Rep .stable (h'.Storage .stable) bins fl' fun _ => False := by
  induction bs generalizing h fl with
  | nil => exact ⟨h, fl, rfl, hr.ex_congr fun o => ⟨fun ⟨_, hc, _⟩ => (nomatch hc), False.elim⟩⟩
  | cons b bs ih =>
    obtain ⟨h1, fl1, ha, hr1⟩ := addCells_lists (hbs b mem_cons_self) (fun _ hc => hc) hne hr
    rw [addBins, ha, do_some]
    exact ih (fun b hb => hbs b (mem_cons_of_mem _ hb)) (pairwise_append.mp hne).2.1 hr1

lemma Layout.hasBin (hl : Layout d bins) {b : Bin} (hb : b ∈ bins) : HasBin d b := by
  obtain ⟨-, -, hsz, hp, ha, ht, hcl⟩ := hl.binOk b hb
  have hm := hl.bin_aligned hb
  refine ⟨by rw [hl.blocks b hb (b.Offset / 4096) (by omega) (by omega)], hsz, hp, ha, ht, fun c hc => ?_⟩
  have := hl.cell_bounds hb hc
  have := (hcl c hc).len_pos
  exact ⟨(hcl c hc).header, (hcl c hc).ne_zero, by omega⟩

/-- The lists that are built over a storage lead to its free cells. -/
lemma freeCellList_written (im : Mem) (hl : Layout d bins)
    (hfl : bins.length < fuel ∧ ∀ b ∈ bins, b.Cells.length < fuel) :
    ∃ h2 fl, hvpCreateHiveFreeCellList fuel (loadedHive im d) = some h2 ∧
      Rep .stable (h2.Storage .stable) bins fl (fun _ => False) ∧
      Relinked (LinkAt (cells bins)) (clearLists (loadedHive im d)) h2 := by
  have hl0 : Layout ((clearLists (loadedHive im d)).Storage .stable) bins := hl.withDisplay _
  have hr0 : Rep .stable ((clearLists (loadedHive im d)).Storage .stable) bins (fun _ =>
    []) (ToAdd (cells bins)) := by
    refine ⟨hl0, fun i _ => rfl, fun i _ => nodup_nil, fun i _ o => ⟨nofun, ?_⟩⟩
    rintro ⟨c, hc, rfl, hf, -, hn⟩
    exact absurd ⟨c, hc, hf, rfl⟩ hn
  obtain ⟨h2, fl, ha, hr⟩ := addBins_lists (fun _ hb => hb) hl.pairwise hr0
  refine ⟨h2, fl, ?_, hr, addBins_relinked ha⟩
  rw [hvpCreateHiveFreeCellList, addFreeBins_eq (k := 0) fuel fuel rfl hl0.tiles fun b hb =>
    hl0.hasBin hb, if_pos hfl, ha]

/-! ## The round trip -/

/-- `h₂` is the hive `h` again: it has the fields of its base block, its allocated
cells with their data, and its free cells, on the lists of their sizes. -/
structure Reloaded (h h₂ : HHive) : Prop where
  rootCell : BaseBlock.RootCell h₂.BaseBlock = BaseBlock.RootCell h.BaseBlock
  length : BaseBlock.Length h₂.BaseBlock = BaseBlock.Length h.BaseBlock
  minor : BaseBlock.Minor h₂.BaseBlock = BaseBlock.Minor h.BaseBlock
  allocated : ∀ cell c, AllocatedAt h cell .stable c → AllocatedAt h₂ cell .stable c ∧
    ∀ k < c.len - 4, (h₂.Storage .stable).Mem (c.Offset + 4 + k) = (h.Storage .stable).Mem (c.Offset + 4 + k)
  lists : ∃ bins fl, Holds (h.Storage .stable) bins ∧ AllocatorInv .stable (h₂.Storage .stable) bins fl

lemma loaded_readUlong (hs : SavedImage h time im) (d : Dual)
    (ha : a + 4 ≤ 4 ∨ 20 ≤ a ∧ a + 4 ≤ 28 ∨ 32 ≤ a ∧ a + 4 ≤ 48) :
    (hvpInitFileName (loadedHive im d).BaseBlock fileName).readUlong a = h.BaseBlock.readUlong a := by
  rw [← written_readUlong h time (by omega)]
  refine Mem.readUlong_congr fun x _ hx => ?_
  rw [initFileName_of_lt _ fileName (by omega), ← hs.header x (by omega)]
  exact if_pos (by omega)

/-- The file of a hive that keeps the invariant can be loaded, and gives the hive again. -/
lemma reload (hiv : HiveInv h) (hn : Created h) (hbn : 0 < (h.Storage .stable).Length)
    (hs : SavedImage h time im) (fileName : Option (List (BitVec 16))) :
    ∃ fuel h₂, hvpInitializeMemoryHive im fileName .all fuel = some (.ok h₂) ∧ Reloaded h h₂ := by
  obtain ⟨bins, hst⟩ := hiv.storage .stable
  have hl := hst.layout
  obtain ⟨fuel, hf⟩ := exists_fuel bins
  obtain ⟨d, hlo, hld, hln, hm⟩ := loadBins_written hs hl hf.1
  obtain ⟨h₂, fl, hli, hr, hrl⟩ := freeCellList_written im hld hf
  have hch : BaseBlock.Length im = 4096 * (h.Storage .stable).Length := hs.length.trans hiv.ok.length
  have hb : 4096 * (h.Storage .stable).Length / 4096 = (h.Storage .stable).Length := by omega
  refine ⟨fuel, { h₂ with
    DirtyVector := rtlClearAllBits
      (rtlInitializeBitMap (fun _ => 0) (roundUp (h₂.Storage .stable).Length 32 / 8 * 8))
    BaseBlock := hvpInitFileName h₂.BaseBlock fileName }, ?_, ?_⟩
  · rw [memoryHive_eq (hs.verifies hn) (by omega), if_pos (show (_ && _) = true from rfl), hch, hb, hlo]
    dsimp only
    rw [finishLoad, hli]
    rfl
  have hst2 : StorageInv .stable (h₂.Storage .stable) bins := ⟨⟨fl, hr⟩, hst.coalesced⟩
  obtain ⟨fl', hls⟩ := hst2.allocatorInv
  rw [hrl.baseBlock]
  refine ⟨loaded_readUlong hs d (by omega), loaded_readUlong hs d (by omega), loaded_readUlong hs d (by omega),
    fun cl c hc => ?_, bins, fl', hl.toHolds, hls⟩
  have hcb := (HiveInv.isCell hst).mp hc.isCell
  have he := hl.cell_end hcb
  refine ⟨⟨(HiveInv.isCell hst2).mpr hcb, hc.allocated, hc.index⟩, fun k hk => ?_⟩
  -- a link stands in a free cell, and not in `c`
  have hnt : ¬ LinkAt (cells bins) (c.Offset + 4 + k) := by
    rintro ⟨x, hx, hxf, h1, h2⟩
    have := (hl.cell_ok hx).len_pos
    have hin : c.Has (c.Offset + 4 + k) := ⟨by omega, by omega⟩
    exact FreeAt.not_mem hl hcb hc.allocated hin ⟨x, hx, hxf, by omega, by omega⟩
  exact (hrl.mem _ hnt).trans (hm _ (by omega))

lemma run_created {h0 : HHive} {o : List HiveOp} (hnw : hvpCreateHive fileName true = .ok h0)
    (hrn : Run hiveStep GoodCall h0 o h) : Created h := by
  refine (hrn.invariant (fun h => HiveInv h ∧ Created h) (fun {s op s'} hs hg hst => ?_)
    ⟨hvpCreateHive_inv hnw, fileName, ?_⟩).2
  · obtain ⟨h', t, bins, bins', g, nw, hr, he, -⟩ := hiveStep_spec hs.1 hg.1 hg.2
    cases hr.symm.trans hst
    obtain ⟨n, hn⟩ := hs.2
    exact ⟨he.hiveInv hs.1, n, fun a ha => (he.ext.baseBlock a ha).trans (hn a ha)⟩
  · cases hnw
    exact fun a _ => rfl

/-- The hives that runs of calls in range reach are loaded again from their files. -/
theorem round_trip {h₀ : HHive} {ops : List HiveOp} (hcreate : hvpCreateHive fileName true = .ok h₀)
    (hrun : Run hiveStep GoodCall h₀ ops h) (hbin : 0 < (h.Storage .stable).Length)
      {time : Nat} {dev dev' : Device}
    (hwrite : hvWriteHive h time dev = some (true, h', dev')) (fileName' : Option (List (BitVec 16))) :
    ∃ fuel h₂, hvpInitializeMemoryHive dev'.Bytes fileName' .all fuel = some (.ok h₂) ∧ Reloaded h h₂ := by
  have hin := run_hiveInv hcreate hrun
  have hn := run_created hcreate hrun
  exact reload hin hn hbin (hvWriteHive_saves hin.flushOk.writeOk hn.sequence hwrite) fileName'

theorem round_trip_one_cell : ∃ h h' dev', Run hiveStep GoodCall (newHive none)
    [.allocate 20 .stable ⟨true, true, true⟩] h ∧
    0 < (h.Storage .stable).Length ∧ hvWriteHive h 0 ⟨fun _ => 0, [], []⟩ = some (true, h', dev') ∧
    ∃ fuel h₂, hvpInitializeMemoryHive dev'.Bytes none .all fuel = some (.ok h₂) ∧ Reloaded h h₂ := by
  have hg := newHive_goodCall .stable (show 20 ≤ 8192 by decide)
  have hl : (hiveStep (newHive none) (.allocate 20 .stable ⟨true, true, true⟩)).map
      (fun h => (h.Storage .stable).Length) = some 1 := by decide +kernel
  obtain ⟨h, hs, hl⟩ := map_eq_some_iff.mp hl
  have hr := Run.single hg hs
  obtain ⟨h', dev', hw⟩ := hvWriteHive_ok (run_hiveInv rfl hr).flushOk.writeOk (run_created rfl hr).sequence 0
    (show (⟨fun _ => 0, [], []⟩ : Device).Outcomes = [] from rfl)
  have hb : 0 < (h.Storage .stable).Length := by rw [hl]; decide
  exact ⟨h, h', dev', hr, hb, hw, round_trip rfl hr hb hw none⟩

/-! ## A file that cannot be loaded -/

lemma addFreeCells_stuck {bin : Ptr} {size o : Nat} (ho : o < h.readUlong (bin.add 8))
    (hh : h.readLong (bin.add o) = 0) (fuel : Nat) : addFreeCells h bin size fuel o = none := by
  have hlt : o < 2 ^ 32 := lt_trans ho (Mem.readUlong_lt _ _)
  induction fuel with
  | zero => rfl
  | succ fuel ih =>
    rw [addFreeCells, if_pos ho]
    dsimp only
    split
    · rw [hh, if_neg (by decide), show (o + (-(0 : Int)).toNat) % 2 ^ 32 = o from mod_eq_of_lt hlt, ih]
    · rfl

lemma addFreeCells_stuck_after {bin size c next : Nat} (hn : next < h.readUlong (Ptr.add ⟨.stable, bin⟩ 8))
    (hc : h.readLong (Ptr.add ⟨.stable, bin⟩ c) = (next - c : Nat)) (hle : c + 8 ≤ next) (hb : 8 ≤ c)
    (hh : h.readLong (Ptr.add ⟨.stable, bin⟩ next) = 0) (fuel : Nat) :
    addFreeCells h ⟨.stable, bin⟩ size fuel c = none := by
  have hlt : h.readUlong (Ptr.add ⟨.stable, bin⟩ 8) < 2 ^ 32 := Mem.readUlong_lt _ _
  cases fuel with
  | zero => rfl
  | succ fuel =>
    rw [addFreeCells, if_pos (by omega)]
    dsimp only
    rw [hc, if_pos (show (0 : Int) < (next - c : Nat) by omega), Int.toNat_natCast,
      show (c + (next - c)) % 2 ^ 32 = next by omega]
    split
    swap
    · rfl
    split
    · rcases hvpAddFree_cases h (bin + c) ((h.readUlong (Ptr.add ⟨.stable, bin⟩ 4) + c) % 2 ^ 32) with
        ⟨-, ha⟩ | ⟨-, h1, ha, r⟩
      · exact bind_eq_none_iff.mpr fun h1 hr => absurd (ha.symm.trans hr) (some_ne_none _).symm
      refine bind_eq_none_iff.mpr fun h2 hr => ?_
      cases ha.symm.trans hr
      refine addFreeCells_stuck ?_ ?_ fuel
      · exact lt_of_lt_of_eq hn (r.readUlong (a := bin + 8) fun x _ _ => by omega).symm
      · exact (r.readLong (a := bin + next) fun x _ _ => by omega).trans hh
    · rfl

lemma addFreeBins_stuck {bin : Nat} (hl : 0 < (h.Storage .stable).Length)
    (hb : ((h.Storage .stable).BlockList 0).BinAddress = some bin)
    (hc : ∀ size, addFreeCells h ⟨.stable, bin⟩ size fuel 32 = none) (t : Nat) :
    addFreeBins fuel t h 0 = none := by
  cases t with
  | zero => rfl
  | succ t =>
    rw [addFreeBins, if_pos hl, hb, do_some]
    dsimp only
    rw [hc]
    rfl

/-- An image of one bin, with such a header after its first cell, is never loaded. -/
lemma load_stuck (hver : hvpVerifyHiveHeader im) (hb : ImageBin im ⟨0, BaseBlock.Length im, []⟩)
    {next : Nat} (hle : 40 ≤ next) (hn : next + 4 ≤ BaseBlock.Length im)
    (hcl : (imageData im).readLong 32 = (next - 32 : Nat)) (hh : (imageData im).readLong next = 0)
    (fuel : Nat) : hvpInitializeMemoryHive im fileName .all fuel = none := by
  have hp : 0 < BaseBlock.Length im := hb.pos
  have ha : BaseBlock.Length im % 4096 = 0 := hb.aligned
  have ht : Tiles Bin.Offset Bin.Size 0 (4096 * (blankDual (BaseBlock.Length im / 4096)).Length)
      [⟨0, BaseBlock.Length im, []⟩] :=
    ⟨rfl, show 0 + BaseBlock.Length im = 4096 * (BaseBlock.Length im / 4096) by omega⟩
  have hbn : ∀ b ∈ [(⟨0, BaseBlock.Length im, []⟩ : Bin)], ImageBin im b := by simpa using hb
  rw [memoryHive_eq hver (by omega), if_pos (show (_ && _) = true from rfl)]
  rcases lt_or_ge 1 fuel with hf | hf
  swap
  · -- the walk over the bins takes two turns
    obtain rfl | rfl : fuel = 0 ∨ fuel = 1 := by omega
    · rfl
    · rw [loadBins_step hb rfl (le_of_eq ht.2) (le_of_eq (zero_add _))]
      rfl
  have he : 4096 * (BaseBlock.Length im / 4096) = BaseBlock.Length im := by omega
  rcases @loadBins_ok im (BaseBlock.Length im) LoadAlloc.all.Bin _ _ ht hbn (le_of_eq he)
    fuel hf with ⟨-, hfl⟩ | ⟨d, hld, hc⟩
  · exact absurd (fun _ => rfl) hfl
  have hln : d.Length = BaseBlock.Length im / 4096 := hc.length
  have hm : ∀ x, x + 4 ≤ BaseBlock.Length im → (imageData im).Agree d.Mem x 4 := fun x hx y _ hy =>
    hc.mem y (zero_le _) (show y < 4096 * (BaseBlock.Length im / 4096) by omega)
  have hbl := hc.blocks _ mem_cons_self 0 (zero_le _) (by simpa using hp)
  have hsz : d.Mem.readUlong 8 = BaseBlock.Length im := by
    rw [Mem.readUlong_congr (hm 8 (by omega))]
    exact hb.size
  have hl : hvpCreateHiveFreeCellList fuel (loadedHive im d) = none := by
    refine addFreeBins_stuck (show 0 < d.Length by omega) (congrArg HMapEntry.BinAddress hbl) (fun size => ?_) fuel
    refine addFreeCells_stuck_after ?_ ?_ hle (by omega) ?_ fuel
    · exact lt_of_lt_of_eq (by omega) hsz.symm
    · exact (Mem.readLong_congr (hm (0 + 32) (by omega))).trans hcl
    · exact (Mem.readLong_congr (hm (0 + next) (by omega))).trans (by rw [zero_add]; exact hh)
  rw [hld]
  dsimp only
  rw [finishLoad, hl]
  rfl

lemma hugeRequest_writeOk : ∃ h, hiveStep (newHive none) hugeRequest = some h ∧ WriteOk h ∧ Created h ∧
    (h.Storage .stable).Length = 0x80001 ∧ (h.Storage .stable).Mem.readUlong 0 = HV_BIN_SIGNATURE ∧
    (h.Storage .stable).Mem.readUlong 8 = 0x80001000 ∧ (h.Storage .stable).Mem.readLong 32 = 0x7FFFF020 ∧
    (h.Storage .stable).Mem.readLong 0x7FFFF040 = 0 := by
  have hs : (hiveStep (newHive none) hugeRequest).map (fun h => ((h.Storage .stable).BlockList, h.BaseBlock)) =
      some (fun k => if 0 ≤ k ∧ k < 0 + 0x80001 then ⟨some (0 + (k - 0) * 4096), some 0⟩ else ⟨none, none⟩,
        setLength (newBaseBlock none) 0x80001000) := rfl
  have hsg : (hiveStep (newHive none) hugeRequest).map (fun h => (h.Storage .stable).Mem.readUlong 0) =
      some HV_BIN_SIGNATURE := by decide +kernel
  have hh := hugeRequest_headers
  obtain ⟨h, hst, hs⟩ := map_eq_some_iff.mp hs
  rw [hst, map_some, some.injEq] at hh hsg
  simp only [Prod.mk.injEq] at hh hs
  obtain ⟨hbl, hb⟩ := hs
  obtain ⟨hl, hsz, hc, hn⟩ := hh
  refine ⟨h, hst, ⟨?_, fun i hi => ?_, by omega⟩, ⟨none, fun a ha => ?_⟩, hl, hsg, hsz, hc, hn⟩
  · rw [hb, hl, BaseBlock.Length, setLength, Mem.readUlong_self]
    decide
  · rw [hbl]
    dsimp only
    rw [if_pos ⟨zero_le _, by omega⟩]
    exact congrArg some (by omega)
  · rw [hb, setLength]
    exact Mem.writeUlong_of_ne _ _ (by omega)

/-- After the huge request the hive is written, and its file cannot be loaded: the
walk over the cells never ends. -/
theorem round_trip_fails : ∃ h h' dev', hvpCreateHive none true = .ok (newHive none) ∧
    Run hiveStep CallOk (newHive none) [hugeRequest] h ∧ 0 < (h.Storage .stable).Length ∧
    hvWriteHive h 0 ⟨fun _ => 0, [], []⟩ = some (true, h', dev') ∧
    ∀ fuel, hvpInitializeMemoryHive dev'.Bytes none .all fuel = none := by
  obtain ⟨h, hst, hw, hn, hl, hsg, hsz, hcl, hnx⟩ := hugeRequest_writeOk
  obtain ⟨h', dev', hwr⟩ :=
    hvWriteHive_ok hw hn.sequence 0 (show (⟨fun _ => 0, [], []⟩ : Device).Outcomes = [] from rfl)
  have hs := hvWriteHive_saves hw hn.sequence hwr
  refine ⟨h, h', dev', rfl, .single (by unfold hugeRequest CallOk; decide) hst, by omega, hwr, fun fuel => ?_⟩
  have hc : BaseBlock.Length dev'.Bytes = 4096 * 0x80001 := by rw [hs.length, hw.length, hl]
  have hd : ∀ x, x + 4 ≤ 4096 * 0x80001 → (h.Storage .stable).Mem.Agree (imageData dev'.Bytes) x 4 :=
    fun x hx y _ hy => hs.data y (by omega)
  refine load_stuck (hs.verifies hn) ⟨?_, ?_, ?_, ?_⟩ (show 40 ≤ 0x7FFFF040 by decide) (by omega) ?_ ?_ fuel
  · exact (Mem.readUlong_congr (hd 0 (by omega))).trans hsg
  · rw [hc]
    exact (Mem.readUlong_congr (hd 8 (by omega))).trans hsz
  · rw [hc]
    decide
  · rw [hc]
    decide
  · exact (Mem.readLong_congr (hd 32 (by omega))).trans hcl
  · exact (Mem.readLong_congr (hd _ (by omega))).trans hnx

end FreeNT.Cmlib
