import FreeNT.Cmlib.HiveLoad

/-!
# Which images are loaded safely

An image is tiled (`Tiled`) if its bins fill it and the cells of each bin fill the
bin. `HvpInitializeMemoryHive` loads an image safely (`SafeLoad`) if it returns,
without an access out of bounds or a failed assertion, and refuses the image if it
is not tiled.

`load_safe_iff`: it does so for the images that it refuses at the header of a bin
(`Rejected`), and for those that are tiled and whose free cells have room for a link
(`WellFormed`). On all others it runs on for ever, leaves its buffers, or
takes the image for a good one (`load_safe_fails`).
-/

namespace FreeNT.Cmlib

open FreeNT.Rtl List LoadAlloc

/-- The bytes of the image after its base block. -/
def imageData (image : Mem) : Mem := fun a => image (4096 + a)

/-- The bins `bins`, with their cells, fill the image. -/
structure ImageTiled (image : Mem) (bins : List Bin) : Prop where
  tiles : Tiles Bin.Offset Bin.Size 0 (BaseBlock.Length image) bins
  size : ∀ b ∈ bins, image.readUlong (4096 + b.Offset + 8) = b.Size
  pos : ∀ b ∈ bins, 0 < b.Size
  aligned : ∀ b ∈ bins, b.Size % 4096 = 0
  cellTiles : ∀ b ∈ bins, Tiles Cell.Offset Cell.len (b.Offset + 32) (b.Offset + b.Size) b.Cells
  header : ∀ b ∈ bins, ∀ c ∈ b.Cells, HasHeader (imageData image) (b.Offset + b.Size) c

def Tiled (image : Mem) : Prop := ∃ bins, ImageTiled image bins

/-- The image is loaded safely: the routine returns, whatever allocations fail, and
refuses an image that is not tiled. -/
def SafeLoad (image : Mem) (fileName : Option (List (BitVec 16))) : Prop :=
  (∀ alloc, ∃ fuel r, hvpInitializeMemoryHive image fileName alloc fuel = some r) ∧ (¬ Tiled image →
      ∃ fuel, hvpInitializeMemoryHive image fileName .all fuel = some (.error .registryCorrupt))

/-- Bins fill the image up to a header that is refused. -/
def Rejected (image : Mem) : Prop :=
  ∃ bins e, Tiles Bin.Offset Bin.Size 0 e bins ∧ (∀ b ∈ bins, ImageBin image b) ∧
    e < 4096 * (BaseBlock.Length image / 4096) ∧ e % 4096 = 0 ∧ BadHeader image e

/-- The image is tiled, its bins have signatures, and its free cells room for a link. -/
def WellFormed (image : Mem) : Prop :=
  ∃ bins, ImageTiled image bins ∧ (∀ b ∈ bins, image.readUlong (4096 + b.Offset) = HV_BIN_SIGNATURE) ∧
    ∀ b ∈ bins, ∀ c ∈ b.Cells, c.Free → 8 ≤ c.len

variable {image : Mem} {fileName : Option (List (BitVec 16))}

variable {bins : List Bin}

lemma ImageTiled.length (h : ImageTiled image bins) :
    BaseBlock.Length image = 4096 * (BaseBlock.Length image / 4096) := by
  have := (h.tiles.mod_eq_zero h.aligned rfl).2
  omega

variable {d : Dual}

lemma ImageTiled.hasBin {bs : List Bin} {d' : Dual} (h : ImageTiled image bins)
    (hc : Copied image 0 (BaseBlock.Length image) bs d d') {b b' : Bin} (hb : b ∈ bins) (hb' : b' ∈ bs)
    (ho : b'.Offset = b.Offset) (hsz : b'.Size = b.Size) : HasBin d' b := by
  have hp := h.pos b hb
  have ha := h.aligned b hb
  have he := (h.tiles.mem_bounds hb).2
  have hm := (h.tiles.mod_eq_zero h.aligned rfl).1 b hb
  refine ⟨?_, ?_, hp, ha, h.cellTiles b hb, fun c hcm => ?_⟩
  · rw [hc.blocks b' hb' (b.Offset / 4096) (by omega) (by omega), ho]
  · have hr : d'.Mem.readUlong (b.Offset + 8) = (imageData image).readUlong (b.Offset + 8) :=
      Mem.readUlong_congr fun x h1 h2 => hc.mem x (Nat.zero_le _) (by omega)
    rw [hr, ← h.size b hb]
    simp [Mem.readUlong, imageData, Nat.add_assoc]
  obtain ⟨hr, hne, hin⟩ := h.header b hb c hcm
  refine ⟨?_, hne, hin⟩
  rw [← hr]
  exact Mem.readLong_congr fun x h1 h2 => hc.mem x (Nat.zero_le _) (by omega)

lemma exists_fuel (bins : List Bin) : ∃ fuel, bins.length < fuel ∧ ∀ b ∈ bins, b.Cells.length < fuel := by
  refine ⟨bins.length + (cells bins).length + 1, by omega, fun b hb => ?_⟩
  have hle : b.Cells.length ≤ (cells bins).length := by
    exact (sublist_flatten_of_mem (mem_map_of_mem hb)).length_le
  omega

variable {fuel : Nat}

/-- The free lists of a tiled image are built if the free cells have room for a link. -/
lemma ImageTiled.freeCellList {bs : List Bin} {d' : Dual} (h : ImageTiled image bins)
    (hc : Copied image 0 (BaseBlock.Length image) bs d d') (hl : BaseBlock.Length image = 4096 * d.Length)
    (hs : ∀ b ∈ bins, ∃ b' ∈ bs, b'.Offset = b.Offset ∧ b'.Size = b.Size) :
    (∃ h', hvpCreateHiveFreeCellList fuel (loadedHive image d') = some h') ↔
      (bins.length < fuel ∧ ∀ b ∈ bins, b.Cells.length < fuel) ∧ ∀ b ∈ bins, ∀ c ∈ b.Cells, c.Free →
        8 ≤ c.len := by
  have hbn : ∀ b ∈ bins, HasBin ((clearLists (loadedHive image d')).Storage .stable) b := fun b hb => by
    obtain ⟨b', hb', ho, hsz⟩ := hs b hb
    obtain ⟨h1, h2, h3, h4, h5, h6⟩ := h.hasBin hc hb hb' ho hsz
    exact ⟨h1, h2, h3, h4, h5, h6⟩
  have he : BaseBlock.Length image = 4096 * ((clearLists (loadedHive image d')).Storage .stable).Length :=
    hl.trans (by rw [← hc.length]; rfl)
  rw [hvpCreateHiveFreeCellList, addFreeBins_eq (k := 0) fuel fuel he h.tiles hbn]
  split
  · rename_i hf
    rw [addBins_iff h.tiles hbn]
    exact ⟨fun h8 => ⟨hf, h8⟩, And.right⟩
  · rename_i hf
    exact ⟨nofun, fun ha => absurd ha.1 hf⟩

lemma memoryHive_eq (hver : hvpVerifyHiveHeader image) (hl : 4096 ≤ BaseBlock.Length image)
    (a : LoadAlloc) (fuel : Nat) :
    hvpInitializeMemoryHive image fileName a fuel =
      if a.BaseBlock && a.BlockList then
        match loadBins image (BaseBlock.Length image) a.Bin fuel 0 0
            (blankDual (BaseBlock.Length image / 4096)) with
        | none => none
        | some (.error status) => some (.error status)
        | some (.ok d) => finishLoad image fileName a.Bitmap fuel d
      else some (.error .noMemory) := by
  rw [hvpInitializeMemoryHive, if_neg (by simp [hver]; omega)]
  obtain ⟨bb, bl, bin, b⟩ := a
  cases bb <;> cases bl <;> try rfl
  rcases loadBins image (BaseBlock.Length image) bin fuel 0 0 (blankDual (BaseBlock.Length image / 4096)) with
    _ | _ | d <;> rfl

lemma finishLoad_isSome {h : HHive}
    (hl : hvpCreateHiveFreeCellList fuel (loadedHive image d) = some h) (a : Bool) :
    ∃ r, finishLoad image fileName a fuel d = some r := by
  rw [finishLoad, hl]
  cases a <;> exact ⟨_, rfl⟩

lemma finishLoad_inv {r : Except NtStatus HHive} (hr : finishLoad image fileName true fuel d = some r) :
    (∃ h, hvpCreateHiveFreeCellList fuel (loadedHive image d) = some h) ∧ r ≠ .error .registryCorrupt := by
  obtain ⟨h, hl, hr⟩ := Option.bind_eq_some_iff.mp hr
  refine ⟨⟨h, hl⟩, fun heq => ?_⟩
  subst heq
  cases hr

lemma Rejected.safeLoad (hrj : Rejected image) (hver : hvpVerifyHiveHeader image)
    (hl : 4096 ≤ BaseBlock.Length image) : SafeLoad image fileName := by
  obtain ⟨bins, e, ht, hb, he, hm, hbd⟩ := hrj
  let d := blankDual (BaseBlock.Length image / 4096)
  have hw (a : Nat → Bool) :
      loadBins image (BaseBlock.Length image) a (bins.length + 1) 0 0 d = some (.error .noMemory) ∧ ¬ (∀ i, a i) ∨
        loadBins image (BaseBlock.Length image) a (bins.length + 1) 0 0 d = some (.error .registryCorrupt) :=
    loadBins_rejected ht hb (by omega) he hm hbd (Nat.lt_succ_self bins.length)
  refine ⟨fun a => ⟨bins.length + 1, ?_⟩, fun _ => ⟨bins.length + 1, ?_⟩⟩
  · rw [memoryHive_eq hver hl]
    split
    · rcases hw a.Bin with ⟨hr, -⟩ | hr
      · rw [hr]
        exact ⟨_, rfl⟩
      · rw [hr]
        exact ⟨_, rfl⟩
    · exact ⟨_, rfl⟩
  rw [memoryHive_eq hver hl, if_pos (show (all.BaseBlock && all.BlockList) = true from rfl)]
  rcases hw all.Bin with ⟨-, hn⟩ | hr
  · exact absurd (fun _ => rfl) hn
  · rw [hr]

lemma WellFormed.safeLoad (hwf : WellFormed image) (hver : hvpVerifyHiveHeader image)
    (hln : 4096 ≤ BaseBlock.Length image) : SafeLoad image fileName := by
  obtain ⟨bins, ht, hs, h8⟩ := hwf
  have hl := ht.length
  let d := blankDual (BaseBlock.Length image / 4096)
  have hbn : ∀ b ∈ bins, ImageBin image b := fun b hb =>
    ⟨hs b hb, ht.size b hb, ht.pos b hb, ht.aligned b hb⟩
  have hd : 4096 * d.Length = BaseBlock.Length image := hl.symm
  have htl : Tiles Bin.Offset Bin.Size 0 (4096 * d.Length) bins := by
    rw [hd]
    exact ht.tiles
  obtain ⟨fuel, hf⟩ := exists_fuel bins
  refine ⟨fun a => ⟨fuel, ?_⟩, fun hn => absurd ⟨bins, ht⟩ hn⟩
  rw [memoryHive_eq hver hln]
  split
  swap
  · exact ⟨_, rfl⟩
  rcases @loadBins_ok image _ a.Bin bins d htl hbn (Nat.le_of_eq hd) fuel hf.1 with
    ⟨hr, -⟩ | ⟨d', hr, hc⟩
  · rw [hr]
    exact ⟨_, rfl⟩
  rw [hr]
  rw [hd] at hc
  obtain ⟨h, hls⟩ := (ht.freeCellList hc hl fun b hb => ⟨b, hb, rfl, rfl⟩).mpr ⟨hf, h8⟩
  exact finishLoad_isSome hls _

/-- The images that are loaded safely. -/
theorem load_safe_iff (hverify : hvpVerifyHiveHeader image = true) (hlen : 4096 ≤ BaseBlock.Length image)
    (fileName : Option (List (BitVec 16))) : SafeLoad image fileName ↔ Rejected image ∨ WellFormed image := by
  refine ⟨fun ⟨hrt, hrj⟩ => ?_, fun hor => hor.elim (·.safeLoad hverify hlen) (·.safeLoad hverify hlen)⟩
  let d := blankDual (BaseBlock.Length image / 4096)
  have ha : (all.BaseBlock && all.BlockList) = true := rfl
  by_cases ht : Tiled image
  · obtain ⟨fuel, r, hr⟩ := hrt .all
    rw [memoryHive_eq hverify hlen, if_pos ha] at hr
    cases hw : loadBins image (BaseBlock.Length image) all.Bin fuel 0 0 d with
    | none =>
      rw [hw] at hr
      cases hr
    | some rs =>
      obtain ⟨bs, e, htl, hbs, -, hen⟩ := loadBins_inv (Nat.zero_le _) hw
      rcases hen with ⟨he, d', rfl, hc⟩ | ⟨he, hm, hbd, -⟩
      swap
      · exact .inl ⟨bs, e, htl, hbs, he, hm, hbd⟩
      -- the bins that were copied are those of the tiling
      obtain ⟨bins, ht⟩ := ht
      have hl := ht.length
      have hd : e = BaseBlock.Length image := he.trans hl.symm
      subst hd
      have hsm : List.Forall₂ (fun b b' => b'.Offset = b.Offset ∧ b'.Size = b.Size) bins bs := by
        refine ht.tiles.forall₂ htl ht.pos (fun b hb => (hbs b hb).pos) fun b hb b' hb' ho => ?_
        have hs : b'.Size = b.Size := by rw [← ht.size b hb, ← (hbs b' hb').size, ho]
        exact ⟨⟨ho.symm, hs⟩, hs.symm⟩
      have hme : ∀ b ∈ bins, ∃ b' ∈ bs, b'.Offset = b.Offset ∧ b'.Size = b.Size := fun b hb => by
        obtain ⟨hcn, hg⟩ := forall₂_iff_get.mp hsm
        obtain ⟨i, rfl⟩ := mem_iff_get.mp hb
        exact ⟨bs.get ⟨i, hcn ▸ i.isLt⟩, get_mem .., hg i i.isLt _⟩
      rw [hw] at hr
      obtain ⟨hls, -⟩ := finishLoad_inv hr
      obtain ⟨-, h8⟩ := (ht.freeCellList hc hl hme).mp hls
      refine .inr ⟨bins, ht, fun b hb => ?_, h8⟩
      obtain ⟨b', hb', ho, -⟩ := hme b hb
      rw [← ho]
      exact (hbs b' hb').signature
  · obtain ⟨fuel, hr⟩ := hrj ht
    rw [memoryHive_eq hverify hlen, if_pos ha] at hr
    cases hw : loadBins image (BaseBlock.Length image) all.Bin fuel 0 0 d with
    | none =>
      rw [hw] at hr
      cases hr
    | some rs =>
      obtain ⟨bs, e, htl, hbs, -, hen⟩ := loadBins_inv (Nat.zero_le _) hw
      rcases hen with ⟨he, d', rfl, hc⟩ | ⟨he, hm, hbd, -⟩
      · rw [hw] at hr
        exact absurd rfl (finishLoad_inv hr).2
      · exact .inl ⟨bs, e, htl, hbs, he, hm, hbd⟩

/-- An image of one block, with a bin header that has the size `binSize` and the
header of a first cell. -/
def blockImage (binSize : Nat) (cellSize : Int) : Mem :=
  let b := BaseBlock.setLength (newBaseBlock none) 4096
  let b := BaseBlock.setCheckSum b (hvpHiveHeaderChecksum b)
  ((b.writeUlong 4096 HV_BIN_SIGNATURE).writeUlong 4104 binSize).writeLong 4128 cellSize

theorem load_safe_one_block : hvpVerifyHiveHeader (blockImage 4096 4064) = true ∧
    4096 ≤ BaseBlock.Length (blockImage 4096 4064) ∧ SafeLoad (blockImage 4096 4064) none := by
  have hverify : hvpVerifyHiveHeader (blockImage 4096 4064) = true := by decide +kernel
  have hl : BaseBlock.Length (blockImage 4096 4064) = 4096 := by decide +kernel
  have hr : (blockImage 4096 4064).readUlong 4096 = HV_BIN_SIGNATURE ∧
    (blockImage 4096 4064).readUlong 4104 = 4096 ∧
      (imageData (blockImage 4096 4064)).readLong 32 = 4064 := by decide +kernel
  refine ⟨hverify, by omega, (load_safe_iff hverify (by omega) none).mpr (.inr ⟨[⟨0, 4096, [⟨32, 4064⟩]⟩], ?_, ?_, ?_⟩)⟩
  · refine ⟨by rw [hl]; exact ⟨rfl, rfl⟩, ?_, ?_, ?_, ?_, ?_⟩ <;> intro b hb <;> cases mem_singleton.mp hb
    · exact hr.2.1
    · decide
    · rfl
    · exact ⟨rfl, rfl⟩
    intro c hc
    cases mem_singleton.mp hc
    exact ⟨hr.2.2, by decide, by decide⟩
  · intro b hb
    cases mem_singleton.mp hb
    exact hr.1
  intro b hb c hc _
  cases mem_singleton.mp hb
  cases mem_singleton.mp hc
  decide

/-- A bin of size 0: the walk over the bins does not end. -/
theorem load_safe_fails : hvpVerifyHiveHeader (blockImage 0 0) = true ∧
    4096 ≤ BaseBlock.Length (blockImage 0 0) ∧ ¬ SafeLoad (blockImage 0 0) none := by
  have hverify : hvpVerifyHiveHeader (blockImage 0 0) = true := by decide +kernel
  have hl : BaseBlock.Length (blockImage 0 0) = 4096 := by decide +kernel
  have hr : (blockImage 0 0).readUlong 4096 = HV_BIN_SIGNATURE ∧ (blockImage 0 0).readUlong 4104 = 0 := by
    decide +kernel
  refine ⟨hverify, by omega, fun hs => ?_⟩
  obtain ⟨fuel, r, hrs⟩ := hs.1 .all
  rw [memoryHive_eq hverify (by omega), if_pos (show (all.BaseBlock && all.BlockList) = true from rfl)] at hrs
  cases hw : loadBins (blockImage 0 0) (BaseBlock.Length (blockImage 0 0)) all.Bin fuel 0 0
      (blankDual (BaseBlock.Length (blockImage 0 0) / 4096)) with
  | none =>
    rw [hw] at hrs
    cases hrs
  | some rs =>
    obtain ⟨bins, e, ht, hbn, -, hen⟩ := loadBins_inv (Nat.zero_le _) hw
    rw [show (blankDual (BaseBlock.Length (blockImage 0 0) / 4096)).Length = 1 by rw [hl]; rfl] at hen
    cases bins with
    | nil =>
      obtain rfl : 4096 * 0 = e := ht
      rcases hen with ⟨he, -⟩ | ⟨-, -, hbd, -⟩
      · omega
      rcases hbd with hbd | hbd
      · exact hbd hr.1
      · exact hbd (by rw [show 4096 + 4096 * 0 + 8 = 4104 from rfl, hr.2])
    | cons b bs =>
      have hb := hbn b mem_cons_self
      have hp := hb.pos
      have hsz := hb.size
      rw [ht.1, show 4096 + 4096 * 0 + 8 = 4104 from rfl, hr.2] at hsz
      omega

end FreeNT.Cmlib
