import FreeNT.Lib.Tiling
import FreeNT.Lib.Chain
import FreeNT.Cmlib.HiveCell
import Mathlib.Data.List.Chain

/-!
# What a storage of a hive holds

The abstract view of a storage is a list of bins, each with its list of cells,
and 24 lists of offsets of free cells. `Holds d bins` says that the memory and the
block list of `d` hold these bins: they tile the storage, and the cells of each
tile it from its header to its end; there is one such list (`Holds.unique`).
`Layout` adds that offsets fit a cell index. `Chained t d fl` says that the free
lists of `d` lead to the cells `fl`. `Listed bins fl ex` says that the lists
hold each free cell once, on the list of its size, except those in `ex`.

`Layout.refill` is the rule for every change the allocator makes to cells: in a
`Hole` of the layout a run of cells may be replaced by another one that tiles the
same bytes.
-/

namespace FreeNT.Cmlib

open FreeNT.Rtl List

structure Cell where
  Offset : Nat
  Size : Int
  deriving DecidableEq, Repr

variable {c : Cell}

namespace Cell

def len (c : Cell) : Nat := c.Size.natAbs

/-- `a` is the address of a byte of the cell. -/
def Has (c : Cell) (a : Nat) : Prop := c.Offset ≤ a ∧ a < c.Offset + c.len

def Free (c : Cell) : Prop := 0 < c.Size

def Allocated (c : Cell) : Prop := c.Size < 0

instance (c : Cell) : Decidable c.Free := inferInstanceAs (Decidable (0 < c.Size))

instance (c : Cell) : Decidable c.Allocated := inferInstanceAs (Decidable (c.Size < 0))

lemma Allocated.not_free (h : c.Allocated) : ¬ c.Free := Int.not_lt.mpr (Int.le_of_lt h)

lemma Free.toNat (h : c.Free) : c.Size.toNat = c.len := by
  unfold Free at h
  unfold len
  omega

lemma toNat_neg (h : ¬ c.Free) : (-c.Size).toNat = c.len := by
  unfold Free at h
  unfold len
  omega

end Cell

structure Bin where
  Offset : Nat
  Size : Nat
  Cells : List Cell

/-- The cells of all bins. -/
def cells (bins : List Bin) : List Cell := bins.flatMap Bin.Cells

/-- The cell's header is in memory, and its size is a nonzero multiple of 16. -/
structure Cell.Ok (m : Mem) (c : Cell) : Prop where
  header : m.readLong c.Offset = c.Size
  ne_zero : c.Size ≠ 0
  aligned : c.len % 16 = 0

structure Bin.Ok (m : Mem) (b : Bin) : Prop where
  signature : m.readUlong b.Offset = HV_BIN_SIGNATURE
  fileOffset : m.readUlong (b.Offset + 4) = b.Offset
  size : m.readUlong (b.Offset + 8) = b.Size
  pos : 0 < b.Size
  aligned : b.Size % 4096 = 0
  tiles : Tiles Cell.Offset Cell.len (b.Offset + 32) (b.Offset + b.Size) b.Cells
  cellOk : ∀ c ∈ b.Cells, c.Ok m

/-- The storage holds the bins `bins`. -/
structure Holds (d : Dual) (bins : List Bin) : Prop where
  tiles : Tiles Bin.Offset Bin.Size 0 (4096 * d.Length) bins
  binOk : ∀ b ∈ bins, b.Ok d.Mem
  blocks : ∀ b ∈ bins, ∀ k, b.Offset ≤ 4096 * k → 4096 * k < b.Offset + b.Size →
    d.BlockList k = ⟨some (4096 * k), some b.Offset⟩

/-- The storage holds the bins `bins`, and offsets in it have 31 bits. -/
structure Layout (d : Dual) (bins : List Bin) : Prop extends Holds d bins where
  range : 4096 * d.Length < 2 ^ 31

/-- The free lists of the storage lead to the cells `fl`. -/
def Chained (t : HStorageType) (d : Dual) (fl : Nat → List Nat) : Prop :=
  ∀ i < 24, Chain (orType t) (fun o => d.Mem.readUlong (o + 4)) HCELL_NIL (d.FreeDisplay i) (fl i)

/-- Each free cell outside `ex` is once on the list of its size, and nothing else is. -/
structure Listed (bins : List Bin) (fl : Nat → List Nat) (ex : Nat → Prop) : Prop where
  nodup : ∀ i < 24, (fl i).Nodup
  mem_iff : ∀ i < 24, ∀ o, o ∈ fl i ↔ ∃ c ∈ cells bins, c.Offset = o ∧ c.Free ∧
    freeListIndex c.Size.toNat = i ∧ ¬ ex o

def NotBothFree (c c' : Cell) : Prop := ¬ (c.Free ∧ c'.Free)

/-- No two neighbours in a bin are both free. -/
def Coalesced (bins : List Bin) : Prop := ∀ b ∈ bins, b.Cells.IsChain NotBothFree

/-! ## Cells of a layout -/

variable {bins : List Bin}

lemma mem_cells : c ∈ cells bins ↔ ∃ b ∈ bins, c ∈ b.Cells := mem_flatMap

variable {m : Mem}

lemma Cell.Ok.len_pos (h : c.Ok m) : 16 ≤ c.len := by
  have := h.ne_zero
  have := h.aligned
  unfold Cell.len at *
  omega

lemma Cell.Ok.congr {m' : Mem} (h : c.Ok m) (heq : m'.readLong c.Offset = m.readLong c.Offset) :
    c.Ok m' := ⟨heq.trans h.header, h.ne_zero, h.aligned⟩

lemma Cell.Ok.readUlong (h : c.Ok m) (hf : c.Free) : m.readUlong c.Offset = c.len := by
  rw [Mem.readUlong_of_readLong h.header (Int.le_of_lt hf), Cell.len]
  unfold Cell.Free at hf
  omega

lemma Cell.Ok.of_readUlong {a n : Nat} (h : m.readUlong a = n) (hp : 0 < n) (hlt : n < 2 ^ 31)
    (ha : n % 16 = 0) : Cell.Ok m ⟨a, n⟩ := by
  refine ⟨?_, by dsimp only; omega, by simpa [Cell.len] using ha⟩
  rw [Mem.readLong, h, toLong_of_lt hlt]

variable {d : Dual}

lemma Holds.unique {bins' : List Bin} (h : Holds d bins) (h' : Holds d bins') : bins = bins' := by
  refine h.tiles.unique h'.tiles (fun b hb => (h.binOk b hb).pos) (fun b hb =>
    (h'.binOk b hb).pos) fun b hb b' hb' heq => ?_
  have hok := h.binOk b hb
  have hok' := h'.binOk b' hb'
  have hsz : b.Size = b'.Size := by rw [← hok.size, ← hok'.size, heq]
  have hcl : b.Cells = b'.Cells := by
    have ht := hok'.tiles
    rw [← heq, ← hsz] at ht
    refine hok.tiles.unique ht (fun c hc => Nat.lt_of_lt_of_le (by decide) (hok.cellOk c hc).len_pos)
      (fun c hc => Nat.lt_of_lt_of_le (by decide) (hok'.cellOk c hc).len_pos) fun c hc c' hc' heq => ?_
    have hc1 := (hok.cellOk c hc).header
    have hc2 := (hok'.cellOk c' hc').header
    cases c; cases c'
    simp_all
  cases b; cases b'
  simp_all

variable {b : Bin}

namespace Layout

variable {d d' : Dual} {bins : List Bin}

variable (h : Layout d bins)

include h

lemma bin_aligned (hb : b ∈ bins) : b.Offset % 4096 = 0 :=
  (h.tiles.mod_eq_zero (fun b hb => (h.binOk b hb).aligned) rfl).1 b hb

lemma bin_bounds (hb : b ∈ bins) : b.Offset + b.Size ≤ 4096 * d.Length := (h.tiles.mem_bounds hb).2

lemma cell_bounds (hb : b ∈ bins) (hc : c ∈ b.Cells) :
    b.Offset + 32 ≤ c.Offset ∧ c.Offset + c.len ≤ b.Offset + b.Size :=
  (h.binOk b hb).tiles.mem_bounds hc

section

variable (hc : c ∈ cells bins)

include hc

lemma cell_ok : c.Ok d.Mem := by
  obtain ⟨b, hb, hc⟩ := mem_cells.mp hc
  exact (h.binOk b hb).cellOk c hc

lemma cell_aligned : c.Offset % 16 = 0 := by
  obtain ⟨b, hb, hc⟩ := mem_cells.mp hc
  have := h.bin_aligned hb
  have hok := h.binOk b hb
  exact (hok.tiles.mod_eq_zero (fun c hc => (hok.cellOk c hc).aligned) (by omega)).1 c hc

lemma cell_end : c.Offset + c.len ≤ 4096 * d.Length := by
  obtain ⟨b, hb, hc⟩ := mem_cells.mp hc
  exact (h.cell_bounds hb hc).2.trans (h.bin_bounds hb)

end

lemma cell_disjoint {c' : Cell} (hc : c ∈ cells bins) (hc' : c' ∈ cells bins) :
    c = c' ∨ c.Offset + c.len ≤ c'.Offset ∨ c'.Offset + c'.len ≤ c.Offset := by
  obtain ⟨b, hb, hc⟩ := mem_cells.mp hc
  obtain ⟨b', hb', hc'⟩ := mem_cells.mp hc'
  have h1 := h.cell_bounds hb hc
  have h2 := h.cell_bounds hb' hc'
  rcases h.tiles.disjoint hb hb' with rfl | hd | hd
  · exact (h.binOk b hb).tiles.disjoint hc hc'
  · omega
  · omega

lemma cell_eq {c' : Cell} (hc : c ∈ cells bins) (hc' : c' ∈ cells bins) (heq : c.Offset = c'.Offset) : c = c' := by
  have h1 := (h.cell_ok hc).len_pos
  have h2 := (h.cell_ok hc').len_pos
  rcases h.cell_disjoint hc hc' with hd | hd | hd
  · exact hd
  · omega
  · omega

lemma cell_bin_disjoint (hc : c ∈ cells bins) (hb : b ∈ bins) :
    c.Offset + c.len ≤ b.Offset ∨ b.Offset + 32 ≤ c.Offset := by
  obtain ⟨b', hb', hc⟩ := mem_cells.mp hc
  have h1 := h.cell_bounds hb' hc
  rcases h.tiles.disjoint hb hb' with rfl | hd | hd
  · exact .inr h1.1
  · exact .inr (by omega)
  · exact .inl (by omega)

end Layout

/-! ## Changing a layout -/

lemma Bin.Ok.congr {m' : Mem} (h : b.Ok m) (heq : m.Agree m' b.Offset b.Size) : b.Ok m' := by
  have hp := h.pos
  have ha := h.aligned
  refine ⟨?_, ?_, ?_, h.pos, h.aligned, h.tiles, fun c hc => (h.cellOk c hc).congr ?_⟩
  · rw [Mem.readUlong_congr (heq.sub (by omega) (by omega)), h.signature]
  · rw [Mem.readUlong_congr (heq.sub (by omega) (by omega)), h.fileOffset]
  · rw [Mem.readUlong_congr (heq.sub (by omega) (by omega)), h.size]
  have := h.tiles.mem_bounds hc
  have := (h.cellOk c hc).len_pos
  exact Mem.readLong_congr (heq.sub (by omega) (by omega))

/-- A layout depends on the headers of bins and cells only. -/
lemma Layout.congr {d' : Dual} (h : Layout d bins) (hl : d'.Length = d.Length)
    (hbl : d'.BlockList = d.BlockList) (hbn : ∀ b ∈ bins, d.Mem.Agree d'.Mem b.Offset 12)
    (hcl : ∀ c ∈ cells bins, d.Mem.Agree d'.Mem c.Offset 4) : Layout d' bins := by
  refine ⟨⟨hl ▸ h.tiles, fun b hb => ?_, hbl ▸ h.blocks⟩, hl ▸ h.range⟩
  have hok := h.binOk b hb
  have hag := hbn b hb
  refine ⟨?_, ?_, ?_, hok.pos, hok.aligned, hok.tiles, fun c hc => (hok.cellOk c hc).congr ?_⟩
  · rw [Mem.readUlong_congr (hag.sub (by omega) (by omega)), hok.signature]
  · rw [Mem.readUlong_congr (hag.sub (by omega) (by omega)), hok.fileOffset]
  · rw [Mem.readUlong_congr (hag.sub (by omega) (by omega)), hok.size]
  · exact Mem.readLong_congr (hcl c (mem_cells.mpr ⟨b, hb, hc⟩))

/-- A layout with a hole for a run of cells of one bin. -/
structure Hole where
  bs : List Bin
  Offset : Nat
  Size : Nat
  cs : List Cell
  cs' : List Cell
  bs' : List Bin

namespace Hole

/-- The bin of the hole, with the run `xs`. -/
def bin (H : Hole) (xs : List Cell) : Bin := ⟨H.Offset, H.Size, H.cs ++ (xs ++ H.cs')⟩

def fill (H : Hole) (xs : List Cell) : List Bin := H.bs ++ H.bin xs :: H.bs'

/-- The cells around the hole. -/
def Rest (H : Hole) (c : Cell) : Prop := c ∈ cells H.bs ∨ c ∈ H.cs ∨ c ∈ H.cs' ∨ c ∈ cells H.bs'

lemma mem_cells_fill {H : Hole} {xs : List Cell} : c ∈ cells (H.fill xs) ↔ c ∈ xs ∨ H.Rest c := by
  simp only [fill, bin, Rest, cells, flatMap_append, flatMap_cons, mem_append]
  tauto

lemma mem_head (H : Hole) (c : Cell) (xs : List Cell) : c ∈ cells (H.fill (c :: xs)) :=
  mem_cells_fill.mpr (.inl mem_cons_self)

lemma mem_fill {H : Hole} {xs : List Cell} : b ∈ H.fill xs ↔ b = H.bin xs ∨ b ∈ H.bs ∨ b ∈ H.bs' := by
  simp only [fill, mem_append, mem_cons]
  tauto

lemma bin_mem (H : Hole) (xs : List Cell) : H.bin xs ∈ H.fill xs := mem_fill.mpr (.inl rfl)

lemma exists_of_mem (hc : c ∈ cells bins) : ∃ H : Hole, bins = H.fill [c] := by
  obtain ⟨b, hb, hcb⟩ := mem_cells.mp hc
  obtain ⟨bs, bs', rfl⟩ := append_of_mem hb
  obtain ⟨cs, cs', hcs⟩ := append_of_mem hcb
  refine ⟨⟨bs, b.Offset, b.Size, cs, cs', bs'⟩, ?_⟩
  rw [fill, bin, singleton_append, ← hcs]

end Hole

namespace Layout

variable {d d' : Dual} {H : Hole} {xs ys : List Cell}

lemma hole_tiles (h : Layout d (H.fill xs)) : ∃ p q, Tiles Cell.Offset Cell.len (H.Offset + 32) p H.cs ∧
    Tiles Cell.Offset Cell.len p q xs ∧ Tiles Cell.Offset Cell.len q (H.Offset + H.Size) H.cs' := by
  have ht := (h.binOk _ (H.bin_mem xs)).tiles
  rw [Hole.bin, Tiles.append_iff] at ht
  obtain ⟨p, hp, ht⟩ := ht
  obtain ⟨q, hq, ht⟩ := Tiles.append_iff.mp ht
  exact ⟨p, q, hp, hq, ht⟩

lemma rest_disjoint (h : Layout d (H.fill xs)) {x : Cell} (hx : x ∈ xs) (hc : H.Rest c) :
    c.Offset + c.len ≤ x.Offset ∨ x.Offset + x.len ≤ c.Offset := by
  obtain ⟨p, q, hp, hq, ht⟩ := h.hole_tiles
  have hxb := hq.mem_bounds hx
  have hpl := hp.le
  have htl := ht.le
  have hbn := h.tiles
  rw [Hole.fill, Tiles.append_iff] at hbn
  obtain ⟨a, hbs, ha, hbs'⟩ := hbn
  have hcl : ∀ b ∈ H.fill xs, c ∈ b.Cells → b.Offset ≤ c.Offset ∧ c.Offset + c.len ≤ b.Offset + b.Size :=
    fun b hb hcb => by have := h.cell_bounds hb hcb; omega
  rcases hc with hc | hc | hc | hc
  · obtain ⟨b, hb, hcb⟩ := mem_cells.mp hc
    have h1 := hbs.mem_bounds hb
    have h2 := hcl b (Hole.mem_fill.mpr (.inr (.inl hb))) hcb
    dsimp only [Hole.bin] at ha
    omega
  · have := hp.mem_bounds hc; omega
  · have := ht.mem_bounds hc; omega
  obtain ⟨b, hb, hcb⟩ := mem_cells.mp hc
  have h1 := hbs'.mem_bounds hb
  have h2 := hcl b (Hole.mem_fill.mpr (.inr (.inr hb))) hcb
  dsimp only [Hole.bin] at ha h1
  omega

/-- The run `xs` may be replaced by another one that tiles the same bytes, if
memory outside of the cells `xs` is unchanged. -/
lemma refill (h : Layout d (H.fill xs)) (hl : d'.Length = d.Length) (hbl : d'.BlockList = d.BlockList)
    (hme : ∀ a, (∀ x ∈ xs, ¬ x.Has a) → d'.Mem a = d.Mem a)
    (hys : ∀ p q, Tiles Cell.Offset Cell.len p q xs → Tiles Cell.Offset Cell.len p q ys)
    (hok : ∀ c ∈ ys, c.Ok d'.Mem) : Layout d' (H.fill ys) := by
  obtain ⟨p, q, hp, hq, ht⟩ := h.hole_tiles
  have hpl := hp.le
  have htl := ht.le
  have hb := h.binOk _ (H.bin_mem xs)
  have hme' : ∀ a, ¬ (p ≤ a ∧ a < q) → d'.Mem a = d.Mem a := fun a ha => hme a fun x hx hxa => by
    have := hq.mem_bounds hx
    unfold Cell.Has at hxa
    omega
  have hti : Tiles Bin.Offset Bin.Size 0 (4096 * d'.Length) (H.fill ys) := by
    have ho := h.tiles
    rw [Hole.fill, Tiles.append_iff, ← hl] at ho
    exact Tiles.append_iff.mpr ho
  have hr : ∀ b, b ∈ H.bs ∨ b ∈ H.bs' → b.Ok d'.Mem := fun b hbs => by
    have hm := Hole.mem_fill.mpr (.inr hbs : b = H.bin xs ∨ _)
    refine (h.binOk b hm).congr fun a ha ha' => hme' a ?_
    rcases h.tiles.disjoint hm (H.bin_mem xs) with rfl | hd | hd
    · -- a bin with the run of the hole would be the bin of the hole, which is there once
      have ho := h.tiles
      rw [Hole.fill, Tiles.append_iff] at ho
      obtain ⟨e, h1, h2, h3⟩ := ho
      rcases hbs with hbs | hbs
      · have := h1.mem_bounds hbs; omega
      · have := h3.mem_bounds hbs; omega
    · dsimp only [Hole.bin] at hd; omega
    · dsimp only [Hole.bin] at hd; omega
  have hth : (H.bin ys).Ok d'.Mem := by
    have hw : ∀ k, k + 4 ≤ 32 → d'.Mem.readUlong (H.Offset + k) = d.Mem.readUlong (H.Offset + k) :=
      fun k hk => Mem.readUlong_congr fun a ha ha' => hme' a (by omega)
    have hcl : ∀ c, c ∈ H.cs ∨ c ∈ H.cs' → c.Ok d'.Mem := fun c hc => by
      have hck : c.Ok d.Mem := h.cell_ok (Hole.mem_cells_fill.mpr (.inr (by unfold Hole.Rest; tauto)))
      have := hck.len_pos
      refine hck.congr (Mem.readLong_congr fun a ha ha' => hme' a ?_)
      rcases hc with hc | hc
      · have := hp.mem_bounds hc; omega
      · have := ht.mem_bounds hc; omega
    refine ⟨(hw 0 (by omega)).trans hb.signature, (hw 4 (by omega)).trans hb.fileOffset,
      (hw 8 (by omega)).trans hb.size, hb.pos, hb.aligned,
      Tiles.append_iff.mpr ⟨p, hp, Tiles.append_iff.mpr ⟨q, hys p q hq, ht⟩⟩, fun c hc => ?_⟩
    rcases mem_append.mp hc with hc | hc
    · exact hcl c (.inl hc)
    rcases mem_append.mp hc with hc | hc
    · exact hok c hc
    · exact hcl c (.inr hc)
  refine ⟨⟨hti, fun b hbm => ?_, fun b hbm => ?_⟩, hl ▸ h.range⟩
  · rcases Hole.mem_fill.mp hbm with rfl | hbm
    · exact hth
    · exact hr b hbm
  rw [hbl]
  rcases Hole.mem_fill.mp hbm with rfl | hbm
  · have hbk := h.blocks (H.bin xs) (H.bin_mem xs)
    exact hbk
  · exact h.blocks b (Hole.mem_fill.mpr (.inr hbm))

end Layout

/-- The free lists depend on the links of their cells only. -/
lemma Chained.congr {t : HStorageType} {d' : Dual} {fl : Nat → List Nat} (h : Chained t d fl)
    (hd : ∀ i < 24, d'.FreeDisplay i = d.FreeDisplay i)
    (hl : ∀ i < 24, ∀ o ∈ fl i, d.Mem.Agree d'.Mem (o + 4) 4) : Chained t d' fl := fun i hi => by
  rw [hd i hi]
  exact (h i hi).congr fun o ho => Mem.readUlong_congr (hl i hi o ho)

/-! ## Free neighbours -/

namespace Coalesced

variable {H : Hole} {xs ys : List Cell}

lemma iff_fill (hxs : xs ≠ []) :
    Coalesced (H.fill xs) ↔ (∀ b, b ∈ H.bs ∨ b ∈ H.bs' → b.Cells.IsChain NotBothFree) ∧
      H.cs.IsChain NotBothFree ∧ xs.IsChain NotBothFree ∧ H.cs'.IsChain NotBothFree ∧
      (∀ c ∈ H.cs.getLast?, ∀ x ∈ xs.head?, NotBothFree c x) ∧
      ∀ x ∈ xs.getLast?, ∀ c ∈ H.cs'.head?, NotBothFree x c := by
  have hh : (xs ++ H.cs').head? = xs.head? := by
    cases xs with
    | nil => exact absurd rfl hxs
    | cons x xs => rfl
  constructor
  · intro h
    have hbn := h _ (H.bin_mem xs)
    rw [Hole.bin, isChain_append, isChain_append, hh] at hbn
    obtain ⟨h1, ⟨h2, h3, h4⟩, h5⟩ := hbn
    exact ⟨fun b hb => h b (Hole.mem_fill.mpr (.inr hb)), h1, h2, h3, h5, h4⟩
  rintro ⟨hb, h1, h2, h3, h5, h4⟩ b hbm
  rcases Hole.mem_fill.mp hbm with rfl | hbm
  · rw [Hole.bin, isChain_append, isChain_append, hh]
    exact ⟨h1, ⟨h2, h3, h4⟩, h5⟩
  · exact hb b hbm

/-- A run may be replaced by one without free neighbours, at its ends included. -/
lemma refill (h : Coalesced (H.fill xs)) (hxs : xs ≠ []) (hys : ys ≠ []) (hch : ys.IsChain NotBothFree)
    (hh : ∀ y ∈ ys.head?, y.Free → ∀ c ∈ H.cs.getLast?, ¬ c.Free)
    (hl : ∀ y ∈ ys.getLast?, y.Free → ∀ c ∈ H.cs'.head?, ¬ c.Free) : Coalesced (H.fill ys) := by
  obtain ⟨hb, h1, -, h3, -, -⟩ := (iff_fill hxs).mp h
  exact (iff_fill hys).mpr ⟨hb, h1, hch, h3, fun c hc y hy hf => hh y hy hf.2 c hc hf.1,
    fun y hy c hc hf => hl y hy hf.1 c hc hf.2⟩

lemma around (h : Coalesced (H.fill [c])) (hfr : c.Free) :
    (∀ x ∈ H.cs.getLast?, ¬ x.Free) ∧ ∀ x ∈ H.cs'.head?, ¬ x.Free := by
  obtain ⟨-, -, -, -, h1, h2⟩ := (iff_fill (cons_ne_nil _ _)).mp h
  exact ⟨fun x hx hf => h1 x hx c rfl ⟨hf, hfr⟩, fun x hx hf => h2 c rfl x hx ⟨hfr, hf⟩⟩

end Coalesced

end FreeNT.Cmlib
