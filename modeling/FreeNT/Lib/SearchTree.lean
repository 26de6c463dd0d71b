import Mathlib.Data.List.Perm.Subperm
import Mathlib.Data.Set.Basic
import FreeNT.Lib.SplayTree

/-!
# Search trees of nodes with data

The nodes of a tree are addresses, and the data of a node is found under its address. The
nodes, in order, are `Ordered` by their data. A search then ends at the only node that is
equal to what is looked for, or at the place where such a node belongs (`Ordered.found`,
`Ordered.absent`), and what a change does to the order (`Ordered.insert`, `Ordered.sublist`)
does not depend on the shape of the tree. A sorted list of data stands for a set
(`insertInto_place`, `eraseFrom_place`).

`Blocks.length_le`: nodes that do not overlap are not more than fit in memory.
-/

namespace FreeNT

open List

namespace SplayTree

variable {α : Type} {order : α → α → Ordering} {data data' : Nat → Option α} {as bs : List Nat} {a : Nat} {x y : α}

/-- The comparison with the data of a node. -/
def compareAt (order : α → α → Ordering) (data : Nat → Option α) (x : α) (a : Nat) : Ordering :=
  match data a with
  | some y => order x y
  | none => .eq

/-- All nodes have data, and their data is in order. -/
structure Ordered (order : α → α → Ordering) (data : Nat → Option α) (as : List Nat) : Prop where
  filled : ∀ a ∈ as, ∃ x, data a = some x
  sorted : as.Pairwise fun a b => ∀ x y, data a = some x → data b = some y → order x y = .lt

lemma compareAt_eq (h : data a = some y) : compareAt order data x a = order x y := by rw [compareAt, h]

namespace Ordered

lemma congr (h : Ordered order data as) (hd : ∀ a ∈ as, data' a = data a) : Ordered order data' as := by
  refine ⟨fun a ha => hd a ha ▸ h.filled a ha, h.sorted.imp_of_mem fun {a b} ha hb hab x y hx hy => ?_⟩
  exact hab x y (hd a ha ▸ hx) (hd b hb ▸ hy)

lemma sublist (h : Ordered order data bs) (hs : as.Sublist bs) : Ordered order data as :=
  ⟨fun a ha => h.filled a (hs.subset ha), h.sorted.sublist hs⟩

lemma cut [Std.TransCmp order] (h : Ordered order data as) (x : α) : Cut (compareAt order data x) as := by
  refine h.sorted.imp_of_mem fun {a b} ha hb hab => ?_
  obtain ⟨y, hy⟩ := h.filled a ha
  obtain ⟨z, hz⟩ := h.filled b hb
  have hlt := hab y z hy hz
  rw [compareAt_eq hy, compareAt_eq hz]
  exact ⟨fun hx => Std.TransCmp.lt_trans hx hlt, fun hx => Std.TransCmp.gt_trans hx (Std.OrientedCmp.gt_of_lt hlt)⟩

lemma found {ns : SplayTree Nat} {path : List (Frame Nat)} {l r : SplayTree Nat} {n : Nat}
    (h : Ordered order data ns.toList)
    (hf : search (compareAt order data x) ns [] = .found path l n r) :
    ns = plug path (node l n r) ∧ ∃ y, data n = some y ∧ order x y = .eq := by
  obtain ⟨hp, heq⟩ := search_found hf
  have hm : n ∈ ns.toList := by
    rw [show ns = plug path (node l n r) from hp.symm, toList_plug]
    simp
  obtain ⟨y, hy⟩ := h.filled n hm
  exact ⟨hp.symm, y, hy, (compareAt_eq hy).symm.trans heq⟩

lemma absent [Std.TransCmp order] {ns : SplayTree Nat} {path : List (Frame Nat)} (h : Ordered order data ns.toList)
    (hf : search (compareAt order data x) ns [] = .absent path) :
    ns = plug path nil ∧ (∀ a ∈ before path, ∀ y, data a = some y → order x y = .gt) ∧
      ∀ a ∈ after path, ∀ y, data a = some y → order x y = .lt := by
  obtain ⟨as, bs, hl, hb, haf, hgt, hlt⟩ := search_absent (h.cut x) hf
  rw [after, append_nil] at haf
  rw [hb, haf]
  exact ⟨(search_absent_plug hf).symm, fun a ha y hy => (compareAt_eq hy).symm.trans (hgt a ha),
    fun a ha y hy => (compareAt_eq hy).symm.trans (hlt a ha)⟩

lemma insert [Std.TransCmp order] (h : Ordered order data (as ++ bs)) (hd : ∀ b ∈ as ++ bs, data' b = data b)
    (hx : data' a = some x) (hgt : ∀ b ∈ as, ∀ y, data b = some y → order x y = .gt)
    (hlt : ∀ b ∈ bs, ∀ y, data b = some y → order x y = .lt) : Ordered order data' (as ++ a :: bs) := by
  have ho := h.congr hd
  obtain ⟨has, hbs, hab⟩ := pairwise_append.mp ho.sorted
  refine ⟨fun b hb => ?_, pairwise_append.mpr ⟨has,
    pairwise_cons.mpr ⟨fun b hb y z hy hz => ?_, hbs⟩, fun b hb c hc y z hy hz => ?_⟩⟩
  · rcases mem_append.mp hb with hb | hb
    · exact ho.filled b (mem_append_left _ hb)
    rcases mem_cons.mp hb with rfl | hb
    · exact ⟨x, hx⟩
    · exact ho.filled b (mem_append_right _ hb)
  · cases hx.symm.trans hy
    exact hlt b hb z (hd b (mem_append_right _ hb) ▸ hz)
  rcases mem_cons.mp hc with rfl | hc
  · cases hx.symm.trans hz
    exact Std.OrientedCmp.lt_of_gt (hgt b hb y (hd b (mem_append_left _ hb) ▸ hy))
  · exact hab b hb c hc y z hy hz

lemma values (h : Ordered order data as) :
    as.map data = (as.filterMap data).map some ∧ (as.filterMap data).Pairwise fun x y => order x y = .lt := by
  refine ⟨?_, pairwise_filterMap.mpr (h.sorted.imp fun hab x hx y hy => hab x y hx hy)⟩
  have hf := h.filled
  clear h
  induction as with
  | nil => rfl
  | cons a as ih =>
    obtain ⟨x, hx⟩ := hf a mem_cons_self
    rw [map_cons, filterMap_cons_some hx, map_cons, hx, ih fun b hb => hf b (mem_cons_of_mem a hb)]

variable [Std.TransCmp order] {n : Nat} (h : Ordered order data (as ++ n :: bs))
  (hn : data n = some y) (heq : order x y = .eq)

include h hn heq

lemma ne_of_eq : ∀ a ∈ as ++ bs, ∀ z, data a = some z → order x z ≠ .eq := by
  obtain ⟨-, hnb, hlt⟩ := pairwise_append.mp h.sorted
  intro a ha z hz
  rw [Std.TransCmp.congr_left heq]
  rcases mem_append.mp ha with ha | ha
  · simp [Std.OrientedCmp.gt_of_lt (hlt a ha n mem_cons_self z y hz hn)]
  · simp [(pairwise_cons.mp hnb).1 a ha y z hn hz]

lemma replace (hd : ∀ b ∈ as ++ bs, data' b = data b) (hx : data' a = some x) :
    Ordered order data' (as ++ a :: bs) := by
  obtain ⟨-, hnb, hlt⟩ := pairwise_append.mp h.sorted
  refine (h.sublist ((sublist_cons_self n bs).append_left as)).insert hd hx (fun b hb z hz =>
    ?_) fun b hb z hz => ?_
  · rw [Std.TransCmp.congr_left heq]
    exact Std.OrientedCmp.gt_of_lt (hlt b hb n mem_cons_self z y hz hn)
  · rw [Std.TransCmp.congr_left heq]
    exact (pairwise_cons.mp hnb).1 b hb y z hn hz

end Ordered

/-! ## The set of all data -/

def contents (data : Nat → Option α) (as : List Nat) : Set α := {x | ∃ a ∈ as, data a = some x}

/-- A set with one more element, unless it has an equal one. -/
def insertInto (order : α → α → Ordering) (x : α) (s : Set α) : Set α :=
    {y | y ∈ s ∨ y = x ∧ ∀ z ∈ s, order x z ≠ .eq}

/-- A set without the elements equal to `x`. -/
def eraseFrom (order : α → α → Ordering) (x : α) (s : Set α) : Set α := {y | y ∈ s ∧ order x y ≠ .eq}

lemma insertInto_of_mem {s : Set α} (hy : y ∈ s) (heq : order x y = .eq) : insertInto order x s = s := by
  ext z
  exact ⟨fun hz => hz.elim id fun hz => absurd heq (hz.2 y hy), .inl⟩

lemma eraseFrom_of_not_mem {s : Set α} (hne : ∀ y ∈ s, order x y ≠ .eq) : eraseFrom order x s = s := by
  ext z
  exact ⟨And.left, fun hz => ⟨hz, hne z hz⟩⟩

/-! ## Sorted lists of data -/

section

variable {xs ys zs : List α}

/-- A comparison cuts a sorted list in two. -/
lemma cut_of_sorted [Std.TransCmp order] (h : xs.Pairwise fun a b => order a b = .lt) (x : α) : Cut (order x) xs :=
  h.imp fun hlt => ⟨fun hx => Std.TransCmp.lt_trans hx hlt, fun hx =>
    Std.TransCmp.gt_trans hx (Std.OrientedCmp.gt_of_lt hlt)⟩

lemma sorted_insert [Std.TransCmp order] (h : (ys ++ zs).Pairwise fun a b => order a b = .lt)
    (hgt : ∀ y ∈ ys, order x y = .gt)
    (hlt : ∀ z ∈ zs, order x z = .lt) : (ys ++ x :: zs).Pairwise fun a b => order a b = .lt := by
  obtain ⟨hys, hzs, hyz⟩ := pairwise_append.mp h
  refine pairwise_append.mpr ⟨hys, pairwise_cons.mpr ⟨hlt, hzs⟩, fun y hy z hz => ?_⟩
  rcases mem_cons.mp hz with rfl | hz
  · exact Std.OrientedCmp.lt_of_gt (hgt y hy)
  · exact hyz y hy z hz

lemma insertInto_place (hne : ∀ y ∈ ys ++ zs, order x y ≠ .eq) :
    insertInto order x {y | y ∈ ys ++ zs} = {y | y ∈ ys ++ x :: zs} := by
  ext y
  have hm : y ∈ ys ++ x :: zs ↔ y = x ∨ y ∈ ys ++ zs := by rw [perm_middle.mem_iff, mem_cons]
  constructor
  · rintro (hy | ⟨rfl, -⟩)
    · exact hm.mpr (.inr hy)
    · exact hm.mpr (.inl rfl)
  intro hy
  rcases hm.mp hy with rfl | hy
  · exact .inr ⟨rfl, hne⟩
  · exact .inl hy

lemma eraseFrom_place [Std.TransCmp order] (h : (ys ++ y :: zs).Pairwise fun a b => order a b = .lt)
    (heq : order x y = .eq) :
    eraseFrom order x {z | z ∈ ys ++ y :: zs} = {z | z ∈ ys ++ zs} := by
  obtain ⟨-, hyz, hlt⟩ := pairwise_append.mp h
  ext z
  have hm : z ∈ ys ++ y :: zs ↔ z = y ∨ z ∈ ys ++ zs := by rw [perm_middle.mem_iff, mem_cons]
  constructor
  · rintro ⟨hz, hne⟩
    exact (hm.mp hz).elim (fun h => absurd (h ▸ heq) hne) id
  intro hz
  refine ⟨hm.mpr (.inr hz), ?_⟩
  rw [Std.TransCmp.congr_left heq]
  rcases mem_append.mp hz with hz | hz
  · simp [Std.OrientedCmp.gt_of_lt (hlt z hz y mem_cons_self)]
  · simp [(pairwise_cons.mp hyz).1 z hz]

end

/-! ## Blocks of memory -/

/-- Two nodes do not overlap. -/
def Apart (size a b : Nat) : Prop := a + size ≤ b ∨ b + size ≤ a

instance (size a b : Nat) : Decidable (Apart size a b) := inferInstanceAs (Decidable (_ ∨ _))

/-- Nodes of a size, all in memory and without overlap. -/
structure Blocks (size memory : Nat) (as : List Nat) : Prop where
  apart : as.Pairwise (Apart size)
  bound : ∀ a ∈ as, a + size ≤ memory

/-- The block of a new node. -/
def Fresh (size memory : Nat) (as : List Nat) (a : Nat) : Prop :=
    a ≠ 0 ∧ a + size ≤ memory ∧ ∀ b ∈ as, Apart size b a

instance (size memory : Nat) (as : List Nat) (a : Nat) : Decidable (Fresh size memory as a) :=
    inferInstanceAs (Decidable (_ ∧ _ ∧ _))

variable {z memory : Nat}

lemma Blocks.nil : Blocks z memory [] := ⟨.nil, nofun⟩

lemma Blocks.sublist (h : Blocks z memory bs) (hs : as.Sublist bs) : Blocks z memory as :=
  ⟨h.apart.sublist hs, fun a ha => h.bound a (hs.subset ha)⟩

lemma Blocks.append (h : Blocks z memory as) (ha : Fresh z memory as a) : Blocks z memory (as ++ [a]) := by
  refine ⟨pairwise_append.mpr ⟨h.apart, pairwise_singleton _ _, fun b hb c hc => ?_⟩, fun b hb => ?_⟩
  · rw [mem_singleton.mp hc]
    exact ha.2.2 b hb
  rcases mem_append.mp hb with hb | hb
  · exact h.bound b hb
  · rw [mem_singleton.mp hb]
    exact ha.2.1

lemma Fresh.not_mem (hsz : 0 < z) (ha : Fresh z memory as a) : a ∉ as := by
  intro hm
  have := ha.2.2 a hm
  simp only [Apart] at this
  omega

lemma Blocks.length_le (h : Blocks z memory as) (hsz : 0 < z) : as.length ≤ memory / z := by
  have hnd : (as.map (· / z)).Nodup := by
    rw [Nodup, pairwise_map]
    refine h.apart.imp fun {a b} hab heq => ?_
    have ha := Nat.div_add_mod a z
    have hb := Nat.div_add_mod b z
    have := Nat.mod_lt a hsz
    have := Nat.mod_lt b hsz
    simp only [Apart] at hab
    rw [heq] at ha
    omega
  have hs : as.map (· / z) ⊆ range (memory / z) := by
    intro k hk
    obtain ⟨a, ha, rfl⟩ := mem_map.mp hk
    have hle := Nat.div_le_div_right (c := z) (h.bound a ha)
    rw [Nat.add_div_right a hsz] at hle
    exact mem_range.mpr hle
  simpa using (subperm_of_subset hnd hs).length_le

end SplayTree

end FreeNT
