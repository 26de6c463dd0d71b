import FreeNT.Lib.SplayTree
import Mathlib.Data.List.Nodup

/-!
# Trees of linked nodes

A node is an address, other than 0, with a parent and two children; 0 stands for a missing
child. `Holds m q t` says that the links are those of the tree `t`, whose root has the
parent `q`, and `Above m q c path` that they are those of the nodes on a path and beside it,
where `c` is the child at its lower end.

`holds_plug` takes a tree apart along a path, and `above_append` a path in two. A tree
stays as it is if the links of its nodes do (`Holds.congr`), and can be moved below another
parent (`Holds.move`).
-/

namespace FreeNT

open SplayTree List

structure Links where
  Parent : Nat → Nat
  LeftChild : Nat → Nat
  RightChild : Nat → Nat

namespace Links

def setParent (m : Links) (a v : Nat) : Links := { m with Parent := fun y => if y = a then v else m.Parent y }

def setLeftChild (m : Links) (a v : Nat) : Links :=
    { m with LeftChild := fun y => if y = a then v else m.LeftChild y }

def setRightChild (m : Links) (a v : Nat) : Links :=
    { m with RightChild := fun y => if y = a then v else m.RightChild y }

variable (m : Links) (a v y : Nat)

@[simp, grind =] lemma setParent_parent : (m.setParent a v).Parent y = if y = a then v else m.Parent y := rfl

@[simp, grind =] lemma setParent_leftChild : (m.setParent a v).LeftChild y = m.LeftChild y := rfl

@[simp, grind =] lemma setParent_rightChild : (m.setParent a v).RightChild y = m.RightChild y := rfl

@[simp, grind =] lemma setLeftChild_parent : (m.setLeftChild a v).Parent y = m.Parent y := rfl

@[simp, grind =] lemma setLeftChild_leftChild :
    (m.setLeftChild a v).LeftChild y = if y = a then v else m.LeftChild y := rfl

@[simp, grind =] lemma setLeftChild_rightChild : (m.setLeftChild a v).RightChild y = m.RightChild y := rfl

@[simp, grind =] lemma setRightChild_parent : (m.setRightChild a v).Parent y = m.Parent y := rfl

@[simp, grind =] lemma setRightChild_leftChild : (m.setRightChild a v).LeftChild y = m.LeftChild y := rfl

@[simp, grind =] lemma setRightChild_rightChild :
    (m.setRightChild a v).RightChild y = if y = a then v else m.RightChild y := rfl

lemma setParent_self (h : m.Parent a = v) : m.setParent a v = m := by
  cases m
  simp only [setParent, mk.injEq, and_self, and_true]
  funext y
  split
  · simp_all
  · rfl

lemma setLeftChild_self (h : m.LeftChild a = v) : m.setLeftChild a v = m := by
  cases m
  simp only [setLeftChild, mk.injEq, and_true, true_and]
  funext y
  split
  · simp_all
  · rfl

lemma setRightChild_self (h : m.RightChild a = v) : m.setRightChild a v = m := by
  cases m
  simp only [setRightChild, mk.injEq, true_and]
  funext y
  split
  · simp_all
  · rfl

end Links

namespace SplayTree

/-- The address of the root, or 0. -/
def addr : SplayTree Nat → Nat
  | nil => 0
  | node _ x _ => x

/-- The address of the node that a step of a path comes to. -/
def Frame.addr : Frame Nat → Nat
  | .left x _ => x
  | .right _ x => x

/-- The links are those of the tree, whose root has the parent `q`. -/
def Holds (m : Links) : Nat → SplayTree Nat → Prop
  | _, nil => True
  | q, node l x r => x ≠ 0 ∧ m.Parent x = q ∧ m.LeftChild x = l.addr ∧ m.RightChild x = r.addr ∧
      Holds m x l ∧ Holds m x r

/-- The parent of the node at the lower end of a path, if that of the node at its upper end is `q`. -/
def up (q : Nat) : List (Frame Nat) → Nat
  | [] => q
  | f :: _ => f.addr

/-- The node at the upper end of a path, if that at its lower end is `c`. -/
def top (c : Nat) : List (Frame Nat) → Nat
  | [] => c
  | f :: path => top f.addr path

/-- The links are those of the nodes on a path, and beside it. -/
def Above (m : Links) (q : Nat) : Nat → List (Frame Nat) → Prop
  | _, [] => True
  | c, .left x r :: path =>
      (x ≠ 0 ∧ m.Parent x = up q path ∧ m.LeftChild x = c ∧ m.RightChild x = r.addr ∧ Holds m x r) ∧
      Above m q x path
  | c, .right l x :: path =>
      (x ≠ 0 ∧ m.Parent x = up q path ∧ m.LeftChild x = l.addr ∧ m.RightChild x = c ∧ Holds m x l) ∧
      Above m q x path

/-- The links with another child at the lower end of a path. -/
def setChild (m : Links) (path : List (Frame Nat)) (c : Nat) : Links :=
  match path with
  | [] => m
  | .left x _ :: _ => m.setLeftChild x c
  | .right _ x :: _ => m.setRightChild x c

/-- The nodes on a path, and beside it. -/
def around (path : List (Frame Nat)) : List Nat := before path ++ after path

variable {m m' : Links} {q q' c c' y : Nat} {t l r : SplayTree Nat} {path path' : List (Frame Nat)}

lemma exists_owner {b : List (List Nat)} (h : b.flatten.Nodup) :
    ∃ o : Nat → Nat, ∀ (i : Nat) (block : List Nat), b[i]? = some block → ∀ y ∈ block, o y = i := by
  induction b with
  | nil => exact ⟨fun _ => 0, by simp⟩
  | cons f b ih =>
    rw [flatten_cons, nodup_append] at h
    obtain ⟨o, ho⟩ := ih h.2.1
    refine ⟨fun y => if y ∈ f then 0 else o y + 1, fun i block hi y hy => ?_⟩
    cases i with
    | zero =>
      cases hi
      exact if_pos hy
    | succ i =>
      have hm : block ∈ b := mem_of_getElem? hi
      have hne : y ∉ f := fun hf => h.2.2 y hf y (mem_flatten.mpr ⟨block, hm, hy⟩) rfl
      exact (if_neg hne).trans (congrArg (· + 1) (ho i block hi y hy))

/-! ## Addresses -/

@[simp] lemma addr_nil : (nil : SplayTree Nat).addr = 0 := rfl

variable {x : Nat}

@[simp] lemma addr_node : (node l x r).addr = x := rfl

@[simp] lemma Frame.addr_left : (Frame.left x r).addr = x := rfl

@[simp] lemma Frame.addr_right : (Frame.right l x).addr = x := rfl

@[simp] lemma up_nil : up q [] = q := rfl

@[simp] lemma up_cons {f : Frame Nat} : up q (f :: path) = f.addr := rfl

@[simp] lemma top_nil : top c [] = c := rfl

@[simp] lemma top_cons {f : Frame Nat} : top c (f :: path) = top f.addr path := rfl

lemma addr_mem (h : t.addr ≠ 0) : t.addr ∈ t.toList := by
  cases t with
  | nil => exact absurd rfl h
  | node l x r => simp

lemma Holds.ne_zero (h : Holds m q t) (hy : y ∈ t.toList) : y ≠ 0 := by
  induction t generalizing q with
  | nil => cases hy
  | node l x r i ir =>
    obtain ⟨hx, -, -, -, hl, hr⟩ := h
    simp only [toList_node, mem_append, mem_cons] at hy
    rcases hy with hy | rfl | hy
    · exact i hl hy
    · exact hx
    · exact ir hr hy

lemma Holds.parent (h : Holds m q t) (ht : t.addr ≠ 0) : m.Parent t.addr = q := by
  cases t with
  | nil => exact absurd rfl ht
  | node l x r => exact h.2.1

lemma Holds.addr_eq_zero (h : Holds m q t) : t.addr = 0 ↔ t = nil := by
  cases t with
  | nil => simp
  | node l x r => simpa using h.1

lemma Holds.unique {t' : SplayTree Nat} (h : Holds m q t) (h' : Holds m q' t')
    (ha : t.addr = t'.addr) : t = t' := by
  induction t generalizing q q' t' with
  | nil => exact (h'.addr_eq_zero.mp ha.symm).symm
  | node l x r i ir =>
    cases t' with
    | nil => exact absurd ha h.1
    | node l' x' r' =>
      obtain rfl : x = x' := ha
      obtain ⟨-, -, hl, hr, hhl, hhr⟩ := h
      obtain ⟨-, -, hl', hr', hhl', hhr'⟩ := h'
      rw [i hhl hhl' (hl.symm.trans hl'), ir hhr hhr' (hr.symm.trans hr')]

lemma addr_plug : (plug path t).addr = top t.addr path := by
  induction path generalizing t with
  | nil => rfl
  | cons f path ih => cases f <;> exact ih

lemma around_left_perm : (around (.left x r :: path)).Perm (x :: (r.toList ++ around path)) := by
  simp only [around, before, after, cons_append]
  refine perm_middle.trans (.cons x ?_)
  rw [← append_assoc, ← append_assoc]
  exact perm_append_comm.append_right _

lemma around_right_perm : (around (.right l x :: path)).Perm (x :: (l.toList ++ around path)) := by
  simp only [around, before, after, append_assoc, singleton_append]
  rw [← append_assoc]
  refine perm_middle.trans (.cons x ?_)
  rw [← append_assoc l.toList]
  exact perm_append_comm.append_right _

lemma plug_perm : (plug path t).toList.Perm (t.toList ++ around path) := by
  rw [toList_plug, around, ← append_assoc, ← append_assoc]
  exact perm_append_comm.append_right _

lemma mem_around_left : y ∈ around (.left x r :: path) ↔ y = x ∨ y ∈ r.toList ∨ y ∈ around path := by
  rw [around_left_perm.mem_iff, mem_cons, mem_append]

lemma mem_around_right : y ∈ around (.right l x :: path) ↔ y = x ∨ y ∈ l.toList ∨ y ∈ around path := by
  rw [around_right_perm.mem_iff, mem_cons, mem_append]

lemma top_mem {f : Frame Nat} : top c (f :: path) ∈ around (f :: path) := by
  induction path generalizing c f with
  | nil =>
    cases f with
    | left x r => exact mem_around_left.mpr (.inl rfl)
    | right l x => exact mem_around_right.mpr (.inl rfl)
  | cons g path ih =>
    cases f with
    | left x r => exact mem_around_left.mpr (.inr (.inr (@ih x g)))
    | right l x => exact mem_around_right.mpr (.inr (.inr (@ih x g)))

lemma top_eq_or_mem : top c path = c ∨ top c path ∈ around path := by
  cases path with
  | nil => exact .inl rfl
  | cons f path => exact .inr top_mem

lemma length_le_around : path.length ≤ (around path).length := by
  induction path with
  | nil => exact Nat.zero_le _
  | cons f path ih =>
    cases f with
    | left x r =>
      rw [around_left_perm.length_eq, length_cons, length_cons, length_append]
      omega
    | right l x =>
      rw [around_right_perm.length_eq, length_cons, length_cons, length_append]
      omega

lemma mem_plug : y ∈ (plug path t).toList ↔ y ∈ t.toList ∨ y ∈ around path := by
  rw [plug_perm.mem_iff, mem_append]

/-! ## Trees and paths -/

/-- The links of a tree are those along a path, and those of the subtree at its end. -/
lemma holds_plug : Holds m q (plug path t) ↔ Above m q t.addr path ∧ Holds m (up q path) t := by
  induction path generalizing t with
  | nil => simp [plug, Above, up]
  | cons f path ih =>
    cases f <;>
    · rw [plug, ih]
      simp only [Holds, Above, addr_node, up, Frame.addr]
      tauto

lemma plug_append (path path' : List (Frame Nat)) (t : SplayTree Nat) : plug (path ++ path')
    t = plug path' (plug path t) := by
  induction path generalizing t with
  | nil => rfl
  | cons f path ih => cases f <;> exact ih _

lemma around_append_perm : (around (path ++ path')).Perm (around path ++ around path') := by
  induction path with
  | nil => exact .refl _
  | cons f path ih =>
    cases f with
    | left x r =>
      refine around_left_perm.trans (.trans (.cons x ?_) (around_left_perm.append_right _).symm)
      exact (ih.append_left _).trans (.of_eq (append_assoc _ _ _).symm)
    | right l x =>
      refine around_right_perm.trans (.trans (.cons x ?_) (around_right_perm.append_right _).symm)
      exact (ih.append_left _).trans (.of_eq (append_assoc _ _ _).symm)

lemma up_append (q : Nat) (path path' : List (Frame Nat)) : up q (path ++ path') = up (up q path') path := by
  cases path <;> rfl

lemma top_append (c : Nat) (path path' : List (Frame Nat)) : top c (path ++ path') = top (top c path) path' := by
  induction path generalizing c with
  | nil => rfl
  | cons f path ih => exact ih f.addr

lemma above_append : Above m q c (path ++ path') ↔ Above m (up q path') c path ∧ Above m q (top c path) path' := by
  induction path generalizing c with
  | nil => simp [Above, top]
  | cons f path ih =>
    cases f <;>
    · simp only [cons_append, Above, up_append, ih, top, Frame.addr]
      tauto

/-! ## Changes elsewhere -/

/-- The links of a node are the same. -/
def Same (m m' : Links) (y : Nat) : Prop :=
  m'.Parent y = m.Parent y ∧ m'.LeftChild y = m.LeftChild y ∧ m'.RightChild y = m.RightChild y

lemma Holds.congr (h : Holds m q t) (hs : ∀ y ∈ t.toList, Same m m' y) : Holds m' q t := by
  induction t generalizing q with
  | nil => trivial
  | node l x r i ir =>
    obtain ⟨hx, hp, hl, hr, hhl, hhr⟩ := h
    simp only [toList_node, mem_append, mem_cons] at hs
    obtain ⟨hp', hl', hr'⟩ := hs x (.inr (.inl rfl))
    exact ⟨hx, hp'.trans hp, hl'.trans hl, hr'.trans hr, i hhl fun y hy => hs y (.inl hy),
      ir hhr fun y hy => hs y (.inr (.inr hy))⟩

lemma Holds.move (h : Holds m q t) (hnd : t.toList.Nodup)
    (hs : ∀ y ∈ t.toList, m'.LeftChild y = m.LeftChild y ∧ m'.RightChild y = m.RightChild y ∧
      (y ≠ t.addr → m'.Parent y = m.Parent y))
    (hrt : t.addr ≠ 0 → m'.Parent t.addr = q') : Holds m' q' t := by
  cases t with
  | nil => trivial
  | node l x r =>
    obtain ⟨hx, hp, hl, hr, hhl, hhr⟩ := h
    rw [toList_node, nodup_middle] at hnd
    have hne (y : Nat) (hy : y ∈ l.toList ∨ y ∈ r.toList) : y ≠ x := by
      rintro rfl
      exact (nodup_cons.mp hnd).1 (mem_append.mpr hy)
    simp only [toList_node, mem_append, mem_cons, addr_node] at hs
    obtain ⟨hl', hr', -⟩ := hs x (.inr (.inl rfl))
    refine ⟨hx, hrt hx, hl'.trans hl, hr'.trans hr, hhl.congr fun y hy => ?_, hhr.congr fun y hy => ?_⟩
    · obtain ⟨hly, hry, hpy⟩ := hs y (.inl hy)
      exact ⟨hpy (hne y (.inl hy)), hly, hry⟩
    · obtain ⟨hly, hry, hpy⟩ := hs y (.inr (.inr hy))
      exact ⟨hpy (hne y (.inr hy)), hly, hry⟩

lemma Above.congr (h : Above m q c path) (hs : ∀ y ∈ around path, Same m m' y) : Above m' q c path := by
  induction path generalizing c with
  | nil => trivial
  | cons f path ih =>
    cases f with
    | left x r =>
      simp only [mem_around_left] at hs
      obtain ⟨⟨hx, hp, hl, hr, hhr⟩, ha⟩ := h
      obtain ⟨hp', hl', hr'⟩ := hs x (.inl rfl)
      exact ⟨⟨hx, hp'.trans hp, hl'.trans hl, hr'.trans hr, hhr.congr fun y hy => hs y (.inr (.inl hy))⟩,
        ih ha fun y hy => hs y (.inr (.inr hy))⟩
    | right l x =>
      simp only [mem_around_right] at hs
      obtain ⟨⟨hx, hp, hl, hr, hhl⟩, ha⟩ := h
      obtain ⟨hp', hl', hr'⟩ := hs x (.inl rfl)
      exact ⟨⟨hx, hp'.trans hp, hl'.trans hl, hr'.trans hr, hhl.congr fun y hy => hs y (.inr (.inl hy))⟩,
        ih ha fun y hy => hs y (.inr (.inr hy))⟩

/-- The root of a tree does not matter for the nodes of a path, unless the path is empty. -/
lemma above_top : Above m (top c path) c' path ↔ Above m (top q path) c' path := by
  cases path with
  | nil => exact Iff.rfl
  | cons f path => exact Iff.rfl

@[simp] lemma setChild_parent : (setChild m path c).Parent y = m.Parent y := by
  cases path with
  | nil => rfl
  | cons f path => cases f <;> rfl

lemma setChild_children (hy : y ∉ around path) : (setChild m path c).LeftChild y = m.LeftChild y ∧
    (setChild m path c).RightChild y = m.RightChild y := by
  cases path with
  | nil => exact ⟨rfl, rfl⟩
  | cons f path =>
    cases f with
    | left x r =>
      rw [mem_around_left, not_or] at hy
      simp [setChild, hy.1]
    | right l x =>
      rw [mem_around_right, not_or] at hy
      simp [setChild, hy.1]

lemma setChild_congr (h : m'.LeftChild y = m.LeftChild y ∧ m'.RightChild y = m.RightChild y) :
    (setChild m' path c).LeftChild y = (setChild m path c).LeftChild y ∧
      (setChild m' path c).RightChild y = (setChild m path c).RightChild y := by
  cases path with
  | nil => exact h
  | cons f path => cases f <;> simp [setChild, h]

section

variable (h : Above m q c path) (hnd : (around path).Nodup)

include h hnd

lemma Above.setChild : Above (setChild m path c') q c' path := by
  cases path with
  | nil => trivial
  | cons f path =>
    cases f with
    | left x r =>
      obtain ⟨hx, -⟩ := nodup_cons.mp (around_left_perm.nodup_iff.mp hnd)
      rw [mem_append, not_or] at hx
      obtain ⟨⟨hx0, hp, -, hr, hh⟩, ha⟩ := h
      have hs (y : Nat) (hy : y ≠ x) : Same m (m.setLeftChild x c') y := by simp [Same, hy]
      exact ⟨⟨hx0, hp, if_pos rfl, hr, hh.congr fun y hy => hs y fun h => hx.1 (h ▸ hy)⟩,
        ha.congr fun y hy => hs y fun h => hx.2 (h ▸ hy)⟩
    | right l x =>
      obtain ⟨hx, -⟩ := nodup_cons.mp (around_right_perm.nodup_iff.mp hnd)
      rw [mem_append, not_or] at hx
      obtain ⟨⟨hx0, hp, hl, -, hh⟩, ha⟩ := h
      have hs (y : Nat) (hy : y ≠ x) : Same m (m.setRightChild x c') y := by simp [Same, hy]
      exact ⟨⟨hx0, hp, hl, if_pos rfl, hh.congr fun y hy => hs y fun h => hx.1 (h ▸ hy)⟩,
        ha.congr fun y hy => hs y fun h => hx.2 (h ▸ hy)⟩

lemma Above.moveTop (hs : ∀ y ∈ around path, m'.LeftChild y = m.LeftChild y ∧ m'.RightChild y = m.RightChild y ∧
      (y ≠ top c path → m'.Parent y = m.Parent y))
    (ht : path ≠ [] → m'.Parent (top c path) = q') : Above m' q' c path := by
  induction path generalizing c with
  | nil => trivial
  | cons f path ih =>
    have hpr (hm : f.addr ∈ around (f :: path)) (ho : f.addr ∉ around path) (hp : m.Parent f.addr = up q path) :
        m'.Parent f.addr = up q' path := by
      cases path with
      | nil => exact ht (cons_ne_nil _ _)
      | cons g path => exact ((hs f.addr hm).2.2 fun h => ho (h ▸ @top_mem f.addr path g)).trans hp
    have hsd {t : SplayTree Nat} {x : Nat} (hh : Holds m x t)
        (hm : ∀ y ∈ t.toList, y ∈ around (f :: path) ∧ y ≠ f.addr ∧ y ∉ around path) : Holds m' x t := by
      refine hh.congr fun y hy => ?_
      obtain ⟨hl, hr, hp⟩ := hs y (hm y hy).1
      refine ⟨hp fun h => ?_, hl, hr⟩
      rcases @top_eq_or_mem f.addr path with ht | ht
      · exact (hm y hy).2.1 (h.trans ht)
      · exact (hm y hy).2.2 (h ▸ ht)
    have hrs (hnd : (around path).Nodup) (hsb : ∀ y ∈ around path,
      y ∈ around (f :: path)) (ha : Above m q f.addr path) :
        Above m' q' f.addr path :=
      ih ha hnd (fun y hy => hs y (hsb y hy)) fun _ => ht (cons_ne_nil _ _)
    cases f with
    | left x r =>
      obtain ⟨hx, hnd⟩ := nodup_cons.mp (around_left_perm.nodup_iff.mp hnd)
      obtain ⟨-, hpt, hd⟩ := nodup_append.mp hnd
      rw [mem_append, not_or] at hx
      obtain ⟨⟨hx0, hp, hl, hr, hh⟩, ha⟩ := h
      obtain ⟨hl', hr', -⟩ := hs x (mem_around_left.mpr (.inl rfl))
      refine ⟨⟨hx0, hpr (mem_around_left.mpr (.inl rfl)) hx.2 hp, hl'.trans hl, hr'.trans hr,
        hsd hh fun y hy => ?_⟩,
        hrs hpt (fun y hy => mem_around_left.mpr (.inr (.inr hy))) ha⟩
      exact ⟨mem_around_left.mpr (.inr (.inl hy)), fun h => hx.1 ((show y = x from h) ▸ hy),
        fun h => hd y hy y h rfl⟩
    | right l x =>
      obtain ⟨hx, hnd⟩ := nodup_cons.mp (around_right_perm.nodup_iff.mp hnd)
      obtain ⟨-, hpt, hd⟩ := nodup_append.mp hnd
      rw [mem_append, not_or] at hx
      obtain ⟨⟨hx0, hp, hl, hr, hh⟩, ha⟩ := h
      obtain ⟨hl', hr', -⟩ := hs x (mem_around_right.mpr (.inl rfl))
      refine ⟨⟨hx0, hpr (mem_around_right.mpr (.inl rfl)) hx.2 hp, hl'.trans hl, hr'.trans hr,
        hsd hh fun y hy => ?_⟩,
        hrs hpt (fun y hy => mem_around_right.mpr (.inr (.inr hy))) ha⟩
      exact ⟨mem_around_right.mpr (.inr (.inl hy)), fun h => hx.1 ((show y = x from h) ▸ hy),
        fun h => hd y hy y h rfl⟩

lemma Above.rehang (hs : ∀ y ∈ around path, m'.LeftChild y = (SplayTree.setChild m path c').LeftChild y ∧
      m'.RightChild y = (SplayTree.setChild m path c').RightChild y ∧ (y ≠ top c path → m'.Parent y = m.Parent y))
    (ht : path ≠ [] → m'.Parent (top c path) = q') : Above m' q' c' path := by
  have hne : path ≠ [] → top c' path = top c path := fun h => by
    cases path with
    | nil => exact absurd rfl h
    | cons f path => rfl
  have hst : Above (SplayTree.setChild m path c') q c' path := h.setChild hnd
  refine hst.moveTop hnd (fun y hy => ?_) fun h => (hne h).symm ▸ ht h
  have hp : path ≠ [] := fun h => by
    subst h
    cases hy
  rw [hne hp, setChild_parent]
  exact hs y hy

end

lemma Above.ne_zero (h : Above m q c path) (hy : y ∈ around path) : y ≠ 0 := by
  induction path generalizing c with
  | nil => cases hy
  | cons f path ih =>
    cases f with
    | left x r =>
      rcases mem_around_left.mp hy with rfl | hy | hy
      · exact h.1.1
      · exact h.1.2.2.2.2.ne_zero hy
      · exact ih h.2 hy
    | right l x =>
      rcases mem_around_right.mp hy with rfl | hy | hy
      · exact h.1.1
      · exact h.1.2.2.2.2.ne_zero hy
      · exact ih h.2 hy

/-- Only the links of the given nodes have changed, and the parents of the given roots, if they are not 0. -/
structure Rewired (m m' : Links) (nodes roots : List Nat) : Prop where
  children : ∀ y, y ∉ nodes → m'.LeftChild y = m.LeftChild y ∧ m'.RightChild y = m.RightChild y
  parents : ∀ y, y ≠ 0 → y ∉ nodes → y ∉ roots → m'.Parent y = m.Parent y

section
variable {nodes rs : List Nat} (hw : Rewired m m' nodes rs)
include hw

lemma Rewired.holds (h : Holds m q t) (hno : ∀ y ∈ t.toList, y ≠ 0 → y ∉ nodes ∧ y ∉ rs) : Holds m' q t := by
  refine h.congr fun y hy => ?_
  obtain ⟨hn, hr⟩ := hno y hy (h.ne_zero hy)
  exact ⟨hw.parents y (h.ne_zero hy) hn hr, hw.children y hn⟩

lemma Rewired.move (h : Holds m q t) (hnd : t.toList.Nodup)
    (hno : ∀ y ∈ t.toList, y ≠ 0 → y ∉ nodes ∧ (y ∈ rs → y = t.addr)) (hrt : t.addr ≠ 0 → m'.Parent t.addr = q') :
    Holds m' q' t := by
  refine h.move hnd (fun y hy => ?_) hrt
  obtain ⟨hn, hr⟩ := hno y hy (h.ne_zero hy)
  exact ⟨(hw.children y hn).1, (hw.children y hn).2, fun hne =>
    hw.parents y (h.ne_zero hy) hn fun hy' => hne (hr hy')⟩

lemma Rewired.above (h : Above m q c path) (hno : ∀ y ∈ around path, y ≠ 0 → y ∉ nodes ∧ y ∉ rs) :
    Above m' q c path := by
  refine h.congr fun y hy => ?_
  obtain ⟨hn, hr⟩ := hno y hy (h.ne_zero hy)
  exact ⟨hw.parents y (h.ne_zero hy) hn hr, hw.children y hn⟩

end

end SplayTree

end FreeNT
