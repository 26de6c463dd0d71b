import Mathlib.Data.List.Perm.Subperm
import FreeNT.Rtl.SplayLinks

/-!
# Deletion of linked nodes (`lib/rtl/splaytree.c`)

`RtlDelete` and `RtlDeleteNoSplay` first exchange a node with two children and its
predecessor, all links of the two (`Swapped`, `swapped_tree`), so that the node has at most
one child, which then takes its place (`unhook_spec`).

`rtlDelete_spec`, `deleteNoSplay_spec`: on the links of a tree they do what `remove` and
`detach` do with the tree.
-/

namespace FreeNT.Rtl

open List hiding after nil replace

open SplayTree

variable {m m' : Links} {sl l r c : SplayTree Nat} {ir path : List (Frame Nat)} {s n : Nat}

/-- The children of a node get it as their parent, and its parent as the child on one side. -/
lemma fixup_eq (m : Links) (n : Nat) (root lc : Bool) (hl : m.LeftChild n ≠ n) (hr : m.RightChild n ≠ n) :
    fixupChildLinks m n root lc =
      let m1 := reparent (reparent m (m.LeftChild n) n) (m.RightChild n) n
      if root then m1 else if lc then m1.setLeftChild (m.Parent n) n else m1.setRightChild (m.Parent n) n := by
  have hlf : (if m.LeftChild n ≠ 0 then rtlInsertAsLeftChild m n (m.LeftChild n) else m) =
    reparent m (m.LeftChild n) n := by
    rw [rtlInsertAsLeftChild, Links.setLeftChild_self m _ _ rfl, reparent]
  have hrg (m' : Links) (h : m'.RightChild n = m.RightChild n) :
      (if m'.RightChild n ≠ 0 then rtlInsertAsRightChild m' n (m'.RightChild n) else m') =
        reparent m' (m.RightChild n) n := by
    rw [rtlInsertAsRightChild, Links.setRightChild_self m' _ _ rfl, reparent, h]
  have hp : (reparent (reparent m (m.LeftChild n) n) (m.RightChild n) n).Parent n = m.Parent n := by
    simp [hl.symm, hr.symm]
  simp only [fixupChildLinks, hlf, hrg (reparent m (m.LeftChild n) n) (by simp), hp]
  congr 1
  split
  · exact Links.setParent_self _ _ _ hp
  · exact Links.setParent_self _ _ _ hp

/-- The links after `n` and its predecessor `s`, which is at the lower end of `inner`, have changed places. -/
structure Swapped (m m' : Links) (s n : Nat) (sl r : SplayTree Nat) (inner path : List (Frame Nat)) : Prop where
  upper : m'.Parent s = up (top s path) path ∧ m'.LeftChild s = top n inner ∧ m'.RightChild s = r.addr
  lower : m'.Parent n = up s inner ∧ m'.LeftChild n = sl.addr ∧ m'.RightChild n = 0
  children : ∀ y, y ≠ s → y ≠ n → m'.LeftChild y = (setChild (setChild m path s) inner n).LeftChild y ∧
    m'.RightChild y = (setChild (setChild m path s) inner n).RightChild y
  left : sl.addr ≠ 0 → m'.Parent sl.addr = n
  right : r.addr ≠ 0 → m'.Parent r.addr = s
  middle : inner ≠ [] → m'.Parent (top s inner) = s
  parents : ∀ y, y ≠ 0 → y ≠ s → y ≠ n → y ≠ sl.addr → y ≠ r.addr → (inner ≠ [] → y ≠ top s inner) →
    m'.Parent y = m.Parent y

/-- The blocks of nodes around `n` and its predecessor `s`, at the lower end of `ir`. -/
lemma swap_nodup (h : Tree m (plug (ir ++ .left n r :: path) (node sl s nil))) :
    (sl.toList ++ s :: (around ir ++ n :: (r.toList ++ around path))).Nodup := by
  have h := plug_perm.nodup_iff.mp h.nodup
  rw [List.Perm.nodup_iff ((around_append_perm.trans (around_left_perm.append_left _)).append_left _)] at h
  simpa using h

lemma swap_owner (h : Tree m (plug (ir ++ .left n r :: path) (node sl s nil))) :
    ∃ o : Nat → Nat, (∀ y ∈ sl.toList, o y = 0) ∧ o s = 1 ∧ (∀ y ∈ around ir, o y = 2) ∧ o n = 3 ∧
      (∀ y ∈ r.toList, o y = 4) ∧
      ∀ y ∈ around path, o y = 5 := by
  obtain ⟨o, ho⟩ := @exists_owner [sl.toList, [s], around ir, [n], r.toList,
    around path] (by simpa using swap_nodup h)
  exact ⟨o, ho 0 _ rfl, ho 1 _ rfl s mem_cons_self, ho 2 _ rfl, ho 3 _ rfl n mem_cons_self, ho 4 _ rfl, ho 5 _ rfl⟩

lemma swapped_adjacent (h : Tree m (plug (.left n r :: path) (node sl s nil))) (hr : r.addr ≠ 0) :
    Swapped m (swapSplayLinks m s n) s n sl r [] path := by
  obtain ⟨o, hsl, hs, -, hn, hr', hp⟩ := @swap_owner m sl r [] path s n h
  obtain ⟨⟨⟨hn0, hnp, hnl, hnr, hhr⟩, ha⟩, ⟨hs0, hsp, hsl', hsr, hh, -⟩, -⟩ := tree_plug.mp h
  have hsn : s ≠ n := by grind
  have hlf : rtlIsLeftChild m s := by simp [rtlIsLeftChild, hsp, hnl]
  have hsl0 := @addr_mem sl
  have hr0 := @addr_mem r
  have hd : sl.addr ≠ s ∧ sl.addr ≠ n ∧ r.addr ≠ s ∧ r.addr ≠ n ∧ sl.addr ≠ r.addr := by
    grind
  have hd' : s ≠ sl.addr ∧ n ≠ sl.addr ∧ s ≠ r.addr ∧ n ≠ r.addr :=
    ⟨hd.1.symm, hd.2.1.symm, hd.2.2.1.symm, hd.2.2.2.1.symm⟩
  have hot (y : Nat) (hy : y ∈ around path) : y ≠ n ∧ y ≠ s := by
    have := hp y hy
    constructor <;> rintro rfl <;> omega
  obtain ⟨rfl, hrt⟩ | ⟨z, zr, pt, rfl, -, hrt, hl⟩ | ⟨zl, z, pt, rfl, -, hrt, hl⟩ :=
    place_cases ha hnp hn0 fun h => (hot n h).1 rfl
  · refine ⟨?_, ?_, fun y _ _ => ?_, fun _ => ?_, fun _ => ?_, fun h => absurd rfl h, fun y _ _ _ _ _ _ => ?_⟩ <;>
      simp [swapSplayLinks, swapLinks, fixup_eq, copyLinks, rtlInsertAsLeftChild, setChild, hsn.symm, hn0.symm, *]
  all_goals
    have hz : z ≠ n ∧ z ≠ s := hot z (by simp [mem_around_left, mem_around_right])
    have hz' : n ≠ z ∧ s ≠ z := ⟨hz.1.symm, hz.2.symm⟩
    refine ⟨?_, ?_, fun y _ _ => ?_, fun _ => ?_, fun _ => ?_, fun h => absurd rfl h, fun y _ _ _ _ _ _ => ?_⟩ <;>
      simp [swapSplayLinks, swapLinks, fixup_eq, copyLinks, rtlInsertAsLeftChild, rtlInsertAsRightChild, setChild,
        hsn.symm, hn0.symm, *]
    tauto

lemma swapped_apart {pl : SplayTree Nat} {p : Nat}
    (h : Tree m (plug (.right pl p :: ir ++ .left n r :: path) (node sl s nil)))
    (hr : r.addr ≠ 0) : Swapped m (swapSplayLinks m s n) s n sl r (.right pl p :: ir) path := by
  obtain ⟨o, hsl, hs, hir, hn, hr', hpt⟩ := swap_owner h
  obtain ⟨hav, ⟨hs0, hsp, hsl', hsr, hh, -⟩, -⟩ := tree_plug.mp h
  obtain ⟨hin, ⟨hn0, hnp, hnl, hnr, hhr⟩, hav⟩ := above_append.mp hav
  simp only [addr_node, up_cons, top_cons, Frame.addr_right, Frame.addr_left, addr_nil, cons_append,
    top_append] at hnp hnl hsp hsr hav
  have hsl0 := @addr_mem sl
  have hr0 := @addr_mem r
  have hp : o p = 2 := hir p (mem_around_right.mpr (.inl rfl))
  have hy : o (top p ir) = 2 := hir _ (@top_mem s _ (.right pl p))
  have hy0 : top p ir ≠ 0 := hin.ne_zero (@top_mem s _ (.right pl p))
  have hlf : rtlIsLeftChild m s = false := by
    refine isLeftChild_right hin hsp hs0 fun h => ?_
    have := hir s (mem_around_right.mpr (.inr (.inl h)))
    omega
  have hro : o r.addr = 4 := hr' _ (hr0 hr)
  -- nodes of different blocks are different, in both directions
  have hne (a b : Nat) (hab : o a ≠ o b) : (a = b) = False := eq_false fun h => hab (h ▸ rfl)
  have hsle (a : Nat) (ha : o a ≠ 0) (ha0 : a ≠ 0) : (sl.addr = a) = False ∧ (a = sl.addr) = False := by
    have : sl.addr ≠ a := fun h => ha (h ▸ hsl _ (hsl0 (h ▸ ha0)))
    exact ⟨eq_false this, eq_false this.symm⟩
  have hnm : n ∉ around path := fun h => by
    have := hpt n h
    omega
  obtain ⟨rfl, hrt⟩ | ⟨z, zr, pt, rfl, -, hrt, hl⟩ | ⟨zl, z, pt, rfl, -, hrt, hl⟩ := place_cases hav hnp hn0 hnm
  · refine ⟨?_, ?_, fun y _ _ => ?_, fun _ => ?_, fun _ => ?_, fun _ => ?_, fun y _ _ _ _ _ h => ?_⟩
    rotate_right
    · have hyt : y ≠ top p ir := h (cons_ne_nil _ _)
      simp [swapSplayLinks, swapLinks, fixup_eq, copyLinks, hn0.symm, *]
    all_goals simp [swapSplayLinks, swapLinks, fixup_eq, copyLinks, setChild, hn0.symm, *]
  all_goals
    have hz : o z = 5 := hpt z (by simp [mem_around_left, mem_around_right])
    have hrt' : rtlIsRoot m s = false := by simp [rtlIsRoot, *]
    refine ⟨?_, ?_, fun y _ _ => ?_, fun _ => ?_, fun _ => ?_, fun _ => ?_, fun y _ _ _ _ _ h => ?_⟩
    rotate_right
    · have hyt : y ≠ top p ir := h (cons_ne_nil _ _)
      simp [swapSplayLinks, swapLinks, fixup_eq, copyLinks, hn0.symm, *]
    all_goals simp [swapSplayLinks, swapLinks, fixup_eq, copyLinks, setChild, hn0.symm, *]

/-- Once they have changed places, the links are those of the tree with the two exchanged. -/
lemma swapped_tree (h : Tree m (plug (ir ++ .left n r :: path) (node sl s nil)))
    (hw : Swapped m m' s n sl r ir path) :
    Tree m' (plug (ir ++ .left s r :: path) (node sl n nil)) := by
  have hnd := swap_nodup h
  have hnd' : (plug (ir ++ .left s r :: path) (node sl n nil)).toList.Nodup := by
    rw [plug_perm.nodup_iff, List.Perm.nodup_iff
      ((around_append_perm.trans (around_left_perm.append_left _)).append_left _)]
    refine (List.Perm.nodup_iff ?_).mp hnd
    simp only [toList_node, toList_nil, append_assoc, singleton_append]
    refine .append_left _ ?_
    calc s :: (around ir ++ n :: (r.toList ++ around path))
      _ |>.Perm (s :: n :: (around ir ++ (r.toList ++ around path))) := .cons s perm_middle
      _ |>.Perm (n :: s :: (around ir ++ (r.toList ++ around path))) := .swap n s _
      _ |>.Perm (n :: (around ir ++ s :: (r.toList ++ around path))) := .cons n perm_middle.symm
  obtain ⟨o, hsl, hs, hir, hn, hr, hp⟩ := swap_owner h
  simp only [nodup_append, nodup_cons] at hnd
  obtain ⟨hns, ⟨-, hni, ⟨-, hnr, hnh, -⟩, -⟩, -⟩ := hnd
  obtain ⟨ha, ⟨hs0, hsp, hsl', hsr, hh, -⟩, -⟩ := tree_plug.mp h
  obtain ⟨hin, ⟨hn0, hnp, hnl, hnr', hhr⟩, ha⟩ := above_append.mp ha
  have hsl0 := @addr_mem sl
  have hr0 := @addr_mem r
  have ht := @top_eq_or_mem s ir
  have hne (y : Nat) (i : Nat) (hy : o y = i) (hi : i ≠ 1) (hi' : i ≠ 3) : y ≠ s ∧ y ≠ n :=
    ⟨fun h => by subst h; omega, fun h => by subst h; omega⟩
  have hrt (y : Nat) (i : Nat) (hy : o y = i) (hy0 : y ≠ 0) (hi : i ≠ 0) (hi' : i ≠ 4) :
    y ≠ sl.addr ∧ y ≠ r.addr := by
    constructor
    · intro h
      have := hsl y (h ▸ hsl0 (h ▸ hy0))
      omega
    intro h
    have := hr y (h ▸ hr0 (h ▸ hy0))
    omega
  -- the two subtrees only get new parents
  have hrw : Rewired m m' (s :: n :: (around ir ++ around path)) [sl.addr, r.addr] := by
    refine ⟨fun y hy => ?_, fun y hy0 hy hrt => ?_⟩
    · simp only [mem_cons, mem_append, not_or] at hy
      obtain ⟨hl, hr⟩ := hw.children y hy.1 hy.2.1
      obtain ⟨hl1, hr1⟩ := @setChild_children (setChild m path s) n y ir hy.2.2.1
      obtain ⟨hl2, hr2⟩ := @setChild_children m s y path hy.2.2.2
      exact ⟨hl.trans (hl1.trans hl2), hr.trans (hr1.trans hr2)⟩
    simp only [mem_cons, mem_append, not_or, not_mem_nil, not_false_eq_true, and_true] at hy hrt
    refine hw.parents y hy0 hy.1 hy.2.1 hrt.1 hrt.2 fun _ hy' => ?_
    rcases ht with ht | ht
    · exact hy.1 (hy'.trans ht)
    · exact hy.2.2.1 (hy' ▸ ht)
  refine tree_plug.mpr ⟨above_append.mpr ⟨?_, ⟨hs0, ?_, hw.upper.2.1, hw.upper.2.2, ?_⟩, ?_⟩,
    ⟨hn0, ?_, hw.lower.2.1, hw.lower.2.2, ?_, trivial⟩, hnd'⟩
  · refine hin.rehang hni (fun y hy => ?_) hw.middle
    have hyo := hir y hy
    obtain ⟨hys, hyn⟩ := hne y 2 hyo (by omega) (by omega)
    have hyp : y ∉ around path := fun h => by
      have := hp y h
      omega
    obtain ⟨hl, hr'⟩ := hw.children y hys hyn
    obtain ⟨hl1, hr1⟩ := @setChild_congr _ _ n y ir (@setChild_children m s y path hyp)
    obtain ⟨hyl, hyr⟩ := hrt y 2 hyo (hin.ne_zero hy) (by omega) (by omega)
    exact ⟨hl.trans hl1, hr'.trans hr1, fun hyt => hw.parents y (hin.ne_zero hy) hys hyn hyl hyr fun _ => hyt⟩
  · simpa [top_append] using hw.upper.1
  · refine hrw.move hhr hnr (fun y hy _ => ?_) hw.right
    grind
  · rw [addr_node, top_append, top_cons, Frame.addr_left] at ha ⊢
    have hst : Above (setChild m path s) (top s path) s path := (above_top.mp ha).setChild hnh
    refine hst.congr fun y hy => ?_
    have hyo := hp y hy
    obtain ⟨hys, hyn⟩ := hne y 5 hyo (by omega) (by omega)
    have hyi : y ∉ around ir := fun h => by
      have := hir y h
      omega
    obtain ⟨hl, hr'⟩ := hw.children y hys hyn
    obtain ⟨hl1, hr1⟩ := @setChild_children (setChild m path s) n y ir hyi
    obtain ⟨hyl, hyr⟩ := hrt y 5 hyo (ha.ne_zero hy) (by omega) (by omega)
    refine ⟨?_, hl.trans hl1, hr'.trans hr1⟩
    rw [setChild_parent]
    refine hw.parents y (ha.ne_zero hy) hys hyn hyl hyr fun _ hyt => ?_
    rcases ht with ht | ht
    · exact hys (hyt.trans ht)
    · exact hyi (hyt ▸ ht)
  · rw [up_append, up_cons, Frame.addr_left]
    exact hw.lower.1
  · refine hrw.move hh hns (fun y hy _ => ?_) hw.left
    grind

/-! ## The node without its second child -/

lemma rightmostLoop_spec {q x k : Nat} (h : Holds m q (node l x r)) (hf : (node l x r).toList.length ≤ k)
    (ir : List (SplayTree Nat × Nat)) : rightmostLoop k m x = some (rightmost l x r ir).2.2 := by
  induction r generalizing l x q k ir with
  | nil =>
    cases k with
    | zero => simp at hf
    | succ k => simp [rightmostLoop, rightmost, h.2.2.2.1]
  | node rl y rr _ ih =>
    obtain ⟨-, -, -, hr, -, hhr⟩ := h
    cases k with
    | zero => simp at hf
    | succ k =>
      rw [rightmostLoop, hr, addr_node, if_pos hhr.1]
      refine ih hhr ?_ _
      simp only [toList_node, length_append, length_cons] at hf ⊢
      omega

lemma rtlIsRoot_iff (h : Tree m (plug path (node l n r))) : rtlIsRoot m n ↔ path = [] := by
  cases path with
  | nil => simpa [rtlIsRoot, plug] using h.holds.2.1
  | cons f path => simp [h.parent.1]

lemma swapped (h : Tree m (plug (ir ++ .left n r :: path) (node sl s nil))) (hr : r.addr ≠ 0)
    (hin : ∃ fs : List (SplayTree Nat × Nat), ir = fs.map fun f => .right f.1 f.2) :
    Swapped m (swapSplayLinks m s n) s n sl r ir path := by
  obtain ⟨_ | ⟨⟨pl, p⟩, fs⟩, rfl⟩ := hin
  · exact swapped_adjacent h hr
  · exact swapped_apart h hr

/-- After the exchange with its predecessor, if it has two children, the node has at most one. -/
lemma deleteSwap_spec (h : Tree m (plug path (node l n r)))
    (hsz : (plug path (node l n r)).toList.length < loopBound) :
    ∃ m' sp l' r', deleteSwap m n = some (m', sp) ∧ Tree m' (plug (vacate l r path).1 (node l' n r')) ∧
      (l' = nil ∧ r' = (vacate l r path).2 ∨ l' = (vacate l r path).2 ∧ r' = nil) ∧
      top n (vacate l r path).1 =
        if m.LeftChild n ≠ 0 ∧ m.RightChild n ≠ 0 ∧ rtlIsRoot m n then sp else top n path := by
  have hr := rtlIsRoot_iff h
  obtain ⟨ha, ⟨hn0, hnp, hnl, hnr, hhl, hhr⟩, -⟩ := tree_plug.mp h
  match l, r with
  | nil, r => exact ⟨m, 0, nil, r, by simp [deleteSwap, hnl], h, .inl ⟨rfl, rfl⟩, by simp [hnl, vacate]⟩
  | node ll y lr, nil => exact ⟨m, 0, node ll y lr,
      nil, by simp [deleteSwap, hnr], h, .inr ⟨rfl, rfl⟩, by simp [hnr, vacate]⟩
  | node ll y lr, node rl z rr =>
    have hp := plug_rightmost ll y lr []
    have hl : (node ll y lr).toList.length ≤ loopBound := by
      rw [plug_perm.length_eq, toList_node, length_append, length_append] at hsz
      omega
    have hpr := rightmostLoop_spec hhl hl []
    rw [vacate]
    generalize rightmost ll y lr [] = found at hp hpr
    obtain ⟨ir, sl, s⟩ := found
    have ht : Tree m (plug (ir.map (fun f => .right f.1 f.2) ++ .left n (node rl z rr) :: path)
      (node sl s nil)) := by
      rw [plug_append, hp]
      exact h
    refine ⟨swapSplayLinks m s n, s, sl, nil, ?_, swapped_tree ht (swapped ht hhr.1 ⟨ir, rfl⟩), .inr ⟨rfl, rfl⟩, ?_⟩
    · simp [deleteSwap, rtlSubtreePredecessor, hnl, hnr, hhl.1, hhr.1, hpr]
    rw [top_append, top_cons, Frame.addr_left]
    simp only [hnl, hnr, hr, addr_node, ne_eq, hhl.1, hhr.1, not_false_eq_true, true_and]
    cases path with
    | nil => rfl
    | cons f path => simp

lemma relink_eq {f : Frame Nat} (h : Tree m (plug (f :: path) (node l n r))) (c : Nat) :
    relink m n c = setChild m (f :: path) c := by
  obtain ⟨-, hp, hl⟩ := h.parent
  cases f <;> simp [relink, hp, hl, setChild]

section

variable (h : Tree m (plug path (node l n r))) (hc : l = nil ∧ r = c ∨ l = c ∧ r = nil)

include h hc

lemma unhook_spec :
    Tree (reparent (setChild m path c.addr) c.addr (up (top c.addr path) path)) (plug path c) := by
  obtain ⟨hab, ⟨hn0, hnp, hnl, hnr, hhl, hhr⟩, hnd⟩ := tree_plug.mp h
  have hbl : (c.toList ++ n :: around path).Nodup := by
    have := plug_perm.nodup_iff.mp hnd
    rcases hc with ⟨rfl, rfl⟩ | ⟨rfl, rfl⟩
    · refine (List.Perm.nodup_iff ?_).mp this
      exact perm_middle.symm
    · simpa using this
  obtain ⟨o, how⟩ := @exists_owner [c.toList, [n], around path] (by simpa using hbl)
  have ho0 := how 0 _ rfl
  have hp := how 2 _ rfl
  have hc0 := @addr_mem c
  simp only [nodup_append, nodup_cons] at hbl
  obtain ⟨hnc, ⟨hnh, hnp'⟩, hd⟩ := hbl
  have hs : Above (setChild m path c.addr) (top c.addr path) c.addr path := (above_top.mp hab).setChild hnp'
  have hh : Holds m n c := by
    rcases hc with ⟨rfl, rfl⟩ | ⟨rfl, rfl⟩
    · exact hhr
    · exact hhl
  refine tree_plug.mpr ⟨hs.congr fun y hy => ?_, hh.move hnc (fun y hy => ?_) fun h => by simp [h], ?_⟩
  · have hy' : ¬ (c.addr ≠ 0 ∧ y = c.addr) := by
      rintro ⟨h0, rfl⟩
      have := ho0 _ (hc0 h0)
      have := hp _ hy
      omega
    simp [Same, hy']
  · have hyp : y ∉ around path := fun h => by
      have := ho0 _ hy
      have := hp _ h
      omega
    have hs' := @setChild_children m c.addr y path hyp
    simp +contextual [hs']
  · rw [plug_perm.nodup_iff, nodup_append]
    exact ⟨hnc, hnp', fun a ha b hb => hd a ha b (mem_cons_of_mem _ hb)⟩

lemma children_of_one :
    (m.LeftChild n = 0 ∧ m.RightChild n = 0 ↔ c.addr = 0) ∧
      (if m.LeftChild n ≠ 0 then m.LeftChild n else m.RightChild n) = c.addr := by
  obtain ⟨-, ⟨-, -, hnl, hnr, -⟩, -⟩ := tree_plug.mp h
  rcases hc with ⟨rfl, rfl⟩ | ⟨rfl, rfl⟩ <;> simp +contextual [hnl, hnr]

end

lemma replace_cons (f : Frame Nat) : ∃ l r, plug (f :: path) c = plug path (node l f.addr r) ∧
    replace c (f :: path) = splay l f.addr r path := by
  cases f with
  | left p pr => exact ⟨c, pr, rfl, rfl⟩
  | right pl p => exact ⟨pl, c, rfl, rfl⟩

lemma length_vacate (l r : SplayTree Nat) (path : List (Frame Nat)) :
    (vacate l r path).1.length ≤ (l.toList ++ r.toList ++ around path).length := by
  have hl := congrArg length (toList_detach l r path)
  rw [detach, plug_perm.length_eq] at hl
  have hp := @length_le_around (vacate l r path).1
  simp only [length_append, around] at hl hp ⊢
  omega

section

variable (h : Tree m (plug path (node l n r))) (hsz : (plug path (node l n r)).toList.length < loopBound)

include h hsz

/-- `RtlDelete` does what `remove` does with the tree, and gives its root. -/
lemma rtlDelete_spec :
    ∃ m', rtlDelete m n = some (m', (remove l r path).addr) ∧ Tree m' (remove l r path) := by
  obtain ⟨m', sp, l', r', hsw, ht, hc, -⟩ := deleteSwap_spec h hsz
  have hln := length_vacate l r path
  rw [remove_eq_replace]
  rw [plug_perm.length_eq] at hsz
  generalize vacate l r path = place at ht hc hln
  obtain ⟨path', c⟩ := place
  have hc' : l' = nil ∧ r' = c ∨ l' = c ∧ r' = nil := hc
  obtain ⟨hl, hch⟩ := children_of_one ht hc'
  have hu := unhook_spec ht hc'
  rw [rtlDelete, hsw, do_some]
  dsimp only
  rw [hch]
  cases path' with
  | nil =>
    have hr : rtlIsRoot m' n := (rtlIsRoot_iff ht).mpr rfl
    refine ⟨_, ?_, hu⟩
    by_cases h0 : c.addr = 0 <;> simp [hl, hr, h0, replace, reparent, setChild]
  | cons f path' =>
    obtain ⟨hr, hp, -⟩ := ht.parent
    obtain ⟨tl, tr, hpl, hrp⟩ := @replace_cons c path' f
    rw [hpl] at hu
    have hb : path'.length < loopBound := by
      simp only [length_append, length_cons, toList_node] at hsz hln
      omega
    obtain ⟨m2, hs, ht2⟩ := rtlSplay_spec hu hb
    rw [hrp]
    obtain ⟨_, _, hsp, -, -⟩ := splay_root tl f.addr tr path'
    refine ⟨m2, ?_, ht2⟩
    by_cases h0 : c.addr = 0
    · simp only [h0, reparent, ne_eq, not_true_eq_false, if_false] at hs
      simp [hl, hr, h0, hp, relink_eq ht, hs, hsp]
    · simp only [h0, reparent, ne_eq, not_false_eq_true, if_true, up_cons] at hs
      simp [hl, hr, h0, hp, relink_eq ht, hs, hsp]

lemma deleteNoSplay_spec :
    ∃ m', rtlDeleteNoSplay m n (plug path (node l n r)).addr = some (m', (detach l r path).addr) ∧
      Tree m' (detach l r path) := by
  obtain ⟨m', sp, l', r', hs, ht, hc, htp⟩ := deleteSwap_spec h hsz
  rw [detach, addr_plug, addr_plug, addr_node]
  generalize vacate l r path = place at ht hc htp
  obtain ⟨path', c⟩ := place
  have hc' : l' = nil ∧ r' = c ∨ l' = c ∧ r' = nil := hc
  obtain ⟨hl, hch⟩ := children_of_one ht hc'
  have hu := unhook_spec ht hc'
  rw [rtlDeleteNoSplay, hs, do_some]
  dsimp only
  rw [hch, ← htp]
  refine ⟨_, ?_, hu⟩
  cases path' with
  | nil =>
    have hr : rtlIsRoot m' n := (rtlIsRoot_iff ht).mpr rfl
    by_cases h0 : c.addr = 0 <;> simp [hl, hr, h0, reparent, setChild]
  | cons f path' =>
    obtain ⟨hr, hp, -⟩ := ht.parent
    by_cases h0 : c.addr = 0 <;> simp [hl, hr, h0, hp, relink_eq ht, reparent]

end

/-! ## The two deletions -/

lemma Tree.length_lt {t : SplayTree Nat} (h : Tree m t) (ha : ∀ y ∈ t.toList, y < 2 ^ 32) :
    t.toList.length < loopBound := by
  have hs : (0 :: t.toList).Subperm (range (2 ^ 32)) := by
    refine subperm_of_subset (nodup_cons.mpr ⟨fun h0 => h.holds.ne_zero h0 rfl, h.nodup⟩) fun y hy => ?_
    rw [mem_range]
    rcases mem_cons.mp hy with rfl | hy
    · exact Nat.two_pow_pos 32
    · exact ha y hy
  have hl := hs.length_le
  rw [length_range, length_cons] at hl
  exact hl

lemma erase_plug (h : (plug path (node l n r)).toList.Nodup) :
    (plug path (node l n r)).toList.erase n = before path ++ (l.toList ++ r.toList ++ after path) := by
  rw [toList_plug, toList_node] at h ⊢
  have hb : n ∉ before path := fun hn => (nodup_append.mp h).2.2 n hn n (by simp) rfl
  have hl : n ∉ l.toList := by
    have hr := (nodup_append.mp h).2.1
    rw [append_assoc] at hr
    exact fun hn => (nodup_append.mp hr).2.2 n hn n (by simp) rfl
  rw [erase_append_right _ hb, append_assoc, erase_append_right _ hl, cons_append, erase_cons_head, append_assoc]

lemma addr_of_toList_nil {t : SplayTree Nat} (h : t.toList = []) : t.addr = 0 := by
  cases t with
  | nil => rfl
  | node l x r => simp at h

/-- `RtlDelete` and `RtlDeleteNoSplay` take the node out of the tree, leave the others in order
and give the root of what is left. -/
theorem rtlDelete_agree {t : SplayTree Nat} (h : Tree m t) (haddr : ∀ y ∈ t.toList, y < 2 ^ 32)
    (hn : n ∈ t.toList) :
    ∃ m₁ t₁ m₂ t₂, rtlDelete m n = some (m₁, t₁.addr) ∧ rtlDeleteNoSplay m n t.addr = some (m₂, t₂.addr) ∧
      Tree m₁ t₁ ∧ Tree m₂ t₂ ∧ t₁.toList = t.toList.erase n ∧ t₂.toList = t.toList.erase n ∧
      (t.toList = [n] → t₁.addr = 0 ∧ t₂.addr = 0) := by
  have hs := h.length_lt haddr
  obtain ⟨path, l, r, rfl⟩ := exists_plug hn
  obtain ⟨m₁, hd, ht₁⟩ := rtlDelete_spec h hs
  obtain ⟨m₂, hd', ht₂⟩ := deleteNoSplay_spec h hs
  have hl := erase_plug h.nodup
  have hl₁ : (remove l r path).toList = (plug path (node l n r)).toList.erase n := by rw [toList_remove, hl]
  have hl₂ : (detach l r path).toList = (plug path (node l n r)).toList.erase n := by rw [toList_detach, hl]
  refine ⟨m₁, _, m₂, _, hd, hd', ht₁, ht₂, hl₁, hl₂, fun hls => ?_⟩
  rw [hls, erase_cons_head] at hl₁ hl₂
  exact ⟨addr_of_toList_nil hl₁, addr_of_toList_nil hl₂⟩

/-- The root of three nodes. -/
theorem rtlDelete_agree_root : ∃ m m₁ t₁, Tree m (node (node nil 4 nil) 8 (node nil 12 nil)) ∧
    rtlDelete m 8 = some (m₁, t₁.addr) ∧ Tree m₁ t₁ ∧ t₁.toList = [4, 12] := by
  obtain ⟨m, hm⟩ : ∃ m, Tree m (node (node nil 4 nil) 8 (node nil 12 nil)) :=
    ⟨⟨fun _ => 8, fun y => if y = 8 then 4 else 0, fun y => if y = 8 then 12 else 0⟩, by simp [Holds], by decide⟩
  obtain ⟨m₁, t₁, -, -, hd, -, ht, -, hl, -⟩ := rtlDelete_agree hm (by decide) (show 8 ∈ _ by decide)
  exact ⟨m, m₁, t₁, hm, hd, ht, hl⟩

end FreeNT.Rtl
