import Mathlib.Tactic.Ring
import FreeNT.Lib.Links

/-!
# Splay trees of linked nodes (`lib/rtl/splaytree.c`)

The routines read and write the links of nodes. A loop that does not end within `loopBound`
turns gives `none`.

`rtlSplay_spec`: on the links of a tree `RtlSplay` does what `splay` does with the tree.
`realSuccessor_spec`: the next node in order.
-/

namespace FreeNT.Rtl

open List hiding after

open SplayTree

def rtlIsRoot (m : Links) (n : Nat) : Bool := m.Parent n == n

def rtlIsLeftChild (m : Links) (n : Nat) : Bool := m.LeftChild (m.Parent n) == n

def rtlIsRightChild (m : Links) (n : Nat) : Bool := m.RightChild (m.Parent n) == n

def rtlInsertAsLeftChild (m : Links) (parent child : Nat) : Links :=
    (m.setLeftChild parent child).setParent child parent

def rtlInsertAsRightChild (m : Links) (parent child : Nat) : Links :=
    (m.setRightChild parent child).setParent child parent

def rtlInitializeSplayLinks (m : Links) (n : Nat) : Links := ((m.setParent n n).setLeftChild n 0).setRightChild n 0

/-- More turns than there are addresses. -/
def loopBound : Nat := 2 ^ 32

/-- The parent of a child is set, if there is a child. -/
def reparent (m : Links) (child parent : Nat) : Links := if child ≠ 0 then m.setParent child parent else m

/-- `N` takes the place of `G` below the parent of `G`, or as the root. -/
def takePlace (m : Links) (n g : Nat) : Links :=
  if rtlIsRoot m g then m.setParent n n
  else
    let m := m.setParent n (m.Parent g)
    if rtlIsLeftChild m g then m.setLeftChild (m.Parent g) n else m.setRightChild (m.Parent g) n

/-- The turn of `RtlSplay` for a left child. -/
def splayLeft (m : Links) (n p g : Nat) : Links :=
  if rtlIsLeftChild m p then
    let m := m.setLeftChild p (m.RightChild n)
    let m := m.setLeftChild g (m.RightChild p)
    let m := reparent m (m.LeftChild p) p
    let m := reparent m (m.LeftChild g) g
    let m := takePlace m n g
    let m := (m.setRightChild n p).setParent p n
    (m.setRightChild p g).setParent g p
  else if rtlIsRightChild m p then
    let m := m.setRightChild g (m.LeftChild n)
    let m := m.setLeftChild p (m.RightChild n)
    let m := reparent m (m.RightChild g) g
    let m := reparent m (m.LeftChild p) p
    let m := takePlace m n g
    let m := (m.setLeftChild n g).setParent g n
    (m.setRightChild n p).setParent p n
  else
    let m := m.setLeftChild p (m.RightChild n)
    let m := reparent m (m.LeftChild p) p
    let m := m.setParent n n
    (m.setRightChild n p).setParent p n

/-- The turn of `RtlSplay` for a right child. -/
def splayRight (m : Links) (n p g : Nat) : Links :=
  if rtlIsRightChild m p then
    let m := m.setRightChild g (m.LeftChild p)
    let m := m.setRightChild p (m.LeftChild n)
    let m := reparent m (m.RightChild g) g
    let m := reparent m (m.RightChild p) p
    let m := takePlace m n g
    let m := (m.setLeftChild n p).setParent p n
    (m.setLeftChild p g).setParent g p
  else if rtlIsLeftChild m p then
    let m := m.setRightChild p (m.LeftChild n)
    let m := m.setLeftChild g (m.RightChild n)
    let m := reparent m (m.RightChild p) p
    let m := reparent m (m.LeftChild g) g
    let m := takePlace m n g
    let m := (m.setLeftChild n p).setParent g n
    (m.setRightChild n g).setParent p n
  else
    let m := m.setRightChild p (m.LeftChild n)
    let m := reparent m (m.RightChild p) p
    let m := m.setParent n n
    (m.setLeftChild n p).setParent p n

/-- The loop of `RtlSplay`. -/
def splayLoop : Nat → Links → Nat → Option Links
  | 0, _, _ => none
  | fuel + 1, m, n =>
    if rtlIsRoot m n then some m
    else
      let p := m.Parent n
      let g := m.Parent p
      splayLoop fuel (if rtlIsLeftChild m n then splayLeft m n p g else splayRight m n p g) n

/-- `RtlSplay`: the links after it; the root is the node. -/
def rtlSplay (m : Links) (n : Nat) : Option Links := splayLoop loopBound m n

/-- The loop of `RtlSubtreePredecessor`. -/
def rightmostLoop : Nat → Links → Nat → Option Nat
  | 0, _, _ => none
  | fuel + 1, m, child => if m.RightChild child ≠ 0 then rightmostLoop fuel m (m.RightChild child) else some child

def rtlSubtreePredecessor (m : Links) (n : Nat) : Option Nat :=
  if m.LeftChild n = 0 then some 0 else rightmostLoop loopBound m (m.LeftChild n)

/-- The first loop of `RtlRealSuccessor`. -/
def leftmostLoop : Nat → Links → Nat → Option Nat
  | 0, _, _ => none
  | fuel + 1, m, child => if m.LeftChild child ≠ 0 then leftmostLoop fuel m (m.LeftChild child) else some child

/-- The second loop of `RtlRealSuccessor`. -/
def climbLoop : Nat → Links → Nat → Option Nat
  | 0, _, _ => none
  | fuel + 1, m, child => if rtlIsRightChild m child then climbLoop fuel m (m.Parent child) else some child

/-- `RtlRealSuccessor`: the next node, or 0. -/
def rtlRealSuccessor (m : Links) (n : Nat) : Option Nat :=
  if m.RightChild n ≠ 0 then leftmostLoop loopBound m (m.RightChild n)
  else do
    let child ← climbLoop loopBound m n
    if rtlIsLeftChild m child then some (m.Parent child) else some 0

def fixupChildLinks (m : Links) (n : Nat) (root leftChild : Bool) : Links :=
  let m := if m.LeftChild n ≠ 0 then rtlInsertAsLeftChild m n (m.LeftChild n) else m
  let m := if m.RightChild n ≠ 0 then rtlInsertAsRightChild m n (m.RightChild n) else m
  if root then m
  else if leftChild then rtlInsertAsLeftChild m (m.Parent n) n
  else rtlInsertAsRightChild m (m.Parent n) n

/-- All links of `a` are those that `b` has in `m₀`. -/
def copyLinks (m m₀ : Links) (a b : Nat) : Links :=
  ((m.setParent a (m₀.Parent b)).setLeftChild a (m₀.LeftChild b)).setRightChild a (m₀.RightChild b)

/-- `SwapSplayLinks`, once the two nodes are in order. -/
def swapLinks (m : Links) (a b : Nat) : Links :=
  let rootA := rtlIsRoot m a
  let leftA := rtlIsLeftChild m a
  let leftB := rtlIsLeftChild m b
  let parentA := m.Parent a
  let parentB := m.Parent b
  let m := copyLinks (copyLinks m m b a) m a b
  let m :=
    if parentB = a then
      let m := if rootA then m
        else if leftA then rtlInsertAsLeftChild m parentA b else rtlInsertAsRightChild m parentA b
      if leftB then rtlInsertAsLeftChild m b a else rtlInsertAsRightChild m b a
    else m
  let m := fixupChildLinks m a false leftB
  let m := fixupChildLinks m b rootA leftA
  if rootA then m.setParent b b else m

def swapSplayLinks (m : Links) (a b : Nat) : Links :=
  if m.Parent a = b ∨ rtlIsRoot m b then swapLinks m b a else swapLinks m a b

/-- The predecessor of a node with two children takes its place; the predecessor, or 0. -/
def deleteSwap (m : Links) (n : Nat) : Option (Links × Nat) :=
  if m.LeftChild n ≠ 0 ∧ m.RightChild n ≠ 0 then do
    let sp ← rtlSubtreePredecessor m n
    return (swapSplayLinks m sp n, sp)
  else some (m, 0)

/-- The reference to a node from its parent is replaced. -/
def relink (m : Links) (n c : Nat) : Links :=
  if rtlIsLeftChild m n then m.setLeftChild (m.Parent n) c else m.setRightChild (m.Parent n) c

/-- `RtlDelete`: the links, and the root. -/
def rtlDelete (m : Links) (n : Nat) : Option (Links × Nat) := do
  let (m, _) ← deleteSwap m n
  if m.LeftChild n = 0 ∧ m.RightChild n = 0 then
    if rtlIsRoot m n then return (m, 0)
    else
      let p := m.Parent n
      let m ← rtlSplay (relink m n 0) p
      return (m, p)
  else
    let c := if m.LeftChild n ≠ 0 then m.LeftChild n else m.RightChild n
    if rtlIsRoot m n then return (m.setParent c c, c)
    else
      let p := m.Parent n
      let m ← rtlSplay ((relink m n c).setParent c p) p
      return (m, p)

/-- `RtlDeleteNoSplay`: the links, and the root, which was `root`. -/
def rtlDeleteNoSplay (m : Links) (n root : Nat) : Option (Links × Nat) := do
  let (m', sp) ← deleteSwap m n
  let root := if m.LeftChild n ≠ 0 ∧ m.RightChild n ≠ 0 ∧ rtlIsRoot m n then sp else root
  if m'.LeftChild n = 0 ∧ m'.RightChild n = 0 then
    if rtlIsRoot m' n then return (m', 0) else return (relink m' n 0, root)
  else
    let c := if m'.LeftChild n ≠ 0 then m'.LeftChild n else m'.RightChild n
    if rtlIsRoot m' n then return (m'.setParent c c, c)
    else return ((relink m' n c).setParent c (m'.Parent n), root)

/-! ## Splaying -/

/-- The links are those of a tree with a root that is its own parent, and the nodes are distinct. -/
structure Tree (m : Links) (t : SplayTree Nat) : Prop where
  holds : Holds m t.addr t
  nodup : t.toList.Nodup

variable {m : Links} {t l r : SplayTree Nat} {pt : List (Frame Nat)} {x p g : Nat}

variable {pr : SplayTree Nat} {c q : Nat}

lemma isLeftChild_left (hab : Above m q c (.left p pr :: pt)) (hp : m.Parent c = p) : rtlIsLeftChild m c := by
  simp [rtlIsLeftChild, hp, hab.1.2.2.1]

variable {pl : SplayTree Nat}

section

variable (hab : Above m q c (.right pl p :: pt)) (hp : m.Parent c = p)

include hab hp

lemma isLeftChild_right (hc : c ≠ 0) (hm : c ∉ pl.toList) : rtlIsLeftChild m c = false := by
  have hne : pl.addr ≠ c := fun h => hm (h ▸ addr_mem (h ▸ hc))
  simpa [rtlIsLeftChild, hp, hab.1.2.2.1] using hne

lemma isRightChild_right : rtlIsRightChild m c := by
  simp [rtlIsRightChild, hp, hab.1.2.2.2.1]

end

lemma isRightChild_left (hab : Above m q c (.left p pr :: pt)) (hp : m.Parent c = p)
    (hc : c ≠ 0) (hm : c ∉ pr.toList) : rtlIsRightChild m c = false := by
  have hne : pr.addr ≠ c := fun h => hm (h ▸ addr_mem (h ▸ hc))
  simpa [rtlIsRightChild, hp, hab.1.2.2.2.1] using hne

section

variable (hab : Above m (top g pt) g pt) (hg : m.Parent g = up (top g pt) pt) (hg0 : g ≠ 0) (hgp : g ∉ around pt)

include hab hg hg0 hgp

lemma place_cases : pt = [] ∧ rtlIsRoot m g ∨
    (∃ z zr qt, pt = .left z zr :: qt ∧ m.Parent g = z ∧ rtlIsRoot m g = false ∧ rtlIsLeftChild m g) ∨
    ∃ zl z qt, pt = .right zl z :: qt ∧ m.Parent g = z ∧ rtlIsRoot m g = false ∧ rtlIsLeftChild m g = false := by
  match pt with
  | [] => exact .inl ⟨rfl, by simpa [rtlIsRoot] using hg⟩
  | .left z zr :: pt =>
    have hp : m.Parent g = z := hg
    have hzg : z ≠ g := fun h => hgp (mem_around_left.mpr (.inl h.symm))
    exact .inr (.inl ⟨z, zr, pt, rfl, hp, by simp [rtlIsRoot, hp, hzg], isLeftChild_left hab hp⟩)
  | .right zl z :: pt =>
    have hp : m.Parent g = z := hg
    have hzg : z ≠ g := fun h => hgp (mem_around_right.mpr (.inl h.symm))
    have hm : g ∉ zl.toList := fun h => hgp (mem_around_right.mpr (.inr (.inl h)))
    exact .inr (.inr ⟨zl, z, pt, rfl, hp, by simp [rtlIsRoot, hp, hzg], isLeftChild_right hab hp hg0 hm⟩)

lemma takePlace_eq (hxg : x ≠ g) : takePlace m x g = setChild (m.setParent x (up (top x pt) pt)) pt x := by
  obtain ⟨rfl, hr⟩ | ⟨z, zr, qt, rfl, hp, hr, hl⟩ | ⟨zl, z, qt, rfl, hp, hr, hl⟩ := place_cases hab hg hg0 hgp
  · rw [takePlace, if_pos hr]
    rfl
  all_goals
    have hl' : rtlIsLeftChild (m.setParent x z) g = rtlIsLeftChild m g := by simp [rtlIsLeftChild, Ne.symm hxg]
    simp [takePlace, hr, hp, hl', hl, Ne.symm hxg, setChild]

lemma takePlace_spec (hxp : x ∉ around pt) (hxg : x ≠ g) (hnd : (around pt).Nodup) :
    Above (takePlace m x g) (top x pt) x pt ∧ (takePlace m x g).Parent x = up (top x pt) pt ∧
      (∀ y, y ≠ x → (takePlace m x g).Parent y = m.Parent y) ∧
      ∀ y, y ∉ around pt → (takePlace m x g).LeftChild y = m.LeftChild y ∧
        (takePlace m x g).RightChild y = m.RightChild y := by
  rw [takePlace_eq hab hg hg0 hgp hxg]
  have hs (y : Nat) (hy : y ∈ around pt) : Same m (m.setParent x (up (top x pt) pt)) y := by
    have hyx : y ≠ x := fun h => hxp (h ▸ hy)
    simp [Same, hyx]
  refine ⟨((above_top.mp hab).congr hs).setChild hnd, by simp, fun y hy => by simp [hy], fun y hy => ?_⟩
  exact setChild_children hy

end

lemma tree_plug : Tree m (plug pt t) ↔ Above m (top t.addr pt) t.addr pt ∧ Holds m (up (top t.addr pt) pt) t ∧
    (plug pt t).toList.Nodup := by
  rw [← addr_plug, ← and_assoc, ← holds_plug]
  exact ⟨fun h => ⟨h.holds, h.nodup⟩, fun h => ⟨h.1, h.2⟩⟩

@[simp, grind =] lemma reparent_parent (m : Links) (c q y : Nat) :
    (reparent m c q).Parent y = if c ≠ 0 ∧ y = c then q else m.Parent y := by
  rw [reparent]
  split <;> simp_all

@[simp, grind =] lemma reparent_leftChild (m : Links) (c q y : Nat) :
    (reparent m c q).LeftChild y = m.LeftChild y := by
  rw [reparent]
  split <;> rfl

@[simp, grind =] lemma reparent_rightChild (m : Links) (c q y : Nat) :
    (reparent m c q).RightChild y = m.RightChild y := by
  rw [reparent]
  split <;> rfl

variable {s₀ s₁ s₂ s₃ : SplayTree Nat} {a b : Nat}

/-- Four subtrees, three nodes between them, and a path above: all nodes have the number of their block. -/
lemma exists_owner₄ {pt : List (Frame Nat)}
    (h : (s₀.toList ++ a :: (s₁.toList ++ b :: (s₂.toList ++ c :: (s₃.toList ++ around pt)))).Nodup) :
    ∃ o : Nat → Nat, (∀ y ∈ s₀.toList, o y = 0) ∧ o a = 1 ∧ (∀ y ∈ s₁.toList, o y = 2) ∧ o b = 3 ∧
      (∀ y ∈ s₂.toList, o y = 4) ∧ o c = 5 ∧ (∀ y ∈ s₃.toList, o y = 6) ∧ ∀ y ∈ around pt, o y = 7 := by
  obtain ⟨o, ho⟩ := @exists_owner [s₀.toList, [a], s₁.toList, [b], s₂.toList, [c], s₃.toList,
    around pt] (by simpa using h)
  exact ⟨o, ho 0 _ rfl, ho 1 _ rfl a mem_cons_self, ho 2 _ rfl, ho 3 _ rfl b mem_cons_self,
    ho 4 _ rfl, ho 5 _ rfl c mem_cons_self, ho 6 _ rfl, ho 7 _ rfl⟩

lemma subtrees_moved {m' : Links} {q0 q1 q2 q3 q0' q1' q2' q3' : Nat} {pt : List (Frame Nat)}
    (hnd : (s₀.toList ++ a :: (s₁.toList ++ b :: (s₂.toList ++ c :: (s₃.toList ++ around pt)))).Nodup)
    (hw : Rewired m m' (a :: b :: c :: around pt) [s₀.addr, s₁.addr, s₂.addr, s₃.addr])
    (h0 : Holds m q0 s₀) (h1 : Holds m q1 s₁) (h2 : Holds m q2 s₂) (h3 : Holds m q3 s₃)
    (hp0 : s₀.addr ≠ 0 → m'.Parent s₀.addr = q0') (hp1 : s₁.addr ≠ 0 → m'.Parent s₁.addr = q1')
    (hp2 : s₂.addr ≠ 0 → m'.Parent s₂.addr = q2') (hp3 : s₃.addr ≠ 0 → m'.Parent s₃.addr = q3') :
    Holds m' q0' s₀ ∧ Holds m' q1' s₁ ∧ Holds m' q2' s₂ ∧ Holds m' q3' s₃ := by
  obtain ⟨o, ho0, ha, ho1, hb, ho2, hc, ho3, hpt⟩ := exists_owner₄ hnd
  simp only [nodup_append, nodup_cons] at hnd
  obtain ⟨hn0, ⟨-, hn1, ⟨-, hn2, ⟨-, hn3, -⟩, -⟩, -⟩, -⟩ := hnd
  refine ⟨hw.move h0 hn0 ?_ hp0, hw.move h1 hn1 ?_ hp1, hw.move h2 hn2 ?_ hp2,
    hw.move h3 hn3 ?_ hp3⟩ <;> grind [addr_mem]

/-- Blocks without common nodes: the path has none of the three nodes and of the roots of the
subtrees, and these differ. -/
structure Distinct (path : List (Frame Nat)) (s₀ s₁ s₂ s₃ : SplayTree Nat) (nodes : List Nat) : Prop where
  path_nodes : ∀ y ∈ around path, y ∉ nodes
  path_roots : ∀ y ∈ around path, y ≠ 0 → y ∉ [s₁.addr, s₂.addr]
  nodes_roots : ∀ y ∈ nodes, y ≠ 0 → y ∉ [s₁.addr, s₂.addr]
  root₀ : s₀.addr ≠ 0 → s₀.addr ∉ nodes ∧ s₀.addr ∉ [s₁.addr, s₂.addr]
  root₁ : s₁.addr ≠ 0 → s₁.addr ∉ nodes ∧ s₁.addr ≠ s₂.addr
  root₂ : s₂.addr ≠ 0 → s₂.addr ∉ nodes
  root₃ : s₃.addr ≠ 0 → s₃.addr ∉ nodes ∧ s₃.addr ∉ [s₁.addr, s₂.addr]
  nodup : (around path).Nodup

lemma distinct_of_nodup (h : (s₀.toList ++ a ::
    (s₁.toList ++ b :: (s₂.toList ++ c :: (s₃.toList ++ around pt)))).Nodup) :
    Distinct pt s₀ s₁ s₂ s₃ [a, b, c] := by
  obtain ⟨o, ho0, ha, ho1, hb, ho2, hc, ho3, hpt⟩ := exists_owner₄ h
  have hp : (around pt).Nodup := by
    simp only [nodup_append, nodup_cons] at h
    tauto
  clear h
  constructor <;> grind [addr_mem]

/-- A turn with a grandparent: the two subtrees in the middle are moved below new parents, `x`
takes the place of `g`, and the links of the three nodes change. -/
lemma turn_spec {m0 m2 : Links} {s₀ s₁ s₂ s₃ : SplayTree Nat} {a b c q0 q1 q2 q3 q1' q2' : Nat}
    (hnd : (s₀.toList ++ a :: (s₁.toList ++ b :: (s₂.toList ++ c :: (s₃.toList ++ around pt)))).Nodup)
    (hx : x ∈ [a, b, c]) (hg : g ∈ [a, b, c]) (hxg : x ≠ g) (hg0 : g ≠ 0)
    (hab : Above m (top g pt) g pt) (hgp : m.Parent g = up (top g pt) pt)
    (h₀ : Holds m q0 s₀) (h1 : Holds m q1 s₁) (h2 : Holds m q2 s₂) (h3 : Holds m q3 s₃)
    (hw0 : Rewired m m0 [a, b, c] []) (hp0 : m0.Parent = m.Parent)
    (hw2 : Rewired (takePlace (reparent (reparent m0 s₁.addr q1') s₂.addr q2') x g) m2 [a, b, c] [])
    (hx2 : m2.Parent x = (takePlace (reparent (reparent m0 s₁.addr q1') s₂.addr q2') x g).Parent x) :
    (Above m2 (top x pt) x pt ∧ m2.Parent x = up (top x pt) pt) ∧
      (Holds m2 q0 s₀ ∧ Holds m2 q1' s₁ ∧ Holds m2 q2' s₂ ∧ Holds m2 q3 s₃) ∧
      ∀ y ∈ [a, b, c], (takePlace (reparent (reparent m0 s₁.addr q1') s₂.addr q2')
        x g).LeftChild y = m0.LeftChild y ∧
        (takePlace (reparent (reparent m0 s₁.addr q1') s₂.addr q2') x g).RightChild y = m0.RightChild y := by
  have hd := distinct_of_nodup hnd
  generalize hm : reparent (reparent m0 s₁.addr q1') s₂.addr q2' = m1 at hw2 hx2 ⊢
  have hw1 : Rewired m m1 [a, b, c] [s₁.addr, s₂.addr] := by
    refine ⟨fun y hy => ?_, fun y h0 hy hr => ?_⟩
    · simpa [← hm] using hw0.children y hy
    · simp only [mem_cons, not_mem_nil, or_false, not_or] at hr
      simp [← hm, hr, hp0]
  have hab1 := hw1.above hab fun y hy h0 => ⟨hd.path_nodes y hy, hd.path_roots y hy h0⟩
  have hg1 : m1.Parent g = m.Parent g := by
    have hne := hd.nodes_roots g hg hg0
    simp only [mem_cons, not_mem_nil, or_false, not_or] at hne
    simp [← hm, hne, hp0]
  obtain ⟨hab', hx', hpr, hkd⟩ :=
    takePlace_spec hab1 (hg1.trans hgp) hg0 (fun h => hd.path_nodes g h hg) (fun h =>
      hd.path_nodes x h hx) hxg hd.nodup
  have hpr2 (y : Nat) (hy0 : y ≠ 0) (hy : y ∉ [a, b, c]) : m2.Parent y = m1.Parent y := by
    rw [hw2.parents y hy0 hy (by simp), hpr y fun h => hy (h ▸ hx)]
  have hk (y : Nat) (hy0 : y ≠ 0) (hy : y ∉ [a, b, c]) (hne : y ∉ [s₁.addr, s₂.addr]) :
    m2.Parent y = m.Parent y := by
    rw [hpr2 y hy0 hy, hw1.parents y hy0 hy hne]
  have hw : Rewired m m2 (a :: b :: c :: around pt) [s₀.addr, s₁.addr, s₂.addr, s₃.addr] := by
    refine ⟨fun y hy => ?_, fun y h0 hy hr => hk y h0 ?_ ?_⟩
    · simp only [mem_cons, not_or] at hy
      have hy' : y ∉ [a, b, c] := by simp [hy]
      rw [(hw2.children y hy').1, (hw2.children y hy').2, (hkd y hy.2.2.2).1, (hkd y hy.2.2.2).2]
      exact hw1.children y hy'
    · simp only [mem_cons, not_or] at hy
      simp [hy]
    · simp only [mem_cons, not_or] at hr
      simp [hr]
  refine ⟨⟨hw2.above hab' fun y hy _ => ⟨hd.path_nodes y hy, by simp⟩, hx2.trans hx'⟩,
    subtrees_moved hnd hw h₀ h1 h2 h3 (fun h => ?_) (fun h => ?_) (fun h => ?_) (fun h => ?_), fun y hy => ?_⟩
  · rw [hk _ h (hd.root₀ h).1 (hd.root₀ h).2]
    exact h₀.parent h
  · rw [hpr2 _ h (hd.root₁ h).1, ← hm]
    simp [h, (hd.root₁ h).2]
  · rw [hpr2 _ h (hd.root₂ h), ← hm]
    simp [h]
  · rw [hk _ h (hd.root₃ h).1 (hd.root₃ h).2]
    exact h3.parent h
  · have hy' := hkd y fun h => hd.path_nodes y h hy
    simpa [← hm] using hy'

lemma splayLeft_left {gr : SplayTree Nat} (h : Tree m (plug (.left p pr :: .left g gr :: pt) (node l x r))) :
    Tree (splayLeft m x p g) (plug pt (node l x (node r p (node pr g gr)))) := by
  have hnd : (plug pt (node l x (node r p (node pr g gr)))).toList.Nodup := by
    simpa [toList_plug, before, after] using h.nodup
  have hb : (l.toList ++ x :: (r.toList ++ p :: (pr.toList ++ g :: (gr.toList ++ around pt)))).Nodup := by
    simpa using plug_perm.nodup_iff.mp hnd
  have hne : x ≠ p ∧ x ≠ g ∧ p ≠ g := by
    grind
  rw [tree_plug] at h ⊢
  obtain ⟨⟨⟨hp0, hpp, hpl, hpr, hhp⟩, hup⟩, ⟨hx0, hxp, hxl, hxr, hhl, hhr⟩, -⟩ := h
  obtain ⟨⟨hg0, hgp, hgl, hgr, hh⟩, hab⟩ := id hup
  generalize hm : takePlace (reparent
    (reparent ((m.setLeftChild p r.addr).setLeftChild g pr.addr) r.addr p) pr.addr g) x g = m1
  have heq : splayLeft m x p g = (((m1.setRightChild x p).setParent p x).setRightChild p g).setParent g p := by
    have hl : rtlIsLeftChild m p := isLeftChild_left hup hpp
    simp [splayLeft, hl, hxr, hpr, hne, ← hm]
  obtain ⟨⟨hab', hx'⟩, ⟨hs0, hs1, hs2, hs3⟩, hk⟩ :=
    @turn_spec m pt x g ((m.setLeftChild p r.addr).setLeftChild g pr.addr) (splayLeft m x p g)
    _ _ _ _ _ _ _ _ _ _ _ p g hb (by simp) (by simp) hne.2.1 hg0 hab hgp hhl hhr hhp hh
    (by constructor <;> simp +contextual) rfl (by rw [hm, heq]; constructor <;> simp +contextual)
      (by rw [hm, heq]; simp [hne])
  rw [hm] at hk
  refine ⟨hab', ⟨hx0, hx', ?_, ?_, hs0, hp0, ?_, ?_, ?_, hs1, hg0, ?_, ?_, ?_, hs2, hs3⟩, hnd⟩ <;>
    simp [heq, hk, hne, hne.2.1.symm, hne.2.2.symm, hxl, hgr]

lemma splayLeft_right {gl : SplayTree Nat} (h : Tree m (plug (.left p pr :: .right gl g :: pt) (node l x r))) :
    Tree (splayLeft m x p g) (plug pt (node (node gl g l) x (node r p pr))) := by
  have hnd : (plug pt (node (node gl g l) x (node r p pr))).toList.Nodup := by
    simpa [toList_plug, before, after] using h.nodup
  have hb : (gl.toList ++ g :: (l.toList ++ x :: (r.toList ++ p :: (pr.toList ++ around pt)))).Nodup := by
    simpa using plug_perm.nodup_iff.mp hnd
  obtain ⟨hne, hme⟩ : (x ≠ p ∧ x ≠ g ∧ p ≠ g) ∧ p ∉ gl.toList := by
    grind
  rw [tree_plug] at h ⊢
  obtain ⟨⟨⟨hp0, hpp, hpl, hpr, hhp⟩, hup⟩, ⟨hx0, hxp, hxl, hxr, hhl, hhr⟩, -⟩ := h
  obtain ⟨⟨hg0, hgp, hgl, hgr, hh⟩, hab⟩ := id hup
  generalize hm : takePlace (reparent
    (reparent ((m.setRightChild g l.addr).setLeftChild p r.addr) l.addr g) r.addr p) x g = m1
  have heq : splayLeft m x p g = (((m1.setLeftChild x g).setParent g x).setRightChild x p).setParent p x := by
    have hl : rtlIsLeftChild m p = false := isLeftChild_right hup hpp hp0 hme
    have hr : rtlIsRightChild m p := isRightChild_right hup hpp
    simp [splayLeft, hl, hr, hxl, hxr, hne, ← hm]
  obtain ⟨⟨hab', hx'⟩, ⟨hs0, hs1, hs2, hs3⟩, hk⟩ :=
    @turn_spec m pt x g ((m.setRightChild g l.addr).setLeftChild p r.addr) (splayLeft m x p g)
    _ _ _ _ _ _ _ _ _ _ _ g p hb (by simp) (by simp) hne.2.1 hg0 hab hgp hh hhl hhr hhp
    (by constructor <;> simp +contextual) rfl (by rw [hm, heq]; constructor <;> simp +contextual)
      (by rw [hm, heq]; simp [hne])
  rw [hm] at hk
  refine ⟨hab', ⟨hx0, hx', ?_, ?_, ⟨hg0, ?_, ?_, ?_, hs0, hs1⟩, hp0, ?_, ?_, ?_, hs2, hs3⟩, hnd⟩ <;>
    simp [heq, hk, hne, hne.1.symm, hne.2.1.symm, hne.2.2.symm, hpr, hgl]

lemma splayRight_right {gl : SplayTree Nat} (h : Tree m (plug (.right pl p :: .right gl g :: pt) (node l x r))) :
    Tree (splayRight m x p g) (plug pt (node (node (node gl g pl) p l) x r)) := by
  have hnd : (plug pt (node (node (node gl g pl) p l) x r)).toList.Nodup := by
    simpa [toList_plug, before, after] using h.nodup
  have hb : (gl.toList ++ g :: (pl.toList ++ p :: (l.toList ++ x :: (r.toList ++ around pt)))).Nodup := by
    simpa using plug_perm.nodup_iff.mp hnd
  have hne : x ≠ p ∧ x ≠ g ∧ p ≠ g := by
    grind
  rw [tree_plug] at h ⊢
  obtain ⟨⟨⟨hp0, hpp, hpl, hpr, hhp⟩, hup⟩, ⟨hx0, hxp, hxl, hxr, hhl, hhr⟩, -⟩ := h
  obtain ⟨⟨hg0, hgp, hgl, hgr, hh⟩, hab⟩ := id hup
  generalize hm : takePlace (reparent
    (reparent ((m.setRightChild g pl.addr).setRightChild p l.addr) pl.addr g) l.addr p) x g = m1
  have heq : splayRight m x p g = (((m1.setLeftChild x p).setParent p x).setLeftChild p g).setParent g p := by
    have hr : rtlIsRightChild m p := isRightChild_right hup hpp
    simp [splayRight, hr, hxl, hpl, hne.2.2.symm, ← hm]
  obtain ⟨⟨hab', hx'⟩, ⟨hs0, hs1, hs2, hs3⟩, hk⟩ :=
    @turn_spec m pt x g ((m.setRightChild g pl.addr).setRightChild p l.addr) (splayRight m x p g)
    _ _ _ _ _ _ _ _ _ _ _ g p hb (by simp) (by simp) hne.2.1 hg0 hab hgp hh hhp hhl hhr
    (by constructor <;> simp +contextual) rfl (by rw [hm, heq]; constructor <;> simp +contextual)
      (by rw [hm, heq]; simp [hne])
  rw [hm] at hk
  refine ⟨hab', ⟨hx0, hx', ?_, ?_, ⟨hp0, ?_, ?_, ?_, ⟨hg0, ?_, ?_, ?_, hs0, hs1⟩, hs2⟩, hs3⟩, hnd⟩ <;>
    simp [heq, hk, hne, hne.2.1.symm, hne.2.2.symm, hxr, hgl]

lemma splayRight_left {gr : SplayTree Nat} (h : Tree m (plug (.right pl p :: .left g gr :: pt) (node l x r))) :
    Tree (splayRight m x p g) (plug pt (node (node pl p l) x (node r g gr))) := by
  have hnd : (plug pt (node (node pl p l) x (node r g gr))).toList.Nodup := by
    simpa [toList_plug, before, after] using h.nodup
  have hb : (pl.toList ++ p :: (l.toList ++ x :: (r.toList ++ g :: (gr.toList ++ around pt)))).Nodup := by
    simpa using plug_perm.nodup_iff.mp hnd
  obtain ⟨hne, hme⟩ : (x ≠ p ∧ x ≠ g ∧ p ≠ g) ∧ p ∉ gr.toList := by
    grind
  rw [tree_plug] at h ⊢
  obtain ⟨⟨⟨hp0, hpp, hpl, hpr, hhp⟩, hup⟩, ⟨hx0, hxp, hxl, hxr, hhl, hhr⟩, -⟩ := h
  obtain ⟨⟨hg0, hgp, hgl, hgr, hh⟩, hab⟩ := id hup
  generalize hm : takePlace (reparent
    (reparent ((m.setRightChild p l.addr).setLeftChild g r.addr) l.addr p) r.addr g) x g = m1
  have heq : splayRight m x p g = (((m1.setLeftChild x p).setParent g x).setRightChild x g).setParent p x := by
    have hr : rtlIsRightChild m p = false := isRightChild_left hup hpp hp0 hme
    have hl : rtlIsLeftChild m p := isLeftChild_left hup hpp
    simp [splayRight, hr, hl, hxl, hxr, hne, ← hm]
  obtain ⟨⟨hab', hx'⟩, ⟨hs0, hs1, hs2, hs3⟩, hk⟩ :=
    @turn_spec m pt x g ((m.setRightChild p l.addr).setLeftChild g r.addr) (splayRight m x p g)
    _ _ _ _ _ _ _ _ _ _ _ p g hb (by simp) (by simp) hne.2.1 hg0 hab hgp hhp hhl hhr hh
    (by constructor <;> simp +contextual) rfl (by rw [hm, heq]; constructor <;> simp +contextual)
      (by rw [hm, heq]; simp [hne])
  rw [hm] at hk
  refine ⟨hab', ⟨hx0, hx', ?_, ?_, ⟨hp0, ?_, ?_, ?_, hs0, hs1⟩, hg0, ?_, ?_, ?_, hs2, hs3⟩, hnd⟩ <;>
    simp [heq, hk, hne, hne.1.symm, hne.2.1.symm, hne.2.2.symm, hpl, hgr]

/-- A turn without a grandparent: the subtree in the middle is moved. -/
lemma rootTurn_spec {m' : Links} {s₀ s₁ s₂ : SplayTree Nat} {a b q0 q1 q2 q1' : Nat}
    (hnd : (s₀.toList ++ a :: (s₁.toList ++ b :: s₂.toList)).Nodup)
    (h0 : Holds m q0 s₀) (h1 : Holds m q1 s₁) (h2 : Holds m q2 s₂) (hw : Rewired m m' [a, b] [s₁.addr])
    (hp1 : s₁.addr ≠ 0 → s₁.addr ≠ a → s₁.addr ≠ b → m'.Parent s₁.addr = q1') :
    Holds m' q0 s₀ ∧ Holds m' q1' s₁ ∧ Holds m' q2 s₂ := by
  obtain ⟨o, how⟩ := @exists_owner [s₀.toList, [a], s₁.toList, [b], s₂.toList] (by simpa using hnd)
  have ho0 := how 0 _ rfl
  have ha := how 1 _ rfl a mem_cons_self
  have ho1 := how 2 _ rfl
  have hb := how 3 _ rfl b mem_cons_self
  have ho2 := how 4 _ rfl
  have hm1 := @addr_mem s₁
  have hn1 : s₁.toList.Nodup := by
    simp only [nodup_append, nodup_cons] at hnd
    tauto
  clear hnd how
  refine ⟨hw.holds h0 ?_, hw.move h1 hn1 ?_ fun h => hp1 h ?_ ?_, hw.holds h2 ?_⟩ <;> grind

lemma splayLeft_root (h : Tree m (plug [.left p pr] (node l x r))) : Tree (splayLeft m x p g)
    (node l x (node r p pr)) := by
  have hnd : (l.toList ++ x :: (r.toList ++ p :: pr.toList)).Nodup := by
    simpa [toList_plug, before, after] using h.nodup
  have hne : x ≠ p ∧ p ∉ pr.toList := by
    simp only [nodup_append, nodup_cons, mem_append, mem_cons] at hnd
    tauto
  rw [tree_plug] at h
  obtain ⟨⟨⟨hp0, hpp, hpl, hpr, hh⟩, -⟩, ⟨hx0, hxp, hxl, hxr, hhl, hhr⟩, -⟩ := h
  have heq : splayLeft m x p g =
      (((reparent (m.setLeftChild p r.addr) r.addr p).setParent x x).setRightChild x p).setParent p x := by
    have hne' : pr.addr ≠ p := fun h => hne.2 (h ▸ addr_mem (h ▸ hp0))
    simp [splayLeft, rtlIsLeftChild, rtlIsRightChild, hpp, hpl, hpr, hxr, hne, hne']
  have hsm : Rewired m (splayLeft m x p g) [x, p] [r.addr] := by
    rw [heq]
    constructor <;> simp +contextual
  obtain ⟨hs0, hs1, hs2⟩ := @rootTurn_spec m (splayLeft m x p g) l r pr x p _ _ _ p hnd hhl hhr hh hsm
    (by rw [heq]; simp +contextual)
  refine ⟨⟨hx0, ?_, ?_, ?_, hs0, hp0, ?_, ?_, ?_, hs1, hs2⟩, hnd⟩ <;> simp [heq, hne, hne.1.symm, hxl, hpr]

lemma splayRight_root (h : Tree m (plug [.right pl p] (node l x r))) :
    Tree (splayRight m x p g) (node (node pl p l) x r) := by
  have hnd : (node (node pl p l) x r).toList.Nodup := by simpa [toList_plug, before, after] using h.nodup
  have hb : (pl.toList ++ p :: (l.toList ++ x :: r.toList)).Nodup := by simpa using hnd
  have hne : x ≠ p ∧ p ∉ pl.toList := by
    grind
  rw [tree_plug] at h
  obtain ⟨⟨⟨hp0, hpp, hpl, hpr, hh⟩, -⟩, ⟨hx0, hxp, hxl, hxr, hhl, hhr⟩, -⟩ := h
  have heq : splayRight m x p g =
      (((reparent (m.setRightChild p l.addr) l.addr p).setParent x x).setLeftChild x p).setParent p x := by
    have hne' : pl.addr ≠ p := fun h => hne.2 (h ▸ addr_mem (h ▸ hp0))
    simp [splayRight, rtlIsLeftChild, rtlIsRightChild, hpp, hpl, hpr, hxl, hne, hne']
  have hsm : Rewired m (splayRight m x p g) [p, x] [l.addr] := by
    rw [heq]
    constructor <;> simp +contextual
  obtain ⟨hs0, hs1, hs2⟩ := @rootTurn_spec m (splayRight m x p g) pl l r p x _ _ _ p hb hh hhl hhr hsm
    (by rw [heq]; simp +contextual)
  refine ⟨⟨hx0, ?_, ?_, ?_, ⟨hp0, ?_, ?_, ?_, hs0, hs1⟩, hs2⟩, hnd⟩ <;> simp [heq, hne, hne.1.symm, hxr, hpl]

lemma Tree.parent {f : Frame Nat} (h : Tree m (plug (f :: pt) (node l x r))) :
    rtlIsRoot m x = false ∧ m.Parent x = f.addr ∧
      rtlIsLeftChild m x = (match f with | .left _ _ => true | .right _ _ => false) := by
  have hnd := plug_perm.nodup_iff.mp h.nodup
  have hx : x ∉ around (f :: pt) := fun hx => (nodup_append.mp hnd).2.2 x (by simp) x hx rfl
  obtain ⟨hab, ⟨hx0, hxp, -⟩, -⟩ := tree_plug.mp h
  obtain ⟨hf, -⟩ | ⟨p, pr, qt, hf, hp, hr, hl⟩ | ⟨pl, p, qt, hf, hp, hr, hl⟩ :=
    place_cases hab hxp hx0 hx <;> cases hf
  · exact ⟨hr, hp, hl⟩
  · exact ⟨hr, hp, hl⟩

variable {fuel : Nat}

lemma splayLoop_spec (h : Tree m (plug pt (node l x r))) (hf : pt.length < fuel) :
    ∃ m', splayLoop fuel m x = some m' ∧ Tree m' (splay l x r pt) := by
  induction fuel generalizing m l r pt with
  | zero => omega
  | succ fuel ih =>
    rw [splayLoop]
    cases pt with
    | nil =>
      have hp : m.Parent x = x := h.holds.2.1
      have hr : rtlIsRoot m x := by simp [rtlIsRoot, hp]
      exact ⟨m, if_pos hr, h⟩
    | cons f pt =>
      obtain ⟨hr, hp, hl⟩ := h.parent
      simp only [length_cons] at hf
      rw [hr, hp, hl]
      -- one turn, by the shape of the path, and then the others
      match f, pt with
      | .left p pr, [] => exact @ih _ _ _ [] (splayLeft_root h) (by simp; omega)
      | .right pl p, [] => exact @ih _ _ _ [] (splayRight_root h) (by simp; omega)
      | f, f' :: pt =>
        cases f <;> cases f'
        all_goals
          have hg := (tree_plug.mp h).1.1.2.1
          refine @ih _ _ _ pt ?_ (by simp at hf; omega)
        · simpa [hg] using splayLeft_left h
        · simpa [hg] using splayLeft_right h
        · simpa [hg] using splayRight_left h
        · simpa [hg] using splayRight_right h

/-- `RtlSplay` does what `splay` does with the tree. -/
lemma rtlSplay_spec (h : Tree m (plug pt (node l x r))) (hl : pt.length < loopBound) :
    ∃ m', rtlSplay m x = some m' ∧ Tree m' (splay l x r pt) := splayLoop_spec h hl

/-! ## New nodes -/

lemma graft_spec {m' : Links} {f : Frame Nat} (h : Tree m (plug (f :: pt) nil)) (ha : a ≠ 0)
    (hnw : a ∉ (plug (f :: pt) nil).toList) (hn : m'.Parent a = f.addr ∧ m'.LeftChild a = 0 ∧ m'.RightChild a = 0)
    (hs : ∀ y, y ≠ a → Same (setChild m (f :: pt) a) m' y) : Tree m' (plug (f :: pt) (node nil a nil)) := by
  obtain ⟨hab, -, hnd⟩ := tree_plug.mp h
  have hm : a ∉ around (f :: pt) := fun h => hnw (mem_plug.mpr (.inr h))
  have hnd' : (plug (f :: pt) (node nil a nil)).toList.Nodup := by
    rw [plug_perm.nodup_iff] at hnd ⊢
    exact nodup_cons.mpr ⟨hm, hnd⟩
  have hst : Above (setChild m (f :: pt) a) (top a (f :: pt)) a (f :: pt) :=
    (above_top.mp hab).setChild (plug_perm.nodup_iff.mp hnd)
  exact tree_plug.mpr ⟨hst.congr fun y hy => hs y fun h => hm (h ▸ hy),
    ⟨ha, hn.1, hn.2.1, hn.2.2, trivial, trivial⟩, hnd'⟩

lemma graft_left (h : Tree m (plug (.left p pr :: pt) nil)) (ha : a ≠ 0)
    (hn : a ∉ (plug (.left p pr :: pt) nil).toList) :
    Tree (rtlInsertAsLeftChild (rtlInitializeSplayLinks m a) p a) (plug (.left p pr :: pt) (node nil a nil)) := by
  have hpa : p ≠ a := fun h => hn (mem_plug.mpr (.inr (mem_around_left.mpr (.inl h.symm))))
  refine graft_spec h ha hn ?_ fun y hy => ?_
  · simp [rtlInsertAsLeftChild, rtlInitializeSplayLinks, hpa.symm]
  · simp [Same, rtlInsertAsLeftChild, rtlInitializeSplayLinks, setChild, hy]

lemma graft_right (h : Tree m (plug (.right pl p :: pt) nil)) (ha : a ≠ 0)
    (hn : a ∉ (plug (.right pl p :: pt) nil).toList) :
    Tree (rtlInsertAsRightChild (rtlInitializeSplayLinks m a) p a) (plug (.right pl p :: pt) (node nil a nil)) := by
  have hpa : p ≠ a := fun h => hn (mem_plug.mpr (.inr (mem_around_right.mpr (.inl h.symm))))
  refine graft_spec h ha hn ?_ fun y hy => ?_
  · simp [rtlInsertAsRightChild, rtlInitializeSplayLinks, hpa.symm]
  · simp [Same, rtlInsertAsRightChild, rtlInitializeSplayLinks, setChild, hy]

lemma tree_single (ha : a ≠ 0) : Tree (rtlInitializeSplayLinks m a) (node nil a nil) :=
  ⟨⟨ha, by simp [rtlInitializeSplayLinks], by simp [rtlInitializeSplayLinks], by simp [rtlInitializeSplayLinks], trivial, trivial⟩,
    nodup_singleton a⟩

/-! ## The next node -/

lemma leftmostLoop_spec (h : Holds m q (node l x r)) (hf : (node l x r).toList.length ≤ fuel) :
    leftmostLoop fuel m x = some ((node l x r).toList.headD 0) := by
  induction l generalizing x r q fuel with
  | nil =>
    cases fuel with
    | zero => simp at hf
    | succ fuel => simp [leftmostLoop, h.2.2.1]
  | node ll y lr ih _ =>
    obtain ⟨-, -, hl, -, hhl, -⟩ := h
    cases fuel with
    | zero => simp at hf
    | succ fuel =>
      simp only [toList_node, length_append, length_cons] at hf
      rw [leftmostLoop, hl, addr_node, if_pos hhl.1,
        ih hhl (by simp only [toList_node, length_append, length_cons]; omega)]
      cases ll <;> simp

lemma climbLoop_spec (h : Tree m (plug pt (node l x r))) (hf : pt.length < fuel) :
    ∃ cl, climbLoop fuel m x = some cl ∧ (if rtlIsLeftChild m cl then m.Parent cl else 0) = (after pt).headD 0 := by
  induction pt generalizing l x r fuel with
  | nil =>
    cases fuel with
    | zero => cases hf
    | succ fuel =>
      obtain ⟨hx0, hp, hl, hr, -⟩ := h.holds
      have hnd := h.nodup
      simp only [plug, toList_node, addr_node] at hp hl hr hnd
      have hne (t : SplayTree Nat) (ht : x ∉ t.toList) : t.addr ≠ x := fun h => ht (h ▸ addr_mem (h ▸ hx0))
      rw [nodup_middle, nodup_cons, mem_append, not_or] at hnd
      refine ⟨x, ?_, ?_⟩
      · simp [climbLoop, rtlIsRightChild, hp, hr, hne r hnd.1.2]
      · simp [rtlIsLeftChild, hp, hl, hne l hnd.1.1, after]
  | cons f pt ih =>
    cases fuel with
    | zero => cases hf
    | succ fuel =>
      obtain ⟨hab, ⟨hx0, -⟩, -⟩ := tree_plug.mp h
      obtain ⟨-, hp, hlf⟩ := h.parent
      have hnd := plug_perm.nodup_iff.mp h.nodup
      have hx : x ∉ around (f :: pt) := fun hx => (nodup_append.mp hnd).2.2 x (by simp) x hx rfl
      cases f with
      | left p pr =>
        have hrg : rtlIsRightChild m x = false :=
          isRightChild_left hab hp hx0 fun h => hx (mem_around_left.mpr (.inr (.inl h)))
        exact ⟨x, by simp [climbLoop, hrg], by simp [hlf, hp, after]⟩
      | right pl p =>
        have hrg : rtlIsRightChild m x := isRightChild_right hab hp
        rw [climbLoop, if_pos hrg, hp]
        exact ih h (Nat.lt_of_succ_lt_succ hf)

/-- `RtlRealSuccessor` gives the next node in order. -/
lemma realSuccessor_spec (h : Tree m (plug pt (node l x r)))
    (hsz : (plug pt (node l x r)).toList.length < loopBound) :
    rtlRealSuccessor m x = some ((r.toList ++ after pt).headD 0) := by
  rw [plug_perm.length_eq, toList_node, length_append, length_append, length_cons] at hsz
  obtain ⟨-, ⟨-, -, -, hr, -, hhr⟩, -⟩ := tree_plug.mp h
  cases r with
  | nil =>
    have hp := @length_le_around pt
    obtain ⟨cl, hc, hn⟩ := climbLoop_spec h (show pt.length < loopBound by omega)
    rw [toList_nil, nil_append, ← hn]
    simp only [rtlRealSuccessor, hr, addr_nil, ne_eq, not_true_eq_false, if_false, hc, do_some]
    split <;> rfl
  | node rl y rr =>
    rw [rtlRealSuccessor, hr, addr_node, if_pos hhr.1, leftmostLoop_spec hhr (by omega)]
    cases rl <;> simp

end FreeNT.Rtl
