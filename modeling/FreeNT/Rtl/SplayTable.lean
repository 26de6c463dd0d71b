import FreeNT.Lib.SearchTree
import FreeNT.Rtl.SplayDelete

/-!
# Generic tables of linked nodes (`lib/rtl/generictable.c`)

The table with the links of its nodes, as the routines read and write them. A node is
known by its address, and the pointer to its user data that the routines return is given
by it, too; NULL is 0. The routine of the owner that allocates nodes is an argument: the
address that it returns.

`Linked`: the links are those of a tree whose nodes hold a list of elements, in order. The
routine of the owner that compares elements need only cut this list: with what is looked
for it is first greater, then equal, then less. The routines are then described by the
list: `Linked.lookup`, `Linked.insert`, `Linked.delete`, `Linked.enumerate_first`. Where a
lookup has found an element, it is at the root (`At`), and its owner can change or delete it
there (`At.write`, `At.delete`).
-/

namespace FreeNT.Rtl

open List hiding after nil
open Option

open SplayTree

inductive TableSearchResult where
  | TableEmptyTree
  | TableFoundNode
  | TableInsertAsLeft
  | TableInsertAsRight
  deriving DecidableEq, Repr

structure SplayTable (α : Type) where
  SplayLinks : Links
  UserData : Nat → Option α
  TableRoot : Nat
  InsertOrderList : List Nat
  /-- The head of the list is 0. -/
  OrderedPointer : Nat
  WhichOrderedElement : Nat
  NumberGenericTableElements : Nat

namespace SplayTable

variable {α : Type}

def rtlInitializeGenericTable : SplayTable α :=
    ⟨⟨fun _ => 0, fun _ => 0, fun _ => 0⟩, fun _ => none, 0, [], 0, 0, 0⟩

/-- The loop of `RtlpFindGenericTableNodeOrParent`. -/
def findLoop (cmp : α → α → Ordering) (t : SplayTable α) (buffer : α) : Nat → Nat → Option (TableSearchResult × Nat)
  | 0, _ => none
  | fuel + 1, currentNode => do
    let data ← t.UserData currentNode
    match cmp buffer data with
    | .lt =>
      if t.SplayLinks.LeftChild currentNode ≠ 0 then findLoop cmp t buffer fuel (t.SplayLinks.LeftChild currentNode)
      else some (.TableInsertAsLeft, currentNode)
    | .gt =>
      if t.SplayLinks.RightChild currentNode ≠ 0 then findLoop cmp t buffer fuel (t.SplayLinks.RightChild currentNode)
      else some (.TableInsertAsRight, currentNode)
    | .eq => some (.TableFoundNode, currentNode)

/-- Without a root the node or parent is not set. -/
def rtlpFindGenericTableNodeOrParent (cmp : α → α → Ordering) (t : SplayTable α) (buffer : α) :
    Option (TableSearchResult × Nat) :=
  if t.TableRoot = 0 then some (.TableEmptyTree, 0) else findLoop cmp t buffer loopBound t.TableRoot

def maxUlong : Nat := 2 ^ 32 - 1

/-- A new node is initialised, put at the end of the list and below its parent, and filled. -/
def insertNode (t : SplayTable α) (buffer : α) (nodeOrParent : Nat) (result : TableSearchResult)
    (newNode : Nat) : SplayTable α :=
  let m := rtlInitializeSplayLinks t.SplayLinks newNode
  { t with
    SplayLinks := match result with
      | .TableEmptyTree => m
      | .TableInsertAsLeft => rtlInsertAsLeftChild m nodeOrParent newNode
      | _ => rtlInsertAsRightChild m nodeOrParent newNode
    TableRoot := if result = .TableEmptyTree then newNode else t.TableRoot
    InsertOrderList := t.InsertOrderList ++ [newNode]
    NumberGenericTableElements := (t.NumberGenericTableElements + 1) % 2 ^ 32
    UserData := fun y => if y = newNode then some buffer else t.UserData y }

/-- `RtlInsertElementGenericTableFull`: the table, the node, and `NewElement`. -/
def rtlInsertElementGenericTableFull (t : SplayTable α) (buffer : α) (nodeOrParent : Nat)
    (result : TableSearchResult)
    (allocated : Nat) : Option (SplayTable α × Nat × Bool) :=
  if result ≠ .TableFoundNode then
    if t.NumberGenericTableElements = maxUlong - 1 then none
    else if allocated = 0 then some (t, 0, false)
    else do
      let t := t.insertNode buffer nodeOrParent result allocated
      let m ← rtlSplay t.SplayLinks allocated
      return ({ t with SplayLinks := m, TableRoot := allocated }, allocated, true)
  else do
    let m ← rtlSplay t.SplayLinks nodeOrParent
    return ({ t with SplayLinks := m, TableRoot := nodeOrParent }, nodeOrParent, false)

def rtlInsertElementGenericTable (cmp : α → α → Ordering) (t : SplayTable α) (buffer : α) (allocated : Nat) :
    Option (SplayTable α × Nat × Bool) := do
  let (result, nodeOrParent) ← rtlpFindGenericTableNodeOrParent cmp t buffer
  rtlInsertElementGenericTableFull t buffer nodeOrParent result allocated

/-- `RtlLookupElementGenericTable`: the table, and the node, or 0. -/
def rtlLookupElementGenericTable (cmp : α → α → Ordering) (t : SplayTable α) (buffer : α) :
    Option (SplayTable α × Nat) := do
  let (result, nodeOrParent) ← rtlpFindGenericTableNodeOrParent cmp t buffer
  if result ≠ .TableFoundNode then return (t, 0)
  else
    let m ← rtlSplay t.SplayLinks nodeOrParent
    return ({ t with SplayLinks := m, TableRoot := nodeOrParent }, nodeOrParent)

/-- A node that is no longer in the tree is taken from the list, and freed, its data with it. -/
def removeNode (t : SplayTable α) (n : Nat) (m : Links) (root : Nat) : SplayTable α :=
  { t with
    SplayLinks := m
    TableRoot := root
    InsertOrderList := t.InsertOrderList.erase n
    NumberGenericTableElements := (t.NumberGenericTableElements + 2 ^ 32 - 1) % 2 ^ 32
    WhichOrderedElement := 0
    OrderedPointer := 0
    UserData := fun y => if y = n then none else t.UserData y }

/-- `RtlDeleteElementGenericTable`: the table, and whether there was an element. -/
def rtlDeleteElementGenericTable (cmp : α → α → Ordering) (t : SplayTable α) (buffer : α) :
    Option (SplayTable α × Bool) := do
  let (result, nodeOrParent) ← rtlpFindGenericTableNodeOrParent cmp t buffer
  if result ≠ .TableFoundNode then return (t, false)
  else
    let (m, root) ← rtlDelete t.SplayLinks nodeOrParent
    return (t.removeNode nodeOrParent m root, true)

/-- `RtlEnumerateGenericTable`: the table, and the first node, or the one after the root, or 0. -/
def rtlEnumerateGenericTable (t : SplayTable α) (restart : Bool) : Option (SplayTable α × Nat) :=
  if t.TableRoot = 0 then some (t, 0)
  else do
    let foundNode ← if restart then leftmostLoop loopBound t.SplayLinks t.TableRoot else rtlRealSuccessor t.SplayLinks t.TableRoot
    if foundNode = 0 then return (t, 0)
    let m ← rtlSplay t.SplayLinks foundNode
    return ({ t with SplayLinks := m, TableRoot := foundNode }, foundNode)

/-- The owner of the table writes to the data of a node. -/
def write (t : SplayTable α) (n : Nat) (y : α) : SplayTable α :=
  { t with UserData := fun a => if a = n then some y else t.UserData a }

/-- The size of a node without its user data. -/
def headerSize : Nat := 24

/-! ## Searching and inserting nodes -/

/-- A new node goes to the side of its parent that the search came to. -/
def sideOf : Frame Nat → TableSearchResult
  | .left _ _ => .TableInsertAsLeft
  | .right _ _ => .TableInsertAsRight

variable {c : α → α → Ordering} {t : SplayTable α} {b : α} {m : Links} {l r : SplayTree Nat} {pt : List (Frame Nat)}

/-- The loop finds the node that a search of the tree finds, or the parent of the place where it ends. -/
lemma findLoop_spec {q x k : Nat} (h : Holds t.SplayLinks q (node l x r))
    (hdt : ∀ y ∈ (node l x r).toList, ∃ data, t.UserData y = some data)
    (hf : (node l x r).toList.length ≤ k) (pt : List (Frame Nat)) :
    match search (compareAt c t.UserData b) (node l x r) pt with
    | .found _ _ y _ => findLoop c t b k x = some (.TableFoundNode, y)
    | .absent pt' => ∃ f rs, pt' = f :: rs ∧ findLoop c t b k x = some (sideOf f, f.addr) := by
  induction k generalizing q l x r pt with
  | zero => simp at hf
  | succ k ih =>
    obtain ⟨hx, -, hl, hr, hhl, hhr⟩ := h
    obtain ⟨data, hd⟩ := hdt x (by simp)
    have hc : compareAt c t.UserData b x = c b data := compareAt_eq hd
    simp only [toList_node, length_append, length_cons, mem_append, mem_cons] at hf hdt
    rw [search, findLoop, hd, do_some, hc]
    cases c b data with
    | lt =>
      rw [hl]
      cases l with
      | nil => exact ⟨_, _, rfl, rfl⟩
      | node ll y lr =>
        rw [addr_node, if_pos hhl.1]
        exact ih hhl (fun z hz => hdt z (.inl hz)) (by omega) _
    | gt =>
      rw [hr]
      cases r with
      | nil => exact ⟨_, _, rfl, rfl⟩
      | node rl y rr =>
        rw [addr_node, if_pos hhr.1]
        exact ih hhr (fun z hz => hdt z (.inr (.inr hz))) (by omega) _
    | eq => rfl

/-- The search of a table is the search of its tree. Where it finds nothing, a new node goes
to the place where it ended. -/
lemma find_spec {nodes : SplayTree Nat} (ht : Tree t.SplayLinks nodes) (hr : t.TableRoot = nodes.addr)
    (hd : ∀ y ∈ nodes.toList, ∃ data, t.UserData y = some data) (hs : nodes.toList.length < loopBound) :
    match search (compareAt c t.UserData b) nodes [] with
    | .found _ _ n _ => rtlpFindGenericTableNodeOrParent c t b = some (.TableFoundNode, n)
    | .absent pt => ∃ rs n, rtlpFindGenericTableNodeOrParent c t b = some (rs, n) ∧ rs ≠ .TableFoundNode ∧
      ∀ a, a ≠ 0 → a ∉ nodes.toList → Tree (t.insertNode b n rs a).SplayLinks (plug pt (node nil a nil)) := by
  cases nodes with
  | nil =>
    refine ⟨.TableEmptyTree, 0, ?_, nofun, fun a ha _ => tree_single ha⟩
    rw [rtlpFindGenericTableNodeOrParent, hr, addr_nil, if_pos rfl]
  | node l m r =>
    have hl := @findLoop_spec α c t b _ _ _ _ _ ht.holds hd (Nat.le_of_lt hs) []
    rw [rtlpFindGenericTableNodeOrParent, hr, addr_node, if_neg ht.holds.1]
    cases hsr : search (compareAt c t.UserData b) (node l m r) [] with
    | found pt l' n r' => rwa [hsr] at hl
    | absent pt =>
      rw [hsr] at hl
      obtain ⟨f, rt, rfl, hl⟩ := hl
      have hn : node l m r = plug (f :: rt) nil := (search_absent_plug hsr).symm
      rw [hn] at ht ⊢
      refine ⟨_, _, hl, by cases f <;> simp [sideOf], fun a ha hnw => ?_⟩
      cases f with
      | left p pr => exact graft_left ht ha hnw
      | right pl p => exact graft_right ht ha hnw

/-! ## The elements of a table -/

/-- The nodes of the table are linked to a tree, and hold the elements `xs`, in this order. The list
and the counter have the same nodes. -/
structure Linked (t : SplayTable α) (nodes : SplayTree Nat) (xs : List α) : Prop where
  tree : Tree t.SplayLinks nodes
  root : t.TableRoot = nodes.addr
  data : nodes.toList.map t.UserData = xs.map some
  count : t.NumberGenericTableElements = nodes.toList.length
  order : t.InsertOrderList.Perm nodes.toList
  blocks : Blocks headerSize (2 ^ 32) t.InsertOrderList

/-- The element `y` is at the root, at node `n`. -/
def At (t : SplayTable α) (n : Nat) (ys : List α) (y : α) (zs : List α) : Prop :=
  ∃ l r, Linked t (node l n r) (ys ++ y :: zs) ∧ l.toList.map t.UserData = ys.map some

lemma linked_init : Linked (rtlInitializeGenericTable : SplayTable α) nil [] :=
    ⟨⟨trivial, .nil⟩, rfl, rfl, rfl, .nil, .nil⟩

variable {nodes : SplayTree Nat} {xs ys zs : List α} {x y : α} {n a : Nat}

namespace Linked

variable (h : Linked t nodes xs)

include h

lemma length : xs.length = nodes.toList.length := by simpa using (congrArg List.length h.data).symm

lemma length_le : nodes.toList.length ≤ 2 ^ 32 / 24 := by
  rw [← h.order.length_eq]
  exact h.blocks.length_le (by decide)

lemma size : nodes.toList.length < loopBound := by
  have := h.length_le
  simp only [loopBound]
  omega

lemma fresh (hf : Fresh headerSize (2 ^ 32) t.InsertOrderList a) : a ∉ nodes.toList :=
  fun ha => hf.not_mem (by decide) (h.order.mem_iff.mpr ha)

lemma filled : ∀ a ∈ nodes.toList, ∃ x, t.UserData a = some x := by
  intro a ha
  have hm : t.UserData a ∈ xs.map some := h.data ▸ mem_map_of_mem ha
  obtain ⟨x, -, hx⟩ := mem_map.mp hm
  exact ⟨x, hx.symm⟩

lemma split {as bs : List Nat} (hl : nodes.toList = as ++ bs) :
    ∃ ys zs, xs = ys ++ zs ∧ as.map t.UserData = ys.map some ∧ bs.map t.UserData = zs.map some := by
  have hd := h.data
  rw [hl, map_append] at hd
  obtain ⟨ys, zs, hxs, hys, hzs⟩ := map_eq_append_iff.mp hd.symm
  exact ⟨ys, zs, hxs, hys.symm, hzs.symm⟩

lemma cut (hc : Cut (c x) xs) : Cut (compareAt c t.UserData x) nodes.toList := by
  have hm : (xs.map some).Pairwise fun a b : Option α => (a.elim .eq (c x) = .lt → b.elim .eq (c x) = .lt) ∧
      (b.elim .eq (c x) = .gt → a.elim .eq (c x) = .gt) := pairwise_map.mpr hc
  rw [← h.data, pairwise_map] at hm
  refine hm.imp fun {a b} hab => ?_
  have he (a : Nat) : compareAt c t.UserData x a = (t.UserData a).elim .eq (c x) := by
    rw [compareAt]
    cases t.UserData a <;> rfl
  rwa [he, he]

end Linked

namespace At

lemma userData (h : At t n ys y zs) : t.UserData n = some y := by
  obtain ⟨l, r, hln, hl⟩ := h
  have hd := hln.data
  rw [toList_node, map_append, map_append, hl] at hd
  exact (cons.inj (append_cancel_left hd)).1

lemma ne_zero (h : At t n ys y zs) : n ≠ 0 := by
  obtain ⟨l, r, hl, -⟩ := h
  exact hl.tree.holds.1

end At

lemma Linked.splayTo (h : Linked t (plug pt (node l n r)) xs) :
    ∃ m, rtlSplay t.SplayLinks n = some m ∧
      Linked { t with SplayLinks := m, TableRoot := n } (SplayTree.splay l n r pt) xs := by
  have hln : pt.length < loopBound := by
    have hsz := h.size
    have := @length_le_around pt
    rw [plug_perm.length_eq, length_append] at hsz
    omega
  obtain ⟨m, hm, ht⟩ := rtlSplay_spec h.tree hln
  obtain ⟨l', r', hr, -, -⟩ := splay_root l n r pt
  have hls : (SplayTree.splay l n r pt).toList = (plug pt (node l n r)).toList := by
    rw [toList_splay, toList_plug, toList_node]
  exact ⟨m, hm, ht, by rw [hr, addr_node], hls ▸ h.data, hls ▸ h.count, hls ▸ h.order, h.blocks⟩

lemma Linked.splay (h : Linked t (plug pt (node l n r)) (ys ++ y :: zs))
    (hl : (before pt ++ l.toList).map t.UserData = ys.map some) :
    ∃ m, rtlSplay t.SplayLinks n = some m ∧ At { t with SplayLinks := m, TableRoot := n } n ys y zs := by
  obtain ⟨m, hm, hln⟩ := h.splayTo
  obtain ⟨l', r', hr, hl', -⟩ := splay_root l n r pt
  exact ⟨m, hm, l', r', hr ▸ hln, hl' ▸ hl⟩

/-- The outcomes of a search in a table. -/
inductive Search (cmp : α → α → Ordering) (t : SplayTable α) (nodes : SplayTree Nat) (xs : List α) (x : α) :
    TableSearchResult → Nat → Prop
  | found {path : List (Frame Nat)} {l r : SplayTree Nat} {n : Nat} {ys zs : List α} {y : α} :
      nodes = plug path (node l n r) →
    xs = ys ++ y :: zs → (before path ++ l.toList).map t.UserData = ys.map some → cmp x y = .eq →
    Search cmp t nodes xs x .TableFoundNode n
  | absent {path : List (Frame Nat)} {result : TableSearchResult} {n : Nat} {ys zs : List α} :
      nodes = plug path nil →
    xs = ys ++ zs → (before path).map t.UserData = ys.map some → (∀ y ∈ ys, cmp x y = .gt) →
      (∀ z ∈ zs, cmp x z = .lt) →
    result ≠ .TableFoundNode →
    (∀ a, a ≠ 0 → a ∉ nodes.toList → Tree (t.insertNode x n result a).SplayLinks (plug path (node nil a nil))) →
    Search cmp t nodes xs x result n

lemma Linked.place (h : Linked t (plug pt nil) xs) (hc : Cut (c x) xs)
    (hf : search (compareAt c t.UserData x) (plug pt nil) [] = .absent pt) :
    ∃ ys zs, xs = ys ++ zs ∧ (before pt).map t.UserData = ys.map some ∧ (∀ y ∈ ys, c x y = .gt) ∧
      ∀ z ∈ zs, c x z = .lt := by
  obtain ⟨as, bs, hl, hb, haf, hgt, hlt⟩ := search_absent (h.cut hc) hf
  obtain ⟨ys, zs, hxs, hys, hzs⟩ := h.split hl
  have he {as : List Nat} {ys : List α} {o : Ordering} (hm : as.map t.UserData = ys.map some)
      (has : ∀ a ∈ as, compareAt c t.UserData x a = o) : ∀ y ∈ ys, c x y = o := by
    intro y hy
    have hme : some y ∈ as.map t.UserData := hm ▸ mem_map_of_mem hy
    obtain ⟨a, ha, hd⟩ := mem_map.mp hme
    exact (compareAt_eq hd).symm.trans (has a ha)
  exact ⟨ys, zs, hxs, hb ▸ hys, he hys hgt, he hzs hlt⟩

lemma Linked.find (h : Linked t nodes xs) (hc : Cut (c x) xs) :
    ∃ rs n, rtlpFindGenericTableNodeOrParent c t x = some (rs, n) ∧ Search c t nodes xs x rs n := by
  have hf := @find_spec α c t x _ h.tree h.root h.filled h.size
  cases hs : search (compareAt c t.UserData x) nodes [] with
  | found pt l n r =>
    rw [hs] at hf
    obtain ⟨hp, heq⟩ := search_found hs
    have hls : nodes.toList = (before pt ++ l.toList) ++ n :: (r.toList ++ after pt) := by
      rw [show nodes = plug pt (node l n r) from hp.symm, toList_plug, toList_node]
      simp
    obtain ⟨ys, zs, hxs, hys, hzs⟩ := h.split hls
    obtain ⟨y, zs, rfl, hy, -⟩ := map_eq_cons_iff.mp hzs.symm
    exact ⟨_, _, hf, .found hp.symm hxs hys ((compareAt_eq hy.symm).symm.trans heq)⟩
  | absent pt =>
    rw [hs] at hf
    obtain ⟨rs, n, hf, hr, ht⟩ := hf
    have hn : nodes = plug pt nil := (search_absent_plug hs).symm
    rw [hn] at h hs
    obtain ⟨ys, zs, hxs, hys, hgt, hlt⟩ := h.place hc hs
    exact ⟨rs, n, hf, .absent hn hxs hys hgt hlt hr ht⟩

lemma ne_of_place (hgt : ∀ y ∈ ys, c x y = .gt) (hlt : ∀ z ∈ zs, c x z = .lt) : ∀ y ∈ ys ++ zs, c x y ≠ .eq := by
  intro y hy
  rcases mem_append.mp hy with hy | hy
  · simp [hgt y hy]
  · simp [hlt y hy]

lemma Linked.lookup (h : Linked t nodes xs) (hc : Cut (c x) xs) :
    rtlLookupElementGenericTable c t x = some (t, 0) ∧ (∀ y ∈ xs, c x y ≠ .eq) ∨
      ∃ t' n ys y zs, rtlLookupElementGenericTable c t x = some (t', n) ∧ xs = ys ++ y :: zs ∧
        c x y = .eq ∧ At t' n ys y zs := by
  obtain ⟨rs, n, hf, hs⟩ := h.find hc
  simp only [rtlLookupElementGenericTable, hf, do_some]
  cases hs with
  | @found pt l r _ ys zs y hn hxs hys heq =>
    subst hn hxs
    obtain ⟨m, hm, hat⟩ := h.splay hys
    exact .inr ⟨_, n, ys, y, zs, by simp [hm], rfl, heq, hat⟩
  | @absent pt _ _ ys zs hn hxs hys hgt hlt hr =>
    exact .inl ⟨by rw [if_pos hr]; rfl, hxs ▸ ne_of_place hgt hlt⟩

lemma Linked.find_absent (h : Linked t nodes xs) (hc : Cut (c x) xs) (hne : ∀ y ∈ xs, c x y ≠ .eq) :
    (rtlpFindGenericTableNodeOrParent c t x).map (·.1) ≠ some .TableFoundNode := by
  obtain ⟨rs, n, hf, hs⟩ := h.find hc
  rw [hf, map_some]
  cases hs with
  | @found pt l r _ ys zs y hn hxs hys heq => exact absurd heq (hne y (by simp [hxs]))
  | absent _ _ _ _ _ hr => exact fun h => hr (some.inj h)

/-- A new node is in the tree: the list, the counter and the data agree with it. -/
lemma Linked.insertNode {rs : TableSearchResult} (h : Linked t (plug pt nil) (ys ++ zs))
    (hys : (before pt).map t.UserData = ys.map some) (hf : Fresh headerSize (2 ^ 32) t.InsertOrderList a)
    (ht : Tree (t.insertNode x n rs a).SplayLinks (plug pt (node nil a nil))) :
    Linked { t.insertNode x n rs a with TableRoot := (plug pt (node nil a nil)).addr }
      (plug pt (node nil a nil)) (ys ++ x :: zs) := by
  have hn := h.fresh hf
  have hl : (plug pt (node nil a nil)).toList = before pt ++ a :: after pt := by simp [toList_plug]
  have hnl : (plug pt nil).toList = before pt ++ after pt := by simp [toList_plug]
  have hd := h.data
  have hc := h.count
  have hle := h.length_le
  have ho := h.order
  rw [hnl] at hn hd hc hle ho
  rw [map_append, map_append, hys] at hd
  have ha := append_cancel_left hd
  have hol : ∀ b ∈ before pt ++ after pt, (t.insertNode x n rs a).UserData b = t.UserData b :=
    fun b hb => if_neg fun (h : b = a) => hn (h ▸ hb)
  have hx : (t.insertNode x n rs a).UserData a = some x := if_pos rfl
  refine ⟨ht, rfl, ?_, ?_, ?_, h.blocks.append hf⟩
  · rw [hl, map_append, map_append, map_cons, map_cons]
    rw [hx, map_congr_left fun b hb => hol b (mem_append_left _ hb),
      map_congr_left fun b hb => hol b (mem_append_right _ hb), hys, ha]
  · rw [hl]
    simp only [SplayTable.insertNode, length_append, length_cons] at hle hc ⊢
    omega
  · rw [hl]
    exact (perm_append_singleton a _).trans ((ho.cons a).trans perm_middle.symm)

/-- An element that compares equal to none is inserted at its place, and moved to the root. -/
lemma Linked.insert (h : Linked t nodes xs) (hct : Cut (c x) xs) (hne : ∀ y ∈ xs, c x y ≠ .eq)
    (hf : Fresh headerSize (2 ^ 32) t.InsertOrderList a) :
    ∃ t' ys zs, rtlInsertElementGenericTable c t x a = some (t', a, true) ∧ xs = ys ++ zs ∧
      (∀ y ∈ ys, c x y = .gt) ∧
      (∀ z ∈ zs, c x z = .lt) ∧ At t' a ys x zs := by
  obtain ⟨rs, n, hfn, hs⟩ := h.find hct
  have hc : t.NumberGenericTableElements ≠ maxUlong - 1 := by
    have := h.length_le
    have := h.count
    simp only [maxUlong]
    omega
  cases hs with
  | @found pt l r _ ys zs y hn hxs hys heq => exact absurd heq (hne y (by simp [hxs]))
  | @absent pt _ _ ys zs hn hxs hys hgt hlt hr ht =>
    subst hn hxs
    have ht := ht a hf.1 (h.fresh hf)
    have hd : (before pt ++ (nil : SplayTree Nat).toList).map (t.insertNode x n rs a).UserData = ys.map some := by
      rw [toList_nil, append_nil, ← hys]
      refine map_congr_left fun b hb => if_neg fun hba => h.fresh hf ?_
      rw [toList_plug, ← hba]
      exact mem_append_left _ hb
    obtain ⟨m, hm, hat⟩ := (h.insertNode hys hf ht).splay hd
    refine ⟨_, ys, zs, ?_, rfl, hgt, hlt, hat⟩
    rw [rtlInsertElementGenericTable, hfn, do_some]
    dsimp only
    rw [rtlInsertElementGenericTableFull, if_pos hr, if_neg hc, if_neg hf.1]
    simp only [hm, do_some]
    rfl

/-- Where there is an element that compares equal, an insertion does what a lookup does. -/
lemma Linked.insert_found (h : Linked t nodes xs) (hc : Cut (c x) xs) (hy : y ∈ xs) (heq : c x y = .eq) :
    ∃ t' n ys y zs, rtlInsertElementGenericTable c t x a = some (t', n, false) ∧
      xs = ys ++ y :: zs ∧ c x y = .eq ∧ At t' n ys y zs := by
  obtain ⟨rs, n, hf, hs⟩ := h.find hc
  cases hs with
  | @found pt l r _ ys zs y hn hxs hys heq =>
    subst hn hxs
    obtain ⟨m, hm, hat⟩ := h.splay hys
    refine ⟨_, n, ys, y, zs, ?_, rfl, heq, hat⟩
    rw [rtlInsertElementGenericTable, hf, do_some]
    dsimp only
    rw [rtlInsertElementGenericTableFull, if_neg (not_not.mpr rfl)]
    simp only [hm, do_some]
    rfl
  | @absent pt _ _ ys zs hn hxs hys hgt hlt hr =>
    rw [hxs] at hy
    exact absurd heq (ne_of_place hgt hlt y hy)

lemma Linked.removeNode {nodes' : SplayTree Nat} {as bs : List Nat} {m : Links} (h : Linked t nodes (ys ++ y :: zs))
    (hl : nodes.toList = as ++ n :: bs) (hl' : nodes'.toList = as ++ bs) (has : as.map t.UserData = ys.map some)
    (ht : Tree m nodes') : Linked (t.removeNode n m nodes'.addr) nodes' (ys ++ zs) := by
  have hnd := h.tree.nodup
  have hd := h.data
  have hc := h.count
  have hle := h.length_le
  have ho := h.order
  rw [hl] at hnd hd hc hle ho
  rw [nodup_middle, nodup_cons] at hnd
  rw [map_append, map_append, has] at hd
  have hbs := (cons.inj (append_cancel_left hd)).2
  have hol : ∀ b ∈ as ++ bs, (t.removeNode n m nodes'.addr).UserData b = t.UserData b :=
    fun b hb => if_neg fun (h : b = n) => hnd.1 (h ▸ hb)
  refine ⟨ht, rfl, ?_, ?_, ?_, h.blocks.sublist erase_sublist⟩
  · rw [hl', map_congr_left hol, map_append, map_append, has, hbs]
  · rw [hl']
    simp only [SplayTable.removeNode, length_append, length_cons] at hle hc ⊢
    omega
  · rw [hl']
    exact ((ho.trans perm_middle).erase n).trans (.of_eq (erase_cons_head _ _))

lemma Linked.deleteNode (h : Linked t (plug pt (node l n r)) (ys ++ y :: zs))
    (hl : (before pt ++ l.toList).map t.UserData = ys.map some)
    (hf : rtlpFindGenericTableNodeOrParent c t x = some (.TableFoundNode, n)) :
    ∃ m, rtlDeleteElementGenericTable c t x = some (t.removeNode n m (remove l r pt).addr, true) ∧
      Linked (t.removeNode n m (remove l r pt).addr) (remove l r pt) (ys ++ zs) := by
  obtain ⟨m, hm, ht⟩ := rtlDelete_spec h.tree h.size
  have hls : (plug pt (node l n r)).toList = (before pt ++ l.toList) ++ n :: (r.toList ++ after pt) := by
    simp [toList_plug]
  have hls' : (remove l r pt).toList = (before pt ++ l.toList) ++ (r.toList ++ after pt) := by
    simp [toList_remove]
  refine ⟨m, ?_, h.removeNode hls hls' hl ht⟩
  rw [rtlDeleteElementGenericTable, hf, do_some]
  simp [hm]

lemma Linked.delete (h : Linked t nodes xs) (hc : Cut (c x) xs) :
    rtlDeleteElementGenericTable c t x = some (t, false) ∧ (∀ y ∈ xs, c x y ≠ .eq) ∨
      ∃ t' nodes' ys y zs, rtlDeleteElementGenericTable c t x = some (t', true) ∧ xs = ys ++ y :: zs ∧ c x y = .eq ∧
        Linked t' nodes' (ys ++ zs) := by
  obtain ⟨rs, n, hf, hs⟩ := h.find hc
  cases hs with
  | @found pt l r _ ys zs y hn hxs hys heq =>
    subst hn hxs
    obtain ⟨m, hd, hl⟩ := h.deleteNode hys hf
    exact .inr ⟨_, _, ys, y, zs, hd, rfl, heq, hl⟩
  | @absent pt _ _ ys zs hn hxs hys hgt hlt hr =>
    refine .inl ⟨?_, hxs ▸ ne_of_place hgt hlt⟩
    rw [rtlDeleteElementGenericTable, hf, do_some]
    dsimp only
    rw [if_pos hr]
    rfl

lemma At.delete (h : At t n ys y zs) (heq : c y y = .eq) :
    ∃ t' nodes', rtlDeleteElementGenericTable c t y = some (t', true) ∧ Linked t' nodes' (ys ++ zs) := by
  have hy := h.userData
  obtain ⟨l, r, hln, hl⟩ := h
  suffices hf : rtlpFindGenericTableNodeOrParent c t y = some (.TableFoundNode, n) by
    obtain ⟨m, hd, hlk⟩ := @Linked.deleteNode _ _ _ l r [] _ _ _ _ _ hln hl hf
    exact ⟨_, _, hd, hlk⟩
  obtain ⟨k, hf⟩ : ∃ k, loopBound = k + 1 := ⟨2 ^ 32 - 1, by decide⟩
  rw [rtlpFindGenericTableNodeOrParent, hln.root, addr_node, if_neg hln.tree.holds.1, hf, findLoop,
    hy, do_some, heq]

lemma At.write {y' : α} (h : At t n ys y zs) : At (t.write n y') n ys y' zs := by
  obtain ⟨l, r, hln, hl⟩ := h
  have hnd := hln.tree.nodup
  have hd := hln.data
  rw [toList_node, nodup_middle, nodup_cons] at hnd
  rw [toList_node, map_append, map_append, hl] at hd
  have hr := (cons.inj (append_cancel_left hd)).2
  have ho : ∀ b ∈ l.toList ++ r.toList, (t.write n y').UserData b = t.UserData b :=
    fun b hb => if_neg fun (h : b = n) => hnd.1 (h ▸ hb)
  have hl' : l.toList.map (t.write n y').UserData = ys.map some := by
    rw [map_congr_left fun b hb => ho b (mem_append_left _ hb), hl]
  refine ⟨l, r, ⟨hln.tree, hln.root, ?_, hln.count, hln.order, hln.blocks⟩, hl'⟩
  rw [toList_node, map_append, map_append, map_cons, map_cons, hl',
    map_congr_left fun b hb => ho b (mem_append_right _ hb), hr,
      show (t.write n y').UserData n = some y' from if_pos rfl]

/-! ## Enumeration -/

lemma Linked.moveTo {as bs : List Nat} (h : Linked t nodes (ys ++ y :: zs)) (hl : nodes.toList = as ++ n :: bs)
    (has : as.length = ys.length) : ∃ m, rtlSplay t.SplayLinks n = some m ∧
      At { t with SplayLinks := m, TableRoot := n } n ys y zs := by
  obtain ⟨pt, l, r, rfl⟩ := exists_plug (show n ∈ nodes.toList by simp [hl])
  have hp : (plug pt (node l n r)).toList = (before pt ++ l.toList) ++ n :: (r.toList ++ after pt) := by
    simp [toList_plug]
  have hnd := h.tree.nodup
  have hd := h.data
  have hb : before pt ++ l.toList = as := by
    rw [hp] at hl hnd
    rw [nodup_middle, nodup_cons, mem_append, not_or] at hnd
    exact ((append_cons_inj_of_notMem hnd.1.1 hnd.1.2).mp hl).1
  rw [hl, map_append, map_append] at hd
  refine h.splay ?_
  rw [hb]
  exact append_inj_left hd (by simpa using has)

lemma Linked.enumerate_empty (h : Linked t nodes []) : rtlEnumerateGenericTable t true = some (t, 0) := by
  have hn : nodes = nil := by
    have hl := h.length
    cases nodes with
    | nil => rfl
    | node l m r => simp at hl
  subst hn
  rw [rtlEnumerateGenericTable, h.root, addr_nil, if_pos rfl]

lemma Linked.enumerate_first (h : Linked t nodes (x :: zs)) :
    ∃ t' n, rtlEnumerateGenericTable t true = some (t', n) ∧ At t' n [] x zs := by
  have hln := h.length
  cases nodes with
  | nil => simp at hln
  | node l m r =>
    obtain ⟨n, rs, hl⟩ := exists_cons_of_length_pos (Nat.lt_of_lt_of_eq (Nat.zero_lt_succ _) hln)
    have hn : n ≠ 0 := h.tree.holds.ne_zero (by simp [hl])
    obtain ⟨m', hm, hat⟩ := @Linked.moveTo _ _ _ [] _ _ _ [] _ h hl rfl
    refine ⟨_, n, ?_, hat⟩
    have hlf := leftmostLoop_spec h.tree.holds (Nat.le_of_lt h.size)
    rw [hl, headD_cons] at hlf
    rw [rtlEnumerateGenericTable, h.root, addr_node, if_neg h.tree.holds.1, if_pos rfl, hlf]
    simp [hm, hn]

namespace At

lemma root (h : At t n ys y zs) : t.TableRoot = n := by
  obtain ⟨l, r, hl, -⟩ := h
  exact hl.root

lemma successor (h : At t n ys y zs) : ∃ l r, Linked t (node l n r) (ys ++ y :: zs) ∧ l.toList.length = ys.length ∧
    r.toList.length = zs.length ∧ rtlRealSuccessor t.SplayLinks n = some (r.toList.headD 0) := by
  obtain ⟨l, r, hln, hl⟩ := h
  have hle := hln.length
  have hys : l.toList.length = ys.length := by simpa using congrArg length hl
  simp only [length_append, length_cons, toList_node] at hle
  have hn := @realSuccessor_spec t.SplayLinks l r [] n hln.tree hln.size
  rw [after, append_nil] at hn
  exact ⟨l, r, hln, hys, by omega, hn⟩

lemma enumerate_last (h : At t n ys y []) : rtlEnumerateGenericTable t false = some (t, 0) := by
  obtain ⟨l, r, -, -, hzs, hn⟩ := h.successor
  rw [eq_nil_of_length_eq_zero hzs, headD_nil] at hn
  rw [rtlEnumerateGenericTable, h.root, if_neg h.ne_zero, if_neg Bool.false_ne_true, hn]
  rfl

lemma enumerate_next {z : α} (h : At t n ys y (z :: zs)) :
    ∃ t' n', rtlEnumerateGenericTable t false = some (t', n') ∧ At t' n' (ys ++ [y]) z zs := by
  obtain ⟨l, r, hl, hys, hzs, hnx⟩ := h.successor
  obtain ⟨n', rs, hr⟩ := exists_cons_of_length_pos (Nat.lt_of_lt_of_eq (Nat.zero_lt_succ _) hzs.symm)
  rw [hr, headD_cons] at hnx
  have hn : n' ≠ 0 := hl.tree.holds.ne_zero (by simp [hr])
  rw [show ys ++ y :: z :: zs = (ys ++ [y]) ++ z :: zs by simp] at hl
  obtain ⟨m', hm, hat⟩ := hl.moveTo
    (show (node l n r).toList = (l.toList ++ [n]) ++ n' :: rs by simp [hr]) (by simp [hys])
  refine ⟨_, n', ?_, hat⟩
  rw [rtlEnumerateGenericTable, h.root, if_neg h.ne_zero, if_neg Bool.false_ne_true, hnx]
  simp [hm, hn]

end At

end SplayTable

end FreeNT.Rtl
