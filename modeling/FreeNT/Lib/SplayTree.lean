import FreeNT.Lib.Run
import Mathlib.Data.List.Basic

/-!
# Splay trees

A node of a tree is given by the path from it up to the root (`Frame`) and its two
subtrees. `splay` moves it up to the root, two steps at a time, `search` looks for a node
by a comparison, and `remove` takes a node out and splays its parent.

All of them are described by the elements in order (`toList`): those before the hole of a
path, and those after it (`toList_plug`). A comparison that cuts the elements in two
(`Cut`) leads `search` to the topmost node that is equal to it (`Topmost`,
`search_topmost`), or to the place between the two parts (`search_absent`).
-/

namespace FreeNT

open List

inductive SplayTree (α : Type*) where
  | nil
  | node (l : SplayTree α) (x : α) (r : SplayTree α)
  deriving DecidableEq, Repr

namespace SplayTree

variable {α : Type*}

def toList : SplayTree α → List α
  | nil => []
  | node l x r => l.toList ++ x :: r.toList

/-- A step of a path upwards: the node is the left child, or the right child, of `x`. -/
inductive Frame (α : Type*) where
  | left (x : α) (r : SplayTree α)
  | right (l : SplayTree α) (x : α)

/-- The tree with `t` at the end of the path. -/
def plug : List (Frame α) → SplayTree α → SplayTree α
  | [], t => t
  | .left x r :: path, t => plug path (node t x r)
  | .right l x :: path, t => plug path (node l x t)

/-- The elements before the hole of a path. -/
def before : List (Frame α) → List α
  | [] => []
  | .left _ _ :: path => before path
  | .right l x :: path => before path ++ (l.toList ++ [x])

/-- The elements after the hole of a path. -/
def after : List (Frame α) → List α
  | [] => []
  | .left x r :: path => x :: r.toList ++ after path
  | .right _ _ :: path => after path

/-- The tree after the node of `l`, `x` and `r` is moved to the root. -/
def splay (l : SplayTree α) (x : α) (r : SplayTree α) : List (Frame α) → SplayTree α
  | [] => node l x r
  | [.left p pr] => node l x (node r p pr)
  | [.right pl p] => node (node pl p l) x r
  | .left p pr :: .left g gr :: path => splay l x (node r p (node pr g gr)) path
  | .left p pr :: .right gl g :: path => splay (node gl g l) x (node r p pr) path
  | .right pl p :: .right gl g :: path => splay (node (node gl g pl) p l) x r path
  | .right pl p :: .left g gr :: path => splay (node pl p l) x (node r g gr) path

/-- Where a search ends: at a node, or at an empty place. -/
inductive Place (α : Type*) where
  | found (path : List (Frame α)) (l : SplayTree α) (x : α) (r : SplayTree α)
  | absent (path : List (Frame α))

/-- The search for a node that compares equal, below `path`. -/
def search (cmp : α → Ordering) : SplayTree α → List (Frame α) → Place α
  | nil, path => .absent path
  | node l x r, path =>
    match cmp x with
    | .lt => search cmp l (.left x r :: path)
    | .gt => search cmp r (.right l x :: path)
    | .eq => .found path l x r

/-- The node of an element with `p`, below `path`. -/
def locate (p : α → Bool) : SplayTree α → List (Frame α) → Option (List (Frame α) × SplayTree α × α × SplayTree α)
  | nil, _ => none
  | node l x r, path =>
    if p x then some (path, l, x, r) else (locate p l (.left x r :: path)).or (locate p r (.right l x :: path))

/-- The last node of a tree: the nodes it is to the right of, its left subtree, and its element. -/
def rightmost (l : SplayTree α) (x : α) :
    SplayTree α → List (SplayTree α × α) → List (SplayTree α × α) × SplayTree α × α
  | nil, path => (path, l, x)
  | node rl y rr, path => rightmost rl y rr ((l, x) :: path)

/-- The first node of a tree: its path, its element, and its right subtree. -/
def leftmost : SplayTree α → α → SplayTree α → List (Frame α) → List (Frame α) × α × SplayTree α
  | nil, x, r, path => (path, x, r)
  | node ll y lr, x, r, path => leftmost ll y lr (.left x r :: path)

/-- The node after one with the right subtree given: the first one there, or the lowest above it on
the right of its path. -/
def next : SplayTree α → List (Frame α) → Option α
  | node l x r, _ => some (leftmost l x r []).2.1
  | nil, [] => none
  | nil, .left x _ :: _ => some x
  | nil, .right _ _ :: path => next nil path

/-- The tree with `c` in the place of a node, after its parent is moved to the root. -/
def replace (c : SplayTree α) : List (Frame α) → SplayTree α
  | [] => c
  | .left p pr :: path => splay c p pr path
  | .right pl p :: path => splay pl p c path

/-- The tree without a node that has two children, after the node before it has taken its
place, and the parent of the place left is moved to the root. -/
def exchange (ll : SplayTree α) (y : α) (lr r : SplayTree α) (path : List (Frame α)) : SplayTree α :=
  match rightmost ll y lr [] with
  | ([], sl, s) => splay sl s r path
  | ((pl, p) :: inner, sl, s) => splay pl p sl (inner.map (fun f => .right f.1 f.2) ++ .left s r :: path)

/-- The tree without a node, given by its subtrees and its path. -/
def remove : SplayTree α → SplayTree α → List (Frame α) → SplayTree α
  | nil, r, path => replace r path
  | node ll y lr, nil, path => replace (node ll y lr) path
  | node ll y lr, node rl z rr, path => exchange ll y lr (node rl z rr) path

/-- The place that a node leaves empty when it is taken out, after the node before it has taken
its own place if it has two children: the path to it, and the subtree that goes there. -/
def vacate : SplayTree α → SplayTree α → List (Frame α) → List (Frame α) × SplayTree α
  | nil, r, path => (path, r)
  | node ll y lr, nil, path => (path, node ll y lr)
  | node ll y lr, node rl z rr, path =>
    match rightmost ll y lr [] with
    | (inner, sl, s) => (inner.map (fun f => .right f.1 f.2) ++ .left s (node rl z rr) :: path, sl)

/-- The tree without a node, given by its subtrees and its path; nothing is moved to the root. -/
def detach (l r : SplayTree α) (path : List (Frame α)) : SplayTree α :=
    plug (vacate l r path).1 (vacate l r path).2

/-! ## Elements in order -/

@[simp] lemma toList_nil : (nil : SplayTree α).toList = [] := rfl

@[simp] lemma toList_node (l : SplayTree α) (x : α) (r : SplayTree α) :
    (node l x r).toList = l.toList ++ x :: r.toList := rfl

lemma toList_plug (path : List (Frame α)) (t : SplayTree α) :
    (plug path t).toList = before path ++ (t.toList ++ after path) := by
  induction path generalizing t with
  | nil => simp [plug, before, after]
  | cons f path ih => cases f <;> simp [plug, before, after, ih]

lemma toList_plug_node (path : List (Frame α)) (l : SplayTree α) (x : α) (r : SplayTree α) :
    (plug path (node l x r)).toList = before path ++ l.toList ++ x :: (r.toList ++ after path) := by
  simp [toList_plug]

variable {t : SplayTree α} {x : α}

lemma exists_plug (h : x ∈ t.toList) : ∃ path l r, t = plug path (node l x r) := by
  -- below any path
  suffices ∀ path : List (Frame α), ∃ path' l r, plug path t = plug path' (node l x r) from this []
  induction t with
  | nil => cases h
  | node l y r i ir =>
    intro path
    rw [toList_node, mem_append, mem_cons] at h
    rcases h with h | rfl | h
    · exact i h (.left y r :: path)
    · exact ⟨path, l, r, rfl⟩
    · exact ir h (.right l y :: path)

section

variable (l : SplayTree α) (x : α) (r : SplayTree α) (path : List (Frame α))

lemma splay_root :
    ∃ l' r', splay l x r path = node l' x r' ∧ l'.toList = before path ++ l.toList ∧
      r'.toList = r.toList ++ after path := by
  fun_induction splay l x r path with
  | case1 l r => exact ⟨l, r, rfl, by simp [before], by simp [after]⟩
  | case2 l r p pr => exact ⟨l, node r p pr, rfl, by simp [before], by simp [after]⟩
  | case3 l r pl p => exact ⟨node pl p l, r, rfl, by simp [before], by simp [after]⟩
  | case4 l r p pr g gr path ih | case5 l r p pr gl g path ih | case6 l r pl p gl g path ih
  | case7 l r pl p g gr path ih =>
    obtain ⟨l', r', heq, hl, hr⟩ := ih
    exact ⟨l', r', heq, by simp [hl, before], by simp [hr, after]⟩

lemma toList_splay : (splay l x r path).toList = before path ++ (l.toList ++ x :: r.toList ++ after path) := by
  obtain ⟨l', r', heq, hl, hr⟩ := splay_root l x r path
  simp [heq, hl, hr]

end

lemma toList_replace (c : SplayTree α) (path : List (Frame α)) :
    (replace c path).toList = before path ++ (c.toList ++ after path) := by
  match path with
  | [] => simp [replace, before, after]
  | .left p pr :: path => simp [replace, before, after, toList_splay]
  | .right pl p :: path => simp [replace, before, after, toList_splay]

lemma before_append (path path' : List (Frame α)) : before (path ++ path') = before path' ++ before path := by
  induction path with
  | nil => simp [before]
  | cons f path ih => cases f <;> simp [before, ih]

lemma after_right (i : List (SplayTree α × α)) (path : List (Frame α)) :
    after (i.map (fun f => .right f.1 f.2) ++ path) = after path := by
  induction i with
  | nil => rfl
  | cons f i ih => exact ih

lemma toList_rightmost (l : SplayTree α) (x : α) (r : SplayTree α) (path : List (SplayTree α × α)) :
    before (((rightmost l x r path).1).map fun f => .right f.1 f.2) ++
        ((rightmost l x r path).2.1.toList ++ [(rightmost l x r path).2.2]) =
      before (path.map fun f => .right f.1 f.2) ++ (l.toList ++ x :: r.toList) := by
  induction r generalizing l x path with
  | nil => rfl
  | node rl y rr _ ih =>
    rw [rightmost, ih]
    simp [before]

variable {l : SplayTree α}

lemma toList_exchange (ll : SplayTree α) (y : α) (lr r : SplayTree α) (path : List (Frame α)) :
    (exchange ll y lr r path).toList = before path ++ (ll.toList ++ y :: lr.toList ++ r.toList ++ after path) := by
  have hl : _ = ll.toList ++ y :: lr.toList := toList_rightmost ll y lr []
  rw [exchange, ← hl]
  generalize rightmost ll y lr [] = found
  rcases found with ⟨_ | ⟨⟨pl, p⟩, inner⟩, sl, s⟩
  · simp [toList_splay, before]
  · simp [toList_splay, before_append, after_right, before, after]

section

variable (l : SplayTree α) (x : α) (r : SplayTree α) (path : List (Frame α))

lemma toList_remove : (remove l r path).toList = before path ++ (l.toList ++ r.toList ++ after path) := by
  match l, r with
  | nil, r => simp [remove, toList_replace]
  | node ll y lr, nil => simp [remove, toList_replace]
  | node ll y lr, node rl z rr => simp [remove, toList_exchange]

lemma plug_rightmost (i : List (SplayTree α × α)) :
    plug ((rightmost l x r i).1.map fun f =>
      .right f.1 f.2) (node (rightmost l x r i).2.1 (rightmost l x r i).2.2 nil) =
      plug (i.map fun f => .right f.1 f.2) (node l x r) := by
  induction r generalizing l x i with
  | nil => rfl
  | node rl y rr _ ih => exact ih rl y ((l, x) :: i)

lemma remove_eq_replace : remove l r path = replace (vacate l r path).2 (vacate l r path).1 := by
  match l, r with
  | nil, r => rfl
  | node ll y lr, nil => rfl
  | node ll y lr, node rl z rr =>
    rw [remove, exchange, vacate]
    generalize rightmost ll y lr [] = found
    rcases found with ⟨_ | ⟨⟨pl, p⟩, inner⟩, sl, s⟩ <;> rfl

lemma toList_detach : (detach l r path).toList = before path ++ (l.toList ++ r.toList ++ after path) := by
  rw [← toList_remove, remove_eq_replace, toList_replace, detach, toList_plug]

lemma plug_leftmost :
    plug (leftmost l x r path).1 (node nil (leftmost l x r path).2.1 (leftmost l x r path).2.2) =
      plug path (node l x r) := by
  induction l generalizing x r path with
  | nil => rfl
  | node ll y lr ih _ => exact ih y lr (.left x r :: path)

lemma before_leftmost : before (leftmost l x r path).1 = before path := by
  induction l generalizing x r path with
  | nil => rfl
  | node ll y lr ih _ => exact ih y lr (.left x r :: path)

lemma head_leftmost (ys : List α) :
    (l.toList ++ x :: (r.toList ++ ys)).head? = some (leftmost l x r path).2.1 := by
  induction l generalizing x r path ys with
  | nil => rfl
  | node ll y lr ih _ => simpa [leftmost] using ih y lr (.left x r :: path) (x :: (r.toList ++ ys))

lemma next_eq : next r path = (r.toList ++ after path).head? := by
  fun_induction next r path with
  | case1 path l x r => simpa using (head_leftmost l x r [] (after path)).symm
  | case2 | case3 => rfl
  | case4 _ _ path ih => exact ih

lemma splay_leftmost : ∃ l' r',
    splay nil (leftmost l x r path).2.1 (leftmost l x r path).2.2 (leftmost l x r path).1 =
        node l' (leftmost l x r path).2.1 r' ∧ l'.toList = before path ∧
      (leftmost l x r path).2.1 :: r'.toList = l.toList ++ x :: r.toList ++ after path := by
  have hp := congrArg toList (plug_leftmost l x r path)
  simp only [toList_plug, before_leftmost, append_cancel_left_eq, toList_node, toList_nil, nil_append] at hp
  obtain ⟨l', r', heq, hl, hr⟩ :=
    splay_root nil (leftmost l x r path).2.1 (leftmost l x r path).2.2 (leftmost l x r path).1
  exact ⟨l', r', heq, by simp [hl, before_leftmost], by simpa [hr] using hp⟩

end

/-! ## Searching -/

/-- The elements are first greater, then equal, and then less: those on one side of an
element that compares as less or greater compare so too. -/
def Cut (cmp : α → Ordering) (xs : List α) : Prop :=
  xs.Pairwise fun a b => (cmp a = .lt → cmp b = .lt) ∧ (cmp b = .gt → cmp a = .gt)

/-- A node with `p`, none of whose ancestors has it. -/
inductive Topmost (p : α → Prop) : SplayTree α → α → Prop
  | here {l : SplayTree α} {x : α} {r : SplayTree α} : p x → Topmost p (node l x r) x
  | left {l : SplayTree α} {x y : α} {r : SplayTree α} : ¬ p x → Topmost p l y → Topmost p (node l x r) y
  | right {l : SplayTree α} {x y : α} {r : SplayTree α} : ¬ p x → Topmost p r y → Topmost p (node l x r) y

lemma Topmost.mem {p : α → Prop} (h : Topmost p t x) : x ∈ t.toList ∧ p x := by
  induction h with
  | here hx => exact ⟨by simp, hx⟩
  | left _ _ ih => exact ⟨by simp [ih.1], ih.2⟩
  | right _ _ ih => exact ⟨by simp [ih.1], ih.2⟩

variable {c : α → Ordering}

variable {path path' : List (Frame α)}

lemma search_found {r : SplayTree α}
    (h : search c t path = .found path' l x r) : plug path' (node l x r) = plug path t ∧ c x = .eq := by
  fun_induction search c t path with
  | case1 => cases h
  | case2 l' y r' path _ ih => exact ih h
  | case3 l' y r' path _ ih => exact ih h
  | case4 l' y r' path hy =>
    cases h
    exact ⟨rfl, hy⟩

lemma locate_some {p : α → Bool} {r : SplayTree α}
    (h : locate p t path = some (path', l, x, r)) : plug path' (node l x r) = plug path t ∧ p x := by
  fun_induction locate p t path with
  | case1 => cases h
  | case2 l' y r' path hy =>
    cases h
    exact ⟨rfl, hy⟩
  | case3 l' y r' path _ i ir =>
    rcases Option.or_eq_some_iff.mp h with h | ⟨-, h⟩
    · exact i h
    · exact ir h

lemma locate_none {p : α → Bool} (h : locate p t path = none) : ∀ x ∈ t.toList, p x = false := by
  fun_induction locate p t path with
  | case1 => exact nofun
  | case2 => cases h
  | case3 l y r path hy i ir =>
    obtain ⟨hl, hr⟩ := Option.or_eq_none_iff.mp h
    intro x hx
    rw [toList_node, mem_append, mem_cons] at hx
    rcases hx with hx | rfl | hx
    · exact i hl x hx
    · exact Bool.eq_false_iff.mpr hy
    · exact ir hr x hx

lemma search_absent_plug (h : search c t path = .absent path') : plug path' nil = plug path t := by
  fun_induction search c t path with
  | case1 =>
    cases h
    rfl
  | case2 l' y r' path _ ih => exact ih h
  | case3 l' y r' path _ ih => exact ih h
  | case4 => cases h

/-- The place where a search ends lies between the elements that are less and those that are greater. -/
lemma search_absent (hc : Cut c t.toList)
    (h : search c t path = .absent path') : ∃ xs ys, t.toList = xs ++ ys ∧ before path' = before path ++ xs ∧
      after path' = ys ++ after path ∧ (∀ y ∈ xs, c y = .gt) ∧ ∀ y ∈ ys, c y = .lt := by
  fun_induction search c t path with
  | case1 =>
    cases h
    exact ⟨[], [], by simp⟩
  | case2 l x r path hx ih =>
    obtain ⟨hl, hxr, hlr⟩ := pairwise_append.mp hc
    obtain ⟨xs, ys, hls, hb, ha, hgt, hlt⟩ := ih hl h
    refine ⟨xs, ys ++ x :: r.toList, by simp [hls], hb, by simp [ha, after], hgt, fun y hy => ?_⟩
    simp only [mem_append, mem_cons] at hy
    rcases hy with hy | rfl | hy
    · exact hlt y hy
    · exact hx
    · exact ((pairwise_cons.mp hxr).1 y hy).1 hx
  | case3 l x r path hx ih =>
    obtain ⟨hl, hxr, hlr⟩ := pairwise_append.mp hc
    obtain ⟨xs, ys, hls, hb, ha, hgt, hlt⟩ := ih (pairwise_cons.mp hxr).2 h
    refine ⟨l.toList ++ x :: xs, ys, by simp [hls], by simp [hb, before], ha, fun y hy => ?_, hlt⟩
    simp only [mem_append, mem_cons] at hy
    rcases hy with hy | rfl | hy
    · exact (hlr y hy x mem_cons_self).2 hx
    · exact hx
    · exact hgt y hy
  | case4 => cases h

/-- A search finds the topmost node that compares equal. -/
lemma search_topmost {t : SplayTree α} {path : List (Frame α)} (hc : Cut c t.toList) {x : α} :
    Topmost (c · = .eq) t x ↔ ∃ path' l r, search c t path = .found path' l x r := by
  fun_induction search c t path with
  | case1 => exact ⟨nofun, nofun⟩
  | case2 l y r path hy ih =>
    obtain ⟨hl, hyr, -⟩ := pairwise_append.mp hc
    rw [← ih hl]
    refine ⟨fun h => ?_, .left (by simp [hy])⟩
    cases h with
    | here hx => simp [hy] at hx
    | left _ h => exact h
    | right _ h => exact absurd h.mem.2 (by simp [((pairwise_cons.mp hyr).1 x h.mem.1).1 hy])
  | case3 l y r path hy ih =>
    obtain ⟨-, hyr, hlr⟩ := pairwise_append.mp hc
    rw [← ih (pairwise_cons.mp hyr).2]
    refine ⟨fun h => ?_, .right (by simp [hy])⟩
    cases h with
    | here hx => simp [hy] at hx
    | left _ h => exact absurd h.mem.2 (by simp [(hlr x h.mem.1 y mem_cons_self).2 hy])
    | right _ h => exact h
  | case4 l y r path hy =>
    refine ⟨fun h => ?_, ?_⟩
    · cases h with
      | here => exact ⟨path, l, r, rfl⟩
      | left hne => exact absurd hy hne
      | right hne => exact absurd hy hne
    rintro ⟨_, _, _, h⟩
    cases h
    exact .here hy

/-! ## Other elements in the same places -/

variable {α β : Type*} {f : α → β}

def map (f : α → β) : SplayTree α → SplayTree β
  | nil => nil
  | node l x r => node (l.map f) (f x) (r.map f)

def Frame.map (f : α → β) : Frame α → Frame β
  | .left x r => .left (f x) (r.map f)
  | .right l x => .right (l.map f) (f x)

def Place.map (f : α → β) : Place α → Place β
  | .found path l x r => .found (path.map (Frame.map f)) (l.map f) (f x) (r.map f)
  | .absent path => .absent (path.map (Frame.map f))

@[simp] lemma toList_map (t : SplayTree α) : (t.map f).toList = t.toList.map f := by
  induction t with
  | nil => rfl
  | node l x r ihl ihr => simp [map, ihl, ihr]

lemma map_plug (path : List (Frame α)) (t : SplayTree α) :
    (plug path t).map f = plug (path.map (Frame.map f)) (t.map f) := by
  induction path generalizing t with
  | nil => rfl
  | cons s path ih => cases s <;> exact ih _

lemma map_congr {g : α → β} {t : SplayTree α} (h : ∀ x ∈ t.toList, f x = g x) : t.map f = t.map g := by
  induction t with
  | nil => rfl
  | node l x r ihl ihr =>
    simp only [toList_node, mem_append, mem_cons] at h
    rw [map, map, ihl fun y hy => h y (.inl hy), ihr fun y hy => h y (.inr (.inr hy)), h x (.inr (.inl rfl))]

lemma before_map (path : List (Frame α)) : before (path.map (Frame.map f)) = (before path).map f := by
  induction path with
  | nil => rfl
  | cons s path ih => cases s <;> simp [before, Frame.map, ih]

lemma map_splay (l : SplayTree α) (x : α) (r : SplayTree α) (path : List (Frame α)) :
    (splay l x r path).map f = splay (l.map f) (f x) (r.map f) (path.map (Frame.map f)) := by
  fun_induction splay l x r path <;> simp_all [splay, map, Frame.map]

lemma map_search {c : α → Ordering} {c' : β → Ordering} {t : SplayTree α} (path : List (Frame α))
    (h : ∀ x ∈ t.toList, c' (f x) = c x) :
      search c' (t.map f) (path.map (Frame.map f)) = (search c t path).map f := by
  induction t generalizing path with
  | nil => rfl
  | node l x r ihl ihr =>
    simp only [toList_node, mem_append, mem_cons] at h
    rw [map, search, search, h x (.inr (.inl rfl))]
    cases c x with
    | lt => exact ihl (.left x r :: path) fun y hy => h y (.inl hy)
    | gt => exact ihr (.right l x :: path) fun y hy => h y (.inr (.inr hy))
    | eq => rfl

lemma map_rightmost (l : SplayTree α) (x : α) (r : SplayTree α) (path : List (SplayTree α × α)) :
    rightmost (l.map f) (f x) (r.map f) (path.map fun s => (s.1.map f, f s.2)) =
      ((rightmost l x r path).1.map fun s => (s.1.map f, f s.2), (rightmost l x r path).2.1.map f,
        f (rightmost l x r path).2.2) := by
  induction r generalizing l x path with
  | nil => rfl
  | node rl y rr _ ih => exact ih rl y ((l, x) :: path)

lemma map_remove (l r : SplayTree α) (path : List (Frame α)) :
    (remove l r path).map f = remove (l.map f) (r.map f) (path.map (Frame.map f)) := by
  have hrep (c : SplayTree α) : (replace c path).map f = replace (c.map f) (path.map (Frame.map f)) := by
    cases path with
    | nil => rfl
    | cons s path => cases s <;> exact map_splay ..
  cases l with
  | nil => exact hrep r
  | node ll y lr =>
    cases r with
    | nil => exact hrep _
    | node rl z rr =>
      have hm := @map_rightmost _ _ f ll y lr []
      simp only [remove, map, exchange]
      rw [map_nil] at hm
      rw [hm]
      rcases rightmost ll y lr [] with ⟨_ | ⟨⟨pl, p⟩, inner⟩, sl, s⟩
      · exact map_splay ..
      · simp [map_splay, Frame.map, map, Function.comp_def]

end SplayTree

end FreeNT
