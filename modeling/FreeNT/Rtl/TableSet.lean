import FreeNT.Lib.Run
import FreeNT.Rtl.SplayTable

/-!
# Generic tables as sets (`lib/rtl/generictable.c`)

With a routine of the owner that compares by a total order, the elements of a table are
sorted (`Represents`). Every routine keeps that up (`insert_spec`, `delete_spec`,
`lookup_spec`), as long as the blocks that are allocated do not overlap.
`splayTable_refines`: in every run the table stands for the set of elements inserted and
not deleted.
-/

namespace FreeNT.Rtl

open SplayTree

namespace SplayTable

variable {α : Type} {cmp : α → α → Ordering} {t : SplayTable α} {nodes : SplayTree Nat} {xs : List α} {buffer : α}

/-- The links of the table are those of a search tree, and its list and counter agree with it. -/
structure Represents (cmp : α → α → Ordering) (t : SplayTable α) (nodes : SplayTree Nat) : Prop where
  tree : Tree t.SplayLinks nodes
  root : t.TableRoot = nodes.addr
  ordered : Ordered cmp t.UserData nodes.toList
  count : t.NumberGenericTableElements = nodes.toList.length
  order : t.InsertOrderList.Perm nodes.toList
  blocks : Blocks headerSize (2 ^ 32) t.InsertOrderList

lemma represents_init : Represents cmp (rtlInitializeGenericTable : SplayTable α) nil :=
  ⟨⟨trivial, .nil⟩, rfl, ⟨nofun, .nil⟩, rfl, .nil, .nil⟩

lemma Represents.linked (h : Represents cmp t nodes) :
    ∃ xs, Linked t nodes xs ∧ (xs.Pairwise fun a b => cmp a b = .lt) ∧
      contents t.UserData nodes.toList = {x | x ∈ xs} := by
  obtain ⟨hd, hs⟩ := h.ordered.values
  refine ⟨_, ⟨h.tree, h.root, hd, h.count, h.order, h.blocks⟩, hs, ?_⟩
  ext x
  simp [contents]

lemma Linked.represents (h : Linked t nodes xs) (hs : xs.Pairwise fun a b => cmp a b = .lt) :
    Represents cmp t nodes ∧ contents t.UserData nodes.toList = {x | x ∈ xs} := by
  have hd := h.data
  have hp : (nodes.toList.map t.UserData).Pairwise fun a b => ∀ x y, a = some x → b = some y → cmp x y = .lt := by
    rw [hd, List.pairwise_map]
    exact hs.imp fun hxy x y hx hy => by cases hx; cases hy; exact hxy
  refine ⟨⟨h.tree, h.root, ⟨h.filled, List.pairwise_map.mp hp⟩, h.count, h.order, h.blocks⟩, ?_⟩
  ext x
  have hm : some x ∈ nodes.toList.map t.UserData ↔ some x ∈ xs.map some := by rw [hd]
  simpa [contents] using hm

lemma lookup_spec [Std.TransCmp cmp] (h : Represents cmp t nodes) (buffer : α) :
    ∃ t' n, rtlLookupElementGenericTable cmp t buffer = some (t', n) ∧
      (∃ nodes', Represents cmp t' nodes' ∧ contents t'.UserData nodes'.toList = contents t.UserData nodes.toList) ∧
      (n = 0 ∧ (∀ y ∈ contents t.UserData nodes.toList, cmp buffer y ≠ .eq) ∨
        n ≠ 0 ∧ ∃ y ∈ contents t.UserData nodes.toList, t'.UserData n = some y ∧ cmp buffer y = .eq) := by
  obtain ⟨xs, hl, hs, hc⟩ := h.linked
  rcases hl.lookup (cut_of_sorted hs buffer) with ⟨hlk, hne⟩ | ⟨t', n, ys, y, zs, hlk, rfl, heq, hat⟩
  · exact ⟨t, 0, hlk, ⟨nodes, h, rfl⟩, .inl ⟨rfl, hc ▸ hne⟩⟩
  obtain ⟨l, r, hl', -⟩ := id hat
  obtain ⟨hr, hc'⟩ := hl'.represents hs
  refine ⟨t', n, hlk, ⟨_, hr, hc'.trans hc.symm⟩, .inr ⟨hat.ne_zero, y, ?_, hat.userData, heq⟩⟩
  rw [hc]
  exact List.mem_append_right _ List.mem_cons_self

/-- An element is inserted if none compares equal; it, or the element that does, is moved to the root. -/
lemma insert_spec [Std.TransCmp cmp] {a : Nat} (h : Represents cmp t nodes) (buffer : α)
    (hf : (rtlpFindGenericTableNodeOrParent cmp t buffer).map (·.1) ≠ some .TableFoundNode →
      Fresh headerSize (2 ^ 32) t.InsertOrderList a) :
    ∃ t' n nw nodes', rtlInsertElementGenericTable cmp t buffer a = some (t', n, nw) ∧ Represents cmp t' nodes' ∧
      contents t'.UserData nodes'.toList = insertInto cmp buffer (contents t.UserData nodes.toList) := by
  obtain ⟨xs, hl, hs, hc⟩ := h.linked
  have hct := cut_of_sorted hs buffer
  rw [hc]
  by_cases hex : ∃ y ∈ xs, cmp buffer y = .eq
  · obtain ⟨y, hy, heq⟩ := hex
    obtain ⟨t', n, ys, z, zs, hin, rfl, -, l, r, hl', -⟩ := @Linked.insert_found _ _ _ _ _ _ _ a hl hct hy heq
    obtain ⟨hr, hc'⟩ := hl'.represents hs
    refine ⟨t', n, false, _, hin, hr, hc'.trans (insertInto_of_mem (y := y) ?_ heq).symm⟩
    exact hy
  have hne : ∀ y ∈ xs, cmp buffer y ≠ .eq := fun y hy heq => hex ⟨y, hy, heq⟩
  obtain ⟨t', ys, zs, hin, rfl, hgt, hlt, l, r, hl', -⟩ := hl.insert hct hne (hf (hl.find_absent hct hne))
  obtain ⟨hr, hc'⟩ := hl'.represents (sorted_insert hs hgt hlt)
  exact ⟨t', a, true, _, hin, hr, hc'.trans (insertInto_place hne).symm⟩

lemma delete_spec [Std.TransCmp cmp] (h : Represents cmp t nodes) (buffer : α) :
    ∃ t' deleted nodes', rtlDeleteElementGenericTable cmp t buffer = some (t', deleted) ∧ Represents cmp t' nodes' ∧
      contents t'.UserData nodes'.toList = eraseFrom cmp buffer (contents t.UserData nodes.toList) := by
  obtain ⟨xs, hl, hs, hc⟩ := h.linked
  rw [hc]
  rcases hl.delete (cut_of_sorted hs buffer) with ⟨hd, hne⟩ | ⟨t', nodes', ys, y, zs, hd, rfl, heq, hl'⟩
  · exact ⟨t, false, nodes, hd, h, hc.trans (eraseFrom_of_not_mem hne).symm⟩
  · obtain ⟨hr, hc'⟩ := hl'.represents (hs.sublist ((List.sublist_cons_self y zs).append_left ys))
    exact ⟨t', true, nodes', hd, hr, hc'.trans (eraseFrom_place hs heq).symm⟩

/-! ## Runs -/

/-- A call of a routine; the address is the one that an allocation would give. -/
inductive TableOp (α : Type) where
  | insert (buffer : α) (allocated : Nat)
  | delete (buffer : α)
  | lookup (buffer : α)

def tableStep (cmp : α → α → Ordering) (t : SplayTable α) : TableOp α → Option (SplayTable α)
  | .insert buffer allocated => (rtlInsertElementGenericTable cmp t buffer allocated).map (·.1)
  | .delete buffer => (rtlDeleteElementGenericTable cmp t buffer).map (·.1)
  | .lookup buffer => (rtlLookupElementGenericTable cmp t buffer).map (·.1)

/-- The allocation of a call, if it makes one, succeeds: the node is a block of memory that no other node has. -/
def AllocationSucceeds (cmp : α → α → Ordering) (t : SplayTable α) : TableOp α → Prop
  | .insert buffer allocated => (rtlpFindGenericTableNodeOrParent cmp t buffer).map (·.1) ≠ some .TableFoundNode →
      Fresh headerSize (2 ^ 32) t.InsertOrderList allocated
  | _ => True

/-- The set that a table is to be, after a call. Elements that compare equal count as the same. -/
def elementsAfter (cmp : α → α → Ordering) (s : Set α) : TableOp α → Set α
  | .insert x _ => insertInto cmp x s
  | .delete x => eraseFrom cmp x s
  | .lookup _ => s

/-- The elements inserted and not deleted. -/
def elements (cmp : α → α → Ordering) (ops : List (TableOp α)) : Set α := ops.foldl (elementsAfter cmp) ∅

/-- The table is the set. -/
def Refines (cmp : α → α → Ordering) (t : SplayTable α) (s : Set α) : Prop :=
  ∃ nodes, Represents cmp t nodes ∧ contents t.UserData nodes.toList = s

/-- Every call succeeds, and does with the table what it is to do with the set. -/
lemma step_refines [Std.TransCmp cmp] {s : Set α} {op : TableOp α} (h : Refines cmp t s)
    (hop : AllocationSucceeds cmp t op) :
    ∃ t', tableStep cmp t op = some t' ∧ Refines cmp t' (elementsAfter cmp s op) := by
  obtain ⟨nodes, hr, rfl⟩ := h
  cases op with
  | insert buffer a =>
    obtain ⟨t', n, nw, nodes', heq, hr', hc⟩ := insert_spec hr buffer hop
    exact ⟨t', by simp [tableStep, heq], nodes', hr', hc⟩
  | delete buffer =>
    obtain ⟨t', deleted, nodes', heq, hr', hc⟩ := delete_spec hr buffer
    exact ⟨t', by simp [tableStep, heq], nodes', hr', hc⟩
  | lookup buffer =>
    obtain ⟨t', n, heq, ⟨nodes', hr', hc⟩, -⟩ := lookup_spec hr buffer
    exact ⟨t', by simp [tableStep, heq], nodes', hr', hc⟩

lemma run_refines [Std.TransCmp cmp] {t t' : SplayTable α} {s : Set α} {o : List (TableOp α)}
    (hrn : Run (tableStep cmp) (AllocationSucceeds cmp) t o t') (h : Refines cmp t s) :
    Refines cmp t' (o.foldl (elementsAfter cmp) s) := by
  induction hrn generalizing s with
  | nil => exact h
  | cons hok hs _ ih =>
    obtain ⟨t1, heq, hr⟩ := step_refines h hok
    cases heq.symm.trans hs
    exact ih hr

/-- In every run whose allocations succeed every call succeeds. The table is a search tree with
consistent links and a root that is its own parent, with the elements inserted and not deleted in
order, a lookup finds exactly those, and the counter and the list have as many as the tree. -/
theorem splayTable_refines [Std.TransCmp cmp] {ops : List (TableOp α)}
    (hrun : Run (tableStep cmp) (AllocationSucceeds cmp) rtlInitializeGenericTable ops t) :
    (∃ (nodes : SplayTree Nat) (xs : List α), Tree t.SplayLinks nodes ∧ t.TableRoot = nodes.addr ∧
      nodes.toList.map t.UserData = xs.map some ∧ xs.Pairwise (fun a b => cmp a b = .lt) ∧
        (∀ x, x ∈ xs ↔ x ∈ elements cmp ops) ∧
      t.NumberGenericTableElements = xs.length ∧ t.InsertOrderList.length = xs.length ∧
        t.InsertOrderList.Perm nodes.toList) ∧
    (∀ buffer, ∃ t' n, rtlLookupElementGenericTable cmp t buffer = some (t', n) ∧
      (n = 0 ∧ (∀ y ∈ elements cmp ops, cmp buffer y ≠ .eq) ∨
        n ≠ 0 ∧ ∃ y ∈ elements cmp ops, t'.UserData n = some y ∧ cmp buffer y = .eq)) ∧
    ∀ op, AllocationSucceeds cmp t op → ∃ t', tableStep cmp t op = some t' := by
  have hin : contents (rtlInitializeGenericTable : SplayTable α).UserData [] = ∅ := by
    ext x
    simp [contents]
  have hr : Refines cmp t (elements cmp ops) := run_refines hrun ⟨nil, represents_init, hin⟩
  refine ⟨?_, fun buffer => ?_, fun op hop => ?_⟩
  · obtain ⟨nodes, h, hc⟩ := hr
    obtain ⟨hm, hs⟩ := h.ordered.values
    have hl : (nodes.toList.filterMap t.UserData).length = nodes.toList.length := by
      simpa using (congrArg List.length hm).symm
    refine ⟨nodes, _, h.tree, h.root, hm, hs, fun x =>
      ?_, by rw [h.count, hl], by rw [h.order.length_eq, hl], h.order⟩
    rw [← hc, List.mem_filterMap]
    rfl
  · obtain ⟨nodes, h, hc⟩ := hr
    obtain ⟨t', n, heq, -, hn⟩ := lookup_spec h buffer
    rw [hc] at hn
    exact ⟨t', n, heq, hn⟩
  · obtain ⟨t', heq, -⟩ := step_refines hr hop
    exact ⟨t', heq⟩

theorem splayTable_refines_insert_delete : ∃ t : SplayTable Nat,
    Run (tableStep compare) (AllocationSucceeds compare) rtlInitializeGenericTable [.insert 5 100,
      .insert 3 200, .delete 5] t ∧
      ∃ t' n, rtlLookupElementGenericTable compare t 3 = some (t', n) ∧ n ≠ 0 := by
  refine Run.exists_and ?_ fun t hr => ?_
  · refine ⟨_, .cons ?_ rfl (.cons ?_ rfl (.cons trivial rfl (.nil _)))⟩
    · exact fun _ => by decide
    · exact fun _ => by decide
  obtain ⟨t', n, heq, hn⟩ := (splayTable_refines hr).2.1 3
  refine ⟨t', n, heq, ?_⟩
  rcases hn with ⟨-, hne⟩ | ⟨hn, -⟩
  · exact absurd rfl (hne 3 (by simp [elements, elementsAfter, insertInto, eraseFrom]))
  · exact hn

end SplayTable

end FreeNT.Rtl
