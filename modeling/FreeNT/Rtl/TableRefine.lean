import FreeNT.Rtl.GenericTable
import FreeNT.Rtl.SplayTable

/-!
# The two models of generic tables

`SplayTable` has the links of the nodes of a table as `generictable.c` reads and writes them;
`GenericTable` has the tree that they make up, and names the elements by the order of
their insertion. `Refines`: the links are those of the tree, with each element at a node of
its own, and the list, the counter and the position last asked for are the same.

Each routine on the links does what the routine on the tree does, for any routine of the
owner that compares elements, and the tables it leaves are related again:
`Refines.lookup`, `Refines.insert`, `Refines.delete`, `Refines.enumerate`. So do whole runs
(`refines_run`): what is proved about the elements of a `GenericTable` is true of the nodes.
-/

namespace FreeNT.Rtl

open List hiding after nil insert lookup
open SplayTree

variable {α : Type}

/-- The node of an element: nodes are given to elements by their number. -/
def TableEntry.node (nodeOf : Nat → Nat) (e : TableEntry α) : Nat := nodeOf e.Address

/-- The links of `t` are those of the tree of `g`. -/
structure Refines (nodeOf : Nat → Nat) (t : SplayTable α) (g : GenericTable α) : Prop where
  linked : SplayTable.Linked t (g.TableRoot.map (TableEntry.node nodeOf)) (g.entries.map (·.UserData))
  order : t.InsertOrderList = g.InsertOrderList.map (TableEntry.node nodeOf)
  ok : g.Ok
  which : t.WhichOrderedElement = g.WhichOrderedElement
  /-- The position 0 is the head of the list. -/
  pointer : (0 :: t.InsertOrderList)[g.OrderedPointer]? = some t.OrderedPointer
  old : ∀ e ∈ g.entries, e.Address < g.NextAddress

variable {ν : Nat → Nat} {t : SplayTable α} {g : GenericTable α} {c : α → α → Ordering} {x : α} {e : TableEntry α}
variable {l r : SplayTree (TableEntry α)} {path : List (Frame (TableEntry α))}

lemma refines_init : Refines ν (SplayTable.rtlInitializeGenericTable : SplayTable α) rtlInitializeGenericTable :=
  ⟨SplayTable.linked_init, rfl, GenericTable.ok_init, rfl,
    rfl, by simp [rtlInitializeGenericTable, GenericTable.entries]⟩

namespace Refines

lemma userData (h : Refines ν t g) (he : e ∈ g.entries) : t.UserData (e.node ν) = some e.UserData := by
  have hd := h.linked.data
  rw [toList_map, map_map, map_map] at hd
  exact map_inj_left.mp hd e he

/-- The search of the nodes comes to where the search of the tree does. -/
lemma search_eq (h : Refines ν t g) :
    search (SplayTree.compareAt c t.UserData x) (g.TableRoot.map (TableEntry.node ν)) [] =
      (rtlpFindGenericTableNodeOrParent c g x).map (TableEntry.node ν) :=
  map_search [] fun _ he => compareAt_eq (h.userData he)

lemma find_found (h : Refines ν t g) (hf : rtlpFindGenericTableNodeOrParent c g x = .found path l e r) :
    g.TableRoot = plug path (node l e r) ∧
      SplayTable.rtlpFindGenericTableNodeOrParent c t x = some (.TableFoundNode, e.node ν) := by
  have hs := @SplayTable.find_spec α c t x _ h.linked.tree h.linked.root h.linked.filled h.linked.size
  rw [h.search_eq, hf] at hs
  exact ⟨(search_found hf).1.symm, hs⟩

lemma find_absent (h : Refines ν t g) (hf : rtlpFindGenericTableNodeOrParent c g x = .absent path) :
    g.TableRoot = plug path nil ∧
      ∃ rs n, SplayTable.rtlpFindGenericTableNodeOrParent c t x = some (rs, n) ∧ rs ≠ .TableFoundNode ∧
        ∀ a, a ≠ 0 → a ∉ g.entries.map (TableEntry.node ν) →
          Tree (t.insertNode x n rs a).SplayLinks
            (plug (path.map (Frame.map (TableEntry.node ν))) (node nil a nil)) := by
  have hs := @SplayTable.find_spec α c t x _ h.linked.tree h.linked.root h.linked.filled h.linked.size
  rw [h.search_eq, hf, toList_map] at hs
  exact ⟨(search_absent_plug hf).symm, hs⟩

/-- Moving a node to the root. -/
lemma splay (h : Refines ν t g) (hp : g.TableRoot = plug path (node l e r)) :
    ∃ m, rtlSplay t.SplayLinks (e.node ν) = some m ∧
      Refines ν { t with SplayLinks := m, TableRoot := e.node ν }
        { g with TableRoot := SplayTree.splay l e r path } := by
  have hl := h.linked
  rw [hp, map_plug] at hl
  obtain ⟨m, hm, hls⟩ := hl.splayTo
  have hes : (SplayTree.splay l e r path).toList = g.entries := by
    rw [GenericTable.entries, hp, toList_splay, toList_plug, toList_node]
  refine ⟨m, hm, ?_, h.order, h.ok.withRoot hes, h.which, h.pointer, fun e' he' => h.old e' (hes ▸ he')⟩
  rw [GenericTable.entries, hes, map_splay]
  exact hls

lemma lookup (h : Refines ν t g) :
    ∃ t', SplayTable.rtlLookupElementGenericTable c t x =
        some (t', (rtlLookupElementGenericTable c g x).1.elim 0 (TableEntry.node ν)) ∧
      Refines ν t' (rtlLookupElementGenericTable c g x).2 := by
  rw [SplayTable.rtlLookupElementGenericTable, rtlLookupElementGenericTable]
  cases hf : rtlpFindGenericTableNodeOrParent c g x with
  | found path l e r =>
    obtain ⟨hp, hn⟩ := h.find_found hf
    obtain ⟨m, hm, hr⟩ := h.splay hp
    exact ⟨_, by simp [hn, hm], hr⟩
  | absent path =>
    obtain ⟨-, rs, n, hn, hrs, -⟩ := h.find_absent hf
    exact ⟨t, by simp [hn, hrs], h⟩

/-- Elements that are not in the table may have any nodes. -/
lemma congr {ν' : Nat → Nat} (h : Refines ν t g) (hν : ∀ k < g.NextAddress, ν' k = ν k) : Refines ν' t g := by
  have he : ∀ e ∈ g.entries, e.node ν' = e.node ν := fun e he => hν _ (h.old e he)
  refine ⟨?_, ?_, h.ok, h.which, h.pointer, h.old⟩
  · rw [SplayTree.map_congr he]
    exact h.linked
  · rw [h.order]
    exact map_congr_left fun e hm => (he e (h.ok.order.mem_iff.mp hm)).symm

/-- A new node below the place where the search ended. -/
lemma insertNode {a n : Nat} {rs : TableSearchResult} (h : Refines ν t g) (hp : g.TableRoot = plug path nil)
    (hf : Fresh SplayTable.headerSize (2 ^ 32) t.InsertOrderList a) (ha : ν g.NextAddress = a)
    (ht : Tree (t.insertNode x n rs a).SplayLinks
      (plug (path.map (Frame.map (TableEntry.node ν))) (node nil a nil))) :
    Refines ν
      { t.insertNode x n rs a with TableRoot := (plug (path.map (Frame.map (TableEntry.node ν))) (node nil a nil)).addr }
      { g with
        TableRoot := plug path (node nil ⟨g.NextAddress, x⟩ nil)
        InsertOrderList := g.InsertOrderList ++ [⟨g.NextAddress, x⟩]
        NumberGenericTableElements := g.NumberGenericTableElements + 1
        NextAddress := g.NextAddress + 1 } := by
  have hl := h.linked
  have hes : g.entries = before path ++ after path := by
    rw [GenericTable.entries, hp, toList_plug, toList_nil, nil_append]
  have hnew : (plug path (node nil ⟨g.NextAddress, x⟩ nil)).toList =
    before path ++ ⟨g.NextAddress, x⟩ :: after path := by
    rw [toList_plug]
    rfl
  have hys : (before (path.map (Frame.map (TableEntry.node ν)))).map t.UserData =
      ((before path).map (·.UserData)).map some := by
    rw [before_map, map_map, map_map]
    exact map_congr_left fun e he => h.userData (hes ▸ mem_append_left _ he)
  have hle : g.NumberGenericTableElements ≤ 2 ^ 32 / 24 := by
    have := hl.length_le
    rwa [toList_map, length_map, ← GenericTable.entries, ← h.ok.count] at this
  rw [hp, map_plug, hes, map_append] at hl
  refine ⟨?_, ?_, ⟨?_, ?_, ?_⟩, h.which, ?_, ?_⟩
  · rw [GenericTable.entries, hnew, map_append, map_cons, map_plug]
    simpa only [SplayTree.map, TableEntry.node, ha] using hl.insertNode hys hf ht
  · simp [SplayTable.insertNode, h.order, TableEntry.node, ha]
  · rw [GenericTable.entries, hnew]
    exact (perm_append_singleton _ _).trans (((h.ok.order.trans (.of_eq hes)).cons _).trans perm_middle.symm)
  · change g.NumberGenericTableElements + 1 = _
    rw [GenericTable.entries, hnew, h.ok.count, hes, length_append, length_append, length_cons, Nat.add_assoc]
  · change g.NumberGenericTableElements + 1 ≤ 0xFFFFFFFE
    omega
  · -- the position is in the list as it was before
    obtain ⟨hlt, -⟩ := List.getElem?_eq_some_iff.mp h.pointer
    change (0 :: (t.InsertOrderList ++ [a]))[g.OrderedPointer]? = some t.OrderedPointer
    rw [← cons_append, getElem?_append_left hlt]
    exact h.pointer
  · intro e he
    rw [GenericTable.entries, hnew, mem_append, mem_cons] at he
    change e.Address < g.NextAddress + 1
    rcases he with he | rfl | he
    · exact Nat.lt_succ_of_lt (h.old e (hes ▸ mem_append_left _ he))
    · exact Nat.lt_succ_self _
    · exact Nat.lt_succ_of_lt (h.old e (hes ▸ mem_append_right _ he))

/-- An insertion for which the owner allocates a node, or none. -/
lemma insert {a : Nat} (h : Refines ν t g) (ha : a = 0 ∨ Fresh SplayTable.headerSize (2 ^ 32) t.InsertOrderList a)
    (pool : List Bool) :
    ∃ ν' t' re g' pool', rtlInsertElementGenericTable c g x (decide (a ≠ 0) :: pool) = some (re, g', pool') ∧
      SplayTable.rtlInsertElementGenericTable c t x a = some (t', re.elim 0 (·.1.node ν'), re.elim false (·.2)) ∧
      Refines ν' t' g' := by
  have hle : g.NumberGenericTableElements ≠ 0xFFFFFFFE := by
    have := h.linked.length_le
    rw [toList_map, length_map, ← GenericTable.entries, ← h.ok.count] at this
    omega
  have hct : t.NumberGenericTableElements = g.NumberGenericTableElements := by
    rw [h.linked.count, toList_map, length_map, h.ok.count, GenericTable.entries]
  simp only [rtlInsertElementGenericTable, SplayTable.rtlInsertElementGenericTable]
  cases hf : rtlpFindGenericTableNodeOrParent c g x with
  | found path l e r =>
    obtain ⟨hp, hn⟩ := h.find_found hf
    obtain ⟨m, hm, hr⟩ := h.splay hp
    exact ⟨ν, _, _, _, _, rfl, by simp [hn, hm, SplayTable.rtlInsertElementGenericTableFull], hr⟩
  | absent path =>
    obtain ⟨hp, rs, n, hn, hrs, ht⟩ := h.find_absent hf
    simp only [if_neg hle, nextOutcome, hn, do_some]
    rw [SplayTable.rtlInsertElementGenericTableFull, if_pos hrs, hct,
      if_neg (by simpa [SplayTable.maxUlong] using hle)]
    rcases ha with rfl | ha
    · exact ⟨ν, t, none, g, pool, by simp, by simp, h⟩
    have hx : a ∉ g.entries.map (TableEntry.node ν) := by
      rw [GenericTable.entries, ← toList_map]
      exact h.linked.fresh ha
    have hν : ∀ k < g.NextAddress, Function.update ν g.NextAddress a k = ν k :=
      fun k hk => Function.update_of_ne (Nat.ne_of_lt hk) _ _
    have he : ∀ e ∈ g.entries, e.node (Function.update ν g.NextAddress a) = e.node ν :=
      fun e he => hν _ (h.old e he)
    obtain ⟨-, rs', n', hn', -, ht'⟩ := (h.congr hν).find_absent hf
    obtain ⟨rfl, rfl⟩ := Prod.mk.inj (Option.some.inj (hn.symm.trans hn'))
    have hi := (h.congr hν).insertNode hp ha (Function.update_self ..)
      (ht' a ha.1 (by rwa [map_congr_left he]))
    obtain ⟨m, hm, hr⟩ := hi.splay rfl
    simp only [TableEntry.node, Function.update_self] at hm hr
    refine ⟨_, _, _, _, pool, by rw [decide_eq_true ha.1]; rfl, ?_, hr⟩
    simp [ha.1, hm, TableEntry.node]

lemma erase_order [DecidableEq α] (h : Refines ν t g) (he : e ∈ g.entries) :
    t.InsertOrderList.erase (e.node ν) = (g.InsertOrderList.erase e).map (TableEntry.node ν) := by
  have hnd : t.InsertOrderList.Nodup := h.linked.order.nodup_iff.mpr h.linked.tree.nodup
  obtain ⟨as, bs, -, hl, her⟩ := exists_erase_eq (h.ok.order.mem_iff.mpr he)
  rw [h.order, hl, map_append, map_cons] at hnd
  have hna : e.node ν ∉ as.map (TableEntry.node ν) :=
    fun hm => (nodup_cons.mp (nodup_middle.mp hnd)).1 (mem_append_left _ hm)
  rw [her, h.order, hl, map_append, map_cons, erase_append_right _ hna, erase_cons_head, map_append]

lemma delete [DecidableEq α] (h : Refines ν t g) :
    ∃ t', SplayTable.rtlDeleteElementGenericTable c t x = some (t', (rtlDeleteElementGenericTable c g x).1) ∧
      Refines ν t' (rtlDeleteElementGenericTable c g x).2 := by
  rw [rtlDeleteElementGenericTable]
  cases hf : rtlpFindGenericTableNodeOrParent c g x with
  | absent path =>
    obtain ⟨-, rs, n, hn, hrs, -⟩ := h.find_absent hf
    exact ⟨t, by simp [SplayTable.rtlDeleteElementGenericTable, hn, hrs], h⟩
  | found path l e r =>
    obtain ⟨hp, hn⟩ := h.find_found hf
    have hes : g.entries = (before path ++ l.toList) ++ e :: (r.toList ++ after path) := by
      simp [GenericTable.entries, hp, toList_plug]
    have hnew : (remove l r path).toList = (before path ++ l.toList) ++ (r.toList ++ after path) := by
      simp [toList_remove]
    have he : e ∈ g.entries := by simp [hes]
    have hys : (before (path.map (Frame.map (TableEntry.node ν))) ++
      (l.map (TableEntry.node ν)).toList).map t.UserData =
        ((before path ++ l.toList).map (·.UserData)).map some := by
      rw [before_map, toList_map, ← map_append, map_map, map_map]
      exact map_congr_left fun e he => h.userData (hes ▸ mem_append_left _ he)
    have hl := h.linked
    rw [hp, map_plug, hes, map_append, map_cons] at hl
    obtain ⟨m, hd, hlk⟩ := hl.deleteNode hys hn
    rw [← map_remove] at hd hlk
    refine ⟨_, hd, ?_, h.erase_order he, ⟨?_, ?_, Nat.le_trans (Nat.sub_le _ _) h.ok.bound⟩, rfl,
      rfl, fun e' he' => h.old e' ?_⟩
    · rw [GenericTable.entries, hnew, map_append]
      exact hlk
    · rw [GenericTable.entries, hnew]
      refine ((h.ok.order.trans (.of_eq hes)).erase e).trans ((perm_middle.erase e).trans ?_)
      rw [erase_cons_head]
    · change g.NumberGenericTableElements - 1 = _
      rw [GenericTable.entries, hnew, h.ok.count, hes]
      simp only [length_append, length_cons]
      omega
    · rw [GenericTable.entries, hnew] at he'
      rw [hes]
      exact (sublist_cons_self e _).append_left _ |>.subset he'

lemma node_ne_zero (h : Refines ν t g) (he : e ∈ g.entries) : e.node ν ≠ 0 := by
  refine h.linked.tree.holds.ne_zero ?_
  rw [toList_map]
  exact mem_map_of_mem he

/-- The first node of a subtree is moved to the root. -/
lemma moveFirst (h : Refines ν t g) (hp : g.TableRoot = plug path (node l e r)) :
    ((node l e r).map (TableEntry.node ν)).toList.headD 0 = (leftmost l e r path).2.1.node ν ∧
      (leftmost l e r path).2.1.node ν ≠ 0 ∧
      ∃ m, rtlSplay t.SplayLinks ((leftmost l e r path).2.1.node ν) = some m ∧
        Refines ν { t with SplayLinks := m, TableRoot := (leftmost l e r path).2.1.node ν }
          { g with
            TableRoot := SplayTree.splay nil (leftmost l e r path).2.1 (leftmost l e r path).2.2
              (leftmost l e r path).1 } := by
  have hd := head_leftmost l e r path []
  rw [append_nil] at hd
  have hm : (leftmost l e r path).2.1 ∈ g.entries := by
    rw [GenericTable.entries, hp, toList_plug]
    exact mem_append_right _ (mem_append_left _ (mem_of_head? hd))
  refine ⟨?_, h.node_ne_zero hm, h.splay (hp.trans (plug_leftmost l e r path).symm)⟩
  rw [toList_map, toList_node, headD_eq_head?_getD, head?_map, hd]
  rfl

lemma enumerate (h : Refines ν t g) (restart : Bool) :
    ∃ t', SplayTable.rtlEnumerateGenericTable t restart =
        some (t', (rtlEnumerateGenericTable g restart).1.elim 0 (TableEntry.node ν)) ∧
      Refines ν t' (rtlEnumerateGenericTable g restart).2 := by
  have hl := h.linked
  rw [SplayTable.rtlEnumerateGenericTable, rtlEnumerateGenericTable, hl.root]
  cases hr : g.TableRoot with
  | nil => exact ⟨t, by cases restart <;> rfl, by cases restart <;> exact h⟩
  | node l e r =>
    rw [hr] at hl
    have hn : ((node l e r).map (TableEntry.node ν)).addr = e.node ν := rfl
    rw [hn, if_neg (h.node_ne_zero (by simp [GenericTable.entries, hr]))]
    cases restart with
    | true =>
      obtain ⟨hd, hne, m, hm, hrf⟩ := h.moveFirst (show g.TableRoot = plug [] (node l e r) from hr)
      have hlf := leftmostLoop_spec hl.tree.holds (Nat.le_of_lt hl.size)
      exact ⟨_, by simp [hlf.trans (congrArg some hd), hne, hm, firstNode], hrf⟩
    | false =>
      have hsc : rtlRealSuccessor t.SplayLinks (e.node ν) = some ((r.map (TableEntry.node ν)).toList.headD 0) := by
        simpa [after] using @realSuccessor_spec t.SplayLinks (l.map (TableEntry.node ν))
          (r.map (TableEntry.node ν)) []
          (e.node ν) hl.tree hl.size
      cases r with
      | nil => exact ⟨t, by simp [hsc, nextNode, SplayTree.map], h⟩
      | node rl e' rr =>
        obtain ⟨hd, hne, m, hm, hrf⟩ := h.moveFirst (show g.TableRoot = plug [.right l e] (node rl e' rr) from hr)
        exact ⟨_, by simp [hsc.trans (congrArg some hd), hne, hm, nextNode], hrf⟩

end Refines

/-! ## Runs -/

/-- A call of a routine; for an insertion with the node that the owner allocates, or 0. -/
inductive TableCall (α : Type) where
  | insert (buffer : α) (allocated : Nat)
  | lookup (buffer : α)
  | delete (buffer : α)
  | enumerate (restart : Bool)

def SplayTable.call (cmp : α → α → Ordering) (t : SplayTable α) : TableCall α → Option (SplayTable α)
  | .insert buffer allocated => (rtlInsertElementGenericTable cmp t buffer allocated).map (·.1)
  | .lookup buffer => (rtlLookupElementGenericTable cmp t buffer).map (·.1)
  | .delete buffer => (rtlDeleteElementGenericTable cmp t buffer).map (·.1)
  | .enumerate restart => (rtlEnumerateGenericTable t restart).map (·.1)

def GenericTable.call [DecidableEq α] (cmp : α → α → Ordering) (g : GenericTable α) :
    TableCall α → Option (GenericTable α)
  | .insert buffer allocated => (rtlInsertElementGenericTable cmp g buffer [decide (allocated ≠ 0)]).map (·.2.1)
  | .lookup buffer => some (rtlLookupElementGenericTable cmp g buffer).2
  | .delete buffer => some (rtlDeleteElementGenericTable cmp g buffer).2
  | .enumerate restart => some (rtlEnumerateGenericTable g restart).2

/-- The owner allocates nodes that do not overlap those of the table. -/
def SplayTable.Allocates (t : SplayTable α) : TableCall α → Prop
  | .insert _ allocated => allocated = 0 ∨ Fresh headerSize (2 ^ 32) t.InsertOrderList allocated
  | _ => True

lemma Refines.call [DecidableEq α] (h : Refines ν t g) {op : TableCall α} (hok : t.Allocates op) :
    ∃ ν' t' g', t.call c op = some t' ∧ g.call c op = some g' ∧ Refines ν' t' g' := by
  cases op with
  | insert x a =>
    obtain ⟨ν', t', re, g', pool', hg, ht, hr⟩ := @Refines.insert _ _ _ _ c x _ h hok []
    exact ⟨ν', t', g', by rw [SplayTable.call, ht]; rfl, by rw [GenericTable.call, hg]; rfl, hr⟩
  | lookup x =>
    obtain ⟨t', ht, hr⟩ := @Refines.lookup _ _ _ _ c x h
    exact ⟨ν, t', _, by rw [SplayTable.call, ht]; rfl, rfl, hr⟩
  | delete x =>
    obtain ⟨t', ht, hr⟩ := @Refines.delete _ _ _ _ c x _ h
    exact ⟨ν, t', _, by rw [SplayTable.call, ht]; rfl, rfl, hr⟩
  | enumerate restart =>
    obtain ⟨t', ht, hr⟩ := h.enumerate restart
    exact ⟨ν, t', _, by rw [SplayTable.call, ht]; rfl, rfl, hr⟩

/-- A run of the routines on the links is a run on the tree. -/
theorem refines_run [DecidableEq α] {t' : SplayTable α} {ops : List (TableCall α)}
    (hr : Run (SplayTable.call c) SplayTable.Allocates t ops t') (h : Refines ν t g) :
    ∃ ν' g', Run (GenericTable.call c) (fun _ _ => True) g ops g' ∧ Refines ν' t' g' := by
  induction hr generalizing ν g with
  | nil => exact ⟨ν, g, .nil g, h⟩
  | cons hok hs _ ih =>
    obtain ⟨ν₁, t₁, g₁, ht, hg, h₁⟩ := @Refines.call _ _ _ _ c _ h _ hok
    obtain rfl : t₁ = _ := Option.some.inj (ht.symm.trans hs)
    obtain ⟨ν', g', hrun, h'⟩ := ih h₁
    exact ⟨ν', g', .cons trivial hg hrun, h'⟩

end FreeNT.Rtl
