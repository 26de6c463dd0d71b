import FreeNT.Rtl.PrefixEntries
import FreeNT.Rtl.PrefixOrder

/-!
# Lookups in a prefix table

The trees of a table have ever fewer names, the nodes of a tree are in the order of their keys
and have the number of names of the tree, and the ring of a node holds prefixes of one key
(`TableOk`). All three operations keep this, and are described by the entries of the table
(`findInTrees_spec`, `insertInTrees_spec`, `TableOk.shrunk`).

The entries after a run are those inserted and not removed (`liveAfter`), so that a lookup
returns the longest of these (`lookup_longest`), as long as prefixes do not end in a backslash
and no entry is removed that is the root of a tree and has others in its ring.
-/

namespace FreeNT.Rtl

open List hiding after
open Option hiding toList

open SplayTree PrefixTree

variable (table : WChar → WChar)

/-- The prefixes in the ring of a node. -/
structure NodeOk (c : Nat) (n : PrefixNode) : Prop where
  clean : ∀ e ∈ n.ring, CleanName e.Prefix
  count : ∀ e ∈ n.ring, nameCount e.Prefix = c
  key : ∀ e ∈ n.ring, key table e.Prefix = key table n.Entry.Prefix

/-- The nodes of a tree. -/
structure NodesOk (c : Nat) (ns : List PrefixNode) : Prop where
  sorted : ns.Pairwise (KeyLt table)
  node : ∀ n ∈ ns, NodeOk table c n

structure TableOk (t : PrefixTable) : Prop where
  decreasing : t.Pairwise fun a b => b.NameLength < a.NameLength
  nodes : ∀ tree ∈ t, NodesOk table tree.NameLength tree.Links.toList

variable {table} {c : Nat} {n : PrefixNode} {ns xs ys : List PrefixNode} {e : PrefixEntry} {t ts : PrefixTable}
  {tree : PrefixTree} {s : List WChar} {k : Nat}

variable {n' : PrefixNode}

namespace NodesOk

lemma findOk (h : NodesOk table c ns) : ∀ n ∈ ns, CleanName n.Entry.Prefix ∧ nameCount n.Entry.Prefix = c :=
  fun n hn => ⟨(h.node n hn).clean _ (entry_mem_ring n), (h.node n hn).count _ (entry_mem_ring n)⟩

lemma set (h : NodesOk table c (xs ++ n :: ys)) (hn : NodeOk table c n')
    (hk : key table n'.Entry.Prefix = key table n.Entry.Prefix) : NodesOk table c (xs ++ n' :: ys) := by
  obtain ⟨hxs, hny, hc⟩ := pairwise_append.mp h.sorted
  obtain ⟨hn_lt, hys⟩ := pairwise_cons.mp hny
  refine ⟨pairwise_append.mpr ⟨hxs, pairwise_cons.mpr ⟨fun y hy => ?_, hys⟩, fun x hx y hy => ?_⟩, fun m hm => ?_⟩
  · have := hn_lt y hy
    rwa [KeyLt, ← hk] at this
  · rcases mem_cons.mp hy with rfl | hy
    · have := hc x hx n mem_cons_self
      rwa [KeyLt, ← hk] at this
    · exact hc x hx y (mem_cons_of_mem n hy)
  rcases mem_append.mp hm with hm | hm
  · exact h.node m (mem_append_left _ hm)
  rcases mem_cons.mp hm with rfl | hm
  · exact hn
  · exact h.node m (mem_append_right _ (mem_cons_of_mem n hm))

lemma put (h : NodesOk table c (xs ++ ys)) (hn : NodeOk table c n') (hxs : ∀ x ∈ xs, KeyLt table x n')
    (hys : ∀ y ∈ ys, KeyLt table n' y) : NodesOk table c (xs ++ n' :: ys) := by
  obtain ⟨hx, hy, hc⟩ := pairwise_append.mp h.sorted
  refine ⟨pairwise_append.mpr ⟨hx, pairwise_cons.mpr ⟨hys, hy⟩, fun x hx y hy => ?_⟩, fun m hm => ?_⟩
  · rcases mem_cons.mp hy with rfl | hy
    · exact hxs x hx
    · exact hc x hx y hy
  rcases mem_append.mp hm with hm | hm
  · exact h.node m (mem_append_left _ hm)
  rcases mem_cons.mp hm with rfl | hm
  · exact hn
  · exact h.node m (mem_append_right _ hm)

lemma drop (h : NodesOk table c (xs ++ n :: ys)) : NodesOk table c (xs ++ ys) :=
  ⟨h.sorted.sublist ((sublist_cons_self n ys).append_left xs),
    fun m hm => h.node m (((sublist_cons_self n ys).append_left xs).subset hm)⟩

end NodesOk

lemma NodeOk.single (hc : CleanName e.Prefix) : NodeOk table (nameCount e.Prefix) ⟨e, []⟩ := by
  have hr : ∀ e' ∈ (⟨e, []⟩ : PrefixNode).ring, e' = e := fun e' he' => mem_singleton.mp he'
  exact ⟨fun e' he' => hr e' he' ▸ hc, fun e' he' => by rw [hr e' he'], fun e' he' => by rw [hr e' he']⟩

lemma TableOk.tail (h : TableOk table (tree :: ts)) : TableOk table ts :=
  ⟨(pairwise_cons.mp h.decreasing).2, fun _ ht => h.nodes _ (mem_cons_of_mem _ ht)⟩

lemma TableOk.cons (h : TableOk table ts) (hn : NodesOk table tree.NameLength tree.Links.toList)
    (hlt : ∀ b ∈ ts, b.NameLength < tree.NameLength) : TableOk table (tree :: ts) :=
  ⟨pairwise_cons.mpr ⟨hlt, h.decreasing⟩, forall_mem_cons.mpr ⟨hn, h.nodes⟩⟩

lemma TableOk.count (h : TableOk table t) (he : e ∈ prefixEntries t) :
    ∃ tree ∈ t, nameCount e.Prefix = tree.NameLength := by
  obtain ⟨tree, ht, n, hn, he⟩ := mem_prefixEntries.mp he
  exact ⟨tree, ht, ((h.nodes tree ht).node n hn).count e he⟩

lemma TableOk.prefix_ne (h : TableOk table ts) (hne : ∀ b ∈ ts, b.NameLength ≠ nameCount e.Prefix) :
    ∀ e' ∈ prefixEntries ts, e'.Prefix ≠ e.Prefix := by
  intro e' he' heq
  obtain ⟨tree, ht, hc⟩ := h.count he'
  exact hne tree ht (by rw [← hc, heq])

/-! ## Finding -/

variable {p : List (Frame PrefixNode)} {l r ls : SplayTree PrefixNode}

section Find

variable (hup : KeepsBackslash table)

include hup

/-- Where the search in a tree ends, every prefix that fits the string is in the ring found. -/
lemma search_find (h : NodesOk table c ls.toList) (hs : search (findTurn table s) ls [] = .found p l n r) :
    ls = plug p (.node l n r) ∧ n ∈ ls.toList ∧ IsNamePrefix table 0 n.Entry.Prefix s ∧
      ∀ m ∈ ls.toList, ∀ e ∈ m.ring, IsNamePrefix table k e.Prefix s → e ∈ n.ring := by
  obtain ⟨hp, heq⟩ := search_found hs
  have hl : ls.toList = before p ++ l.toList ++ n :: (r.toList ++ after p) :=
    (congrArg toList hp).symm.trans (toList_plug_node p l n r)
  have hf := findTurn_eq.mp heq
  have hme : n ∈ ls.toList := by simp [hl]
  refine ⟨hp.symm, hme, hf, fun m hm e he hpr => ?_⟩
  have hmf : IsNamePrefix table 0 m.Entry.Prefix s := hpr.zero.congr hup ((h.node m hm).key e he)
  have hu := findTurn_unique (s := s) hup h.sorted h.findOk
  -- another node that fits would stand before this one, or after it
  rw [hl] at hm hu
  obtain ⟨-, hcn, hc⟩ := pairwise_append.mp hu
  rcases mem_append.mp hm with hm | hm
  · exact absurd ⟨hmf, hf⟩ (hc m hm n mem_cons_self)
  rcases mem_cons.mp hm with rfl | hm
  · exact he
  · exact absurd ⟨hf, hmf⟩ ((pairwise_cons.mp hcn).1 m hm)

lemma search_find_absent (h : NodesOk table c ls.toList) (hs : search (findTurn table s) ls [] = .absent p) :
    ∀ m ∈ ls.toList, ∀ e ∈ m.ring, ¬ IsNamePrefix table k e.Prefix s := by
  intro m hm e he hp
  have hmf := findTurn_eq.mpr (hp.zero.congr hup ((h.node m hm).key e he))
  obtain ⟨xs, ys, hl, -, -, hgt, hlt⟩ := search_absent (findTurn_cut hup h.sorted h.findOk) hs
  rw [hl] at hm
  rcases mem_append.mp hm with hm | hm
  · simp [hgt m hm] at hmf
  · simp [hlt m hm] at hmf

end Find

lemma TableOk.congr {t' : PrefixTable} (h : TableOk table t)
    (hs : t'.map PrefixTree.level = t.map PrefixTree.level) :
    TableOk table t' := by
  constructor
  · have hd : (t.map level).Pairwise fun a b => b.1 < a.1 := pairwise_map.mpr h.decreasing
    rw [← hs] at hd
    exact pairwise_map.mp hd
  intro tree ht
  have hm := mem_map_of_mem (f := level) ht
  rw [hs] at hm
  obtain ⟨tree', ht', heq⟩ := mem_map.mp hm
  obtain ⟨hln, hl⟩ := Prod.mk.inj heq
  rw [← hln, ← hl]
  exact h.nodes tree' ht'

/-- What a lookup among the entries `es` finds: one with the most names of those that fit. -/
def Longest (table : WChar → WChar) (k : Nat) (s : List WChar) (es : List PrefixEntry) : Option PrefixEntry → Prop
  | some e => e ∈ es ∧ IsNamePrefix table k e.Prefix s ∧
      ∀ e' ∈ es, IsNamePrefix table k e'.Prefix s → nameCount e'.Prefix ≤ nameCount e.Prefix
  | none => ∀ e ∈ es, ¬ IsNamePrefix table k e.Prefix s

lemma Longest.append_left {es es' : List PrefixEntry} {found : Option PrefixEntry} (h : Longest table k s es' found)
    (hes : ∀ e ∈ es, ¬ IsNamePrefix table k e.Prefix s) : Longest table k s (es ++ es') found := by
  cases found with
  | none => exact fun e he => (mem_append.mp he).elim (hes e) (h e)
  | some e =>
    obtain ⟨hm, hf, hl⟩ := h
    refine ⟨mem_append_right es hm, hf, fun e' he' hf' => ?_⟩
    rcases mem_append.mp he' with he' | he'
    · exact absurd hf' (hes e' he')
    · exact hl e' he' hf'

/-- An entry that fits has more names than those in the trees that follow. -/
lemma TableOk.longest (h : TableOk table (tree :: ts)) (hn : n ∈ tree.Links.toList) (he : e ∈ n.ring)
    (hf : IsNamePrefix table k e.Prefix s) : Longest table k s (prefixEntries (tree :: ts)) (some e) := by
  refine ⟨mem_prefixEntries.mpr ⟨tree, mem_cons_self, n, hn, he⟩, hf, fun e' he' _ => ?_⟩
  rw [((h.nodes tree mem_cons_self).node n hn).count e he]
  obtain ⟨tree', ht', heq⟩ := h.count he'
  rw [heq]
  rcases mem_cons.mp ht' with rfl | ht'
  · exact le_rfl
  · exact ((pairwise_cons.mp h.decreasing).1 tree' ht').le

lemma findInTrees_spec (hup : KeepsBackslash table) (h : TableOk table ts) :
    Longest table k s (prefixEntries ts) (findInTrees table s k ts).1 := by
  induction ts with
  | nil => exact nofun
  | cons tree ts ih =>
    have hn := h.nodes tree mem_cons_self
    -- the case that no entry of this tree fits
    have hnx (hno : ∀ m ∈ tree.Links.toList, ∀ e ∈ m.ring, ¬ IsNamePrefix table k e.Prefix s) :
        Longest table k s (prefixEntries (tree :: ts)) (findInTrees table s k ts).1 := by
      refine (ih h.tail).append_left fun e he => ?_
      obtain ⟨m, hm, he⟩ := mem_flatMap.mp he
      exact hno m hm e he
    rw [findInTrees]
    cases hs : search (findTurn table s) tree.Links [] with
    | absent p => exact hnx (search_find_absent hup hn hs)
    | found p l n r =>
      obtain ⟨-, hme, hft, hr⟩ := search_find (k := k) hup hn hs
      dsimp only
      split
      · rename_i hk
        subst hk
        exact h.longest hme (entry_mem_ring n) hft
      cases hf : n.ring.find? fun e => (compareUnicodeStrings table e.Prefix s k).matching with
      | some e =>
        have hmt := find?_some hf
        exact h.longest hme (mem_of_find?_eq_some hf) (matching_iff.mp hmt)
      | none =>
        refine hnx fun m hm e he hpr => ?_
        exact find?_eq_none.mp hf e (hr m hm e he hpr) (matching_iff.mpr hpr)

lemma TableOk.dropWhile (h : TableOk table t) (p : PrefixTree → Bool) : TableOk table (t.dropWhile p) :=
  ⟨h.decreasing.sublist (dropWhile_sublist p), fun tree ht => h.nodes tree ((dropWhile_sublist p).subset ht)⟩

/-- A lookup ends with an entry of the most names among those that fit. -/
lemma rtlFindUnicodePrefix_spec (hup : KeepsBackslash table) (h : TableOk table t) (hs : s ≠ []) :
    ∃ found t', rtlFindUnicodePrefix table t s k = some (found, t') ∧
      Longest table k s (prefixEntries t) found := by
  let p : PrefixTree → Bool := fun tree => nameCount s < tree.NameLength
  have hl := findInTrees_spec (k := k) (s := s) hup (h.dropWhile p)
  have hsp : t.takeWhile p ++ t.dropWhile p = t := takeWhile_append_dropWhile
  refine ⟨(findInTrees table s k (t.dropWhile p)).1, t.takeWhile p ++ (findInTrees table s k (t.dropWhile p)).2,
    by simp only [rtlFindUnicodePrefix, computeUnicodeNameLength, hs, if_false]; rfl, ?_⟩
  have hen : prefixEntries t = prefixEntries (t.takeWhile p) ++ prefixEntries (t.dropWhile p) := by
    rw [prefixEntries, prefixEntries, prefixEntries, ← flatMap_append, hsp]
  rw [hen]
  -- a prefix has no more names than the string
  refine hl.append_left fun e he hp => ?_
  obtain ⟨tree, ht, n, hn, he⟩ := mem_prefixEntries.mp he
  have hm : tree ∈ t := hsp ▸ mem_append_left _ ht
  have hlt : nameCount s < tree.NameLength := by simpa [p] using mem_takeWhile_imp ht
  have hle := nameCount_le hup hp.zero
  rw [((h.nodes tree hm).node n hn).count e he] at hle
  omega

/-! ## Inserting -/

lemma compare_exact {p q : List WChar} (hp : CleanName p) (hq : CleanName q) :
    (compareUnicodeStrings table p q (2 ^ 32 - 1) == .equal) = true ↔ p = q := by
  have hl (r : List WChar) (hr : CleanName r) : r.length ≤ 2 ^ 32 - 1 := hr.length.trans (by decide)
  rw [beq_iff_eq, compare_eq_equal, foldAt_of_length_le (hl p hp), foldAt_of_length_le (hl q hq)]

lemma NodeOk.add (h : NodeOk table c n) (hc : CleanName e.Prefix) (hcn : nameCount e.Prefix = c)
    (hk : Rtl.key table e.Prefix = Rtl.key table n.Entry.Prefix) : NodeOk table c ⟨n.Entry, e :: n.CaseMatch⟩ := by
  have hr : ∀ e' ∈ (⟨n.Entry, e :: n.CaseMatch⟩ : PrefixNode).ring, e' = e ∨ e' ∈ n.ring := by
    intro e' he'
    simp only [PrefixNode.ring, mem_cons] at he' ⊢
    tauto
  refine ⟨fun e' he' => ?_, fun e' he' => ?_, fun e' he' => ?_⟩
  · rcases hr e' he' with rfl | he'
    · exact hc
    · exact h.clean e' he'
  · rcases hr e' he' with rfl | he'
    · exact hcn
    · exact h.count e' he'
  rcases hr e' he' with rfl | he'
  · exact hk
  · exact h.key e' he'

lemma insertInTree_spec (h : NodesOk table (nameCount e.Prefix) ls.toList) (hc : CleanName e.Prefix) :
    (insertInTree table ls e = none ∧ ∃ n ∈ ls.toList, ∃ e' ∈ n.ring, e'.Prefix = e.Prefix) ∨
    ∃ ls', insertInTree table ls e = some ls' ∧ (∀ n ∈ ls.toList, ∀ e' ∈ n.ring, e'.Prefix ≠ e.Prefix) ∧
      NodesOk table (nameCount e.Prefix) ls'.toList := by
  rw [insertInTree]
  cases hf : search (insertTurn table e.Prefix) ls [] with
  | absent p =>
    obtain ⟨xs, ys, hl, hb, haf, hgt, hlt⟩ := search_absent (insertTurn_cut h.sorted) hf
    have hnw : (replace (.node .nil ⟨e, []⟩ .nil) p).toList = xs ++ ⟨e, []⟩ :: ys := by
      simp [toList_replace, hb, haf, before, after]
    have hxs : ∀ x ∈ xs, KeyLt table x ⟨e, []⟩ := by
      intro x hx
      have ht := hgt x hx
      rcases insertTurn_cases table e.Prefix x with ⟨h, -⟩ | ⟨-, h⟩ | ⟨h, -⟩
      · simp [h] at ht
      · exact h
      · simp [h] at ht
    have hys : ∀ y ∈ ys, KeyLt table ⟨e, []⟩ y := by
      intro y hy
      have ht := hlt y hy
      rcases insertTurn_cases table e.Prefix y with ⟨h, -⟩ | ⟨h, -⟩ | ⟨-, h⟩
      · simp [h] at ht
      · simp [h] at ht
      · exact h
    refine .inr ⟨_, rfl, fun n hn e' he' heq => ?_, ?_⟩
    · have hk : key table e.Prefix = key table n.Entry.Prefix := heq ▸ (h.node n hn).key e' he'
      rw [hl] at hn
      rcases mem_append.mp hn with hn | hn
      · exact absurd hk.symm (ne_of_lt (hxs n hn))
      · exact absurd hk (ne_of_lt (hys n hn))
    · rw [hnw]
      rw [hl] at h
      exact h.put (.single hc) hxs hys
  | found p l n r =>
    obtain ⟨hp, heq⟩ := search_found hf
    have hl : ls.toList = before p ++ l.toList ++ n :: (r.toList ++ after p) :=
      (congrArg toList hp).symm.trans (toList_plug_node p l n r)
    have hn : n ∈ ls.toList := by simp [hl]
    have hnd := h.node n hn
    have hk : key table e.Prefix = key table n.Entry.Prefix := by
      rcases insertTurn_cases table e.Prefix n with ⟨-, h⟩ | ⟨h, -⟩ | ⟨h, -⟩
      · exact h
      · simp [h] at heq
      · simp [h] at heq
    dsimp only
    split
    · rename_i ha
      obtain ⟨e', he', hcm⟩ := any_eq_true.mp ha
      exact .inl ⟨rfl, n, hn, e', he', (compare_exact (hnd.clean e' he') hc).mp hcm⟩
    rename_i ha
    have hnw : (splay l ⟨n.Entry, e :: n.CaseMatch⟩ r p).toList =
        before p ++ l.toList ++ ⟨n.Entry, e :: n.CaseMatch⟩ :: (r.toList ++ after p) := by
      simp [toList_splay]
    refine .inr ⟨_, rfl, fun m hm e' he' hpr => ha ?_, ?_⟩
    · -- an entry of the same prefix has the key of this node
      have hmn : key table m.Entry.Prefix = key table n.Entry.Prefix :=
        ((h.node m hm).key e' he').symm.trans ((congrArg (key table) hpr).trans hk)
      have hs := h.sorted
      rw [hl] at hm hs
      obtain ⟨-, hcn, hcr⟩ := pairwise_append.mp hs
      have hme : m = n := by
        rcases mem_append.mp hm with hm | hm
        · exact absurd hmn (ne_of_lt (hcr m hm n mem_cons_self))
        rcases mem_cons.mp hm with rfl | hm
        · rfl
        · exact absurd hmn.symm (ne_of_lt ((pairwise_cons.mp hcn).1 m hm))
      subst hme
      exact any_eq_true.mpr ⟨e', he', (compare_exact (hnd.clean e' he') hc).mpr hpr⟩
    · rw [hnw]
      rw [hl] at h
      exact h.set (hnd.add hc rfl hk) rfl

/-- An insertion reports a prefix that is there, and otherwise adds the entry. -/
lemma insertInTrees_spec (h : TableOk table ts) (hc : CleanName e.Prefix) :
    (insertInTrees table (nameCount e.Prefix) e ts = (false, ts) ∧ ∃ e' ∈ prefixEntries ts, e'.Prefix = e.Prefix) ∨
    ∃ ts', insertInTrees table (nameCount e.Prefix) e ts = (true, ts') ∧
      (∀ e' ∈ prefixEntries ts, e'.Prefix ≠ e.Prefix) ∧
      TableOk table ts' ∧ ∀ b ∈ ts', b.NameLength = nameCount e.Prefix ∨ ∃ a ∈ ts, b.NameLength = a.NameLength := by
  -- a tree of one node, before trees of fewer names
  have hnw {ts : PrefixTable} (h : TableOk table ts) (hlt : ∀ b ∈ ts, b.NameLength < nameCount e.Prefix) :
      (∀ e' ∈ prefixEntries ts, e'.Prefix ≠ e.Prefix) ∧
      TableOk table (⟨nameCount e.Prefix, .node .nil ⟨e, []⟩ .nil⟩ :: ts) ∧
      ∀ b ∈ (⟨nameCount e.Prefix, .node .nil ⟨e, []⟩ .nil⟩ : PrefixTree) :: ts,
        b.NameLength = nameCount e.Prefix ∨ ∃ a ∈ ts, b.NameLength = a.NameLength := by
    refine ⟨h.prefix_ne fun b hb => (hlt b hb).ne, ?_, fun b hb => ?_⟩
    · have hno : NodesOk table (nameCount e.Prefix) ([] ++ []) := ⟨.nil, nofun⟩
      exact h.cons (hno.put (.single hc) nofun nofun) hlt
    · exact (mem_cons.mp hb).imp (fun hb => by rw [hb]) fun hb => ⟨b, hb, rfl⟩
  induction ts with
  | nil => exact .inr ⟨_, rfl, hnw h nofun⟩
  | cons tree ts ih =>
    have hdc := (pairwise_cons.mp h.decreasing).1
    rw [insertInTrees]
    split
    · -- the place is further on
      rename_i hlt
      have hf : ∀ e' ∈ tree.entries, e'.Prefix ≠ e.Prefix := by
        intro e' he' heq
        obtain ⟨n, hn, he'⟩ := mem_flatMap.mp he'
        have := ((h.nodes tree mem_cons_self).node n hn).count e' he'
        rw [heq] at this
        omega
      rcases ih h.tail with ⟨heq, e', he', hpr⟩ | ⟨ts', heq, hne, hok, hln⟩
      · exact .inl ⟨by rw [heq], e', mem_append_right _ he', hpr⟩
      refine .inr ⟨tree :: ts', by rw [heq], fun e' he' => (mem_append.mp he').elim (hf e') (hne e'), ?_, fun b hb => ?_⟩
      · refine hok.cons (h.nodes tree mem_cons_self) fun b hb => ?_
        rcases hln b hb with hb | ⟨a, ha, hb⟩
        · omega
        · exact hb ▸ hdc a ha
      rcases mem_cons.mp hb with rfl | hb
      · exact .inr ⟨b, mem_cons_self, rfl⟩
      rcases hln b hb with hb | ⟨a, ha, hb⟩
      · exact .inl hb
      · exact .inr ⟨a, mem_cons_of_mem _ ha, hb⟩
    · split
      · rename_i hle hne
        have hlt : tree.NameLength < nameCount e.Prefix := by omega
        refine .inr ⟨_, rfl, hnw h fun b hb => ?_⟩
        rcases mem_cons.mp hb with rfl | hb
        · exact hlt
        · exact (hdc b hb).trans hlt
      rename_i hne
      have hln : tree.NameLength = nameCount e.Prefix := not_not.mp hne
      have hl : ∀ e' ∈ prefixEntries ts, e'.Prefix ≠ e.Prefix := h.tail.prefix_ne fun b hb => (hln ▸ hdc b hb).ne
      rcases insertInTree_spec (hln ▸ h.nodes tree mem_cons_self) hc with
        ⟨heq, n, hn, e', he', hpr⟩ | ⟨ls', heq, hd, hok⟩
      · exact .inl ⟨by rw [heq], e', mem_prefixEntries.mpr ⟨tree, mem_cons_self, n, hn, he'⟩, hpr⟩
      refine .inr ⟨_, by rw [heq], fun e' he' => ?_, ?_, fun b hb => ?_⟩
      · rcases mem_append.mp he' with he' | he'
        · obtain ⟨n, hn, he'⟩ := mem_flatMap.mp he'
          exact hd n hn e' he'
        · exact hl e' he'
      · exact h.tail.cons (hln ▸ hok) hdc
      rcases mem_cons.mp hb with rfl | hb
      · exact .inl hln
      · exact .inr ⟨b, mem_cons_of_mem _ hb, rfl⟩

lemma insertPrefix_spec (h : TableOk table t) (hc : CleanName e.Prefix) :
    (rtlInsertUnicodePrefix table t e = some (false, t) ∧ ∃ e' ∈ prefixEntries t, e'.Prefix = e.Prefix) ∨
    ∃ t', rtlInsertUnicodePrefix table t e = some (true, t') ∧ (∀ e' ∈ prefixEntries t, e'.Prefix ≠ e.Prefix) ∧
      TableOk table t' ∧ (prefixEntries t').Perm (e :: prefixEntries t) := by
  have heq : rtlInsertUnicodePrefix table t e = some (insertInTrees table (nameCount e.Prefix) e t) := by
    simp only [rtlInsertUnicodePrefix, computeUnicodeNameLength, hc.ne_nil, if_false]
    rfl
  rcases insertInTrees_spec h hc with ⟨hr, hd⟩ | ⟨t', hr, hne, hok, -⟩
  · exact .inl ⟨by rw [heq, hr], hd⟩
  obtain hf | ⟨t1, hf, hp⟩ := @insertInTrees_entries table (nameCount e.Prefix) e t
  · cases hr.symm.trans hf
  · cases hr.symm.trans hf
    exact .inr ⟨t', by rw [heq, hr], hne, hok, hp⟩

/-! ## Removing -/

lemma NodeOk.of_subset (h : NodeOk table c n) (hs : ∀ e ∈ n'.ring, e ∈ n.ring) : NodeOk table c n' :=
  ⟨fun e he => h.clean e (hs e he), fun e he => h.count e (hs e he),
    fun e he => (h.key e (hs e he)).trans (h.key _ (hs _ (entry_mem_ring n'))).symm⟩

lemma TableOk.shrunk {ts' : PrefixTable} (h : TableOk table ts)
    (hs : (ts'.map PrefixTree.NameLength).Sublist (ts.map PrefixTree.NameLength))
    (hb : ∀ b ∈ ts', ∃ tree ∈ ts, b.NameLength = tree.NameLength ∧
      (b = tree ∨ Shrunk tree.Links.toList b.Links.toList)) :
    TableOk table ts' := by
  constructor
  · have hd : (ts.map NameLength).Pairwise fun a b => b < a := pairwise_map.mpr h.decreasing
    exact pairwise_map.mp (hd.sublist hs)
  intro b hm
  obtain ⟨tree, ht, hl, rfl | ⟨xs, n, ys, hxy, hsh⟩⟩ := hb b hm
  · exact h.nodes b ht
  have hns := h.nodes tree ht
  rw [hxy] at hns
  rw [hl]
  rcases hsh with hsh | ⟨n', hsb, hsh⟩
  · rw [hsh]
    exact hns.drop
  have hn := hns.node n (by simp)
  rw [hsh]
  exact hns.set (hn.of_subset hsb) (hn.key _ (hsb _ (entry_mem_ring n')))

/-! ## Runs -/

/-- A prefix that is inserted does not end in a backslash, and its entry is not in the table; an
entry that is removed is in the table, and not the root of a tree with others in its ring; and a
string that is looked up is not empty. -/
def PrefixOk (t : PrefixTable) : PrefixOp → Prop
  | .insert entry => CleanName entry.Prefix ∧ ∀ e ∈ prefixEntries t, e.Address ≠ entry.Address
  | .remove address => (∃ e ∈ prefixEntries t, e.Address = address) ∧ ¬ RootWithMatches t address
  | .find fullName _ => fullName ≠ []

/-- The entries inserted and not removed; an insertion of a prefix that is there has no effect. -/
def liveAfter (live : List PrefixEntry) : PrefixOp → List PrefixEntry
  | .insert entry => if ∃ e ∈ live, e.Prefix = entry.Prefix then live else entry :: live
  | .remove address => live.filter (·.Address != address)
  | .find _ _ => live

/-- The entries of a table are the ones that should be there. -/
structure PrefixInv (table : WChar → WChar) (t : PrefixTable) (live : List PrefixEntry) : Prop where
  ok : TableOk table t
  perm : (prefixEntries t).Perm live
  nodup : (live.map PrefixEntry.Address).Nodup

variable {lv : List PrefixEntry} {op : PrefixOp} {t' : PrefixTable}

lemma PrefixInv.init : PrefixInv table rtlInitializeUnicodePrefix [] := ⟨⟨.nil, nofun⟩, .refl _, .nil⟩

lemma PrefixInv.insert (h : PrefixInv table t lv) (hc : CleanName e.Prefix)
    (hf : ∀ e' ∈ prefixEntries t, e'.Address ≠ e.Address) :
    ∃ inserted t', rtlInsertUnicodePrefix table t e = some (inserted, t') ∧
      (inserted = false ↔ ∃ e' ∈ lv, e'.Prefix = e.Prefix) ∧ PrefixInv table t' (liveAfter lv (.insert e)) := by
  rcases insertPrefix_spec h.ok hc with ⟨hr, e', he', hpr⟩ | ⟨t', hr, hne, hok, hp⟩
  · have hd : ∃ e' ∈ lv, e'.Prefix = e.Prefix := ⟨e', h.perm.mem_iff.mp he', hpr⟩
    refine ⟨false, t, hr, iff_of_true rfl hd, ?_⟩
    rwa [liveAfter, if_pos hd]
  have hd : ¬ ∃ e' ∈ lv, e'.Prefix = e.Prefix := by
    rintro ⟨e', he', hpr⟩
    exact hne e' (h.perm.mem_iff.mpr he') hpr
  refine ⟨true, t', hr, iff_of_false nofun hd, ?_⟩
  rw [liveAfter, if_neg hd]
  refine ⟨hok, hp.trans (h.perm.cons e), nodup_cons.mpr ⟨fun hm => ?_, h.nodup⟩⟩
  obtain ⟨e', he', heq⟩ := mem_map.mp hm
  exact hf e' (h.perm.mem_iff.mpr he') heq

lemma PrefixInv.remove (h : PrefixInv table t lv) (ha : ∃ e ∈ prefixEntries t, e.Address = a)
    (hrt : ¬ RootWithMatches t a) :
    ∃ t', rtlRemoveUnicodePrefix t a = some t' ∧ PrefixInv table t' (liveAfter lv (.remove a)) := by
  obtain ⟨t', e, hrs, rfl, hp, hsb, hsh⟩ := removeFromTrees_spec (fun _ ht => ht) ha hrt
  -- no other entry has its address
  have hl := hp.symm.trans h.perm
  have hnodup := (hl.map PrefixEntry.Address).nodup_iff.mpr h.nodup
  rw [map_cons, nodup_cons] at hnodup
  have hr : (prefixEntries t').filter (·.Address != e.Address) = prefixEntries t' := by
    refine filter_eq_self.mpr fun e' he' => bne_iff_ne.mpr fun heq => hnodup.1 ?_
    exact heq ▸ mem_map_of_mem he'
  have hf := hl.filter (·.Address != e.Address)
  rw [filter_cons_of_neg (by simp), hr] at hf
  exact ⟨t', hrs, h.ok.shrunk hsb hsh, hf, h.nodup.sublist ((filter_sublist).map _)⟩

section

variable (hup : KeepsBackslash table) (h : PrefixInv table t lv)

include hup h

lemma PrefixInv.find (hs : s ≠ []) (k : Nat) :
    ∃ found t', rtlFindUnicodePrefix table t s k = some (found, t') ∧ Longest table k s lv found ∧
      PrefixInv table t' lv := by
  obtain ⟨found, t', hr, hl⟩ := rtlFindUnicodePrefix_spec (k := k) hup h.ok hs
  have hsm := rtlFind_level hr
  refine ⟨found, t', hr, ?_, h.ok.congr hsm, prefixEntries_congr hsm ▸ h.perm, h.nodup⟩
  cases found with
  | none => exact fun e he => hl e (h.perm.mem_iff.mpr he)
  | some e => exact ⟨h.perm.mem_iff.mp hl.1, hl.2.1, fun e' he' => hl.2.2 e' (h.perm.mem_iff.mpr he')⟩

lemma prefixStep_inv (hok : PrefixOk t op) :
    ∃ t', prefixStep table t op = some t' ∧ PrefixInv table t' (liveAfter lv op) := by
  cases op with
  | insert e =>
    obtain ⟨_, t', hr, -, h'⟩ := h.insert hok.1 hok.2
    exact ⟨t', by rw [prefixStep, hr]; rfl, h'⟩
  | remove a => exact h.remove hok.1 hok.2
  | find s k =>
    obtain ⟨_, t', hr, -, h'⟩ := h.find hup hok k
    exact ⟨t', by rw [prefixStep, hr]; rfl, h'⟩

end

lemma prefixRun_inv {o : List PrefixOp} (hup : KeepsBackslash table)
    (hrn : Run (prefixStep table) PrefixOk t o t') (h : PrefixInv table t lv) :
    PrefixInv table t' (o.foldl liveAfter lv) := by
  induction hrn generalizing lv with
  | nil => exact h
  | cons hok hs _ ih =>
    obtain ⟨t1, hr, h'⟩ := prefixStep_inv hup h hok
    obtain rfl := some.inj (hr.symm.trans hs)
    exact ih h'

/-- After every run a lookup finds a live prefix with the most names of those that fit, an
insertion reports a prefix that is there, and a removal ends unless the entry is a root with
others in its ring. -/
theorem lookup_longest (table : WChar → WChar) (hup : KeepsBackslash table) (ops : List PrefixOp) (t : PrefixTable)
    (hrun : Run (prefixStep table) PrefixOk rtlInitializeUnicodePrefix ops t) :
    (prefixEntries t).Perm (ops.foldl liveAfter []) ∧
    (∀ s ≠ [], ∀ k, ∃ found t', rtlFindUnicodePrefix table t s k = some (found, t') ∧
      (∀ e, found = some e → e ∈ ops.foldl liveAfter [] ∧ IsNamePrefix table k e.Prefix s ∧
        ∀ e' ∈ ops.foldl liveAfter [], IsNamePrefix table k e'.Prefix s →
          nameCount e'.Prefix ≤ nameCount e.Prefix) ∧
      (found = none ↔ ∀ e ∈ ops.foldl liveAfter [], ¬ IsNamePrefix table k e.Prefix s)) ∧
    (∀ e : PrefixEntry, CleanName e.Prefix → ∃ inserted t', rtlInsertUnicodePrefix table t e = some (inserted, t') ∧
      (inserted = false ↔ ∃ e' ∈ ops.foldl liveAfter [], e'.Prefix = e.Prefix)) ∧
    ∀ e ∈ ops.foldl liveAfter [], (rtlRemoveUnicodePrefix t e.Address).isSome ↔ ¬ RootWithMatches t e.Address := by
  have h := prefixRun_inv hup hrun PrefixInv.init
  refine ⟨h.perm, fun s hs k => ?_, fun e hc => ?_, fun e he => ⟨fun hsm hrt => ?_, fun hrt => ?_⟩⟩
  · obtain ⟨found, t', hr, hl, -⟩ := h.find hup hs k
    refine ⟨found, t', hr, fun e heq => ?_, fun heq => ?_, fun hn => ?_⟩
    · subst heq
      exact hl
    · subst heq
      exact hl
    cases found with
    | none => rfl
    | some e => exact absurd hl.2.1 (hn e hl.1)
  · rcases insertPrefix_spec h.ok hc with ⟨hr, e', he', hp⟩ | ⟨t', hr, hne, -⟩
    · exact ⟨false, t, hr, iff_of_true rfl ⟨e', h.perm.mem_iff.mp he', hp⟩⟩
    refine ⟨true, t', hr, iff_of_false nofun ?_⟩
    rintro ⟨e', he', hp⟩
    exact hne e' (h.perm.mem_iff.mpr he') hp
  · have hnodup := (h.perm.map PrefixEntry.Address).nodup_iff.mpr h.nodup
    rw [rtlRemove_eq_none hnodup hrt] at hsm
    cases hsm
  obtain ⟨t', hr, -⟩ := h.remove ⟨e, h.perm.mem_iff.mpr he, rfl⟩ hrt
  rw [hr]
  rfl

lemma asciiTable_keepsBackslash : KeepsBackslash asciiTable := by
  intro c h
  unfold rtlpUpcaseUnicodeChar asciiTable backslash at *
  split at h
  · exact h
  split at h
  · bv_omega
  · simpa using h

/-- `\a`, `\A` in its ring, and `\a\b`; then `\A` is removed. -/
theorem lookup_longest_three : ∃ t, Run (prefixStep asciiTable) PrefixOk rtlInitializeUnicodePrefix
    [.insert ⟨1, [0x5C, 0x61]⟩, .insert ⟨2, [0x5C, 0x41]⟩, .insert ⟨3, [0x5C, 0x61, 0x5C, 0x62]⟩, .remove 2] t ∧
    (prefixEntries t).Perm [⟨3, [0x5C, 0x61, 0x5C, 0x62]⟩, ⟨1, [0x5C, 0x61]⟩] ∧
    (rtlRemoveUnicodePrefix t 1).isSome := by
  have hr : ∃ t, Run (prefixStep asciiTable) PrefixOk rtlInitializeUnicodePrefix
      [.insert ⟨1, [0x5C, 0x61]⟩, .insert ⟨2, [0x5C, 0x41]⟩, .insert ⟨3, [0x5C, 0x61, 0x5C, 0x62]⟩, .remove 2] t ∧
      ¬ RootWithMatches t 1 :=
    ⟨_, .cons ⟨by decide, by decide⟩ rfl <| .cons ⟨by decide, by decide⟩ rfl <| .cons ⟨by decide, by decide⟩ rfl <|
      .cons ⟨by decide, by decide⟩ rfl (.nil _), by decide⟩
  obtain ⟨t, hr, hrt⟩ := hr
  obtain ⟨hp, -, -, hrm⟩ := lookup_longest asciiTable asciiTable_keepsBackslash _ t hr
  exact ⟨t, hr, hp, (hrm ⟨1, [0x5C, 0x61]⟩ (by decide)).mpr hrt⟩

/-- The removal of `\a` with `\A` in its ring does not end. With `\a` and `\A\` in the table, a lookup of `\A\` with
regard to case finds nothing: both are in one tree, and the search ends at the first. -/
theorem lookup_longest_fails : (∃ t, Run (prefixStep asciiTable) (fun _ _ => True) rtlInitializeUnicodePrefix
      [.insert ⟨1, [0x5C, 0x61]⟩, .insert ⟨2, [0x5C, 0x41]⟩] t ∧ rtlRemoveUnicodePrefix t 1 = none) ∧
    ∃ t, Run (prefixStep asciiTable) (fun _ _ => True) rtlInitializeUnicodePrefix
      [.insert ⟨1, [0x5C, 0x61]⟩, .insert ⟨2, [0x5C, 0x41, 0x5C]⟩] t ∧
      ⟨2, [0x5C, 0x41, 0x5C]⟩ ∈ prefixEntries t ∧
      (rtlFindUnicodePrefix asciiTable t [0x5C, 0x41, 0x5C] 3).map Prod.fst = some none :=
  ⟨⟨_, .cons trivial rfl <| .cons trivial rfl (.nil _), by decide⟩,
    ⟨_, .cons trivial rfl <| .cons trivial rfl (.nil _), by decide, by decide⟩⟩

end FreeNT.Rtl
