import Mathlib.Data.List.TakeWhile
import Mathlib.Data.List.Nodup
import Mathlib.Data.List.Pairwise
import FreeNT.Lib.Run
import FreeNT.Rtl.UnicodePrefix

/-!
# The entries of a prefix table

What can be reached through the trees and rings of a table (`prefixEntries`), whatever the order
of its prefixes: an insertion adds its entry or leaves the table (`insertInTrees_entries`), a
lookup keeps the nodes of every tree (`findInTrees_level`), and a removal takes out one entry
(`removeFromTrees_spec`). The removal of an entry that is the root of a tree and has others in
its ring does not end (`removeFromTrees_stuck`); every other one does.
-/

namespace FreeNT.Rtl

open List hiding after
open Option hiding toList

open SplayTree PrefixTree

def PrefixTree.entries (tree : PrefixTree) : List PrefixEntry := tree.Links.toList.flatMap PrefixNode.ring

def prefixEntries (t : PrefixTable) : List PrefixEntry := t.flatMap PrefixTree.entries

variable {table : WChar → WChar} {c k a : Nat} {n n' : PrefixNode} {e : PrefixEntry} {t ts al : PrefixTable}
  {tree : PrefixTree} {s : List WChar} {p : List (Frame PrefixNode)} {l r ls ls' : SplayTree PrefixNode}

lemma entry_mem_ring (n : PrefixNode) : n.Entry ∈ n.ring := mem_cons_self

lemma mem_prefixEntries : e ∈ prefixEntries t ↔ ∃ tree ∈ t, ∃ n ∈ tree.Links.toList, e ∈ n.ring := by
  simp [prefixEntries, entries]

lemma rings_middle (xs ys : List PrefixNode) (n : PrefixNode) :
    ((xs ++ n :: ys).flatMap PrefixNode.ring).Perm (n.ring ++ (xs ++ ys).flatMap PrefixNode.ring) :=
  perm_middle.flatMap_right PrefixNode.ring

/-! ## Finding -/

def PrefixTree.level (tree : PrefixTree) : Nat × List PrefixNode := (tree.NameLength, tree.Links.toList)

lemma prefixEntries_congr {t' : PrefixTable} (hs : t'.map PrefixTree.level = t.map PrefixTree.level) :
    prefixEntries t' = prefixEntries t := by
  have hf (u : PrefixTable) : prefixEntries u = (u.map level).flatMap fun l => l.2.flatMap PrefixNode.ring := by
    rw [flatMap_map]
    rfl
  rw [hf, hf, hs]

lemma findInTrees_level (ts : PrefixTable) :
    (findInTrees table s k ts).2.map PrefixTree.level = ts.map PrefixTree.level := by
  induction ts with
  | nil => rfl
  | cons tree ts ih =>
    have hnx : (tree :: (findInTrees table s k ts).2).map level = (tree :: ts).map level := by
      rw [map_cons, map_cons, ih]
    rw [findInTrees]
    cases hs : search (findTurn table s) tree.Links [] with
    | absent p => exact hnx
    | found p l n r =>
      have hp : plug p (.node l n r) = tree.Links := (search_found hs).1
      dsimp only
      split
      · simp [level, toList_splay, ← hp, toList_plug]
      · split
        · rfl
        · exact hnx

lemma rtlFind_level {found : Option PrefixEntry} {t' : PrefixTable}
    (h : rtlFindUnicodePrefix table t s k = some (found, t')) :
    t'.map PrefixTree.level = t.map PrefixTree.level := by
  obtain ⟨c, -, h⟩ := bind_eq_some_iff.mp h
  cases h
  rw [map_append, findInTrees_level, ← map_append, takeWhile_append_dropWhile]

/-! ## Inserting -/

lemma insertInTree_rings (h : insertInTree table ls e = some ls') :
    (ls'.toList.flatMap PrefixNode.ring).Perm (e :: ls.toList.flatMap PrefixNode.ring) := by
  unfold insertInTree at h
  split at h
  · rename_i p l n r hf
    have hp : plug p (.node l n r) = ls := (search_found hf).1
    split at h
    · cases h
    cases h
    rw [← hp, toList_plug_node, toList_splay]
    simp only [append_assoc, cons_append]
    rw [← append_assoc, ← append_assoc (before p)]
    exact (rings_middle _ _ _).trans (.trans (.swap e n.Entry _) ((rings_middle _ _ n).symm.cons e))
  · rename_i p hf
    cases h
    rw [← show plug p .nil = ls from search_absent_plug hf, toList_plug, toList_replace]
    exact rings_middle _ _ ⟨e, []⟩

lemma insertInTrees_entries (ts : PrefixTable) : insertInTrees table c e ts = (false, ts) ∨
    ∃ ts', insertInTrees table c e ts = (true, ts') ∧ (prefixEntries ts').Perm (e :: prefixEntries ts) := by
  induction ts with
  | nil => exact .inr ⟨_, rfl, .refl _⟩
  | cons tree ts ih =>
    rw [insertInTrees]
    split
    · rcases ih with heq | ⟨ts', heq, hp⟩
      · exact .inl (by rw [heq])
      · exact .inr ⟨tree :: ts', by rw [heq], (hp.append_left tree.entries).trans perm_middle⟩
    split
    · exact .inr ⟨_, rfl, .refl _⟩
    cases hr : insertInTree table tree.Links e with
    | none => exact .inl rfl
    | some ls => exact .inr ⟨_, rfl, (insertInTree_rings hr).append_right _⟩

/-! ## Removing -/

/-- What is left of a ring, if it is not the root with others in its ring that is to go. -/
def restOfRing (n : PrefixNode) (address : Nat) : Option PrefixNode :=
  if n.Entry.Address ≠ address then some { n with CaseMatch := n.CaseMatch.eraseP (·.Address == address) }
  else n.CaseMatch.getLast?.map fun last => ⟨last, n.CaseMatch.dropLast⟩

lemma restOfRing_some (ha : ∃ e ∈ n.ring, e.Address = a) (h : restOfRing n a = some n') :
    ∃ e, e.Address = a ∧ n.ring.Perm (e :: n'.ring) := by
  unfold restOfRing at h
  split at h
  swap
  · rename_i heq
    obtain ⟨lt, hl, rfl⟩ := map_eq_some_iff.mp h
    refine ⟨n.Entry, not_not.mp heq, List.Perm.cons n.Entry ?_⟩
    obtain ⟨es, hes⟩ := getLast?_eq_some_iff.mp hl
    rw [PrefixNode.ring, hes, dropLast_concat]
    exact perm_append_singleton lt es
  rename_i hne
  cases h
  obtain ⟨e, he, hea⟩ := ha
  have hm : e ∈ n.CaseMatch := by
    rcases mem_cons.mp he with rfl | he
    · exact absurd hea hne
    · exact he
  obtain ⟨e', es, es', -, hp, hc, her⟩ := exists_of_eraseP (p := (·.Address == a)) hm (by simp [hea])
  refine ⟨e', by simpa using hp, ?_⟩
  rw [PrefixNode.ring, PrefixNode.ring, her, hc]
  exact (perm_middle.cons n.Entry).trans (.swap e' n.Entry _)

lemma restOfRing_none (h : restOfRing n a = none) : ∃ e, e.Address = a ∧ n.ring = [e] := by
  unfold restOfRing at h
  split at h
  · cases h
  rename_i heq
  have hn := getLast?_eq_none_iff.mp (map_eq_none_iff.mp h)
  exact ⟨n.Entry, not_not.mp heq, by rw [PrefixNode.ring, hn]⟩

lemma rootAddress_plug (p : List (Frame PrefixNode)) (l : SplayTree PrefixNode) (n : PrefixNode)
    (r : SplayTree PrefixNode) : ∃ a, rootAddress (plug p (.node l n r)) = some a := by
  induction p generalizing l n r with
  | nil => exact ⟨n.Entry.Address, rfl⟩
  | cons f p ih => cases f <;> exact ih _ _ _

lemma removeFromTree_eq (ht : tree ∈ al) (hpl : plug p (.node l n r) = tree.Links)
    (hr : ¬ (p = [] ∧ n.Entry.Address = a ∧ n.CaseMatch ≠ [])) :
    removeFromTree al tree.Links a p l n r =
      some ((restOfRing n a).elim (remove l r p) fun n' => plug p (.node l n' r)) := by
  unfold removeFromTree restOfRing
  split
  · rfl
  rename_i heq
  cases hl : n.CaseMatch.getLast? with
  | some lt =>
    have hne : n.CaseMatch ≠ [] := by
      rintro hn
      rw [hn] at hl
      cases hl
    have hp : p ≠ [] := fun hn => hr ⟨hn, not_not.mp heq, hne⟩
    simp [hp]
  | none =>
    obtain ⟨b, hb⟩ := rootAddress_plug p l n r
    rw [hpl] at hb
    have hrf : referenced al b = true := any_eq_true.mpr ⟨tree, ht, by simp [hb]⟩
    simp [hb, hrf]
/-- A node is gone, or some of its ring. -/
def Shrunk (ns ns' : List PrefixNode) : Prop :=
  ∃ xs n ys, ns = xs ++ n :: ys ∧ (ns' = xs ++ ys ∨ ∃ n', (∀ e ∈ n'.ring, e ∈ n.ring) ∧ ns' = xs ++ n' :: ys)

lemma removeFromTree_spec (ht : tree ∈ al) (hp : plug p (.node l n r) = tree.Links)
    (ha : ∃ e ∈ n.ring, e.Address = a)
    (hrt : ¬ (p = [] ∧ n.Entry.Address = a ∧ n.CaseMatch ≠ [])) :
    ∃ ls' e, removeFromTree al tree.Links a p l n r = some ls' ∧ e.Address = a ∧
      Shrunk tree.Links.toList ls'.toList ∧
      tree.entries.Perm (e :: ls'.toList.flatMap PrefixNode.ring) := by
  rw [removeFromTree_eq ht hp hrt, entries, ← hp, toList_plug_node]
  have hrn := rings_middle (before p ++ l.toList) (r.toList ++ after p) n
  cases hr : restOfRing n a with
  | some n' =>
    obtain ⟨e, hea, hpr⟩ := restOfRing_some ha hr
    refine ⟨_, e, rfl, hea, ⟨_, n, _, rfl,
      .inr ⟨n', fun e' he' => hpr.mem_iff.mpr (mem_cons_of_mem e he'), ?_⟩⟩, ?_⟩
    · rw [elim_some, toList_plug_node]
    · rw [elim_some, toList_plug_node]
      exact hrn.trans ((hpr.append_right _).trans ((rings_middle _ _ n').symm.cons e))
  | none =>
    obtain ⟨e, hea, heq⟩ := restOfRing_none hr
    have hl : (remove l r p).toList = before p ++ l.toList ++ (r.toList ++ after p) := by simp [toList_remove]
    refine ⟨_, e, rfl, hea, ⟨_, n, _, rfl, .inl hl⟩, ?_⟩
    rw [elim_none, hl]
    rwa [heq] at hrn

/-- The entry at the address is the root of a tree and has others in its ring. -/
def RootWithMatches (t : PrefixTable) (a : Nat) : Prop :=
  ∃ tree ∈ t, ∃ l n r, tree.Links = .node l n r ∧ n.Entry.Address = a ∧ n.CaseMatch ≠ []

def rootHasMatches (a : Nat) : SplayTree PrefixNode → Bool
  | .nil => false
  | .node _ n _ => n.Entry.Address == a && !n.CaseMatch.isEmpty

lemma rootHasMatches_iff : rootHasMatches a ls ↔ ∃ l n r, ls = .node l n r ∧ n.Entry.Address = a ∧
    n.CaseMatch ≠ [] := by
  cases ls with
  | nil => simp [rootHasMatches]
  | node l n r => simp [rootHasMatches]

instance (t : PrefixTable) (a : Nat) : Decidable (RootWithMatches t a) :=
  decidable_of_iff (∃ tree ∈ t, rootHasMatches a tree.Links = true)
    (exists_congr fun _ => and_congr_right fun _ => rootHasMatches_iff)

/-- A removal takes out one entry, unless it is the root of a tree with others in its ring. -/
lemma removeFromTrees_spec (hal : ∀ tree ∈ ts, tree ∈ al) (ha : ∃ e ∈ prefixEntries ts, e.Address = a)
    (hr : ¬ RootWithMatches ts a) :
    ∃ ts' e, removeFromTrees al a ts = some ts' ∧ e.Address = a ∧
      (prefixEntries ts).Perm (e :: prefixEntries ts') ∧
      (ts'.map PrefixTree.NameLength).Sublist (ts.map PrefixTree.NameLength) ∧ ∀ b ∈ ts', ∃ tree ∈ ts,
        b.NameLength = tree.NameLength ∧ (b = tree ∨ Shrunk tree.Links.toList b.Links.toList) := by
  induction ts with
  | nil =>
    obtain ⟨e, he, -⟩ := ha
    cases he
  | cons tree ts ih =>
    rw [removeFromTrees]
    cases hl : locate (fun n => n.ring.any (·.Address == a)) tree.Links [] with
    | none =>
      -- the entry is in a later tree
      have hlt : ∃ e ∈ prefixEntries ts, e.Address = a := by
        obtain ⟨e, he, hea⟩ := ha
        rcases mem_append.mp he with he | he
        · obtain ⟨n, hn, he⟩ := mem_flatMap.mp he
          have hno := any_eq_false.mp (locate_none hl n hn) e he
          simp [hea] at hno
        · exact ⟨e, he, hea⟩
      have hr' : ¬ RootWithMatches ts a := by
        rintro ⟨tree', htr', hrs⟩
        exact hr ⟨tree', mem_cons_of_mem _ htr', hrs⟩
      obtain ⟨ts', e, heq, hea, hp, hsb, hsh⟩ := ih (fun _ ht => hal _ (mem_cons_of_mem _ ht)) hlt hr'
      refine ⟨tree :: ts', e, by rw [heq]; rfl, hea, (hp.append_left tree.entries).trans perm_middle, hsb.cons_cons _, ?_⟩
      intro b hb
      rcases mem_cons.mp hb with rfl | hb
      · exact ⟨b, mem_cons_self, rfl, .inl rfl⟩
      · obtain ⟨tree', htr', hb⟩ := hsh b hb
        exact ⟨tree', mem_cons_of_mem _ htr', hb⟩
    | some place =>
      obtain ⟨p, l, n, r⟩ := place
      obtain ⟨hpl, han⟩ := locate_some hl
      obtain ⟨e', he', hea'⟩ := any_eq_true.mp han
      have hnt : ¬ (p = [] ∧ n.Entry.Address = a ∧ n.CaseMatch ≠ []) := by
        rintro ⟨rfl, hea, hne⟩
        exact hr ⟨tree, mem_cons_self, l, n, r, hpl.symm, hea, hne⟩
      obtain ⟨ls', e, heq, hea, hs, hp⟩ :=
        removeFromTree_spec (hal tree mem_cons_self) hpl ⟨e', he', by simpa using hea'⟩ hnt
      have hts : ∀ b ∈ ts, ∃ tree' ∈ tree :: ts, b.NameLength = tree'.NameLength ∧
          (b = tree' ∨ Shrunk tree'.Links.toList b.Links.toList) :=
        fun b hb => ⟨b, mem_cons_of_mem _ hb, rfl, .inl rfl⟩
      dsimp only
      rw [heq]
      cases ls' with
      | nil => exact ⟨ts, e, rfl, hea, hp.append_right _, sublist_cons_self _ _, hts⟩
      | node l' n' r' =>
        refine ⟨{ tree with Links := .node l' n' r' } :: ts, e, rfl, hea, hp.append_right _, .refl _, ?_⟩
        exact forall_mem_cons.mpr ⟨⟨tree, mem_cons_self, rfl, .inr hs⟩, hts⟩

section Stuck

variable (hnodup : ((prefixEntries t).map PrefixEntry.Address).Nodup)

include hnodup

lemma referenced_caseMatch (ht : tree ∈ t) (hln : tree.Links = .node l n r) (he : e ∈ n.CaseMatch) :
    referenced t e.Address = false := by
  rw [Bool.eq_false_iff]
  intro hrf
  obtain ⟨tree', ht', hr⟩ := any_eq_true.mp hrf
  obtain ⟨l', n', r', hln'⟩ : ∃ l' n' r', tree'.Links = .node l' n' r' := by
    cases hl : tree'.Links with
    | nil => simp [hl, rootAddress] at hr
    | node l' n' r' => exact ⟨l', n', r', rfl⟩
  have hn : n ∈ tree.Links.toList := by simp [hln]
  have hn' : n' ∈ tree'.Links.toList := by simp [hln']
  have heq : n'.Entry = e := by
    refine inj_on_of_nodup_map hnodup (mem_prefixEntries.mpr ⟨tree', ht', n', hn', entry_mem_ring n'⟩)
      (mem_prefixEntries.mpr ⟨tree, ht, n, hn, mem_cons_of_mem _ he⟩) ?_
    simpa [hln', rootAddress] using hr
  obtain ⟨hnd, hdj⟩ := nodup_flatMap.mp hnodup.of_map
  -- both are in one tree
  obtain rfl : tree' = tree := by
    by_contra hne
    have : Std.Symm (Function.onFun List.Disjoint entries) := ⟨fun _ _ h _ ha hb => h hb ha⟩
    exact hdj.forall ht' ht hne (mem_flatMap.mpr ⟨n', hn', heq ▸ entry_mem_ring n'⟩)
      (mem_flatMap.mpr ⟨n, hn, mem_cons_of_mem _ he⟩)
  obtain ⟨-, rfl, -⟩ := SplayTree.node.inj (hln.symm.trans hln')
  exact (nodup_cons.mp ((nodup_flatMap.mp (hnd tree' ht)).1 n hn)).1 (heq ▸ he)

end Stuck

lemma removeFromTrees_stuck (hnodup : ((prefixEntries ts).map PrefixEntry.Address).Nodup)
    (hrf : ∀ tree ∈ ts, ∀ l n r, tree.Links = .node l n r → ∀ e ∈ n.CaseMatch, referenced al e.Address = false)
    (hr : RootWithMatches ts a) : removeFromTrees al a ts = none := by
  induction ts with
  | nil =>
    obtain ⟨tree, htr, -⟩ := hr
    cases htr
  | cons tree ts ih =>
    obtain ⟨tree', htr', l, n, r, hl, hea, hne⟩ := hr
    rw [removeFromTrees]
    rcases mem_cons.mp htr' with rfl | htr'
    · have hlc : locate (fun n => n.ring.any (·.Address == a)) tree'.Links [] = some ([], l, n, r) := by
        simp [hl, locate, PrefixNode.ring, hea]
      obtain ⟨lt, hls⟩ : ∃ lt, n.CaseMatch.getLast? = some lt := ⟨_, getLast?_eq_some_getLast hne⟩
      have hf := hrf tree' mem_cons_self l n r hl lt (mem_of_getLast? hls)
      simp [hlc, removeFromTree, hea, hls, hf]
    -- no other tree has an entry at the address
    have hlc : locate (fun n => n.ring.any (·.Address == a)) tree.Links [] = none := by
      rw [← not_isSome_iff_eq_none, isSome_iff_exists]
      rintro ⟨⟨p, l', n', r'⟩, hs⟩
      obtain ⟨hp, ha⟩ := locate_some hs
      obtain ⟨e, he, hea'⟩ := any_eq_true.mp ha
      have hn' : n' ∈ tree.Links.toList := by
        rw [← show plug p (.node l' n' r') = tree.Links from hp, toList_plug_node]
        simp
      have hm : n.Entry ∈ prefixEntries ts :=
        mem_prefixEntries.mpr ⟨tree', htr', n, by simp [hl], entry_mem_ring n⟩
      rw [prefixEntries, flatMap_cons, map_append, nodup_append] at hnodup
      refine hnodup.2.2 a (mem_map.mpr ⟨e, mem_flatMap.mpr ⟨n', hn', he⟩, by simpa using hea'⟩) a ?_ rfl
      exact mem_map.mpr ⟨n.Entry, hm, hea⟩
    rw [hlc]
    rw [prefixEntries, flatMap_cons, map_append] at hnodup
    have htl := ih hnodup.of_append_right (fun tree ht => hrf tree (mem_cons_of_mem _ ht)) ⟨tree',
      htr', l, n, r, hl, hea, hne⟩
    simp [htl]

/-! ## Runs -/

inductive PrefixOp where
  | insert (entry : PrefixEntry)
  | remove (address : Nat)
  | find (fullName : List WChar) (caseInsensitiveIndex : Nat)

def prefixStep (table : WChar → WChar) (t : PrefixTable) : PrefixOp → Option PrefixTable
  | .insert entry => (rtlInsertUnicodePrefix table t entry).map Prod.snd
  | .remove address => rtlRemoveUnicodePrefix t address
  | .find fullName caseInsensitiveIndex => (rtlFindUnicodePrefix table t fullName caseInsensitiveIndex).map Prod.snd

/-- An entry that is inserted is not in the table, and one that is removed is. -/
def PrefixCall (t : PrefixTable) : PrefixOp → Prop
  | .insert entry => ∀ e ∈ prefixEntries t, e.Address ≠ entry.Address
  | .remove address => ∃ e ∈ prefixEntries t, e.Address = address
  | .find _ _ => True

instance (t : PrefixTable) : DecidablePred (PrefixCall t)
  | .insert entry => inferInstanceAs (Decidable (∀ e ∈ prefixEntries t, e.Address ≠ entry.Address))
  | .remove address => inferInstanceAs (Decidable (∃ e ∈ prefixEntries t, e.Address = address))
  | .find _ _ => inferInstanceAs (Decidable True)

section Nodup

variable {t' : PrefixTable} {op : PrefixOp} (hn : ((prefixEntries t).map PrefixEntry.Address).Nodup)

include hn

lemma rtlRemove_eq_none (hr : RootWithMatches t a) : rtlRemoveUnicodePrefix t a = none :=
  removeFromTrees_stuck hn (fun _ ht _ _ _ hl _ he => referenced_caseMatch hn ht hl he) hr

lemma rtlRemove_spec (h : rtlRemoveUnicodePrefix t a = some t') (ha : ∃ e ∈ prefixEntries t, e.Address = a) :
    ∃ e, e.Address = a ∧ (prefixEntries t).Perm (e :: prefixEntries t') := by
  have hr : ¬ RootWithMatches t a := fun hr => by simp [rtlRemove_eq_none hn hr] at h
  obtain ⟨t1, e, heq, hea, hp, -⟩ := removeFromTrees_spec (fun _ ht => ht) ha hr
  obtain rfl := some.inj (heq.symm.trans h)
  exact ⟨e, hea, hp⟩

lemma prefixStep_nodup (hc : PrefixCall t op) (h : prefixStep table t op = some t') :
    ((prefixEntries t').map PrefixEntry.Address).Nodup := by
  cases op with
  | insert e =>
    obtain ⟨⟨b, t1⟩, hi, rfl⟩ := map_eq_some_iff.mp h
    obtain ⟨c, -, hi⟩ := bind_eq_some_iff.mp hi
    have hi : insertInTrees table c e t = (b, t1) := some.inj hi
    rcases insertInTrees_entries t with heq | ⟨ts', heq, hp⟩
    · cases hi.symm.trans heq
      exact hn
    cases hi.symm.trans heq
    refine (hp.map _).nodup_iff.mpr (nodup_cons.mpr ⟨fun hm => ?_, hn⟩)
    obtain ⟨e', he', heq⟩ := mem_map.mp hm
    exact hc e' he' heq
  | remove a =>
    obtain ⟨e, -, hp⟩ := rtlRemove_spec hn h hc
    exact (nodup_cons.mp ((hp.map PrefixEntry.Address).nodup_iff.mp hn)).2
  | find s k =>
    obtain ⟨⟨f, t1⟩, hf, rfl⟩ := map_eq_some_iff.mp h
    rwa [prefixEntries_congr (rtlFind_level hf)]

end Nodup

lemma prefixRun_nodup {o : List PrefixOp} (h : Run (prefixStep table) PrefixCall rtlInitializeUnicodePrefix o t) :
    ((prefixEntries t).map PrefixEntry.Address).Nodup :=
  h.invariant (fun t => ((prefixEntries t).map PrefixEntry.Address).Nodup) prefixStep_nodup .nil

/-- In every table the removal of an entry ends, and leaves exactly the other entries, if and only
if the entry is not the root of a tree with others in its ring. -/
theorem prefix_removed (table : WChar → WChar) (o : List PrefixOp) (t : PrefixTable)
    (h : Run (prefixStep table) PrefixCall rtlInitializeUnicodePrefix o t) (e : PrefixEntry)
      (he : e ∈ prefixEntries t) :
    (∃ t', rtlRemoveUnicodePrefix t e.Address = some t' ∧ (prefixEntries t).Perm (e :: prefixEntries t')) ↔
      ¬ RootWithMatches t e.Address := by
  have hn := prefixRun_nodup h
  constructor
  · rintro ⟨t', h', -⟩ hr
    simp [rtlRemove_eq_none hn hr] at h'
  intro hr
  obtain ⟨t', e', heq, hea, hp, -⟩ := removeFromTrees_spec (fun _ ht => ht) ⟨e, he, rfl⟩ hr
  obtain rfl := inj_on_of_nodup_map hn (hp.mem_iff.mpr mem_cons_self) he hea
  exact ⟨t', heq, hp⟩

/-- A table of the ASCII letters. -/
def asciiTable : WChar → WChar := fun _ => 0

/-- `\a`, with `\A` in its ring: the latter is removed. -/
theorem prefix_removed_match : ∃ t, Run (prefixStep asciiTable) PrefixCall rtlInitializeUnicodePrefix
    [.insert ⟨1, [0x5C, 0x61]⟩, .insert ⟨2, [0x5C, 0x41]⟩] t ∧
    ∃ t', rtlRemoveUnicodePrefix t 2 = some t' ∧
      (prefixEntries t).Perm (⟨2, [0x5C, 0x41]⟩ :: prefixEntries t') := by
  have h : ∃ t, Run (prefixStep asciiTable) PrefixCall rtlInitializeUnicodePrefix
      [.insert ⟨1, [0x5C, 0x61]⟩, .insert ⟨2, [0x5C, 0x41]⟩] t ∧
        ⟨2, [0x5C, 0x41]⟩ ∈ prefixEntries t ∧ ¬ RootWithMatches t 2 :=
    ⟨_, .cons (by decide) rfl <| .cons (by decide) rfl (.nil _), by decide, by decide⟩
  obtain ⟨t, h, he, hr⟩ := h
  exact ⟨t, h, (prefix_removed asciiTable _ t h ⟨2, [0x5C, 0x41]⟩ he).mpr hr⟩

/-- The removal of the former does not end. -/
theorem prefix_removed_root : ∃ t, Run (prefixStep asciiTable) PrefixCall rtlInitializeUnicodePrefix
    [.insert ⟨1, [0x5C, 0x61]⟩, .insert ⟨2, [0x5C, 0x41]⟩] t ∧ ⟨1, [0x5C, 0x61]⟩ ∈ prefixEntries t ∧
    rtlRemoveUnicodePrefix t 1 = none :=
  ⟨_, .cons (by decide) rfl <| .cons (by decide) rfl (.nil _), by decide, by decide⟩

end FreeNT.Rtl
