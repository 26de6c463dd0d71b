import FreeNT.Rtl.PrefixEntries

/-!
# Enumerating a prefix table

`RtlNextUnicodePrefix` goes on from the entry it returned last: to the next one of its ring, then
to the next node of the tree, and after the last node to the next tree of the chain. There the
source does not take the links of that tree, but starts again at the first node of the tree it
comes from. For a last node that has others in its ring it reads the `NextPrefixTree` of one of
these, which is NULL.

So an enumeration returns every entry once if and only if there is no more than one tree, and its
last node has no others in its ring (`prefix_enumerated`).
-/

namespace FreeNT.Rtl

open List hiding after
open Option hiding toList

open SplayTree PrefixTree

def headNode : SplayTree PrefixNode → Option PrefixNode
  | .nil => none
  | .node l n r => some (leftmost l n r []).2.1

/-- The entry after the one at `address`, in the ring of the node `n`, before the trees `rest`;
`none` is an access to NULL. The parent of an entry in a ring is itself, so that it counts as a
root. -/
def nextInTree (links : SplayTree PrefixNode) (rest : PrefixTable) (address : Nat) (path : List (Frame PrefixNode))
    (n : PrefixNode) (r : SplayTree PrefixNode) : Option (Option PrefixEntry) :=
  match (n.ring.dropWhile (·.Address != address)).tail.head? with
  | some e => some (some e)
  | none =>
    match next r path with
    | some n' => some (some n'.Entry)
    | none =>
      if n.Entry.Address ≠ address then none
      else if rest.isEmpty then some none
      -- `SplayLinks` is still the root of this tree
      else (headNode links).map (some ·.Entry)

def nextAfter (address : Nat) : PrefixTable → Option (Option PrefixEntry)
  | [] => none
  | tree :: trees =>
    match locate (fun n => n.ring.any (·.Address == address)) tree.Links [] with
    | some (path, _, n, r) => nextInTree tree.Links trees address path n r
    | none => nextAfter address trees

/-- `RtlNextUnicodePrefix`: the entry, or NULL, which becomes `LastNextEntry` unless it is NULL. -/
def rtlNextUnicodePrefix (t : PrefixTable) (lastNextEntry : Option Nat) (restart : Bool) :
    Option (Option PrefixEntry) :=
  match if restart then none else lastNextEntry with
  | some address => nextAfter address t
  | none =>
    match t with
    | [] => some none
    | tree :: _ => (headNode tree.Links).map (some ·.Entry)

/-- The entries that calls return until one returns NULL, at most `fuel` calls. -/
def enumerate (t : PrefixTable) : Nat → Option Nat → Bool → Option (List PrefixEntry)
  | 0, _, _ => none
  | fuel + 1, lastNextEntry, restart => do
    match ← rtlNextUnicodePrefix t lastNextEntry restart with
    | none => return []
    | some e => return e :: (← enumerate t fuel (some e.Address) false)

variable {table : WChar → WChar} {k : Nat} {e : PrefixEntry} {tree : PrefixTree} {w : PrefixTable}
  {xs : List PrefixNode}
  {n : PrefixNode} {u vs : List PrefixEntry}

lemma headNode_eq (t : SplayTree PrefixNode) : headNode t = t.toList.head? := by
  cases t with
  | nil => rfl
  | node l n r => simpa [headNode] using (head_leftmost l n r [] []).symm

lemma headNode_entry : (headNode tree.Links).map PrefixNode.Entry = tree.entries.head? := by
  rw [headNode_eq, entries]
  cases tree.Links.toList with
  | nil => rfl
  | cons n ns => rfl

lemma rtlNext_restart (lt : Option Nat) : rtlNextUnicodePrefix (tree :: w)
    lt true = tree.entries.head?.map some := by
  rw [← headNode_entry, Option.map_map]
  rfl

section Walk

variable (hn : (tree.entries.map PrefixEntry.Address).Nodup)

include hn

lemma nextAfter_cases (hl : tree.entries = u ++ e :: vs) : ∃ xs n ys es fs p r, tree.Links.toList = xs ++ n :: ys ∧
    n.ring = es ++ e :: fs ∧ vs = fs ++ ys.flatMap PrefixNode.ring ∧ next r p = ys.head? ∧
    (n.ring.dropWhile (·.Address != e.Address)).tail = fs ∧
    nextAfter e.Address (tree :: w) = nextInTree tree.Links w e.Address p n r := by
  obtain ⟨n, hnm, her⟩ := mem_flatMap.mp (show e ∈ tree.entries by simp [hl])
  cases hc : locate (fun n => n.ring.any (·.Address == e.Address)) tree.Links [] with
  | none =>
    have := any_eq_false.mp (locate_none hc n hnm) e her
    simp at this
  | some place =>
    obtain ⟨p, l, m, r⟩ := place
    obtain ⟨hp, ha⟩ := locate_some hc
    obtain ⟨e', he', hea⟩ := any_eq_true.mp ha
    have hts : tree.Links.toList = before p ++ l.toList ++ m :: (r.toList ++ after p) :=
      (congrArg toList hp).symm.trans (toList_plug_node p l m r)
    have hm : m ∈ tree.Links.toList := by simp [hts]
    obtain rfl : e' = e := inj_on_of_nodup_map hn (mem_flatMap.mpr ⟨m, hm, he'⟩)
      (mem_flatMap.mpr ⟨n, hnm, her⟩) (by simpa using hea)
    obtain ⟨es, fs, hr⟩ := append_of_mem he'
    have hfl : u ++ e' :: vs = ((before p ++ l.toList).flatMap PrefixNode.ring ++ es) ++ e' ::
        (fs ++ (r.toList ++ after p).flatMap PrefixNode.ring) := by
      rw [← hl, entries, hts, flatMap_append, flatMap_cons, hr]
      simp
    have hnd : (u ++ e' :: vs).Nodup := hl ▸ hn.of_map
    obtain ⟨hu, hv⟩ : e' ∉ u ∧ e' ∉ vs := by
      obtain ⟨-, hcn, hdj⟩ := nodup_append.mp hnd
      exact ⟨fun h => hdj e' h e' mem_cons_self rfl, (nodup_cons.mp hcn).1⟩
    obtain ⟨hus, -, hvs⟩ := (append_cons_inj_of_notMem hu hv).mp hfl
    refine ⟨_, m, _, es, fs, p, r, hts, hr, hvs, next_eq r p, ?_, by rw [nextAfter, hc]⟩
    have hes : ∀ e ∈ es, (e.Address != e'.Address) = true := by
      intro e he
      refine bne_iff_ne.mpr fun heq => hu ?_
      have hm' : e ∈ tree.entries := mem_flatMap.mpr ⟨m, hm, by simp [hr, he]⟩
      rw [← inj_on_of_nodup_map hn hm' (by simp [hl]) heq, hus]
      exact mem_append_right _ he
    rw [hr, dropWhile_append_of_pos hes, dropWhile_cons_of_neg (by simp), tail_cons]

lemma nextAfter_cons {v : PrefixEntry} (hl : tree.entries = u ++ e :: v :: vs) :
    nextAfter e.Address (tree :: w) = some (some v) := by
  obtain ⟨xs, n, ys, es, fs, p, r, -, -, hvs, hx, hd, heq⟩ := nextAfter_cases (w := w) hn hl
  rw [heq, nextInTree, hd]
  cases fs with
  | cons f fs =>
    cases hvs
    rfl
  | nil =>
    rw [hx]
    cases ys with
    | nil => cases hvs
    | cons m ys =>
      cases hvs
      rfl

lemma nextAfter_last (hl : tree.entries = u ++ [e]) : ∃ xs n, tree.Links.toList = xs ++ [n] ∧
    nextAfter e.Address (tree :: w) = if n.CaseMatch ≠ [] then none else if w.isEmpty then some none
      else tree.entries.head?.map some := by
  obtain ⟨xs, n, ys, es, fs, p, r, hts, hr, hvs, hx, hd, heq⟩ := nextAfter_cases (w := w) hn hl
  obtain ⟨rfl, hys⟩ := append_eq_nil_iff.mp hvs.symm
  have hy : ys = [] := by
    cases ys with
    | nil => rfl
    | cons m ys => cases hys
  subst hy
  refine ⟨xs, n, hts, ?_⟩
  rw [heq, nextInTree, hd, hx]
  have hne : n.Entry.Address ≠ e.Address ↔ n.CaseMatch ≠ [] := by
    cases es with
    | nil =>
      obtain ⟨rfl, hc⟩ := cons.inj hr
      simp [hc]
    | cons f es =>
      obtain ⟨hf, hc⟩ := cons.inj hr
      have hm : f ∈ tree.entries := mem_flatMap.mpr ⟨n, by simp [hts], by simp [hr]⟩
      have hme : e ∈ tree.entries := by simp [hl]
      refine iff_of_true (fun ha => ?_) (by simp [hc])
      have hfe := inj_on_of_nodup_map hn hm hme (hf ▸ ha)
      have hnr : n.ring.Nodup := (nodup_flatMap.mp hn.of_map).1 n (by simp [hts])
      simp [hr, hfe] at hnr
  simp only [hne, head?_nil, ← headNode_entry, Option.map_map]
  rfl

lemma enumerate_tree (hts : tree.Links.toList = xs ++ [n]) (hc : n.CaseMatch = [])
    (hl : tree.entries = u ++ e :: vs) :
    enumerate [tree] (vs.length + 1) (some e.Address) false = some vs := by
  induction vs generalizing u e with
  | nil =>
    obtain ⟨xs', n', hts', heq⟩ := nextAfter_last (w := []) hn hl
    obtain ⟨-, hnn⟩ := append_inj' (hts.symm.trans hts') rfl
    cases hnn
    simp [enumerate, rtlNextUnicodePrefix, heq, hc]
  | cons v vs ih =>
    have hr := ih (u := u ++ [e]) (e := v) (by simp [hl])
    rw [length_cons, enumerate]
    simp only [rtlNextUnicodePrefix, Bool.false_eq_true, if_false, nextAfter_cons hn hl, do_some]
    rw [hr]
    rfl

lemma of_enumerate {es : List PrefixEntry} (he : e ∈ tree.entries)
    (h : enumerate (tree :: w) k (some e.Address) false = some es) :
    w = [] ∧ ∃ xs n, tree.Links.toList = xs ++ [n] ∧ n.CaseMatch = [] := by
  induction k generalizing e es with
  | zero => cases h
  | succ k ih =>
    -- from an entry of the tree a call goes to another one
    have hgo {v : PrefixEntry} (hv : v ∈ tree.entries) (heq : nextAfter e.Address (tree :: w) = some (some v)) :
        w = [] ∧ ∃ xs n, tree.Links.toList = xs ++ [n] ∧ n.CaseMatch = [] := by
      rw [enumerate] at h
      simp only [rtlNextUnicodePrefix, Bool.false_eq_true, if_false, heq, do_some] at h
      obtain ⟨es', h, -⟩ := bind_eq_some_iff.mp h
      exact ih hv h
    obtain ⟨u, vs, hl⟩ := append_of_mem he
    cases vs with
    | cons v vs => exact hgo (by simp [hl]) (nextAfter_cons hn hl)
    | nil =>
      obtain ⟨xs, n, hts, heq⟩ := nextAfter_last (w := w) hn hl
      by_cases hc : n.CaseMatch = []
      · cases w with
        | nil => exact ⟨rfl, xs, n, hts, hc⟩
        | cons tree' w =>
          obtain ⟨v, hv⟩ : ∃ v, tree.entries.head? = some v := by cases u <;> simp [hl]
          exact hgo (mem_of_mem_head? hv) (by simp [heq, hc, hv])
      · rw [if_pos hc] at heq
        simp [enumerate, rtlNextUnicodePrefix, heq] at h

lemma of_enumerate_restart {lt : Option Nat} {es : List PrefixEntry}
    (h : enumerate (tree :: w) k lt true = some es) :
    w = [] ∧ ∃ xs n, tree.Links.toList = xs ++ [n] ∧ n.CaseMatch = [] := by
  cases k with
  | zero => cases h
  | succ k =>
    obtain ⟨_ | v, hv, h⟩ := bind_eq_some_iff.mp h
    · simp [rtlNext_restart] at hv
    obtain ⟨es', h, -⟩ := bind_eq_some_iff.mp h
    exact of_enumerate hn (mem_of_mem_head? (by simpa [rtlNext_restart] using hv)) h

end Walk

/-- In every table the calls return every entry once, and then NULL, if and only if there is at
most one tree and its last node has no others in its ring. -/
theorem prefix_enumerated (table : WChar → WChar) (ops : List PrefixOp) (t : PrefixTable)
    (h : Run (prefixStep table) PrefixCall rtlInitializeUnicodePrefix ops t) (lastNextEntry : Option Nat) :
    (∃ fuel es, enumerate t fuel lastNextEntry true = some es ∧ es.Perm (prefixEntries t)) ↔
      t = [] ∨ ∃ tree xs n, t = [tree] ∧ tree.Links.toList = xs ++ [n] ∧ n.CaseMatch = [] := by
  have hn := prefixRun_nodup h
  cases t with
  | nil => exact iff_of_true ⟨1, [], rfl, .refl _⟩ (.inl rfl)
  | cons tree w =>
    have hnt : (tree.entries.map PrefixEntry.Address).Nodup := by
      rw [prefixEntries, flatMap_cons, map_append] at hn
      exact hn.of_append_left
    constructor
    · rintro ⟨k, es, hen, -⟩
      obtain ⟨rfl, xs, n, hts, hc⟩ := of_enumerate_restart hnt hen
      exact .inr ⟨tree, xs, n, rfl, hts, hc⟩
    · rintro (hnl | ⟨tree', xs, n, heq, hts, hc⟩)
      · cases hnl
      cases heq
      obtain ⟨v, vs, hl⟩ : ∃ v vs, tree.entries = v :: vs := by
        refine exists_cons_of_ne_nil fun hnl => ?_
        simp [entries, hts, PrefixNode.ring] at hnl
      refine ⟨vs.length + 2, v :: vs, ?_, by simp [prefixEntries, hl]⟩
      have hr := enumerate_tree hnt hts hc (u := []) hl
      rw [enumerate, rtlNext_restart, hl]
      simp [hr]

/-- `\a` and `\b` are in one tree. -/
theorem prefix_enumerated_two : ∃ t, Run (prefixStep asciiTable) PrefixCall rtlInitializeUnicodePrefix
    [.insert ⟨1, [0x5C, 0x61]⟩, .insert ⟨2, [0x5C, 0x62]⟩] t ∧
    ∃ fuel es, enumerate t fuel none true = some es ∧ es.Perm (prefixEntries t) := by
  have h : ∃ t, Run (prefixStep asciiTable) PrefixCall rtlInitializeUnicodePrefix
      [.insert ⟨1, [0x5C, 0x61]⟩, .insert ⟨2, [0x5C, 0x62]⟩] t ∧
      ∃ tree xs n, t = [tree] ∧ tree.Links.toList = xs ++ [n] ∧ n.CaseMatch = [] :=
    ⟨_, .cons (by decide) rfl <| .cons (by decide) rfl (.nil _),
      _, [⟨⟨1, [0x5C, 0x61]⟩, []⟩], ⟨⟨2, [0x5C, 0x62]⟩, []⟩, rfl, rfl, rfl⟩
  obtain ⟨t, h, hc⟩ := h
  exact ⟨t, h, (prefix_enumerated asciiTable _ t h none).mpr (.inr hc)⟩

/-- `\a` and `\a\b` are in two trees, and `\A` is in the ring of `\a`: neither enumeration ends with NULL. -/
theorem prefix_enumerated_fails : (∃ t, Run (prefixStep asciiTable) PrefixCall rtlInitializeUnicodePrefix
      [.insert ⟨1, [0x5C, 0x61]⟩, .insert ⟨2, [0x5C, 0x61, 0x5C, 0x62]⟩] t ∧ ∀ fuel,
        enumerate t fuel none true = none) ∧
    ∃ t, Run (prefixStep asciiTable) PrefixCall rtlInitializeUnicodePrefix
      [.insert ⟨1, [0x5C, 0x61]⟩, .insert ⟨2, [0x5C, 0x41]⟩] t ∧ ∀ fuel, enumerate t fuel none true = none := by
  constructor
  · refine ⟨_, .cons (by decide) rfl <| .cons (by decide) rfl (.nil _), fun k =>
      eq_none_iff_forall_ne_some.mpr fun es h => ?_⟩
    cases (of_enumerate_restart (by decide) h).1
  · refine ⟨_, .cons (by decide) rfl <| .cons (by decide) rfl (.nil _), fun k =>
      eq_none_iff_forall_ne_some.mpr fun es h => ?_⟩
    obtain ⟨-, xs, n, hts, hc⟩ := of_enumerate_restart (by decide) h
    obtain ⟨-, heq⟩ := append_inj' (show [] ++ [⟨⟨1, [0x5C, 0x61]⟩, [⟨2, [0x5C, 0x41]⟩]⟩] = xs ++ [n] from hts) rfl
    cases heq
    cases hc

end FreeNT.Rtl
