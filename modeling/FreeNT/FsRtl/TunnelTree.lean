import FreeNT.Lib.SearchTree
import FreeNT.FsRtl.Tunnel

/-!
# The tree and the queue of a tunnel cache

`CacheOk`: the links are those of a search tree, in which greater keys are to the left
(`keyOrder`), and the queue has the same entries. What the routines do is described by the
entries in order: pruning removes those that are expired (`prune_spec`), adding puts a new
entry in the place of one with the same key (`insertEntry_spec`), and deleting removes the
entries of a directory from the first one that its search comes to (`deleteKey_spec`),
which goes the other way.
-/

namespace FreeNT.FsRtl

open List hiding after nil
open Option hiding filter_filter

open SplayTree FreeNT.Rtl Nat Tunnel

/-! ## The order of the keys -/

/-- A directory, and a name. -/
abbrev TunnelKey := Nat × List Nat

def TunnelNodeEntry.key (e : TunnelNodeEntry) : TunnelKey := (e.DirectoryKey, e.keyName)

/-- Names without their case. -/
def upcased (env : TunnelEnv) (k : TunnelKey) : TunnelKey := (k.1, k.2.map env.rtlpUpcaseUnicodeChar)

/-- Directories first, then names. -/
def keyCompare (k k' : TunnelKey) : Ordering := (compare k.1 k'.1).then (List.compareLex compare k.2 k'.2)

/-- The order of the tree: greater keys come first. -/
def keyOrder (env : TunnelEnv) (k k' : TunnelKey) : Ordering := keyCompare (upcased env k') (upcased env k)

lemma transCmp_on {β γ : Type} (f : β → γ) (cm : γ → γ → Ordering) [Std.TransCmp cm] :
    Std.TransCmp fun a b => cm (f a) (f b) where
  eq_swap := Std.OrientedCmp.eq_swap
  isLE_trans := Std.TransCmp.isLE_trans

instance : Std.TransCmp keyCompare :=
  have : Std.TransCmp fun (a b : TunnelKey) => compare a.1 b.1 := transCmp_on Prod.fst compare
  have : Std.TransCmp fun (a b : TunnelKey) => List.compareLex compare a.2 b.2 :=
    transCmp_on Prod.snd (List.compareLex compare)
  inferInstanceAs (Std.TransCmp (compareLex (fun (a b : TunnelKey) => compare a.1 b.1) fun a b =>
    List.compareLex compare a.2 b.2))

instance (env : TunnelEnv) : Std.TransCmp (keyOrder env) :=
  have : Std.TransCmp fun (a b : TunnelKey) => keyCompare b a := Std.TransCmp.opposite
  transCmp_on (upcased env) fun a b => keyCompare b a

variable {en : TunnelEnv}

lemma keyOrder_eq {k k' : TunnelKey} : keyOrder en k k' = .eq ↔ upcased en k = upcased en k' := by
  rw [keyOrder, keyCompare, Ordering.then_eq_eq, Nat.compare_eq_eq,
    Std.LawfulEqCmp.compare_eq_iff_eq, Prod.ext_iff]
  exact and_congr eq_comm eq_comm

lemma directory_le_of_lt {k k' : TunnelKey} (h : keyOrder en k k' = .lt) : k'.1 ≤ k.1 := by
  rw [keyOrder, keyCompare, Ordering.then_eq_lt, Nat.compare_eq_lt, Nat.compare_eq_eq] at h
  simp only [upcased] at h
  omega

/-- The order that a result of `FsRtlCompareNodeAndKey` stands for. -/
def orderOf (result : Int) : Ordering := if result > 0 then .lt else if result = 0 then .eq else .gt

lemma orderOf_sub (a b : Nat) : orderOf ((a : Int) - b) = compare b a := by
  rcases lt_trichotomy a b with h | h | h
  · rw [Nat.compare_eq_gt.mpr h, orderOf, if_neg (by omega), if_neg (by omega)]
  · rw [Nat.compare_eq_eq.mpr h.symm, orderOf, if_neg (by omega), if_pos (by omega)]
  · rw [Nat.compare_eq_lt.mpr h, orderOf, if_pos (by omega)]

lemma rtlCompareUnicodeString_cons (a b : Nat) (as bs : List Nat) :
    rtlCompareUnicodeString en (a :: as) (b :: bs) =
    if (en.rtlpUpcaseUnicodeChar a : Int) - en.rtlpUpcaseUnicodeChar b = 0 then rtlCompareUnicodeString en as bs
    else (en.rtlpUpcaseUnicodeChar a : Int) - en.rtlpUpcaseUnicodeChar b := by
  by_cases hr : (en.rtlpUpcaseUnicodeChar a : Int) - en.rtlpUpcaseUnicodeChar b = 0
  · have hl : 2 * ((as.length : Int) + 1) - 2 * (bs.length + 1) = 2 * as.length - 2 * bs.length := by omega
    simp [rtlCompareUnicodeString, compareLoop, hr, hl]
  · simp [rtlCompareUnicodeString, compareLoop, hr]

lemma rtlCompareUnicodeString_order (s1 s2 : List Nat) : orderOf (rtlCompareUnicodeString en s1 s2) =
    List.compareLex compare (s2.map en.rtlpUpcaseUnicodeChar) (s1.map en.rtlpUpcaseUnicodeChar) := by
  induction s1 generalizing s2 with
  | nil =>
    cases s2 with
    | nil => rfl
    | cons b bs =>
      have hl : compareLoop en [] (b :: bs) = 0 := rfl
      rfl
  | cons a as ih =>
    cases s2 with
    | nil =>
      have hl : compareLoop en (a :: as) [] = 0 := rfl
      rw [rtlCompareUnicodeString, hl, if_pos rfl, orderOf, if_pos (by simp only [length_nil, length_cons]; omega)]
      rfl
    | cons b bs =>
      rw [List.map_cons, List.map_cons, List.compareLex_cons_cons, ← orderOf_sub, ← ih]
      rw [rtlCompareUnicodeString_cons]
      by_cases hr : (en.rtlpUpcaseUnicodeChar a : Int) - en.rtlpUpcaseUnicodeChar b = 0
      · rw [if_pos hr, hr]
        rfl
      · rw [if_neg hr, orderOf, if_neg hr]
        split <;> rfl

lemma compareNodeAndKey_order (en : TunnelEnv) (e : TunnelNodeEntry) (k : TunnelKey) :
    ∃ rs, fsRtlCompareNodeAndKey en e k.1 (some k.2) = some rs ∧ orderOf rs = keyOrder en k e.key := by
  rw [keyOrder, keyCompare]
  have hf : compare (upcased en e.key).1 (upcased en k).1 = compare e.DirectoryKey k.1 := rfl
  rcases lt_trichotomy e.DirectoryKey k.1 with h | h | h
  · refine ⟨1, if_pos h, ?_⟩
    rw [hf, Nat.compare_eq_lt.mpr h]
    rfl
  · refine ⟨rtlCompareUnicodeString en k.2 e.keyName, ?_, ?_⟩
    · rw [fsRtlCompareNodeAndKey, if_neg (by omega), if_neg (by omega)]
      rfl
    · rw [hf, Nat.compare_eq_eq.mpr h, rtlCompareUnicodeString_order]
      rfl
  refine ⟨-1, ?_, ?_⟩
  · rw [fsRtlCompareNodeAndKey, if_neg (by omega), if_pos h]
  · rw [hf, Nat.compare_eq_gt.mpr h]
    rfl

/-! ## The cache -/

def Tunnel.keyAt (c : Tunnel) (a : Nat) : Option TunnelKey := (c.Entries a).map (·.key)

/-- The links are those of a search tree, and the queue and the counter agree with it. -/
structure CacheOk (env : TunnelEnv) (c : Tunnel) (nodes : SplayTree Nat) : Prop where
  tree : Tree c.SplayInfo nodes
  root : c.Cache = nodes.addr
  ordered : Ordered (keyOrder env) c.keyAt nodes.toList
  queue : c.TimerQueue.Perm nodes.toList
  blocks : Blocks tunnelNodeSize (2 ^ 32) c.TimerQueue
  count : c.NumEntries = nodes.toList.length % 2 ^ 16

lemma cacheOk_init : CacheOk en fsRtlInitializeTunnelCache nil :=
    ⟨⟨trivial, .nil⟩, rfl, ⟨nofun, .nil⟩, .nil, .nil, rfl⟩

variable {c : Tunnel} {ns : SplayTree Nat} {a : Nat}

namespace CacheOk

lemma size (h : CacheOk en c ns) : ns.toList.length < loopBound := by
  have hle := h.blocks.length_le (by decide)
  rw [h.queue.length_eq] at hle
  simp only [loopBound, tunnelNodeSize] at hle ⊢
  omega

lemma entry (h : CacheOk en c ns) (ha : a ∈ ns.toList) : ∃ e, c.Entries a = some e := by
  obtain ⟨k, hk⟩ := h.ordered.filled a ha
  obtain ⟨e, he, -⟩ := map_eq_some_iff.mp hk
  exact ⟨e, he⟩

end CacheOk

/-- The state of a cache in which some entries are no longer. -/
structure Reduced (c c' : Tunnel) (nodes nodes' : SplayTree Nat) (keep : Nat → Bool) : Prop where
  nodes_eq : nodes'.toList = nodes.toList.filter keep
  queue_eq : c'.TimerQueue = c.TimerQueue.filter keep
  entries : ∀ a ∈ nodes'.toList, c'.Entries a = c.Entries a

section
variable {c1 c2 : Tunnel} {ns1 ns2 : SplayTree Nat} {k k' : Nat → Bool}

lemma Reduced.trans (h : Reduced c c1 ns ns1 k) (h' : Reduced c1 c2 ns1 ns2 k') :
    Reduced c c2 ns ns2 fun a => k a && k' a := by
  refine ⟨?_, ?_, fun a ha => ?_⟩
  · rw [h'.nodes_eq, h.nodes_eq, filter_filter]
    exact filter_congr fun a _ => Bool.and_comm _ _
  · rw [h'.queue_eq, h.queue_eq, filter_filter]
    exact filter_congr fun a _ => Bool.and_comm _ _
  rw [h'.entries a ha]
  rw [h'.nodes_eq, mem_filter] at ha
  exact h.entries a ha.1

lemma Reduced.congr (h : Reduced c c1 ns ns1 k) (hq : c.TimerQueue.Perm ns.toList)
    (heq : ∀ a ∈ ns.toList, k a = k' a) : Reduced c c1 ns ns1 k' :=
  ⟨h.nodes_eq.trans (filter_congr heq),
    h.queue_eq.trans (filter_congr fun a ha => heq a (hq.mem_iff.mp ha)), h.entries⟩

end

lemma remove_spec (h : CacheOk en c ns) (ha : a ∈ ns.toList) (rb : Bool) :
    ∃ c' ns', fsRtlRemoveNodeFromTunnel c a rb = some (c', false) ∧ CacheOk en c' ns' ∧
      Reduced c c' ns ns' (· != a) := by
  obtain ⟨p, l, r, rfl⟩ := exists_plug ha
  have hsz := h.size
  have hnd := h.tree.nodup
  have hq : c.TimerQueue.Nodup := h.queue.nodup_iff.mpr hnd
  -- both ways to delete a node give a tree with the other nodes
  have hd : ∃ m ns', (if rb then rtlDelete c.SplayInfo a else rtlDeleteNoSplay c.SplayInfo a c.Cache) =
      some (m, ns'.addr) ∧ Tree m ns' ∧ ns'.toList = before p ++ l.toList ++ (r.toList ++ after p) := by
    cases rb with
    | true =>
      obtain ⟨m, hm, ht⟩ := rtlDelete_spec h.tree hsz
      exact ⟨m, _, hm, ht, by simp [toList_remove]⟩
    | false =>
      obtain ⟨m, hm, ht⟩ := deleteNoSplay_spec h.tree hsz
      exact ⟨m, _, by simpa [h.root] using hm, ht, by simp [toList_detach]⟩
  obtain ⟨m, ns', hm, ht, hl'⟩ := hd
  have hl := toList_plug_node p l a r
  have hf : (plug p (node l a r)).toList.filter (· != a) = before p ++ l.toList ++ (r.toList ++ after p) := by
    have hn := hnd
    rw [hl, nodup_middle, nodup_cons, mem_append, not_or] at hn
    rw [← hnd.erase_eq_filter, hl, erase_append_right _ hn.1.1, erase_cons_head]
  have he : ∀ b ∈ ns'.toList, (c.without a m ns'.addr).Entries b = c.Entries b := by
    intro b hb
    rw [hl', ← hf, mem_filter] at hb
    exact if_neg (by simpa using hb.2)
  refine ⟨c.without a m ns'.addr, ns', ?_, ⟨ht, rfl, ?_, ?_, h.blocks.sublist erase_sublist, ?_⟩,
    hl'.trans hf.symm, hq.erase_eq_filter a, he⟩
  · cases rb with
    | true =>
      rw [if_pos rfl] at hm
      simp [fsRtlRemoveNodeFromTunnel, hm]
    | false =>
      rw [if_neg Bool.false_ne_true] at hm
      simp [fsRtlRemoveNodeFromTunnel, hm]
  · refine (h.ordered.sublist ?_).congr fun b hb => by rw [keyAt, keyAt, he b hb]
    rw [hl', ← hf]
    exact filter_sublist
  · rw [hl', ← hf, ← hnd.erase_eq_filter]
    exact h.queue.erase a
  have hc := h.count
  rw [hl] at hc
  rw [hl']
  simp only [without, length_append, length_cons] at hc ⊢
  omega

/-- The entries that are expired at a time. -/
def Tunnel.old (env : TunnelEnv) (c : Tunnel) (curTime : Int) (a : Nat) : Bool :=
    (c.Entries a).any (expired env curTime)

lemma ageLoop_spec {ct : Int} {entries : List Nat} {rb : Bool} (h : CacheOk en c ns) (hnd : entries.Nodup)
    (hm : ∀ a ∈ entries, a ∈ ns.toList) :
    ∃ c' ns' rb', ageLoop en ct entries c rb = some (c', rb') ∧ CacheOk en c' ns' ∧
      Reduced c c' ns ns' fun a => !(decide (a ∈ entries) && c.old en ct a) := by
  induction entries generalizing c ns rb with
  | nil => exact ⟨c, ns, rb, rfl, h, by simp, by simp, fun _ _ => rfl⟩
  | cons a entries ih =>
    obtain ⟨ha, hnd⟩ := nodup_cons.mp hnd
    obtain ⟨e, he⟩ := h.entry (hm a mem_cons_self)
    have ho : c.old en ct a = expired en ct e := by rw [old, he, any_some]
    rw [ageLoop, he, do_some]
    cases hex : expired en ct e with
    | false =>
      obtain ⟨c', ns', rb', heq, hok, hr⟩ := @ih c ns rb h hnd fun b hb => hm b (mem_cons_of_mem a hb)
      refine ⟨c', ns', rb', by simpa using heq, hok, ?_⟩
      have hk : (fun b => !(decide (b ∈ entries) && c.old en ct b)) =
          fun b => !(decide (b ∈ a :: entries) && c.old en ct b) := by
        funext b
        by_cases hb : b = a
        · subst hb
          simp [ho, hex]
        · simp [hb]
      exact hk ▸ hr
    | true =>
      obtain ⟨c1, ns1, heq1, hok1, hr1⟩ := remove_spec h (hm a mem_cons_self) rb
      have hm1 (b : Nat) (hb : b ∈ entries) : b ∈ ns1.toList := by
        rw [hr1.nodes_eq, mem_filter]
        refine ⟨hm b (mem_cons_of_mem a hb), ?_⟩
        simpa using fun h : b = a => ha (h ▸ hb)
      obtain ⟨c', ns', rb', heq, hok, hr⟩ := @ih c1 ns1 false hok1 hnd hm1
      refine ⟨c', ns', rb', ?_, hok, (hr1.trans hr).congr h.queue fun b hb => ?_⟩
      · simp [heq1, heq]
      by_cases hba : b = a
      · subst hba
        simp [ho, hex]
      have hb1 : b ∈ ns1.toList := by
        rw [hr1.nodes_eq, mem_filter]
        exact ⟨hb, by simpa using hba⟩
      simp [hba, old, hr1.entries b hb1]

/-- Pruning removes the expired entries. With more than `TunnelMaxEntries` left it takes the head of
the queue for an entry. -/
lemma prune_spec {ct : Int} (h : CacheOk en c ns) :
    ∃ c' ns', CacheOk en c' ns' ∧ Reduced c c' ns ns' (fun a => !c.old en ct a) ∧
      fsRtlPruneTunnelCache en c ct = if c'.NumEntries > en.TunnelMaxEntries then none else some c' := by
  have hnd : c.TimerQueue.Nodup := h.queue.nodup_iff.mpr h.tree.nodup
  obtain ⟨c', ns', rb', heq, hok, hr⟩ :=
    @ageLoop_spec en c ns ct c.TimerQueue true h hnd fun a ha => h.queue.mem_iff.mp ha
  refine ⟨c', ns', hok, hr.congr h.queue fun a ha => ?_, ?_⟩
  · simp [h.queue.mem_iff.mpr ha]
  · rw [fsRtlPruneTunnelCache, heq]
    rfl

/-! ## Searching -/

/-- How the last entry of a search compared, for it to go where it went. -/
def Side : List (Frame Nat) → Int → Prop
  | [], _ => True
  | .left _ _ :: _, result => result > 0
  | .right _ _ :: _, result => ¬ result > 0

variable {e : TunnelNodeEntry}

lemma keyAt_eq (he : c.Entries a = some e) : c.keyAt a = some e.key := by rw [keyAt, he, map_some]

lemma compareAt_keyAt (he : c.Entries a = some e) (k : TunnelKey) :
    compareAt (keyOrder en) c.keyAt k a = keyOrder en k e.key := compareAt_eq (keyAt_eq he)

lemma addLoop_spec {t : SplayTree Nat} {q j ls : Nat} {rs : Int} {p : List (Frame Nat)} (k : TunnelKey)
    (h : Holds c.SplayInfo q t) (hd : ∀ y ∈ t.toList, ∃ e, c.Entries y = some e) (hf : t.toList.length < j)
    (hls : ls = up 0 p) (hs : Side p rs) :
    match search (compareAt (keyOrder en) c.keyAt k) t p with
    | .found _ _ n _ => addLoop en c k.1 (some k.2) j t.addr ls rs = some (n, n, 0)
    | .absent p' => ∃ rs', addLoop en c k.1 (some k.2) j t.addr ls rs = some (0, up 0 p', rs') ∧
        Side p' rs' := by
  induction t generalizing q j ls rs p with
  | nil =>
    obtain _ | j := j
    · omega
    exact ⟨rs, by simp [addLoop, hls], hs⟩
  | node l x r i ir =>
    obtain _ | j := j
    · omega
    obtain ⟨hx, -, hl, hr, hhl, hhr⟩ := h
    simp only [toList_node, mem_append, mem_cons, length_append, length_cons] at hd hf
    obtain ⟨e, he⟩ := hd x (.inr (.inl rfl))
    obtain ⟨rs', hc, ho⟩ := compareNodeAndKey_order en e k
    rw [search, compareAt_keyAt he, ← ho, addr_node, addLoop, if_neg hx, he, do_some, hc, do_some, hl, hr, orderOf]
    by_cases hgt : rs' > 0
    · rw [if_pos hgt, if_pos hgt]
      exact i hhl (fun y hy => hd y (.inl hy)) (by omega) rfl hgt
    rw [if_neg hgt, if_neg hgt]
    by_cases heq : rs' = 0
    · rw [if_pos heq, if_pos heq, heq]
    · rw [if_neg heq, if_neg heq]
      exact ir hhr (fun y hy => hd y (.inr (.inr hy))) (by omega) rfl hgt

lemma findLoop_eq (k : TunnelKey) (j cr ls : Nat) (rs : Int) :
    findLoop en c k.1 k.2 j cr = (addLoop en c k.1 (some k.2) j cr ls rs).map (·.1) := by
  induction j generalizing cr ls rs with
  | zero => rfl
  | succ j ih =>
    rw [findLoop, addLoop]
    split
    · rfl
    cases c.Entries cr with
    | none => rfl
    | some e =>
      obtain ⟨rs', hc, -⟩ := compareNodeAndKey_order en e k
      simp only [hc, do_some]
      split
      · exact ih _ _ _
      split
      · rfl
      · exact ih _ _ _

lemma addLoop_root (h : CacheOk en c ns) (k : TunnelKey) :
    (∃ p l n r e, addLoop en c k.1 (some k.2) loopBound c.Cache 0 0 = some (n, n, 0) ∧ ns = plug p (node l n r) ∧
      c.Entries n = some e ∧ keyOrder en k e.key = .eq) ∨
    (∃ p rs, addLoop en c k.1 (some k.2) loopBound c.Cache 0 0 = some (0, up 0 p, rs) ∧ Side p rs ∧
      ns = plug p nil ∧ (∀ a ∈ before p, ∀ k', c.keyAt a = some k' → keyOrder en k k' = .gt) ∧
      ∀ a ∈ after p, ∀ k', c.keyAt a = some k' → keyOrder en k k' = .lt) := by
  have hl := @addLoop_spec en c ns ns.addr loopBound 0 0 [] k h.tree.holds (fun y hy =>
    h.entry hy) h.size rfl trivial
  rw [← h.root] at hl
  cases hf : search (compareAt (keyOrder en) c.keyAt k) ns [] with
  | found p l n r =>
    rw [hf] at hl
    obtain ⟨hp, k', hk', heq⟩ := h.ordered.found hf
    obtain ⟨e, he, rfl⟩ := map_eq_some_iff.mp hk'
    exact .inl ⟨p, l, n, r, e, hl, hp, he, heq⟩
  | absent p =>
    rw [hf] at hl
    obtain ⟨rs, hl, hs⟩ := hl
    exact .inr ⟨p, rs, hl, hs, h.ordered.absent hf⟩

/-! ## Adding -/

section
variable {m : Links} {p : List (Frame Nat)} {l r : SplayTree Nat} {n : Nat}

/-- The links of the new node and of the children that it gets. -/
def adopt (m : Links) (l r a : Nat) : Links :=
  reparent ((reparent ((rtlInitializeSplayLinks m a).setLeftChild a l) l a).setRightChild a r) r a

lemma adopt_parent (m : Links) (l r a y : Nat) : (adopt m l r a).Parent y =
    if r ≠ 0 ∧ y = r then a else if l ≠ 0 ∧ y = l then a else if y = a then a else m.Parent y := by
  simp [adopt, rtlInitializeSplayLinks]

lemma adopt_leftChild (m : Links) (l r a y : Nat) :
    (adopt m l r a).LeftChild y = if y = a then l else m.LeftChild y := by
  simp only [adopt, rtlInitializeSplayLinks, reparent_leftChild, Links.setLeftChild_leftChild,
    Links.setRightChild_leftChild]
  split <;> simp [*]

lemma adopt_rightChild (m : Links) (l r a y : Nat) :
    (adopt m l r a).RightChild y = if y = a then r else m.RightChild y := by
  simp only [adopt, rtlInitializeSplayLinks, reparent_rightChild, Links.setLeftChild_rightChild,
    Links.setRightChild_rightChild]
  split <;> simp [*]

lemma replaceEntry_eq (h : Tree m (plug p (node l n r))) (hnw : a ∉ (plug p (node l n r)).toList) :
    replaceEntry (rtlInitializeSplayLinks m a) (top n p) a n =
      (setChild ((adopt m l.addr r.addr a).setParent a (up a p)) p a, top a p) := by
  obtain ⟨ha, ⟨hn0, hnp, hnl, hnr, hhl, hhr⟩, hnd⟩ := tree_plug.mp h
  rw [mem_plug, not_or, toList_node, mem_append, mem_cons, not_or, not_or] at hnw
  obtain ⟨⟨hal, han, har⟩, hap⟩ := hnw
  have hnd' := plug_perm.nodup_iff.mp hnd
  rw [toList_node, append_assoc, cons_append, nodup_middle, nodup_cons] at hnd'
  simp only [mem_append, not_or] at hnd'
  have hne (t : SplayTree Nat) (hy : n ∉ t.toList) : n ≠ t.addr := fun h => hy (h ▸ addr_mem (h ▸ hn0))
  -- a missing child leaves the link of the new node at 0
  have hl : (if m.LeftChild n ≠ 0 then rtlInsertAsLeftChild (rtlInitializeSplayLinks m a) a (m.LeftChild n)
      else rtlInitializeSplayLinks m a) = reparent
        ((rtlInitializeSplayLinks m a).setLeftChild a l.addr) l.addr a := by
    rw [hnl, reparent]
    split
    · rfl
    · rw [Links.setLeftChild_self]
      simp_all [rtlInitializeSplayLinks]
  have hr (m' : Links) (hm' : m'.RightChild a = 0) :
    (if m.RightChild n ≠ 0 then rtlInsertAsRightChild m' a (m.RightChild n) else m') =
      reparent (m'.setRightChild a r.addr) r.addr a := by
    rw [hnr, reparent]
    split
    · rfl
    · rw [Links.setRightChild_self]
      simp_all
  have hna : n ≠ a := fun h => han h.symm
  have hln : (rtlInitializeSplayLinks m a).LeftChild n = m.LeftChild n := by simp [rtlInitializeSplayLinks, hna]
  have hrn : (reparent ((rtlInitializeSplayLinks m a).setLeftChild a l.addr)
    l.addr a).RightChild n = m.RightChild n := by
    simp [rtlInitializeSplayLinks, hna]
  have had : reparent ((reparent ((rtlInitializeSplayLinks m a).setLeftChild a l.addr)
    l.addr a).setRightChild a r.addr) r.addr a =
    adopt m l.addr r.addr a := rfl
  rw [replaceEntry, hln, hl, hrn]
  rw [hr _ (by simp [rtlInitializeSplayLinks]), had]
  have hp : (adopt m l.addr r.addr a).Parent n = m.Parent n := by
    rw [adopt_parent, if_neg fun h => hne r hnd'.1.2.1 h.2, if_neg fun h => hne l hnd'.1.1 h.2, if_neg hna]
  have hle (h : m.Parent n ≠ a) : rtlIsLeftChild (adopt m l.addr r.addr a) n = rtlIsLeftChild m n := by
    simp [rtlIsLeftChild, hp, adopt_leftChild, h]
  rcases place_cases (g := n) (above_top.mp ha) hnp hn0 hnd'.1.2.2 with ⟨rfl, -⟩ | ⟨z, zr, p, rfl,
    hz, hzn, his⟩ | ⟨zl, z, p, rfl, hz, hzn, his⟩
  · have hs : (adopt m l.addr r.addr a).Parent a = a := by
      rw [adopt_parent]
      split
      · rfl
      split
      · rfl
      · exact if_pos rfl
    simp [setChild, Links.setParent_self _ _ _ hs, hp, hnp]
  · have hza : z ≠ a := fun h => hap (mem_around_left.mpr (.inl h.symm))
    rw [rtlIsRoot, hz, beq_eq_false_iff_ne] at hzn
    simp only [hp, hz, if_neg hzn, hle (hz ▸ hza), his, if_true, top_cons]
    rfl
  · have hza : z ≠ a := fun h => hap (mem_around_right.mpr (.inl h.symm))
    rw [rtlIsRoot, hz, beq_eq_false_iff_ne] at hzn
    simp only [hp, hz, if_neg hzn, hle (hz ▸ hza), his, Bool.false_eq_true, if_false, top_cons]
    rfl

lemma replaceEntry_tree (h : Tree m (plug p (node l n r))) (ha : a ≠ 0) (hnw : a ∉ (plug p (node l n r)).toList) :
    Tree (setChild ((adopt m l.addr r.addr a).setParent a (up a p)) p a) (plug p (node l a r)) := by
  obtain ⟨hab, ⟨hn0, hnp, hnl, hnr, hhl, hhr⟩, hnd⟩ := tree_plug.mp h
  rw [mem_plug, not_or, toList_node, mem_append, mem_cons, not_or, not_or] at hnw
  obtain ⟨⟨hal, han, har⟩, hap⟩ := hnw
  have hb : (l.toList ++ n :: (r.toList ++ around p)).Nodup := by simpa using plug_perm.nodup_iff.mp hnd
  obtain ⟨o, ho⟩ := @exists_owner [l.toList, [n], r.toList, around p] (by simpa using hb)
  have hl := ho 0 _ rfl
  have hr := ho 2 _ rfl
  have hp := ho 3 _ rfl
  simp only [nodup_append, nodup_cons] at hb
  obtain ⟨hnl', ⟨hn, hnr', hnh, -⟩, -⟩ := hb
  have hl0 := @addr_mem l
  have hr0 := @addr_mem r
  have hs : Above (setChild m p a) (top a p) a p := (above_top.mp hab).setChild hnh
  have hw : Rewired m ((adopt m l.addr r.addr a).setParent a (up a p)) [a] [l.addr, r.addr] := by
    refine ⟨fun y hy => ?_, fun y _ hy hrt => ?_⟩
    · simp_all [adopt_leftChild, adopt_rightChild]
    · simp_all [adopt_parent]
  -- the subtrees only get a new parent
  have hw' : Rewired m (setChild ((adopt m l.addr r.addr a).setParent a (up a p)) p a)
    (a :: around p) [l.addr, r.addr] := by
    refine ⟨fun y hy => ?_, fun y hy0 hy hrt => ?_⟩
    · rw [mem_cons, not_or] at hy
      obtain ⟨hl1, hr1⟩ := @setChild_children ((adopt m l.addr r.addr a).setParent a (up a p)) a y p hy.2
      obtain ⟨hl2, hr2⟩ := hw.children y (by simp [hy.1])
      exact ⟨hl1.trans hl2, hr1.trans hr2⟩
    · rw [setChild_parent]
      exact hw.parents y hy0 (fun h => hy (by simp_all)) hrt
  obtain ⟨hla, hra⟩ := @setChild_children ((adopt m l.addr r.addr a).setParent a (up a p)) a a p hap
  refine tree_plug.mpr ⟨hs.congr fun y hy => ?_, ⟨ha, ?_, ?_, ?_, ?_, ?_⟩, ?_⟩
  · have hya : y ∉ [a] := fun h => hap (mem_singleton.mp h ▸ hy)
    refine ⟨?_, setChild_congr (hw.children y hya)⟩
    have hy0 := hab.ne_zero hy
    rw [setChild_parent, setChild_parent, hw.parents y hy0 hya (by grind)]
  · rw [setChild_parent, Links.setParent_parent, if_pos rfl]
    cases p <;> rfl
  · rw [hla]
    exact (adopt_leftChild ..).trans (if_pos rfl)
  · rw [hra]
    exact (adopt_rightChild ..).trans (if_pos rfl)
  · refine hw'.move hhl hnl' (fun y hy _ => by grind) fun h0 => ?_
    have hla' : l.addr ≠ a := fun h => hal (h ▸ hl0 h0)
    simp [hla', adopt_parent, h0]
  · refine hw'.move hhr hnr' (fun y hy _ => by grind) fun h0 => ?_
    have hra' : r.addr ≠ a := fun h => har (h ▸ hr0 h0)
    simp [hra', adopt_parent, h0]
  · rw [plug_perm.nodup_iff] at hnd ⊢
    simp only [toList_node, append_assoc, cons_append, nodup_middle, nodup_cons] at hnd ⊢
    refine ⟨?_, hnd.2⟩
    simp only [mem_append, not_or]
    exact ⟨hal, har, hap⟩

end

/-- The name that is the key of what is added. -/
def TunnelData.key (d : TunnelData) : TunnelKey := (d.DirectoryKey, d.keyString.getD [])

lemma entry_key (d : TunnelData) (t : Int) (fp : Bool) : (d.entry t fp).key = d.key := by
  obtain ⟨dk, sn, ln, kb, data⟩ := d
  cases kb <;> cases fp <;>
    simp [TunnelData.entry, TunnelNodeEntry.key, TunnelNodeEntry.keyName, TunnelData.key,
      TunnelData.keyString, tunnelFlagPool,
      tunnelFlagKeyShortName]

/-- An entry has the key, up to the case of the names. -/
def Tunnel.hasKey (env : TunnelEnv) (c : Tunnel) (k : TunnelKey) (a : Nat) : Bool :=
    (c.Entries a).any fun e => keyOrder env k e.key = .eq

/-- The cache before pruning: the new entry is in the place of one with the same key, and at the end
of the queue. -/
structure Inserted (env : TunnelEnv) (c c' : Tunnel) (nodes nodes' : SplayTree Nat) (a : Nat)
    (e : TunnelNodeEntry) : Prop where
  nodes_eq : ∃ as bs, nodes'.toList = as ++ a :: bs ∧ as ++ bs = nodes.toList.filter fun b => !c.hasKey env e.key b
  queue_eq : c'.TimerQueue = c.TimerQueue.filter (fun b => !c.hasKey env e.key b) ++ [a]
  new : c'.Entries a = some e
  entries : ∀ b ∈ nodes.toList, !c.hasKey env e.key b → c'.Entries b = c.Entries b

lemma hasKey_eq (he : c.Entries a = some e) (k : TunnelKey) :
    c.hasKey en k a = decide (keyOrder en k e.key = .eq) := by
  rw [hasKey, he, any_some]

lemma inserted_ok {d : TunnelData} {fp : Bool} {t rs : Int} {cr ls : Nat} {ns' : SplayTree Nat} {as bs : List Nat}
    (h : CacheOk en c ns) (hbl : Fresh tunnelNodeSize (2 ^ 32) c.TimerQueue a)
    (ht : Tree (insertEntry c d a fp t cr ls rs).SplayInfo ns')
    (hr : (insertEntry c d a fp t cr ls rs).Cache = ns'.addr)
    (hl : ns'.toList = as ++ a :: bs) (hf : as ++ bs = ns.toList.filter fun b => !c.hasKey en d.key b)
    (hc : ∀ b ∈ ns.toList, c.hasKey en d.key b = decide (b = cr))
    (ho : Ordered (keyOrder en) (insertEntry c d a fp t cr ls rs).keyAt (as ++ a :: bs))
    (hcn : ns.toList.length = as.length + bs.length + if cr ≠ 0 then 1 else 0) :
    CacheOk en (insertEntry c d a fp t cr ls rs) ns' ∧
      Inserted en c (insertEntry c d a fp t cr ls rs) ns ns' a (d.entry t fp) := by
  have hn : a ∉ ns.toList := fun ha => hbl.not_mem (by decide) (h.queue.mem_iff.mpr ha)
  have hnd : c.TimerQueue.Nodup := h.queue.nodup_iff.mpr h.tree.nodup
  have hq : c.TimerQueue.erase cr = c.TimerQueue.filter fun b => !c.hasKey en d.key b := by
    rw [hnd.erase_eq_filter]
    refine filter_congr fun b hb => ?_
    rw [hc b (h.queue.mem_iff.mp hb)]
    by_cases hb : b = cr <;> simp [hb]
  refine ⟨⟨ht, hr, hl ▸ ho, ?_, ?_, ?_⟩, ⟨as, bs, hl, ?_⟩, ?_, ?_, fun b hb hb' => ?_⟩
  · show (c.TimerQueue.erase cr ++ [a]).Perm ns'.toList
    rw [hq, hl]
    refine (perm_append_singleton a _).trans (.trans (.cons a ?_) perm_middle.symm)
    rw [hf]
    exact h.queue.filter _
  · refine (h.blocks.sublist erase_sublist).append ⟨hbl.1, hbl.2.1, fun b hb => ?_⟩
    exact hbl.2.2 b (mem_of_mem_erase hb)
  · have hol := h.count
    rw [hl, length_append, length_cons]
    simp only [insertEntry]
    split at hcn
    · rw [if_pos ‹_›]
      omega
    · rw [if_neg ‹_›]
      omega
  · rw [entry_key, hf]
  · rw [entry_key]
    exact congrArg (· ++ [a]) hq
  · exact if_pos rfl
  rw [entry_key, hc b hb] at hb'
  have hba : b ≠ a := fun h => hn (h ▸ hb)
  exact (if_neg hba).trans (if_neg (by simpa using hb'))

section
variable {d : TunnelData} {fp : Bool} {t rs : Int} {cr ls b n : Nat} {p : List (Frame Nat)} {l r : SplayTree Nat}

lemma keyAt_insertEntry : (insertEntry c d a fp t cr ls rs).keyAt a = some d.key := by
  rw [keyAt, ← entry_key d t fp]
  simp [insertEntry]

lemma keyAt_insertEntry_of_ne (hba : b ≠ a) (hb : b ≠ cr) :
    (insertEntry c d a fp t cr ls rs).keyAt b = c.keyAt b := by
  simp [keyAt, insertEntry, hba, hb]

/-- The node of the key is the only one with it. -/
lemma hasKey_found (h : CacheOk en c (plug p (node l n r))) (he : c.Entries n = some e)
    (heq : keyOrder en d.key e.key = .eq) :
    ∀ b ∈ before p ++ l.toList ++ (r.toList ++ after p), b ≠ n ∧ c.hasKey en d.key b = false := by
  have hl := toList_plug_node p l n r
  have hnd := h.tree.nodup
  have hor := h.ordered
  rw [hl] at hnd hor
  intro b hb
  have hbn : b ≠ n := fun h => by
    rw [nodup_middle, nodup_cons] at hnd
    exact hnd.1 (h ▸ hb)
  obtain ⟨e', he'⟩ := h.entry (a := b) (by rw [hl, perm_middle.mem_iff]; exact mem_cons_of_mem _ hb)
  refine ⟨hbn, ?_⟩
  rw [hasKey_eq he', decide_eq_false_iff_not]
  exact hor.ne_of_eq (keyAt_eq he) heq b hb e'.key (keyAt_eq he')

/-- The new entry in the place of one with the same key. -/
lemma insertEntry_found (h : CacheOk en c (plug p (node l n r)))
    (hbl : Fresh tunnelNodeSize (2 ^ 32) c.TimerQueue a)
    (he : c.Entries n = some e) (heq : keyOrder en d.key e.key = .eq) :
    CacheOk en (insertEntry c d a fp t n n 0) (plug p (node l a r)) ∧
      Inserted en c (insertEntry c d a fp t n n 0) (plug p (node l n r)) (plug p (node l a r)) a
        (d.entry t fp) := by
  have hnw : a ∉ (plug p (node l n r)).toList := fun ha => hbl.not_mem (by decide) (h.queue.mem_iff.mpr ha)
  have hn0 : n ≠ 0 := (tree_plug.mp h.tree).2.1.1
  have hl := toList_plug_node p l n r
  have ho := hasKey_found h he heq
  have hc : ∀ b ∈ (plug p (node l n r)).toList, c.hasKey en d.key b = decide (b = n) := by
    intro b hb
    rw [hl, perm_middle.mem_iff, mem_cons] at hb
    rcases hb with rfl | hb
    · rw [hasKey_eq he]
      simp [heq]
    · simp [ho b hb]
  have hf : before p ++ l.toList ++ (r.toList ++ after p) =
      (plug p (node l n r)).toList.filter fun b => !c.hasKey en d.key b := by
    have hn : ¬ (!c.hasKey en d.key n) := by simp [hasKey_eq he, heq]
    rw [hl, filter_append, filter_cons, if_neg hn, ← filter_append]
    exact (filter_eq_self.mpr fun b hb => by simp [ho b hb]).symm
  have hrp : (insertEntry c d a fp t n n 0).SplayInfo =
      setChild ((adopt c.SplayInfo l.addr r.addr a).setParent a (up a p)) p a ∧
      (insertEntry c d a fp t n n 0).Cache = top a p := by
    have heq := replaceEntry_eq h.tree hnw
    have hr : c.Cache = top n p := by rw [h.root, addr_plug, addr_node]
    simp [insertEntry, hn0, hr, heq]
  refine inserted_ok h hbl ?_ ?_ (toList_plug_node p l a r) hf hc ?_ ?_
  · rw [hrp.1]
    exact replaceEntry_tree h.tree hbl.1 hnw
  · rw [hrp.2, addr_plug, addr_node]
  · have hor := h.ordered
    rw [hl] at hor
    refine hor.replace (keyAt_eq he) heq (fun b hb =>
      keyAt_insertEntry_of_ne (fun h => hnw ?_) (ho b hb).1) keyAt_insertEntry
    rw [hl, perm_middle.mem_iff, ← h]
    exact mem_cons_of_mem _ hb
  · rw [hl, if_pos hn0, length_append, length_cons]
    rfl

/-- The new entry below the one where the search ended. -/
lemma linkEntry_tree (h : CacheOk en c (plug p nil)) (ha : a ≠ 0) (hnw : a ∉ (plug p nil).toList)
    (hsd : Side p rs) :
    Tree (insertEntry c d a fp t 0 (up 0 p) rs).SplayInfo (plug p (node nil a nil)) ∧
      (insertEntry c d a fp t 0 (up 0 p) rs).Cache = (plug p (node nil a nil)).addr := by
  have hr := h.root
  rw [addr_plug] at hr ⊢
  match p with
  | [] => exact ⟨tree_single ha, rfl⟩
  | .left z zr :: p =>
    have hz : z ≠ 0 := (tree_plug.mp h.tree).1.1.1
    have hp : rs > 0 := hsd
    have hg := graft_left h.tree ha hnw
    simpa [insertEntry, linkEntry, hz, hp, hr] using hg
  | .right zl z :: p =>
    have hz : z ≠ 0 := (tree_plug.mp h.tree).1.1.1
    have hng : ¬ rs > 0 := hsd
    have hg := graft_right h.tree ha hnw
    simpa [insertEntry, linkEntry, hz, hng, hr] using hg

lemma insertEntry_absent (h : CacheOk en c (plug p nil)) (hbl : Fresh tunnelNodeSize (2 ^ 32) c.TimerQueue a)
    (hsd : Side p rs) (hgt : ∀ b ∈ before p, ∀ k, c.keyAt b = some k → keyOrder en d.key k = .gt)
    (hlt : ∀ b ∈ after p, ∀ k, c.keyAt b = some k → keyOrder en d.key k = .lt) :
    CacheOk en (insertEntry c d a fp t 0 (up 0 p) rs) (plug p (node nil a nil)) ∧
      Inserted en c (insertEntry c d a fp t 0 (up 0 p) rs) (plug p nil) (plug p (node nil a nil)) a
        (d.entry t fp) := by
  have hnw : a ∉ (plug p nil).toList := fun ha => hbl.not_mem (by decide) (h.queue.mem_iff.mpr ha)
  have hl : (plug p nil).toList = before p ++ after p := by simp [toList_plug]
  have hl' : (plug p (node nil a nil)).toList = before p ++ a :: after p := by simp [toList_plug]
  have hc : ∀ b ∈ (plug p nil).toList, c.hasKey en d.key b = false := by
    intro b hb
    obtain ⟨e', he'⟩ := h.entry hb
    have hkb := keyAt_eq he'
    rw [hasKey_eq he', decide_eq_false_iff_not]
    rw [hl, mem_append] at hb
    rcases hb with hb | hb
    · simp [hgt b hb _ hkb]
    · simp [hlt b hb _ hkb]
  have hzr : ∀ b ∈ (plug p nil).toList, b ≠ 0 := fun b hb => h.tree.holds.ne_zero hb
  have hf : before p ++ after p = (plug p nil).toList.filter fun b => !c.hasKey en d.key b := by
    rw [filter_eq_self.mpr fun b hb => by simp [hc b hb], hl]
  obtain ⟨ht, hr⟩ := @linkEntry_tree en c a d fp t rs p h hbl.1 hnw hsd
  refine inserted_ok h hbl ht hr hl' hf (fun b hb => by simp [hc b hb, hzr b hb]) ?_ (by simp [hl])
  have hor := h.ordered
  rw [hl] at hor
  refine hor.insert (fun b hb => keyAt_insertEntry_of_ne (fun h => hnw ?_) (hzr b (hl ▸ hb)))
    keyAt_insertEntry hgt hlt
  rw [hl, ← h]
  exact hb

end

lemma insertEntry_spec {d : TunnelData} {nm : List Nat} (h : CacheOk en c ns)
    (hbl : Fresh tunnelNodeSize (2 ^ 32) c.TimerQueue a)
    (hke : d.keyString = some nm) (t : Int) (fp : Bool) :
    ∃ cr ls rs ns', addLoop en c d.DirectoryKey d.keyString loopBound c.Cache 0 0 = some (cr, ls, rs) ∧
      CacheOk en (insertEntry c d a fp t cr ls rs) ns' ∧
      Inserted en c (insertEntry c d a fp t cr ls rs) ns ns' a (d.entry t fp) := by
  have hk : d.key = (d.DirectoryKey, nm) := by rw [TunnelData.key, hke, getD_some]
  rw [hke]
  rcases addLoop_root h d.key with ⟨p, l, n, r, e, hlp, hno, he, heq⟩ | ⟨p, rs, hlp, hsd, hno, hgt, hlt⟩
  · rw [hk] at hlp
    subst hno
    exact ⟨n, n, 0, plug p (node l a r), hlp, insertEntry_found h hbl he heq⟩
  · rw [hk] at hlp
    subst hno
    exact ⟨0, up 0 p, rs, plug p (node nil a nil), hlp, insertEntry_absent h hbl hsd hgt hlt⟩

/-! ## Deleting a directory -/

/-- An entry is of a directory. -/
def Tunnel.inDirectory (c : Tunnel) (directoryKey a : Nat) : Bool :=
    (c.Entries a).any (·.DirectoryKey = directoryKey)

/-- Following left children from the root through entries of the directory, one comes to a subtree without any. -/
def Deletable (c : Tunnel) (directoryKey : Nat) : SplayTree Nat → Prop
  | nil => True
  | node l x r =>
    if c.inDirectory directoryKey x then Deletable c directoryKey l
    else ∀ y ∈ (node l x r).toList, c.inDirectory directoryKey y = false

/-- The entry at which that ends. -/
def lastOf (c : Tunnel) (directoryKey : Nat) : SplayTree Nat → Nat → Nat
  | nil, last => last
  | node l x _, last => if c.inDirectory directoryKey x then lastOf c directoryKey l x else last

/-- The directories of the entries do not increase. -/
def Descending (c : Tunnel) (as : List Nat) : Prop :=
  as.Pairwise fun a b => ∀ e f, c.Entries a = some e → c.Entries b = some f → f.DirectoryKey ≤ e.DirectoryKey

lemma CacheOk.descending (h : CacheOk en c ns) : Descending c ns.toList := by
  refine h.ordered.sorted.imp fun {a b} hab e f he hf => ?_
  exact directory_le_of_lt (hab e.key f.key (keyAt_eq he) (keyAt_eq hf))

variable {dk : Nat}

lemma inDirectory_eq (he : c.Entries a = some e) : c.inDirectory dk a = decide (e.DirectoryKey = dk) := by
  rw [inDirectory, he, any_some]

/-- A search among greater directories, or among smaller ones before any was found. -/
lemma deleteSearch_none {t : SplayTree Nat} {q j ls : Nat} (h : Holds c.SplayInfo q t)
    (hd : ∀ y ∈ t.toList, ∃ e, c.Entries y = some e ∧ (e.DirectoryKey > dk ∨ e.DirectoryKey < dk ∧ ls = 0))
    (hf : t.toList.length < j) : deleteSearch c dk j t.addr ls = some ls := by
  induction t generalizing q j with
  | nil =>
    obtain _ | j := j
    · omega
    simp [deleteSearch]
  | node l x r i ir =>
    obtain _ | j := j
    · omega
    obtain ⟨hx, -, hl, hr, hhl, hhr⟩ := h
    simp only [toList_node, mem_append, mem_cons, length_append, length_cons] at hd hf
    obtain ⟨e, he, hdr⟩ := hd x (.inr (.inl rfl))
    rw [addr_node, deleteSearch, if_neg hx, he, do_some, hl, hr]
    rcases hdr with hgt | ⟨hlt, rfl⟩
    · rw [if_pos hgt]
      exact i hhl (fun y hy => hd y (.inl hy)) (by omega)
    · rw [if_neg (by omega), if_pos hlt, if_neg (by simp)]
      exact ir hhr (fun y hy => hd y (.inr (.inr hy))) (by omega)

lemma deleteSearch_spec {t : SplayTree Nat} {q j ls : Nat} (h : Holds c.SplayInfo q t)
    (hd : ∀ y ∈ t.toList, ∃ e, c.Entries y = some e) (hds : Descending c t.toList) (hfl : t.toList.length < j) :
    deleteSearch c dk j t.addr ls = some (lastOf c dk t ls) := by
  induction t generalizing q j ls with
  | nil =>
    obtain _ | j := j
    · omega
    simp [deleteSearch, lastOf]
  | node l x r i _ =>
    obtain _ | j := j
    · omega
    obtain ⟨hx, -, hl, hr, hhl, hhr⟩ := h
    obtain ⟨hdl, hdr, hlx⟩ := pairwise_append.mp hds
    simp only [toList_node, mem_append, mem_cons, length_append, length_cons] at hd hfl
    obtain ⟨e, he⟩ := hd x (.inr (.inl rfl))
    rw [addr_node, deleteSearch, if_neg hx, he, do_some, hl, hr, lastOf, inDirectory_eq he]
    by_cases hgt : e.DirectoryKey > dk
    · rw [if_pos hgt, if_neg (by simp; omega)]
      refine deleteSearch_none hhl (fun y hy => ?_) (by omega)
      obtain ⟨f, hf⟩ := hd y (.inl hy)
      have := hlx y hy x mem_cons_self f e hf he
      exact ⟨f, hf, .inl (by omega)⟩
    rw [if_neg hgt]
    by_cases hlt : e.DirectoryKey < dk
    swap
    · rw [if_neg hlt, if_pos (by simp; omega)]
      exact i hhl (fun y hy => hd y (.inl hy)) hdl (by omega)
    have hne : ¬ decide (e.DirectoryKey = dk) = true := by
      simp only [decide_eq_true_eq]
      omega
    rw [if_pos hlt]
    by_cases hls : ls = 0
    · subst hls
      rw [if_neg (not_not.mpr rfl), if_neg hne]
      refine deleteSearch_none hhr (fun y hy => ?_) (by omega)
      obtain ⟨f, hf⟩ := hd y (.inr (.inr hy))
      have := (pairwise_cons.mp hdr).1 y hy e f he hf
      exact ⟨f, hf, .inr ⟨by omega, rfl⟩⟩
    · rw [if_pos hls, if_neg hne]

/-- The entry at which the search ends, if the root is of the directory: those of the directory
before it are the ones missed. -/
lemma lastOf_spec {l r : SplayTree Nat} {x ls : Nat} (hx : c.inDirectory dk x) (p : List (Frame Nat)) :
    ∃ p' l' n r', lastOf c dk (node l x r) ls = n ∧ plug p (node l x r) = plug p' (node l' n r') ∧
      before p' = before p ∧ c.inDirectory dk n ∧
      (Deletable c dk (node l x r) ↔ ∀ y ∈ l'.toList, c.inDirectory dk y = false) := by
  induction l generalizing x r ls p with
  | nil => exact ⟨p, nil, x, r, by simp [lastOf, hx], rfl, rfl, hx, by simp [Deletable, hx]⟩
  | node ll y lr ih _ =>
    by_cases hy : c.inDirectory dk y
    · obtain ⟨p', l', n, r', hl, hp, hb, hn, hd⟩ := @ih lr y x hy (.left x r :: p)
      refine ⟨p', l', n, r', ?_, hp, hb, hn, ?_⟩
      · rw [lastOf, if_pos hx, hl]
      · rw [← hd, Deletable, if_pos hx]
    refine ⟨p, node ll y lr, x, r, ?_, rfl, rfl, hx, ?_⟩
    · rw [lastOf, if_pos hx, lastOf, if_neg hy]
    · rw [Deletable, if_pos hx, Deletable, if_neg hy]

lemma successor_of_split {as bs : List Nat} (h : CacheOk en c ns) (hl : ns.toList = as ++ a :: bs) :
    rtlRealSuccessor c.SplayInfo a = some (bs.headD 0) := by
  obtain ⟨p, l, r, rfl⟩ := exists_plug (show a ∈ ns.toList by simp [hl])
  have hsz := h.size
  have hnd := h.tree.nodup
  have hl' := toList_plug_node p l a r
  rw [hl', nodup_middle, nodup_cons, mem_append, not_or] at hnd
  rw [hl', append_cons_inj_of_notMem hnd.1.1 hnd.1.2] at hl
  rw [realSuccessor_spec h.tree hsz, hl.2.2]

/-- From an entry on, those of the directory are removed, which follow one another. -/
lemma deleteLoop_spec {j : Nat} {rb : Bool} {as bs : List Nat} (h : CacheOk en c ns)
    (hl : ns.toList = as ++ a :: bs)
    (hle : ∀ b ∈ a :: bs, ∀ e, c.Entries b = some e → e.DirectoryKey ≤ dk) (hfl : bs.length < j) :
    ∃ c' ns', deleteLoop dk j c a rb = some c' ∧ CacheOk en c' ns' ∧
      Reduced c c' ns ns' fun b => !(decide (b ∈ a :: bs) && c.inDirectory dk b) := by
  induction j generalizing c ns a bs rb with
  | zero => cases hfl
  | succ j ih =>
    have ha : a ∈ ns.toList := by simp [hl]
    obtain ⟨e, he⟩ := h.entry ha
    rw [deleteLoop, he, do_some, successor_of_split h hl, do_some]
    by_cases hdr : e.DirectoryKey = dk
    · have hin : c.inDirectory dk a := by simp [inDirectory_eq he, hdr]
      obtain ⟨c1, ns1, heq1, hok1, hr1⟩ := remove_spec h ha rb
      rw [if_neg (not_not.mpr hdr), heq1, do_some]
      cases bs with
      | nil =>
        refine ⟨c1, ns1, rfl, hok1, hr1.congr h.queue fun b _ => ?_⟩
        by_cases hb : b = a
        · simp [hb, hin]
        · simp [hb]
      | cons b bs =>
        have hnd := h.tree.nodup
        rw [hl] at hnd
        have hn := hnd
        rw [nodup_middle, nodup_cons, mem_append, not_or] at hn
        have hl1 : ns1.toList = as ++ b :: bs := by
          rw [hr1.nodes_eq, hl, ← hnd.erase_eq_filter, erase_append_right _ hn.1.1, erase_cons_head]
        have hb0 : b ≠ 0 := h.tree.holds.ne_zero (by simp [hl])
        have hle1 : ∀ x ∈ b :: bs, ∀ f, c1.Entries x = some f → f.DirectoryKey ≤ dk := by
          intro x hx f hf
          rw [hr1.entries x (by rw [hl1]; exact mem_append_right _ hx)] at hf
          exact hle x (mem_cons_of_mem a hx) f hf
        obtain ⟨c', ns', heq, hok, hr⟩ := ih hok1 hl1 hle1 (lt_of_succ_lt_succ hfl)
        refine ⟨c', ns', ?_, hok, (hr1.trans hr).congr h.queue fun x hx => ?_⟩
        · simpa [hb0] using heq
        by_cases hxa : x = a
        · simp [hxa, hin]
        have hx1 : x ∈ ns1.toList := by
          rw [hr1.nodes_eq, mem_filter]
          exact ⟨hx, by simpa using hxa⟩
        simp [hxa, inDirectory, hr1.entries x hx1]
    · rw [if_pos hdr]
      have hd := h.descending
      rw [hl] at hd
      have hlt : ∀ x ∈ a :: bs, c.inDirectory dk x = false := by
        intro x hx
        obtain ⟨f, hf⟩ := h.entry (a := x) (by rw [hl]; exact mem_append_right _ hx)
        have hea := hle a mem_cons_self e he
        have hfe : f.DirectoryKey ≤ e.DirectoryKey := by
          rcases mem_cons.mp hx with rfl | hx
          · cases he.symm.trans hf
            exact le_refl _
          · exact (pairwise_cons.mp (pairwise_append.mp hd).2.1).1 x hx e f he hf
        rw [inDirectory_eq hf, decide_eq_false_iff_not]
        omega
      have hk : ∀ x, (!(decide (x ∈ a :: bs) && c.inDirectory dk x)) = true := by
        intro x
        by_cases hx : x ∈ a :: bs
        · simp [hlt x hx]
        · simp [hx]
      exact ⟨c, ns, rfl, h, (filter_eq_self.mpr fun x _ => hk x).symm,
        (filter_eq_self.mpr fun x _ => hk x).symm, fun _ _ => rfl⟩

/-- Deleting removes only entries of the directory, and all of them exactly if the tree is `Deletable`. -/
lemma deleteKey_spec (hmx : en.TunnelMaxEntries ≠ 0) (h : CacheOk en c ns) (dk : Nat) :
    ∃ c' ns' k, fsRtlDeleteKeyFromTunnelCache en c dk = some c' ∧ CacheOk en c' ns' ∧ Reduced c c' ns ns' k ∧
      (∀ b ∈ ns.toList, c.inDirectory dk b = false → k b) ∧
      (Deletable c dk ns ↔ ∀ b ∈ ns'.toList, c.inDirectory dk b = false) := by
  have hfn := @deleteSearch_spec c dk ns ns.addr loopBound 0 h.tree.holds (fun y hy =>
    h.entry hy) h.descending h.size
  rw [fsRtlDeleteKeyFromTunnelCache, if_neg hmx, h.root, hfn, do_some]
  have hr : Reduced c c ns ns fun _ => true := ⟨by simp, by simp, fun _ _ => rfl⟩
  cases ns with
  | nil => exact ⟨c, nil, _, rfl, h, hr, fun _ _ _ => rfl, by simp [Deletable]⟩
  | node l x r =>
    by_cases hx : c.inDirectory dk x
    swap
    · rw [lastOf, if_neg hx, if_pos rfl]
      exact ⟨c, _, _, rfl, h, hr, fun _ _ _ => rfl, by rw [Deletable, if_neg hx]⟩
    obtain ⟨p', l', n, r', hls, hp, hbf, hn, hdl⟩ := @lastOf_spec c dk l r x 0 hx []
    have hno : node l x r = plug p' (node l' n r') := hp
    have hl : (node l x r).toList = l'.toList ++ n :: (r'.toList ++ after p') := by
      rw [hno, toList_plug, hbf]
      simp [before]
    have hm (b : Nat) (hb : b ∈ n :: (r'.toList ++ after p')) : b ∈ (node l x r).toList := by
      rw [hl]
      exact mem_append_right _ hb
    have hn0 : n ≠ 0 := h.tree.holds.ne_zero (hm n mem_cons_self)
    obtain ⟨e, he⟩ := h.entry (hm n mem_cons_self)
    rw [inDirectory_eq he, decide_eq_true_eq] at hn
    have hd := h.descending
    have hnd := h.tree.nodup
    have hsz := h.size
    rw [hl] at hd hnd hsz
    have hle : ∀ b ∈ n :: (r'.toList ++ after p'), ∀ f, c.Entries b = some f → f.DirectoryKey ≤ dk := by
      intro b hb f hf
      rcases mem_cons.mp hb with rfl | hb
      · cases he.symm.trans hf
        exact le_of_eq hn
      · exact hn ▸ (pairwise_cons.mp (pairwise_append.mp hd).2.1).1 b hb e f he hf
    have hfl : (r'.toList ++ after p').length < loopBound := by
      rw [length_append, length_cons] at hsz
      omega
    obtain ⟨c', ns', heq, hok, hrd⟩ := @deleteLoop_spec en c _ n dk _ true _ _ h hl hle hfl
    refine ⟨c', ns', _, ?_, hok, hrd,
      fun b _ hb => by simp [hb], hdl.trans ⟨fun hdl b hb => ?_, fun hdl b hb => ?_⟩⟩
    · rw [hls, if_neg hn0, heq]
    · rw [hrd.nodes_eq, mem_filter, hl, mem_append] at hb
      rcases hb.1 with hb' | hb'
      · exact hdl b hb'
      · simpa [hb'] using hb.2
    refine hdl b ?_
    have ho : b ∉ n :: (r'.toList ++ after p') := fun h => (nodup_append.mp hnd).2.2 b hb b h rfl
    rw [hrd.nodes_eq, mem_filter, hl]
    exact ⟨mem_append_left _ hb, by rw [decide_eq_false ho]; rfl⟩

end FreeNT.FsRtl
