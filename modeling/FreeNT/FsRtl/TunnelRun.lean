import FreeNT.Lib.Run
import FreeNT.FsRtl.TunnelTree

/-!
# Runs of a tunnel cache

`tunnel_accounting`: the tree, the queue and the counter have the same entries, not more
than `TunnelMaxEntries`, as long as no call has to remove an entry because there are too
many (`Room`): a call that has to fails, and that is the only way for one to fail.

`tunnel_find`: an entry is found if it was the last one added with its key, is not too old,
and its directory was not deleted since. The order in which `FsRtlDeleteKeyFromTunnelCache`
searches is not that of the tree, so that this needs the entries of a directory that is
deleted to be where it comes to (`DeleteOk`).
-/

namespace FreeNT.FsRtl

open SplayTree FreeNT.Rtl List Option Nat

inductive TunnelCall where
  | add (d : TunnelData) (alloc : TunnelAllocation) (time pruneTime : Int)
  | find (directoryKey : Nat) (name : List Nat) (buffers : TunnelBuffers) (time : Int)
  | delete (directoryKey : Nat)

def tunnelStep (env : TunnelEnv) (c : Tunnel) : TunnelCall → Option Tunnel
  | .add d alloc time pruneTime => fsRtlAddToTunnelCache env c d alloc time pruneTime
  | .find directoryKey name buffers time => (fsRtlFindInTunnelCache env c directoryKey name buffers time).map (·.1)
  | .delete directoryKey => fsRtlDeleteKeyFromTunnelCache env c directoryKey

variable {env : TunnelEnv} {c c' : Tunnel} {nodes : SplayTree Nat}

/-- The caller gives the name that is the key, and buffers with enough room, and a node that is
allocated is a block of memory of its own. -/
def Valid (env : TunnelEnv) (c : Tunnel) : TunnelCall → Prop
  | .add d alloc _ _ => d.keyString.isSome ∧ d.length < 2 ^ 32 ∧
      ((alloc.node d.length).1 ≠ 0 → Fresh tunnelNodeSize (2 ^ 32) c.TimerQueue (alloc.node d.length).1)
  | .find directoryKey name buffers _ => ∀ a ∈ c.TimerQueue, c.hasKey env (directoryKey, name) a →
      ∀ e, c.Entries a = some e → e.Data.length ≤ buffers.Data
  | .delete _ => True

/-! ## Counting -/

/-- The number of entries after an addition and the removal of those that are expired. -/
def Tunnel.countAfter (env : TunnelEnv) (c : Tunnel) (d : TunnelData) (time pruneTime : Int) : Nat :=
  (c.TimerQueue.filter fun b => !c.hasKey env d.key b && !c.old env pruneTime b).length +
    if expired env pruneTime (d.entry time false) then 0 else 1

/-- After an addition there are not too many entries, and not more than the counter can count. -/
def Room (env : TunnelEnv) (c : Tunnel) : TunnelCall → Prop
  | .add d alloc time pruneTime => env.TunnelMaxEntries = 0 ∨ (alloc.node d.length).1 = 0 ∨
      c.countAfter env d time pruneTime ≤ env.TunnelMaxEntries ∧ c.countAfter env d time pruneTime < 2 ^ 16
  | _ => True

/-- What a call of `FsRtlAddToTunnelCache` does, if it adds something: with `n` entries left, it
fails if the counter is too great. -/
lemma add_spec {d : TunnelData} {al : TunnelAllocation} {time pt : Int} (hm : env.TunnelMaxEntries ≠ 0)
    (h : CacheOk env c nodes) (hv : Valid env c (.add d al time pt)) (ha : (al.node d.length).1 ≠ 0) :
    ∃ c1 nodes1 c2 nodes2, CacheOk env c1 nodes1 ∧
      Inserted env c c1 nodes nodes1 (al.node d.length).1 (d.entry time (al.node d.length).2) ∧
        CacheOk env c2 nodes2 ∧
      Reduced c1 c2 nodes1 nodes2 (fun a => !c1.old env pt a) ∧ nodes2.toList.length = c.countAfter env d time pt ∧
      fsRtlAddToTunnelCache env c d al time pt =
        if c2.NumEntries > env.TunnelMaxEntries then none else some c2 := by
  obtain ⟨hn, hln, hf⟩ := hv
  obtain ⟨n, hn⟩ := isSome_iff_exists.mp hn
  obtain ⟨cr, l, r, nodes1, hl, hok1, hin⟩ := insertEntry_spec h (hf ha) hn time (al.node d.length).2
  obtain ⟨c2, nodes2, hok2, hr, hp⟩ := @prune_spec env _ nodes1 pt hok1
  refine ⟨_, nodes1, c2, nodes2, hok1, hin, hok2, hr, ?_, ?_⟩
  swap
  · rw [fsRtlAddToTunnelCache, if_neg hm]
    dsimp only
    rw [if_neg ha, if_neg (by omega), hl, ← hp]
    rfl
  have hs (b : Nat) (hb : b ∈ c.TimerQueue.filter fun b => !c.hasKey env d.key b) :
      (!(insertEntry c d (al.node d.length).1 (al.node d.length).2 time cr l r).old env pt b) =
        !c.old env pt b := by
    rw [mem_filter] at hb
    have he := hin.entries b (h.queue.mem_iff.mp hb.1) (by rw [entry_key]; exact hb.2)
    rw [Tunnel.old, Tunnel.old, he]
  have hnw : (insertEntry c d (al.node d.length).1 (al.node d.length).2 time cr l r).old env pt
      (al.node d.length).1 = expired env pt (d.entry time false) := by
    rw [Tunnel.old, hin.new, any_some]
    rfl
  rw [← hok2.queue.length_eq, hr.queue_eq, hin.queue_eq, entry_key, List.filter_append,
    List.filter_congr hs, List.filter_filter,
    length_append, filter_cons, hnw, Tunnel.countAfter]
  simp only [Bool.and_comm]
  cases expired env pt (d.entry time false) <;> rfl

variable {directoryKey : Nat}

lemma find_spec {nm : List Nat} {b : TunnelBuffers} {time : Int} (hmx : env.TunnelMaxEntries ≠ 0)
    (h : CacheOk env c nodes) (hc : nodes.toList.length ≤ env.TunnelMaxEntries)
    (hv : Valid env c (.find directoryKey nm b time)) :
    ∃ c' nodes', CacheOk env c' nodes' ∧ Reduced c c' nodes nodes' (fun a => !c.old env time a) ∧
      ((∃ a ∈ nodes'.toList, ∃ e found, c.Entries a = some e ∧ keyOrder env (directoryKey, nm) e.key = .eq ∧
          copyEntry e b = some found ∧
          fsRtlFindInTunnelCache env c directoryKey nm b time = some (c', some found)) ∨
        (∀ a ∈ nodes'.toList, ∀ e, c.Entries a = some e → keyOrder env (directoryKey, nm) e.key ≠ .eq) ∧
          fsRtlFindInTunnelCache env c directoryKey nm b time = some (c', none)) := by
  obtain ⟨c', nodes', hok, hrd, hp⟩ := @prune_spec env c nodes time h
  have hle : c'.NumEntries ≤ env.TunnelMaxEntries := by
    have hln : nodes'.toList.length ≤ nodes.toList.length := hrd.nodes_eq ▸ length_filter_le _ _
    rw [hok.count]
    exact le_trans (mod_le _ _) (le_trans hln hc)
  rw [if_neg (not_lt.mpr hle)] at hp
  refine ⟨c', nodes', hok, hrd, ?_⟩
  rw [fsRtlFindInTunnelCache, if_neg hmx, hp, do_some,
    @findLoop_eq env c' (directoryKey, nm) loopBound c'.Cache 0 0]
  rcases addLoop_root hok (directoryKey, nm) with ⟨path, l, n, r, e, hl, rfl, he, heq⟩ | ⟨path, rs,
    hl, -, rfl, hgt, hlt⟩
  · have hm : n ∈ (plug path (node l n r)).toList := by simp [toList_plug]
    have he' : c.Entries n = some e := hrd.entries n hm ▸ he
    have hn0 : n ≠ 0 := hok.tree.holds.ne_zero hm
    have hr : e.Data.length ≤ b.Data := by
      rw [hrd.nodes_eq, mem_filter] at hm
      exact hv n (h.queue.mem_iff.mpr hm.1) (by simp [hasKey_eq he', heq]) e he'
    refine .inl ⟨n, hm, e, _, he', heq, if_neg (not_lt.mpr hr), ?_⟩
    simp [hl, hn0, he, copyEntry, not_lt.mpr hr]
  refine .inr ⟨fun a ha e he => ?_, by simp [hl]⟩
  have hk : c'.keyAt a = some e.key := by rw [Tunnel.keyAt, hrd.entries a ha, he, map_some]
  rw [toList_plug, toList_nil, nil_append, mem_append] at ha
  rcases ha with ha | ha
  · simp [hgt a ha _ hk]
  · simp [hlt a ha _ hk]

/-- The tree, the queue and the counter have the same entries, not too many. -/
def Accounted (env : TunnelEnv) (c : Tunnel) : Prop :=
  ∃ nodes, Tree c.SplayInfo nodes ∧ c.Cache = nodes.addr ∧ c.TimerQueue.Perm nodes.toList ∧
    c.NumEntries = nodes.toList.length ∧
    c.NumEntries = c.TimerQueue.length ∧ c.NumEntries ≤ env.TunnelMaxEntries

structure TunnelInv (env : TunnelEnv) (c : Tunnel) (nodes : SplayTree Nat) : Prop where
  ok : CacheOk env c nodes
  few : nodes.toList.length ≤ env.TunnelMaxEntries
  counted : nodes.toList.length < 2 ^ 16

lemma TunnelInv.accounted (h : TunnelInv env c nodes) : Accounted env c := by
  have hc : c.NumEntries = nodes.toList.length := h.ok.count.trans (mod_eq_of_lt h.counted)
  refine ⟨nodes, h.ok.tree, h.ok.root, h.ok.queue, hc, hc.trans h.ok.queue.length_eq.symm, ?_⟩
  rw [hc]
  exact h.few

lemma TunnelInv.reduced {nodes' : SplayTree Nat} {k : Nat → Bool} (h : TunnelInv env c nodes)
    (hok : CacheOk env c' nodes')
    (hr : Reduced c c' nodes nodes' k) : TunnelInv env c' nodes' := by
  have hl : nodes'.toList.length ≤ nodes.toList.length := hr.nodes_eq ▸ length_filter_le _ _
  exact ⟨hok, le_trans hl h.few, lt_of_le_of_lt hl h.counted⟩

variable {call : TunnelCall}

section

variable (h : TunnelInv env c nodes) (hv : Valid env c call)

include h hv

lemma step_inv (hr : Room env c call) :
    ∃ c' nodes', tunnelStep env c call = some c' ∧ TunnelInv env c' nodes' := by
  by_cases hm : env.TunnelMaxEntries = 0
  · refine ⟨c, nodes, ?_, h⟩
    cases call <;> simp [tunnelStep, fsRtlAddToTunnelCache, fsRtlFindInTunnelCache,
      fsRtlDeleteKeyFromTunnelCache, hm]
  cases call with
  | add d al time pt =>
    by_cases ha : (al.node d.length).1 = 0
    · exact ⟨c, nodes, by simp [tunnelStep, fsRtlAddToTunnelCache, hm, ha], h⟩
    obtain ⟨hle, hlt⟩ := (hr.resolve_left hm).resolve_left ha
    obtain ⟨c1, nodes1, c2, nodes2, -, -, hok2, -, hl, heq⟩ := add_spec hm h.ok hv ha
    have hc := hok2.count
    refine ⟨c2, nodes2, ?_, hok2, hl ▸ hle, hl ▸ hlt⟩
    rw [tunnelStep, heq, if_neg (by omega)]
  | find directoryKey n b time =>
    obtain ⟨c', nodes', hok, hrd, hf⟩ := find_spec hm h.ok h.few hv
    refine ⟨c', nodes', ?_, h.reduced hok hrd⟩
    rcases hf with ⟨a, -, e, found, -, -, -, heq⟩ | ⟨-, heq⟩
    · rw [tunnelStep, heq, map_some]
    · rw [tunnelStep, heq, map_some]
  | delete directoryKey =>
    obtain ⟨c', nodes', k, heq, hok, hrd, -⟩ := deleteKey_spec hm h.ok directoryKey
    exact ⟨c', nodes', heq, h.reduced hok hrd⟩

/-- A call without room fails, or the counter no longer agrees. -/
lemma step_no_room (hr : ¬ Room env c call) :
    ¬ ∃ c', tunnelStep env c call = some c' ∧ Accounted env c' := by
  cases call with
  | add d a time pt =>
    simp only [Room, not_or] at hr
    obtain ⟨hm, ha, hr⟩ := hr
    obtain ⟨c1, nodes1, c2, nodes2, -, -, hok2, -, hl, heq⟩ := add_spec hm h.ok hv ha
    rintro ⟨c', hs, nodes', -, -, hq, hc, hc', hle⟩
    rw [tunnelStep, heq] at hs
    split at hs
    · cases hs
    cases hs
    have hc2 := hok2.count
    have hq2 := hok2.queue.length_eq
    omega
  | find | delete => exact absurd trivial hr

end

/-- As long as no addition leaves too many entries, the tree, the queue and the counter have the
same entries, not more than `TunnelMaxEntries`. An addition that does leave too many fails, or the
counter no longer agrees. -/
theorem tunnel_accounting {calls : List TunnelCall}
    (hrun : Run (tunnelStep env) (fun c call => Valid env c call ∧
      Room env c call) fsRtlInitializeTunnelCache calls c) :
    Accounted env c ∧
      ∀ call, Valid env c call →
        ((∃ c', tunnelStep env c call = some c' ∧ Accounted env c') ↔ Room env c call) := by
  have hin : ∃ nodes, TunnelInv env c nodes := by
    refine hrun.invariant (fun c => ∃ nodes, TunnelInv env c nodes) ?_ ⟨nil, cacheOk_init,
      zero_le _, zero_lt_succ _⟩
    rintro c call c' ⟨nodes, h⟩ ⟨hvalid, hr⟩ hs
    obtain ⟨c₁, nodes₁, heq, h₁⟩ := step_inv h hvalid hr
    cases heq.symm.trans hs
    exact ⟨nodes₁, h₁⟩
  obtain ⟨nodes, h⟩ := hin
  refine ⟨h.accounted, fun call hvalid => ⟨fun hs => ?_, fun hr => ?_⟩⟩
  · by_contra hr
    exact step_no_room h hvalid hr hs
  · obtain ⟨c', nodes', heq, h'⟩ := step_inv h hvalid hr
    exact ⟨c', heq, h'.accounted⟩

/-- A cache with room for so many entries. -/
def smallCache (entries : Nat) : TunnelEnv := ⟨entries, 10, id⟩

/-- A directory with one file, and a node for it. -/
def addFile (directoryKey address : Nat) (time : Int) : TunnelCall :=
  .add ⟨directoryKey, none, some [65], false, [1]⟩ ⟨address, 0⟩ time time

/-- Two files of two directories, in a cache for two. -/
theorem tunnel_accounting_two : ∃ c, Run (tunnelStep (smallCache 2))
    (fun c call => Valid (smallCache 2) c call ∧ Room (smallCache 2) c call)
    fsRtlInitializeTunnelCache [addFile 1 100 5, addFile 2 200 6] c ∧ Accounted (smallCache 2) c ∧
    ∃ c', tunnelStep (smallCache 2) c (.delete 1) = some c' ∧ Accounted (smallCache 2) c' := by
  obtain ⟨c, hr⟩ : ∃ c, Run (tunnelStep (smallCache 2)) (fun c call => Valid (smallCache 2) c call ∧
    Room (smallCache 2) c call)
      fsRtlInitializeTunnelCache [addFile 1 100 5, addFile 2 200 6] c := by
    refine ⟨_, .cons ⟨⟨rfl, by decide, fun _ => by decide⟩, .inr (.inr (by decide))⟩ rfl
      (.single ⟨⟨rfl, by decide, fun _ => by decide⟩, .inr (.inr (by decide))⟩ rfl)⟩
  obtain ⟨ha, hn⟩ := tunnel_accounting hr
  exact ⟨c, hr, ha, (hn (.delete 1) trivial).mpr trivial⟩

/-- One entry more than there is room for: it is not the first entry of the queue that is removed. -/
theorem tunnel_accounting_fails : ∃ c, Run (tunnelStep (smallCache 1)) (Valid (smallCache 1))
    fsRtlInitializeTunnelCache [addFile 1 100 5] c ∧
    c.TimerQueue = [100] ∧ c.NumEntries = 1 ∧ Valid (smallCache 1) c (addFile 2 200 5) ∧
    tunnelStep (smallCache 1) c (addFile 2 200 5) = none := by
  refine ⟨_, .single ⟨rfl, by decide, fun _ => by decide⟩ rfl, rfl, rfl, ⟨rfl, by decide, fun _ => by decide⟩, rfl⟩

/-! ## Finding -/

/-- The times that a call reads. -/
def TunnelCall.times : TunnelCall → List Int
  | .add _ _ time pruneTime => [time, pruneTime]
  | .find _ _ _ time => [time]
  | .delete _ => []

/-- What is to be remembered after a call. -/
def remember (env : TunnelEnv) (f : TunnelKey → Option TunnelNodeEntry) :
    TunnelCall → TunnelKey → Option TunnelNodeEntry
  | .add d alloc time _, k =>
      if upcased env k = upcased env d.key then some (d.entry time (alloc.node d.length).2) else f k
  | .find .., k => f k
  | .delete directoryKey, k => if k.1 = directoryKey then none else f k

/-- The last entry added with a key, if its directory was not deleted since. -/
def remembered (env : TunnelEnv) (calls : List TunnelCall) : TunnelKey → Option TunnelNodeEntry :=
  calls.foldl (remember env) fun _ => none

/-- The entries of the directory are where a deletion comes to. -/
def DeleteOk (c : Tunnel) (directoryKey : Nat) : Prop :=
  ∃ nodes, Tree c.SplayInfo nodes ∧ c.Cache = nodes.addr ∧ Deletable c directoryKey nodes

/-- An allocation succeeds, there is room for another entry, and the entries of a directory that is
deleted are where they are looked for. -/
def Proper (env : TunnelEnv) (c : Tunnel) : TunnelCall → Prop
  | .add d alloc time pruneTime => (alloc.node d.length).1 ≠ 0 ∧
      c.countAfter env d time pruneTime ≤ env.TunnelMaxEntries
  | .find .. => True
  | .delete directoryKey => DeleteOk c directoryKey

/-- What is remembered under equal keys is the same, and has that key. -/
structure Keyed (env : TunnelEnv) (f : TunnelKey → Option TunnelNodeEntry) : Prop where
  congr : ∀ k k', upcased env k = upcased env k' → f k = f k'
  key : ∀ k e, f k = some e → upcased env e.key = upcased env k

lemma Keyed.remember {f : TunnelKey → Option TunnelNodeEntry} (h : Keyed env f)
    (call : TunnelCall) : Keyed env (remember env f call) := by
  cases call with
  | add d a time pt =>
    refine ⟨fun k k' hk => ?_, fun k e he => ?_⟩
    · simp only [FsRtl.remember, hk, h.congr k k' hk]
    simp only [FsRtl.remember] at he
    split at he
    · rename_i hk
      cases he
      rw [entry_key, hk]
    · exact h.key k e he
  | find => exact h
  | delete directoryKey =>
    refine ⟨fun k k' hk => ?_, fun k e he => ?_⟩
    · have hd : k.1 = k'.1 := (Prod.ext_iff.mp hk).1
      simp [FsRtl.remember, hd, h.congr k k' hk]
    simp only [FsRtl.remember] at he
    split at he
    · cases he
    · exact h.key k e he

/-- The cache has only what is to be remembered, and all of that which is not too old, at any time
after those read so far. -/
structure Faithful (env : TunnelEnv) (c : Tunnel) (nodes : SplayTree Nat)
    (f : TunnelKey → Option TunnelNodeEntry) (past : List Int) : Prop where
  ok : CacheOk env c nodes
  keyed : Keyed env f
  stored : ∀ a ∈ nodes.toList, ∀ e, c.Entries a = some e → f e.key = some e ∧ e.Time ∈ past
  present : ∀ k e now, f k = some e → (∀ t ∈ past, t ≤ now) → now ≤ e.Time + env.TunnelMaxAge →
    ∃ a ∈ nodes.toList, c.Entries a = some e

section
variable {f : TunnelKey → Option TunnelNodeEntry} {p : List Int} {nodes' : SplayTree Nat} {time : Int}

lemma old_eq {a : Nat} {e : TunnelNodeEntry} (he : c.Entries a = some e) :
    c.old env time a = expired env time e := by
  rw [Tunnel.old, he, any_some]

/-- Pruning removes what is too old at its time, and so at any later one. -/
lemma Faithful.prune (h : Faithful env c nodes f p) (hok : CacheOk env c' nodes')
    (hr : Reduced c c' nodes nodes' fun a => !c.old env time a) (htm : ∀ t ∈ p, t ≤ time) :
    Faithful env c' nodes' f (p ++ [time]) := by
  refine ⟨hok, h.keyed, fun a ha e he => ?_, fun k e n hk hp hn => ?_⟩
  · rw [hr.entries a ha] at he
    rw [hr.nodes_eq, mem_filter] at ha
    obtain ⟨hf, hm⟩ := h.stored a ha.1 e he
    exact ⟨hf, mem_append_left _ hm⟩
  obtain ⟨a, ha, he⟩ := h.present k e n hk (fun t ht => hp t (mem_append_left _ ht)) hn
  have hnw : time ≤ n := hp time (by simp)
  have ho : e.Time ≤ time := htm _ (h.stored a ha e he).2
  have ha' : a ∈ nodes'.toList := by
    rw [hr.nodes_eq, mem_filter, old_eq he]
    refine ⟨ha, ?_⟩
    simp only [expired, Bool.not_eq_true', Bool.or_eq_false_iff, decide_eq_false_iff_not]
    omega
  exact ⟨a, ha', (hr.entries a ha').trans he⟩

lemma Faithful.insert {c1 : Tunnel} {nodes1 : SplayTree Nat} {a : Nat} {d : TunnelData}
    {al : TunnelAllocation} {pt : Int}
    (h : Faithful env c nodes f p) (hok : CacheOk env c1 nodes1)
    (hin : Inserted env c c1 nodes nodes1 a (d.entry time (al.node d.length).2)) :
    Faithful env c1 nodes1 (remember env f (.add d al time pt)) (p ++ [time]) := by
  obtain ⟨as, bs, hl, hfl⟩ := hin.nodes_eq
  rw [entry_key] at hfl
  have hm (b : Nat) : b ∈ nodes1.toList ↔ b = a ∨ b ∈ nodes.toList ∧ c.hasKey env d.key b = false := by
    rw [hl, perm_middle.mem_iff, mem_cons, hfl, mem_filter]
    simp
  have hen (b : Nat) (hb : b ∈ nodes.toList) (hky : c.hasKey env d.key b = false) : c1.Entries b = c.Entries b :=
    hin.entries b hb (by rw [entry_key, hky]; rfl)
  refine ⟨hok, h.keyed.remember _, fun b hb e he => ?_, fun k e n hk hp hn => ?_⟩
  · rcases (hm b).mp hb with rfl | ⟨hb, hky⟩
    · cases hin.new.symm.trans he
      refine ⟨?_, by simp [TunnelData.entry]⟩
      rw [remember, entry_key, if_pos rfl]
    rw [hen b hb hky] at he
    rw [hasKey_eq he, decide_eq_false_iff_not, keyOrder_eq] at hky
    obtain ⟨hf, htm⟩ := h.stored b hb e he
    exact ⟨by rw [remember, if_neg (Ne.symm hky), hf], mem_append_left _ htm⟩
  rw [remember] at hk
  split at hk
  · cases hk
    exact ⟨a, (hm a).mpr (.inl rfl), hin.new⟩
  rename_i hne
  obtain ⟨b, hb, he⟩ := h.present k e n hk (fun t ht => hp t (mem_append_left _ ht)) hn
  have hky : c.hasKey env d.key b = false := by
    rw [hasKey_eq he, decide_eq_false_iff_not, keyOrder_eq, h.keyed.key k e hk]
    exact Ne.symm hne
  exact ⟨b, (hm b).mpr (.inr ⟨hb, hky⟩), (hen b hb hky).trans he⟩

lemma Faithful.delete {kp : Nat → Bool} (h : Faithful env c nodes f p) (hok : CacheOk env c' nodes')
    (hr : Reduced c c' nodes nodes' kp) (hkp : ∀ b ∈ nodes.toList, c.inDirectory directoryKey b = false → kp b)
    (hal : ∀ b ∈ nodes'.toList, c.inDirectory directoryKey b = false) :
    Faithful env c' nodes' (remember env f (.delete directoryKey)) p := by
  refine ⟨hok, h.keyed.remember _, fun a ha e he => ?_, fun k e n hk hp hn => ?_⟩
  · have hin := hal a ha
    rw [hr.entries a ha] at he
    rw [hr.nodes_eq, mem_filter] at ha
    rw [inDirectory_eq he, decide_eq_false_iff_not] at hin
    obtain ⟨hf, ht⟩ := h.stored a ha.1 e he
    exact ⟨by rw [remember, if_neg (show ¬ e.key.1 = directoryKey from hin), hf], ht⟩
  rw [remember] at hk
  split at hk
  · cases hk
  rename_i hne
  obtain ⟨a, ha, he⟩ := h.present k e n hk hp hn
  have hd : e.DirectoryKey = k.1 := (Prod.ext_iff.mp (h.keyed.key k e hk)).1
  have hin : c.inDirectory directoryKey a = false := by
    rw [inDirectory_eq he, decide_eq_false_iff_not, hd]
    exact hne
  have ha' : a ∈ nodes'.toList := by
    rw [hr.nodes_eq, mem_filter]
    exact ⟨ha, hkp a ha hin⟩
  exact ⟨a, ha', (hr.entries a ha').trans he⟩

lemma deleteOk_iff (h : CacheOk env c nodes) : DeleteOk c directoryKey ↔ Deletable c directoryKey nodes := by
  refine ⟨fun ⟨nodes', ht, hr, hd⟩ => ?_, fun hd => ⟨nodes, h.tree, h.root, hd⟩⟩
  rwa [h.tree.holds.unique ht.holds (h.root.symm.trans hr)]

/-- A call that is proper succeeds, and does with the cache what it does with what is remembered. -/
lemma step_faithful (hm : env.TunnelMaxEntries ≠ 0) (h : Faithful env c nodes f p)
    (hfw : nodes.toList.length ≤ env.TunnelMaxEntries) (hv : Valid env c call) (hp : Proper env c call)
    (hc : (p ++ call.times).Pairwise (· ≤ ·)) :
    ∃ c' nodes', tunnelStep env c call = some c' ∧ Faithful env c' nodes' (remember env f call) (p ++ call.times) ∧
      nodes'.toList.length ≤ env.TunnelMaxEntries := by
  obtain ⟨-, -, hps⟩ := pairwise_append.mp hc
  cases call with
  | add d al time pt =>
    obtain ⟨ha, hcn⟩ := hp
    obtain ⟨c1, nodes1, c2, nodes2, hok1, hin, hok2, hr, hl, heq⟩ := add_spec hm h.ok hv ha
    have htm : time ≤ pt := by
      obtain ⟨-, htm, -⟩ := pairwise_append.mp hc
      exact (pairwise_cons.mp htm).1 pt mem_cons_self
    have hle : c2.NumEntries ≤ env.TunnelMaxEntries := by
      rw [hok2.count, hl]
      exact le_trans (mod_le _ _) hcn
    have hf := (@Faithful.insert env c nodes f p time c1 nodes1 _ d al pt h hok1 hin).prune hok2 hr fun t ht => by
      rcases mem_append.mp ht with ht | ht
      · exact hps t ht pt (by simp [TunnelCall.times])
      · rw [mem_singleton.mp ht]
        exact htm
    refine ⟨c2, nodes2, ?_, ?_, hl ▸ hcn⟩
    · rw [tunnelStep, heq, if_neg (not_lt.mpr hle)]
    · rwa [append_assoc] at hf
  | find directoryKey n b time =>
    obtain ⟨c', nodes', hok, hr, hfn⟩ := find_spec hm h.ok hfw hv
    refine ⟨c', nodes', ?_, h.prune hok hr fun t ht => hps t ht time (by simp [TunnelCall.times]), ?_⟩
    · rcases hfn with ⟨a, -, e, found, -, -, -, heq⟩ | ⟨-, heq⟩
      · rw [tunnelStep, heq, map_some]
      · rw [tunnelStep, heq, map_some]
    · exact le_trans (hr.nodes_eq ▸ length_filter_le _ _) hfw
  | delete directoryKey =>
    obtain ⟨c', nodes', k, heq, hok, hr, hk, hal⟩ := deleteKey_spec hm h.ok directoryKey
    refine ⟨c', nodes', heq, ?_, le_trans (hr.nodes_eq ▸ length_filter_le _ _) hfw⟩
    rw [TunnelCall.times, append_nil]
    exact h.delete hok hr hk (hal.mp ((deleteOk_iff h.ok).mp hp))

lemma run_faithful {cs : List TunnelCall} (hm : env.TunnelMaxEntries ≠ 0)
    (hr : Run (tunnelStep env) (fun c call => Valid env c call ∧ Proper env c call) c cs c')
      (h : Faithful env c nodes f p)
    (hfw : nodes.toList.length ≤ env.TunnelMaxEntries) (hc : (p ++ cs.flatMap TunnelCall.times).Pairwise (· ≤ ·)) :
    ∃ nodes', Faithful env c' nodes' (cs.foldl (remember env) f) (p ++ cs.flatMap TunnelCall.times) ∧
      nodes'.toList.length ≤ env.TunnelMaxEntries := by
  induction hr generalizing nodes f p with
  | nil => exact ⟨nodes, by simpa using h, hfw⟩
  | @cons c c1 c' call cs hok hs _ ih =>
    rw [flatMap_cons, ← append_assoc] at hc ⊢
    obtain ⟨c2, nodes2, heq, hf, hfw2⟩ := step_faithful hm h hfw hok.1 hok.2 (pairwise_append.mp hc).1
    cases heq.symm.trans hs
    exact ih hf hfw2 hc

end

/-- The buffers of the caller have room for the names and data of an entry. -/
def Fits (e : TunnelNodeEntry) (buffers : TunnelBuffers) : Prop :=
  e.ShortName.length ≤ buffers.ShortName ∧
    (e.LongName.length ≤ buffers.LongName ∨ buffers.longNameAllocated = true) ∧
    e.Data.length ≤ buffers.Data

lemma copyEntry_fits {e : TunnelNodeEntry} {b : TunnelBuffers} (h : Fits e b) :
    copyEntry e b = some ⟨e.ShortName, some e.LongName, e.Data⟩ := by
  obtain ⟨hs, hl, hd⟩ := h
  rw [copyEntry, if_neg (not_lt.mpr hd), take_of_length_le hs]
  rcases hl with hl | hl
  · rw [if_neg (not_lt.mpr hl)]
  · rw [if_pos hl, ite_self]

/-- In a run of proper calls with a clock that does not go back, a search finds the last entry
added with the key, if it is not too old and its directory was not deleted since, with its names
and data. A deletion leaves no entry of its directory exactly if these are where it comes to. -/
theorem tunnel_find {calls : List TunnelCall} {directoryKey : Nat} {name : List Nat}
    {buffers : TunnelBuffers} {now : Int}
    (hmax : 0 < env.TunnelMaxEntries)
    (hrun : Run (tunnelStep env) (fun c call => Valid env c call ∧
      Proper env c call) fsRtlInitializeTunnelCache calls c)
    (hclock : (calls.flatMap TunnelCall.times ++ [now]).Pairwise (· ≤ ·))
    (hfits : ∀ e, remembered env calls (directoryKey, name) = some e → Fits e buffers) :
    (∃ c', fsRtlFindInTunnelCache env c directoryKey name buffers now =
      some (c', ((remembered env calls (directoryKey, name)).filter fun e => now ≤ e.Time + env.TunnelMaxAge).map
        fun e => ⟨e.ShortName, some e.LongName, e.Data⟩)) ∧
    ∀ directory, ∃ c', fsRtlDeleteKeyFromTunnelCache env c directory = some c' ∧
      ((∀ a ∈ c'.TimerQueue, c'.inDirectory directory a = false) ↔ DeleteOk c directory) := by
  have hmax : env.TunnelMaxEntries ≠ 0 := pos_iff_ne_zero.mp hmax
  obtain ⟨hsr, -, hn⟩ := pairwise_append.mp hclock
  have hin : Faithful env fsRtlInitializeTunnelCache nil (fun _ => none) [] :=
    ⟨cacheOk_init, ⟨fun _ _ _ => rfl, nofun⟩, nofun, nofun⟩
  obtain ⟨nodes, h, hfw⟩ := run_faithful hmax hrun hin (zero_le _) hsr
  have hvalid : Valid env c (.find directoryKey name buffers now) := by
    intro a ha hky e he
    rw [hasKey_eq he, decide_eq_true_eq, keyOrder_eq] at hky
    have hst := (h.stored a (h.ok.queue.mem_iff.mp ha) e he).1
    exact (hfits e ((h.keyed.congr _ _ hky).trans hst)).2.2
  constructor
  swap
  · intro directory
    obtain ⟨c', nodes', k, heq, hok, hr, -, hall⟩ := deleteKey_spec hmax h.ok directory
    refine ⟨c', heq, ?_⟩
    rw [deleteOk_iff h.ok, hall]
    have hs (a : Nat) (ha : a ∈ nodes'.toList) : c'.inDirectory directory a = c.inDirectory directory a := by
      rw [Tunnel.inDirectory, Tunnel.inDirectory, hr.entries a ha]
    exact ⟨fun hd a ha => hs a ha ▸ hd a (hok.queue.mem_iff.mpr ha),
      fun hd a ha => (hs a (hok.queue.mem_iff.mp ha)).trans (hd a (hok.queue.mem_iff.mp ha))⟩
  obtain ⟨c', nodes', hok, hr, hf⟩ := find_spec hmax h.ok hfw hvalid
  refine ⟨c', ?_⟩
  rcases hf with ⟨a, ha, e, found, he, hky, hc, heq⟩ | ⟨hno, heq⟩
  · rw [hr.nodes_eq, mem_filter, old_eq he] at ha
    have hk : remembered env calls (directoryKey, name) = some e :=
      (h.keyed.congr _ _ (keyOrder_eq.mp hky)).trans (h.stored a ha.1 e he).1
    have hal : now ≤ e.Time + env.TunnelMaxAge := by
      have hal := ha.2
      simp only [expired, Bool.not_eq_true', Bool.or_eq_false_iff, decide_eq_false_iff_not] at hal
      omega
    rw [copyEntry_fits (hfits e hk)] at hc
    rw [heq, hk, filter_some_pos (by simpa using hal), ← hc, map_some]
  rw [heq]
  cases hk : remembered env calls (directoryKey, name) with
  | none => rfl
  | some e =>
    have hde : ¬ now ≤ e.Time + env.TunnelMaxAge := fun hal => by
      obtain ⟨a, ha, he⟩ := h.present _ e now hk (fun t ht => hn t ht now mem_cons_self) hal
      have hp : e.Time ≤ now := hn _ (h.stored a ha e he).2 now mem_cons_self
      refine hno a ?_ e he (keyOrder_eq.mpr (h.keyed.key _ e hk).symm)
      rw [hr.nodes_eq, mem_filter, old_eq he]
      refine ⟨ha, ?_⟩
      simp only [expired, Bool.not_eq_true', Bool.or_eq_false_iff, decide_eq_false_iff_not]
      omega
    rw [filter_some_neg (by simpa using hde)]
    rfl

theorem tunnel_find_after_delete : ∃ c c', Run (tunnelStep (smallCache 4))
    (fun c call => Valid (smallCache 4) c call ∧ Proper (smallCache 4) c call)
    fsRtlInitializeTunnelCache [addFile 5 100 1, .delete 5, addFile 7 200 2] c ∧
    fsRtlFindInTunnelCache (smallCache 4) c 7 [65] ⟨0, 10, true, 10⟩ 3 = some (c', some ⟨[], some [65], [1]⟩) := by
  obtain ⟨c, hr⟩ : ∃ c, Run (tunnelStep (smallCache 4)) (fun c call => Valid (smallCache 4) c call ∧
    Proper (smallCache 4) c call)
      fsRtlInitializeTunnelCache [addFile 5 100 1, .delete 5, addFile 7 200 2] c := by
    refine ⟨_, .cons ⟨⟨rfl, by decide, fun _ => by decide⟩, by decide, by decide⟩ rfl
      (.cons ⟨trivial, node nil 100 nil,
        ⟨⟨by decide, rfl, rfl, rfl, trivial, trivial⟩, nodup_singleton 100⟩, rfl, ?_⟩ rfl
        (.single ⟨⟨rfl, by decide, fun _ => by decide⟩, by decide, by decide⟩ rfl))⟩
    trivial
  have hft : ∀ e, remembered (smallCache 4) [addFile 5 100 1, .delete 5, addFile 7 200 2] (7, [65]) = some e →
      Fits e ⟨0, 10, true, 10⟩ := by
    intro e he
    cases he
    exact ⟨by decide, .inl (by decide), by decide⟩
  obtain ⟨c', hf⟩ := (@tunnel_find _ _ _ 7 [65] _ 3 (by decide) hr (by decide) hft).1
  exact ⟨c, c', hr, hf⟩

/-- The greater directory is to the left of the smaller one, and a deletion looks for it on the right. -/
theorem tunnel_find_fails : ∃ c c', Run (tunnelStep (smallCache 4)) (Valid (smallCache 4))
    fsRtlInitializeTunnelCache
      [addFile 5 100 1, addFile 7 200 2, .delete 7] c ∧ c.NumEntries < 4 ∧
    remembered (smallCache 4) [addFile 5 100 1, addFile 7 200 2, .delete 7] (7, [65]) = none ∧
    fsRtlFindInTunnelCache (smallCache 4) c 7 [65] ⟨0, 10, true, 10⟩ 3 = some (c', some ⟨[], some [65], [1]⟩) := by
  refine ⟨_, _, .cons ⟨rfl, by decide, fun _ => by decide⟩ rfl
    (.cons ⟨rfl, by decide, fun _ => by decide⟩ rfl (.single trivial rfl)),
    by decide, rfl, rfl⟩

end FreeNT.FsRtl
