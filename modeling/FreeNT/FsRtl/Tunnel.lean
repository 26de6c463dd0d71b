import FreeNT.Rtl.SplayDelete

/-!
# The tunnel cache (`ntoskrnl/fsrtl/tunnel.c`)

Entries are kept in a splay tree, ordered by the key of their directory and by one of
their two names, and in a queue in the order of their times. The clock is an argument of
the routines that read it, and so are the addresses that allocations give, 0 for those
that fail. Names are lists of characters.

`none` stands for an access to something that is no entry: a key that is NULL, a block
that is too small for what is copied into it, and the head of the queue, at which
`FsRtlPruneTunnelCache` is when it goes on to remove entries because there are too many.
-/

namespace FreeNT.FsRtl

open FreeNT.Rtl

/-- The parameters, and the routine that gives the upper case of a character. -/
structure TunnelEnv where
  TunnelMaxEntries : Nat
  TunnelMaxAge : Nat
  rtlpUpcaseUnicodeChar : Nat → Nat

structure TunnelNodeEntry where
  Time : Int
  DirectoryKey : Nat
  Flags : Nat
  LongName : List Nat
  ShortName : List Nat
  Data : List Nat
  deriving DecidableEq, Repr

structure Tunnel where
  SplayInfo : Links
  Entries : Nat → Option TunnelNodeEntry
  Cache : Nat
  TimerQueue : List Nat
  NumEntries : Nat

/-- The size of a `TUNNEL_NODE_ENTRY`. -/
def tunnelNodeSize : Nat := 72

def defaultEntrySize : Nat := tunnelNodeSize + 72

def tunnelFlagPool : Nat := 2

def tunnelFlagKeyShortName : Nat := 1

def fsRtlInitializeTunnelCache : Tunnel := ⟨⟨fun _ => 0, fun _ => 0, fun _ => 0⟩, fun _ => none, 0, [], 0⟩

/-! ## Comparisons -/

/-- The loop of `RtlCompareUnicodeString` that ignores case. -/
def compareLoop (env : TunnelEnv) : List Nat → List Nat → Int
  | a :: as, b :: bs =>
    let ret : Int := env.rtlpUpcaseUnicodeChar a - env.rtlpUpcaseUnicodeChar b
    if ret = 0 then compareLoop env as bs else ret
  | _, _ => 0

def rtlCompareUnicodeString (env : TunnelEnv) (s₁ s₂ : List Nat) : Int :=
  let ret := compareLoop env s₁ s₂
  if ret = 0 then 2 * s₁.length - 2 * s₂.length else ret

/-- The name that is the key of an entry. -/
def TunnelNodeEntry.keyName (e : TunnelNodeEntry) : List Nat :=
  if e.Flags &&& tunnelFlagKeyShortName ≠ 0 then e.ShortName else e.LongName

/-- `FsRtlCompareNodeAndKey`; the name is not read if the directories differ. -/
def fsRtlCompareNodeAndKey (env : TunnelEnv) (e : TunnelNodeEntry) (directoryKey : Nat)
    (keyString : Option (List Nat)) : Option Int :=
  if directoryKey > e.DirectoryKey then some 1
  else if directoryKey < e.DirectoryKey then some (-1)
  else do
    let keyString ← keyString
    return rtlCompareUnicodeString env keyString e.keyName

/-! ## Removal -/

/-- An entry that is no longer in the tree is taken from the queue, and freed. -/
def Tunnel.without (c : Tunnel) (a : Nat) (m : Links) (root : Nat) : Tunnel where
  SplayInfo := m
  Cache := root
  TimerQueue := c.TimerQueue.erase a
  Entries := fun y => if y = a then none else c.Entries y
  NumEntries := (c.NumEntries + 2 ^ 16 - 1) % 2 ^ 16

/-- `FsRtlRemoveNodeFromTunnel`: the cache, and what is left of `Rebalance`. -/
def fsRtlRemoveNodeFromTunnel (c : Tunnel) (a : Nat) (rebalance : Bool) : Option (Tunnel × Bool) := do
  let (m, root) ← if rebalance then rtlDelete c.SplayInfo a else rtlDeleteNoSplay c.SplayInfo a c.Cache
  return (c.without a m root, false)

/-- An entry is too old, or from the future. -/
def expired (env : TunnelEnv) (curTime : Int) (e : TunnelNodeEntry) : Bool :=
  e.Time < curTime - env.TunnelMaxAge || e.Time > curTime

/-- The first loop of `FsRtlPruneTunnelCache`, over the queue as it is at its start. -/
def ageLoop (env : TunnelEnv) (curTime : Int) : List Nat → Tunnel → Bool → Option (Tunnel × Bool)
  | [], c, rebalance => some (c, rebalance)
  | a :: entries, c, rebalance => do
    let e ← c.Entries a
    if expired env curTime e then
      let (c, rebalance) ← fsRtlRemoveNodeFromTunnel c a rebalance
      ageLoop env curTime entries c rebalance
    else ageLoop env curTime entries c rebalance

def fsRtlPruneTunnelCache (env : TunnelEnv) (c : Tunnel) (curTime : Int) : Option Tunnel := do
  let (c, _) ← ageLoop env curTime c.TimerQueue c true
  -- the first loop ends at the head of the queue, and the second takes that for an entry
  if c.NumEntries > env.TunnelMaxEntries then none else some c

/-! ## Adding -/

/-- The loop of `FsRtlAddToTunnelCache`: the entry found, the last one seen, and how it compares. -/
def addLoop (env : TunnelEnv) (c : Tunnel) (directoryKey : Nat) (keyString : Option (List Nat)) :
    Nat → Nat → Nat → Int → Option (Nat × Nat × Int)
  | 0, _, _, _ => none
  | fuel + 1, curEntry, lastEntry, result =>
    if curEntry = 0 then some (0, lastEntry, result)
    else do
      let e ← c.Entries curEntry
      let result ← fsRtlCompareNodeAndKey env e directoryKey keyString
      if result > 0 then addLoop env c directoryKey keyString fuel (c.SplayInfo.LeftChild curEntry) curEntry result
      else if result = 0 then some (curEntry, curEntry, result)
      else addLoop env c directoryKey keyString fuel (c.SplayInfo.RightChild curEntry) curEntry result

/-- `NodeEntry` takes the place of `CurEntry`: the links, and the root. -/
def replaceEntry (m : Links) (root nodeEntry curEntry : Nat) : Links × Nat :=
  let m := if m.LeftChild curEntry ≠ 0 then rtlInsertAsLeftChild m nodeEntry (m.LeftChild curEntry) else m
  let m := if m.RightChild curEntry ≠ 0 then rtlInsertAsRightChild m nodeEntry (m.RightChild curEntry) else m
  if m.Parent curEntry = curEntry then (m, nodeEntry)
  else if rtlIsLeftChild m curEntry then (rtlInsertAsLeftChild m (m.Parent curEntry) nodeEntry, root)
  else (rtlInsertAsRightChild m (m.Parent curEntry) nodeEntry, root)

/-- A new node at the place that the search came to. -/
def linkEntry (m : Links) (root nodeEntry lastEntry : Nat) (result : Int) : Links × Nat :=
  if lastEntry = 0 then (m, nodeEntry)
  else if result > 0 then (rtlInsertAsLeftChild m lastEntry nodeEntry, root)
  else (rtlInsertAsRightChild m lastEntry nodeEntry, root)

/-- What is added: the names, which of them is the key, and the data. -/
structure TunnelData where
  DirectoryKey : Nat
  ShortName : Option (List Nat)
  LongName : Option (List Nat)
  KeyByShortName : Bool
  Data : List Nat

/-- The length of an entry with its names and data. -/
def TunnelData.length (d : TunnelData) : Nat :=
  tunnelNodeSize + d.Data.length + 2 * (d.ShortName.getD []).length + 2 * (d.LongName.getD []).length

def TunnelData.keyString (d : TunnelData) : Option (List Nat) :=
    if d.KeyByShortName then d.ShortName else d.LongName

/-- The entry that is made of it. -/
def TunnelData.entry (d : TunnelData) (time : Int) (fromPool : Bool) : TunnelNodeEntry where
  Time := time
  DirectoryKey := d.DirectoryKey
  Flags := (if fromPool then tunnelFlagPool else 0) ||| (if d.KeyByShortName then tunnelFlagKeyShortName else 0)
  LongName := d.LongName.getD []
  ShortName := d.ShortName.getD []
  Data := d.Data

/-- The cache with the new entry, before it is pruned. -/
def insertEntry (c : Tunnel) (d : TunnelData) (nodeEntry : Nat) (fromPool : Bool) (time : Int)
    (curEntry lastEntry : Nat) (result : Int) : Tunnel :=
  let m := rtlInitializeSplayLinks c.SplayInfo nodeEntry
  let (m, root) :=
    if curEntry ≠ 0 then replaceEntry m c.Cache nodeEntry curEntry else linkEntry m c.Cache nodeEntry lastEntry result
  { SplayInfo := m
    Cache := root
    TimerQueue := c.TimerQueue.erase curEntry ++ [nodeEntry]
    Entries := fun y => if y = nodeEntry then some (d.entry time fromPool) else if y = curEntry then none else c.Entries y
    NumEntries := ((if curEntry ≠ 0 then (c.NumEntries + 2 ^ 16 - 1) % 2 ^ 16 else c.NumEntries) + 1) % 2 ^ 16 }

/-- What the two allocators give. -/
structure TunnelAllocation where
  lookaside : Nat
  pool : Nat

/-- The node of a new entry, and whether it is from the pool. -/
def TunnelAllocation.node (alloc : TunnelAllocation) (length : Nat) : Nat × Bool :=
  if length % 2 ^ 32 ≤ defaultEntrySize ∧ alloc.lookaside ≠ 0 then (alloc.lookaside, false) else (alloc.pool, true)

/-- `FsRtlAddToTunnelCache`; the time is read for the entry, and again by `FsRtlPruneTunnelCache`. -/
def fsRtlAddToTunnelCache (env : TunnelEnv) (c : Tunnel) (d : TunnelData) (alloc : TunnelAllocation)
    (time pruneTime : Int) : Option Tunnel :=
  if env.TunnelMaxEntries = 0 then some c
  else
    let (nodeEntry, fromPool) := alloc.node d.length
    if nodeEntry = 0 then some c
    else if d.length ≥ 2 ^ 32 then none
    else do
      let (curEntry, lastEntry, result) ← addLoop env c d.DirectoryKey d.keyString loopBound c.Cache 0 0
      fsRtlPruneTunnelCache env (insertEntry c d nodeEntry fromPool time curEntry lastEntry result) pruneTime

/-! ## Deleting a directory -/

/-- The search of `FsRtlDeleteKeyFromTunnelCache`: an entry of the directory, or 0. -/
def deleteSearch (c : Tunnel) (directoryKey : Nat) : Nat → Nat → Nat → Option Nat
  | 0, _, _ => none
  | fuel + 1, curEntry, lastEntry =>
    if curEntry = 0 then some lastEntry
    else do
      let e ← c.Entries curEntry
      if e.DirectoryKey > directoryKey then deleteSearch c directoryKey fuel (c.SplayInfo.LeftChild curEntry) lastEntry
      else if e.DirectoryKey < directoryKey then
        if lastEntry ≠ 0 then some lastEntry
        else deleteSearch c directoryKey fuel (c.SplayInfo.RightChild curEntry) lastEntry
      else deleteSearch c directoryKey fuel (c.SplayInfo.LeftChild curEntry) curEntry

/-- The loop that removes the entries of the directory. -/
def deleteLoop (directoryKey : Nat) : Nat → Tunnel → Nat → Bool → Option Tunnel
  | 0, _, _, _ => none
  | fuel + 1, c, lastEntry, rebalance => do
    let e ← c.Entries lastEntry
    let successors ← rtlRealSuccessor c.SplayInfo lastEntry
    if e.DirectoryKey ≠ directoryKey then return c
    else
      let (c, rebalance) ← fsRtlRemoveNodeFromTunnel c lastEntry rebalance
      if successors ≠ 0 then deleteLoop directoryKey fuel c successors rebalance else return c

def fsRtlDeleteKeyFromTunnelCache (env : TunnelEnv) (c : Tunnel) (directoryKey : Nat) : Option Tunnel :=
  if env.TunnelMaxEntries = 0 then some c
  else do
    let lastEntry ← deleteSearch c directoryKey loopBound c.Cache 0
    if lastEntry = 0 then return c else deleteLoop directoryKey loopBound c lastEntry true

/-! ## Finding -/

/-- The loop of `FsRtlFindInTunnelCache`: an entry, or 0. -/
def findLoop (env : TunnelEnv) (c : Tunnel) (directoryKey : Nat) (name : List Nat) : Nat → Nat → Option Nat
  | 0, _ => none
  | fuel + 1, curEntry =>
    if curEntry = 0 then some 0
    else do
      let e ← c.Entries curEntry
      let result ← fsRtlCompareNodeAndKey env e directoryKey (some name)
      if result > 0 then findLoop env c directoryKey name fuel (c.SplayInfo.LeftChild curEntry)
      else if result = 0 then some curEntry
      else findLoop env c directoryKey name fuel (c.SplayInfo.RightChild curEntry)

/-- The room in the buffers of the caller, in characters and bytes, and whether another buffer for
the long name can be allocated. -/
structure TunnelBuffers where
  ShortName : Nat
  LongName : Nat
  longNameAllocated : Bool
  Data : Nat

/-- What the caller gets; without a buffer for the long name it gets NULL. -/
structure TunnelFound where
  ShortName : List Nat
  LongName : Option (List Nat)
  Data : List Nat
  deriving DecidableEq, Repr

def copyEntry (e : TunnelNodeEntry) (buffers : TunnelBuffers) : Option TunnelFound :=
  if buffers.Data < e.Data.length then none
  else some {
    ShortName := e.ShortName.take buffers.ShortName
    LongName :=
      if buffers.LongName < e.LongName.length then (if buffers.longNameAllocated then some e.LongName else none)
      else some e.LongName
    Data := e.Data }

/-- `FsRtlFindInTunnelCache`: the cache, and what is found. -/
def fsRtlFindInTunnelCache (env : TunnelEnv) (c : Tunnel) (directoryKey : Nat) (name : List Nat)
    (buffers : TunnelBuffers) (curTime : Int) :
    Option (Tunnel × Option TunnelFound) :=
  if env.TunnelMaxEntries = 0 then some (c, none)
  else do
    let c ← fsRtlPruneTunnelCache env c curTime
    let curEntry ← findLoop env c directoryKey name loopBound c.Cache
    if curEntry = 0 then return (c, none)
    else
      let e ← c.Entries curEntry
      let found ← copyEntry e buffers
      return (c, some found)

end FreeNT.FsRtl
