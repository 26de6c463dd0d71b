import FreeNT.Lib.SplayTree
import FreeNT.Rtl.Unicode

/-!
# Prefix tables (`sdk/lib/rtl/unicodeprefix.c`)

The prefixes of a table are kept in splay trees, one for each number of names in a prefix,
and the trees in a chain (`NextPrefixTree`), those with more names first. A node of a tree
also holds the other prefixes that differ from its own only in case, in the order of the
ring `CaseMatch`. Nodes are ordered as `CompareUnicodeStrings` orders their prefixes without
regard to case.

An entry is known by its address. Which of the types `PFX_NTC_ROOT`, `PFX_NTC_CHILD` and
`PFX_NTC_CASE_MATCH` it has is seen from its place: at the root of a tree, at another node,
or in a ring. A string is the list of its characters, at most 32767, so that numbers of names
are positive as a `CSHORT`. A read of the characters of an empty string gives `none`, and so
does a walk that never ends.
-/

namespace FreeNT.Rtl

open SplayTree

def backslash : WChar := 0x5C

/-- `ComputeUnicodeNameLength`. For an empty string the loop runs to `(ULONG)-1`. -/
def computeUnicodeNameLength (name : List WChar) : Option Nat :=
  if name = [] then none else some (1 + name.dropLast.count backslash)

/-- What `CompareUnicodeStrings` returns; `isPrefix` is -1. -/
inductive PrefixCompare where
  | less
  | greater
  | equal
  | isPrefix
  deriving DecidableEq, Repr

variable (table : WChar → WChar)

/-- The characters at which the loops of `CompareUnicodeStrings` stop before the end of the
shorter string: the first `caseCheckChar` ones are compared as they are, and the others without
regard to case. The second loop also compares the characters behind the end when the first one
comes to it, to no effect. -/
def compareFrom : Nat → List WChar → List WChar → Option (WChar × WChar)
  | _, [], _ => none
  | _, _, [] => none
  | 0, c :: p, d :: s =>
    if c ≠ d ∧ rtlpUpcaseUnicodeChar table c ≠ rtlpUpcaseUnicodeChar table d then
      some (rtlpUpcaseUnicodeChar table c, rtlpUpcaseUnicodeChar table d)
    else compareFrom 0 p s
  | k + 1, c :: p, d :: s => if c ≠ d then some (c, d) else compareFrom k p s

def compareUnicodeStrings (pre string : List WChar) (caseCheckChar : Nat) : PrefixCompare :=
  if pre = [backslash] ∧ 1 < string.length ∧ string.head? = some backslash then .isPrefix
  else
    match compareFrom table caseCheckChar pre string with
    | some (foundPrefix, foundString) =>
      if foundPrefix = backslash then .less
      else if foundString = backslash then .greater
      else if foundPrefix < foundString then .less
      else .greater
    | none =>
      if pre.length < string.length then if string[pre.length]? = some backslash then .isPrefix else .less
      else if string.length < pre.length then .greater
      else .equal

/-- The prefix is the string, or its first names. -/
def PrefixCompare.matching : PrefixCompare → Bool
  | .equal | .isPrefix => true
  | .less | .greater => false

/-- A `UNICODE_PREFIX_TABLE_ENTRY`, by its address. -/
structure PrefixEntry where
  Address : Nat
  Prefix : List WChar
  deriving DecidableEq, Repr

/-- A node of a tree, with the others of its ring. -/
structure PrefixNode where
  Entry : PrefixEntry
  CaseMatch : List PrefixEntry
  deriving DecidableEq, Repr

def PrefixNode.ring (n : PrefixNode) : List PrefixEntry := n.Entry :: n.CaseMatch

structure PrefixTree where
  NameLength : Nat
  Links : SplayTree PrefixNode
  deriving DecidableEq, Repr

/-- The trees of a `UNICODE_PREFIX_TABLE`, along `NextPrefixTree`. -/
abbrev PrefixTable := List PrefixTree

def rtlInitializeUnicodePrefix : PrefixTable := []

/-! ## Finding -/

/-- The turn that the search of `RtlFindUnicodePrefix` takes at a node: to the left if its prefix is greater. -/
def findTurn (fullName : List WChar) (n : PrefixNode) : Ordering :=
  match compareUnicodeStrings table n.Entry.Prefix fullName 0 with
  | .greater => .lt
  | .less => .gt
  | _ => .eq

/-- The loop over the trees. A node that is found without regard to case becomes the root;
otherwise its ring is searched for the case, and if that fails the trees of fewer names. -/
def findInTrees (fullName : List WChar) (caseInsensitiveIndex : Nat) :
    PrefixTable → Option PrefixEntry × PrefixTable
  | [] => (none, [])
  | tree :: trees =>
    match search (findTurn table fullName) tree.Links [] with
    | .absent _ => let (found, trees) := findInTrees fullName caseInsensitiveIndex trees; (found, tree :: trees)
    | .found path l n r =>
      if caseInsensitiveIndex = 0 then (some n.Entry, { tree with Links := splay l n r path } :: trees)
      else
        match n.ring.find? fun e =>
          (compareUnicodeStrings table e.Prefix fullName caseInsensitiveIndex).matching with
        | some e => (some e, tree :: trees)
        | none => let (found, trees) := findInTrees fullName caseInsensitiveIndex trees; (found, tree :: trees)

/-- `RtlFindUnicodePrefix`: trees of more names than the full name are passed over. -/
def rtlFindUnicodePrefix (t : PrefixTable) (fullName : List WChar) (caseInsensitiveIndex : Nat) :
    Option (Option PrefixEntry × PrefixTable) := do
  let nameCount ← computeUnicodeNameLength fullName
  let passed := t.takeWhile (nameCount < ·.NameLength)
  let (found, trees) := findInTrees table fullName caseInsensitiveIndex (t.dropWhile (nameCount < ·.NameLength))
  return (found, passed ++ trees)

/-! ## Inserting -/

/-- The turn that the search of `RtlInsertUnicodePrefix` takes at a node: a prefix of the new one counts as less. -/
def insertTurn (new : List WChar) (n : PrefixNode) : Ordering :=
  match compareUnicodeStrings table n.Entry.Prefix new 0 with
  | .greater => .lt
  | .equal => .eq
  | _ => .gt

/-- The tree with the new entry, or `none` if its prefix is there: a new node is put in its place
and its parent becomes the root; in a ring the entry comes after the node, and the node becomes
the root. -/
def insertInTree (links : SplayTree PrefixNode) (entry : PrefixEntry) : Option (SplayTree PrefixNode) :=
  match search (insertTurn table entry.Prefix) links [] with
  | .found path l n r =>
    if n.ring.any fun e => compareUnicodeStrings table e.Prefix entry.Prefix (2 ^ 32 - 1) == .equal then none
    else some (splay l { n with CaseMatch := entry :: n.CaseMatch } r path)
  | .absent path => some (replace (.node .nil ⟨entry, []⟩ .nil) path)

def insertInTrees (nameCount : Nat) (entry : PrefixEntry) : PrefixTable → Bool × PrefixTable
  | [] => (true, [⟨nameCount, .node .nil ⟨entry, []⟩ .nil⟩])
  | tree :: trees =>
    if nameCount < tree.NameLength then
      let (inserted, trees) := insertInTrees nameCount entry trees
      (inserted, tree :: trees)
    else if tree.NameLength ≠ nameCount then (true, ⟨nameCount, .node .nil ⟨entry, []⟩ .nil⟩ :: tree :: trees)
    else
      match insertInTree table tree.Links entry with
      | none => (false, tree :: trees)
      | some links => (true, { tree with Links := links } :: trees)

def rtlInsertUnicodePrefix (t : PrefixTable) (entry : PrefixEntry) : Option (Bool × PrefixTable) := do
  let nameCount ← computeUnicodeNameLength entry.Prefix
  return insertInTrees table nameCount entry t

/-! ## Removing -/

def rootAddress : SplayTree PrefixNode → Option Nat
  | .nil => none
  | .node _ n _ => some n.Entry.Address

/-- The walk along `NextPrefixTree`, round and round, to the entry before the one at `address`: it
ends if that is the root of a tree. -/
def referenced (t : PrefixTable) (address : Nat) : Bool := t.any fun tree => rootAddress tree.Links == some address

/-- The tree, in a table whose trees are `all`, without an entry that is in the ring of the node
`n`. If it is the node itself, the entry before it in the ring takes its place, and for a root the
walk looks for that entry. -/
def removeFromTree (all : PrefixTable) (links : SplayTree PrefixNode) (address : Nat)
    (path : List (Frame PrefixNode))
    (l : SplayTree PrefixNode) (n : PrefixNode) (r : SplayTree PrefixNode) : Option (SplayTree PrefixNode) :=
  if n.Entry.Address ≠ address then
    some (plug path (.node l { n with CaseMatch := n.CaseMatch.eraseP (·.Address == address) } r))
  else
    match n.CaseMatch.getLast? with
    | some last =>
      if path.isEmpty && !referenced all last.Address then none
      else some (plug path (.node l ⟨last, n.CaseMatch.dropLast⟩ r))
    | none =>
      if rootAddress (remove l r path) ≠ rootAddress links ∧ !(rootAddress links).any (referenced all) then none
      else some (remove l r path)

def removeFromTrees (all : PrefixTable) (address : Nat) : PrefixTable → Option PrefixTable
  | [] => none
  | tree :: trees =>
    match locate (fun n => n.ring.any (·.Address == address)) tree.Links [] with
    | none => (removeFromTrees all address trees).map (tree :: ·)
    | some (path, l, n, r) => do
      match ← removeFromTree all tree.Links address path l n r with
      | .nil => return trees
      | links => return { tree with Links := links } :: trees

/-- `RtlRemoveUnicodePrefix`, for an entry of the table. -/
def rtlRemoveUnicodePrefix (t : PrefixTable) (address : Nat) : Option PrefixTable := removeFromTrees t address t

end FreeNT.Rtl
