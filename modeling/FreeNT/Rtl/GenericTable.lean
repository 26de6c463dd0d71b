import Mathlib.Tactic.Ring
import FreeNT.Lib.SplayTree

/-!
# Generic tables (`lib/rtl/generictable.c`, `splaytree.c`)

An `RTL_GENERIC_TABLE` keeps its elements in a splay tree, ordered by the routine of its
owner, and in a list in the order of their insertion. An element is known by the address
of its node, which is new for every insertion.

`RtlGetElementGenericTable` goes along the list, from a position it remembers
(`OrderedPointer`, with its number `WhichOrderedElement`). Positions are counted from the
head of the list, which is 0. As the code walks backwards where its comments have it go
forwards, it can come to the head, and then takes the bytes of the table for an element;
`head` stands for what they hold.

The links of the nodes are left to `SplayTable`, whose routines do what those here do
(`Refines`).

The routines are described by the elements of the tree in order: `rtlLookup_found`,
`rtlLookup_none`, `rtlDelete_root`, `rtlInsert_cases`. `rtlScan_all`: from a position that is
`GoodCursor`, going over all numbers gives all elements.
-/

namespace FreeNT.Rtl

open List hiding after

open SplayTree Nat

structure TableEntry (α : Type*) where
  Address : Nat
  UserData : α
  deriving DecidableEq, Repr

structure GenericTable (α : Type*) where
  TableRoot : SplayTree (TableEntry α)
  InsertOrderList : List (TableEntry α)
  OrderedPointer : Nat
  WhichOrderedElement : Nat
  NumberGenericTableElements : Nat
  /-- The address of the next node. -/
  NextAddress : Nat

variable {α : Type*}

def rtlInitializeGenericTable : GenericTable α := ⟨.nil, [], 0, 0, 0, 0⟩

/-- The outcome of an allocation, and of those after it: all succeed after the last one listed. -/
def nextOutcome : List Bool → Bool × List Bool
  | [] => (true, [])
  | ok :: rest => (ok, rest)

/-- `RtlpFindGenericTableNodeOrParent`: a node, or where it would be inserted. -/
def rtlpFindGenericTableNodeOrParent (cmp : α → α → Ordering) (t : GenericTable α) (buffer : α) :
    Place (TableEntry α) :=
  search (fun e => cmp buffer e.UserData) t.TableRoot []

/-- `RtlInsertElementGenericTable`: the element, and whether it is new, or `none` if there was no memory
for it. The number of elements is asserted not to be the largest one. -/
def rtlInsertElementGenericTable (cmp : α → α → Ordering) (t : GenericTable α) (buffer : α) (pool : List Bool) :
    Option (Option (TableEntry α × Bool) × GenericTable α × List Bool) :=
  match rtlpFindGenericTableNodeOrParent cmp t buffer with
  | .found path l e r => some (some (e, false), { t with TableRoot := splay l e r path }, pool)
  | .absent path =>
    if t.NumberGenericTableElements = 0xFFFFFFFE then none
    else
      let (allocated, pool) := nextOutcome pool
      if !allocated then some (none, t, pool)
      else
        let e := ⟨t.NextAddress, buffer⟩
        some (some (e, true),
          { t with
            TableRoot := splay .nil e .nil path
            InsertOrderList := t.InsertOrderList ++ [e]
            NumberGenericTableElements := t.NumberGenericTableElements + 1
            NextAddress := t.NextAddress + 1 }, pool)

def rtlLookupElementGenericTable (cmp : α → α → Ordering) (t : GenericTable α) (buffer : α) :
    Option (TableEntry α) × GenericTable α :=
  match rtlpFindGenericTableNodeOrParent cmp t buffer with
  | .found path l e r => (some e, { t with TableRoot := splay l e r path })
  | .absent _ => (none, t)

def rtlDeleteElementGenericTable [DecidableEq α] (cmp : α → α → Ordering) (t : GenericTable α) (buffer : α) :
    Bool × GenericTable α :=
  match rtlpFindGenericTableNodeOrParent cmp t buffer with
  | .found path l e r =>
    (true,
      { t with
        TableRoot := remove l r path
        InsertOrderList := t.InsertOrderList.erase e
        NumberGenericTableElements := t.NumberGenericTableElements - 1
        WhichOrderedElement := 0
        OrderedPointer := 0 })
  | .absent _ => (false, t)

/-- The first node of the tree, or the node after its root, splayed. -/
def firstNode : SplayTree (TableEntry α) → Option (TableEntry α × SplayTree (TableEntry α))
  | .nil => none
  | .node l e r => let (path, e, r) := leftmost l e r []; some (e, splay .nil e r path)

def nextNode : SplayTree (TableEntry α) → Option (TableEntry α × SplayTree (TableEntry α))
  | .node l e (.node rl e' rr) => let (path, e, r) := leftmost rl e' rr [.right l e]; some (e, splay .nil e r path)
  | _ => none

def rtlEnumerateGenericTable (t : GenericTable α) (restart : Bool) : Option (TableEntry α) × GenericTable α :=
  match if restart then firstNode t.TableRoot else nextNode t.TableRoot with
  | some (e, root) => (some e, { t with TableRoot := root })
  | none => (none, t)

/-- `k` steps along `Flink`, or along `Blink`, from position `p` of a list of `n` elements. -/
def flink (n p k : Nat) : Nat := (p + k) % (n + 1)

def blink (n p k : Nat) : Nat := (p + k * n) % (n + 1)

/-- The element at position `p`; at the head there is none. -/
def elementAt (head : α) (t : GenericTable α) (p : Nat) : α :=
  match p with
  | 0 => head
  | p + 1 => (t.InsertOrderList[p]?).elim head (·.UserData)

def rtlGetElementGenericTable (head : α) (t : GenericTable α) (i : Nat) : Option α × GenericTable α :=
  let n := t.InsertOrderList.length
  let nextI := (i + 1) % 2 ^ 32
  let which := t.WhichOrderedElement
  let count := t.NumberGenericTableElements
  let save (p which : Nat) : Option α × GenericTable α :=
    (some (elementAt head t p), { t with OrderedPointer := p, WhichOrderedElement := which })
  if i = 0xFFFFFFFF ∨ count < nextI then (none, t)
  else if nextI = which then (some (elementAt head t t.OrderedPointer), t)
  else if nextI < which then
    if which / 2 < nextI then save (blink n t.OrderedPointer (which - nextI)) nextI
    -- this walk counts `NextI` down to 0
    else save (flink n 0 nextI) 0
  else if nextI - which ≤ count - nextI + 1 then save (blink n t.OrderedPointer (nextI - which)) nextI
  else save (blink n 0 (count - nextI + 1)) nextI

/-- A loop over the elements by number, up to one with `p`. -/
def rtlScan (head : α) (p : α → Bool) : Nat → Nat → GenericTable α → Bool × GenericTable α
  | 0, _, t => (false, t)
  | k + 1, i, t =>
    match rtlGetElementGenericTable head t i with
    | (some x, t) => if p x then (true, t) else rtlScan head p k (i + 1) t
    | (none, t) => rtlScan head p k (i + 1) t

/-! ## Elements of the tree -/

namespace GenericTable

/-- The elements, in the order of the tree. -/
def entries (t : GenericTable α) : List (TableEntry α) := t.TableRoot.toList

/-- The list and the number of elements belong to the tree. -/
structure Ok (t : GenericTable α) : Prop where
  order : t.InsertOrderList.Perm t.entries
  count : t.NumberGenericTableElements = t.entries.length
  bound : t.NumberGenericTableElements ≤ 0xFFFFFFFE

lemma Ok.length {t : GenericTable α} (h : t.Ok) : t.InsertOrderList.length = t.NumberGenericTableElements := by
  rw [h.order.length_eq, h.count]

lemma ok_init : (rtlInitializeGenericTable : GenericTable α).Ok := ⟨.nil, rfl, zero_le _⟩

lemma Ok.withRoot {t : GenericTable α} (h : t.Ok) {root : SplayTree (TableEntry α)}
    (heq : root.toList = t.entries) :
    ({ t with TableRoot := root } : GenericTable α).Ok :=
  ⟨h.order.trans (.of_eq heq.symm), h.count.trans (congrArg List.length heq.symm), h.bound⟩

/-- The table without the element `e`, which was between `ls` and `rs`. -/
structure Deleted (t t' : GenericTable α) (ls : List (TableEntry α)) (e : TableEntry α)
    (rs : List (TableEntry α)) :
    Prop where
  before : t.entries = ls ++ e :: rs
  after : t'.entries = ls ++ rs
  ok : t.Ok → t'.Ok
  which : t'.WhichOrderedElement = 0
  pointer : t'.OrderedPointer = 0

/-- The table with a new element `e` between `ls` and `rs`. -/
structure Inserted (t t' : GenericTable α) (ls : List (TableEntry α)) (e : TableEntry α)
    (rs : List (TableEntry α)) :
    Prop where
  before : t.entries = ls ++ rs
  after : t'.entries = ls ++ e :: rs
  root : ∃ l r, t'.TableRoot = .node l e r ∧ l.toList = ls ∧ r.toList = rs
  ok : t.Ok → t'.Ok

end GenericTable

open GenericTable

variable {c : α → α → Ordering} {t t' : GenericTable α} {x : α}

variable {e : TableEntry α}

lemma rtlLookup_found (h : rtlLookupElementGenericTable c t x = (some e, t')) :
    ∃ l r, t' = { t with TableRoot := .node l e r } ∧ t.entries = l.toList ++ e :: r.toList ∧
      c x e.UserData = .eq := by
  rw [rtlLookupElementGenericTable] at h
  cases hp : rtlpFindGenericTableNodeOrParent c t x with
  | absent path => simp [hp] at h
  | found path l e' r =>
    simp only [hp, Prod.mk.injEq, Option.some.injEq] at h
    obtain ⟨rfl, rfl⟩ := h
    obtain ⟨hpl, heq⟩ := search_found hp
    obtain ⟨l', r', hrt, hl, hr⟩ := splay_root l e' r path
    refine ⟨l', r', by rw [hrt], ?_, heq⟩
    rw [entries, ← show plug path _ = t.TableRoot from hpl, toList_plug, hl, hr]
    simp

variable {l r : SplayTree (TableEntry α)}

lemma rtlLookup_none (hc : Cut (fun e => c x e.UserData) t.entries)
    (h : rtlLookupElementGenericTable c t x = (none, t')) : t' = t ∧ ∀ e ∈ t.entries, c x e.UserData ≠ .eq := by
  rw [rtlLookupElementGenericTable] at h
  cases hp : rtlpFindGenericTableNodeOrParent c t x with
  | found path l e' r => simp [hp] at h
  | absent path =>
    simp only [hp, Prod.mk.injEq, true_and] at h
    obtain ⟨xs, ys, hl, -, -, hgt, hlt⟩ := search_absent hc hp
    refine ⟨h.symm, fun e he => ?_⟩
    rw [entries, hl, mem_append] at he
    rcases he with he | he
    · simp [hgt e he]
    · simp [hlt e he]

/-- A lookup finds the topmost element that compares equal. -/
lemma rtlLookup_topmost (hc : Cut (fun e => c x e.UserData) t.entries) {e : TableEntry α} :
    (rtlLookupElementGenericTable c t x).1 = some e ↔ Topmost (fun e => c x e.UserData = .eq) t.TableRoot e := by
  rw [@search_topmost _ (fun e => c x e.UserData) t.TableRoot [] hc, rtlLookupElementGenericTable,
    rtlpFindGenericTableNodeOrParent]
  cases search (fun e => c x e.UserData) t.TableRoot [] with
  | absent path => simp
  | found path l e' r => simp

/-- Deleting the root, where a lookup has brought an element. -/
lemma rtlDelete_root [DecidableEq α] (hr : t.TableRoot = .node l e r) (heq : c x e.UserData = .eq) :
    ∃ t', rtlDeleteElementGenericTable c t x = (true, t') ∧ t'.TableRoot = remove l r [] ∧
      Deleted t t' l.toList e r.toList := by
  have hpl : rtlpFindGenericTableNodeOrParent c t x = .found [] l e r := by
    simp [rtlpFindGenericTableNodeOrParent, hr, search, heq]
  have hb : t.entries = l.toList ++ e :: r.toList := by simp [entries, hr]
  rw [rtlDeleteElementGenericTable, hpl]
  have ha : (remove l r []).toList = l.toList ++ r.toList := by simp [toList_remove, before, after]
  refine ⟨_, rfl, rfl, hb, ha, fun hok => ⟨?_, ?_, ?_⟩, rfl, rfl⟩
  · have hp := hok.order.erase e
    rw [hb] at hp
    refine hp.trans (((perm_middle.erase e).trans ?_).trans (List.Perm.of_eq ha.symm))
    rw [erase_cons_head]
  · have hc := hok.count
    rw [hb] at hc
    simp only [entries, ha, hc, length_append, length_cons]
    omega
  · exact le_trans (sub_le _ _) hok.bound

/-- An insertion finds an element that compares equal, or inserts a new one, or fails. -/
lemma rtlInsert_cases (hct : Cut (fun e => c x e.UserData) t.entries) {pl pl' : List Bool}
    {re : Option (TableEntry α × Bool)} (h : rtlInsertElementGenericTable c t x pl = some (re, t', pl')) :
    (∃ l e r, re = some (e, false) ∧ t' = { t with TableRoot := .node l e r } ∧
        t.entries = l.toList ++ e :: r.toList ∧ c x e.UserData = .eq) ∨
      ((∀ e ∈ t.entries, c x e.UserData ≠ .eq) ∧
        (re = none ∧ t' = t ∨ ∃ ls rs, re = some (⟨t.NextAddress, x⟩, true) ∧
          Inserted t t' ls ⟨t.NextAddress, x⟩ rs ∧ (∀ e ∈ ls, c x e.UserData = .gt) ∧
          ∀ e ∈ rs, c x e.UserData = .lt)) := by
  rw [rtlInsertElementGenericTable] at h
  cases hp : rtlpFindGenericTableNodeOrParent c t x with
  | found path l e r =>
    simp only [hp, Option.some.injEq, Prod.mk.injEq] at h
    obtain ⟨rfl, rfl, rfl⟩ := h
    obtain ⟨hpg, heq⟩ := search_found hp
    obtain ⟨l', r', hrt, hl, hr⟩ := splay_root l e r path
    refine .inl ⟨l', e, r', rfl, by rw [hrt], ?_, heq⟩
    rw [entries, ← show plug path _ = t.TableRoot from hpg, toList_plug, hl, hr]
    simp
  | absent path =>
    simp only [hp] at h
    obtain ⟨xs, ys, hls, hbf, ha, hgt, hlt⟩ := search_absent hct hp
    refine .inr ⟨fun e he => ?_, ?_⟩
    · rw [entries, hls, mem_append] at he
      rcases he with he | he
      · simp [hgt e he]
      · simp [hlt e he]
    split at h
    · cases h
    cases hpl : nextOutcome pl with
    | mk a rt =>
      cases a with
      | false =>
        simp only [hpl, Bool.not_false, if_true, Option.some.injEq, Prod.mk.injEq] at h
        exact .inl ⟨h.1.symm, h.2.1.symm⟩
      | true =>
        simp only [hpl, Bool.not_true, Bool.false_eq_true, if_false, Option.some.injEq, Prod.mk.injEq] at h
        obtain ⟨rfl, rfl, rfl⟩ := h
        obtain ⟨l, r, hrt, hl, hr⟩ := splay_root .nil (⟨t.NextAddress, x⟩ : TableEntry α) .nil path
        have hl : l.toList = xs := by simp [hl, hbf, before]
        have hr : r.toList = ys := by simp [hr, ha, after]
        have hn : (splay .nil (⟨t.NextAddress, x⟩ : TableEntry α) .nil path).toList =
          xs ++ ⟨t.NextAddress, x⟩ :: ys := by
          rw [hrt, toList_node, hl, hr]
        refine .inr ⟨xs, ys, rfl, ⟨hls, hn, ⟨l, r, hrt, hl, hr⟩, fun hok => ⟨?_, ?_, ?_⟩⟩, hgt, hlt⟩
        · refine .trans ?_ (.of_eq hn.symm)
          refine ((hok.order.append_right _).trans (perm_append_singleton _ _)).trans ?_
          rw [entries, hls]
          exact perm_middle.symm
        · have hc := hok.count
          simp only [entries] at hc ⊢
          rw [hn, hc, hls, length_append, length_append, length_cons, add_assoc]
        have := hok.bound
        change t.NumberGenericTableElements + 1 ≤ _
        omega

/-! ## Enumeration -/

lemma rtlEnumerate_restart (t : GenericTable α) : t.entries = [] ∧ rtlEnumerateGenericTable t true = (none, t) ∨
    ∃ l e r, rtlEnumerateGenericTable t true = (some e, { t with TableRoot := .node l e r }) ∧ l.toList = [] ∧
      t.entries = e :: r.toList := by
  rw [rtlEnumerateGenericTable, if_pos rfl, entries]
  cases t.TableRoot with
  | nil => exact .inl ⟨rfl, rfl⟩
  | node l x r =>
    obtain ⟨l', r', heq, hl, hr⟩ := splay_leftmost l x r []
    refine .inr ⟨l', (leftmost l x r []).2.1, r', ?_, hl, ?_⟩
    · simp only [firstNode, heq]
    · simpa [after] using hr.symm

lemma rtlEnumerate_next {x : TableEntry α}
    (hrt : t.TableRoot = .node l x r) : r.toList = [] ∧ rtlEnumerateGenericTable t false = (none, t) ∨
    ∃ l' e r', rtlEnumerateGenericTable t false = (some e, { t with TableRoot := .node l' e r' }) ∧
      l'.toList = l.toList ++ [x] ∧ r.toList = e :: r'.toList := by
  rw [rtlEnumerateGenericTable, if_neg Bool.false_ne_true, hrt]
  cases r with
  | nil => exact .inl ⟨rfl, rfl⟩
  | node rl y rr =>
    obtain ⟨l', r', heq, hl, hr⟩ := splay_leftmost rl y rr [.right l x]
    refine .inr ⟨l', (leftmost rl y rr [.right l x]).2.1, r', ?_, ?_, ?_⟩
    · simp only [nextNode, heq]
    · simpa [before] using hl
    · simpa [after] using hr.symm

lemma rtlEnumerate_entries (t : GenericTable α) (rs : Bool) : ∃ root,
    (rtlEnumerateGenericTable t rs).2 = { t with TableRoot := root } ∧ root.toList = t.entries := by
  cases rs with
  | true =>
    rcases rtlEnumerate_restart t with ⟨-, h⟩ | ⟨l, e, r, h, hl, he⟩
    · exact ⟨t.TableRoot, by rw [h], rfl⟩
    · exact ⟨.node l e r, by rw [h], by simp [hl, he]⟩
  | false =>
    cases hrt : t.TableRoot with
    | nil =>
      have h : rtlEnumerateGenericTable t false = (none, t) := by simp [rtlEnumerateGenericTable, hrt, nextNode]
      exact ⟨t.TableRoot, by rw [h], rfl⟩
    | node l x r =>
      rcases rtlEnumerate_next hrt with ⟨-, h⟩ | ⟨l', e, r', h, hl, hr⟩
      · exact ⟨t.TableRoot, by rw [h], rfl⟩
      · exact ⟨.node l' e r', by rw [h], by simp [entries, hrt, hl, hr]⟩

/-! ## Elements by number -/

lemma rtlGet_table (head : α) (t : GenericTable α) (i : Nat) : ∃ p w,
    (rtlGetElementGenericTable head t i).2 = { t with OrderedPointer := p, WhichOrderedElement := w } := by
  rw [rtlGetElementGenericTable]
  split
  · exact ⟨_, _, rfl⟩
  split
  · exact ⟨_, _, rfl⟩
  split
  · split <;> exact ⟨_, _, rfl⟩
  · split <;> exact ⟨_, _, rfl⟩

lemma rtlScan_table (head : α) (p : α → Bool) (k i : Nat) (t : GenericTable α) : ∃ q w,
    (rtlScan head p k i t).2 = { t with OrderedPointer := q, WhichOrderedElement := w } := by
  induction k generalizing i t with
  | zero => exact ⟨_, _, rfl⟩
  | succ k ih =>
    obtain ⟨q, w, hg⟩ := rtlGet_table head t i
    rw [rtlScan]
    generalize rtlGetElementGenericTable head t i = res at hg
    obtain ⟨_ | x, t1⟩ := res <;> cases hg
    · exact ih (i + 1) _
    dsimp only
    split
    · exact ⟨q, w, rfl⟩
    · exact ih (i + 1) _

/-- The positions from which the numbers lead to all elements: none is remembered, or the
last element as number 1, or a number of at least 2. -/
def GoodCursor (t : GenericTable α) : Prop :=
  t.WhichOrderedElement = 0 ∧ t.OrderedPointer = 0 ∨ 2 ≤ t.WhichOrderedElement ∨
    t.WhichOrderedElement = 1 ∧ t.OrderedPointer = t.InsertOrderList.length

instance : Decidable (GoodCursor t) := inferInstanceAs (Decidable (_ ∨ _))

/-- No position is remembered. -/
def AtStart (t : GenericTable α) : Prop := t.WhichOrderedElement = 0 ∧ t.OrderedPointer = 0

lemma AtStart.good (h : AtStart t) : GoodCursor t := .inl h

lemma AtStart.inserted (h : AtStart t) {pl pl' : List Bool} {rs : Option (TableEntry α × Bool)}
    (hr : rtlInsertElementGenericTable c t x pl = some (rs, t', pl')) : AtStart t' := by
  rw [rtlInsertElementGenericTable] at hr
  split at hr
  · cases hr
    exact h
  split at hr
  · cases hr
  · dsimp only at hr
    split at hr <;> cases hr <;> exact h

lemma atStart_deleted [DecidableEq α] (h : rtlDeleteElementGenericTable c t x = (true, t')) : AtStart t' := by
  rw [rtlDeleteElementGenericTable] at h
  split at h
  · cases h
    exact ⟨rfl, rfl⟩
  · simp at h

section

variable {head : α} {p : α → Bool} (hok : t.Ok)

include hok

variable {i : Nat}

lemma rtlGet_next (hi : i < t.NumberGenericTableElements) (hw : t.WhichOrderedElement = i) :
    rtlGetElementGenericTable head t i =
      (some (elementAt head t (blink t.InsertOrderList.length t.OrderedPointer 1)),
        { t with
          OrderedPointer := blink t.InsertOrderList.length t.OrderedPointer 1
          WhichOrderedElement := i + 1 }) := by
  have hb := hok.bound
  rw [rtlGetElementGenericTable]
  rw [hw, mod_eq_of_lt (show i + 1 < 2 ^ 32 by omega), if_neg (by omega), if_neg (by omega), if_neg (by omega),
    if_pos (by omega), Nat.add_sub_cancel_left]

/-- From then on the numbers go down to position `c + 1`. -/
lemma rtlScan_down {c k : Nat} (hk : k + i = t.NumberGenericTableElements) (hw : t.WhichOrderedElement = i)
    (hp : t.OrderedPointer = c + k + 1) (hle : c + k + 1 ≤ t.NumberGenericTableElements) :
    (rtlScan head p k i t).1 ↔ ∃ q, c < q ∧ q ≤ c + k ∧ p (elementAt head t q) := by
  induction k generalizing i t with
  | zero => exact ⟨nofun, fun ⟨q, h1, h2, _⟩ => by omega⟩
  | succ k ih =>
    have hb : blink t.InsertOrderList.length t.OrderedPointer 1 = c + k + 1 := by
      rw [hok.length, hp, blink, one_mul, show c + (k + 1) + 1 + t.NumberGenericTableElements =
        c + k + 1 + (t.NumberGenericTableElements + 1) by omega, add_mod_right, mod_eq_of_lt (by omega)]
    rw [rtlScan, rtlGet_next hok (by omega) hw, hb]
    dsimp only
    split
    · rename_i hp
      exact ⟨fun _ => ⟨c + k + 1, by omega, by omega, hp⟩, fun _ => rfl⟩
    rename_i hnp
    have hok' : ({ t with OrderedPointer := c + k + 1, WhichOrderedElement := i + 1 } : GenericTable α).Ok :=
      ⟨hok.order, hok.count, hok.bound⟩
    rw [ih hok' (show k + (i + 1) = t.NumberGenericTableElements by omega) rfl rfl
      (show c + k + 1 ≤ t.NumberGenericTableElements by omega)]
    refine exists_congr fun q => and_congr_right fun h1 =>
      ⟨fun ⟨h2, h3⟩ => ⟨by omega, h3⟩, fun ⟨h2, h3⟩ => ⟨?_, h3⟩⟩
    by_contra hq
    obtain rfl : q = c + k + 1 := by omega
    exact hnp h3

lemma exists_elementAt (head : α) (p : α → Bool) :
    (∃ q, 0 < q ∧ q ≤ t.NumberGenericTableElements ∧ p (elementAt head t q)) ↔
    ∃ e ∈ t.entries, p e.UserData := by
  have hl := hok.length
  constructor
  · rintro ⟨q | q, h1, h2, hp⟩
    · cases h1
    have hq : q < t.InsertOrderList.length := by omega
    refine ⟨t.InsertOrderList[q], hok.order.subset (getElem_mem hq), ?_⟩
    rwa [elementAt, getElem?_eq_getElem hq] at hp
  rintro ⟨e, he, hp⟩
  obtain ⟨q, hq, rfl⟩ := getElem_of_mem (hok.order.symm.subset he)
  refine ⟨q + 1, by omega, by omega, ?_⟩
  rwa [elementAt, getElem?_eq_getElem hq]

omit hok in
lemma setCursor_self {q w : Nat} (hp : t.OrderedPointer = q) (hw : t.WhichOrderedElement = w) :
    ({ t with OrderedPointer := q, WhichOrderedElement := w } : GenericTable α) = t := by
  subst hp hw
  rfl

omit hok in
lemma blink_head (n : Nat) : blink n 0 1 = n := by
  rw [blink, zero_add, one_mul, mod_eq_of_lt (lt_succ_self n)]

/-- From a number of at least 2 on, number 0 is the first element, and number 1 the last one. -/
lemma rtlGet_restart (hw : 2 ≤ t.WhichOrderedElement) (hn : 0 < t.NumberGenericTableElements) :
    rtlGetElementGenericTable head t 0 =
      (some (elementAt head t 1), { t with OrderedPointer := 1, WhichOrderedElement := 0 }) := by
  have hl := hok.length
  rw [rtlGetElementGenericTable]
  rw [show (0 + 1) % 2 ^ 32 = 1 from rfl, if_neg (by omega), if_neg (by omega), if_pos (by omega),
    if_neg (by omega),
    flink, zero_add, mod_eq_of_lt (by omega)]

lemma rtlGet_second (hw : t.WhichOrderedElement = 0) (hp : t.OrderedPointer = 1)
    (hn : 2 ≤ t.NumberGenericTableElements) :
    rtlGetElementGenericTable head t 1 = (some (elementAt head t t.NumberGenericTableElements),
      { t with OrderedPointer := t.NumberGenericTableElements, WhichOrderedElement := 2 }) := by
  have hl := hok.length
  rw [rtlGetElementGenericTable]
  rw [hw, hp, hl, show (1 + 1) % 2 ^ 32 = 2 from rfl, if_neg (by omega), if_neg (by omega), if_neg (by omega)]
  split
  · have hb : blink t.NumberGenericTableElements 1 (2 - 0) = t.NumberGenericTableElements := by
      rw [blink, show 1 + (2 - 0) * t.NumberGenericTableElements =
        t.NumberGenericTableElements + (t.NumberGenericTableElements + 1) by omega, add_mod_right,
        mod_eq_of_lt (lt_succ_self _)]
    rw [hb]
  · rw [show t.NumberGenericTableElements - 2 + 1 = 1 by omega, blink_head]

omit hok in
lemma rtlScan_cons {k : Nat} {t1 : GenericTable α} (hg : rtlGetElementGenericTable head t i = (some x, t1)) :
    (rtlScan head p (k + 1) i t).1 ↔ p x ∨ (rtlScan head p k (i + 1) t1).1 := by
  rw [rtlScan, hg]
  dsimp only
  split
  · rename_i hp
    simp [hp]
  · rename_i hp
    simp [hp]

/-- From such a position a loop over all numbers finds an element with `p` if there is one. -/
lemma rtlScan_all (hg : GoodCursor t) :
    (rtlScan head p t.NumberGenericTableElements 0 t).1 ↔ ∃ e ∈ t.entries, p e.UserData := by
  have hln := hok.length
  have hm : ∀ q w, ({ t with OrderedPointer := q, WhichOrderedElement := w } : GenericTable α).Ok := fun q w =>
    ⟨hok.order, hok.count, hok.bound⟩
  rw [← exists_elementAt hok head p]
  -- numbers that go down from the last position
  have hd : ∀ c k, c + k + 1 = t.NumberGenericTableElements → ∀ w, k + w = t.NumberGenericTableElements →
      ((rtlScan head p k w { t with OrderedPointer := t.NumberGenericTableElements, WhichOrderedElement := w }).1 ↔
        ∃ q, c < q ∧ q ≤ c + k ∧ p (elementAt head t q)) := fun c k hck w hw =>
    rtlScan_down (hm _ w) hw rfl hck.symm (le_of_eq hck)
  obtain hn | ⟨m, hn⟩ : t.NumberGenericTableElements = 0 ∨ ∃ m, t.NumberGenericTableElements = m + 1 := by
    cases t.NumberGenericTableElements with
    | zero => exact .inl rfl
    | succ m => exact .inr ⟨m, rfl⟩
  · rw [hn]
    exact ⟨nofun, fun ⟨q, h1, h2, _⟩ => by omega⟩
  -- the last element is number 0
  have hl : rtlGetElementGenericTable head t 0 = (some (elementAt head t t.NumberGenericTableElements),
        { t with OrderedPointer := t.NumberGenericTableElements, WhichOrderedElement := 1 }) →
      ((rtlScan head p t.NumberGenericTableElements 0 t).1 ↔
        ∃ q, 0 < q ∧ q ≤ t.NumberGenericTableElements ∧ p (elementAt head t q)) := by
    intro hgt
    have hr := hd 0 m (by omega) 1 (by omega)
    rw [show rtlScan head p t.NumberGenericTableElements 0 t = rtlScan head p (m + 1)
      0 t by rw [hn], rtlScan_cons hgt, hr]
    grind
  rcases hg with ⟨hw, hp⟩ | hw | ⟨hw, hp⟩
  · refine hl ?_
    rw [rtlGet_next hok (by omega) hw, hp, hln, blink_head]
  · -- the first element is number 0, and the last one number 1
    have hf : rtlGetElementGenericTable head t 0 = _ := rtlGet_restart hok hw (by omega)
    rw [show rtlScan head p t.NumberGenericTableElements 0 t = rtlScan head p (m + 1)
      0 t by rw [hn], rtlScan_cons hf]
    obtain rfl | ⟨k, rfl⟩ : m = 0 ∨ ∃ k, m = k + 1 := by
      cases m with
      | zero => exact .inl rfl
      | succ k => exact .inr ⟨k, rfl⟩
    · simp only [rtlScan, Bool.false_eq_true, or_false]
      refine ⟨fun h => ⟨1, by omega, by omega, h⟩, fun ⟨q, h1, h2, h⟩ => ?_⟩
      rwa [show q = 1 by omega] at h
    have hs : rtlGetElementGenericTable head _ 1 = _ :=
      rtlGet_second (hm 1 0) rfl rfl (show 2 ≤ t.NumberGenericTableElements by omega)
    have hr := hd 1 k (by omega) 2 (by omega)
    rw [rtlScan_cons hs, hr]
    change p (elementAt head t 1) ∨ p (elementAt head t t.NumberGenericTableElements) ∨ _ ↔ _
    grind
  · refine hl ?_
    rw [rtlGetElementGenericTable]
    rw [if_neg (by omega), if_pos (by omega), setCursor_self (hp.trans hln) hw, hp, hln]

end

end FreeNT.Rtl
