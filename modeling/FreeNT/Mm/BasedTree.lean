import Mathlib.Tactic.Ring
import Mathlib.Data.List.Pairwise

/-!
# Room for a based section

`MiFindEmptyAddressRangeDownBasedTree` (`ntoskrnl/mm/ARM3/vadnode.c`) on i386, built
for a version before Vista. The tree is the list of its nodes from the highest down,
the way `MiGetPreviousNode` goes through them. `none` is `STATUS_NO_MEMORY`.
-/

namespace FreeNT.Mm

open List

structure AddressNode where
  StartingVpn : Nat
  EndingVpn : Nat

structure BasedRequest where
  length : Nat
  boundary : Nat
  alignment : Nat

/-- `MI_LOWEST_VAD_ADDRESS` -/
def lowestVad : Nat := 0x10000

/-- `MM_HIGHEST_VAD_ADDRESS` -/
def highestVad : Nat := 0x7FFDFFFF

def roundDown (x a : Nat) : Nat := x / a * a

def roundUp (x a : Nat) : Nat := (x + (a - 1)) % 2 ^ 32 / a * a

def BasedRequest.pages (r : BasedRequest) : Nat := roundUp r.length 4096

def BasedRequest.best (r : BasedRequest) : Nat := roundDown (r.boundary + 1 - r.pages) r.alignment

variable (r : BasedRequest)

/-- The base below `node`, with the boundary taken into account. -/
def baseBelow (node : AddressNode) : Nat :=
  if r.boundary < node.StartingVpn then r.best
  else roundDown (node.StartingVpn - r.pages) r.alignment

/-- The loop: the base in the first gap with room, or the lowest node. -/
def gapLoop : AddressNode → List AddressNode → Nat ⊕ AddressNode
  | node, [] => .inr node
  | node, lowest :: rest =>
    let low := roundUp (lowest.EndingVpn + 1) r.alignment
    if lowest.EndingVpn < r.best ∧ low < node.StartingVpn ∧ r.pages ≤ node.StartingVpn - low then
      .inl (baseBelow r node)
    else gapLoop lowest rest

/-- The gap above the highest node, and then the loop. -/
def gapSearch (node : AddressNode) (rest : List AddressNode) : Nat ⊕ AddressNode :=
  let low := roundUp (node.EndingVpn + 1) r.alignment
  if low < r.boundary ∧ r.pages ≤ r.boundary - low then
    .inl (roundDown (r.boundary - r.pages) r.alignment)
  else gapLoop r node rest

def miFindEmptyAddressRangeDownBasedTree (nodes : List AddressNode) : Option Nat :=
  if r.boundary + 1 < r.pages then none
  else
    match nodes with
    | [] => some r.best
    | node :: rest =>
      match gapSearch r node rest with
      | .inl base => some base
      | .inr node =>
        if lowestVad < node.StartingVpn ∧ r.pages ≤ node.StartingVpn - lowestVad then
          some (baseBelow r node)
        else none

/-! ## What is found -/

/-- The arguments: a power of two of at least a page, and a boundary in the user range. -/
structure BasedRequest.Valid : Prop where
  length : 0 < r.length ∧ r.length < 2 ^ 32
  boundary : r.boundary ≤ highestVad + 1
  alignment : ∃ k, 12 ≤ k ∧ k < 32 ∧ r.alignment = 2 ^ k

/-- Ordered and disjoint nodes of the user range. -/
structure BasedTree (nodes : List AddressNode) : Prop where
  node : ∀ n ∈ nodes, lowestVad ≤ n.StartingVpn ∧ n.StartingVpn ≤ n.EndingVpn ∧ n.EndingVpn ≤ highestVad
  ordered : nodes.Pairwise fun n m => m.EndingVpn < n.StartingVpn

/-- A range of `length` at `base` ends below `limit` and meets no node. -/
def Fits (length limit : Nat) (nodes : List AddressNode) (base : Nat) : Prop :=
  r.alignment ∣ base ∧ base + length ≤ limit ∧ ∀ n ∈ nodes, base + length ≤ n.StartingVpn ∨ n.EndingVpn < base

/-- The upper end of the room below the lowest node, if the search comes to it. -/
def bottom : List AddressNode → Option Nat
  | [] => some (r.boundary + 1)
  | node :: rest =>
    match gapSearch r node rest with
    | .inl _ => none
    | .inr lowest => some (min (r.boundary + 1) lowest.StartingVpn)

lemma roundDown_le (x a : Nat) : roundDown x a ≤ x := Nat.div_mul_le_self x a

lemma dvd_roundUp (x a : Nat) : a ∣ roundUp x a := Nat.dvd_mul_left _ _

lemma le_roundDown {x y a : Nat} (hd : a ∣ y) (h : y ≤ x) : y ≤ roundDown x a := by
  obtain ⟨c, rfl⟩ := hd
  rcases Nat.eq_zero_or_pos a with rfl | ha
  · simp
  · rw [roundDown, Nat.mul_comm a c]
    exact Nat.mul_le_mul_right a ((Nat.le_div_iff_mul_le ha).mpr (by rwa [Nat.mul_comm]))

lemma le_roundUp {x a : Nat} (ha : 0 < a) (h : x + a ≤ 2 ^ 32) : x ≤ roundUp x a := by
  rw [roundUp, Nat.mod_eq_of_lt (by omega)]
  have := Nat.div_add_mod' (x + (a - 1)) a
  have := Nat.mod_lt (x + (a - 1)) ha
  omega

variable {r}

lemma lowest_le_roundDown (h : r.Valid) (x : Nat) :
    lowestVad ≤ roundDown x r.alignment ↔ max r.alignment lowestVad ≤ x := by
  obtain ⟨k, hk, -, ha⟩ := h.alignment
  rw [ha]
  constructor
  · intro hx
    have hle := hx.trans (roundDown_le x _)
    have hp : 0 < x / 2 ^ k := by
      by_contra h0
      simp [roundDown, Nat.eq_zero_of_not_pos h0, lowestVad] at hx
    have := (Nat.le_div_iff_mul_le (Nat.two_pow_pos k)).mp hp
    omega
  · intro hx
    rcases Nat.lt_or_ge 16 k with hk' | hk'
    · have : 2 ^ 16 ≤ 2 ^ k := Nat.pow_le_pow_right (by decide) hk'.le
      exact (show lowestVad ≤ 2 ^ k from this).trans (le_roundDown (Nat.dvd_refl _) (by omega))
    · exact le_roundDown (Nat.pow_dvd_pow 2 hk' : 2 ^ k ∣ 2 ^ 16) (by omega)

variable {node : AddressNode} {rest nodes : List AddressNode} {base : Nat}

lemma baseBelow_eq : baseBelow r node = roundDown (min (r.boundary + 1) node.StartingVpn - r.pages)
    r.alignment := by
  rw [baseBelow, BasedRequest.best]
  split
  · rw [Nat.min_eq_left (by omega)]
  · rw [Nat.min_eq_right (by omega)]

lemma BasedRequest.Valid.low (h : r.Valid) (hn : node.EndingVpn ≤ highestVad) :
    node.EndingVpn < roundUp (node.EndingVpn + 1) r.alignment := by
  obtain ⟨k, -, hk, ha⟩ := h.alignment
  have : 2 ^ k ≤ 2 ^ 31 := Nat.pow_le_pow_right (by decide) (by omega)
  have := Nat.two_pow_pos k
  unfold highestVad at hn
  exact le_roundUp (by omega) (by omega)

lemma BasedTree.tail (h : BasedTree (node :: rest)) : BasedTree rest :=
  ⟨fun n hn => h.node n (mem_cons_of_mem _ hn), (pairwise_cons.mp h.ordered).2⟩

/-- A base the loop returns lies between two neighbours; otherwise it ends at the lowest node. -/
lemma gapLoop_spec (h : r.Valid) (ht : BasedTree (node :: rest)) :
    (∀ base, gapLoop r node rest = .inl base → Fits r r.pages (r.boundary + 1) (node :: rest) base ∧
      base + r.pages ≤ node.StartingVpn ∧ lowestVad ≤ base) ∧
    ∀ n, gapLoop r node rest = .inr n → ∀ m ∈ node :: rest, n.StartingVpn ≤ m.StartingVpn := by
  induction rest generalizing node with
  | nil => simp [gapLoop]
  | cons p rest ih =>
    have hv := ht.node p (by simp)
    obtain ⟨ho, hr⟩ := pairwise_cons.mp ht.ordered
    have hpr := ho p mem_cons_self
    rw [gapLoop]
    split
    case isTrue hg =>
      refine ⟨fun base hb => ?_, by simp⟩
      cases hb
      have hlw := h.low hv.2.2
      have hle := roundDown_le (min (r.boundary + 1) node.StartingVpn - r.pages) r.alignment
      have hab : p.EndingVpn < baseBelow r node := by
        rw [baseBelow]
        split
        · exact hg.1
        · exact hlw.trans_le (le_roundDown (dvd_roundUp _ _) (by omega))
      rw [← baseBelow_eq] at hle
      refine ⟨⟨baseBelow_eq ▸ Nat.dvd_mul_left _ _, by omega, fun m hm => ?_⟩, by omega, by omega⟩
      rcases mem_cons.mp hm with rfl | hm
      · exact .inl (by omega)
      rcases mem_cons.mp hm with rfl | hm
      · exact .inr hab
      · have := (pairwise_cons.mp hr).1 m hm
        exact .inr (by omega)
    case isFalse =>
      obtain ⟨h1, h2⟩ := ih ht.tail
      refine ⟨fun base hb => ?_, fun n hn' m hm => ?_⟩
      · obtain ⟨⟨hd, hle, hm⟩, hs, hl⟩ := h1 base hb
        exact ⟨⟨hd, hle, forall_mem_cons.mpr ⟨.inl (by omega), hm⟩⟩, by omega, hl⟩
      · rcases mem_cons.mp hm with rfl | hm
        · have := h2 n hn' p mem_cons_self
          omega
        · exact h2 n hn' m hm

/-- The base fits, whatever the gap; in the room below the lowest node only its upper end is kept. -/
lemma search_spec (h : r.Valid) (ht : BasedTree nodes)
    (hb : miFindEmptyAddressRangeDownBasedTree r nodes = some base) :
    Fits r r.pages (r.boundary + 1) nodes base ∧ (bottom r nodes = none → lowestVad ≤ base) ∧
      ∀ top, bottom r nodes = some top → r.pages ≤ top ∧ base = roundDown (top - r.pages) r.alignment := by
  unfold miFindEmptyAddressRangeDownBasedTree at hb
  split at hb
  · cases hb
  have hd (x : Nat) : r.alignment ∣ roundDown x r.alignment := Nat.dvd_mul_left _ _
  cases nodes with
  | nil =>
    cases hb
    have := roundDown_le (r.boundary + 1 - r.pages) r.alignment
    exact ⟨⟨hd _, by rw [BasedRequest.best]; omega, by simp⟩, by simp [bottom], by
      rintro top ⟨⟩
      exact ⟨by omega, rfl⟩⟩
  | cons node rest =>
    obtain ⟨h1, h2⟩ := gapLoop_spec h ht
    have hn := ht.node node mem_cons_self
    dsimp only at hb
    rw [bottom]
    split at hb
    case h_1 b hg =>
      cases hb
      simp only [reduceCtorEq, false_implies, implies_true, and_true, true_implies]
      rw [gapSearch] at hg
      split at hg
      case isTrue htp =>
        cases hg
        have hlw := h.low hn.2.2
        have hab := le_roundDown (dvd_roundUp (node.EndingVpn + 1) r.alignment)
          (show _ ≤ r.boundary - r.pages by omega)
        have hle := roundDown_le (r.boundary - r.pages) r.alignment
        refine ⟨⟨hd _, by omega, fun m hm => .inr ?_⟩, by omega⟩
        rcases mem_cons.mp hm with rfl | hm
        · omega
        · have := (pairwise_cons.mp ht.ordered).1 m hm
          omega
      case isFalse =>
        obtain ⟨hf, -, hl⟩ := h1 _ hg
        exact ⟨hf, hl⟩
    case h_2 n hg =>
      simp only [reduceCtorEq, false_implies, true_and, Option.some.injEq, forall_eq']
      rw [gapSearch] at hg
      split at hg
      · cases hg
      split at hb
      · cases hb
        have hlw := h2 n hg
        have hle := roundDown_le (min (r.boundary + 1) n.StartingVpn - r.pages) r.alignment
        rw [baseBelow_eq]
        exact ⟨⟨hd _, by omega, fun m hm => .inl (by have := hlw m hm; omega)⟩, by omega, rfl⟩
      · cases hb

/-- A base that is found is sound exactly if the length is not so large that it rounds
to zero and the room below the lowest node (or below the boundary, if there is no
node), where the search comes to it, holds the lowest address, the alignment and the length. -/
theorem basedSearch_sound_iff (h : r.Valid) (ht : BasedTree nodes)
    (hb : miFindEmptyAddressRangeDownBasedTree r nodes = some base) :
    lowestVad ≤ base ∧ Fits r r.length (r.boundary + 1) nodes base ↔ r.length ≤ 2 ^ 32 - 4096 ∧
        ∀ top, bottom r nodes = some top → max r.alignment lowestVad + r.pages ≤ top := by
  obtain ⟨⟨hd, hle, hm⟩, hnone, hsome⟩ := search_spec h ht hb
  constructor
  · rintro ⟨hlow, -, hlen, -⟩
    have hbd := h.boundary
    unfold highestVad at hbd
    refine ⟨by omega, fun top htop => ?_⟩
    obtain ⟨hpt, rfl⟩ := hsome top htop
    have := (lowest_le_roundDown h _).mp hlow
    omega
  · rintro ⟨hlen, htop⟩
    have hpages : r.length ≤ r.pages := le_roundUp (by decide) (by omega)
    refine ⟨?_, hd, by omega, fun n hn => (hm n hn).imp_left fun _ => by omega⟩
    cases hbot : bottom r nodes with
    | none => exact hnone hbot
    | some top =>
      obtain ⟨-, rfl⟩ := hsome top hbot
      have := htop top hbot
      exact (lowest_le_roundDown h _).mpr (by omega)

theorem basedSearch_sound_above :
    let r : BasedRequest := ⟨0x1000, 0x4FFFF, 0x10000⟩
    miFindEmptyAddressRangeDownBasedTree r [⟨0x20000, 0x2FFFF⟩] = some 0x40000 ∧ lowestVad ≤ 0x40000 ∧
      Fits r 0x1000 0x50000 [⟨0x20000, 0x2FFFF⟩] 0x40000 := by
  refine ⟨rfl, (basedSearch_sound_iff ⟨by decide, by decide, 16, by decide⟩ ⟨by decide, by simp⟩
    rfl).mpr ⟨by decide, ?_⟩⟩
  intro top htop
  cases htop

/-- Without a node the base is not compared with the lowest address. -/
theorem basedSearch_sound_fails :
    let r : BasedRequest := ⟨0x1000, 0x1FFF, 0x1000⟩
    r.Valid ∧ BasedTree [] ∧ miFindEmptyAddressRangeDownBasedTree r [] = some 0x1000 ∧ ¬ lowestVad ≤ 0x1000 :=
  ⟨⟨by decide, by decide, 12, by decide⟩, ⟨by simp, by simp⟩, rfl, by decide⟩

end FreeNT.Mm
