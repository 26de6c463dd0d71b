import FreeNT.Mm.PoolSteps
import FreeNT.Mm.PtePool

/-!
# The nonpaged pool with the PTEs of its expansion

Where no free run is large enough, `MiAllocatePoolPages` takes system PTEs. On i386
`MmSystemPteBase` is the PTE of address 0, so that the number of a PTE is that of its page. The
expansion is mapped just where PTEs are reserved (`Expanding`), and so what `MiReserveSystemPtes`
returns is new to the pool (`pool_expands`).
-/

namespace FreeNT.Mm

open FreeNT.Span NonPagedPool List Option

section

variable {layout : PoolLayout} {s s' : NonPagedPool} {i j n k : Nat}

@[simp, grind =] lemma isSome_setPage {f : PoolPage → PoolPage} :
    ((s.setPage i f).Page j).isSome = (s.Page j).isSome := by
  rw [page_setPage]
  split <;> simp

@[simp] lemma isSome_cutRun : ((s.cutRun i n).Page j).isSome = (s.Page j).isSome := by rw [page_cutRun, isSome_map]

lemma isSome_label (h : s.label i k n = some s') : (s'.Page j).isSome = (s.Page j).isSome := by
  induction n generalizing s k with
  | zero => simp_all [label]
  | succ n ih =>
    obtain ⟨page, -, h⟩ := bind_eq_some_iff.mp h
    rw [ih h, isSome_setPage]

lemma isSome_takeFromRun {e : PoolPage} (h : s.takeFromRun i e n = some (k, s')) :
    (s'.Page j).isSome = (s.Page j).isSome := by
  simp only [takeFromRun, markAllocation, bind_eq_bind, bind_eq_some_iff, ite_none_left_eq_some,
    Option.pure_def, some.injEq,
    Prod.mk.injEq] at h
  obtain ⟨_, ⟨_, -, -, _, -, -, rfl⟩, -, rfl⟩ := h
  simp

lemma page_takeNext (h : s.takeNext layout i = some (n, s')) : s'.Page = s.Page := by
  unfold takeNext at h
  grind [page_removeEntry]

lemma isSome_joinBefore (h : s.joinBefore layout i n = some (k, s')) : (s'.Page j).isSome = (s.Page j).isSome := by
  rw [joinBefore] at h
  split at h
  · simp_all
  split at h
  · simp_all
  split at h
  · obtain ⟨e, -, h⟩ := bind_eq_some_iff.mp h
    dsimp only at h
    split at h <;> cases h <;> simp
  · cases h

lemma isSome_free (h : s.miFreePoolPages layout i = some (n, s')) : (s'.Page j).isSome = (s.Page j).isSome := by
  obtain ⟨f, -, h⟩ := bind_eq_some_iff.mp h
  split at h
  · cases h
    rfl
  obtain ⟨l, -, h⟩ := bind_eq_some_iff.mp h
  obtain ⟨⟨next, s1⟩, h1, h⟩ := bind_eq_some_iff.mp h
  obtain ⟨⟨entry, s2⟩, h2, h⟩ := bind_eq_some_iff.mp h
  obtain ⟨s3, h3, h⟩ := bind_eq_some_iff.mp h
  cases h
  have hs : (s2.Page j).isSome = (s.Page j).isSome := by simp [isSome_joinBefore h2, page_takeNext h1]
  rw [isSome_label h3, ← hs]
  split <;> simp

/-- Without PTEs the pages that are mapped stay the same. -/
lemma isSome_allocate {r : Option Nat} (h : s.miAllocatePoolPages n none = some (r, s')) :
    (s'.Page j).isSome = (s.Page j).isSome := by
  simp only [miAllocatePoolPages] at h
  grind [isSome_takeFromRun, Option.bind_eq_some_iff, Option.pure_def]

/-- A request that the lists do not serve is served by PTEs. -/
lemma allocate_reserved (h : s.miAllocatePoolPages n none = some (none, s')) (hn : bytesToPages n ≠ 0) (i : Nat) :
    s.miAllocatePoolPages n (some i) = some (some i, s.expand i (bytesToPages n)) := by
  simp only [miAllocatePoolPages, if_neg hn] at h ⊢
  grind [Option.bind_eq_some_iff, Option.pure_def]

end

structure ExpandingPool where
  ptes : PtePool
  pool : PoolState

inductive ExpandingCall where
  | allocate (sizeInBytes : Nat)
  | free (i : Nat)
  | write (i size owner : Nat) (signature : Bool)
  | writePte (i : Nat) (pte : ListPte)

/-- Only a request for pages that the lists do not serve calls `MiReserveSystemPtes`. -/
def expandingStep (layout : PoolLayout) (s : ExpandingPool) : ExpandingCall → Option ExpandingPool
  | .allocate n => do
    let (found, _) ← s.pool.pool.miAllocatePoolPages n none
    let (ptes, reserved) ← if found.isSome ∨ bytesToPages n = 0 then some (s.ptes.ptes, none)
      else s.ptes.ptes.miReserveSystemPtes (bytesToPages n)
    let pool ← poolStep layout s.pool (.allocate n reserved)
    return ⟨⟨ptes, reserved.elim s.ptes.reserved fun i => ⟨i, bytesToPages n⟩ :: s.ptes.reserved⟩, pool⟩
  | .free i => (poolStep layout s.pool (.free i)).map ({ s with pool := · })
  | .write i size owner signature =>
      (poolStep layout s.pool (.write i size owner signature)).map ({ s with pool := · })
  | .writePte i pte => (pteStep s.ptes (.write i pte)).map ({ s with ptes := · })

/-- What is freed, and what is written to, is in use. -/
def ExpandingOk (s : ExpandingPool) : ExpandingCall → Prop
  | .allocate _ => True
  | .free i => ∃ r ∈ s.pool.live, r.start = i
  | .write i _ _ _ => ∃ r ∈ s.pool.live, r.Has i
  | .writePte i _ => ∃ r ∈ s.ptes.reserved, r.Has i

structure Expanding (layout : PoolLayout) (space : PteSpace) (s : ExpandingPool) : Prop where
  pool : PoolShared layout s.pool
  ptes : ∃ free, PoolInv space s.ptes.ptes free s.ptes.reserved
  mapped : ∀ i, layout.Expansion.Has i → ((s.pool.pool.Page i).isSome ↔ ∃ r ∈ s.ptes.reserved, r.Has i)

def PoolLayout.expanding (layout : PoolLayout) (space : PteSpace) (before : SystemPtes) : ExpandingPool :=
  ⟨space.initial before, ⟨miInitializeNonPagedPool layout, []⟩⟩

variable {layout : PoolLayout} {space : PteSpace} {s s' : ExpandingPool} {n : Nat}
  (hspace : layout.Expansion = space.toSpan)

lemma Expanding.init (layout : PoolLayout) (space : PteSpace) (before : SystemPtes) :
    Expanding layout space (layout.expanding space before) := by
  refine ⟨.init layout, ⟨_, initial_inv space before⟩, fun i hi => ?_⟩
  have hn : ¬ layout.Initial.Has i := by
    have hg := layout.guard
    unfold Has at *
    omega
  simp [PoolLayout.expanding, miInitializeNonPagedPool, hn, PteSpace.initial]

include hspace

/-- A reservation gives PTEs of pages of the expansion that are not mapped. -/
lemma Expanding.unmapped (h : Expanding layout space s) {ptes : SystemPtes} {free : List Span} {i : Nat}
    (hi : PoolInv space ptes free (⟨i, bytesToPages n⟩ :: s.ptes.reserved)) :
    PoolStepOk layout s.pool (.allocate n (some i)) := by
  rintro _ ⟨⟩ j hij hji
  have hx : layout.Expansion.Has j := by
    rw [hspace]
    exact hi.shares.covers.mp ⟨_, mem_append_right _ mem_cons_self, hij, hji⟩
  refine ⟨hx, not_isSome_iff_eq_none.mp fun hp => ?_⟩
  obtain ⟨r, hr, hrj⟩ := (h.mapped j hx).mp hp
  have ha := (pairwise_cons.mp (pairwise_append.mp hi.shares.apart).2.1).1 r hr
  unfold Has Apart stop at *
  dsimp only at ha
  omega

lemma Expanding.allocate (h : Expanding layout space s) (n : Nat) :
    ∃ s', expandingStep layout s (.allocate n) = some s' ∧ Expanding layout space s' := by
  obtain ⟨r, pl, hr, hp⟩ := h.pool.allocate (show PoolStepOk layout s.pool (.allocate n none) from nofun)
  have hm (i : Nat) (hi : layout.Expansion.Has i) : (pl.Page i).isSome ↔ ∃ r ∈ s.ptes.reserved, r.Has i := by
    rw [isSome_allocate hr, h.mapped i hi]
  by_cases hf : r.isSome ∨ bytesToPages n = 0
  · exact ⟨⟨s.ptes, _⟩, by simp [expandingStep, poolStep, hr, hf], hp, h.ptes, hm⟩
  obtain ⟨free, hi⟩ := h.ptes
  obtain ⟨hn, hz⟩ := not_or.mp hf
  obtain rfl := not_isSome_iff_eq_none.mp hn
  rcases reserve_spec hi (Nat.pos_of_ne_zero hz) with ⟨-, heq⟩ | ⟨-, ptes, i, free', heq, hi'⟩
  · exact ⟨⟨s.ptes, _⟩, by simp [expandingStep, poolStep, hr, hz, heq], hp, ⟨free, hi⟩, hm⟩
  have he := allocate_reserved hr hz i
  obtain ⟨_, _, he', hp'⟩ := h.pool.allocate (h.unmapped hspace hi')
  cases he.symm.trans he'
  refine ⟨⟨⟨ptes, _ :: s.ptes.reserved⟩, _⟩, by simp [expandingStep, poolStep, hr, hz, heq, he], hp', ⟨free', hi'⟩,
    fun j hj => ?_⟩
  rw [page_expand (Nat.pos_of_ne_zero hz), exists_mem_cons_iff, ← h.mapped j hj]
  change _ ↔ (i ≤ j ∧ j < i + bytesToPages n) ∨ _
  split <;> simp [*]

lemma Expanding.step {call : ExpandingCall} (h : Expanding layout space s) (hok : ExpandingOk s call) :
    ∃ s', expandingStep layout s call = some s' ∧ Expanding layout space s' := by
  cases call with
  | allocate n => exact h.allocate hspace n
  | free i =>
    obtain ⟨r, -, -, pl, hf, hp⟩ := h.pool.release hok
    exact ⟨⟨s.ptes, _⟩, by simp [expandingStep, poolStep, hf], hp, h.ptes, fun j hj => by rw [← h.mapped j hj, isSome_free hf]⟩
  | write i size o sg =>
    exact ⟨_, rfl, h.pool.write hok size o sg, h.ptes, fun j hj => by rw [← h.mapped j hj, isSome_setPage]⟩
  | writePte i pte => exact ⟨_, rfl, h.pool, pteStep_inv (c := .write i pte) h.ptes hok rfl, h.mapped⟩

/-- Nothing is assumed of what the pool is expanded by: no two allocations overlap, the expansion
is mapped just where PTEs are reserved, and every call returns. -/
theorem pool_expands {before : SystemPtes} {calls : List ExpandingCall}
    (hrun : Run (expandingStep layout) ExpandingOk (layout.expanding space before) calls s) :
      s.pool.live.Pairwise Apart ∧
      (∀ i, layout.Expansion.Has i → ((s.pool.pool.Page i).isSome ↔ ∃ r ∈ s.ptes.reserved, r.Has i)) ∧
      ∀ call, ExpandingOk s call → ∃ s', expandingStep layout s call = some s' := by
  have h := hrun.invariant (Expanding layout space) (fun h hok hs => ?_) (.init layout space before)
  · obtain ⟨free, hok⟩ := h.pool
    exact ⟨(pairwise_append.mp (pairwise_append.mp hok.apart).1).1, h.mapped, fun call hok =>
      (h.step hspace hok).imp fun _ => And.left⟩
  obtain ⟨s1, hs1, h1⟩ := h.step hspace hok
  cases hs1.symm.trans hs
  exact h1

omit hspace

/-- Seven pages, and five for which the pool is expanded. -/
theorem pool_expands_two : ∃ s, Run (expandingStep smallLayout) ExpandingOk
    (smallLayout.expanding ⟨⟨25, 6⟩, by decide, by decide⟩ ⟨.zero, fun _ => .zero, 0⟩)
      [.allocate 28672, .allocate 20480] s ∧
    s.pool.live = [⟨26, 5⟩, ⟨17, 7⟩] ∧
    ∀ i, smallLayout.Expansion.Has i → ((s.pool.pool.Page i).isSome ↔ ∃ r ∈ s.ptes.reserved, r.Has i) :=
  Run.exists_and_and ⟨_, .cons trivial rfl (.single trivial rfl), rfl⟩ fun _ hr => (pool_expands rfl hr).2.1

end FreeNT.Mm
