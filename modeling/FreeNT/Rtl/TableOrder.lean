import FreeNT.Lib.Circle
import FreeNT.Rtl.TableSet

/-!
# Elements of a generic table by number (`lib/rtl/generictable.c`)

`RtlGetElementGenericTable` walks the list of the elements in the order of their insertion, from
the position that the last call has left (`OrderedPointer`, with its number `WhichOrderedElement`)
or from the head of the list. Where its comment has it go forwards it goes backwards, and where it
counts from the head it leaves 0 as the number. So what it gives depends on the calls before:
`getElement_iff` says when it is the element asked for.
-/

namespace FreeNT.Rtl

open SplayTree List Option Nat

namespace SplayTable

variable {α : Type} {cmp : α → α → Ordering} {t t' : SplayTable α} {ns : SplayTree Nat}
  {xs es : List α} {x : α} {i n a : Nat}

/-- `RtlGetElementGenericTable`: the table, and the node, or `none` for NULL. The head of the list,
0, is taken for a node, too. -/
def rtlGetElementGenericTable (t : SplayTable α) (i : Nat) : SplayTable α × Option Nat :=
  let orderedNode := t.OrderedPointer
  let orderedElement := t.WhichOrderedElement
  let elementCount := t.NumberGenericTableElements
  let nextI := (i + 1) % 2 ^ 32
  let save (orderedNode nextI : Nat) : SplayTable α × Option Nat :=
    ({ t with OrderedPointer := orderedNode, WhichOrderedElement := nextI }, some orderedNode)
  if i = maxUlong ∨ nextI > elementCount then (t, none)
  else if nextI = orderedElement then (t, some orderedNode)
  else if orderedElement > nextI then
    if nextI > orderedElement / 2 then save ((circlePrev 0 t.InsertOrderList)^[orderedElement - nextI] orderedNode) nextI
    -- this loop counts `NextI` down to 0
    else save ((circleNext 0 t.InsertOrderList)^[nextI] 0) 0
  else
    let deltaUp := nextI - orderedElement
    let deltaDown := elementCount - nextI + 1
    if deltaUp ≤ deltaDown then save ((circlePrev 0 t.InsertOrderList)^[deltaUp] orderedNode) nextI
    else save ((circlePrev 0 t.InsertOrderList)^[deltaDown] 0) nextI

/-! ## One call -/

/-- The position that is remembered is one of the list, and its number that of an element, or 0. -/
structure CursorOk (t : SplayTable α) : Prop where
  nodup : (0 :: t.InsertOrderList).Nodup
  count : t.NumberGenericTableElements = t.InsertOrderList.length
  bound : t.InsertOrderList.length < maxUlong
  pointer : t.OrderedPointer ∈ 0 :: t.InsertOrderList
  which : t.WhichOrderedElement ≤ t.InsertOrderList.length

/-- The position that is remembered, counted from the head of the list. -/
def cursor (t : SplayTable α) : Nat := circlePosition 0 t.InsertOrderList t.OrderedPointer

/-- Where the walk to element `i` ends at that element: there is no such element; or it is the one
remembered, and the number of that is right; or it is before that one, and not nearer to it than
to the head, or the number is right; or it is after that one, and nearer to the end of the list,
or going the wrong way comes to it, too. -/
def GetsElement (t : SplayTable α) (i : Nat) : Prop :=
  let count := t.InsertOrderList.length
  let which := t.WhichOrderedElement
  count ≤ i ∨ i + 1 = which ∧ cursor t = which ∨ i + 1 < which ∧ (2 * (i + 1) ≤ which ∨ cursor t = which) ∨
    which < i + 1 ∧ (count + 1 + which < 2 * (i + 1) ∨ (cursor t + which) % (count + 1) = 2 * (i + 1) % (count + 1))

instance (t : SplayTable α) (i : Nat) : Decidable (GetsElement t i) := inferInstanceAs (Decidable (_ ∨ _))

section

variable (h : CursorOk t)

include h

lemma getElement_absent (hi : i < 2 ^ 32) (hle : t.InsertOrderList.length ≤ i) :
    rtlGetElementGenericTable t i = (t, none) := by
  have hc := h.count
  rw [rtlGetElementGenericTable]
  rw [if_pos]
  by_cases hm : i = maxUlong
  · exact .inl hm
  unfold maxUlong at hm
  right
  rw [mod_eq_of_lt (by omega)]
  omega

lemma getElement_walk (hlt : i < t.InsertOrderList.length) : ∃ p w, rtlGetElementGenericTable t i =
        ({ t with OrderedPointer := circleAt 0 t.InsertOrderList p, WhichOrderedElement := w },
          some (circleAt 0 t.InsertOrderList p)) ∧
      w ≤ t.InsertOrderList.length ∧
      (p % (t.InsertOrderList.length + 1) = (i + 1) % (t.InsertOrderList.length + 1) ↔ GetsElement t i) := by
  have hcn := h.count
  have hb := h.bound
  have hw := h.which
  have hc : cursor t < t.InsertOrderList.length + 1 := circlePosition_lt h.pointer
  have hhd : (0 : Nat) ∈ 0 :: t.InsertOrderList := mem_cons_self
  have hm : (i + 1) % (t.InsertOrderList.length + 1) = i + 1 := mod_eq_of_lt (by omega)
  have hnx : (i + 1) % 2 ^ 32 = i + 1 := by
    unfold maxUlong at hb
    exact mod_eq_of_lt (by omega)
  rw [rtlGetElementGenericTable]
  rw [hnx, if_neg (by unfold maxUlong at *; omega)]
  by_cases hs : i + 1 = t.WhichOrderedElement
  · rw [if_pos hs]
    refine ⟨cursor t, t.WhichOrderedElement, ?_, hw, ?_⟩
    · rw [cursor, circleAt_position h.pointer]
    · rw [mod_eq_of_lt hc, hm, GetsElement]
      omega
  rw [if_neg hs]
  by_cases hbf : t.WhichOrderedElement > i + 1
  · rw [if_pos hbf]
    by_cases hh : i + 1 > t.WhichOrderedElement / 2
    · rw [if_pos hh, iterate_circlePrev h.nodup h.pointer]
      refine ⟨_, i + 1, rfl, by omega, ?_⟩
      rw [mod_back_iff, ← cursor, mod_eq_of_lt hc, mod_eq_of_lt (by omega), GetsElement]
      omega
    rw [if_neg hh, iterate_circleNext h.nodup hhd, circlePosition_head, zero_add]
    refine ⟨_, 0, rfl, by omega, iff_of_true rfl ?_⟩
    rw [GetsElement]
    omega
  rw [if_neg hbf]
  by_cases hn : i + 1 - t.WhichOrderedElement ≤ t.NumberGenericTableElements - (i + 1) + 1
  · rw [if_pos hn, iterate_circlePrev h.nodup h.pointer]
    refine ⟨_, i + 1, rfl, by omega, ?_⟩
    rw [mod_back_iff, ← cursor, ← mod_add_right_iff,
      show i + 1 + (i + 1 - t.WhichOrderedElement) + t.WhichOrderedElement = 2 * (i + 1) by omega,
      GetsElement]
    omega
  rw [if_neg hn, iterate_circlePrev h.nodup hhd, circlePosition_head]
  refine ⟨_, i + 1, rfl, by omega, iff_of_true ?_ ?_⟩
  · rw [mod_back_iff, show i + 1 +
      (t.NumberGenericTableElements - (i + 1) + 1) = t.InsertOrderList.length + 1 by omega,
      mod_self, zero_mod]
  · rw [GetsElement]
    omega

lemma CursorOk.get_iff (hi : i < 2 ^ 32) :
    (rtlGetElementGenericTable t i).2 = t.InsertOrderList[i]? ↔ GetsElement t i := by
  by_cases hlt : i < t.InsertOrderList.length
  · obtain ⟨p, w, hg, -, hif⟩ := getElement_walk h hlt
    rw [hg, circleAt_succ hlt, some_inj, circleAt_eq_iff h.nodup, hif]
  have hle := not_lt.mp hlt
  rw [getElement_absent h hi hle, getElem?_eq_none hle]
  exact iff_of_true rfl (.inl hle)

lemma getElement_frame (hi : i < 2 ^ 32) : ∃ p w,
    (rtlGetElementGenericTable t i).1 = { t with OrderedPointer := p, WhichOrderedElement := w } ∧
      p ∈ 0 :: t.InsertOrderList ∧ w ≤ t.InsertOrderList.length := by
  by_cases hlt : i < t.InsertOrderList.length
  · obtain ⟨p, w, hg, hw, -⟩ := getElement_walk h hlt
    exact ⟨_, w, by rw [hg], circleAt_mem, hw⟩
  · exact ⟨_, _, by rw [getElement_absent h hi (not_lt.mp hlt)], h.pointer, h.which⟩

end

/-! ## The other calls -/

lemma insert_new (h : rtlInsertElementGenericTable cmp t x a = some (t', n, true)) :
    t'.InsertOrderList = t.InsertOrderList ++ [a] ∧
      t'.UserData = (fun y => if y = a then some x else t.UserData y) ∧
      t'.OrderedPointer = t.OrderedPointer ∧ t'.WhichOrderedElement = t.WhichOrderedElement := by
  simp only [rtlInsertElementGenericTable, rtlInsertElementGenericTableFull, bind_eq_bind, bind_eq_some_iff] at h
  obtain ⟨⟨r, parent⟩, -, h⟩ := h
  split at h
  · split at h
    · cases h
    split at h
    · cases h
    obtain ⟨m, -, h⟩ := bind_eq_some_iff.mp h
    cases h
    exact ⟨rfl, rfl, rfl, rfl⟩
  · obtain ⟨m, -, h⟩ := bind_eq_some_iff.mp h
    cases h

lemma insert_old (h : rtlInsertElementGenericTable cmp t x a = some (t', n, false)) :
    t'.InsertOrderList = t.InsertOrderList ∧ t'.UserData = t.UserData ∧
      t'.OrderedPointer = t.OrderedPointer ∧ t'.WhichOrderedElement = t.WhichOrderedElement := by
  simp only [rtlInsertElementGenericTable, rtlInsertElementGenericTableFull, bind_eq_bind, bind_eq_some_iff] at h
  obtain ⟨⟨r, parent⟩, -, h⟩ := h
  split at h
  · split at h
    · cases h
    split at h
    · cases h
      exact ⟨rfl, rfl, rfl, rfl⟩
    · obtain ⟨m, -, h⟩ := bind_eq_some_iff.mp h
      cases h
  · obtain ⟨m, -, h⟩ := bind_eq_some_iff.mp h
    cases h
    exact ⟨rfl, rfl, rfl, rfl⟩

lemma lookup_same (h : rtlLookupElementGenericTable cmp t x = some (t', n)) :
    t'.InsertOrderList = t.InsertOrderList ∧ t'.UserData = t.UserData ∧
      t'.OrderedPointer = t.OrderedPointer ∧ t'.WhichOrderedElement = t.WhichOrderedElement := by
  simp only [rtlLookupElementGenericTable, bind_eq_bind, bind_eq_some_iff] at h
  obtain ⟨⟨r, parent⟩, -, h⟩ := h
  split at h
  · cases h
    exact ⟨rfl, rfl, rfl, rfl⟩
  obtain ⟨m, -, h⟩ := bind_eq_some_iff.mp h
  cases h
  exact ⟨rfl, rfl, rfl, rfl⟩

lemma delete_absent (h : rtlDeleteElementGenericTable cmp t x = some (t', false)) : t' = t := by
  simp only [rtlDeleteElementGenericTable, bind_eq_bind, bind_eq_some_iff] at h
  obtain ⟨⟨r, parent⟩, -, h⟩ := h
  split at h
  · cases h
    rfl
  · obtain ⟨m, -, h⟩ := bind_eq_some_iff.mp h
    cases h

lemma delete_found [Std.TransCmp cmp] (h : Represents cmp t ns)
    (hdl : rtlDeleteElementGenericTable cmp t x = some (t', true)) :
    ∃ n as bs y m root, ns.toList = as ++ n :: bs ∧ t.UserData n = some y ∧ cmp x y = .eq ∧
      t' = t.removeNode n m root := by
  obtain ⟨xs, hl, hsr, -⟩ := h.linked
  obtain ⟨rs, n, hf, hs⟩ := hl.find (cut_of_sorted hsr x)
  rw [rtlDeleteElementGenericTable, hf, do_some] at hdl
  cases hs with
  | @found path l r _ ys zs y hn hxs hys heq =>
    dsimp only at hdl
    rw [if_neg (not_not.mpr rfl)] at hdl
    obtain ⟨⟨m, root⟩, -, hdl⟩ := bind_eq_some_iff.mp hdl
    cases hdl
    have hls : ns.toList = (before path ++ l.toList) ++ n :: (r.toList ++ after path) := by
      rw [hn, toList_plug, toList_node]
      simp
    have hd := hl.data
    rw [hls, map_append, hys, hxs, map_append] at hd
    exact ⟨n, _, _, y, m, root, hls, (cons.inj (append_cancel_left hd)).1, heq, rfl⟩
  | absent _ _ _ _ _ hr =>
    dsimp only at hdl
    rw [if_pos hr] at hdl
    cases hdl

/-! ## Runs -/

/-- A call, also one of `RtlGetElementGenericTable`. -/
inductive OrderOp (α : Type) where
  | call (op : TableOp α)
  | get (i : Nat)

def orderStep (cmp : α → α → Ordering) (t : SplayTable α) : OrderOp α → Option (SplayTable α)
  | .call op => tableStep cmp t op
  | .get i => some (rtlGetElementGenericTable t i).1

/-- Allocations succeed, and the number is a `ULONG`. -/
def OrderValid (cmp : α → α → Ordering) (t : SplayTable α) : OrderOp α → Prop
  | .call op => AllocationSucceeds cmp t op
  | .get i => i < 2 ^ 32

/-- The elements in the order of their insertion, after a call. -/
def orderAfter (cmp : α → α → Ordering) (es : List α) : OrderOp α → List α
  | .call (.insert x _) => if es.any fun y => cmp x y = .eq then es else es ++ [x]
  | .call (.delete x) => es.filter fun y => cmp x y ≠ .eq
  | .call (.lookup _) => es
  | .get _ => es

/-- The elements that are present after the calls, in the order of their insertion. -/
def insertionOrder (cmp : α → α → Ordering) (ops : List (OrderOp α)) : List α := ops.foldl (orderAfter cmp) []

/-- The list holds the elements `es`, and a position in it is remembered. -/
structure OrderInv (cmp : α → α → Ordering) (t : SplayTable α) (es : List α) : Prop where
  represents : ∃ nodes, Represents cmp t nodes
  order : t.InsertOrderList.map t.UserData = es.map some
  pointer : t.OrderedPointer ∈ 0 :: t.InsertOrderList
  which : t.WhichOrderedElement ≤ t.InsertOrderList.length

section

variable (h : OrderInv cmp t es)

include h

lemma OrderInv.cursorOk : CursorOk t := by
  obtain ⟨ns, hr⟩ := h.represents
  obtain ⟨xs, hl, -⟩ := hr.linked
  have hln := hl.length_le
  have ho := hr.order
  refine ⟨nodup_cons.mpr ⟨fun hz => ?_, ho.nodup_iff.mpr hr.tree.nodup⟩, ?_, ?_, h.pointer, h.which⟩
  · exact hr.tree.holds.ne_zero (ho.mem_iff.mp hz) rfl
  · rw [hr.count, ho.length_eq]
  rw [ho.length_eq]
  unfold maxUlong
  omega

lemma OrderInv.count : t.NumberGenericTableElements = es.length := by
  rw [h.cursorOk.count]
  simpa using congrArg length h.order

lemma OrderInv.mem_iff (hr : Represents cmp t ns) {y : α} :
    y ∈ es ↔ ∃ b ∈ ns.toList, t.UserData b = some y := by
  have hm : some y ∈ t.InsertOrderList.map t.UserData ↔ some y ∈ es.map some := by rw [h.order]
  simpa [hr.order.mem_iff] using hm.symm

end

lemma map_erase {data data' : Nat → Option α} {as : List Nat} (hnd : as.Nodup) (hm : as.map data = es.map some)
    (hd : ∀ b ∈ as, b ≠ n → data' b = data b) (hn : ∀ b ∈ as, ∀ y, data b = some y → (b = n ↔ cmp x y = .eq)) :
    (as.erase n).map data' = (es.filter fun y => cmp x y ≠ .eq).map some := by
  rw [hnd.erase_eq_filter]
  induction as generalizing es with
  | nil =>
    cases es with
    | nil => rfl
    | cons y es => cases hm
  | cons b as ih =>
    cases es with
    | nil => cases hm
    | cons y es =>
      obtain ⟨hb, hm⟩ := cons.inj hm
      have hr := ih (nodup_cons.mp hnd).2 hm (fun c hc => hd c (mem_cons_of_mem b hc)) fun c hc =>
        hn c (mem_cons_of_mem b hc)
      have hif := hn b mem_cons_self y hb
      by_cases hbn : b = n
      · rw [filter_cons_of_neg (by simpa using hbn), filter_cons_of_neg (by simpa using hif.mp hbn)]
        exact hr
      have heq : cmp x y ≠ .eq := fun heq => hbn (hif.mpr heq)
      rw [filter_cons_of_pos (by simpa using hbn), filter_cons_of_pos (by simpa using heq), map_cons, map_cons,
        hr, hd b mem_cons_self hbn, hb]

lemma OrderInv.same (h : OrderInv cmp t es) (hr : ∃ ns, Represents cmp t' ns)
    (hs : t'.InsertOrderList = t.InsertOrderList ∧ t'.UserData = t.UserData ∧ t'.OrderedPointer = t.OrderedPointer ∧
      t'.WhichOrderedElement = t.WhichOrderedElement) : OrderInv cmp t' es := by
  obtain ⟨hl, hd, hp, hw⟩ := hs
  exact ⟨hr, by rw [hl, hd]; exact h.order, by rw [hl, hp]; exact h.pointer, by rw [hl, hw]; exact h.which⟩

lemma OrderInv.insert [Std.TransCmp cmp] (h : OrderInv cmp t es) (hv : AllocationSucceeds cmp t (.insert x a))
    (hs : tableStep cmp t (.insert x a) = some t') : OrderInv cmp t' (orderAfter cmp es (.call (.insert x a))) := by
  obtain ⟨ns, hr⟩ := h.represents
  obtain ⟨t1, n, nw, ns', hin, hr', -⟩ := insert_spec hr x hv
  rw [tableStep, hin] at hs
  cases hs
  obtain ⟨xs, hl, hsr, hc⟩ := hr.linked
  have hct := cut_of_sorted hsr x
  have hm (y : α) : y ∈ es ↔ y ∈ xs := by
    rw [h.mem_iff hr]
    exact Set.ext_iff.mp hc y
  rw [orderAfter]
  by_cases hex : ∃ y ∈ es, cmp x y = .eq
  · rw [if_pos (by simpa using hex)]
    obtain ⟨y, hy, heq⟩ := hex
    obtain ⟨t1, n1, -, -, -, hin', -⟩ := @Linked.insert_found _ _ _ _ _ _ _ a hl hct ((hm y).mp hy) heq
    cases hin.symm.trans hin'
    exact h.same ⟨ns', hr'⟩ (insert_old hin)
  rw [if_neg (by simpa using hex)]
  have hne : ∀ y ∈ xs, cmp x y ≠ .eq := fun y hy heq => hex ⟨y, (hm y).mpr hy, heq⟩
  have hf := hv (hl.find_absent hct hne)
  obtain ⟨t1, -, -, hin', -⟩ := hl.insert hct hne hf
  cases hin.symm.trans hin'
  obtain ⟨hls, hd, hp, hw⟩ := insert_new hin
  have hn : a ∉ t.InsertOrderList := hf.not_mem (by decide)
  refine ⟨⟨ns', hr'⟩, ?_, ?_, ?_⟩
  · have ho : ∀ b ∈ t.InsertOrderList, (if b = a then some x else t.UserData b) = t.UserData b := by
      intro b hb
      exact if_neg fun (heq : b = a) => hn (heq ▸ hb)
    rw [hls, hd, map_append, map_congr_left ho, h.order, map_append, map_singleton, if_pos rfl]
    rfl
  · rw [hls, hp]
    have hm := h.pointer
    simp only [mem_cons, mem_append] at hm ⊢
    exact hm.imp_right .inl
  · rw [hls, hw, length_append]
    exact le_add_right_of_le h.which

lemma OrderInv.delete [Std.TransCmp cmp] (h : OrderInv cmp t es) (hs : tableStep cmp t (.delete x) = some t') :
    OrderInv cmp t' (orderAfter cmp es (.call (.delete x))) := by
  obtain ⟨ns, hr⟩ := h.represents
  obtain ⟨t1, deleted, ns', hd, hr', -⟩ := delete_spec hr x
  rw [tableStep, hd] at hs
  cases hs
  rw [orderAfter]
  cases deleted with
  | true =>
    obtain ⟨n, as, bs, y, m, root, hl, hy, heq, rfl⟩ := delete_found hr hd
    have ho := hr.ordered
    rw [hl] at ho
    have hne := ho.ne_of_eq hy heq
    refine ⟨⟨ns', hr'⟩, ?_, mem_cons_self, zero_le _⟩
    refine map_erase (hr.order.nodup_iff.mpr hr.tree.nodup) h.order (fun b _ hb => if_neg hb) fun b hb z hz => ?_
    rw [hr.order.mem_iff, hl] at hb
    constructor
    · rintro rfl
      cases hy.symm.trans hz
      exact heq
    intro heq'
    by_contra hbn
    refine hne b ?_ z hz heq'
    simp only [mem_append, mem_cons] at hb ⊢
    tauto
  | false =>
    obtain rfl := delete_absent hd
    obtain ⟨xs, hln, hsr, hc⟩ := hr.linked
    have ha : ∀ y ∈ es, cmp x y ≠ .eq := by
      intro y hy
      rw [h.mem_iff hr] at hy
      rcases hln.delete (cut_of_sorted hsr x) with ⟨-, hne⟩ | ⟨t1, -, -, -, -, hd', -⟩
      · exact hne y (Set.ext_iff.mp hc y |>.mp hy)
      · cases hd.symm.trans hd'
    rw [filter_eq_self.mpr fun y hy => by simpa using ha y hy]
    exact h

lemma orderStep_inv [Std.TransCmp cmp] {op : OrderOp α} (h : OrderInv cmp t es) (hv : OrderValid cmp t op)
    (hs : orderStep cmp t op = some t') : OrderInv cmp t' (orderAfter cmp es op) := by
  cases op with
  | get i =>
    obtain ⟨p, w, hg, hp, hw⟩ := getElement_frame h.cursorOk hv
    obtain ⟨ns, hr⟩ := h.represents
    rw [orderStep, hg] at hs
    cases hs
    exact ⟨⟨ns, hr.tree, hr.root, hr.ordered, hr.count, hr.order, hr.blocks⟩, h.order, hp, hw⟩
  | call op =>
    cases op with
    | insert x a => exact h.insert hv hs
    | delete x => exact h.delete hs
    | lookup x =>
      obtain ⟨ns, hr⟩ := h.represents
      obtain ⟨t1, n, hl, ⟨ns', hr', -⟩, -⟩ := lookup_spec hr x
      rw [orderStep, tableStep, hl] at hs
      cases hs
      exact h.same ⟨ns', hr'⟩ (lookup_same hl)

lemma orderRun_inv [Std.TransCmp cmp] {o : List (OrderOp α)} (hr : Run (orderStep cmp) (OrderValid cmp) t o t')
    (h : OrderInv cmp t es) : OrderInv cmp t' (o.foldl (orderAfter cmp) es) := by
  induction hr generalizing es with
  | nil => exact h
  | cons hok hs _ ih => exact ih (orderStep_inv h hok hs)

/-- In every run whose allocations succeed the list has the elements that are present, in the
order of their insertion. `RtlGetElementGenericTable` gives element `i` of it, or NULL if there is
none, just if `GetsElement`. -/
theorem getElement_iff [Std.TransCmp cmp] {ops : List (OrderOp α)}
    (hrun : Run (orderStep cmp) (OrderValid cmp) rtlInitializeGenericTable ops t) :
    t.InsertOrderList.map t.UserData = (insertionOrder cmp ops).map some ∧
      t.NumberGenericTableElements = (insertionOrder cmp ops).length ∧
      ∀ i < 2 ^ 32, (rtlGetElementGenericTable t i).2 = t.InsertOrderList[i]? ↔ GetsElement t i := by
  have hin : OrderInv cmp (rtlInitializeGenericTable : SplayTable α) [] :=
    ⟨⟨nil, represents_init⟩, rfl, mem_cons_self, le_refl 0⟩
  have h : OrderInv cmp t (insertionOrder cmp ops) := orderRun_inv hrun hin
  exact ⟨h.order, h.count, fun i hi => h.cursorOk.get_iff hi⟩

/-- The second of two elements. -/
theorem getElement_iff_second : ∃ t : SplayTable Nat, Run (orderStep compare) (OrderValid compare)
    rtlInitializeGenericTable
      [.call (.insert 5 100), .call (.insert 3 200)] t ∧
    (rtlGetElementGenericTable t 1).2 = t.InsertOrderList[1]? := by
  obtain ⟨t, hr, hg⟩ : ∃ t : SplayTable Nat, Run (orderStep compare) (OrderValid compare) rtlInitializeGenericTable
      [.call (.insert 5 100), .call (.insert 3 200)] t ∧ GetsElement t 1 := by
    refine ⟨_, .cons ?_ rfl (.cons ?_ rfl (.nil _)), ?_⟩
    · exact fun _ => by decide
    · exact fun _ => by decide
    · decide
  exact ⟨t, hr, ((getElement_iff hr).2.2 1 (by decide)).mpr hg⟩

/-- Asked for the first of two elements, the routine gives the second one. -/
theorem getElement_iff_fails : ∃ t : SplayTable Nat, Run (orderStep compare) (OrderValid compare)
    rtlInitializeGenericTable
      [.call (.insert 5 100), .call (.insert 3 200)] t ∧
    t.InsertOrderList = [100, 200] ∧ (rtlGetElementGenericTable t 0).2 = some 200 := by
  refine ⟨_, .cons ?_ rfl (.cons ?_ rfl (.nil _)), rfl, rfl⟩
  · exact fun _ => by decide
  · exact fun _ => by decide

end SplayTable

end FreeNT.Rtl
