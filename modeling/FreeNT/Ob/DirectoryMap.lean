import FreeNT.Ob.Directory

/-!
# Object directories are name maps

`DirHolds` says that the buckets are chains of entries, each in the bucket of
its object's name. The lookup finds a matching entry and makes it the first of
its bucket, which is where the insertion and the deletion work.
-/

namespace FreeNT.Ob

open Rtl List Function

variable {table : WChar → WChar} {nameOf : Nat → List WChar} {d d' : ObjectDirectory} {i e o : Nat}
  {sl : EntrySlot} {xs ys zs : List Nat} {lists : Nat → List Nat} {name : List WChar}
  {caseInsensitive : Bool} {context : LookupContext} {live : List Nat}

/-- The bucket that an entry belongs to by the name of its object. -/
def entryBucket (table : WChar → WChar) (nameOf : Nat → List WChar) (d : ObjectDirectory) (e : Nat) : Nat :=
  bucketOf (hashName table (nameOf (d.Object e)))

/-- Bucket `i` is the chain of the entries `lists i`. -/
structure DirHolds (table : WChar → WChar) (nameOf : Nat → List WChar) (d : ObjectDirectory) (live : List Nat)
    (lists : Nat → List Nat) : Prop where
  chain : ∀ i < 37, Chain id d.ChainLink 0 (d.HashBuckets i) (lists i)
  nodup : ∀ i < 37, (lists i).Nodup
  live : ∀ i < 37, ∀ e ∈ lists i, e ∈ live
  hash : ∀ i < 37, ∀ e ∈ lists i, d.HashValue e = hashName table (nameOf (d.Object e)) ∧
    entryBucket table nameOf d e = i
  distinct : ∀ i < 37, ∀ e ∈ lists i, ∀ e' ∈ lists i, nameOf (d.Object e) = nameOf (d.Object e') → e = e'
  named : ∀ i < 37, ∀ e ∈ lists i, nameOf (d.Object e) ≠ [] ∧ d.Object e ≠ 0

lemma bucketOf_lt (hash : BitVec 32) : bucketOf hash < 37 := Nat.mod_lt _ (by decide)

/-- The first of the entries leaves its place for the head of the chain. -/
lemma moveToFront_chain (hc : Chain id d.ChainLink 0 (d.HashBuckets i) (ys ++ e :: zs))
    (hnd : (ys ++ e :: zs).Nodup) (hs : sl = slotAfter (.bucket i) ys) (hg : d.get sl = e) :
    let d' := moveToFront d sl i
    Chain id d'.ChainLink 0 (d'.HashBuckets i) (e :: (ys ++ zs)) ∧
      (∀ j, j ≠ i → d'.HashBuckets j = d.HashBuckets j) ∧
      (∀ x, x ∉ ys ++ e :: zs → d'.ChainLink x = d.ChainLink x) ∧
      d'.HashValue = d.HashValue ∧ d'.Object = d.Object := by
  rcases eq_nil_or_concat' ys with rfl | ⟨ys', p, rfl⟩
  · rw [hs]
    have hsm : moveToFront d (slotAfter (.bucket i) []) i = d := if_neg (fun h => h rfl)
    rw [hsm]
    exact ⟨hc, fun _ _ => rfl, fun _ _ => rfl, rfl, rfl⟩
  rw [slotAfter_concat] at hs
  subst hs
  have hne : EntrySlot.link p ≠ .bucket i := nofun
  simp only [append_assoc, singleton_append] at hc hnd ⊢
  -- the links: of `p` to what follows `e`, of `e` to the old head
  have hpe : e ≠ p := by
    rintro rfl
    have := (nodup_append.mp hnd).2.1
    simp at this
  have hm : moveToFront d (.link p) i = { d with
        ChainLink := update (update d.ChainLink p (d.ChainLink e)) e (d.HashBuckets i)
        HashBuckets := update d.HashBuckets i e } := by
    unfold moveToFront
    rw [if_pos hne, hg]
    rfl
  rw [hm]
  dsimp only
  refine ⟨⟨?_, ?_⟩, fun j hj => update_of_ne hj _ _, fun x hx => ?_, rfl, rfl⟩
  · rw [update_self]; rfl
  · rw [update_self]
    refine hc.unlink ?_ fun y hy => ?_
    · rw [update_of_ne hpe.symm, update_self]
    have hy' : y ≠ e ∧ y ≠ p := by
      have := nodup_append.mp hnd
      simp only [nodup_cons, mem_cons, mem_append, not_or] at this hy
      obtain ⟨-, ⟨⟨hpe', hpz⟩, hez, -⟩, hd⟩ := this
      rcases hy with hy | hy
      · exact ⟨fun h => hd y hy e (.inr (.inl rfl)) h, fun h => hd y hy p (.inl rfl) h⟩
      · exact ⟨fun h => hez (h ▸ hy), fun h => hpz (h ▸ hy)⟩
    rw [update_of_ne hy'.1, update_of_ne hy'.2]
  · simp only [mem_append, mem_cons, not_or] at hx
    rw [update_of_ne hx.2.2.1, update_of_ne hx.2.1]

/-- A permutation of one bucket, with the other chains and the entries as they were. -/
lemma DirHolds.permute (h : DirHolds table nameOf d live lists) (hi : i < 37) (hp : xs.Perm (lists i))
    (hc : Chain id d'.ChainLink 0 (d'.HashBuckets i) xs)
    (hb : ∀ j, j ≠ i → d'.HashBuckets j = d.HashBuckets j)
    (hln : ∀ x, x ∉ lists i → d'.ChainLink x = d.ChainLink x)
    (hh : d'.HashValue = d.HashValue) (ho : d'.Object = d.Object) :
    DirHolds table nameOf d' live (update lists i xs) := by
  have hl : ∀ j e, e ∈ update lists i xs j ↔ e ∈ lists j := by
    intro j e
    by_cases hj : j = i
    · rw [hj, update_self]; exact hp.mem_iff
    · rw [update_of_ne hj]
  refine ⟨fun j hj => ?_, fun j hj => ?_, fun j hj e he => h.live j hj e ((hl j e).mp he),
    fun j hj e he => ?_, fun j hj e he e' he' => ?_, fun j hj e he => ?_⟩
  · by_cases hji : j = i
    · rw [hji, update_self]; exact hc
    rw [update_of_ne hji, hb j hji]
    refine (h.chain j hj).congr fun e he => hln e fun hei => hji ?_
    rw [← (h.hash j hj e he).2, (h.hash i hi e hei).2]
  · by_cases hji : j = i
    · rw [hji, update_self]; exact hp.nodup_iff.mpr (h.nodup i hi)
    · rw [update_of_ne hji]; exact h.nodup j hj
  · rw [hh, entryBucket, ho]
    exact h.hash j hj e ((hl j e).mp he)
  · rw [ho]
    exact h.distinct j hj e ((hl j e).mp he) e' ((hl j e').mp he')
  · rw [ho]
    exact h.named j hj e ((hl j e).mp he)

/-- The pool gives entries that are 32-bit addresses. -/
def PoolOk (live : List Nat) : Prop := ∀ e ∈ live, e ≠ 0 ∧ e < 2 ^ 32

section

variable (h : DirHolds table nameOf d live lists)

include h

lemma DirHolds.length_lt (hp : PoolOk live) (hi : i < 37) : (lists i).length < maxEntries := by
  have hnd : (0 :: lists i).Nodup := nodup_cons.mpr ⟨fun h0 => (hp 0 (h.live i hi 0 h0)).1 rfl, h.nodup i hi⟩
  have hs : 0 :: lists i ⊆ range (2 ^ 32) := by
    intro e he
    rcases mem_cons.mp he with rfl | he
    · exact mem_range.mpr (by decide)
    · exact mem_range.mpr (hp e (h.live i hi e he)).2
  have := hnd.length_le_of_subset hs
  rw [length_range, length_cons] at this
  exact this

/-- On an entry of the directory the test of the lookup is the comparison of names. -/
lemma DirHolds.matches_iff (hi : i < 37) (he : e ∈ lists i) : entryMatches table nameOf d name caseInsensitive e ↔
      rtlEqualUnicodeString table name (nameOf (d.Object e)) caseInsensitive := by
  unfold entryMatches
  rw [(h.hash i hi e he).1]
  simp only [Bool.and_eq_true, beq_iff_eq]
  constructor
  · exact fun hm => hm.2.2
  intro hm
  refine ⟨(hashName_of_equal hm).symm, ?_, hm⟩
  simpa using congrArg length (equalString_iff.mp hm)

/-- A name that matches is in the bucket that the lookup walks. -/
lemma DirHolds.bucket_of_equal (hi : i < 37) (he : e ∈ lists i)
    (hm : rtlEqualUnicodeString table name (nameOf (d.Object e)) caseInsensitive) :
    i = bucketOf (hashName table name) := by
  rw [hashName_of_equal hm, ← (h.hash i hi e he).2, entryBucket]

/-- The lookup leaves the entries where they are, up to their order, and finds a
match, which is then the first of its bucket, exactly if there is one. -/
lemma lookup_spec (hpl : PoolOk live) :
    ∃ d' context' lists', obpLookupEntryDirectory table nameOf d context name caseInsensitive =
        some (d', context') ∧ DirHolds table nameOf d' live lists' ∧ d'.Object = d.Object ∧
      (∀ i < 37, ∀ e, e ∈ lists' i ↔ e ∈ lists i) ∧
      ((∃ e r, context'.HashIndex < 37 ∧ lists' context'.HashIndex = e :: r ∧ context'.Object = d.Object e ∧
          rtlEqualUnicodeString table name (nameOf (d.Object e)) caseInsensitive) ∨
        (context'.Object = 0 ∧ (name ≠ [] → context'.HashValue = hashName table name ∧
          context'.HashIndex = bucketOf (hashName table name)) ∧
          ∀ i < 37, ∀ e ∈ lists i,
            rtlEqualUnicodeString table name (nameOf (d.Object e)) caseInsensitive = false)) := by
  unfold obpLookupEntryDirectory
  by_cases hn : name = []
  · refine ⟨_, _, lists, if_pos hn, h, rfl, fun _ _ _ => Iff.rfl,
      .inr ⟨rfl, fun hne => absurd hn hne, fun i hi e he => ?_⟩⟩
    by_contra hm
    exact ne_nil_of_equal (Bool.not_eq_false _ ▸ hm) (h.named i hi e he).1 hn
  rw [if_neg hn]
  have hi := bucketOf_lt (hashName table name)
  have hnz : ∀ e ∈ lists (bucketOf (hashName table name)), e ≠ 0 := fun e he => (hpl e (h.live _ hi e he)).1
  have hc : Chain id d.ChainLink 0 (d.get (.bucket (bucketOf (hashName table name)))) (lists _) := h.chain _ hi
  dsimp only
  rcases lookupLoop_spec hc hnz (h.length_lt hpl hi) with
    ⟨hl, hen, hno⟩ | ⟨ys, e, zs, hxs, hf, hl, hg⟩
  · rw [hl]
    refine ⟨d, _, lists, if_pos hen, h, rfl, fun _ _ _ => Iff.rfl, .inr ⟨rfl, fun _ => ⟨rfl, rfl⟩, ?_⟩⟩
    intro i hi' e he
    by_contra hm
    have hm : rtlEqualUnicodeString table name (nameOf (d.Object e)) caseInsensitive := Bool.not_eq_false _ ▸ hm
    have hb := h.bucket_of_equal hi' he hm
    rw [hb] at he
    have := (h.matches_iff hi he).mpr hm
    rw [hno e he] at this
    cases this
  · rw [hl]
    have he : e ∈ lists (bucketOf (hashName table name)) := by rw [hxs]; simp
    have hch := h.chain _ hi
    have hnd := h.nodup _ hi
    rw [hxs] at hch hnd
    obtain ⟨hfr, hbc, hln, hh, ho⟩ := moveToFront_chain hch hnd rfl hg
    have hp : (e :: (ys ++ zs)).Perm (lists (bucketOf (hashName table name))) := by
      rw [hxs]; exact perm_middle.symm
    rw [← hxs] at hln
    refine ⟨_, _, _, if_neg (by rw [hg]; exact hnz e he), h.permute hi hp hfr hbc hln hh ho, ho, ?_,
      .inl ⟨e, ys ++ zs, hi,
        update_self _ _ _, congrArg d.Object hg, (h.matches_iff hi he).mp hf⟩⟩
    intro j _ x
    by_cases hj : j = bucketOf (hashName table name)
    · rw [hj, update_self]; exact hp.mem_iff
    · rw [update_of_ne hj]

end

lemma insert_spec {ob ne : Nat} (h : DirHolds table nameOf d live lists)
    (hnw : ne ≠ 0) (hf : ne ∉ live) (hct : context.Object = 0)
    (hh : context.HashValue = hashName table (nameOf ob))
    (hid : context.HashIndex = bucketOf (hashName table (nameOf ob)))
    (hn : nameOf ob ≠ [] ∧ ob ≠ 0)
    (ha : ∀ i < 37, ∀ e ∈ lists i, nameOf (d.Object e) ≠ nameOf ob) :
    ∃ d', obpInsertEntryDirectory d context ob ne = some (d', true) ∧ DirHolds table nameOf d' (ne :: live)
        (update lists context.HashIndex (ne :: lists context.HashIndex)) ∧
      d'.Object ne = ob ∧ ∀ i < 37, ∀ e ∈ lists i, d'.Object e = d.Object e := by
  have hi : context.HashIndex < 37 := by rw [hid]; exact bucketOf_lt _
  have hne : ∀ i < 37, ∀ e ∈ lists i, e ≠ ne := by
    rintro i hi e he rfl
    exact hf (h.live i hi e he)
  unfold obpInsertEntryDirectory
  rw [if_neg (not_not.mpr hct), if_neg hnw]
  refine ⟨_, rfl, ?_, update_self _ _ _, fun i hi e he => update_of_ne (hne i hi e he) _ _⟩
  -- every entry of the new lists is the new one or an old one of the same bucket
  have hc : ∀ j, ∀ e ∈ update lists context.HashIndex (ne :: lists context.HashIndex) j,
      (j = context.HashIndex ∧ e = ne) ∨ e ∈ lists j := by
    intro j e he
    by_cases hj : j = context.HashIndex
    · rw [hj, update_self] at he
      rcases mem_cons.mp he with rfl | he
      · exact .inl ⟨hj, rfl⟩
      · exact .inr (hj ▸ he)
    · rw [update_of_ne hj] at he
      exact .inr he
  have ho : ∀ j < 37, ∀ e ∈ lists j, update d.Object ne ob e = d.Object e :=
    fun j hj e he => update_of_ne (hne j hj e he) _ _
  have hsl : update d.Object ne ob ne = ob := update_self _ _ _
  refine ⟨fun j hj => ?_, fun j hj => ?_, fun j hj e he => ?_, fun j hj e he => ?_, fun j hj e he e' he' => ?_,
    fun j hj e he => ?_⟩
  · show Chain id (update d.ChainLink ne _) 0 (update d.HashBuckets _ ne j) _
    have hk := (h.chain j hj).congr fun e he =>
      update_of_ne (hne j hj e he) (d.HashBuckets context.HashIndex) d.ChainLink
    by_cases hji : j = context.HashIndex
    · subst hji
      rw [update_self, update_self]
      refine ⟨rfl, ?_⟩
      rw [update_self]
      exact hk
    · rw [update_of_ne hji, update_of_ne hji]
      exact hk
  · by_cases hji : j = context.HashIndex
    · rw [hji, update_self]
      exact nodup_cons.mpr ⟨fun hm => hne _ hi _ hm rfl, h.nodup _ hi⟩
    · rw [update_of_ne hji]; exact h.nodup j hj
  · rcases hc j e he with ⟨-, rfl⟩ | he
    · exact mem_cons_self
    · exact mem_cons_of_mem _ (h.live j hj e he)
  · show update d.HashValue ne _ e = hashName table (nameOf (update d.Object _ _ e)) ∧
      bucketOf (hashName table (nameOf (update d.Object _ _ e))) = j
    rcases hc j e he with ⟨rfl, rfl⟩ | he
    · rw [update_self, hsl]
      exact ⟨hh, hid.symm⟩
    · rw [update_of_ne (hne j hj e he), ho j hj e he]
      exact h.hash j hj e he
  · show nameOf (update d.Object _ _ e) = nameOf (update d.Object _ _ e') → e = e'
    intro hs
    rcases hc j e he with ⟨-, hnw⟩ | he <;> rcases hc j e' he' with ⟨-, hnw'⟩ | he'
    · rw [hnw, hnw']
    · rw [hnw, hsl, ho j hj e' he'] at hs
      exact absurd hs.symm (ha j hj e' he')
    · rw [hnw', hsl, ho j hj e he] at hs
      exact absurd hs (ha j hj e he)
    · rw [ho j hj e he, ho j hj e' he'] at hs
      exact h.distinct j hj e he e' he' hs
  show nameOf (update d.Object _ _ e) ≠ [] ∧ update d.Object _ _ e ≠ 0
  rcases hc j e he with ⟨-, rfl⟩ | he
  · rw [hsl]; exact hn
  · rw [ho j hj e he]; exact h.named j hj e he

lemma delete_spec {r : List Nat} (h : DirHolds table nameOf d live lists) (hp : PoolOk live)
    (hi : context.HashIndex < 37) (hl : lists context.HashIndex = e :: r) :
    ∃ d', obpDeleteEntryDirectory d context = some (d', e) ∧
      DirHolds table nameOf d' (live.erase e) (update lists context.HashIndex r) ∧
      d'.Object = d.Object := by
  have hc := h.chain _ hi
  have hnd := h.nodup _ hi
  have he : e ∈ lists context.HashIndex := by rw [hl]; exact mem_cons_self
  rw [hl] at hc hnd
  have hh : d.HashBuckets context.HashIndex = e := hc.1
  have hr : e ∉ r := (nodup_cons.mp hnd).1
  have hs : ∀ j, ∀ x ∈ update lists context.HashIndex r j, x ∈ lists j := by
    intro j x hx
    by_cases hj : j = context.HashIndex
    · rw [hj, update_self] at hx
      rw [hj, hl]; exact mem_cons_of_mem _ hx
    · rwa [update_of_ne hj] at hx
  have hne : ∀ j < 37, ∀ x ∈ update lists context.HashIndex r j, x ≠ e := by
    rintro j hj x hx rfl
    have hb : j = context.HashIndex := by rw [← (h.hash j hj x (hs j x hx)).2, (h.hash _ hi x he).2]
    rw [hb, update_self] at hx
    exact hr hx
  unfold obpDeleteEntryDirectory
  rw [hh]
  refine ⟨_, if_neg (hp e (h.live _ hi e he)).1, ⟨fun j hj => ?_, fun j hj => ?_, fun j hj x hx => ?_,
    fun j hj x hx => h.hash j hj x (hs j x hx),
    fun j hj x hx x' hx' => h.distinct j hj x (hs j x hx) x' (hs j x' hx'),
    fun j hj x hx => h.named j hj x (hs j x hx)⟩, rfl⟩
  · show Chain id (update d.ChainLink e 0) 0 (update d.HashBuckets _ (d.ChainLink e) j) _
    by_cases hji : j = context.HashIndex
    · subst hji
      rw [update_self, update_self]
      exact hc.2.congr fun x hx => update_of_ne (ne_of_mem_of_not_mem hx hr) _ _
    rw [update_of_ne hji, update_of_ne hji]
    refine (h.chain j hj).congr fun x hx => update_of_ne ?_ _ _
    exact hne j hj x (by rw [update_of_ne hji]; exact hx)
  · by_cases hji : j = context.HashIndex
    · rw [hji, update_self]; exact (nodup_cons.mp hnd).2
    · rw [update_of_ne hji]; exact h.nodup j hj
  · exact (mem_erase_of_ne (hne j hj x hx)).mpr (h.live j hj x (hs j x hx))

/-! ## Runs -/

/-- The directory with what a run needs to be told: the pool blocks in use, the
objects inserted and not yet deleted, and the lookup made right before. -/
structure DirState where
  dir : ObjectDirectory
  context : LookupContext
  live : List Nat
  held : List Nat
  last : Option (List WChar × Nat)

inductive DirCall
  | lookup (name : List WChar) (caseInsensitive : Bool)
  | insert (object newEntry : Nat)
  | delete

/-- The object that the lookup right before found. -/
def DirState.found (s : DirState) : Nat := (s.last.map Prod.snd).getD 0

def dirStep (table : WChar → WChar) (nameOf : Nat → List WChar) (s : DirState) : DirCall → Option DirState
  | .lookup name caseInsensitive =>
    (obpLookupEntryDirectory table nameOf s.dir s.context name caseInsensitive).map fun (d, context) =>
      { s with dir := d, context := context, last := some (name, context.Object) }
  | .insert object newEntry =>
    (obpInsertEntryDirectory s.dir s.context object newEntry).map fun (d, inserted) =>
      { s with
        dir := d
        live := if inserted then newEntry :: s.live else s.live
        held := if inserted then object :: s.held else s.held
        last := none }
  | .delete =>
    (obpDeleteEntryDirectory s.dir s.context).map fun (d, entry) =>
      { s with dir := d, live := s.live.erase entry, held := s.held.erase s.found, last := none }

/-- Insertions of an object whose name was looked up right before and not found,
with a name that is not empty and an entry from the pool, and deletions after a
lookup that found something. -/
def DirOk (nameOf : Nat → List WChar) (s : DirState) : DirCall → Prop
  | .lookup _ _ => True
  | .insert object newEntry => s.last = some (nameOf object, 0) ∧ object ≠ 0 ∧ nameOf object ≠ [] ∧
    (newEntry ≠ 0 → newEntry < 2 ^ 32 ∧ newEntry ∉ s.live)
  | .delete => s.found ≠ 0

def emptyDirectory : ObjectDirectory where
  HashBuckets := fun _ => 0
  ChainLink := fun _ => 0
  HashValue := fun _ => 0
  Object := fun _ => 0

def dirInit : DirState := ⟨emptyDirectory, ⟨0, 0, 0⟩, [], [], none⟩

/-- What the lookup right before has left for the next call. -/
def LastOk (table : WChar → WChar) (nameOf : Nat → List WChar) (s : DirState) (lists : Nat → List Nat) : Prop :=
  ∀ name o, s.last = some (name, o) → o = s.context.Object ∧
    (o = 0 → (name ≠ [] → s.context.HashValue = hashName table name ∧
        s.context.HashIndex = bucketOf (hashName table name)) ∧ ∀ x ∈ s.held, nameOf x ≠ name) ∧
    (o ≠ 0 → s.context.HashIndex < 37 ∧ ∃ e rest, lists s.context.HashIndex = e :: rest ∧ s.dir.Object e = o)

structure DirInv (table : WChar → WChar) (nameOf : Nat → List WChar) (s : DirState) (lists : Nat → List Nat) :
    Prop where
  holds : DirHolds table nameOf s.dir s.live lists
  pool : PoolOk s.live
  held : ∀ o, o ∈ s.held ↔ ∃ i < 37, ∃ e ∈ lists i, s.dir.Object e = o
  names : (s.held.map nameOf).Nodup
  last : LastOk table nameOf s lists

variable {s s' : DirState}

lemma dirInit_inv : DirInv table nameOf dirInit fun _ => [] where
  holds := ⟨fun _ _ => rfl, fun _ _ => nodup_nil, nofun, nofun, nofun, nofun⟩
  pool := nofun
  held := fun _ => ⟨nofun, fun ⟨_, _, _, he, _⟩ => absurd he not_mem_nil⟩
  names := nodup_nil
  last := nofun

/-- What a lookup returns: an object that is held and matches, or NULL and no
object that is held matches. -/
def LookupCorrect (table : WChar → WChar) (nameOf : Nat → List WChar) (held : List Nat) (name : List WChar)
    (caseInsensitive : Bool) (o : Nat) : Prop :=
  (o ∈ held ∧ o ≠ 0 ∧ rtlEqualUnicodeString table name (nameOf o) caseInsensitive = true) ∨
    (o = 0 ∧ ∀ x ∈ held, rtlEqualUnicodeString table name (nameOf x) caseInsensitive = false)

lemma lookup_step (h : DirInv table nameOf s lists) (name : List WChar) (caseInsensitive : Bool) :
    ∃ s' lists', dirStep table nameOf s (.lookup name caseInsensitive) = some s' ∧
      DirInv table nameOf s' lists' ∧ s'.held = s.held ∧
      LookupCorrect table nameOf s.held name caseInsensitive s'.found := by
  obtain ⟨d', context', lists', hrn, hh, hob, hls, hr⟩ :=
    @lookup_spec table nameOf s.dir lists name caseInsensitive s.context s.live h.holds h.pool
  have hhl : ∀ o, o ∈ s.held ↔ ∃ i < 37, ∃ e ∈ lists' i, d'.Object e = o := by
    intro o
    rw [h.held o, hob]
    refine exists_congr fun i => and_congr_right fun hi => exists_congr fun e => ?_
    rw [hls i hi e]
  refine ⟨{ s with dir := d', context := context', last := some (name, context'.Object) }, lists',
    by rw [dirStep, hrn]; rfl, ⟨hh, h.pool, hhl, h.names, ?_⟩, rfl, ?_⟩
  swap
  · show LookupCorrect table nameOf s.held name caseInsensitive context'.Object
    rcases hr with ⟨e, r, hi, hl, hf, hm⟩ | ⟨h0, -, hn⟩
    · have he : e ∈ lists context'.HashIndex := (hls _ hi e).mp (by rw [hl]; exact mem_cons_self)
      rw [hf]
      exact .inl ⟨(h.held _).mpr ⟨_, hi, e, he, rfl⟩, (h.holds.named _ hi e he).2, hm⟩
    refine .inr ⟨h0, fun x hx => ?_⟩
    obtain ⟨i, hi, e, he, rfl⟩ := (h.held x).mp hx
    exact hn i hi e he
  intro name' o hla
  obtain ⟨rfl, rfl⟩ : name = name' ∧ context'.Object = o := by simpa using hla
  refine ⟨rfl, fun ho => ?_, fun ho => ?_⟩
  · rcases hr with ⟨e, r, hi, hl, hf, -⟩ | ⟨-, hhs, hn⟩
    · have he : e ∈ lists' context'.HashIndex := by rw [hl]; exact mem_cons_self
      exact absurd (hf.symm.trans ho) (h.holds.named _ hi e ((hls _ hi e).mp he)).2
    refine ⟨hhs, fun x hx hnm => ?_⟩
    obtain ⟨i, hi, e, he, rfl⟩ := (h.held x).mp hx
    have := hn i hi e he
    rw [hnm, equalString_iff.mpr rfl] at this
    cases this
  · rcases hr with ⟨e, r, hi, hl, hf, -⟩ | ⟨h0, -, -⟩
    · exact ⟨hi, e, r, hl, (congrFun hob e).trans hf.symm⟩
    · exact absurd h0 ho

lemma insert_step {ob ne : Nat} (h : DirInv table nameOf s lists) (hok : DirOk nameOf s (.insert ob ne)) :
    ∃ s' lists', dirStep table nameOf s (.insert ob ne) = some s' ∧ DirInv table nameOf s' lists' := by
  obtain ⟨hl, hob, hn, hen⟩ := hok
  obtain ⟨hc, ha, -⟩ := h.last _ _ hl
  obtain ⟨hh, ha⟩ := ha rfl
  obtain ⟨hh, hid⟩ := hh hn
  by_cases hnw : ne = 0
  · refine ⟨{ s with last := none }, lists, ?_, h.holds, h.pool, h.held, h.names, nofun⟩
    rw [dirStep, obpInsertEntryDirectory, if_neg (not_not.mpr hc.symm), if_pos hnw]
    rfl
  obtain ⟨hlt, hf⟩ := hen hnw
  have hno : ∀ i < 37, ∀ e ∈ lists i, nameOf (s.dir.Object e) ≠ nameOf ob :=
    fun i hi e he => ha _ ((h.held _).mpr ⟨i, hi, e, he, rfl⟩)
  obtain ⟨d', hr, hhl, hs, ho⟩ := insert_spec h.holds hnw hf hc.symm hh hid ⟨hn, hob⟩ hno
  have hi : s.context.HashIndex < 37 := by rw [hid]; exact bucketOf_lt _
  refine ⟨{ s with dir := d', live := ne :: s.live, held := ob :: s.held, last := none }, _,
    by rw [dirStep, hr]; rfl, hhl, ?_, fun o => ?_, ?_, nofun⟩
  · exact forall_mem_cons.mpr ⟨⟨hnw, hlt⟩, h.pool⟩
  · show o ∈ ob :: s.held ↔ _
    rw [mem_cons, h.held o]
    constructor
    · rintro (rfl | ⟨i, hi', e, he, rfl⟩)
      · refine ⟨_, hi, ne, ?_, hs⟩
        rw [update_self]; exact mem_cons_self
      refine ⟨i, hi', e, ?_, ho i hi' e he⟩
      by_cases hj : i = s.context.HashIndex
      · subst hj
        rw [update_self]; exact mem_cons_of_mem _ he
      · rw [update_of_ne hj]; exact he
    rintro ⟨i, hi', e, he, rfl⟩
    by_cases hj : i = s.context.HashIndex
    · subst hj
      rw [update_self] at he
      rcases mem_cons.mp he with rfl | he
      · exact .inl hs
      · exact .inr ⟨_, hi', e, he, (ho _ hi' e he).symm⟩
    · rw [update_of_ne hj] at he
      exact .inr ⟨i, hi', e, he, (ho i hi' e he).symm⟩
  · show ((ob :: s.held).map nameOf).Nodup
    refine nodup_cons.mpr ⟨fun hm => ?_, h.names⟩
    obtain ⟨x, hx, hxn⟩ := mem_map.mp hm
    exact ha x hx hxn

lemma delete_step (h : DirInv table nameOf s lists) (hok : DirOk nameOf s .delete) :
    ∃ s' lists', dirStep table nameOf s .delete = some s' ∧ DirInv table nameOf s' lists' := by
  obtain ⟨name, hla⟩ : ∃ name, s.last = some (name, s.found) := by
    unfold DirOk at hok
    unfold DirState.found at hok ⊢
    cases hl : s.last with
    | none => rw [hl] at hok; exact absurd rfl hok
    | some p => exact ⟨p.1, rfl⟩
  obtain ⟨-, -, hf⟩ := h.last _ _ hla
  obtain ⟨hi, e, r, hls, hob⟩ := hf hok
  obtain ⟨d', hr, hh, ho⟩ := delete_spec h.holds h.pool hi hls
  have he : e ∈ lists s.context.HashIndex := by rw [hls]; exact mem_cons_self
  have hnd : s.held.Nodup := h.names.of_map
  refine ⟨{ s with dir := d', live := s.live.erase e, held := s.held.erase s.found, last := none }, _,
    by rw [dirStep, hr]; rfl, hh, fun x hx => h.pool x (mem_of_mem_erase hx), fun o => ?_, ?_, nofun⟩
  swap
  · exact (erase_sublist.map nameOf).nodup h.names
  show o ∈ s.held.erase s.found ↔ _
  rw [hnd.mem_erase_iff, h.held o, ho, ← hob]
  constructor
  · rintro ⟨hne, i, hi', x, hx, rfl⟩
    refine ⟨i, hi', x, ?_, rfl⟩
    by_cases hj : i = s.context.HashIndex
    · subst hj
      rw [update_self]
      rw [hls] at hx
      exact (mem_cons.mp hx).resolve_left fun hxe => hne (congrArg _ hxe)
    · rw [update_of_ne hj]; exact hx
  rintro ⟨i, hi', x, hx, rfl⟩
  by_cases hj : i = s.context.HashIndex
  swap
  · rw [update_of_ne hj] at hx
    refine ⟨fun hs => hj ?_, i, hi', x, hx, rfl⟩
    rw [← (h.holds.hash i hi' x hx).2, ← (h.holds.hash _ hi e he).2, entryBucket, entryBucket, hs]
  subst hj
  rw [update_self] at hx
  have hx' : x ∈ lists s.context.HashIndex := by rw [hls]; exact mem_cons_of_mem _ hx
  refine ⟨fun hs => ?_, _, hi', x, hx', rfl⟩
  have hxe := h.holds.distinct _ hi' x hx' e he (congrArg nameOf hs)
  have := h.holds.nodup _ hi'
  rw [hls] at this
  exact (nodup_cons.mp this).1 (hxe ▸ hx)

lemma dirStep_inv {c : DirCall} (h : DirInv table nameOf s lists) (hok : DirOk nameOf s c) :
    ∃ s' lists', dirStep table nameOf s c = some s' ∧ DirInv table nameOf s' lists' := by
  cases c with
  | lookup name caseInsensitive =>
    obtain ⟨s', lists', hs, hin, -⟩ := lookup_step h name caseInsensitive
    exact ⟨s', lists', hs, hin⟩
  | insert ob ne => exact insert_step h hok
  | delete => exact delete_step h hok

/-- The objects in the buckets. -/
def contents (d : ObjectDirectory) (lists : Nat → List Nat) : List Nat :=
  (List.range 37).flatMap fun i => (lists i).map d.Object

lemma DirInv.contents_perm (h : DirInv table nameOf s lists) : (contents s.dir lists).Perm s.held := by
  have hm : ∀ o, o ∈ contents s.dir lists ↔ o ∈ s.held := by
    intro o
    rw [h.held o]
    simp [contents, mem_flatMap, mem_range, mem_map]
  refine (perm_ext_iff_of_nodup ?_ h.names.of_map).mpr hm
  refine nodup_flatMap.mpr ⟨fun i hi => ?_, ?_⟩
  · have hi := mem_range.mp hi
    exact (h.holds.nodup i hi).map_on fun x hx y hy hxy => h.holds.distinct i hi x hx y hy (congrArg nameOf hxy)
  refine (nodup_range.pairwise_of_forall_ne fun i hi j hj hij => ?_)
  intro o ho ho'
  obtain ⟨e, he, rfl⟩ := mem_map.mp ho
  obtain ⟨e', he', heq⟩ := mem_map.mp ho'
  refine hij ?_
  rw [← (h.holds.hash i (mem_range.mp hi) e he).2, ← (h.holds.hash j (mem_range.mp hj) e' he').2,
    entryBucket, entryBucket, heq]

/-- In every run of lookups, of insertions of objects with a name that is not empty
and was looked up right before and not found, and of deletions after a lookup
that found something: the buckets are chains of entries for exactly the objects
inserted and not deleted, no two have the same name, every call can be made, and
a lookup returns a held object that matches, if there is one, and NULL if not. A
deletion takes the object found right before from `held`, and so from the buckets. -/
theorem directory_is_name_map (table : WChar → WChar) (nameOf : Nat → List WChar) {calls : List DirCall}
    (hrun : Run (dirStep table nameOf) (DirOk nameOf) dirInit calls s) :
    (∃ lists, (∀ i < 37, Chain id s.dir.ChainLink 0 (s.dir.HashBuckets i) (lists i)) ∧
      (contents s.dir lists).Perm s.held) ∧
    (s.held.map nameOf).Nodup ∧
    (∀ call, DirOk nameOf s call → ∃ s', dirStep table nameOf s call = some s') ∧
    ∀ name caseInsensitive, ∃ s', dirStep table nameOf s (.lookup name caseInsensitive) = some s' ∧
      s'.held = s.held ∧ LookupCorrect table nameOf s.held name caseInsensitive s'.found := by
  obtain ⟨lists, h⟩ : ∃ lists, DirInv table nameOf s lists := by
    refine hrun.invariant (fun s => ∃ lists, DirInv table nameOf s lists) ?_ ⟨_, dirInit_inv⟩
    rintro s call s' ⟨lists, h⟩ hok hs
    obtain ⟨s'', lists', hs', hin⟩ := dirStep_inv h hok
    rw [hs, Option.some.injEq] at hs'
    exact ⟨lists', hs' ▸ hin⟩
  refine ⟨⟨lists, h.holds.chain, h.contents_perm⟩, h.names, fun call hok => ?_, fun name caseInsensitive => ?_⟩
  · obtain ⟨s', -, hs, -⟩ := dirStep_inv h hok
    exact ⟨s', hs⟩
  · obtain ⟨s', -, hs, -, hh, hc⟩ := lookup_step h name caseInsensitive
    exact ⟨s', hs, hh, hc⟩

theorem directory_is_name_map_one : ∃ s, Run (dirStep (fun _ => 0) fun _ => [0x41]) (DirOk fun _ => [0x41]) dirInit
    [.lookup [0x61] true, .lookup [0x41] false, .insert 1 8] s ∧ s.held = [1] ∧
    ∃ s', dirStep (fun _ => 0) (fun _ => [0x41]) s (.lookup [0x61] true) = some s' ∧
      LookupCorrect (fun _ => 0) (fun _ => [0x41]) s.held [0x61] true s'.found := by
  obtain ⟨s, hr, hh⟩ : ∃ s, Run (dirStep (fun _ => 0) fun _ => [0x41]) (DirOk fun _ => [0x41]) dirInit
      [.lookup [0x61] true, .lookup [0x41] false, .insert 1 8] s ∧ s.held = [1] :=
    ⟨_, .cons trivial rfl (.cons trivial rfl
      (.single ⟨rfl, by decide, nofun, fun _ => ⟨by decide, nofun⟩⟩ rfl)), rfl⟩
  obtain ⟨-, -, -, hl⟩ := directory_is_name_map _ _ hr
  obtain ⟨s', hs, -, hc⟩ := hl [0x61] true
  exact ⟨s, hr, hh, s', hs, hc⟩

/-- The empty name is never found, and the context then has the bucket of an
earlier lookup: an object without a name can be inserted, and is not found. -/
theorem directory_is_name_map_empty_name : ∃ s₁ s₂ s₃,
    dirStep (fun _ => 0) (fun _ => []) dirInit (.lookup [] false) = some s₁ ∧ s₁.last = some ([], 0) ∧
    dirStep (fun _ => 0) (fun _ => []) s₁ (.insert 1 8) = some s₂ ∧ s₂.held = [1] ∧
    dirStep (fun _ => 0) (fun _ => []) s₂ (.lookup [] false) = some s₃ ∧ s₃.found = 0 ∧
    ¬ LookupCorrect (fun _ => 0) (fun _ => []) s₂.held [] false s₃.found := by
  refine ⟨_, _, _, rfl, rfl, rfl, rfl, rfl, rfl, ?_⟩
  rintro (⟨-, h, -⟩ | ⟨-, h⟩)
  · exact h rfl
  · exact absurd (h 1 mem_cons_self) (by decide)

end FreeNT.Ob
