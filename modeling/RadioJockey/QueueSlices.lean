import RadioJockey.Lib.GoSlice
import RadioJockey.Lib.Transition
import RadioJockey.SessionQueue

/-!
# The slice behind the queue (`session_queue.go`)

`SessionQueue.tracks` is a slice, and `ListQueue` returns it: the caller reads
the live backing array after the lock is released. `Dequeue` moves the offset,
`Enqueue` writes behind the end, and `Remove` shifts the tail inside the array.

* `SliceQueue`: the queue with the slice it is. Its operations are those of
  `SessionQueue` on what the slice shows (`enqueue_refines`, `dequeue_refines`,
  `remove_refines`).
* `listing_torn`: a `Remove` after the call changes what the caller reads.
* `listing_snapshot`: every listing reads as the queue was at the call, when no
  `Enqueue` and no `Remove` writes another track into a cell that it shows.
* `reach_spared`: so it is when no `Remove` comes after a `ListQueue`.
* `kept_iff_spared`: nothing less will do, step by step.
-/

namespace RadioJockey

open GoSlice Transition

/-- The slice of a queue, in the memory that its readers see. -/
structure SliceQueue (T : Type) where
  store : Store T
  tracks : Slice
  valid : tracks.Valid store
  bounded : tracks.len ≤ maxQueueSize

namespace SliceQueue

variable {T : Type}

/-- What `len`, an index or a `range` sees. -/
def contents (q : SliceQueue T) : List T := q.store.read q.tracks

theorem length_contents (q : SliceQueue T) : q.contents.length = q.tracks.len :=
  GoSliceLemmas.length_read q.valid

/-- `ListQueue` copies the header, not the array. -/
def listQueue (q : SliceQueue T) : Slice := q.tracks

def dequeue (q : SliceQueue T) : Except SessionError (T × SliceQueue T) :=
  match h : q.contents with
  | [] => .error .emptyQueueError
  | t :: _ => .ok (t, {
      store := q.store
      tracks := q.tracks.since 1
      valid := q.valid.since (by simp [← q.length_contents, h])
      bounded := Nat.le_trans (Nat.sub_le _ _) q.bounded })

/-- The entries behind `index`, that `Remove` appends to those before it. -/
def tail (q : SliceQueue T) (index : Nat) : List T := q.store.read (q.tracks.since (index + 1))

theorem tail_eq (q : SliceQueue T) (index : Nat) : q.tail index = q.contents.drop (index + 1) :=
  GoSliceLemmas.read_since _ _ _

theorem length_tail (q : SliceQueue T) (index : Nat) :
    (q.tail index).length = q.tracks.len - (index + 1) := by
  rw [tail_eq, List.length_drop, length_contents]

variable [Inhabited T]

def newQueue : SliceQueue T where
  store := (make ⟨[]⟩ maxQueueSize).1
  tracks := (make ⟨[]⟩ maxQueueSize).2
  valid := valid_make _ _
  bounded := Nat.zero_le _

/-- `spare` is what the runtime adds when it allocates a new array. -/
def enqueue (q : SliceQueue T) (t : T) (spare : Nat) : Except SessionError (SliceQueue T) :=
  if h : maxQueueSize ≤ q.tracks.len then .error .fullQueueError
  else .ok {
    store := (append q.store q.tracks [t] spare).1
    tracks := (append q.store q.tracks [t] spare).2
    valid := valid_append q.valid _ _
    bounded := by rw [len_append]; exact Nat.lt_of_not_le h }

theorem bounded_remove (q : SliceQueue T) {index : Nat} (h : ¬ q.tracks.len ≤ index) :
    (append q.store (q.tracks.upto index) (q.tail index) 0).2.len ≤ maxQueueSize := by
  have hlen : index + (q.tracks.len - (index + 1)) ≤ q.tracks.len := by omega
  rw [len_append, length_tail]
  exact Nat.le_trans hlen q.bounded

/-- The array has room, so this `append` never allocates. -/
def remove (q : SliceQueue T) (index : Nat) : Except SessionError (SliceQueue T) :=
  if h : q.tracks.len ≤ index then .error .badIndexError
  else .ok {
    store := (append q.store (q.tracks.upto index) (q.tail index) 0).1
    tracks := (append q.store (q.tracks.upto index) (q.tail index) 0).2
    valid := valid_append (q.valid.upto (Nat.le_of_not_le h)) _ _
    bounded := q.bounded_remove h }

end SliceQueue

/-- The queue after a call: a call that fails leaves it as it was. -/
def afterCall {α : Type} (q : α) : Except SessionError α → α
  | .ok q' => q'
  | .error _ => q

namespace QueueSlices

/-- A call of `ListQueue`: the slice it returned, and the tracks in the queue at
that moment. -/
structure Listing (T : Type) where
  slice : Slice
  held : List T

/-- `spec` is the queue of `SessionQueue`, which sees the same calls. -/
structure State (T : Type) where
  queue : SliceQueue T
  spec : SessionQueue T
  listings : List (Listing T)

inductive Action (T : Type)
  | enqueue (t : T) (spare : Nat)
  | dequeue
  | remove (index : Nat)
  | listQueue

variable {T : Type} [Inhabited T]

def step (s : State T) : Action T → State T
  | .enqueue t spare =>
    { s with
      queue := afterCall s.queue (s.queue.enqueue t spare)
      spec := afterCall s.spec (s.spec.enqueue t) }
  | .dequeue =>
    { s with
      queue := afterCall s.queue (s.queue.dequeue.map Prod.snd)
      spec := afterCall s.spec (s.spec.dequeue.map Prod.snd) }
  | .remove index =>
    { s with
      queue := afterCall s.queue (s.queue.remove index)
      spec := afterCall s.spec (s.spec.remove index) }
  | .listQueue => { s with listings := ⟨s.queue.listQueue, s.spec.listQueue⟩ :: s.listings }

def sliceSystem (T : Type) [Inhabited T] (id : SessionID) (archiveID : Option Int) :
    System (State T) (Action T) where
  init s := s = ⟨.newQueue, .newQueue id archiveID, []⟩
  step s a := some (step s a)

/-- The caller of `ListQueue` reads what the queue held. -/
def Listing.Kept (l : Listing T) (st : Store T) : Prop := st.read l.slice = l.held

/-- The call writes no track into a cell that `r` shows, unless the cell holds that
very track: an `Enqueue` writes the cell behind the end of the queue, a `Remove`
moves each entry behind `index` one cell to the front. -/
def SparesListing (q : SliceQueue T) (r : Slice) : Action T → Prop
  | .enqueue t _ => q.tracks.len < maxQueueSize → Spares q.store q.tracks [t] r
  | .remove index =>
    index < q.tracks.len → Spares q.store (q.tracks.upto index) (q.tail index) r
  | .dequeue | .listQueue => True

instance [DecidableEq T] (q : SliceQueue T) (r : Slice) :
    ∀ a, Decidable (SparesListing q r a)
  | .enqueue _ _ => inferInstanceAs (Decidable (_ → _))
  | .remove _ => inferInstanceAs (Decidable (_ → _))
  | .dequeue | .listQueue => .isTrue trivial

/-- No listing that was handed out is written into. -/
def Spared (s : State T) (a : Action T) : Prop :=
  ∀ l ∈ s.listings, SparesListing s.queue l.slice a

instance [DecidableEq T] (s : State T) (a : Action T) : Decidable (Spared s a) :=
  inferInstanceAs (Decidable (∀ l ∈ s.listings, SparesListing s.queue l.slice a))

end QueueSlices

/-! ## The slice refines the queue -/

/-- The same outcome, and the same tracks in the queue after it. -/
def Agree {T : Type} :
    Except SessionError (SliceQueue T) → Except SessionError (SessionQueue T) → Prop
  | .ok q, .ok spec => q.contents = spec.tracks
  | .error err, .error err' => err = err'
  | _, _ => False

namespace QueueSliceLemmas

variable {T : Type} {q : SliceQueue T} {spec : SessionQueue T}

theorem contents_afterCall {r : Except SessionError (SliceQueue T)}
    {r' : Except SessionError (SessionQueue T)} (h : Agree r r') (hq : q.contents = spec.tracks) :
    (afterCall q r).contents = (afterCall spec r').tracks := by
  cases r <;> cases r'
  · exact hq
  · exact h.elim
  · exact h.elim
  · exact h

theorem len_of_contents (hq : q.contents = spec.tracks) : q.tracks.len = spec.tracks.length := by
  rw [← q.length_contents, hq]

/-- What `Remove` moves to the front, behind what it keeps. -/
theorem read_remove [Inhabited T] (q : SliceQueue T) {index : Nat} (hle : index ≤ q.tracks.len) :
    (append q.store (q.tracks.upto index) (q.tail index) 0).1.read
        (append q.store (q.tracks.upto index) (q.tail index) 0).2 =
      q.contents.take index ++ q.contents.drop (index + 1) := by
  rw [read_append (q.valid.upto hle), GoSliceLemmas.read_upto _ hle, SliceQueue.tail_eq]
  rfl

theorem store_dequeue (q : SliceQueue T) :
    (afterCall q (q.dequeue.map Prod.snd)).store = q.store := by
  unfold SliceQueue.dequeue
  split <;> rfl

end QueueSliceLemmas

open QueueSliceLemmas

theorem enqueue_refines {T : Type} [Inhabited T] {q : SliceQueue T} {spec : SessionQueue T}
    (hq : q.contents = spec.tracks) (t : T) (spare : Nat) :
    Agree (q.enqueue t spare) (spec.enqueue t) := by
  have hlen := len_of_contents hq
  unfold SliceQueue.enqueue SessionQueue.enqueue
  by_cases hle : maxQueueSize ≤ q.tracks.len
  · rw [dif_pos hle, dif_pos (hlen ▸ hle)]
    rfl
  · rw [dif_neg hle, dif_neg (hlen ▸ hle)]
    exact (read_append q.valid [t] spare).trans (congrArg (· ++ [t]) hq)

theorem remove_refines {T : Type} [Inhabited T] {q : SliceQueue T} {spec : SessionQueue T}
    (hq : q.contents = spec.tracks) (index : Nat) :
    Agree (q.remove index) (spec.remove index) := by
  have hlen := len_of_contents hq
  unfold SliceQueue.remove SessionQueue.remove
  by_cases hle : q.tracks.len ≤ index
  · rw [dif_pos hle, if_pos (hlen ▸ hle)]
    rfl
  · rw [dif_neg hle, if_neg (hlen ▸ hle)]
    refine (read_remove q (Nat.le_of_not_le hle)).trans ?_
    rw [hq]

/-- `Dequeue` also returns the same track. -/
theorem dequeue_refines {T : Type} {q : SliceQueue T} {spec : SessionQueue T}
    (hq : q.contents = spec.tracks) :
    q.dequeue.map Prod.fst = spec.dequeue.map Prod.fst ∧
      Agree (q.dequeue.map Prod.snd) (spec.dequeue.map Prod.snd) := by
  obtain ⟨ts, hb, id, notify, events, archiveID⟩ := spec
  unfold SliceQueue.dequeue
  split
  · next h =>
    obtain rfl : ts = [] := hq.symm.trans h
    exact ⟨rfl, rfl⟩
  · next t rest h =>
    obtain rfl : ts = t :: rest := hq.symm.trans h
    refine ⟨rfl, ?_⟩
    show q.store.read (q.tracks.since 1) = rest
    rw [GoSliceLemmas.read_since]
    exact congrArg (List.drop 1) h

namespace QueueSlices

variable {T : Type} [Inhabited T]

/-- The listings are windows of the memory, and the two queues hold the same. -/
structure SliceInv (s : State T) : Prop where
  agree : s.queue.contents = s.spec.tracks
  valid : ∀ l ∈ s.listings, l.slice.Valid s.queue.store

namespace ListingLemmas

theorem agree_step {s : State T} (h : s.queue.contents = s.spec.tracks) (a : Action T) :
    (step s a).queue.contents = (step s a).spec.tracks := by
  cases a with
  | enqueue t spare => exact contents_afterCall (enqueue_refines h t spare) h
  | dequeue => exact contents_afterCall (dequeue_refines h).2 h
  | remove index => exact contents_afterCall (remove_refines h index) h
  | listQueue => exact h

/-- A call leaves a slice a window of the memory, and the slice shows what it did
when the call spares it. -/
theorem read_step {s : State T} {r : Slice} (hr : r.Valid s.queue.store) (a : Action T) :
    r.Valid (step s a).queue.store ∧
      ((step s a).queue.store.read r = s.queue.store.read r ↔ SparesListing s.queue r a) := by
  have hv := s.queue.valid
  cases a with
  | enqueue t spare =>
    simp only [step, SliceQueue.enqueue, SparesListing]
    split
    · next hle => exact ⟨hr, iff_of_true rfl fun hlt => absurd hlt (Nat.not_lt.mpr hle)⟩
    · next hlt =>
      rw [forall_prop_of_true (Nat.lt_of_not_le hlt)]
      exact ⟨hv.append hr _ _, read_append_eq_iff hv hr _ _⟩
  | dequeue =>
    show r.Valid (afterCall s.queue (s.queue.dequeue.map Prod.snd)).store ∧
      ((afterCall s.queue (s.queue.dequeue.map Prod.snd)).store.read r = _ ↔ True)
    rw [store_dequeue]
    exact ⟨hr, iff_of_true rfl trivial⟩
  | remove index =>
    simp only [step, SliceQueue.remove, SparesListing]
    split
    · next hle => exact ⟨hr, iff_of_true rfl fun hlt => absurd hlt (Nat.not_lt.mpr hle)⟩
    · next hlt =>
      have hv := hv.upto (Nat.le_of_not_le hlt)
      rw [forall_prop_of_true (Nat.lt_of_not_le hlt)]
      exact ⟨hv.append hr _ _, read_append_eq_iff hv hr _ _⟩
  | listQueue => exact ⟨hr, iff_of_true rfl trivial⟩

/-- The listings of the state after a step, and which of them are new. -/
theorem mem_listings_step {s : State T} {a : Action T} {l : Listing T}
    (h : l ∈ (step s a).listings) : l ∈ s.listings ∨
      (a = .listQueue ∧ l = ⟨s.queue.listQueue, s.spec.listQueue⟩) := by
  cases a with
  | listQueue => exact (List.mem_cons.mp h).symm.imp id fun h => ⟨rfl, h⟩
  | enqueue t spare => exact .inl h
  | dequeue => exact .inl h
  | remove index => exact .inl h

theorem listings_step {s : State T} {l : Listing T} (h : l ∈ s.listings) (a : Action T) :
    l ∈ (step s a).listings := by
  cases a with
  | listQueue => exact List.mem_cons_of_mem _ h
  | enqueue t spare => exact h
  | dequeue => exact h
  | remove index => exact h

theorem sliceInv_step {s : State T} (hinv : SliceInv s) (a : Action T) : SliceInv (step s a) where
  agree := agree_step hinv.agree a
  valid := by
    intro l hl
    rcases mem_listings_step hl with hl | ⟨rfl, rfl⟩
    · exact (read_step (hinv.valid l hl) a).1
    · exact s.queue.valid

theorem sliceInv_reach {id : SessionID} {archiveID : Option Int}
    {C : State T → Action T → Prop} {s : State T} (h : Reach (sliceSystem T id archiveID) C s) :
    SliceInv s := by
  refine h.invariant ?_ ?_
  · rintro s rfl
    exact ⟨rfl, fun l hl => absurd hl List.not_mem_nil⟩
  · intro s a t _ hinv _ hs
    cases hs
    exact sliceInv_step hinv a

/-- A listing that is made reads as the queue. -/
theorem kept_new {s : State T} (hinv : SliceInv s) :
    Listing.Kept ⟨s.queue.listQueue, s.spec.listQueue⟩ (step s .listQueue).queue.store :=
  hinv.agree

theorem kept_step {s : State T} (hinv : SliceInv s) {a : Action T} (hkept :
    ∀ l ∈ s.listings, l.Kept s.queue.store) (ha : Spared s a) :
    ∀ l ∈ (step s a).listings, l.Kept (step s a).queue.store := by
  intro l hl
  rcases mem_listings_step hl with hl | ⟨rfl, rfl⟩
  · exact ((read_step (hinv.valid l hl) a).2.mpr (ha l hl)).trans (hkept l hl)
  · exact kept_new hinv

end ListingLemmas

open ListingLemmas

/-! ## Listings as snapshots -/

/-- In a run of `Enqueue`s, `Dequeue`s, `Remove`s and `ListQueue`s that write no
other track into a cell that an earlier listing shows, each listing reads, in
every later state, as the queue was when it was made. -/
theorem listing_snapshot {id : SessionID} {archiveID : Option Int} {s : State T}
    (h : Reach (sliceSystem T id archiveID) Spared s) :
    ∀ l ∈ s.listings, s.queue.store.read l.slice = l.held := by
  refine h.invariant (I := fun s => ∀ l ∈ s.listings, l.Kept s.queue.store) ?_ ?_
  · rintro s rfl l hl
    exact absurd hl List.not_mem_nil
  · intro s a t hr hkept ha hs
    cases hs
    exact kept_step (sliceInv_reach hr) hkept ha

/-- A listing survives an `Enqueue` behind it and the `Dequeue` of its first track. -/
theorem listing_snapshot_played : ∃ s, Reach (sliceSystem Nat "a" none) Spared s ∧
    s.spec.tracks = [2, 3] ∧ ∃ l ∈ s.listings, l.held = [1, 2] ∧
      s.queue.store.read l.slice = l.held := by
  obtain ⟨s, hs, hp⟩ := Reach.of_guardedRun (S := sliceSystem Nat "a" none) (C := Spared)
    (p := fun s => s.spec.tracks = [2, 3] ∧ ∃ l ∈ s.listings, l.held = [1, 2])
    [.enqueue 1 0, .enqueue 2 0, .listQueue, .enqueue 3 0, .dequeue]
    (show (sliceSystem Nat "a" none).init ⟨.newQueue, .newQueue "a" none, []⟩ from rfl)
    (by decide +kernel)
  obtain ⟨htracks, l, hl, hheld⟩ := of_decide_eq_true hp
  exact ⟨s, hs, htracks, l, hl, hheld, listing_snapshot hs l hl⟩

/-! ## Runs that remove nothing from a listed queue -/

/-- The first listing comes after the last removal. -/
def RemoveUnlisted (s : State T) : Action T → Prop
  | .remove _ => s.listings = []
  | _ => True

/-- No listing shows a cell behind the end of the queue. -/
def ListedWithin (s : State T) : Prop :=
  ∀ l ∈ s.listings, l.slice.array = s.queue.tracks.array →
    l.slice.off + l.slice.len ≤ s.queue.tracks.off + s.queue.tracks.len

omit [Inhabited T] in
/-- `Enqueue` writes behind the end, where a listing shows nothing. -/
theorem spared_of_removeUnlisted {s : State T} (h : ListedWithin s) {a : Action T}
    (ha : RemoveUnlisted s a) : Spared s a := by
  intro l hl
  cases a with
  | enqueue t spare =>
    rintro - - k - ⟨harray, -, hlt⟩
    have hend := h l hl harray
    omega
  | remove index => exact absurd hl (ha ▸ List.not_mem_nil)
  | dequeue => trivial
  | listQueue => trivial

/-- An `append` on a new array leaves every listing on an older one. -/
theorem listedWithin_step {s : State T} (hinv : SliceInv s) (h : ListedWithin s) {a : Action T}
    (ha : RemoveUnlisted s a) : ListedWithin (step s a) := by
  intro l hl harray
  rcases mem_listings_step hl with hmem | ⟨rfl, rfl⟩
  · cases a with
    | enqueue t spare =>
      simp only [step, SliceQueue.enqueue] at harray ⊢
      split at harray
      · next hle =>
        rw [dif_pos hle]
        exact h l hmem harray
      · next hle =>
        rw [dif_neg hle]
        simp only [afterCall, append] at harray ⊢
        split at harray
        · next hfit =>
          rw [if_pos hfit]
          exact Nat.le_trans (h l hmem harray) (Nat.add_le_add_left (Nat.le_add_right _ _) _)
        · exact absurd (harray ▸ (hinv.valid l hmem).array_lt) (Nat.lt_irrefl _)
    | dequeue =>
      simp only [step, SliceQueue.dequeue] at harray ⊢
      split at harray
      · exact h l hmem harray
      · next t rest hcontents =>
        have hend := h l hmem harray
        have hlen := s.queue.length_contents
        simp only [hcontents, List.length_cons] at hlen
        simp only [Except.map, afterCall, Slice.since]
        omega
    | remove index => exact absurd hmem (ha ▸ List.not_mem_nil)
    | listQueue => exact h l hmem harray
  · exact Nat.le_refl _

/-- A run that removes nothing from a queue that was listed writes into no listing. -/
theorem reach_spared {id : SessionID} {archiveID : Option Int} {s : State T}
    (h : Reach (sliceSystem T id archiveID) RemoveUnlisted s) :
    Reach (sliceSystem T id archiveID) Spared s := by
  have hboth : Reach (sliceSystem T id archiveID) Spared s ∧ ListedWithin s := by
    refine h.invariant (I := fun s => Reach (sliceSystem T id archiveID) Spared s ∧
      ListedWithin s) ?_ ?_
    · rintro s rfl
      exact ⟨.init rfl, fun l hl => absurd hl List.not_mem_nil⟩
    · rintro s a t - ⟨hr, hwithin⟩ ha hs
      refine ⟨.step a hr (spared_of_removeUnlisted hwithin ha) hs, ?_⟩
      cases hs
      exact listedWithin_step (sliceInv_reach hr) hwithin ha
  exact hboth.1

/-- From a state in which every listing reads as it should, a step keeps it so
exactly when it spares the listings. -/
theorem kept_iff_spared {id : SessionID} {archiveID : Option Int} {s : State T}
    (h : Reachable (sliceSystem T id archiveID) s) (hkept : ∀ l ∈ s.listings, l.Kept s.queue.store)
    (a : Action T) :
    (∀ l ∈ (step s a).listings, l.Kept (step s a).queue.store) ↔ Spared s a := by
  have hinv := sliceInv_reach h
  refine ⟨fun h' l hl => ?_, kept_step hinv hkept⟩
  refine (read_step (hinv.valid l hl) a).2.mp ?_
  exact (h' l (listings_step hl a)).trans (hkept l hl).symm

/-- Three tracks are queued and listed, and the second one is removed: the caller
of `ListQueue` reads the third one twice and the second one not at all. -/
theorem listing_torn : ∃ s, Reachable (sliceSystem Nat "a" none) s ∧
    ∃ l ∈ s.listings, l.held = [1, 2, 3] ∧ s.queue.store.read l.slice = [1, 3, 3] := by
  obtain ⟨s, hs, hp⟩ := Reachable.of_run (S := sliceSystem Nat "a" none)
    (p := fun s => s.listings.any fun l =>
      l.held = [1, 2, 3] ∧ s.queue.store.read l.slice = [1, 3, 3])
    [.enqueue 1 0, .enqueue 2 0, .enqueue 3 0, .listQueue, .remove 1]
    (show (sliceSystem Nat "a" none).init ⟨.newQueue, .newQueue "a" none, []⟩ from rfl)
    (by decide +kernel)
  obtain ⟨l, hl, h⟩ := List.any_eq_true.mp hp
  exact ⟨s, hs, l, hl, of_decide_eq_true h⟩

end QueueSlices

end RadioJockey
