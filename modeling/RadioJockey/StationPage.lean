import RadioJockey.Lib.Pointwise
import RadioJockey.Playback
import RadioJockey.QueueSlices
import RadioJockey.SessionManager

/-!
# Removing a track on the station page (`stations/[sessionId]/+page.svelte`, `rpc.go`)

The page shows the last listing that has arrived, and removes a track by its
place in it. By the time the request gets to the server, the queue has moved on.
`ListQueue` reads the slice of the queue without its lock, cell by cell, so the
listing need not even be what the queue held at any one time. Each handler asks
the registry for the queue of the id first, and when the session is deleted and
created again in between, the id has another queue than the one that was listed.

* `removes_behind`: in every run, whatever the other clients and the stream do,
  a removal from the queue that was listed hits the track that was clicked or one
  that was enqueued after it. A removal never hits the head of its queue. What is
  shown at a place was enqueued no later than what stands there in the queue that
  was listed.
-/

namespace RadioJockey.StationPage

open Transition GoSlice Pointwise Playback

/-- What a new array is filled with. -/
instance : Inhabited Entry := ⟨⟨0, song 0⟩⟩

/-- A `ListQueue` handler in its loop: its queue, the slice that it ranges over,
and the tracks that it has read so far. -/
structure Listing where
  queue : QueueRef
  slice : Slice
  protoTracks : List Entry

/-- The page does not know the queue that the tracks were read from. -/
structure ListQueueResponse where
  queue : QueueRef
  tracks : List Entry

/-- A `removeTrack` request, with what was shown when the button was clicked, and
the queue that its handler has got. -/
structure Request where
  index : Nat
  shown : ListQueueResponse
  queue : Option QueueRef

/-- A request that has removed an entry, and the head of the queue before. -/
structure Removal where
  request : Request
  entry : Entry
  head : Option Entry

/-- `queues` are those that the id has had, and `registered` is the one it has now.
The streams and the handlers, but for those of `requests`, have got the queues in
`held`. `answers` are the listings on their way back; `shown` and
`removingIndices` are the page's. -/
structure State where
  queues : List (SliceQueue Entry)
  registered : Option QueueRef
  held : List QueueRef
  nextEntry : Nat
  listings : List Listing
  answers : List ListQueueResponse
  shown : ListQueueResponse
  removingIndices : List Nat
  requests : List Request
  removals : List Removal

/-- `RemoveTrack` refuses the index 0. -/
def removeTrack (q : SliceQueue Entry) (index : Nat) : SliceQueue Entry :=
  if index = 0 then q else afterCall q (q.remove index)

namespace State

def initial : State := ⟨[], none, [], 0, [], [], ⟨0, []⟩, [], [], []⟩

variable (s : State)

/-- It fails when the id is registered. -/
def createSession : State :=
  match s.registered with
  | none => { s with
      queues := s.queues ++ [.newQueue]
      registered := some s.queues.length }
  | some _ => s

def deleteSession : State := { s with registered := none }

/-- `GetQueue` of a handler or of the loop, which may use the queue at any time
from now on. -/
def getQueue : State :=
  match s.registered with
  | none => s
  | some g => { s with held := g :: s.held }

/-- The queue of a caller that has got it. -/
def heldQueue (g : QueueRef) : Option (SliceQueue Entry) :=
  if g ∈ s.held then s.queues[g]? else none

def setQueue (g : QueueRef) (q : SliceQueue Entry) : State :=
  { s with queues := s.queues.set g q }

/-- `Enqueue`, by any client. -/
def enqueue (g : QueueRef) (track : Track) (spare : Nat) : Option State :=
  (s.heldQueue g).map fun q =>
    match q.enqueue ⟨s.nextEntry, track⟩ spare with
    | .error _ => s
    | .ok q => { s.setQueue g q with nextEntry := s.nextEntry + 1 }

def dequeue (g : QueueRef) : Option State :=
  (s.heldQueue g).map fun q => s.setQueue g (afterCall q (q.dequeue.map Prod.snd))

/-- `RemoveTrack` of another client. -/
def remove (g : QueueRef) (index : Nat) : Option State :=
  (s.heldQueue g).map fun q => s.setQueue g (removeTrack q index)

/-- `queue.ListQueue()` returns the slice. -/
def listQueue (g : QueueRef) : Option State :=
  (s.heldQueue g).map fun q => { s with listings := s.listings ++ [⟨g, q.listQueue, []⟩] }

/-- The next round of the handler's loop. -/
def read (k : Nat) : Option State :=
  match s.listings[k]? with
  | some l =>
    match s.queues[l.queue]? with
    | some q =>
      match (q.store.read l.slice)[l.protoTracks.length]? with
      | some e => some { s with
          listings := s.listings.set k { l with protoTracks := l.protoTracks ++ [e] } }
      | none => none
    | none => none
  | none => none

/-- The loop is over. -/
def answer (k : Nat) : Option State :=
  match s.listings[k]? with
  | some l =>
    if l.protoTracks.length = l.slice.len then
      some { s with
        listings := s.listings.eraseIdx k
        answers := s.answers ++ [⟨l.queue, l.protoTracks⟩] }
    else none
  | none => none

/-- The answers arrive in any order, or not at all. -/
def setTracks (k : Nat) : Option State :=
  match s.answers[k]? with
  | some answer => some { s with answers := s.answers.eraseIdx k, shown := answer }
  | none => none

/-- The first track has no button, and the button of a track that is being
removed is disabled. -/
def click (i : Nat) : Option State :=
  if 0 < i ∧ i < s.shown.tracks.length ∧ i ∉ s.removingIndices then
    some { s with
      removingIndices := i :: s.removingIndices
      requests := s.requests ++ [⟨i, s.shown, none⟩] }
  else none

/-- `handleRemove` is over. -/
def finish (i : Nat) : State :=
  { s with removingIndices := s.removingIndices.filter fun j => j ≠ i }

/-- The handler of a request of the page calls `GetQueue`. -/
def lookup (k : Nat) : Option State :=
  match s.requests[k]? with
  | some r =>
    match r.queue, s.registered with
    | some _, _ => none
    | none, some g => some { s with requests := s.requests.set k { r with queue := some g } }
    | none, none => some { s with requests := s.requests.eraseIdx k }
  | none => none

/-- The handler of a request of the page removes the track. -/
def arrive (k : Nat) : Option State :=
  match s.requests[k]? with
  | some r =>
    match r.queue with
    | some g =>
      match s.queues[g]? with
      | some q =>
        let t := { s.setQueue g (removeTrack q r.index) with requests := s.requests.eraseIdx k }
        match q.contents[r.index]? with
        | some e =>
          if r.index = 0 then some t
          else some { t with removals := ⟨r, e, q.contents.head?⟩ :: s.removals }
        | none => some t
      | none => none
    | none => none
  | none => none

end State

inductive Action
  | createSession
  | deleteSession
  | getQueue
  | enqueue (g : QueueRef) (track : Track) (spare : Nat)
  | dequeue (g : QueueRef)
  | removeTrack (g : QueueRef) (index : Nat)
  | listQueue (g : QueueRef)
  | read (k : Nat)
  | answer (k : Nat)
  | setTracks (k : Nat)
  | loseAnswer (k : Nat)
  | click (i : Nat)
  | finish (i : Nat)
  | lookup (k : Nat)
  | arrive (k : Nat)
  | loseRequest (k : Nat)

def State.step (s : State) : Action → Option State
  | .createSession => some s.createSession
  | .deleteSession => some s.deleteSession
  | .getQueue => some s.getQueue
  | .enqueue g track spare => s.enqueue g track spare
  | .dequeue g => s.dequeue g
  | .removeTrack g index => s.remove g index
  | .listQueue g => s.listQueue g
  | .read k => s.read k
  | .answer k => s.answer k
  | .setTracks k => s.setTracks k
  | .loseAnswer k => some { s with answers := s.answers.eraseIdx k }
  | .click i => s.click i
  | .finish i => some (s.finish i)
  | .lookup k => s.lookup k
  | .arrive k => s.arrive k
  | .loseRequest k => some { s with requests := s.requests.eraseIdx k }

def pageSystem : System State Action where
  init s := s = .initial
  step := State.step

/-! ## The invariant -/

/-- The cells of the queue's array up to the end of the queue: entries that were
dequeued, and those of the queue. -/
def written (q : SliceQueue Entry) : List Entry :=
  (q.store.cells q.tracks.array).take (q.tracks.off + q.tracks.len)

/-- A list of accepted entries that stands before the queue at each place. The
next entry gets the number `next`. -/
structure Seen (q : SliceQueue Entry) (next : Nat) (es : List Entry) : Prop where
  numbers : ∀ e ∈ es, e.number < next
  before : LeOn Entry.number es q.contents

structure ListingInv (q : SliceQueue Entry) (next : Nat) (l : Listing) : Prop where
  valid : l.slice.Valid q.store
  /-- The queue moves to the right in its array. -/
  off : l.slice.array = q.tracks.array → l.slice.off ≤ q.tracks.off
  read : Seen q next l.protoTracks
  unread : Seen q next (q.store.read l.slice)

structure QueueInv (q : SliceQueue Entry) (next : Nat) : Prop where
  ascending : Ascending Entry.number (written q)
  numbers : ∀ e ∈ written q, e.number < next

/-- The queue `g`, and what the page and the handlers have of it. -/
structure ViewInv (s : State) (g : QueueRef) (q : SliceQueue Entry) : Prop where
  queue : QueueInv q s.nextEntry
  listings : ∀ l ∈ s.listings, l.queue = g → ListingInv q s.nextEntry l
  answers : ∀ a ∈ s.answers, a.queue = g → Seen q s.nextEntry a.tracks
  shown : s.shown.queue = g → Seen q s.nextEntry s.shown.tracks
  requests : ∀ r ∈ s.requests, r.shown.queue = g → Seen q s.nextEntry r.shown.tracks

/-- A removal from the listed queue hits the clicked track or one behind it, and
none hits the head. -/
def Removal.Behind (r : Removal) : Prop :=
  (r.request.queue = some r.request.shown.queue →
    ∃ target, r.request.shown.tracks[r.request.index]? = some target ∧
      target.number ≤ r.entry.number) ∧ r.head ≠ some r.entry

structure PageInv (s : State) : Prop where
  views : ∀ (g : QueueRef) q, s.queues[g]? = some q → ViewInv s g q
  /-- Only queues that exist were listed. -/
  listed : ∀ l ∈ s.listings, l.queue < s.queues.length
  answered : ∀ a ∈ s.answers, a.queue < s.queues.length
  shown : s.shown.tracks = [] ∨ s.shown.queue < s.queues.length
  requests : ∀ r ∈ s.requests, r.index ≠ 0 ∧ r.index < r.shown.tracks.length ∧
    r.shown.queue < s.queues.length
  removals : ∀ r ∈ s.removals, r.Behind

namespace StationPageLemmas

variable {s t : State} {q q' : SliceQueue Entry} {next next' : Nat}

theorem contents_eq (q : SliceQueue Entry) : q.contents = (written q).drop q.tracks.off := by
  rw [written, List.drop_take, Nat.add_sub_cancel_left]
  rfl

/-- The queue is the end of what was written. -/
theorem ascending_contents (h : Ascending Entry.number (written q)) :
    Ascending Entry.number q.contents := by
  rw [contents_eq]
  exact h.sublist (List.drop_sublist _ _)

/-- An operation drops some of what was written, or writes a new entry behind it. -/
structure Moves (q q' : SliceQueue Entry) (next next' : Nat) : Prop where
  le : next ≤ next'
  written : (written q').Sublist (StationPage.written q) ∨
    ∃ e, e.number = next ∧ next' = next + 1 ∧
      (StationPage.written q').Sublist (StationPage.written q ++ [e])
  contents : q'.contents.Sublist q.contents ∨
    ∃ e, e.number = next ∧ next' = next + 1 ∧ q'.contents = q.contents ++ [e]
  /-- What a slice shows stays as it was, or the slice starts left of the queue in
  its array. -/
  slices : ∀ r : Slice, r.Valid q.store → (r.array = q.tracks.array → r.off ≤ q.tracks.off) →
    r.Valid q'.store ∧ (r.array = q'.tracks.array → r.off ≤ q'.tracks.off) ∧
      (q'.store.read r = q.store.read r ∨ r.array = q'.tracks.array ∧
        ∀ e ∈ q'.store.read r, e ∈ q.store.read r ∨ e.number < next')

theorem moves_refl (q : SliceQueue Entry) (h : next ≤ next') : Moves q q next next' :=
  ⟨h, .inl (List.Sublist.refl _), .inl (List.Sublist.refl _),
    fun _ hr hoff => ⟨hr, hoff, .inl rfl⟩⟩

theorem moves_dequeue (q : SliceQueue Entry) (next : Nat) :
    Moves q (afterCall q (q.dequeue.map Prod.snd)) next next := by
  unfold SliceQueue.dequeue
  split
  · exact moves_refl q (Nat.le_refl _)
  · next e es h =>
    have hlen : 1 ≤ q.tracks.len := by
      rw [← q.length_contents, h]
      exact Nat.le_add_left _ _
    have hend : q.tracks.off + 1 + (q.tracks.len - 1) = q.tracks.off + q.tracks.len := by omega
    refine ⟨Nat.le_refl _, .inl ?_, .inl ?_, fun r hr hoff => ⟨hr, ?_, .inl rfl⟩⟩
    · show ((q.store.cells q.tracks.array).take (q.tracks.off + 1 + (q.tracks.len - 1))).Sublist _
      rw [hend]
      exact List.Sublist.refl _
    · show (q.store.read (q.tracks.since 1)).Sublist _
      rw [GoSliceLemmas.read_since]
      exact List.drop_sublist _ _
    · exact fun ha => Nat.le_succ_of_le (hoff ha)

/-- What a slice shows after a write in place, at or behind the start of the queue. -/
theorem slices_write {i : Nat} {es : List Entry} {next : Nat}
    (hfit : q.tracks.off + i + es.length ≤ (q.store.cells q.tracks.array).length)
    (hes : ∀ e ∈ es, e.number < next) {r : Slice} (hr : r.Valid q.store) :
    r.Valid (q.store.write q.tracks.array (q.tracks.off + i) es) ∧
      ((q.store.write q.tracks.array (q.tracks.off + i) es).read r = q.store.read r ∨
        r.array = q.tracks.array ∧
        ∀ e ∈ (q.store.write q.tracks.array (q.tracks.off + i) es).read r,
          e ∈ q.store.read r ∨ e.number < next) := by
  have hcells := GoSliceLemmas.getElem?_write q.store q.valid.array_lt hfit r.array
  refine ⟨⟨?_, hr.len_le, ?_⟩, ?_⟩
  · simpa only [Store.write, List.length_set] using hr.array_lt
  · rw [GoSliceLemmas.length_write q.store q.valid.array_lt hfit]
    exact hr.cap_le
  · by_cases ha : r.array = q.tracks.array
    · refine .inr ⟨ha, fun e he => ?_⟩
      obtain ⟨k, hk⟩ := List.mem_iff_getElem?.mp he
      rw [GoSliceLemmas.getElem?_read, hcells] at hk
      split at hk
      · next hlt =>
        split at hk
        · exact .inr (hes e (List.mem_of_getElem? hk))
        · refine .inl (List.mem_of_getElem? (i := k) ?_)
          rw [GoSliceLemmas.getElem?_read, if_pos hlt, hk]
      · cases hk
    · refine .inl ((GoSliceLemmas.read_eq_iff _ _ _).mpr fun k _ => ?_)
      rw [hcells, if_neg fun h => ha h.1]

/-- What was written, after a write in place at `i` or behind the end. -/
theorem written_write {i : Nat} {es : List Entry} (hi : i ≤ q.tracks.len)
    (hstore : q'.store = q.store.write q.tracks.array (q.tracks.off + i) es)
    (htracks : q'.tracks = { q.tracks with len := i + es.length }) :
    written q' = (written q).take (q.tracks.off + i) ++ es := by
  have hcap := q.valid.cap_le
  have hlen := q.valid.len_le
  rw [written, hstore, htracks]
  dsimp only
  rw [GoSliceLemmas.cells_write q.store q.valid.array_lt, if_pos rfl,
    List.take_append_of_le_length, List.take_of_length_le]
  · rw [written, List.take_take, Nat.min_eq_left (by omega)]
  · rw [List.length_append, List.length_take]
    omega
  · rw [List.length_append, List.length_take]
    omega

theorem moves_remove {next : Nat} (hnumbers : ∀ e ∈ written q, e.number < next) (index : Nat) :
    Moves q (afterCall q (q.remove index)) next next := by
  cases hremove : q.remove index with
  | error err => exact moves_refl q (Nat.le_refl _)
  | ok q' =>
    show Moves q q' next next
    unfold SliceQueue.remove at hremove
    split at hremove
    · cases hremove
    · next hlt =>
      have hlt := Nat.lt_of_not_le hlt
      have hcap := q.valid.cap_le
      have hlen := q.valid.len_le
      have htail := q.length_tail index
      have hwritten : q.tail index = (written q).drop (q.tracks.off + index + 1) := by
        rw [SliceQueue.tail_eq, contents_eq, List.drop_drop, Nat.add_assoc]
      have hroom : (q.tracks.upto index).len + (q.tail index).length ≤
          (q.tracks.upto index).cap := by
        rw [htail]
        show index + _ ≤ q.tracks.cap
        omega
      have happend : append q.store (q.tracks.upto index) (q.tail index) 0 =
          (q.store.write q.tracks.array (q.tracks.off + index) (q.tail index),
            { q.tracks with len := index + (q.tail index).length }) := by
        unfold append
        rw [if_pos hroom]
        rfl
      have hstore : q'.store =
          q.store.write q.tracks.array (q.tracks.off + index) (q.tail index) := by
        cases hremove
        exact congrArg Prod.fst happend
      have htracks : q'.tracks = { q.tracks with len := index + (q.tail index).length } := by
        cases hremove
        exact congrArg Prod.snd happend
      have hcontents : q'.contents = q.contents.eraseIdx index := by
        cases hremove
        rw [List.eraseIdx_eq_take_drop_succ]
        exact QueueSliceLemmas.read_remove q (Nat.le_of_lt hlt)
      have hfit : q.tracks.off + index + (q.tail index).length ≤
          (q.store.cells q.tracks.array).length := by omega
      refine ⟨Nat.le_refl _, .inl ?_, .inl ?_, fun r hr hoff => ?_⟩
      · rw [written_write (Nat.le_of_lt hlt) hstore htracks, hwritten,
          ← List.eraseIdx_eq_take_drop_succ]
        exact List.eraseIdx_sublist _ _
      · rw [hcontents]
        exact List.eraseIdx_sublist _ _
      · -- what is shifted down was in the queue before
        have hnew : ∀ e ∈ q.tail index, e.number < next := by
          rw [hwritten]
          exact fun e he => hnumbers e (List.mem_of_mem_drop he)
        rw [hstore, htracks]
        obtain ⟨hvalid, hread⟩ := slices_write hfit hnew hr
        exact ⟨hvalid, hoff, hread⟩

/-- An append into the room behind the queue. -/
theorem moves_inPlace {next : Nat} {e : Entry} (he : e.number = next)
    (hroom : q.tracks.len + 1 ≤ q.tracks.cap)
    (hstore : q'.store = q.store.write q.tracks.array (q.tracks.off + q.tracks.len) [e])
    (htracks : q'.tracks = { q.tracks with len := q.tracks.len + 1 })
    (hcontents : q'.contents = q.contents ++ [e]) : Moves q q' next (next + 1) := by
  have hcap := q.valid.cap_le
  have hfit : q.tracks.off + q.tracks.len + [e].length ≤
      (q.store.cells q.tracks.array).length := by
    rw [List.length_singleton]
    omega
  refine ⟨Nat.le_succ _, .inr ⟨e, he, rfl, ?_⟩, .inr ⟨e, he, rfl, hcontents⟩,
    fun r hr hoff => ?_⟩
  · rw [written_write (Nat.le_refl _) hstore htracks]
    exact (List.take_sublist _ _).append (List.Sublist.refl _)
  · have hnew : ∀ e' ∈ [e], e'.number < next + 1 := by
      intro e' he'
      rw [List.mem_singleton.mp he', he]
      exact Nat.lt_succ_self _
    rw [hstore, htracks]
    obtain ⟨hvalid, hread⟩ := slices_write hfit hnew hr
    exact ⟨hvalid, hoff, hread⟩

/-- An append that takes the queue to a new array. The slices of the old one stay
as they are. -/
theorem moves_grown {next spare : Nat} {e : Entry} (he : e.number = next)
    (hstore : q'.store = q.store.alloc (q.contents ++ [e] ++ List.replicate spare default))
    (htracks : q'.tracks =
      ⟨q.store.arrays.length, 0, q.tracks.len + 1, q.tracks.len + 1 + spare⟩)
    (hcontents : q'.contents = q.contents ++ [e]) : Moves q q' next (next + 1) := by
  refine ⟨Nat.le_succ _, .inr ⟨e, he, rfl, ?_⟩, .inr ⟨e, he, rfl, hcontents⟩,
    fun r hr hoff => ?_⟩
  · rw [written, hstore, htracks]
    dsimp only
    rw [GoSliceLemmas.cells_alloc_new, List.take_append_of_le_length, List.take_of_length_le]
    · rw [contents_eq]
      exact (List.drop_sublist _ _).append (List.Sublist.refl _)
    · rw [List.length_append, q.length_contents, List.length_singleton, Nat.zero_add]
    · rw [List.length_append, q.length_contents, List.length_singleton, Nat.zero_add]
  · have hne : r.array ≠ q.store.arrays.length := Nat.ne_of_lt hr.array_lt
    have hcells := GoSliceLemmas.cells_alloc q.store
      (q.contents ++ [e] ++ List.replicate spare default) hr.array_lt
    rw [hstore, htracks]
    refine ⟨⟨?_, hr.len_le, ?_⟩, fun ha => absurd ha hne, .inl ?_⟩
    · simp only [Store.alloc, List.length_append]
      exact Nat.lt_add_right _ hr.array_lt
    · rw [hcells]
      exact hr.cap_le
    · rw [Store.read, hcells]
      rfl

theorem moves_enqueue {next : Nat} (track : Track) (spare : Nat)
    (h : q.enqueue ⟨next, track⟩ spare = .ok q') : Moves q q' next (next + 1) := by
  unfold SliceQueue.enqueue at h
  split at h
  · cases h
  · have hcontents : q'.contents = q.contents ++ [⟨next, track⟩] := by
      cases h
      exact read_append q.valid _ _
    have hstore : q'.store = (append q.store q.tracks [⟨next, track⟩] spare).1 := by
      cases h
      rfl
    have htracks : q'.tracks = (append q.store q.tracks [⟨next, track⟩] spare).2 := by
      cases h
      rfl
    by_cases hroom : q.tracks.len + [(⟨next, track⟩ : Entry)].length ≤ q.tracks.cap
    · rw [append, if_pos hroom] at hstore htracks
      exact moves_inPlace rfl hroom hstore htracks hcontents
    · rw [append, if_neg hroom] at hstore htracks
      exact moves_grown rfl hstore htracks hcontents

theorem moves_removeTrack (hinv : QueueInv q next) (index : Nat) :
    Moves q (removeTrack q index) next next := by
  unfold removeTrack
  split
  · exact moves_refl q (Nat.le_refl _)
  · exact moves_remove hinv.numbers index

/-! ### What a move leaves of the invariant -/

theorem queueInv_moves (hinv : QueueInv q next) (hm : Moves q q' next next') :
    QueueInv q' next' := by
  rcases hm.written with hsub | ⟨e, he, hnext, hsub⟩
  · exact ⟨hinv.ascending.sublist hsub,
      fun e he => Nat.lt_of_lt_of_le (hinv.numbers e (hsub.subset he)) hm.le⟩
  · constructor
    · refine List.Pairwise.sublist hsub (List.pairwise_append.mpr ⟨hinv.ascending, ?_, ?_⟩)
      · exact List.pairwise_singleton _ _
      · intro a ha b hb
        cases List.mem_singleton.mp hb
        rw [he]
        exact hinv.numbers a ha
    · intro a ha
      rcases List.mem_append.mp (hsub.subset ha) with ha | ha
      · exact Nat.lt_of_lt_of_le (hinv.numbers a ha) hm.le
      · cases List.mem_singleton.mp ha
        omega

theorem seen_moves (hinv : QueueInv q next) (hm : Moves q q' next next') {es : List Entry}
    (hes : Seen q next es) : Seen q' next' es where
  numbers e he := Nat.lt_of_lt_of_le (hes.numbers e he) hm.le
  before := by
    rcases hm.contents with hsub | ⟨e, he, -, heq⟩
    · exact leOn_sublist hes.before (ascending_contents hinv.ascending) hsub
    · rw [heq]
      exact leOn_concat hes.before fun a ha => he ▸ Nat.le_of_lt (hes.numbers a ha)

/-- A slice of the queue's own array is a window left of the queue. -/
theorem before_of_window {r : Slice} (h : Ascending Entry.number (written q))
    (ha : r.array = q.tracks.array) (hoff : r.off ≤ q.tracks.off) :
    LeOn Entry.number (q.store.read r) q.contents := by
  rw [Store.read, ha]
  exact leOn_window h hoff

theorem listing_moves (hinv : QueueInv q next) (hm : Moves q q' next next') {l : Listing}
    (hl : ListingInv q next l) : ListingInv q' next' l := by
  obtain ⟨hvalid, hoff, hread⟩ := hm.slices l.slice hl.valid hl.off
  refine ⟨hvalid, hoff, seen_moves hinv hm hl.read, ?_⟩
  rcases hread with heq | ⟨ha, hmem⟩
  · rw [heq]
    exact seen_moves hinv hm hl.unread
  · refine ⟨fun e he => ?_, before_of_window (queueInv_moves hinv hm).ascending ha (hoff ha)⟩
    rcases hmem e he with he | he
    · exact Nat.lt_of_lt_of_le (hl.unread.numbers e he) hm.le
    · exact he

/-- The state after an operation on the queue `g`. -/
def moved (s : State) (g : QueueRef) (q : SliceQueue Entry) (next : Nat) : State :=
  { s.setQueue g q with nextEntry := next }

theorem viewInv_moves {g g' : QueueRef} (hinv : ViewInv s g' q)
    (hm : Moves q q' s.nextEntry next) {q₀ : SliceQueue Entry} :
    ViewInv (moved s g q₀ next) g' q' where
  queue := queueInv_moves hinv.queue hm
  listings l hl h := listing_moves hinv.queue hm (hinv.listings l hl h)
  answers a ha h := seen_moves hinv.queue hm (hinv.answers a ha h)
  shown h := seen_moves hinv.queue hm (hinv.shown h)
  requests r hr h := seen_moves hinv.queue hm (hinv.requests r hr h)

theorem pageInv_moves {g : QueueRef} (hinv : PageInv s) (hq : s.queues[g]? = some q)
    (hm : Moves q q' s.nextEntry next) : PageInv (moved s g q' next) where
  views g' q₁ h := by
    change (s.queues.set g q')[g']? = some q₁ at h
    rw [List.getElem?_set] at h
    split at h
    · next hg =>
      subst hg
      split at h
      · cases h
        exact viewInv_moves (hinv.views g q hq) hm
      · cases h
    · exact viewInv_moves (hinv.views g' q₁ h) (moves_refl q₁ hm.le)
  listed l hl := by
    show l.queue < (s.queues.set g q').length
    rw [List.length_set]
    exact hinv.listed l hl
  answered a ha := by
    show a.queue < (s.queues.set g q').length
    rw [List.length_set]
    exact hinv.answered a ha
  shown := by
    show s.shown.tracks = [] ∨ s.shown.queue < (s.queues.set g q').length
    rw [List.length_set]
    exact hinv.shown
  requests r hr := by
    show _ ∧ _ ∧ r.shown.queue < (s.queues.set g q').length
    rw [List.length_set]
    exact hinv.requests r hr
  removals := hinv.removals

/-! ### The other steps -/

/-- What the lists of `t` have of the queues of `s`. -/
structure Accounted (s t : State) : Prop where
  listings : ∀ l ∈ t.listings, l.queue < s.queues.length ∧
    ∀ q, s.queues[l.queue]? = some q → ListingInv q s.nextEntry l
  answers : ∀ a ∈ t.answers, a.queue < s.queues.length ∧
    ∀ q, s.queues[a.queue]? = some q → Seen q s.nextEntry a.tracks
  shown : (t.shown.tracks = [] ∨ t.shown.queue < s.queues.length) ∧
    ∀ q, s.queues[t.shown.queue]? = some q → Seen q s.nextEntry t.shown.tracks
  requests : ∀ r ∈ t.requests, (r.index ≠ 0 ∧ r.index < r.shown.tracks.length ∧
    r.shown.queue < s.queues.length) ∧
      ∀ q, s.queues[r.shown.queue]? = some q → Seen q s.nextEntry r.shown.tracks
  removals : ∀ r ∈ t.removals, r.Behind

theorem accounted (hinv : PageInv s) : Accounted s s where
  listings l hl := ⟨hinv.listed l hl, fun q hq => (hinv.views _ q hq).listings l hl rfl⟩
  answers a ha := ⟨hinv.answered a ha, fun q hq => (hinv.views _ q hq).answers a ha rfl⟩
  shown := ⟨hinv.shown, fun q hq => (hinv.views _ q hq).shown rfl⟩
  requests r hr := ⟨hinv.requests r hr, fun q hq => (hinv.views _ q hq).requests r hr rfl⟩
  removals := hinv.removals

/-- A state with the same queues, whose lists are all accounted for. -/
theorem pageInv_lists (hinv : PageInv s) (hqueues : t.queues = s.queues)
    (hnext : t.nextEntry = s.nextEntry) (h : Accounted s t) : PageInv t where
  views g q hq := by
    rw [hqueues] at hq
    refine ⟨hnext ▸ (hinv.views g q hq).queue, ?_, ?_, ?_, ?_⟩
    · rintro l hl rfl
      exact hnext ▸ (h.listings l hl).2 q hq
    · rintro a ha rfl
      exact hnext ▸ (h.answers a ha).2 q hq
    · rintro rfl
      exact hnext ▸ h.shown.2 q hq
    · rintro r hr rfl
      exact hnext ▸ (h.requests r hr).2 q hq
  listed l hl := hqueues ▸ (h.listings l hl).1
  answered a ha := hqueues ▸ (h.answers a ha).1
  shown := hqueues ▸ h.shown.1
  requests r hr := hqueues ▸ (h.requests r hr).1
  removals := h.removals

theorem queue_of_held {g : QueueRef} (h : s.heldQueue g = some q) : s.queues[g]? = some q := by
  unfold State.heldQueue at h
  split at h
  · exact h
  · cases h

/-- The tracks that were read stay before the queue with the next one. -/
theorem seen_concat {es es' : List Entry} {e : Entry} (hes : Seen q next es)
    (hes' : Seen q next es') (he : es'[es.length]? = some e) : Seen q next (es ++ [e]) := by
  constructor
  · intro e' he'
    rcases List.mem_append.mp he' with he' | he'
    · exact hes.numbers e' he'
    · cases List.mem_singleton.mp he'
      exact hes'.numbers e (List.mem_of_getElem? he)
  · intro i a b ha hb
    rw [List.getElem?_append] at ha
    split at ha
    · exact hes.before i a b ha hb
    · next hi =>
      have hzero : i = es.length := by
        have := (List.getElem?_eq_some_iff.mp ha).1
        rw [List.length_singleton] at this
        omega
      cases List.mem_singleton.mp (List.mem_of_getElem? ha)
      subst hzero
      exact hes'.before _ _ b he hb

/-- The entry at a place behind the head is not the head. -/
theorem head_ne {l : List Entry} (h : Ascending Entry.number l) {i : Nat} (hi : i ≠ 0) {e : Entry}
    (he : l[i]? = some e) : l.head? ≠ some e := by
  intro hhead
  obtain ⟨hlt, rfl⟩ := List.getElem?_eq_some_iff.mp he
  rw [List.head?_eq_getElem?] at hhead
  obtain ⟨hzero, heq⟩ := List.getElem?_eq_some_iff.mp hhead
  have := List.pairwise_iff_getElem.mp h 0 i hzero hlt (Nat.pos_of_ne_zero hi)
  rw [heq] at this
  exact Nat.lt_irrefl _ this

theorem seen_nil (q : SliceQueue Entry) (next : Nat) : Seen q next [] :=
  ⟨fun _ he => absurd he List.not_mem_nil, fun _ _ _ ha => by cases ha⟩

theorem queueInv_newQueue (next : Nat) : QueueInv .newQueue next := by
  have hnone : written .newQueue = [] := List.take_zero
  constructor
  · rw [hnone]
    exact List.Pairwise.nil
  · rw [hnone]
    exact fun e he => absurd he List.not_mem_nil

variable (hinv : PageInv s)
include hinv

/-- Nothing is listed of a new queue. -/
theorem pageInv_createSession : PageInv s.createSession := by
  unfold State.createSession
  split
  · have hlt : ∀ g : QueueRef, g < s.queues.length →
        g < (s.queues ++ [SliceQueue.newQueue (T := Entry)]).length := by
      intro g hg
      rw [List.length_append]
      exact Nat.lt_add_right _ hg
    refine ⟨fun g q hq => ?_, fun l hl => hlt _ (hinv.listed l hl),
      fun a ha => hlt _ (hinv.answered a ha), hinv.shown.imp_right (hlt _), fun r hr => ?_,
      hinv.removals⟩
    · dsimp only at hq
      rw [List.getElem?_append] at hq
      split at hq
      · have hview := hinv.views g q hq
        exact ⟨hview.queue, hview.listings, hview.answers, hview.shown, hview.requests⟩
      · next hge =>
        cases List.mem_singleton.mp (List.mem_of_getElem? hq)
        refine ⟨queueInv_newQueue _, ?_, ?_, ?_, ?_⟩
        · rintro l hl rfl
          exact absurd (hinv.listed l hl) hge
        · rintro a ha rfl
          exact absurd (hinv.answered a ha) hge
        · rintro rfl
          rw [show (_ : State).shown.tracks = [] from hinv.shown.resolve_right hge]
          exact seen_nil _ _
        · rintro r hr rfl
          exact absurd (hinv.requests r hr).2.2 hge
    · obtain ⟨hindex, htracks, hqueue⟩ := hinv.requests r hr
      exact ⟨hindex, htracks, hlt _ hqueue⟩
  · exact hinv

theorem pageInv_listQueue {g : QueueRef} (h : s.listQueue g = some t) : PageInv t := by
  obtain ⟨q, hheld, rfl⟩ := Option.map_eq_some_iff.mp h
  have hq := queue_of_held hheld
  refine pageInv_lists hinv rfl rfl { accounted hinv with listings := fun l hl => ?_ }
  rcases List.mem_append.mp hl with hl | hl
  · exact (accounted hinv).listings l hl
  · cases List.mem_singleton.mp hl
    refine ⟨(List.getElem?_eq_some_iff.mp hq).1, fun q' hq' => ?_⟩
    cases hq.symm.trans hq'
    have hqueue := (hinv.views g q hq).queue
    refine ⟨q.valid, fun _ => Nat.le_refl _, seen_nil _ _, ?_, ?_⟩
    · intro e he
      refine hqueue.numbers e ?_
      have hmem : e ∈ q.contents := he
      rw [contents_eq] at hmem
      exact List.mem_of_mem_drop hmem
    · exact before_of_window hqueue.ascending rfl (Nat.le_refl _)

/-- The next cell is read as it is now. -/
theorem pageInv_read {k : Nat} (h : s.read k = some t) : PageInv t := by
  unfold State.read at h
  split at h
  · next l hl =>
    split at h
    · next q hq =>
      split at h
      · next e he =>
        cases h
        refine pageInv_lists hinv rfl rfl { accounted hinv with listings := fun l' hl' => ?_ }
        rcases List.mem_or_eq_of_mem_set hl' with hl' | rfl
        · exact (accounted hinv).listings l' hl'
        · obtain ⟨hlt, hlisting⟩ := (accounted hinv).listings l (List.mem_of_getElem? hl)
          refine ⟨hlt, fun q' hq' => ?_⟩
          cases hq.symm.trans hq'
          have hlisting := hlisting q hq
          exact ⟨hlisting.valid, hlisting.off, seen_concat hlisting.read hlisting.unread he,
            hlisting.unread⟩
      · cases h
    · cases h
  · cases h

theorem pageInv_answer {k : Nat} (h : s.answer k = some t) : PageInv t := by
  unfold State.answer at h
  split at h
  · next l hl =>
    split at h
    · cases h
      refine pageInv_lists hinv rfl rfl { accounted hinv with
        listings := fun l' hl' => (accounted hinv).listings l' (List.mem_of_mem_eraseIdx hl')
        answers := fun a ha => ?_ }
      rcases List.mem_append.mp ha with ha | ha
      · exact (accounted hinv).answers a ha
      · cases List.mem_singleton.mp ha
        obtain ⟨hlt, hlisting⟩ := (accounted hinv).listings l (List.mem_of_getElem? hl)
        exact ⟨hlt, fun q hq => (hlisting q hq).read⟩
    · cases h
  · cases h

theorem pageInv_setTracks {k : Nat} (h : s.setTracks k = some t) : PageInv t := by
  unfold State.setTracks at h
  split at h
  · next answer hanswer =>
    cases h
    obtain ⟨hlt, hseen⟩ := (accounted hinv).answers answer (List.mem_of_getElem? hanswer)
    exact pageInv_lists hinv rfl rfl { accounted hinv with
      answers := fun a ha => (accounted hinv).answers a (List.mem_of_mem_eraseIdx ha)
      shown := ⟨.inr hlt, hseen⟩ }
  · cases h

theorem pageInv_click {i : Nat} (h : s.click i = some t) : PageInv t := by
  unfold State.click at h
  split at h
  · next hi =>
    cases h
    refine pageInv_lists hinv rfl rfl { accounted hinv with requests := fun r hr => ?_ }
    rcases List.mem_append.mp hr with hr | hr
    · exact (accounted hinv).requests r hr
    · cases List.mem_singleton.mp hr
      -- what has a button was listed
      have hlisted : s.shown.queue < s.queues.length := by
        refine hinv.shown.resolve_left fun hnil => ?_
        rw [hnil] at hi
        exact Nat.not_lt_zero _ hi.2.1
      exact ⟨⟨Nat.pos_iff_ne_zero.mp hi.1, hi.2.1, hlisted⟩, (accounted hinv).shown.2⟩
  · cases h

theorem pageInv_requests {rs : List Request}
    (hrs : ∀ r ∈ rs, ∃ r' ∈ s.requests, r.index = r'.index ∧ r.shown = r'.shown) :
    PageInv { s with requests := rs } := by
  refine pageInv_lists hinv rfl rfl { accounted hinv with requests := fun r hr => ?_ }
  obtain ⟨r', hr', hindex, hshown⟩ := hrs r hr
  rw [hindex, hshown]
  exact (accounted hinv).requests r' hr'

theorem pageInv_lookup {k : Nat} (h : s.lookup k = some t) : PageInv t := by
  unfold State.lookup at h
  split at h
  · next r hr =>
    split at h
    · cases h
    · cases h
      refine pageInv_requests hinv fun r' hr' => ?_
      rcases List.mem_or_eq_of_mem_set hr' with hr' | rfl
      · exact ⟨r', hr', rfl, rfl⟩
      · exact ⟨r, List.mem_of_getElem? hr, rfl, rfl⟩
    · cases h
      exact pageInv_requests hinv fun r' hr' => ⟨r', List.mem_of_mem_eraseIdx hr', rfl, rfl⟩
  · cases h

theorem pageInv_arrive {k : Nat} (h : s.arrive k = some t) : PageInv t := by
  unfold State.arrive at h
  split at h
  · next r hr =>
    split at h
    · next g hg =>
      split at h
      · next q hq =>
        have hmem := List.mem_of_getElem? hr
        obtain ⟨hindex, hlt, -⟩ := hinv.requests r hmem
        have hqueue := (hinv.views g q hq).queue
        have hrequests : ∀ r' ∈ s.requests.eraseIdx k,
            ∃ r ∈ s.requests, r'.index = r.index ∧ r'.shown = r.shown :=
          fun r' hr' => ⟨r', List.mem_of_mem_eraseIdx hr', rfl, rfl⟩
        have hremoved := pageInv_requests
          (pageInv_moves hinv hq (moves_removeTrack hqueue r.index)) hrequests
        split at h
        · next e he =>
          rw [if_neg hindex] at h
          cases h
          refine pageInv_lists hremoved rfl rfl { accounted hremoved with
            removals := fun r' hr' => ?_ }
          rcases List.mem_cons.mp hr' with rfl | hr'
          · refine ⟨fun hown => ?_, head_ne (ascending_contents hqueue.ascending) hindex he⟩
            -- the queue that was listed is the one that is removed from
            cases hg.symm.trans hown
            have htarget := List.getElem?_eq_getElem hlt
            exact ⟨_, htarget, (((accounted hinv).requests r hmem).2 q hq).before _ _ _ htarget he⟩
          · exact hinv.removals r' hr'
        · cases h
          exact hremoved
      · cases h
    · cases h
  · cases h

end StationPageLemmas

open StationPageLemmas

theorem pageInv_step {s t : State} {a : Action} (hinv : PageInv s) (h : s.step a = some t) :
    PageInv t := by
  cases a with
  | createSession =>
    cases h
    exact pageInv_createSession hinv
  | deleteSession =>
    cases h
    exact pageInv_lists hinv rfl rfl { accounted hinv with }
  | getQueue =>
    cases h
    unfold State.getQueue
    split
    · exact hinv
    · exact pageInv_lists hinv rfl rfl { accounted hinv with }
  | enqueue g track spare =>
    obtain ⟨q, hheld, rfl⟩ := Option.map_eq_some_iff.mp h
    split
    · exact hinv
    · next q' hq' =>
      exact pageInv_moves hinv (queue_of_held hheld) (moves_enqueue track spare hq')
  | dequeue g =>
    obtain ⟨q, hheld, rfl⟩ := Option.map_eq_some_iff.mp h
    exact pageInv_moves hinv (queue_of_held hheld) (moves_dequeue q s.nextEntry)
  | removeTrack g index =>
    obtain ⟨q, hheld, rfl⟩ := Option.map_eq_some_iff.mp h
    have hq := queue_of_held hheld
    exact pageInv_moves hinv hq (moves_removeTrack (hinv.views g q hq).queue index)
  | listQueue g => exact pageInv_listQueue hinv h
  | read k => exact pageInv_read hinv h
  | answer k => exact pageInv_answer hinv h
  | setTracks k => exact pageInv_setTracks hinv h
  | loseAnswer k =>
    cases h
    exact pageInv_lists hinv rfl rfl { accounted hinv with
      answers := fun a ha => (accounted hinv).answers a (List.mem_of_mem_eraseIdx ha) }
  | click i => exact pageInv_click hinv h
  | finish i =>
    cases h
    exact pageInv_lists hinv rfl rfl { accounted hinv with }
  | lookup k => exact pageInv_lookup hinv h
  | arrive k => exact pageInv_arrive hinv h
  | loseRequest k =>
    cases h
    exact pageInv_requests hinv fun r hr => ⟨r, List.mem_of_mem_eraseIdx hr, rfl, rfl⟩

theorem pageInv_initial : PageInv .initial := by
  constructor
  case shown => exact .inl rfl
  all_goals
    intro x
    simp [State.initial]

/-- In every run of the clients, the stream and the page. -/
theorem removes_behind {s : State} (h : Reachable pageSystem s) :
    (∀ r ∈ s.removals, r.Behind) ∧
      ∀ q, s.queues[s.shown.queue]? = some q → LeOn Entry.number s.shown.tracks q.contents := by
  have hinv : PageInv s := by
    refine h.invariant (I := PageInv) ?_ fun _ _ _ _ hi _ hs => pageInv_step hi hs
    rintro _ rfl
    exact pageInv_initial
  exact ⟨hinv.removals, fun q hq => ((accounted hinv).shown.2 q hq).before⟩

/-- The second of four tracks is removed while they are listed, so the page shows
the last one twice. Then the first one ends, and the click on the second one
removes the one behind it. The handler of another click gets the queue of the
session that was created anew. -/
theorem removes_behind_torn : ∃ s : State,
    ((∀ r ∈ s.removals, r.Behind) ∧
      ∀ q, s.queues[s.shown.queue]? = some q → LeOn Entry.number s.shown.tracks q.contents) ∧
    s.shown.tracks.map Entry.number = [0, 2, 3, 3] ∧
    s.removals.map (fun r => (r.request.index, r.request.queue, r.entry.number)) =
      [(2, some 1, 6), (1, some 0, 3)] := by
  obtain ⟨s, hs, hp⟩ := Reachable.of_run (S := pageSystem)
    (p := fun s => decide (s.shown.tracks.map Entry.number = [0, 2, 3, 3] ∧
      s.removals.map (fun r => (r.request.index, r.request.queue, r.entry.number)) =
        [(2, some 1, 6), (1, some 0, 3)]))
    [.createSession, .getQueue, .enqueue 0 (song 1) 0, .enqueue 0 (song 2) 0,
      .enqueue 0 (song 3) 0, .enqueue 0 (song 4) 0, .listQueue 0, .read 0, .removeTrack 0 1,
      .read 0, .read 0, .read 0, .answer 0, .setTracks 0, .dequeue 0, .click 1, .lookup 0,
      .arrive 0, .click 2, .deleteSession, .createSession, .getQueue, .enqueue 1 (song 5) 0,
      .enqueue 1 (song 6) 0, .enqueue 1 (song 7) 0, .lookup 0, .arrive 0]
    (show pageSystem.init .initial from rfl) (by decide +kernel)
  exact ⟨s, removes_behind hs, of_decide_eq_true hp⟩

end RadioJockey.StationPage
