import Loglib.Basic.KeyedList
import Loglib.Basic.Runs
import Loglib.Table.KeyIndex

/-! Key interning by many threads: the sharded index answers every call as the sequential
one does. -/

namespace Loglib

/-- The id that stands for a missing key. -/
def INVALID_KEY_ID : KeyId := 2 ^ 32 - 1

/-- The number of shards, a power of two. -/
def SHARD_COUNT : Nat := 16

/-- The hash bits that pick a shard. -/
def SHARD_MASK : Nat := SHARD_COUNT - 1

/-- The shard of a key. -/
def shardIndex (hash : Bytes → Nat) (key : Bytes) : Nat := hash key &&& SHARD_MASK

/-- Where a thread is between two steps. Only `GetOrInsert` takes more than one. -/
inductive KeyIndexPhase where
  | idle
  /-- The key was missing under the shared lock, which is released again. -/
  | missed (key : Bytes)
  /-- The key is inserted, the size not yet stored, and both locks are held. -/
  | inserted (key : Bytes) (id : KeyId)
deriving DecidableEq

/-- A call that has returned, with its answer. -/
inductive KeyIndexEvent (ι : Type) where
  | getOrInsert (thread : ι) (key : Bytes) (id : KeyId)
  | find (thread : ι) (key : Bytes) (id : KeyId)
  /-- `none` where the id is out of range, which the contract forbids. -/
  | keyOf (thread : ι) (id : KeyId) (key : Option Bytes)
  | size (thread : ι) (count : Nat)
deriving DecidableEq

/-- The index, its locks, the threads that use it and the calls they have finished. -/
structure SharedKeyIndex (ι : Type) where
  /-- Ids by key, in each shard. -/
  shards : Nat → KeyedList Bytes KeyId
  /-- Keys by id. -/
  reverse : List Bytes
  /-- The size that `Size` reads without a lock. -/
  size : Nat
  /-- The shard whose lock is held exclusively, together with the lock of `reverse`. -/
  locked : Option Nat
  phases : ι → KeyIndexPhase
  history : List (KeyIndexEvent ι)

/-- One step of one thread: a section under a lock, or an access of the atomic size. -/
inductive KeyIndexStep (ι : Type) where
  | lookUp (thread : ι) (key : Bytes)
  | insert (thread : ι)
  | publish (thread : ι)
  | find (thread : ι) (key : Bytes)
  | keyOf (thread : ι) (id : KeyId)
  | loadSize (thread : ι)

/-- The key that a step starts to insert. -/
def KeyIndexStep.insertedKey {ι : Type} : KeyIndexStep ι → Option Bytes
  | .lookUp _ key => some key
  | _ => none

namespace SharedKeyIndex

variable {ι : Type}

/-- The index before any call. -/
def initial : SharedKeyIndex ι := ⟨fun _ => .empty, [], 0, none, fun _ => .idle, []⟩

/-- A call returns. -/
def returns (state : SharedKeyIndex ι) (event : KeyIndexEvent ι) : SharedKeyIndex ι :=
  { state with history := state.history ++ [event] }

variable [DecidableEq ι]

/-- A thread goes on to another phase. -/
def enter (state : SharedKeyIndex ι) (thread : ι) (phase : KeyIndexPhase) : SharedKeyIndex ι :=
  { state with phases := Function.update state.phases thread phase }

/-- `GetOrInsert` under the shared lock of the shard. -/
def lookUp (hash : Bytes → Nat) (state : SharedKeyIndex ι) (thread : ι) (key : Bytes) :
    SharedKeyIndex ι :=
  match (state.shards (shardIndex hash key)).find key with
  | some id => state.returns (.getOrInsert thread key id)
  | none => state.enter thread (.missed key)

/-- The new key goes to the end of `reverse` and into its shard; both locks stay held. -/
def append (hash : Bytes → Nat) (state : SharedKeyIndex ι) (thread : ι) (key : Bytes) :
    SharedKeyIndex ι :=
  let id := state.reverse.length % 2 ^ 32
  { state.enter thread (.inserted key id) with
    reverse := state.reverse ++ [key]
    shards := Function.update state.shards (shardIndex hash key)
      ((state.shards (shardIndex hash key)).put key id)
    locked := some (shardIndex hash key) }

/-- `GetOrInsert` under both exclusive locks, up to the store of the size. -/
def insert (hash : Bytes → Nat) (state : SharedKeyIndex ι) (thread : ι) (key : Bytes) :
    SharedKeyIndex ι :=
  match (state.shards (shardIndex hash key)).find key with
  | some id => (state.enter thread .idle).returns (.getOrInsert thread key id)
  | none => state.append hash thread key

/-- The store of the size; the locks are released and `GetOrInsert` returns. -/
def publish (state : SharedKeyIndex ι) (thread : ι) (key : Bytes) (id : KeyId) : SharedKeyIndex ι :=
  { state.enter thread .idle with size := state.reverse.length, locked := none }.returns
    (.getOrInsert thread key id)

/-- One step of one thread, `none` where a lock blocks it or the thread is elsewhere. -/
def step (hash : Bytes → Nat) (state : SharedKeyIndex ι) :
    KeyIndexStep ι → Option (SharedKeyIndex ι)
  | .lookUp thread key =>
    -- A look-up waits for its own shard only.
    if state.phases thread = .idle ∧ state.locked ≠ some (shardIndex hash key) then
      some (state.lookUp hash thread key)
    else none
  | .insert thread =>
    match state.phases thread with
    -- An insertion also takes the lock of the reverse table, so it waits for every other one.
    | .missed key => if state.locked = none then some (state.insert hash thread key) else none
    | _ => none
  | .publish thread =>
    match state.phases thread with
    | .inserted key id => some (state.publish thread key id)
    | _ => none
  | .find thread key =>
    if state.phases thread = .idle ∧ state.locked ≠ some (shardIndex hash key) then
      some (state.returns (.find thread key
        (((state.shards (shardIndex hash key)).find key).getD INVALID_KEY_ID)))
    else none
  | .keyOf thread id =>
    if state.phases thread = .idle ∧ state.locked = none then
      some (state.returns (.keyOf thread id state.reverse[id]?))
    else none
  | .loadSize thread =>
    -- The size is an atomic counter, read without a lock.
    if state.phases thread = .idle then some (state.returns (.size thread state.size)) else none

end SharedKeyIndex

section Sequential

variable {ι : Type}

/-- The sequential index makes the same call at once; `none` if its answer is another one. -/
def KeyIndexEvent.performed (index : KeyIndex) : KeyIndexEvent ι → Option KeyIndex
  | .getOrInsert _ key id =>
    if (index.getOrInsert key).2 = id then some (index.getOrInsert key).1 else none
  | .find _ key id => if (index.find key).getD INVALID_KEY_ID = id then some index else none
  | .keyOf _ id key => if index.keyOf id = key then some index else none
  | .size _ count => if index.size = count then some index else none

/-- A call only adds to the index. -/
theorem KeyIndexEvent.performed_grows {index next : KeyIndex} {event : KeyIndexEvent ι}
    (answered : event.performed index = some next) : index.Grows next := by
  -- Only an insertion can add a key.
  cases event with
  | getOrInsert thread key id =>
    obtain ⟨-, same⟩ := Option.ite_none_right_eq_some.mp answered
    exact Option.some.inj same ▸ index.getOrInsert_grows key
  | _ =>
    obtain ⟨-, same⟩ := Option.ite_none_right_eq_some.mp answered
    rw [← Option.some.inj same]

/-- The calls together only add to the index. -/
theorem performed_run_grows {index final : KeyIndex} {events : List (KeyIndexEvent ι)}
    (answered : events.foldlM KeyIndexEvent.performed index = some final) : index.Grows final := by
  have kept : ∀ (state : KeyIndex) (event : KeyIndexEvent ι) (next : KeyIndex), index.Grows state →
      KeyIndexEvent.performed state event = some next → index.Grows next :=
    fun _ _ _ grown one => grown.trans (KeyIndexEvent.performed_grows one)
  exact foldlM_invariant kept (.refl index) answered

/-- After some calls, the keys with an id are those that had one and those that were inserted. -/
theorem performed_find_iff {index final : KeyIndex} {events : List (KeyIndexEvent ι)}
    (answered : events.foldlM KeyIndexEvent.performed index = some final) (key : Bytes)
    (id : KeyId) :
    final.find key = some id ↔
      index.find key = some id ∨ ∃ thread, KeyIndexEvent.getOrInsert thread key id ∈ events := by
  -- The induction is on the calls, and only an insertion of the key itself matters.
  induction events generalizing index with
  | nil =>
    obtain rfl : index = final := by simpa using answered
    simp
  | cons event events ih =>
    obtain ⟨next, first, later⟩ := foldlM_cons_some answered
    rw [ih later]
    cases event with
    | getOrInsert thread inserted given =>
      obtain ⟨rfl, rfl⟩ := by simpa [KeyIndexEvent.performed] using first
      by_cases same : key = inserted
      · subst same
        rw [index.find_getOrInsert_self key]
        constructor
        · intro either
          rcases either with now | ⟨other, listed⟩
          · exact .inr ⟨thread, by simp [Option.some.inj now]⟩
          · exact .inr ⟨other, List.mem_cons_of_mem _ listed⟩
        · intro either
          rcases either with had | ⟨other, listed⟩
          · exact .inl ((index.getOrInsert_of_find had) ▸ rfl)
          · rcases List.mem_cons.mp listed with now | listed
            · cases now
              exact .inl rfl
            · exact .inr ⟨other, listed⟩
      · rw [index.find_getOrInsert_of_ne same]
        simp [same]
    | _ =>
      obtain ⟨-, same⟩ := Option.ite_none_right_eq_some.mp first
      simp [Option.some.inj same]

/-- A call in the middle of a history, and the index it met. -/
theorem performed_split {index final : KeyIndex} {before after : List (KeyIndexEvent ι)}
    {event : KeyIndexEvent ι}
    (answered : (before ++ event :: after).foldlM KeyIndexEvent.performed index = some final) :
    ∃ met, before.foldlM KeyIndexEvent.performed index = some met ∧
      ∃ left, event.performed met = some left ∧ after.foldlM KeyIndexEvent.performed left =
        some final := by
  obtain ⟨met, first, rest⟩ := foldlM_append_some answered
  exact ⟨met, first, foldlM_cons_some rest⟩

end Sequential

section Refinement

variable {ι : Type} {hash : Bytes → Nat} {keys : Finset Bytes} {index : KeyIndex}
    {state next : SharedKeyIndex ι}

namespace SharedKeyIndex

/-- No thread holds the locks, and the tables are those of the sequential index. -/
structure Rests (hash : Bytes → Nat) (index : KeyIndex) (state : SharedKeyIndex ι) : Prop where
  free : state.locked = none
  reverse : state.reverse = index.reverse.names
  shards : ∀ key, (state.shards (shardIndex hash key)).find key = index.find key
  quiet : ∀ thread key id, state.phases thread ≠ .inserted key id

/-- A thread holds the locks, and its key is in the tables but not yet in the sequential index. -/
structure Inserting (hash : Bytes → Nat) (index : KeyIndex) (state : SharedKeyIndex ι) (thread : ι)
    (key : Bytes) : Prop where
  held : state.locked = some (shardIndex hash key)
  fresh : index.find key = none
  phase : state.phases thread = .inserted key index.size
  reverse : state.reverse = index.reverse.names ++ [key]
  shards : ∀ other, (state.shards (shardIndex hash other)).find other =
    if other = key then some index.size else index.find other
  alone : ∀ other key id, state.phases other = .inserted key id → other = thread

/-- The calls that returned are those of the sequential index, in the order of their returns. -/
structure Refines (hash : Bytes → Nat) (keys : Finset Bytes) (index : KeyIndex)
    (state : SharedKeyIndex ι) :
    Prop where
  answered : state.history.foldlM KeyIndexEvent.performed KeyIndex.empty = some index
  size : state.size = index.size
  known : ∀ key ∈ state.reverse, key ∈ keys
  asked : ∀ thread key, state.phases thread = .missed key → key ∈ keys
  stored : state.Rests hash index ∨ ∃ thread key, state.Inserting hash index thread key

/-- Before any call nothing is stored. -/
theorem initial_refines : (initial : SharedKeyIndex ι).Refines hash keys .empty where
  answered := rfl
  size := rfl
  known := by simp [initial]
  asked := by simp [initial]
  stored := .inl ⟨rfl, rfl, fun _ => rfl, by simp [initial]⟩

/-- A shard that is not locked holds the ids of the sequential index. -/
theorem Refines.reads (refines : state.Refines hash keys index) {key : Bytes}
    (open_ : state.locked ≠ some (shardIndex hash key)) :
    (state.shards (shardIndex hash key)).find key = index.find key := by
  rcases refines.stored with rests | ⟨thread, pending, inserting⟩
  · exact rests.shards key
  · -- The key in flight is in the locked shard.
    have other : key ≠ pending := fun same => open_ (same ▸ inserting.held)
    rw [inserting.shards key, if_neg other]

/-- Without a held lock, the tables are those of the sequential index. -/
theorem Refines.rests (refines : state.Refines hash keys index) (free : state.locked = none) :
    state.Rests hash index := by
  rcases refines.stored with rests | ⟨thread, pending, inserting⟩
  · exact rests
  · exact absurd (free.symm.trans inserting.held) (by simp)

/-- A call that returns what the sequential index answers, without changing it. -/
theorem Refines.returns (refines : state.Refines hash keys index) {event : KeyIndexEvent ι}
    (same : event.performed index = some index) :
    (state.returns event).Refines hash keys index where
  answered := by
    rw [SharedKeyIndex.returns, List.foldlM_append, refines.answered]
    simp [same]
  size := refines.size
  known := refines.known
  asked := refines.asked
  stored := by
    -- No table, lock or phase changes.
    rcases refines.stored with rests | ⟨thread, pending, inserting⟩
    · exact .inl ⟨rests.free, rests.reverse, rests.shards, rests.quiet⟩
    · exact .inr ⟨thread, pending, inserting.held, inserting.fresh, inserting.phase,
        inserting.reverse,
        inserting.shards, inserting.alone⟩

/-- Inserting a key that has an id answers that id. -/
theorem performed_getOrInsert_of_find {thread : ι} {key : Bytes} {id : KeyId}
    (found : index.find key = some id) :
    (KeyIndexEvent.getOrInsert thread key id).performed index = some index := by
  simp [KeyIndexEvent.performed, KeyIndex.getOrInsert_of_find found]

/-- Inserting a new key answers the next id. -/
theorem performed_getOrInsert_of_fresh {thread : ι} {key : Bytes} (fresh : index.find key = none) :
    (KeyIndexEvent.getOrInsert thread key index.size).performed index = some
      (index.getOrInsert key).1 := by
  simp [KeyIndexEvent.performed, KeyIndex.getOrInsert_of_fresh fresh, KeyIndex.size]

/-- Fewer keys are stored than there are ids. -/
theorem Refines.size_lt (refines : state.Refines hash keys index)
    (few : keys.card < INVALID_KEY_ID) :
    index.size < INVALID_KEY_ID := by
  -- The names are distinct, and all of them are known keys.
  have listed : ∀ key ∈ index.reverse.names, key ∈ keys := by
    intro key member
    rcases refines.stored with rests | ⟨thread, pending, inserting⟩
    · exact refines.known key (rests.reverse ▸ member)
    · exact refines.known key (inserting.reverse ▸ List.mem_append_left _ member)
  have counted : index.reverse.names.toFinset.card ≤ keys.card :=
    Finset.card_le_card fun key member => listed key (List.mem_toFinset.mp member)
  rw [List.toFinset_card_of_nodup index.reverse.distinct] at counted
  exact Nat.lt_of_le_of_lt counted few

variable [DecidableEq ι]

/-- A thread that is not inserting goes on to a phase without locks. -/
theorem Refines.enter (refines : state.Refines hash keys index) {thread : ι} {phase : KeyIndexPhase}
    (outside : ∀ key id, state.phases thread ≠ .inserted key id)
    (lockless : ∀ key id, phase ≠ .inserted key id)
    (asks : ∀ key, phase = .missed key → key ∈ keys) :
    (state.enter thread phase).Refines hash keys index where
  answered := refines.answered
  size := refines.size
  known := refines.known
  asked := by
    intro other key missed
    by_cases same : other = thread
    · subst same
      exact asks key (by simpa [SharedKeyIndex.enter] using missed)
    · exact refines.asked other key (by simpa [SharedKeyIndex.enter, same] using missed)
  stored := by
    -- The other threads are where they were.
    have moved {other : ι} (differs : other ≠ thread) :
        (state.enter thread phase).phases other = state.phases other :=
      Function.update_of_ne differs ..
    have entered : (state.enter thread phase).phases thread = phase := Function.update_self ..
    rcases refines.stored with rests | ⟨holder, pending, inserting⟩
    · refine .inl ⟨rests.free, rests.reverse, rests.shards, fun other key id there => ?_⟩
      by_cases same : other = thread
      · exact lockless key id (entered.symm.trans (same ▸ there))
      · exact rests.quiet other key id ((moved same).symm.trans there)
    · have differs : holder ≠ thread := fun same => outside _ _ (same ▸ inserting.phase)
      refine .inr ⟨holder, pending, inserting.held, inserting.fresh,
        (moved differs).trans inserting.phase,
        inserting.reverse, inserting.shards, fun other key id there => ?_⟩
      by_cases same : other = thread
      · exact absurd (entered.symm.trans (same ▸ there)) (lockless key id)
      · exact inserting.alone other key id ((moved same).symm.trans there)

/-- The lookup under the shared lock. -/
theorem Refines.lookUp (refines : state.Refines hash keys index) {thread : ι} {key : Bytes}
    (asks : key ∈ keys)
    (idle : state.phases thread = .idle) (open_ : state.locked ≠ some (shardIndex hash key)) :
    (state.lookUp hash thread key).Refines hash keys index := by
  have reads := refines.reads open_
  unfold SharedKeyIndex.lookUp
  split
  · -- A key with an id keeps it.
    rename_i id found
    exact refines.returns (performed_getOrInsert_of_find (reads.symm.trans found))
  · refine refines.enter (by simp [idle]) (by simp) fun other same => ?_
    cases same
    exact asks

/-- The insertion of a key that is missing under both locks. -/
theorem Refines.append (refines : state.Refines hash keys index) (few : keys.card < INVALID_KEY_ID)
    {thread : ι}
    {key : Bytes} (missed : state.phases thread = .missed key) (free : state.locked = none)
    (fresh : index.find key = none) : (state.append hash thread key).Refines hash keys index := by
  have rests := refines.rests free
  -- The new id is the number of names, which the cast to 32 bits keeps.
  have bound := refines.size_lt few
  have newId : state.reverse.length % 2 ^ 32 = index.size := by
    rw [rests.reverse]
    exact Nat.mod_eq_of_lt (Nat.lt_trans bound (by decide))
  have elsewhere (other : ι) (differs : other ≠ thread) :
      (state.append hash thread key).phases other = state.phases other :=
        Function.update_of_ne differs ..
  have here : (state.append hash thread key).phases thread = .inserted key index.size :=
    (Function.update_self ..).trans (by rw [newId])
  refine ⟨refines.answered, refines.size, ?_, ?_, .inr ⟨thread, key, rfl, fresh, here, ?_, ?_, ?_⟩⟩
  · -- The thread has asked for the key when it missed it.
    intro other member
    rcases List.mem_append.mp member with old | new
    · exact refines.known other old
    · exact List.mem_singleton.mp new ▸ refines.asked thread key missed
  · intro other asked phase
    by_cases same : other = thread
    · exact absurd (here.symm.trans (same ▸ phase)) (by simp)
    · exact refines.asked other asked ((elsewhere other same).symm.trans phase)
  · exact congrArg (· ++ [key]) rests.reverse
  · intro other
    -- Only the shard of the new key changes, and in it only that key.
    simp only [SharedKeyIndex.append, newId]
    by_cases shard : shardIndex hash other = shardIndex hash key
    · rw [shard, Function.update_self, KeyedList.find_put, ← shard, rests.shards other]
    · have differs : other ≠ key := fun same => shard (same ▸ rfl)
      rw [Function.update_of_ne shard, rests.shards other, if_neg differs]
  · intro other found id phase
    by_contra differs
    exact rests.quiet other found id ((elsewhere other differs).symm.trans phase)

/-- The section under both exclusive locks. -/
theorem Refines.insert (refines : state.Refines hash keys index) (few : keys.card < INVALID_KEY_ID)
    {thread : ι}
    {key : Bytes} (missed : state.phases thread = .missed key) (free : state.locked = none) :
    (state.insert hash thread key).Refines hash keys index := by
  have reads := (refines.rests free).shards key
  unfold SharedKeyIndex.insert
  split
  · -- Another thread was faster.
    rename_i id found
    have idle : (state.enter thread .idle).Refines hash keys index :=
      refines.enter (by simp [missed]) (by simp) (by simp)
    exact idle.returns (performed_getOrInsert_of_find (reads.symm.trans found))
  · rename_i absent
    exact refines.append few missed free (reads.symm.trans absent)

/-- The store of the size is where the sequential index takes the key in. -/
theorem Refines.publish (refines : state.Refines hash keys index) {thread : ι} {key : Bytes}
    {id : KeyId}
    (phase : state.phases thread = .inserted key id) :
    (state.publish thread key id).Refines hash keys (index.getOrInsert key).1 := by
  rcases refines.stored with rests | ⟨holder, pending, inserting⟩
  · exact absurd phase (rests.quiet thread key id)
  -- The thread is the one that holds the locks.
  obtain rfl : thread = holder := inserting.alone thread key id phase
  obtain ⟨rfl, rfl⟩ : key = pending ∧ id = index.size := by
    simpa using phase.symm.trans inserting.phase
  have taken : (index.getOrInsert key).1.reverse.names = index.reverse.names ++ [key] := by
    rw [KeyIndex.getOrInsert_of_fresh inserting.fresh]
    rfl
  have elsewhere (other : ι) (differs : other ≠ thread) :
      (state.publish thread key index.size).phases other = state.phases other :=
        Function.update_of_ne differs ..
  have here : (state.publish thread key index.size).phases thread = .idle := Function.update_self ..
  refine ⟨?_, ?_, refines.known, ?_, .inl ⟨rfl, inserting.reverse.trans taken.symm, ?_, ?_⟩⟩
  · change (state.history ++ [_]).foldlM KeyIndexEvent.performed KeyIndex.empty = _
    rw [List.foldlM_append, refines.answered]
    simp [performed_getOrInsert_of_fresh inserting.fresh]
  · exact congrArg List.length (inserting.reverse.trans taken.symm)
  · intro other asked missed
    by_cases same : other = thread
    · exact absurd (here.symm.trans (same ▸ missed)) (by simp)
    · exact refines.asked other asked ((elsewhere other same).symm.trans missed)
  · intro other
    rw [show ((state.publish thread key index.size).shards _) = state.shards _ from rfl,
      inserting.shards other]
    by_cases same : other = key
    · rw [if_pos same, same, KeyIndex.find_getOrInsert_self,
        KeyIndex.getOrInsert_of_fresh inserting.fresh]
      rfl
    · rw [if_neg same, KeyIndex.find_getOrInsert_of_ne _ same]
  · intro other found number inserted
    by_cases same : other = thread
    · exact absurd (here.symm.trans (same ▸ inserted)) (by simp)
    · exact same (inserting.alone other found number ((elsewhere other same).symm.trans inserted))

/-- Every step of every thread. -/
theorem Refines.step (refines : state.Refines hash keys index) (few : keys.card < INVALID_KEY_ID)
    {action : KeyIndexStep ι} (asks : ∀ key, action.insertedKey = some key → key ∈ keys)
    (done : state.step hash action = some next) : ∃ after, next.Refines hash keys after := by
  -- Looking a key up, inserting it and reading change nothing that the index shows. The key enters
  -- the index when it is published.
  cases action with
  | lookUp thread key =>
    obtain ⟨⟨idle, open_⟩, same⟩ := Option.ite_none_right_eq_some.mp done
    exact ⟨index, Option.some.inj same ▸ refines.lookUp (asks key rfl) idle open_⟩
  | insert thread =>
    simp only [SharedKeyIndex.step] at done
    split at done
    · rename_i key missed
      obtain ⟨free, same⟩ := Option.ite_none_right_eq_some.mp done
      exact ⟨index, Option.some.inj same ▸ refines.insert few missed free⟩
    · simp at done
  | publish thread =>
    simp only [SharedKeyIndex.step] at done
    split at done
    · rename_i key id phase
      exact ⟨_, Option.some.inj done ▸ refines.publish phase⟩
    · simp at done
  -- What is read agrees with the index at this moment.
  | find thread key =>
    obtain ⟨⟨idle, open_⟩, same⟩ := Option.ite_none_right_eq_some.mp done
    refine ⟨index, Option.some.inj same ▸ refines.returns ?_⟩
    simp [KeyIndexEvent.performed, refines.reads open_]
  | keyOf thread id =>
    obtain ⟨⟨idle, free⟩, same⟩ := Option.ite_none_right_eq_some.mp done
    refine ⟨index, Option.some.inj same ▸ refines.returns ?_⟩
    simp [KeyIndexEvent.performed, KeyIndex.keyOf, Interner.get, (refines.rests free).reverse]
  | loadSize thread =>
    obtain ⟨idle, same⟩ := Option.ite_none_right_eq_some.mp done
    refine ⟨index, Option.some.inj same ▸ refines.returns ?_⟩
    simp [KeyIndexEvent.performed, refines.size]

/-- Every run of every set of threads answers as the sequential index does, call by call. -/
theorem run_refines (few : keys.card < INVALID_KEY_ID) {actions : List (KeyIndexStep ι)}
    {final : SharedKeyIndex ι} (asks : ∀ action ∈ actions, ∀ key, action.insertedKey = some key →
    key ∈ keys)
    (done : actions.foldlM (SharedKeyIndex.step hash) .initial = some final) :
    ∃ index, final.Refines hash keys index := by
  -- The known keys are fixed before the run, so that the number of ids has a bound at every step.
  suffices always : ∀ state : SharedKeyIndex ι, (∃ index, state.Refines hash keys index) →
      actions.foldlM (SharedKeyIndex.step hash) state = some final →
        ∃ index, final.Refines hash keys index by
    exact always .initial ⟨.empty, initial_refines⟩ done
  clear done
  induction actions with
  | nil =>
    intro state refines done
    obtain rfl : state = final := by simpa using done
    exact refines
  | cons action rest ih =>
    intro state refines done
    obtain ⟨index, refines⟩ := refines
    obtain ⟨next, first, later⟩ := foldlM_cons_some done
    have stepped := refines.step few (asks action (List.mem_cons_self ..)) first
    exact ih (fun other member => asks other (List.mem_cons_of_mem _ member)) next stepped later

end SharedKeyIndex

end Refinement

section Consistency

variable {ι : Type}

/-- The key that a finished call has inserted or found present. -/
def KeyIndexEvent.insertedKey : KeyIndexEvent ι → Option Bytes
  | .getOrInsert _ key _ => some key
  | _ => none

/-- What the answers of all calls, in the order of their returns, promise together. -/
structure InternsConsistently (history : List (KeyIndexEvent ι)) : Prop where
  /-- All insertions of one key return one id, which is not the id of a missing key. -/
  sameId : ∀ first second key firstId secondId, .getOrInsert first key firstId ∈ history →
    .getOrInsert second key secondId ∈ history → firstId = secondId ∧ firstId ≠ INVALID_KEY_ID
  /-- Different keys have different ids. -/
  sameKey : ∀ first second firstKey secondKey id, .getOrInsert first firstKey id ∈ history →
    .getOrInsert second secondKey id ∈ history → firstKey = secondKey
  /-- The ids are those below the number of distinct keys inserted. -/
  dense : ∀ id, (∃ thread key, .getOrInsert thread key id ∈ history) ↔
    id < (history.filterMap KeyIndexEvent.insertedKey).toFinset.card
  /-- `KeyOf` answers the key that got the id, and always once it has got it. -/
  keyOf : ∀ before after thread id answer, history = before ++ .keyOf thread id answer :: after →
    ∀ key, answer = some key ↔ ∃ other, .getOrInsert other key id ∈ before
  /-- `Find` answers the id of the key, and misses no key that was inserted before. -/
  find : ∀ before after thread key answer, history = before ++ .find thread key answer :: after →
    (∃ other, .getOrInsert other key answer ∈ before) ∨
      answer = INVALID_KEY_ID ∧ ∀ other id, .getOrInsert other key id ∉ before
  /-- Below a size that was returned every id is given, and resolves to its key from then on. -/
  size : ∀ before after thread count, history = before ++ .size thread count :: after →
    ∀ id < count,
    ∃ key, (∃ other, .getOrInsert other key id ∈ before) ∧
      ∀ other answer, .keyOf other id answer ∈ after → answer = some key

/-- The sequential index, with fewer keys than ids, answers consistently. -/
theorem performed_internsConsistently {history : List (KeyIndexEvent ι)} {index : KeyIndex}
    (answered : history.foldlM KeyIndexEvent.performed KeyIndex.empty = some index)
    (few : index.size < INVALID_KEY_ID) : InternsConsistently history := by
  -- From the empty index, the ids are those that were returned.
  have given {events : List (KeyIndexEvent ι)} {reached : KeyIndex}
      (run : events.foldlM KeyIndexEvent.performed KeyIndex.empty = some reached) (key : Bytes)
        (id : KeyId) :
      (∃ thread, .getOrInsert thread key id ∈ events) ↔ reached.find key = some id := by
    rw [performed_find_iff run key id]
    simp [KeyIndex.empty, KeyIndex.find, Interner.find, Interner.empty]
  have bounded {key : Bytes} {id : KeyId} (found : index.find key = some id) :
      id ≠ INVALID_KEY_ID :=
    Nat.ne_of_lt (Nat.lt_trans (Interner.find_lt_size found) few)
  -- A call in the middle is answered by the index it met, and the final index has kept its ids.
  have met {before after : List (KeyIndexEvent ι)} {event : KeyIndexEvent ι}
      (cut : history = before ++ event :: after) :
      ∃ met, before.foldlM KeyIndexEvent.performed KeyIndex.empty = some met ∧ met.Grows index ∧
        event.performed met ≠ none := by
    subst cut
    obtain ⟨met, first, left, now, later⟩ := performed_split answered
    exact ⟨met, first, (KeyIndexEvent.performed_grows now).trans (performed_run_grows later),
      by simp [now]⟩
  have keyOf_iff (before after : List (KeyIndexEvent ι)) (thread : ι) (id : KeyId)
    (answer : Option Bytes)
      (cut : history = before ++ .keyOf thread id answer :: after) (key : Bytes) :
      answer = some key ↔ ∃ other, .getOrInsert other key id ∈ before := by
    obtain ⟨state, first, grown, now⟩ := met cut
    have same : state.keyOf id = answer := by
      by_contra differs
      exact now (if_neg differs)
    rw [given first, KeyIndex.find, Interner.find_eq_some_iff, ← same]
    rfl
  refine ⟨?_, ?_, ?_, keyOf_iff, ?_, ?_⟩
  · intro first second key firstId secondId left right
    have one := (given answered key firstId).mp ⟨first, left⟩
    have other := (given answered key secondId).mp ⟨second, right⟩
    exact ⟨Option.some.inj (one.symm.trans other), bounded one⟩
  · intro first second firstKey secondKey id left right
    exact KeyIndex.find_inj ((given answered firstKey id).mp ⟨first, left⟩)
      ((given answered secondKey id).mp ⟨second, right⟩)
  · intro id
    -- The distinct inserted keys are the names of the index.
    have listed : (history.filterMap KeyIndexEvent.insertedKey).toFinset =
        index.reverse.names.toFinset := by
      ext key
      rw [List.mem_toFinset, List.mem_toFinset, List.mem_filterMap]
      constructor
      · intro inserted
        obtain ⟨event, member, same⟩ := inserted
        cases event with
        | getOrInsert thread held id =>
          obtain rfl : held = key := Option.some.inj same
          have found := (given answered held id).mp ⟨thread, member⟩
          by_contra absent
          exact absurd (found.symm.trans (Interner.find_eq_none_iff.mpr absent)) (by simp)
        | _ => simp [KeyIndexEvent.insertedKey] at same
      · intro member
        cases found : index.find key with
        | none => exact absurd member (Interner.find_eq_none_iff.mp found)
        | some id =>
          obtain ⟨thread, inserted⟩ := (given answered key id).mpr found
          exact ⟨_, inserted, rfl⟩
    rw [listed, List.toFinset_card_of_nodup index.reverse.distinct]
    constructor
    · intro inserted
      obtain ⟨thread, key, member⟩ := inserted
      exact Interner.find_lt_size ((given answered key id).mp ⟨thread, member⟩)
    · intro bound
      obtain ⟨key, held⟩ : ∃ key, index.reverse.get id = some key := Interner.get_of_lt bound
      obtain ⟨thread, member⟩ := (given answered key id).mpr (Interner.find_eq_some_iff.mpr held)
      exact ⟨thread, key, member⟩
  · intro before after thread key answer cut
    obtain ⟨state, first, grown, now⟩ := met cut
    have same : (state.find key).getD INVALID_KEY_ID = answer := by
      by_contra differs
      exact now (if_neg differs)
    cases found : state.find key with
    | some id =>
      rw [found] at same
      exact .inl (same ▸ (given first key id).mpr found)
    | none =>
      rw [found] at same
      refine .inr ⟨same.symm, fun other id inserted => ?_⟩
      exact absurd (found.symm.trans ((given first key id).mp ⟨other, inserted⟩)) (by simp)
  · intro before after thread count cut id below
    obtain ⟨state, first, grown, now⟩ := met cut
    have same : state.size = count := by
      by_contra differs
      exact now (if_neg differs)
    obtain ⟨key, held⟩ : ∃ key, state.reverse.get id = some key :=
      Interner.get_of_lt (same.symm ▸ below : id < state.size)
    have inserted := (given first key id).mpr (Interner.find_eq_some_iff.mpr held)
    refine ⟨key, inserted, fun other answer asked => ?_⟩
    -- A later `KeyOf` comes after the same insertion.
    obtain ⟨middle, rest, split⟩ := List.append_of_mem asked
    have later : history = (before ++ .size thread count :: middle) ++
        .keyOf other id answer :: rest := by
      rw [cut, split]
      simp
    obtain ⟨inserter, member⟩ := inserted
    exact (keyOf_iff _ _ _ _ _ later key).mpr ⟨inserter, List.mem_append_left _ member⟩

/-- In every interleaving of the calls of any threads on fewer than `2 ^ 32 - 1` distinct keys, the
answers are consistent. -/
theorem SharedKeyIndex.run_internsConsistently [DecidableEq ι] (hash : Bytes → Nat)
    {actions : List (KeyIndexStep ι)} {final : SharedKeyIndex ι}
    (few : (actions.filterMap KeyIndexStep.insertedKey).toFinset.card < INVALID_KEY_ID)
    (done : actions.foldlM (SharedKeyIndex.step hash) .initial = some final) :
    InternsConsistently final.history := by
  have asks : ∀ action ∈ actions, ∀ key, action.insertedKey = some key →
      key ∈ (actions.filterMap KeyIndexStep.insertedKey).toFinset := by
    intro action member key same
    exact List.mem_toFinset.mpr (List.mem_filterMap.mpr ⟨action, member, same⟩)
  obtain ⟨index, refines⟩ := run_refines few asks done
  exact performed_internsConsistently refines.answered (refines.size_lt few)

/-- Two threads that race for one key while a third reads the size and a fourth inserts another. -/
def racingSteps : List (KeyIndexStep Nat) :=
  [.lookUp 0 (bytes "level"), .lookUp 1 (bytes "level"), .insert 1, .loadSize 2,
    .lookUp 3 (bytes "time"),
    .publish 1, .insert 0, .find 2 (bytes "level"), .insert 3, .publish 3, .loadSize 2, .keyOf 0 1]

/-- The answers of the race. -/
def racedHistory : List (KeyIndexEvent Nat) :=
  [.size 2 0, .getOrInsert 1 (bytes "level") 0, .getOrInsert 0 (bytes "level") 0,
    .find 2 (bytes "level") 0,
    .getOrInsert 3 (bytes "time") 1, .size 2 2, .keyOf 0 1 (some (bytes "time"))]

/-- The race is a run, and its answers are consistent. -/
theorem racingSteps_internConsistently :
    ∃ final, racingSteps.foldlM (SharedKeyIndex.step List.length) .initial = some final ∧
      final.history = racedHistory ∧ InternsConsistently final.history :=
  ⟨_, rfl, by decide, @SharedKeyIndex.run_internsConsistently Nat _ List.length racingSteps _ (by decide) rfl⟩

end Consistency

end Loglib
