import Loglib.Basic.Bytes

/-! Reading framed values off a byte stream that may end too early, and has a sticky status. -/

namespace Loglib

/-- The bytes not yet read, and whether every read so far found what it needed. -/
structure DataStream where
  bytes : Bytes
  ok : Bool
deriving DecidableEq

namespace DataStream

/-- A stream that ended too early. -/
def exhausted : DataStream := ⟨[], false⟩

/-- So many bytes, or what is left of them and a failure. -/
def readRaw (count : Nat) : StateM DataStream (Option Bytes) := fun stream =>
  if count ≤ stream.bytes.length then
    (some (stream.bytes.take count), ⟨stream.bytes.drop count, stream.ok⟩)
  else (none, exhausted)

/-- One byte, zero on failure. -/
def readU8 : StateM DataStream UInt8 := do
  let raw ← readRaw 1
  pure ((raw.getD []).getD 0 0)

/-- The number that bytes spell, the highest first. -/
def bigEndian (raw : Bytes) : Nat :=
  raw.foldl (fun (value : Nat) (byte : Byte) => value * 256 + byte.toNat) 0

/-- Four bytes, the highest first, zero on failure. -/
def readU32 : StateM DataStream UInt32 := do
  let raw ← readRaw 4
  pure (bigEndian (raw.getD [])).toUInt32

/-- The four bytes of a number, the highest first. -/
def writeU32 (value : UInt32) : Bytes :=
  [(value >>> 24).toUInt8, (value >>> 16).toUInt8, (value >>> 8).toUInt8, value.toUInt8]

/-- The items of a list one after another; a failed read clears the list and ends the loop. -/
def readItems {α : Type} (read : StateM DataStream α) : Nat → List α → StateM DataStream (List α)
  | 0, items => pure items
  | count + 1, items => do
    let item ← read
    if (← get).ok then readItems read count (items ++ [item]) else pure []

/-- A reader that leaves an exhausted stream alone. -/
def Quiet {α : Type} (read : StateM DataStream α) : Prop := (read exhausted).2 = exhausted

/-- The reader takes a frame off the stream for the value, and exhausts a stream that ends
inside it. -/
structure Framed {α : Type} (read : StateM DataStream α) (value : α) (frame : Bytes) : Prop where
  whole : ∀ rest, read ⟨frame ++ rest, true⟩ = (value, ⟨rest, true⟩)
  cut : ∀ front back, frame = front ++ back → back ≠ [] → (read ⟨front, true⟩).2 = exhausted

section Laws

variable {α β : Type}

/-- Reading nothing. -/
theorem Framed.pure (value : α) : Framed (Pure.pure value) value [] where
  whole := fun _ => rfl
  cut := by
    intro front back empty missing
    exact absurd (List.append_eq_nil_iff.mp empty.symm).2 missing

/-- Reading nothing is quiet. -/
theorem Quiet.pure (value : α) : Quiet (Pure.pure value) := rfl

/-- Two quiet readers in a row. -/
theorem Quiet.bind {read : StateM DataStream α} {next : α → StateM DataStream β}
    (first : Quiet read)
    (later : ∀ value, Quiet (next value)) : Quiet (read >>= next) := by
  have same := later (read exhausted).1
  change (next (read exhausted).1 (read exhausted).2).2 = exhausted
  rw [first]
  exact same

/-- Two frames in a row. -/
theorem Framed.bind {read : StateM DataStream α} {next : α → StateM DataStream β} {value : α}
    {result : β}
    {frame more : Bytes} (first : Framed read value frame)
    (second : Framed (next value) result more)
    (later : ∀ value, Quiet (next value)) : Framed (read >>= next) result (frame ++ more) where
  whole := by
    intro rest
    change next (read ⟨frame ++ more ++ rest, true⟩).1 (read ⟨frame ++ more ++ rest, true⟩).2 = _
    rw [List.append_assoc, first.whole, second.whole]
  cut := by
    intro front back whole missing
    change (next (read ⟨front, true⟩).1 (read ⟨front, true⟩).2).2 = exhausted
    -- The stream ends inside the first frame, or at its end, or inside the second.
    rcases List.append_eq_append_iff.mp whole with ⟨inner, rfl, same⟩ | ⟨inner, same, rfl⟩
    · rw [first.whole]
      exact second.cut inner back same missing
    · by_cases ends : inner = []
      · subst ends
        rw [List.append_nil] at same
        subst same
        have all := first.whole []
        rw [List.append_nil] at all
        rw [all]
        exact second.cut [] more rfl (by simpa using missing)
      · rw [first.cut front inner same ends]
        exact later _

/-- A value made from a frame. -/
theorem Framed.map {read : StateM DataStream α} {value : α} {frame : Bytes}
    (first : Framed read value frame)
    (make : α → β) : Framed (read >>= fun value => Pure.pure (make value)) (make value) frame := by
  have both := first.bind (Framed.pure (make value)) fun _ => Quiet.pure _
  rwa [List.append_nil] at both

/-- Raw bytes are their own frame. -/
theorem framed_readRaw (frame : Bytes) : Framed (readRaw frame.length) (some frame) frame where
  whole := by
    intro rest
    simp [readRaw]
  cut := by
    intro front back whole missing
    -- A stream that was cut is too short, and the read fails.
    have short : front.length < frame.length := by
      have positive := List.length_pos_iff.mpr missing
      rw [whole, List.length_append]
      omega
    rw [readRaw, if_neg (Nat.not_le.mpr short)]

/-- A failed read exhausts the stream. -/
theorem quiet_readRaw (count : Nat) : Quiet (readRaw count) := by
  unfold Quiet readRaw exhausted
  split <;> simp

/-- One byte is its own frame. -/
theorem framed_readU8 (byte : UInt8) : Framed readU8 byte [byte] := (framed_readRaw [byte]).map _

/-- Reading one byte is quiet. -/
theorem quiet_readU8 : Quiet readU8 := (quiet_readRaw 1).bind fun _ => Quiet.pure _

/-- The four bytes of a number spell it. -/
theorem bigEndian_writeU32 (value : UInt32) : (bigEndian (writeU32 value)).toUInt32 = value := by
  apply UInt32.toNat_inj.mp
  have bound := value.toNat_lt
  simp [bigEndian, writeU32, Nat.shiftRight_eq_div_pow]
  omega

/-- A number takes four bytes. -/
@[simp] theorem length_writeU32 (value : UInt32) : (writeU32 value).length = 4 := rfl

/-- A number is framed by its four bytes. -/
theorem framed_readU32 (value : UInt32) : Framed readU32 value (writeU32 value) := by
  have raw := (framed_readRaw (writeU32 value)).map fun raw => (bigEndian (raw.getD [])).toUInt32
  rwa [Option.getD_some, bigEndian_writeU32] at raw

/-- Reading a number is quiet. -/
theorem quiet_readU32 : Quiet readU32 := (quiet_readRaw 4).bind fun _ => Quiet.pure _

/-- Reading items is quiet if reading one is. -/
theorem quiet_readItems {read : StateM DataStream α} (quiet : Quiet read) (count : Nat)
    (items : List α) :
    Quiet (readItems read count items) := by
  cases count with
  | zero => exact Quiet.pure items
  | succ count =>
    exact quiet.bind fun _ => rfl

/-- The frames of the items in a row frame the list. -/
theorem framed_readItems {read : StateM DataStream α} (write : α → Bytes) (items : List α)
    (each : ∀ item ∈ items, Framed read item (write item)) (before : List α) :
    Framed (readItems read items.length before) (before ++ items) (items.flatMap write) := by
  induction items generalizing before with
  | nil => simpa [readItems] using Framed.pure before
  | cons item rest ih =>
    have later := ih (fun other member => each other (List.mem_cons_of_mem _ member))
      (before ++ [item])
    rw [List.append_assoc, List.singleton_append] at later
    -- After a whole item the status is still good, and the loop goes on.
    have next : Framed
        (do if (← get).ok then readItems read rest.length (before ++ [item]) else Pure.pure [])
        (before ++ item :: rest) (rest.flatMap write) := ⟨later.whole, later.cut⟩
    exact (each item (List.mem_cons_self ..)).bind next fun _ => rfl

end Laws

end DataStream

end Loglib
