import Loglib.Basic.Bytes

/-! Streaming decoders that are not part of the program: what they deliver of the bytes that they
have consumed. -/

namespace Loglib

/-- What one call of a decoder comes to: how much of the input it has consumed, and what it has
produced. -/
inductive DecoderCall where
  | error (taken : Nat) (name : String)
  | done (taken : Nat) (produced : Bytes) (result : Nat)

/-- A decoder with its context, which is called with the input that is left. -/
structure StreamDecoder where
  Context : Type
  create : Context
  decompressStream : Context → Bytes → Context × DecoderCall

namespace StreamDecoder

variable {decoder : StreamDecoder} {context next : decoder.Context}
    {consumed delivered input produced : Bytes} {taken result : Nat}

/-- A context after some calls, with the bytes consumed and delivered by all of them. -/
inductive Reaches (decoder : StreamDecoder) : decoder.Context → Bytes → Bytes → Prop where
  | create : Reaches decoder decoder.create [] []
  | call {context next : decoder.Context} {consumed delivered input produced : Bytes}
      {taken result : Nat}
      (reached : Reaches decoder context consumed delivered) (some_ : input ≠ [])
      (called : decoder.decompressStream context input = (next, .done taken produced result)) :
      Reaches decoder next (consumed ++ input.take taken) (delivered ++ produced)

/-- A call without an error, after the bytes consumed and delivered before it. -/
def Calls (decoder : StreamDecoder) (consumed delivered input : Bytes) (taken : Nat)
    (produced : Bytes) (result : Nat) : Prop :=
  input ≠ [] ∧ ∃ context next, Reaches decoder context consumed delivered ∧
    decoder.decompressStream context input = (next, .done taken produced result)

/-- A decoder that delivers what its input stands for, in order, and that reports when a frame is
complete. -/
structure Delivers (decoder : StreamDecoder) (decoded : Bytes → Bytes)
    (completes : Bytes → Prop) : Prop where
  /-- Without input there is no output. -/
  nothing : decoded [] = []
  /-- More input does not change the output of what came before. -/
  grows : ∀ consumed more, decoded consumed <+: decoded (consumed ++ more)
  /-- A call consumes no more than its input. -/
  inside : ∀ {consumed delivered input taken produced result},
    decoder.Calls consumed delivered input taken produced result →
    taken ≤ input.length
  /-- A call consumes or produces something. -/
  progresses : ∀ {consumed delivered input taken produced result},
    decoder.Calls consumed delivered input taken produced result →
    0 < taken ∨ produced ≠ []
  /-- Output is delivered in order. -/
  inOrder : ∀ {consumed delivered input taken produced result},
    decoder.Calls consumed delivered input taken produced result →
    delivered ++ produced <+: decoded (consumed ++ input.take taken)
  /-- Some input is left while output is pending. -/
  drains : ∀ {consumed delivered input taken produced result},
    decoder.Calls consumed delivered input taken produced result →
    taken = input.length → delivered ++ produced = decoded (consumed ++ input)
  /-- Zero is reported exactly at the end of a frame. -/
  reports : ∀ {consumed delivered input taken produced result},
    decoder.Calls consumed delivered input taken produced result →
    (result = 0 ↔ delivered ++ produced = decoded (consumed ++ input.take taken) ∧
      completes (consumed ++ input.take taken))

namespace Delivers

variable {decoded : Bytes → Bytes} {completes : Bytes → Prop}

/-- What is still to come: input to consume, and output to deliver. -/
def pending (decoded : Bytes → Bytes) (consumed delivered input : Bytes) : Nat :=
  input.length + ((decoded (consumed ++ input)).length - delivered.length)

/-- A call leaves the whole input as it is. -/
theorem consumed_append (consumed input : Bytes) (taken : Nat) :
    consumed ++ input.take taken ++ input.drop taken = consumed ++ input := by
  rw [List.append_assoc, List.take_append_drop]

/-- What has been delivered is a part of what the whole input stands for. -/
theorem call_prefix (laws : decoder.Delivers decoded completes)
    (calls : decoder.Calls consumed delivered input taken produced result) :
    delivered ++ produced <+: decoded (consumed ++ input) := by
  have onward := laws.grows (consumed ++ input.take taken) (input.drop taken)
  rw [consumed_append] at onward
  exact (laws.inOrder calls).trans onward

/-- Every call leaves less to come. -/
theorem pending_lt (laws : decoder.Delivers decoded completes)
    (calls : decoder.Calls consumed delivered input taken produced result) :
    pending decoded (consumed ++ input.take taken) (delivered ++ produced)
      (input.drop taken) < pending decoded consumed delivered input := by
  have inside := laws.inside calls
  have room := (laws.call_prefix calls).length_le
  unfold pending
  rw [consumed_append, List.length_drop]
  rw [List.length_append] at room ⊢
  -- Either there is less to consume, or less to deliver.
  rcases laws.progresses calls with some_ | some_
  · omega
  · have longer := List.length_pos_iff.mpr some_
    omega

/-- The call that consumes the rest of the input has delivered everything, and it reports whether a
frame is complete. -/
theorem call_last (laws : decoder.Delivers decoded completes)
    (calls : decoder.Calls consumed delivered input taken produced result)
    (last : input.drop taken = []) :
    delivered ++ produced = decoded
      (consumed ++ input) ∧ (result = 0 ↔ completes (consumed ++ input)) := by
  -- The call has consumed the rest, so nothing is pending.
  have all : taken = input.length :=
    Nat.le_antisymm (laws.inside calls) (List.drop_eq_nil_iff.mp last)
  have whole := laws.drains calls all
  have reports := laws.reports calls
  rw [all, List.take_length, whole] at reports
  exact ⟨whole, by rw [reports]; exact and_iff_right rfl⟩

end Delivers

end StreamDecoder

end Loglib
