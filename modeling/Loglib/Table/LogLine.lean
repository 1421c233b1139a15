import Loglib.Basic.SortedMap
import Loglib.Table.EnumDictionaryRegistry
import Loglib.Table.LineSource
import Loglib.Table.LogValue

/-! Log lines: compact slots by key, read back through the line's source and the dictionaries. -/

namespace Loglib

/-- One record: its slots in key order, and which line of which source it is. -/
structure LogLine where
  values : SortedMap KeyId CompactLogValue
  /-- Position of the line's source among the sources of the table. -/
  source : Nat
  lineId : Nat

/-- A line with one field. -/
def LogLine.ofField (source lineId : Nat) (id : KeyId) (slot : CompactLogValue) : LogLine :=
  ⟨⟨[(id, slot)], List.pairwise_singleton _ _⟩, source, lineId⟩

/-- What slots are resolved against: the table's sources and its dictionaries. -/
structure SlotContext where
  sources : List LineSource
  registry : EnumDictionaryRegistry

namespace CompactLogValue

/-- String bytes of a raw string slot, without materialising a value. -/
def peekStringView (slot : CompactLogValue) (source : Option LineSource) (lineId : Nat) :
    Option Bytes :=
  match source with
  | none => none
  | some source =>
    match slot with
    | .mmapSlice offset length =>
      let text := source.resolveMmapBytes offset length.toNat
      if text.isEmpty && length != 0 then none else some text
    | .ownedString offset length => some (source.resolveOwnedBytes offset length.toNat lineId)
    | _ => none

/-- The value a slot stands for under a key. -/
def materialise (slot : CompactLogValue) (source : Option LineSource)
    (registry : EnumDictionaryRegistry) (lineId : Nat) (keyId : KeyId) : LogValue :=
  match slot with
  | .monostate => .monostate
  | .mmapSlice offset length =>
    match source with
    | none => .monostate
    | some source =>
      let text := source.resolveMmapBytes offset length.toNat
      -- Bytes that the file no longer has read as nothing.
      if text.isEmpty && length != 0 then .monostate else .string text
  | .ownedString offset length =>
    match source with
    | none => .string []
    | some source => .string (source.resolveOwnedBytes offset length.toNat lineId)
  | .dictRef id =>
    match source with
    | none => .monostate
    | some _ =>
      -- A reference is resolved in the dictionary of its own key.
      match registry.find keyId with
      | none => .monostate
      | some dict => .string (dict.resolve id)
  | .int64 value => .int64 value
  | .uint64 value => .uint64 value
  | .double value => .double value
  | .bool value => .bool value
  | .timestamp microseconds => .timestamp microseconds

/-- A slot that peeks as bytes materialises as those bytes. -/
theorem materialise_of_peek {slot : CompactLogValue} {source : Option LineSource} {lineId : Nat}
    {text : Bytes} (peeked : slot.peekStringView source lineId = some text)
    (registry : EnumDictionaryRegistry) (keyId : KeyId) :
    slot.materialise source registry lineId keyId = .string text := by
  -- Only the two raw string kinds peek as bytes, and both read them the same way.
  cases source with
  | none => simp [peekStringView] at peeked
  | some source =>
    cases slot <;> simp [peekStringView] at peeked
    · obtain ⟨whole, reads⟩ := peeked
      simpa [materialise, ← reads] using whole
    · simp [materialise, peeked]

/-- Only dictionary slots read the dictionaries. -/
theorem materialise_congr {slot : CompactLogValue} (raw : slot.isDictRef = false)
    (source : Option LineSource) (first second : EnumDictionaryRegistry) (lineId : Nat)
    (left right : KeyId) :
    slot.materialise source first lineId left = slot.materialise source second lineId right := by
  cases slot <;> simp_all [materialise, isDictRef]

/-- A slot reads its key's dictionary, and nothing else of the key. -/
theorem materialise_of_find {registry : EnumDictionaryRegistry} {left right : KeyId}
    (same : registry.find left = registry.find right)
    {slot : CompactLogValue} (source : Option LineSource) (lineId : Nat) :
    slot.materialise source registry lineId left = slot.materialise source registry lineId
      right := by
  cases slot <;> simp only [materialise, same]

end CompactLogValue

namespace LogLine

/-- The slot of a key. -/
def findCompact (line : LogLine) (id : KeyId) : Option CompactLogValue := line.values.lookup id

/-- Write a slot. -/
def setCompact (line : LogLine) (id : KeyId) (slot : CompactLogValue) : LogLine :=
  { line with values := line.values.put id slot }

/-- Bytes of a raw string slot of the line. -/
def peekStringView (line : LogLine) (sources : List LineSource) (slot : CompactLogValue) :
    Option Bytes :=
  slot.peekStringView sources[line.source]? line.lineId

/-- The value of a key. -/
def getValue (line : LogLine) (context : SlotContext) (id : KeyId) : LogValue :=
  match line.findCompact id with
  | none => .monostate
  | some slot => slot.materialise context.sources[line.source]? context.registry line.lineId id

/-- The dictionary id in the slot of a key. -/
def getEnumValueId (line : LogLine) (id : KeyId) : Option EnumValueId :=
  match line.findCompact id with
  | some (.dictRef vid) => some vid
  | _ => none

/-- The text of the line, `none` where the source throws or is missing. -/
def rawLine (line : LogLine) (sources : List LineSource) : Option Bytes :=
  sources[line.source]?.bind fun source => source.rawLine line.lineId

/-- The source of a line stays. -/
@[simp] theorem setCompact_source (line : LogLine) (id : KeyId) (slot : CompactLogValue) :
    (line.setCompact id slot).source = line.source := rfl

/-- The number of a line stays. -/
@[simp] theorem setCompact_lineId (line : LogLine) (id : KeyId) (slot : CompactLogValue) :
    (line.setCompact id slot).lineId = line.lineId := rfl

/-- A written slot is found, and every other slot is the one before. -/
theorem findCompact_setCompact (line : LogLine) (id other : KeyId) (slot : CompactLogValue) :
    (line.setCompact id slot).findCompact other =
      if other = id then some slot else line.findCompact other :=
  SortedMap.lookup_put line.values id other slot

end LogLine

end Loglib
