import Loglib.App.WorkspaceFile
import Loglib.Basic.Runs

/-! What is written of a workspace reads back, as long as the file is not too large to be read. -/

namespace Loglib

/-- A tab within the bounds. -/
structure WorkspaceTab.Bounded (tab : WorkspaceTab) : Prop where
  sessionUuid : tab.sessionUuid.length ≤ MAX_UUID_LENGTH
  label : tab.label.length ≤ MAX_TAB_LABEL_LENGTH
  customLabel : tab.customLabel.length ≤ MAX_TAB_LABEL_LENGTH

/-- A window within the bounds. -/
structure WorkspaceWindow.Bounded (window : WorkspaceWindow) : Prop where
  windowUuid : window.windowUuid.length ≤ MAX_UUID_LENGTH
  geometry : window.geometry.length ≤ MAX_GEOMETRY_BYTES
  dockState : window.dockState.length ≤ MAX_DOCK_STATE_BYTES
  tabCount : window.tabs.length ≤ MAX_TABS_PER_WINDOW
  tabs : ∀ tab ∈ window.tabs, tab.Bounded
  active : clampIndex window.activeTabIndex window.tabs = window.activeTabIndex

/-- A workspace within the bounds. -/
structure Workspace.Bounded (workspace : Workspace) : Prop where
  schemaVersion : workspace.schemaVersion = SCHEMA_VERSION
  windowCount : workspace.windows.length ≤ MAX_WINDOWS
  windows : ∀ window ∈ workspace.windows, window.Bounded
  mruCount : workspace.mruOrder.length ≤ MAX_WINDOWS
  mruOrder : ∀ uuid ∈ workspace.mruOrder, uuid ≠ [] ∧ uuid.length ≤ MAX_UUID_LENGTH

section Sanitizing

/-- A clamped text is within its bound. -/
theorem length_clampString (text : Utf16) (maxLen : Nat) :
    (ClampString text maxLen).length ≤ maxLen := by
  rw [ClampString]
  split
  · assumption
  · exact List.length_take_le ..

/-- A text within its bound stays. -/
theorem clampString_of_le {text : Utf16} {maxLen : Nat} (fits : text.length ≤ maxLen) :
    ClampString text maxLen = text :=
  if_pos fits

/-- A clamped blob is within its bound. -/
theorem length_clampBytes (data : Bytes) (maxLen : Nat) :
    (ClampBytes data maxLen).length ≤ maxLen := by
  rw [ClampBytes]
  split
  · assumption
  · exact Nat.zero_le _

/-- A blob within its bound stays. -/
theorem clampBytes_of_le {data : Bytes} {maxLen : Nat} (fits : data.length ≤ maxLen) :
    ClampBytes data maxLen = data :=
  if_pos fits

/-- A clamped index stays. -/
theorem clampIndex_clampIndex (index : Int) (tabs : List WorkspaceTab) :
    clampIndex (clampIndex index tabs) tabs = clampIndex index tabs := by
  simp only [clampIndex]
  split
  · simp
  · rfl

/-- A clamped index is zero or the index of a tab. -/
theorem clampIndex_range (index : Int) (tabs : List WorkspaceTab) :
    0 ≤ clampIndex index tabs ∧ clampIndex index tabs ≤ tabs.length := by
  simp only [clampIndex]
  split
  · simp
  · omega

/-- A sanitized tab is within the bounds. -/
theorem sanitizeTab_bounded (tab : WorkspaceTab) : (sanitizeTab tab).Bounded :=
  ⟨length_clampString .., length_clampString .., length_clampString ..⟩

/-- A tab within the bounds stays. -/
theorem WorkspaceTab.Bounded.sanitize {tab : WorkspaceTab} (bounded : tab.Bounded) :
    sanitizeTab tab = tab := by
  simp only [sanitizeTab, clampString_of_le bounded.sessionUuid, clampString_of_le bounded.label,
    clampString_of_le bounded.customLabel]

/-- A sanitized window is within the bounds. -/
theorem sanitizeWindow_bounded (window : WorkspaceWindow) : (sanitizeWindow window).Bounded where
  windowUuid := length_clampString ..
  geometry := length_clampBytes ..
  dockState := length_clampBytes ..
  tabCount := by simp [sanitizeWindow]
  -- Each tab was cut to its bounds.
  tabs := by
    intro tab member
    obtain ⟨held, -, rfl⟩ := List.mem_map.mp member
    exact sanitizeTab_bounded held
  active := clampIndex_clampIndex ..

/-- A window within the bounds stays. -/
theorem WorkspaceWindow.Bounded.sanitize {window : WorkspaceWindow} (bounded : window.Bounded) :
    sanitizeWindow window = window := by
  -- A window within its bounds is cut nowhere.
  have tabs : (window.tabs.take MAX_TABS_PER_WINDOW).map sanitizeTab = window.tabs := by
    rw [List.take_of_length_le bounded.tabCount]
    exact (List.map_congr_left fun tab member => (bounded.tabs tab member).sanitize).trans
      (List.map_id' _)
  simp only [sanitizeWindow, tabs, clampString_of_le bounded.windowUuid,
    clampBytes_of_le bounded.geometry,
    clampBytes_of_le bounded.dockState, bounded.active]

/-- The focus order holds non-empty uuids within the bounds. -/
theorem pushMru_bounded {order : List Utf16} (count : order.length ≤ MAX_WINDOWS)
    (held : ∀ uuid ∈ order, uuid ≠ [] ∧ uuid.length ≤ MAX_UUID_LENGTH) (uuid : Utf16) :
    (pushMru order uuid).length ≤ MAX_WINDOWS ∧
      ∀ uuid_ ∈ pushMru order uuid, uuid_ ≠ [] ∧ uuid_.length ≤ MAX_UUID_LENGTH := by
  simp only [pushMru]
  -- A uuid that is taken over is not empty, fits, and finds room.
  split
  · rename_i room
    refine ⟨by rw [List.length_append, List.length_singleton]; omega, fun other member => ?_⟩
    rcases List.mem_append.mp member with old | new
    · exact held other old
    · rw [List.mem_singleton.mp new]
      exact ⟨room.1, length_clampString ..⟩
  · exact ⟨count, held⟩

/-- A focus order within the bounds stays. -/
theorem foldl_pushMru (order added : List Utf16) (count : (order ++ added).length ≤ MAX_WINDOWS)
    (held : ∀ uuid ∈ added, uuid ≠ [] ∧ uuid.length ≤ MAX_UUID_LENGTH) :
    added.foldl pushMru order = order ++ added := by
  induction added generalizing order with
  | nil => simp
  | cons uuid rest ih =>
    obtain ⟨filled, short⟩ := held uuid (List.mem_cons_self ..)
    -- The list never reaches its cap, and no identifier is cut.
    have room : order.length < MAX_WINDOWS := by
      simp only [List.length_append, List.length_cons] at count
      omega
    have pushed : pushMru order uuid = order ++ [uuid] := by
      simp only [pushMru, clampString_of_le short]
      exact if_pos ⟨filled, room⟩
    rw [List.foldl_cons, pushed, ih _ (by simpa using count) fun other member =>
      held other (List.mem_cons_of_mem _ member)]
    simp

/-- A sanitized workspace is within the bounds. -/
theorem sanitize_bounded (workspace : Workspace) : (Sanitize workspace).Bounded := by
  have order : ((Sanitize workspace).mruOrder.length ≤ MAX_WINDOWS ∧
      ∀ uuid ∈ (Sanitize workspace).mruOrder, uuid ≠ [] ∧ uuid.length ≤ MAX_UUID_LENGTH) := by
    -- The list is built uuid by uuid, within the cap all the way.
    refine foldl_invariant (fun order : List Utf16 => order.length ≤ MAX_WINDOWS ∧
      ∀ uuid ∈ order, uuid ≠ [] ∧ uuid.length ≤ MAX_UUID_LENGTH) ?_ ⟨Nat.zero_le _, by simp⟩
    exact fun order uuid _ bounded => pushMru_bounded bounded.1 bounded.2 uuid
  refine ⟨rfl, by simp [Sanitize], fun window member => ?_, order.1, order.2⟩
  obtain ⟨held, -, rfl⟩ := List.mem_map.mp member
  exact sanitizeWindow_bounded held

/-- A workspace within the bounds stays. -/
theorem Workspace.Bounded.sanitize {workspace : Workspace} (bounded : workspace.Bounded) :
    Sanitize workspace = workspace := by
  -- A workspace within its bounds is cut nowhere.
  have windows : (workspace.windows.take MAX_WINDOWS).map sanitizeWindow = workspace.windows := by
    rw [List.take_of_length_le bounded.windowCount]
    exact (List.map_congr_left fun window member => (bounded.windows window member).sanitize).trans
      (List.map_id' _)
  have order : workspace.mruOrder.foldl pushMru [] = workspace.mruOrder :=
    foldl_pushMru [] workspace.mruOrder bounded.mruCount bounded.mruOrder
  simp only [Sanitize, windows, order, ← bounded.schemaVersion]

end Sanitizing

section ReadingBack

/-- The base64 text of a blob reads back. -/
theorem decode_blobText (data : Bytes) : Base64.decode (toLatin1 (blobText data)) = data := by
  -- Base64 has only Latin-1 letters, so widening and narrowing cancel.
  have back : toLatin1 (blobText data) = Base64.encode data := by
    simp only [toLatin1, blobText, List.map_map]
    refine (List.map_congr_left fun byte _ => ?_).trans (List.map_id' _)
    have small : byte.toUInt16 < 0x100 := by
      have := byte.toNat_lt
      rw [UInt16.lt_iff_toNat_lt]
      simpa using this
    simp [small]
  rw [back, Base64.decode_encode]

/-- The length of the base64 text of a blob. -/
theorem length_blobText (data : Bytes) : (blobText data).length = (data.length + 2) / 3 * 4 := by
  rw [blobText, List.length_map, Base64.length_encode]

/-- A tab within the bounds reads back. -/
theorem tabFromJson_tabToJson {tab : WorkspaceTab} (bounded : tab.Bounded) :
    TabFromJson (tabToJson tab) = tab := by
  -- The two enumerations are read back from their numbers.
  have mode : Json.asInt (.number tab.sourceMode.toInt) = some tab.sourceMode.toInt := by
    cases tab.sourceMode <;> rfl
  have policy : Json.asInt (.number tab.restorePolicy.toInt) = some tab.restorePolicy.toInt := by
    cases tab.restorePolicy <;> rfl
  simp [TabFromJson, tabToJson, textMember, Json.member, Json.asText, mode, policy,
    SourceMode.ofInt_toInt,
    RestorePolicy.ofInt_toInt, clampString_of_le bounded.sessionUuid,
    clampString_of_le bounded.label,
    clampString_of_le bounded.customLabel]

/-- A window within the bounds is not rejected, and reads back. -/
theorem windowFromJson_windowToJson {window : WorkspaceWindow} (bounded : window.Bounded) :
    WindowFromJson (windowToJson window) = some window := by
  have tabs : ((window.tabs.map tabToJson).filter Json.isObject).map TabFromJson = window.tabs := by
    have objects : (window.tabs.map tabToJson).filter Json.isObject =
        window.tabs.map tabToJson := by
      refine List.filter_eq_self.mpr fun item member => ?_
      obtain ⟨tab, -, rfl⟩ := List.mem_map.mp member
      rfl
    rw [objects, List.map_map]
    exact (List.map_congr_left fun tab member =>
      tabFromJson_tabToJson (bounded.tabs tab member)).trans (List.map_id' _)
  -- The caps on the encoded texts are those of the longest blobs that pass.
  have geometry : ¬(maxGeoB64Chars < (blobText window.geometry).length) := by
    have := bounded.geometry
    rw [length_blobText]
    simp only [maxGeoB64Chars, MAX_GEOMETRY_BYTES] at this ⊢
    omega
  have dockState : ¬(maxDockB64Chars < (blobText window.dockState).length) := by
    have := bounded.dockState
    rw [length_blobText]
    simp only [maxDockB64Chars, MAX_DOCK_STATE_BYTES] at this ⊢
    omega
  have index : Json.asInt (.number window.activeTabIndex) = some window.activeTabIndex := by
    have range := clampIndex_range window.activeTabIndex window.tabs
    have count := bounded.tabCount
    rw [bounded.active] at range
    simp only [MAX_TABS_PER_WINDOW] at count
    exact if_pos (by omega)
  have count : ¬(MAX_TABS_PER_WINDOW < window.tabs.length) := not_lt.mpr bounded.tabCount
  simp only [WindowFromJson, windowToJson, textMember, Json.member]
  simp [Json.asText, Json.asArray, geometry, dockState, count, tabs, index, bounded.active,
    decode_blobText, clampString_of_le bounded.windowUuid, clampBytes_of_le bounded.geometry,
    clampBytes_of_le bounded.dockState]

/-- A focus order within the bounds reads back. -/
theorem mruFromJson_text {order : List Utf16}
    (held : ∀ uuid ∈ order, uuid ≠ [] ∧ uuid.length ≤ MAX_UUID_LENGTH) :
    mruFromJson (order.map .text) = order := by
  -- None of the uuids is cut or empty.
  have same : (order.map Json.text).map (fun item =>
      ClampString (item.asText.getD []) MAX_UUID_LENGTH) = order := by
    rw [List.map_map]
    refine (List.map_congr_left fun uuid member => ?_).trans (List.map_id' _)
    exact clampString_of_le (held uuid member).2
  rw [mruFromJson, same]
  exact List.filter_eq_self.mpr fun uuid member => by simpa using (held uuid member).1

/-- The document of a workspace within the bounds reads back as the workspace. -/
theorem workspaceFromDoc_buildDoc {workspace : Workspace} (bounded : workspace.Bounded) :
    WorkspaceFromDoc (BuildDoc workspace) = workspace := by
  have windows : ((workspace.windows.map windowToJson).filter Json.isObject).mapM WindowFromJson =
      some workspace.windows := by
    -- Every window is written as an object, so none is dropped.
    have objects : (workspace.windows.map windowToJson).filter Json.isObject =
        workspace.windows.map windowToJson := by
      refine List.filter_eq_self.mpr fun item member => ?_
      obtain ⟨window, -, rfl⟩ := List.mem_map.mp member
      rfl
    rw [objects]
    have all := bounded.windows
    clear bounded objects
    generalize workspace.windows = windows at all
    induction windows with
    | nil => rfl
    | cons window rest ih =>
      have first := windowFromJson_windowToJson (all window (List.mem_cons_self ..))
      have later := ih fun other member => all other (List.mem_cons_of_mem _ member)
      simp [first, later]
  -- Neither list is longer than what the reader takes.
  have windowCount : ¬(MAX_WINDOWS < workspace.windows.length) := not_lt.mpr bounded.windowCount
  have mruCount : ¬(MAX_WINDOWS < workspace.mruOrder.length) := not_lt.mpr bounded.mruCount
  have version : Json.asInt (.number SCHEMA_VERSION.toNat) = some (SCHEMA_VERSION.toNat : Int) :=
    rfl
  have order := mruFromJson_text bounded.mruOrder
  have known := bounded.schemaVersion
  obtain ⟨schemaVersion, generation, held, uuids⟩ := workspace
  obtain rfl : schemaVersion = SCHEMA_VERSION := known
  simp only [WorkspaceFromDoc, BuildDoc, Json.member, Json.isObject, if_true]
  simp [Json.asArray, Json.asInteger, version, windows, windowCount, mruCount, order]

end ReadingBack

section Size

/-- The bytes of items on lines of their own. -/
def linesSize (level : Nat) (sizes : List Nat) : Nat :=
  (sizes.map fun size => 4 * level + size + 2).sum - 1

/-- The characters of a number. -/
def numberSize (number : Int) : Nat := (toString number).length

/-- The characters of a blob in base64. -/
def blobSize (data : Bytes) : Nat := (data.length + 2) / 3 * 4

/-- The bytes of a tab in the file. -/
def tabSize (tab : WorkspaceTab) : Nat :=
  206 + Json.textSize tab.sessionUuid + Json.textSize tab.label + Json.textSize tab.customLabel

/-- The bytes of a window in the file. -/
def windowSize (window : WorkspaceWindow) : Nat :=
  166 + numberSize window.activeTabIndex + blobSize window.dockState + blobSize window.geometry +
    linesSize 4 (window.tabs.map tabSize) + Json.textSize window.windowUuid

/-- The bytes of the file of a workspace. -/
def manifestSize (workspace : Workspace) : Nat :=
  96 + numberSize workspace.generation.toInt64.toInt + linesSize 2
    (workspace.mruOrder.map (Json.textSize · + 2)) +
    linesSize 2 (workspace.windows.map windowSize)

/-- A base64 text needs no escapes. -/
theorem textSize_blobText (data : Bytes) : Json.textSize (blobText data) = blobSize data := by
  -- Letters of the base need no escape, so the text is as long as its bytes.
  have plain : ∀ text : Bytes, (∀ character ∈ text, Base64.Plain character) →
      (Json.escapedString (text.map UInt8.toUInt16)).length = text.length := by
    intro text all
    induction text with
    | nil => rfl
    | cons character rest ih =>
      obtain ⟨least, most, noQuote, noBackslash⟩ := all character (List.mem_cons_self ..)
      have least : 0x20 ≤ character.toNat := by simpa [UInt8.le_iff_toNat_le] using least
      have most : character.toNat < 0x80 := by simpa [UInt8.lt_iff_toNat_lt] using most
      have noQuote : character.toNat ≠ 0x22 := fun same => noQuote (UInt8.toNat_inj.mp same)
      have noBackslash : character.toNat ≠ 0x5C := fun same => noBackslash (UInt8.toNat_inj.mp same)
      -- Such a character is written as itself.
      have one : Json.unitText character.toNat = [UInt8.ofNat character.toNat] := by
        rw [Json.unitText, if_pos most, Json.asciiText, if_neg (by omega)]
      have later := ih fun other member => all other (List.mem_cons_of_mem _ member)
      have same : character.toUInt16.toNat = character.toNat := UInt8.toNat_toUInt16 character
      rw [List.map_cons, Json.escapedString_cons (by omega), same, one, List.length_append, later,
        List.length_cons]
      exact Nat.add_comm ..
  rw [Json.textSize, blobText, plain _ fun character member => Base64.plain_of_mem_encode member,
    Base64.length_encode, blobSize]

/-- The bytes of a tab. -/
theorem length_tabToJson (tab : WorkspaceTab) :
    (Json.valueToJson 4 (tabToJson tab)).length = tabSize tab := by
  -- Modes and policies are single digits.
  have mode : (Json.valueToJson 5 (.number tab.sourceMode.toInt)).length = 1 := by
    cases tab.sourceMode <;> rfl
  have policy : (Json.valueToJson 5 (.number tab.restorePolicy.toInt)).length = 1 := by
    cases tab.restorePolicy <;> rfl
  have keys : "customLabel".length = 11 ∧ "label".length = 5 ∧ "restorePolicy".length = 13 ∧
      "sessionUuid".length = 11 ∧ "sourceMode".length = 10 := ⟨rfl, rfl, rfl, rfl, rfl⟩
  simp only [tabToJson, Json.length_object, List.map_cons, List.map_nil, List.sum_cons,
    List.sum_nil,
    Json.length_text, mode, policy, tabSize]
  omega

/-- The bytes of a window. -/
theorem length_windowToJson (window : WorkspaceWindow) :
    (Json.valueToJson 2 (windowToJson window)).length = windowSize window := by
  -- The lengths of the keys.
  have keys : "activeTabIndex".length = 14 ∧ "dockState".length = 9 ∧ "geometry".length = 8 ∧
    "tabs".length = 4 ∧
      "windowUuid".length = 10 := ⟨rfl, rfl, rfl, rfl, rfl⟩
  have number : (Json.valueToJson 3 (.number window.activeTabIndex)).length =
      numberSize window.activeTabIndex := by
    simp [Json.valueToJson, numberSize]
  simp only [windowToJson, Json.length_object, List.map_cons, List.map_nil, List.sum_cons,
    List.sum_nil,
    Json.length_text, Json.length_array, List.map_map, Function.comp_def, length_tabToJson,
    textSize_blobText,
    number, windowSize, linesSize, Nat.reduceAdd]
  omega

/-- The bytes of the file. -/
theorem length_buildDoc {workspace : Workspace} (known : workspace.schemaVersion = SCHEMA_VERSION) :
    (BuildDoc workspace).toJson.length = manifestSize workspace := by
  -- The lengths of the keys.
  have keys : "generation".length = 10 ∧ "mruOrder".length = 8 ∧ "schemaVersion".length = 13 ∧
      "windows".length = 7 ∧ "\n".length = 1 := ⟨rfl, rfl, rfl, rfl, rfl⟩
  have number : (Json.valueToJson 1 (.number workspace.generation.toInt64.toInt)).length =
      numberSize workspace.generation.toInt64.toInt := by
    simp [Json.valueToJson, numberSize]
  have version : (Json.valueToJson 1 (.number workspace.schemaVersion.toNat)).length = 1 := by
    rw [known]; rfl
  simp only [BuildDoc, Json.toJson, List.length_append, Json.length_bytes, Json.length_object,
    List.map_cons,
    List.map_nil, List.sum_cons, List.sum_nil, Json.length_array, List.map_map, Function.comp_def,
    Json.length_text,
    length_windowToJson, number, version, manifestSize, linesSize, Nat.reduceAdd]
  omega

end Size

/-- After a write that succeeds, the workspace is read back as it was sanitized if and only if its
file is not larger than a file that is read; sanitizing twice is sanitizing once. -/
theorem readWorkspace_writeWorkspace_iff {fromJson : Bytes → Option Json} {workspace : Workspace}
    (exact_ : fromJson (BuildDoc (Sanitize workspace)).toJson =
    some (BuildDoc (Sanitize workspace)))
    {faults : WorkspaceFaults} {file : Option Bytes}
    (done : (WriteWorkspace faults file workspace).1 = true) :
    (ReadWorkspace fromJson (WriteWorkspace faults file workspace).2 = Sanitize workspace ↔
      manifestSize (Sanitize workspace) ≤ MAX_WORKSPACE_FILE_BYTES) ∧
    Sanitize (Sanitize workspace) = Sanitize workspace := by
  have bounded := sanitize_bounded workspace
  refine ⟨?_, bounded.sanitize⟩
  have written : (WriteWorkspace faults file workspace).2 =
      some (BuildDoc (Sanitize workspace)).toJson := by
    rw [WriteWorkspace] at done ⊢
    split at done
    · rename_i all
      rw [if_pos all]
    · cases done
  rw [written, ReadWorkspace, length_buildDoc rfl]
  by_cases large : MAX_WORKSPACE_FILE_BYTES < manifestSize (Sanitize workspace)
  · -- The reader gives the workspace without a schema version, which no sanitized one is.
    rw [if_pos large]
    refine iff_of_false (fun same => ?_) (not_le.mpr large)
    exact absurd (congrArg Workspace.schemaVersion same)
      (by simp [Workspace.empty, Sanitize, SCHEMA_VERSION])
  · rw [if_neg large, exact_]
    exact iff_of_true (workspaceFromDoc_buildDoc bounded) (not_lt.mp large)

/-- No operation of the write fails. -/
def calmFaults : WorkspaceFaults := ⟨true, true, true, true, true⟩

/-- One window with one tab. -/
def smallWorkspace : Workspace :=
  ⟨1, 7, [⟨[0x77], [1, 2], [], [⟨[0x73], [0x61, 0xD83D], [], .file, .restore⟩], 0⟩], [[0x77]]⟩

/-- A small workspace reads back. -/
theorem smallWorkspace_reads :
    (ReadWorkspace
        (fun raw => if raw = (BuildDoc (Sanitize smallWorkspace)).toJson then some
          (BuildDoc (Sanitize smallWorkspace))
          else none)
        (WriteWorkspace calmFaults none smallWorkspace).2 = Sanitize smallWorkspace ↔
      manifestSize (Sanitize smallWorkspace) ≤ MAX_WORKSPACE_FILE_BYTES) ∧
    Sanitize (Sanitize smallWorkspace) = Sanitize smallWorkspace :=
  readWorkspace_writeWorkspace_iff (if_pos rfl) rfl

/-- As many windows as are kept, each with as many tabs, under labels of as many three-byte
characters. -/
def hugeWorkspace : Workspace :=
  let label := List.replicate MAX_TAB_LABEL_LENGTH 0x4E00
  let tab : WorkspaceTab := ⟨[0x73], label, label, .file, .restore⟩
  ⟨SCHEMA_VERSION, 1, List.replicate MAX_WINDOWS ⟨[0x77], [], [],
    List.replicate MAX_TABS_PER_WINDOW tab, 0⟩, []⟩

/-- The number of bytes of a repeated three-byte character. -/
theorem textSize_replicate (count : Nat) :
    Json.textSize (List.replicate count 0x4E00) = 3 * count := by
  -- Such a unit takes three bytes.
  induction count with
  | zero => rfl
  | succ count ih =>
    rw [Json.textSize] at ih ⊢
    rw [List.replicate_succ, Json.escapedString_cons (by decide), List.length_append, ih]
    have three : (Json.unitText (UInt16.toNat 0x4E00)).length = 3 := rfl
    omega

/-- The number of bytes of equal items. -/
theorem linesSize_replicate (level count size : Nat) :
    linesSize level (List.replicate count size) = count * (4 * level + size + 2) - 1 := by
  simp [linesSize]

/-- The huge workspace is within the bounds. -/
theorem hugeWorkspace_bounded : hugeWorkspace.Bounded where
  schemaVersion := rfl
  windowCount := by simp [hugeWorkspace]
  windows := by
    -- All windows are the same, and so are the tabs of each.
    intro window member
    obtain rfl := List.eq_of_mem_replicate member
    refine ⟨by decide, by decide, by decide, by simp, fun tab member => ?_, ?_⟩
    · obtain rfl := List.eq_of_mem_replicate member
      exact ⟨by decide, by simp, by simp⟩
    · simp [clampIndex]
  mruCount := by simp [hugeWorkspace]
  mruOrder := by simp [hugeWorkspace]

/-- The huge workspace is written, and reads back as no workspace. -/
theorem hugeWorkspace_lost : (WriteWorkspace calmFaults none hugeWorkspace).1 = true ∧
    ∀ fromJson, ReadWorkspace fromJson (WriteWorkspace calmFaults none hugeWorkspace).2 = .empty ∧
      ReadWorkspace fromJson (WriteWorkspace calmFaults none hugeWorkspace).2 ≠
        Sanitize hugeWorkspace := by
  refine ⟨rfl, fun fromJson => ?_⟩
  -- The file is larger than what the reader takes.
  have rejected : ReadWorkspace fromJson (WriteWorkspace calmFaults none hugeWorkspace).2 =
      .empty := by
    have written : (WriteWorkspace calmFaults none hugeWorkspace).2 =
        some (BuildDoc (Sanitize hugeWorkspace)).toJson :=
      rfl
    rw [written, ReadWorkspace, length_buildDoc rfl, hugeWorkspace_bounded.sanitize]
    refine if_pos ?_
    simp only [manifestSize, hugeWorkspace, List.map_replicate, linesSize_replicate,
      windowSize, tabSize,
      textSize_replicate, MAX_WORKSPACE_FILE_BYTES, MAX_WINDOWS, MAX_TABS_PER_WINDOW,
      MAX_TAB_LABEL_LENGTH]
    omega
  refine ⟨rejected, fun same => ?_⟩
  -- The empty workspace has no schema version, and a written one has.
  have versions := congrArg Workspace.schemaVersion (rejected.symm.trans same)
  exact absurd versions (by simp [Workspace.empty, Sanitize, SCHEMA_VERSION])

end Loglib
