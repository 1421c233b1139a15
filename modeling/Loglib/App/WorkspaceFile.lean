import Loglib.Basic.Base64
import Loglib.Basic.IndentedJson

/-! The workspace file: its bounds, its JSON document, and how it is written and read. -/

namespace Loglib

/-- Whether a tab is restored. -/
inductive RestorePolicy where
  | restore
  | skip
deriving DecidableEq

/-- Where the rows of a tab come from. -/
inductive SourceMode where
  | empty
  | file
  | multiFile
  | compressed
  | bundle
  | liveTailFile
  | network
  | stdin
  | configOnly
deriving DecidableEq

/-- A tab of a window. -/
structure WorkspaceTab where
  sessionUuid : Utf16
  label : Utf16
  customLabel : Utf16
  sourceMode : SourceMode
  restorePolicy : RestorePolicy
deriving DecidableEq

/-- A window with its tabs and its saved state. -/
structure WorkspaceWindow where
  windowUuid : Utf16
  geometry : Bytes
  dockState : Bytes
  tabs : List WorkspaceTab
  activeTabIndex : Int
deriving DecidableEq

/-- The windows of a launch, and their uuids from the most recently focused one on. -/
structure Workspace where
  schemaVersion : UInt32
  generation : UInt64
  windows : List WorkspaceWindow
  mruOrder : List Utf16
deriving DecidableEq

/-- The workspace `Workspace{}`. -/
def Workspace.empty : Workspace := ⟨0, 0, [], []⟩

/-- The one schema version. -/
def SCHEMA_VERSION : UInt32 := 1

/-- The most windows, and entries of the focus order. -/
def MAX_WINDOWS : Nat := 64

/-- The most tabs of a window. -/
def MAX_TABS_PER_WINDOW : Nat := 512

/-- The most code units of a uuid. -/
def MAX_UUID_LENGTH : Nat := 64

/-- The most code units of a label. -/
def MAX_TAB_LABEL_LENGTH : Nat := 256

/-- The most bytes of a saved geometry. -/
def MAX_GEOMETRY_BYTES : Nat := 64 * 1024

/-- The most bytes of a saved dock state. -/
def MAX_DOCK_STATE_BYTES : Nat := 128 * 1024

/-- The most bytes of a file that is read. -/
def MAX_WORKSPACE_FILE_BYTES : Nat := 32 * 1024 * 1024

namespace SourceMode

/-- The number of a mode. -/
def toInt : SourceMode → Int
  | empty => 0
  | file => 1
  | multiFile => 2
  | compressed => 3
  | bundle => 4
  | liveTailFile => 5
  | network => 6
  | stdin => 7
  | configOnly => 8

/-- The mode of a number; a number out of range is the empty mode. -/
def ofInt (number : Int) : SourceMode :=
  if number = 1 then file
  else if number = 2 then multiFile
  else if number = 3 then compressed
  else if number = 4 then bundle
  else if number = 5 then liveTailFile
  else if number = 6 then network
  else if number = 7 then stdin
  else if number = 8 then configOnly
  else empty

/-- A mode is that of its number. -/
theorem ofInt_toInt (mode : SourceMode) : ofInt mode.toInt = mode := by cases mode <;> rfl

end SourceMode

namespace RestorePolicy

/-- The number of a policy. -/
def toInt : RestorePolicy → Int
  | restore => 0
  | skip => 1

/-- The policy of a number. -/
def ofInt (number : Int) : RestorePolicy := if number = 1 then skip else restore

/-- A policy is that of its number. -/
theorem ofInt_toInt (policy : RestorePolicy) : ofInt policy.toInt = policy := by
  cases policy <;> rfl

end RestorePolicy

section Bounds

/-- The front of a text. -/
def ClampString (text : Utf16) (maxLen : Nat) : Utf16 := if text.length ≤ maxLen then text
    else text.take maxLen

/-- A blob, or none of it where it is too long. -/
def ClampBytes (data : Bytes) (maxLen : Nat) : Bytes := if data.length ≤ maxLen then data else []

/-- An index of a tab, or the first one. -/
def clampIndex (index : Int) (tabs : List WorkspaceTab) : Int :=
  if index < 0 ∨ (tabs.length : Int) ≤ index then 0 else index

/-- A tab within the bounds. -/
def sanitizeTab (tab : WorkspaceTab) : WorkspaceTab :=
  { tab with
    sessionUuid := ClampString tab.sessionUuid MAX_UUID_LENGTH
    label := ClampString tab.label MAX_TAB_LABEL_LENGTH
    customLabel := ClampString tab.customLabel MAX_TAB_LABEL_LENGTH }

/-- A window within the bounds. -/
def sanitizeWindow (window : WorkspaceWindow) : WorkspaceWindow :=
  let tabs := (window.tabs.take MAX_TABS_PER_WINDOW).map sanitizeTab
  { windowUuid := ClampString window.windowUuid MAX_UUID_LENGTH
    geometry := ClampBytes window.geometry MAX_GEOMETRY_BYTES
    dockState := ClampBytes window.dockState MAX_DOCK_STATE_BYTES
    tabs
    activeTabIndex := clampIndex window.activeTabIndex tabs }

/-- Add a uuid to the focus order. -/
def pushMru (order : List Utf16) (uuid : Utf16) : List Utf16 :=
  let clamped := ClampString uuid MAX_UUID_LENGTH
  if clamped ≠ [] ∧ order.length < MAX_WINDOWS then order ++ [clamped] else order

/-- A workspace within the bounds. -/
def Sanitize (workspace : Workspace) : Workspace :=
  { schemaVersion := SCHEMA_VERSION
    generation := workspace.generation
    windows := (workspace.windows.take MAX_WINDOWS).map sanitizeWindow
    mruOrder := workspace.mruOrder.foldl pushMru [] }

end Bounds

section Documents

/-- A blob as the text of its base64 form. -/
def blobText (data : Bytes) : Utf16 := (Base64.encode data).map UInt8.toUInt16

/-- The Latin-1 form of a text. -/
def toLatin1 (text : Utf16) : Bytes := text.map fun unit => if unit < 0x100 then unit.toUInt8
    else ascii '?'

/-- The JSON form of a tab. -/
def tabToJson (tab : WorkspaceTab) : Json :=
  .object [("customLabel", .text tab.customLabel), ("label", .text tab.label),
    ("restorePolicy", .number tab.restorePolicy.toInt), ("sessionUuid", .text tab.sessionUuid),
    ("sourceMode", .number tab.sourceMode.toInt)]

/-- The JSON form of a window. -/
def windowToJson (window : WorkspaceWindow) : Json :=
  .object [("activeTabIndex", .number window.activeTabIndex),
    ("dockState", .text (blobText window.dockState)),
    ("geometry", .text (blobText window.geometry)), ("tabs", .array (window.tabs.map tabToJson)),
    ("windowUuid", .text window.windowUuid)]

/-- The JSON form of a workspace; the generation is written as a signed number. -/
def BuildDoc (workspace : Workspace) : Json :=
  .object [("generation", .number workspace.generation.toInt64.toInt),
    ("mruOrder", .array (workspace.mruOrder.map .text)),
    ("schemaVersion", .number workspace.schemaVersion.toNat),
    ("windows", .array (workspace.windows.map windowToJson))]

/-- A text member, the null text where there is none. -/
def textMember (key : String) (object : Json) : Option Utf16 := (object.member key).bind Json.asText

/-- A tab of a JSON object. -/
def TabFromJson (object : Json) : WorkspaceTab where
  sessionUuid := ClampString ((textMember "sessionUuid" object).getD []) MAX_UUID_LENGTH
  label := ClampString ((textMember "label" object).getD []) MAX_TAB_LABEL_LENGTH
  customLabel := ClampString ((textMember "customLabel" object).getD []) MAX_TAB_LABEL_LENGTH
  sourceMode := .ofInt (((object.member "sourceMode").bind Json.asInt).getD SourceMode.empty.toInt)
  restorePolicy := .ofInt (((object.member "restorePolicy").bind Json.asInt).getD
    RestorePolicy.restore.toInt)

/-- The most characters of an encoded geometry. -/
def maxGeoB64Chars : Nat := (MAX_GEOMETRY_BYTES * 4 + 2) / 3 + 4

/-- The most characters of an encoded dock state. -/
def maxDockB64Chars : Nat := (MAX_DOCK_STATE_BYTES * 4 + 2) / 3 + 4

/-- A window of a JSON object, `none` where its uuid is null: it has none, or it is rejected. -/
def WindowFromJson (object : Json) : Option WorkspaceWindow :=
  let geoStr := (textMember "geometry" object).getD []
  let dockStr := (textMember "dockState" object).getD []
  let tabsArr := ((object.member "tabs").map Json.asArray).getD []
  -- Oversized texts refuse the window, and with it the whole file.
  if maxGeoB64Chars < geoStr.length ∨ maxDockB64Chars < dockStr.length then none
  else if MAX_TABS_PER_WINDOW < tabsArr.length then none
  else
    let tabs := (tabsArr.filter Json.isObject).map TabFromJson
    -- A window needs an identifier.
    (textMember "windowUuid" object).map fun uuid =>
      { windowUuid := ClampString uuid MAX_UUID_LENGTH
        geometry := ClampBytes (Base64.decode (toLatin1 geoStr)) MAX_GEOMETRY_BYTES
        dockState := ClampBytes (Base64.decode (toLatin1 dockStr)) MAX_DOCK_STATE_BYTES
        tabs
        activeTabIndex := clampIndex (((object.member "activeTabIndex").bind Json.asInt).getD 0)
          tabs }

/-- The focus order of a JSON array. -/
def mruFromJson (items : List Json) : List Utf16 :=
  (items.map fun item => ClampString (item.asText.getD []) MAX_UUID_LENGTH).filter (· ≠ [])

/-- A workspace of a document; an invalid one reads as an empty workspace. -/
def WorkspaceFromDoc (document : Json) : Workspace :=
  if document.isObject then
    let version := (((document.member "schemaVersion").bind Json.asInt).getD 0 : Int)
    -- Another version is not read.
    if version ≠ SCHEMA_VERSION.toNat then .empty
    else
      let windowsArr := ((document.member "windows").map Json.asArray).getD []
      let mruArr := ((document.member "mruOrder").map Json.asArray).getD []
      if MAX_WINDOWS < windowsArr.length then .empty
      else
        (((windowsArr.filter Json.isObject).mapM WindowFromJson).map fun windows =>
          if MAX_WINDOWS < mruArr.length then .empty
          else
            { schemaVersion := SCHEMA_VERSION
              generation := (Int64.ofInt
                (((document.member "generation").bind Json.asInteger).getD 0)).toUInt64
              windows
              mruOrder := mruFromJson mruArr }).getD .empty
  else .empty

end Documents

/-- What the file operations of a write do. -/
structure WorkspaceFaults where
  /-- This instance is the one that publishes. -/
  publishes : Bool
  directory : Bool
  opens : Bool
  writes : Bool
  commits : Bool

/-- `Write`: whether it succeeds, and the file afterwards. -/
def WriteWorkspace (faults : WorkspaceFaults) (file : Option Bytes) (workspace : Workspace) :
    Bool × Option Bytes :=
  if faults.publishes && faults.directory && faults.opens && faults.writes && faults.commits then
    (true, some (BuildDoc (Sanitize workspace)).toJson)
  else (false, file)

/-- `Read`, of the bytes that can be read; `fromJson` is `QJsonDocument::fromJson`. -/
def ReadWorkspace (fromJson : Bytes → Option Json) (file : Option Bytes) : Workspace :=
  match file with
  | none => .empty
  | some raw =>
    if MAX_WORKSPACE_FILE_BYTES < raw.length then .empty
    else (fromJson raw).elim .empty WorkspaceFromDoc

end Loglib
