import Loglib.Basic.SortedMap
import Loglib.Basic.Utf16Text
import Loglib.Basic.Runs

/-! User templates and themes: one JSON file a document, indexed by the names inside the files. -/

namespace Loglib

/-- A template or a theme: its name, and the rest of it. -/
structure UserDocument (β : Type) where
  name : Utf16Text
  body : β
deriving DecidableEq

/-- A document of the index, and whether it comes from the user directory. -/
structure IndexEntry (β : Type) where
  document : UserDocument β
  fromUser : Bool

/-- The user directory: what each file parses as, `none` where it does not. -/
abbrev UserDirectory (β : Type) := SortedMap Utf16Text (Option (UserDocument β))

/-- The documents by name. -/
abbrev DocumentIndex (β : Type) := SortedMap Utf16Text (IndexEntry β)

section Names

/-- The white space of `QChar::isSpace`. -/
def isSpace (character : Char) : Bool :=
  character.toNat ∈ [0x20, 0x85, 0xA0, 0x1680, 0x2028, 0x2029, 0x202F, 0x205F, 0x3000]
    || (0x09 ≤ character.toNat && character.toNat ≤ 0x0D)
    || (0x2000 ≤ character.toNat && character.toNat ≤ 0x200A)

/-- The text without the white space at its ends. -/
def trimmed (chars : List Char) : List Char :=
  ((chars.dropWhile isSpace).reverse.dropWhile isSpace).reverse

/-- The device names that are reserved on Windows. -/
def RESERVED : List String :=
  ["CON", "PRN", "AUX", "NUL", "COM1", "COM2", "COM3", "COM4", "COM5", "COM6", "COM7", "COM8",
    "COM9", "LPT1",
    "LPT2", "LPT3", "LPT4", "LPT5", "LPT6", "LPT7", "LPT8", "LPT9"]

/-- A reserved name in any case; no other character has one of their letters as its upper case. -/
def IsReservedWin32DeviceName (chars : List Char) : Bool :=
  RESERVED.any fun reserved => chars.map Char.toUpper = reserved.toList

/-- The characters that no name holds. -/
def invalidCharacter (character : Char) : Bool :=
  character ∈ ['/', '\\', ':', '<', '>', '"', '|', '?', '*'] || character.toNat < 0x20

/-- A name that is safe as the base of a file name, or the text of the error. -/
def sanitiseName (label : String) (name : Utf16Text) : Except String Utf16Text :=
  if name.chars = [] then .error (label ++ " name must not be empty")
  else if name.chars ≠ trimmed name.chars then
    .error (label ++ " name must not have leading or trailing whitespace")
  else if name.chars = ['.'] ∨ name.chars = ['.', '.'] then
    .error (label ++ " name must not be \".\" or \"..\"")
  else if ['.', '.'] <:+: name.chars then .error (label ++ " name must not contain \"..\"")
  else if name.chars.any invalidCharacter then .error (label ++ " name contains invalid character")
  else if IsReservedWin32DeviceName name.chars then
    .error (label ++ " name matches a reserved Win32 device name")
  else if name.chars.getLast? = some '.' ∨ name.chars.getLast? = some ' ' then
    .error (label ++ " name must not end with a dot or space")
  else .ok name

/-- The name of a template. -/
def SanitiseTemplateName : Utf16Text → Except String Utf16Text := sanitiseName "Regex template"

/-- The name of a theme. -/
def SanitiseThemeName : Utf16Text → Except String Utf16Text := sanitiseName "Theme"

/-- A sanitised name is the name itself, and not empty. -/
theorem sanitiseName_ok {label : String} {name sanitised : Utf16Text}
    (accepted : sanitiseName label name = .ok sanitised) : sanitised = name ∧ name.chars ≠ [] := by
  simp only [sanitiseName] at accepted
  split at accepted
  · cases accepted
  · rename_i filled
    refine ⟨?_, filled⟩
    -- Each check that fails throws.
    repeat' split at accepted
    all_goals first | exact (Except.ok.inj accepted).symm | cases accepted

/-- The file a document of this name is saved in. -/
def jsonPath (name : Utf16Text) : Utf16Text := name.append ".json"

/-- A directory listing leaves out the files whose names start with a dot. -/
def hidden (file : Utf16Text) : Bool := file.chars.head? = some '.'

/-- Whether the file is listed under `*.json`, which is matched in any case. -/
def listed (file : Utf16Text) : Bool :=
  !hidden file && ['.', 'j', 's', 'o', 'n'].isSuffixOf (file.chars.map fun character =>
    if character.toNat = 0x17F then 's' else character.toLower)

/-- The name of a file up to its last dot. -/
def completeBaseName (file : Utf16Text) : Utf16Text :=
  if '.' ∈ file.chars then ⟨((file.chars.reverse.dropWhile (· ≠ '.')).drop 1).reverse⟩ else file

/-- The file of a name is listed unless the name starts with a dot. -/
theorem listed_jsonPath {name : Utf16Text} (filled : name.chars ≠ []) :
    listed (jsonPath name) = !(hidden name) := by
  obtain ⟨head, tail, form⟩ := List.exists_cons_of_ne_nil filled
  simp [listed, hidden, jsonPath, Utf16Text.append, form]

end Names

variable {β : Type}

/-- The document of a file: one without a name is named after the file. -/
def UserDocument.named (document : UserDocument β) (file : Utf16Text) : UserDocument β :=
  if document.name.chars = [] then { document with name := completeBaseName file } else document

/-- Take one file of the user directory into the index; the first file of a name stays. -/
def ingest (index : DocumentIndex β) (file : Utf16Text × Option (UserDocument β)) :
    DocumentIndex β :=
  match file.2 with
  | none => index
  | some parsed =>
    let document := parsed.named file.1
    if (index.lookup document.name).any (·.fromUser) then index
      else index.put document.name ⟨document, true⟩

/-- The templates or the themes: the check of their names, and the built-in ones. -/
structure DocumentCatalog (β : Type) where
  sanitise : Utf16Text → Except String Utf16Text
  sanitise_ok : ∀ {name sanitised}, sanitise name = .ok sanitised →
    sanitised = name ∧ name.chars ≠ []
  builtins : SortedMap Utf16Text (UserDocument β)

/-- The built-in templates; one without a name is left out. -/
def BuiltinTemplates (templates : List (UserDocument β)) : SortedMap Utf16Text (UserDocument β) :=
  templates.foldl (fun index document =>
    if document.name.chars = [] then index else index.put document.name document) .empty

/-- The built-in themes, read from their files. -/
def BuiltinThemes (files : List (Utf16Text × Option (UserDocument β))) :
    SortedMap Utf16Text (UserDocument β) :=
  files.foldl (fun index file =>
    file.2.elim index fun parsed =>
      index.put (parsed.named file.1).name (parsed.named file.1)) .empty

/-- The store of `RegexTemplateRegistry`. -/
def RegexTemplateRegistry (templates : List (UserDocument β)) : DocumentCatalog β :=
  ⟨SanitiseTemplateName, sanitiseName_ok, BuiltinTemplates templates⟩

/-- The store of `ThemeControl`. -/
def ThemeControl (files : List (Utf16Text × Option (UserDocument β))) : DocumentCatalog β :=
  ⟨SanitiseThemeName, sanitiseName_ok, BuiltinThemes files⟩

/-- The user directory, the index over it, and the templates last handed to the library. -/
structure DocumentStore (β : Type) where
  files : UserDirectory β
  index : DocumentIndex β
  extras : List (UserDocument β)

/-- The user entries of an index, by name. -/
def userEntries (index : DocumentIndex β) : List (UserDocument β) :=
  (index.entries.filter (·.2.fromUser)).map (·.2.document)

/-- What a name loads as. -/
def DocumentStore.Load (store : DocumentStore β) (name : Utf16Text) : Option (UserDocument β) :=
  (store.index.lookup name).map (·.document)

/-- Whether a name is that of a user document. -/
def DocumentStore.IsUserTemplate (store : DocumentStore β) (name : Utf16Text) : Bool :=
  (store.index.lookup name).any (·.fromUser)

/-- A call of the store. -/
inductive StoreCall (β : Type) where
  | save (name : Utf16Text) (document : UserDocument β)
  | delete (name : Utf16Text)
  | reload

namespace DocumentCatalog

/-- Scan the user directory over the built-in documents, and hand the user entries to the
library. -/
def Discover (catalog : DocumentCatalog β) (files : UserDirectory β) : DocumentStore β :=
  let index := (files.entries.filter (listed ·.1)).foldl ingest
    (catalog.builtins.mapValues (⟨·, false⟩))
  ⟨files, index, userEntries index⟩

/-- `SaveUserTemplate` and `SaveUserTheme`: pin the name, write the file of that name,
scan again. -/
def SaveUser (catalog : DocumentCatalog β) (store : DocumentStore β) (name : Utf16Text)
    (document : UserDocument β) : Except String (DocumentStore β) := do
  let sanitised ← catalog.sanitise name
  return catalog.Discover (store.files.put (jsonPath sanitised)
    (some { document with name := sanitised }))

/-- `DeleteUserTemplate`: remove the file of that name if there is one, scan again. -/
def DeleteUser (catalog : DocumentCatalog β) (store : DocumentStore β) (name : Utf16Text) :
    Except String (DocumentStore β) :=
  match store.index.lookup name with
  | none => .error ("Regex template not found: " ++ String.ofList name.chars)
  | some entry =>
    if entry.fromUser then do
      let sanitised ← catalog.sanitise name
      if (store.files.lookup (jsonPath sanitised)).isNone then return catalog.Discover store.files
      return catalog.Discover (store.files.erase (jsonPath sanitised))
    else .error ("Cannot delete built-in regex template \"" ++ String.ofList name.chars ++
      "\". Built-ins live in the binary; create a same-named user template to shadow it instead.")

/-- A call; one that throws leaves the store as it is. -/
def perform (catalog : DocumentCatalog β) (store : DocumentStore β) : StoreCall β → DocumentStore β
  | .save name document => (catalog.SaveUser store name document).toOption.getD store
  | .delete name => (catalog.DeleteUser store name).toOption.getD store
  | .reload => catalog.Discover store.files

end DocumentCatalog

end Loglib
