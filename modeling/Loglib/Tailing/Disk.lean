import Loglib.Basic.Bytes

/-! The file under a path as others see and change it: appends, truncations, and files
that take its place. -/

namespace Loglib

/-- A file by its identity. A truncation ends one generation of its content and starts the next. -/
structure TailedFile where
  /-- Contents of the ended generations, oldest first. -/
  ended : List Bytes
  content : Bytes
deriving DecidableEq

namespace TailedFile

/-- The content of a generation, counted from the creation of the file. -/
def generation (file : TailedFile) (epoch : Nat) : Option Bytes :=
  (file.ended ++ [file.content])[epoch]?

/-- The generation that is written now. -/
def epoch (file : TailedFile) : Nat := file.ended.length

/-- Later states of a file keep its generations, and only the last one may have grown. -/
def Grows (old new : TailedFile) : Prop :=
  ∀ epoch text, old.generation epoch = some text → ∃ later, new.generation epoch = some later ∧
    text <+: later

/-- The current generation by its number. -/
@[simp] theorem generation_epoch (file : TailedFile) :
    file.generation file.epoch = some file.content := by
  simp [generation, epoch]

/-- No generation comes after the current one. -/
theorem le_epoch {file : TailedFile} {epoch : Nat} {text : Bytes}
    (there : file.generation epoch = some text) :
    epoch ≤ file.epoch := by
  have bound := (List.getElem?_eq_some_iff.mp there).1
  rw [List.length_append, List.length_singleton] at bound
  exact Nat.le_of_lt_succ bound

/-- Growth is reflexive. -/
theorem Grows.refl (file : TailedFile) : file.Grows file :=
  fun _ text there => ⟨text, there, List.prefix_rfl⟩

/-- Growth is transitive. -/
theorem Grows.trans {first second third : TailedFile} (left : first.Grows second)
    (right : second.Grows third) :
    first.Grows third := by
  intro epoch text there
  obtain ⟨middle, found, starts⟩ := left epoch text there
  obtain ⟨later, still, goesOn⟩ := right epoch middle found
  exact ⟨later, still, starts.trans goesOn⟩

/-- Bytes at the end of the file. -/
def append (file : TailedFile) (text : Bytes) : TailedFile :=
  { file with content := file.content ++ text }

/-- The file cut to a size, which ends a generation. -/
def truncate (file : TailedFile) (size : Nat) : TailedFile :=
  ⟨file.ended ++ [file.content], file.content.take size⟩

/-- An append keeps every generation. -/
theorem append_grows (file : TailedFile) (text : Bytes) : file.Grows (file.append text) := by
  intro epoch before there
  unfold generation at there
  -- Only the current generation changes.
  rcases Nat.lt_or_ge epoch file.ended.length with earlier | current
  · rw [List.getElem?_append_left earlier] at there
    refine ⟨before, ?_, List.prefix_rfl⟩
    rw [generation, append, List.getElem?_append_left earlier, there]
  · have same : epoch = file.ended.length := le_antisymm (le_epoch there) current
    subst same
    obtain rfl : file.content = before := by simpa using there
    exact ⟨file.content ++ text, by simp [generation, append], List.prefix_append _ _⟩

/-- A truncation keeps every generation. -/
theorem truncate_grows (file : TailedFile) (size : Nat) : file.Grows (file.truncate size) := by
  intro epoch before there
  refine ⟨before, ?_, List.prefix_rfl⟩
  have bound := (List.getElem?_eq_some_iff.mp there).1
  rw [generation, truncate, List.getElem?_append_left bound]
  exact there

end TailedFile

/-- The files that were made under the path, the newest last, and whether the path names
the newest now. -/
structure Disk where
  files : List TailedFile
  present : Bool
deriving DecidableEq

/-- What other programs do to the files. -/
inductive DiskAction where
  | append (file : Nat) (text : Bytes)
  | truncate (file size : Nat)
  /-- The path is renamed away or deleted. -/
  | vanish
  /-- The path is back with the newest file. -/
  | restore
  /-- A new file takes the path. -/
  | recreate
deriving DecidableEq

namespace Disk

/-- A path with one file. -/
def ofContent (content : Bytes) : Disk := ⟨[⟨[], content⟩], true⟩

/-- `FromPath`: the identity of the file under the path. -/
def fromPath (disk : Disk) : Option Nat :=
  if disk.present then some (disk.files.length - 1) else none

/-- The content of a file now. -/
def content (disk : Disk) (file : Nat) : Option Bytes := disk.files[file]?.map (·.content)

/-- The content of a generation of a file. -/
def generation (disk : Disk) (file epoch : Nat) : Option Bytes := disk.files[file]?.bind
    (·.generation epoch)

/-- One action. -/
def act (disk : Disk) : DiskAction → Disk
  | .append file text => { disk with files := disk.files.modify file (·.append text) }
  | .truncate file size => { disk with files := disk.files.modify file (·.truncate size) }
  | .vanish => { disk with present := false }
  | .restore => { disk with present := true }
  | .recreate => ⟨disk.files ++ [⟨[], []⟩], true⟩

/-- Actions one after the other. -/
def acts (disk : Disk) (actions : List DiskAction) : Disk := actions.foldl act disk

/-- Later states of the disk keep every file and its generations. -/
def Grows (old new : Disk) : Prop :=
  ∀ (index : Nat) (file : TailedFile), old.files[index]? = some file →
    ∃ later, new.files[index]? = some later ∧ file.Grows later

/-- Growth is reflexive. -/
theorem Grows.refl (disk : Disk) : disk.Grows disk := fun _ file there => ⟨file, there, .refl file⟩

/-- Growth is transitive. -/
theorem Grows.trans {first second third : Disk} (left : first.Grows second)
    (right : second.Grows third) :
    first.Grows third := by
  intro index file there
  obtain ⟨middle, found, grows⟩ := left index file there
  obtain ⟨later, still, growsOn⟩ := right index middle found
  exact ⟨later, still, grows.trans growsOn⟩

/-- No file goes away. -/
theorem Grows.length_le {old new : Disk} (grows : old.Grows new) :
    old.files.length ≤ new.files.length := by
  by_contra fewer
  obtain ⟨later, still, -⟩ :=
    grows new.files.length _ (List.getElem?_eq_getElem (Nat.lt_of_not_le fewer))
  simp at still

/-- A generation keeps its beginning. -/
theorem Grows.generation {old new : Disk} (grows : old.Grows new) {file epoch : Nat} {text : Bytes}
    (there : old.generation file epoch = some text) :
    ∃ later, new.generation file epoch = some later ∧ text <+: later := by
  obtain ⟨own, found, inOwn⟩ := Option.bind_eq_some_iff.mp there
  obtain ⟨later, still, ownGrows⟩ := grows file own found
  obtain ⟨content, inLater, starts⟩ := ownGrows epoch text inOwn
  exact ⟨content, Option.bind_eq_some_iff.mpr ⟨later, still, inLater⟩, starts⟩

/-- A generation that is there is of a file that is there. -/
theorem lt_of_generation {disk : Disk} {file epoch : Nat} {text : Bytes}
    (there : disk.generation file epoch = some text) : file < disk.files.length := by
  obtain ⟨own, found, -⟩ := Option.bind_eq_some_iff.mp there
  exact (List.getElem?_eq_some_iff.mp found).1

/-- The content now is that of the last generation. -/
theorem content_generation {disk : Disk} {file : Nat} {content : Bytes}
    (now : disk.content file = some content) :
    ∃ epoch, disk.generation file epoch = some content ∧
      ∀ other text, disk.generation file other = some text →
        other < epoch ∨ other = epoch ∧ text = content := by
  obtain ⟨own, found, rfl⟩ := Option.map_eq_some_iff.mp now
  refine ⟨own.epoch, Option.bind_eq_some_iff.mpr ⟨own, found, own.generation_epoch⟩,
    fun other text there => ?_⟩
  rw [generation, found] at there
  -- An older generation is another text, one of the same age is this one.
  rcases (TailedFile.le_epoch there).lt_or_eq with earlier | rfl
  · exact .inl earlier
  · exact .inr ⟨rfl, Option.some.inj (there.symm.trans own.generation_epoch)⟩

/-- Every file has a content. -/
theorem content_of_lt {disk : Disk} {file : Nat} (bound : file < disk.files.length) :
    ∃ content, disk.content file = some content := by
  refine ⟨disk.files[file].content, ?_⟩
  rw [content, List.getElem?_eq_getElem bound, Option.map_some]

/-- Changing one file to a state it may grow into. -/
theorem modify_grows (disk : Disk) (index : Nat) {change : TailedFile → TailedFile}
    (grows : ∀ file, TailedFile.Grows file (change file)) (present : Bool) :
    disk.Grows ⟨disk.files.modify index change, present⟩ := by
  intro other file there
  rw [List.getElem?_modify, there]
  split
  · exact ⟨change file, rfl, grows file⟩
  · exact ⟨file, rfl, .refl file⟩

/-- An action keeps what was there. -/
theorem act_grows (disk : Disk) (action : DiskAction) : disk.Grows (disk.act action) := by
  cases action with
  | append file text => exact disk.modify_grows file (fun own => own.append_grows text) disk.present
  | truncate file size =>
    exact disk.modify_grows file (fun own => own.truncate_grows size) disk.present
  | vanish => exact Grows.refl disk
  | restore => exact Grows.refl disk
  -- A new file goes to the end of the list.
  | recreate =>
    intro index file there
    have bound := (List.getElem?_eq_some_iff.mp there).1
    refine ⟨file, ?_, .refl file⟩
    rw [act, List.getElem?_append_left bound, there]

/-- Actions keep what was there. -/
theorem acts_grows (disk : Disk) (actions : List DiskAction) : disk.Grows (disk.acts actions) := by
  induction actions generalizing disk with
  | nil => exact Grows.refl disk
  | cons action actions ih => exact (disk.act_grows action).trans (ih (disk.act action))

end Disk

end Loglib
