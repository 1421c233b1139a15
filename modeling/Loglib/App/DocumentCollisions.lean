import Loglib.App.UserDocuments

/-! The documents a directory provides: which file wins a name, and when saves and
deletions keep to theirs. -/

namespace Loglib

variable {β : Type}

/-- The document a file of the user directory has under a name. -/
def provides (name : Utf16Text) (file : Utf16Text × Option (UserDocument β)) :
    Option (UserDocument β) :=
  if listed file.1 then (file.2.map (·.named file.1)).filter (·.name = name) else none

/-- The document of the first file that provides a name. -/
def provided (name : Utf16Text) (files : List (Utf16Text × Option (UserDocument β))) :
    Option (UserDocument β) :=
  files.findSome? (provides name)

/-- What a file provides under a name has this name. -/
theorem name_of_provides {name : Utf16Text} {file : Utf16Text × Option (UserDocument β)}
    {document : UserDocument β}
    (found : provides name file = some document) : document.name = name := by
  simp only [provides] at found
  split at found
  · simpa using (Option.filter_eq_some_iff.mp found).2
  · cases found

/-- One listed file: it decides the name it provides unless an earlier one did. -/
theorem lookup_ingest (index : DocumentIndex β) (file : Utf16Text × Option (UserDocument β))
    (name : Utf16Text)
    (shown : listed file.1) :
    (ingest index file).lookup name = if (index.lookup name).any (·.fromUser) then index.lookup name
      else ((provides name file).map (⟨·, true⟩)).or (index.lookup name) := by
  obtain ⟨path, parsed⟩ := file
  cases parsed with
  | none => simp [ingest, provides]
  | some parsed =>
    -- A name that a user's file has already taken is kept; otherwise the file takes its own name.
    simp only [ingest, provides, if_pos shown, Option.map_some]
    by_cases same : (parsed.named path).name = name
    · subst same
      by_cases taken : (index.lookup (parsed.named path).name).any (·.fromUser)
      · simp [taken]
      · simp [taken, SortedMap.lookup_put, Option.filter]
    · by_cases taken : (index.lookup (parsed.named path).name).any (·.fromUser)
      · simp [taken, Option.filter, same]
      · simp [taken, SortedMap.lookup_put, Option.filter, same, Ne.symm same]

/-- The files of a directory over an index: a user entry stays, the first file that
provides a name wins. -/
theorem lookup_foldl_ingest (files : List (Utf16Text × Option (UserDocument β)))
    (index : DocumentIndex β)
    (name : Utf16Text) :
    ((files.filter (listed ·.1)).foldl ingest index).lookup name =
      if (index.lookup name).any (·.fromUser) then index.lookup name
      else ((provided name files).map (⟨·, true⟩)).or (index.lookup name) := by
  -- The first file that provides the name wins.
  induction files generalizing index with
  | nil => simp [provided]
  | cons file rest ih =>
    by_cases shown : listed file.1
    · rw [List.filter_cons_of_pos (by simpa using shown), List.foldl_cons, ih,
        lookup_ingest index file name shown]
      by_cases taken : (index.lookup name).any (·.fromUser)
      · simp [taken]
      · simp only [if_neg taken, provided, List.findSome?_cons]
        cases provides name file <;> simp [taken]
    · rw [List.filter_cons_of_neg (by simpa using shown), ih]
      simp [provided, provides, shown]

namespace DocumentCatalog

variable (catalog : DocumentCatalog β)

/-- After a scan, a name is that of the first user file that provides it, or else a built-in one. -/
theorem lookup_discover (files : UserDirectory β) (name : Utf16Text) :
    (catalog.Discover files).index.lookup name =
      ((provided name files.entries).map (⟨·, true⟩)).or
        ((catalog.builtins.lookup name).map (⟨·, false⟩)) := by
  simp only [Discover]
  rw [lookup_foldl_ingest, SortedMap.lookup_mapValues]
  cases catalog.builtins.lookup name <;> simp

/-- What a name loads as after a scan. -/
theorem load_discover (files : UserDirectory β) (name : Utf16Text) :
    (catalog.Discover files).Load name = (provided name files.entries).or
      (catalog.builtins.lookup name) := by
  rw [DocumentStore.Load, lookup_discover]
  cases provided name files.entries <;> cases catalog.builtins.lookup name <;> rfl

/-- The user names after a scan are those that a file provides. -/
theorem isUser_discover (files : UserDirectory β) (name : Utf16Text) :
    (catalog.Discover files).IsUserTemplate name = (provided name files.entries).isSome := by
  rw [DocumentStore.IsUserTemplate, lookup_discover]
  cases provided name files.entries <;> cases catalog.builtins.lookup name <;> rfl

end DocumentCatalog

/-- What a directory provides, by the files before a path, the file there and the files
behind it. -/
theorem provided_split (files : UserDirectory β) (path name : Utf16Text) :
    provided name files.entries = (provided name (files.below path)).or
      (((files.lookup path).bind fun parsed => provides name (path, parsed)).or
        (provided name (files.above path))) := by
  rw [provided, (files.split_at path).1]
  simp only [provided, List.findSome?_append]
  cases files.lookup path <;> simp

/-- What a directory provides once a file is written. -/
theorem provided_put (files : UserDirectory β) (path name : Utf16Text)
    (parsed : Option (UserDocument β)) :
    provided name (files.put path parsed).entries = (provided name (files.below path)).or
      ((provides name (path, parsed)).or (provided name (files.above path))) := by
  rw [provided, (files.split_at path).2.1]
  simp only [provided, List.findSome?_append, List.findSome?_cons]
  cases provides name (path, parsed) <;> simp

/-- What a directory provides once a file is gone. -/
theorem provided_erase (files : UserDirectory β) (path name : Utf16Text) :
    provided name (files.erase path).entries =
      (provided name (files.below path)).or (provided name (files.above path)) := by
  rw [provided, (files.split_at path).2.2, List.findSome?_append]
  rfl

namespace DocumentCatalog

variable (catalog : DocumentCatalog β)

/-- A save or a deletion that does not throw does what it is for, and leaves the other
names alone. -/
def Behaves (store : DocumentStore β) : StoreCall β → Prop
  | .save name document => ∀ next, catalog.SaveUser store name document = .ok next →
      next.Load name = some { document with name } ∧ ∀ other, other ≠ name →
        next.Load other = store.Load other
  | .delete name => ∀ next, catalog.DeleteUser store name = .ok next →
      (next.IsUserTemplate name = false ∧ next.Load name = catalog.builtins.lookup name) ∧
        ∀ other, other ≠ name → next.Load other = store.Load other
  | .reload => True

/-- The files the call leaves alone do not provide the name, and the file it writes is no other
document's. -/
def Meets (store : DocumentStore β) : StoreCall β → Prop
  | .save name document => (catalog.sanitise name).isOk →
      (if hidden name then store.Load name = some { document with name }
        else ∀ found, provided name (store.files.below (jsonPath name)) = some found →
          found = { document with name }) ∧
      ∀ parsed other found, store.files.lookup (jsonPath name) = some parsed → other ≠ name →
        provided other (store.files.below (jsonPath name)) = none →
        provides other (jsonPath name, parsed) = some found →
        (provided other (store.files.above (jsonPath name))).or
          (catalog.builtins.lookup other) = some found
  | .delete name => (catalog.sanitise name).isOk → store.IsUserTemplate name →
      ∀ file ∈ store.files.entries, (provides name file).isSome → file.1 = jsonPath name
  | .reload => True

/-- A name that passes the check, and what the check returns. -/
theorem sanitise_of_isOk {name : Utf16Text} (accepted : (catalog.sanitise name).isOk) :
    catalog.sanitise name = .ok name ∧ name.chars ≠ [] := by
  cases form : catalog.sanitise name with
  | error text => simp [form, Except.isOk, Except.toBool] at accepted
  | ok sanitised =>
    obtain ⟨rfl, filled⟩ := catalog.sanitise_ok form
    exact ⟨rfl, filled⟩

/-- A save that goes through writes the file of its name. -/
theorem saveUser_ok {store next : DocumentStore β} {name : Utf16Text} {document : UserDocument β} :
    catalog.SaveUser store name document = .ok next ↔ (catalog.sanitise name).isOk ∧
      next = catalog.Discover (store.files.put (jsonPath name) (some { document with name })) := by
  constructor
  · intro saved
    -- A name that the sanitiser refuses is never written.
    cases form : catalog.sanitise name with
    | error text => simp [SaveUser, form, bind, Except.bind] at saved
    | ok sanitised =>
      obtain ⟨rfl, -⟩ := catalog.sanitise_ok form
      refine ⟨rfl, ?_⟩
      simpa [SaveUser, form, bind, Except.bind, pure, Except.pure] using saved.symm
  · rintro ⟨accepted, rfl⟩
    simp [SaveUser, (catalog.sanitise_of_isOk accepted).1, bind, Except.bind, pure, Except.pure]

/-- A deletion that goes through drops the file of its name, if it is there. -/
theorem deleteUser_ok {store next : DocumentStore β} {name : Utf16Text} :
    catalog.DeleteUser store name = .ok next ↔
      (catalog.sanitise name).isOk ∧ store.IsUserTemplate name ∧
      next = catalog.Discover (store.files.erase (jsonPath name)) := by
  -- A document without a file of its own leaves the directory as it is.
  have absent : (store.files.lookup (jsonPath name)).isNone →
      catalog.Discover store.files = catalog.Discover (store.files.erase (jsonPath name)) := by
    intro missing
    rw [SortedMap.erase_of_lookup_none (Option.isNone_iff_eq_none.mp missing)]
  cases found : store.index.lookup name with
  | none => simp [DeleteUser, found, DocumentStore.IsUserTemplate]
  | some entry =>
    -- Only a document of the user is deleted, and only under a name that is allowed.
    by_cases user : entry.fromUser
    · cases form : catalog.sanitise name with
      | error text =>
        simp [DeleteUser, found, user, form, bind, Except.bind, Except.isOk, Except.toBool]
      | ok sanitised =>
        obtain ⟨rfl, -⟩ := catalog.sanitise_ok form
        by_cases missing : (store.files.lookup (jsonPath sanitised)).isNone
        · simp [DeleteUser, found, user, form, bind, Except.bind, pure, Except.pure, Except.isOk,
            Except.toBool,
            DocumentStore.IsUserTemplate, missing, ← absent missing, eq_comm]
        · simp [DeleteUser, found, user, form, bind, Except.bind, pure, Except.pure, Except.isOk,
            Except.toBool,
            DocumentStore.IsUserTemplate, missing, eq_comm]
    · simp [DeleteUser, found, user, DocumentStore.IsUserTemplate]

/-- What a saved file provides: its document, unless the file is hidden. -/
theorem provides_saved {name : Utf16Text} (filled : name.chars ≠ []) (document : UserDocument β)
    (other : Utf16Text) :
    provides other (jsonPath name, some { document with name }) =
      if hidden name = false ∧ other = name then some { document with name } else none := by
  have named : UserDocument.named { document with name } (jsonPath name) = { document with name } :=
    if_neg filled
  -- A hidden file is not listed, and a listed one provides the name it was saved under.
  cases secret : hidden name <;> by_cases same : other = name
  · subst same
    simp [provides, listed_jsonPath filled, secret, named, Option.filter]
  · simp [provides, listed_jsonPath filled, secret, named, Option.filter, same, Ne.symm same]
  · simp [provides, listed_jsonPath filled, secret]
  · simp [provides, listed_jsonPath filled, secret]

/-- A save behaves if and only if its condition is met. -/
theorem behaves_save_iff (files : UserDirectory β) (name : Utf16Text) (document : UserDocument β) :
    catalog.Behaves (catalog.Discover files) (.save name document) ↔
      catalog.Meets (catalog.Discover files) (.save name document) := by
  by_cases accepted : (catalog.sanitise name).isOk
  swap
  · -- The save throws, and nothing is asked of it.
    simp [Behaves, Meets, saveUser_ok, accepted]
  have filled := (catalog.sanitise_of_isOk accepted).2
  simp only [Behaves, Meets, saveUser_ok, accepted, true_and, forall_eq, forall_const,
    load_discover]
  have kept : (catalog.Discover files).files = files := rfl
  simp only [kept, provided_put, provides_saved filled]
  cases secret : hidden name with
  | true =>
    -- The file is not listed, before or after: the scan sees no change.
    have unseen : ∀ other parsed, provides (β := β) other (jsonPath name, parsed) = none :=
      fun other parsed => by
      simp [provides, listed_jsonPath filled, secret]
    have same : ∀ other, provided other files.entries =
        (provided other (files.below (jsonPath name))).or
          (provided other (files.above (jsonPath name))) := by
      intro other
      rw [provided_split files (jsonPath name) other]
      cases files.lookup (jsonPath name) <;> simp [unseen]
    simp [unseen, same]
  | false =>
    have same : ∀ other, provided other files.entries =
        (provided other (files.below (jsonPath name))).or
          (((files.lookup (jsonPath name)).bind fun parsed =>
            provides other (jsonPath name, parsed)).or
            (provided other (files.above (jsonPath name)))) := provided_split files (jsonPath name)
    refine and_congr ?_ ⟨fun others parsed other found there differs none_ old => ?_,
      fun others other differs => ?_⟩
    · cases provided name (files.below (jsonPath name)) <;> simp
    · have loads := others other differs
      rw [same, there, none_] at loads
      simpa [differs, old] using loads
    · -- Only the document the file held before can make a difference.
      rw [same]
      cases earlier : provided other (files.below (jsonPath name)) with
      | some found => simp
      | none =>
        cases there : files.lookup (jsonPath name) with
        | none => simp [differs]
        | some parsed =>
          cases old : provides other (jsonPath name, parsed) with
          | none => simp [differs, old]
          | some found =>
            simpa [differs, old] using others parsed other found there differs earlier old

/-- A file provides one name only. -/
theorem provides_unique {name other : Utf16Text} {file : Utf16Text × Option (UserDocument β)}
    {document : UserDocument β} (found : provides name file = some document)
    (differs : other ≠ name) : provides other file = none := by
  rcases Option.eq_none_or_eq_some (provides other file) with absent | ⟨twin, there⟩
  · exact absent
  · -- Both would be the document of the file, and it has one name.
    have one := name_of_provides found
    have two := name_of_provides there
    simp only [provides] at found there
    split at found
    · rename_i shown
      rw [if_pos shown] at there
      have same := (Option.filter_eq_some_iff.mp there).1.symm.trans
        (Option.filter_eq_some_iff.mp found).1
      obtain rfl := Option.some.inj same
      exact absurd (two.symm.trans one) differs
    · cases found

/-- Only the file of a path provides a name if and only if no file before it and none
behind it does. -/
theorem provides_only_iff (files : UserDirectory β) (path name : Utf16Text) :
    (∀ file ∈ files.entries, (provides name file).isSome → file.1 = path) ↔
      provided name (files.below path) = none ∧ provided name (files.above path) = none := by
  simp only [provided, List.findSome?_eq_none_iff]
  constructor
  · -- Files in front of the path and behind it are other files.
    intro only
    refine ⟨fun file member => ?_, fun file member => ?_⟩
    · obtain ⟨there, less⟩ := List.mem_filter.mp member
      have less : file.1 < path := by simpa using less
      by_contra found
      exact less.ne (only file there (Option.isSome_iff_ne_none.mpr found))
    · obtain ⟨there, less⟩ := List.mem_filter.mp member
      have less : path < file.1 := by simpa using less
      by_contra found
      exact less.ne' (only file there (Option.isSome_iff_ne_none.mpr found))
  · -- A file that provides the name is neither in front nor behind, so it is the one.
    rintro ⟨before, behind⟩ file member found
    have missing : provides name file ≠ none := Option.isSome_iff_ne_none.mp found
    rcases lt_trichotomy file.1 path with less | same | greater
    · exact absurd (before file (List.mem_filter.mpr ⟨member, by simpa using less⟩)) missing
    · exact same
    · exact absurd (behind file (List.mem_filter.mpr ⟨member, by simpa using greater⟩)) missing

/-- A deletion behaves if and only if its condition is met. -/
theorem behaves_delete_iff (files : UserDirectory β) (name : Utf16Text) :
    catalog.Behaves (catalog.Discover files) (.delete name) ↔
      catalog.Meets (catalog.Discover files) (.delete name) := by
  by_cases accepted : (catalog.sanitise name).isOk
  swap
  · simp [Behaves, Meets, deleteUser_ok, accepted]
  by_cases user : (catalog.Discover files).IsUserTemplate name
  swap
  · simp [Behaves, Meets, deleteUser_ok, user]
  have kept : (catalog.Discover files).files = files := rfl
  simp only [Behaves, Meets, deleteUser_ok, accepted, user, true_and, forall_eq, forall_const, kept,
    load_discover,
    isUser_discover, provides_only_iff, provided_erase]
  constructor
  · rintro ⟨⟨gone, -⟩, -⟩
    simpa using gone
  · rintro ⟨before, behind⟩
    refine ⟨by simp [before, behind], fun other differs => ?_⟩
    -- The file provides the deleted name, so it provides no other one.
    rw [isUser_discover, provided_split files (jsonPath name) name, before, behind] at user
    rw [provided_split files (jsonPath name) other]
    cases there : files.lookup (jsonPath name) with
    | none => rfl
    | some parsed =>
      rw [there] at user
      obtain ⟨found, own⟩ := Option.isSome_iff_exists.mp user
      have own : provides name (jsonPath name, parsed) = some found := by simpa using own
      simp [provides_unique own differs]

/-- A call that throws leaves the store as it is; one that does not ends in a scan. -/
theorem perform_eq (store : DocumentStore β) (call : StoreCall β) :
    catalog.perform store call = store ∨ ∃ files,
      catalog.perform store call = catalog.Discover files := by
  cases call with
  -- A call that is refused changes nothing, one that is not refused reads the directory again.
  | save name document =>
    cases saved : catalog.SaveUser store name document with
    | error text => exact .inl (by simp [perform, saved, Except.toOption])
    | ok next =>
      exact .inr ⟨_, by simpa [perform, saved, Except.toOption] using (catalog.saveUser_ok.mp saved).2⟩
  | delete name =>
    cases deleted : catalog.DeleteUser store name with
    | error text => exact .inl (by simp [perform, deleted, Except.toOption])
    | ok next =>
      exact .inr ⟨_, by simpa [perform, deleted, Except.toOption] using (catalog.deleteUser_ok.mp deleted).2.2⟩
  | reload => exact .inr ⟨store.files, rfl⟩

/-- The calls as a step function. -/
def step (store : DocumentStore β) (call : StoreCall β) : Option (DocumentStore β) :=
  some (catalog.perform store call)

/-- The index is a scan of the files, and the library has its user entries. -/
def Scanned (store : DocumentStore β) : Prop := ∃ files, store = catalog.Discover files

/-- Every call keeps the index a scan. -/
theorem Scanned.step {store next : DocumentStore β} {call : StoreCall β}
    (scanned : catalog.Scanned store)
    (done : catalog.step store call = some next) : catalog.Scanned next := by
  obtain rfl := Option.some.inj done
  rcases catalog.perform_eq store call with same | ⟨files, same⟩
  · rwa [same]
  · exact ⟨files, same⟩

/-- On a scanned store each call behaves if and only if its condition is met. -/
theorem behaves_iff {store : DocumentStore β} (scanned : catalog.Scanned store)
    (call : StoreCall β) :
    catalog.Behaves store call ↔ catalog.Meets store call := by
  obtain ⟨files, rfl⟩ := scanned
  cases call with
  | save name document => exact catalog.behaves_save_iff files name document
  | delete name => exact catalog.behaves_delete_iff files name
  | reload => exact Iff.rfl

/-- Over any directory and any calls, the saves and deletions behave if and only if each call meets
its condition where it is made, and the library always has the user entries of the index. -/
theorem run_behaves_iff (files : UserDirectory β) (calls : List (StoreCall β)) :
    (CleanRun catalog.step catalog.Behaves (catalog.Discover files) calls ↔
      CleanRun catalog.step catalog.Meets (catalog.Discover files) calls) ∧
    ∀ final, calls.foldlM catalog.step (catalog.Discover files) = some final →
      final.extras = userEntries final.index := by
  have start : catalog.Scanned (catalog.Discover files) := ⟨files, rfl⟩
  refine ⟨⟨?_, ?_⟩, fun final done => ?_⟩
  · -- The two conditions agree on every state that a scan of the directory has made.
    exact CleanRun.imp (fun _ _ _ scanned _ done => scanned.step catalog done)
      (fun _ call scanned => (catalog.behaves_iff scanned call).mp) start
  · exact CleanRun.imp (fun _ _ _ scanned _ done => scanned.step catalog done)
      (fun _ call scanned => (catalog.behaves_iff scanned call).mpr) start
  · obtain ⟨last, rfl⟩ := foldlM_invariant (fun _ _ _ scanned done =>
      Scanned.step catalog scanned done) start done
    rfl

/-- Every file is the one of the name it provides. -/
def Tidy (files : UserDirectory β) : Prop :=
  ∀ file ∈ files.entries, ∀ name, (provides name file).isSome → file.1 = jsonPath name

/-- A save under a name that starts with a dot. -/
def SavesHidden : StoreCall β → Prop
  | .save name _ => hidden name
  | _ => False

/-- In a tidy directory every call meets its condition, as long as no saved name starts
with a dot. -/
theorem meets_of_tidy {store : DocumentStore β} (tidy : Tidy store.files) {call : StoreCall β}
    (shown : ¬SavesHidden call) : catalog.Meets store call := by
  cases call with
  | save name document =>
    have visible : hidden name = false := by simpa [SavesHidden] using shown
    have own := (provides_only_iff store.files (jsonPath name) name).mp fun file member =>
      tidy file member name
    intro accepted
    refine ⟨?_, fun parsed other found there differs before old => ?_⟩
    · simp [visible, own.1]
    · -- A file that provides the other name is the file of that name.
      have member : (jsonPath name, parsed) ∈ store.files.entries := SortedMap.mem_of_lookupIn there
      have same := tidy _ member other (by simp [old])
      exact absurd (Utf16Text.append_injective ".json" same).symm differs
  | delete name =>
    intro accepted user file member
    exact tidy file member name
  | reload => trivial

/-- The calls keep a directory tidy. -/
theorem Tidy.step {store next : DocumentStore β} {call : StoreCall β} (tidy : Tidy store.files)
    (done : catalog.step store call = some next) : Tidy next.files := by
  obtain rfl := Option.some.inj done
  cases call with
  | save name document =>
    cases saved : catalog.SaveUser store name document with
    | error text => simpa [perform, saved, Except.toOption] using tidy
    | ok next =>
      obtain ⟨accepted, rfl⟩ := catalog.saveUser_ok.mp saved
      intro file member other found
      simp only [perform, saved, Except.toOption, Option.getD_some] at member
      -- The saved file is the new one; every other one was there before.
      have parts : file = (jsonPath name, some { document with name }) ∨
          file ∈ store.files.entries := by
        simp only [Discover, (store.files.split_at (jsonPath name)).2.1, List.mem_append,
          List.mem_cons] at member
        rcases member with before | same | behind
        · exact .inr (List.mem_of_mem_filter before)
        · exact .inl same
        · exact .inr (List.mem_of_mem_filter behind)
      -- The new file carries the name that it was saved under.
      rcases parts with rfl | old
      · rw [provides_saved (catalog.sanitise_of_isOk accepted).2] at found
        split at found
        · rename_i same
          rw [same.2]
        · cases found
      · exact tidy file old other found
  | delete name =>
    cases deleted : catalog.DeleteUser store name with
    | error text => simpa [perform, deleted, Except.toOption] using tidy
    | ok next =>
      -- A deletion takes a file away and changes none.
      obtain ⟨-, -, rfl⟩ := catalog.deleteUser_ok.mp deleted
      intro file member other found
      simp only [perform, deleted, Except.toOption, Option.getD_some] at member
      exact tidy file (List.mem_of_mem_filter member) other found
  | reload => exact tidy

/-- In a tidy directory, all runs without a save under a hidden name behave. -/
theorem run_behaves_of_tidy {files : UserDirectory β} (tidy : Tidy files)
    {calls : List (StoreCall β)}
    (shown : ∀ call ∈ calls, ¬SavesHidden call) :
    CleanRun catalog.step catalog.Behaves (catalog.Discover files) calls := by
  suffices general : ∀ store, catalog.Scanned store → Tidy store.files →
      CleanRun catalog.step catalog.Behaves store calls from general _ ⟨files, rfl⟩ tidy
  induction calls with
  | nil => exact fun _ _ _ => trivial
  -- A tidy directory stays tidy, so the condition of each call is met in turn.
  | cons call rest ih =>
    intro store scanned tidy
    have met := catalog.meets_of_tidy tidy (shown call (List.mem_cons_self ..))
    refine ⟨(catalog.behaves_iff scanned call).mpr met, fun next done => ?_⟩
    exact ih (fun call member => shown call (List.mem_cons_of_mem _ member)) next
      (scanned.step catalog done)
      (tidy.step catalog done)

/-- A hand-copied file that takes the name before the file of the name does. -/
def copiedFiles : UserDirectory Nat :=
  SortedMap.empty.put (.ofString "a.json") (some ⟨.ofString "n", 1⟩)

/-- The save goes through, and the name still loads as the document of the other file. -/
theorem copiedFiles_spoil :
    ¬CleanRun (RegexTemplateRegistry []).step (RegexTemplateRegistry []).Behaves
      ((RegexTemplateRegistry []).Discover copiedFiles)
        [.save (.ofString "n") ⟨.ofString "n", 2⟩] := by
  intro clean
  have fails := (clean.1 _ ((saveUser_ok _).mpr ⟨by decide, rfl⟩)).1
  revert fails
  decide

end DocumentCatalog

end Loglib
