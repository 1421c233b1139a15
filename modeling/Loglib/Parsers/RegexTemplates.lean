import Loglib.Basic.Bytes

/-! Regex templates: the merged probe list of built-in and extra templates, and its
compiled form. -/

namespace Loglib

/-- A named pattern that splits lines, as far as the probe order depends on it. -/
structure RegexTemplate where
  name : Bytes
  pattern : Bytes
  /-- Whether the template joins the automatic detection. -/
  autoDetect : Bool
  priority : Int
deriving DecidableEq

/-- The embedded documents, and what the JSON reader and the pattern compiler make of a text. -/
structure TemplateCatalog (γ : Type) where
  embedded : List Bytes
  parseTemplate : Bytes → Option RegexTemplate
  compile : Bytes → Option γ

/-- A template that compiled. -/
structure CompiledTemplate (γ : Type) where
  source : RegexTemplate
  compiled : γ
deriving DecidableEq

/-- Lower priorities come first, and equal ones keep their order. -/
def sortByPriority (templates : List RegexTemplate) : List RegexTemplate :=
  templates.mergeSort fun first second => decide (first.priority ≤ second.priority)

/-- Sorting drops and repeats nothing. -/
theorem sortByPriority_perm (templates : List RegexTemplate) :
    (sortByPriority templates).Perm templates :=
  List.mergeSort_perm templates _

/-- Comparing priorities is transitive. -/
theorem priority_le_trans (first second third : RegexTemplate)
    (one : decide (first.priority ≤ second.priority) = true)
    (two : decide (second.priority ≤ third.priority) = true) :
    decide (first.priority ≤ third.priority) = true := by
  simp only [decide_eq_true_eq] at one two ⊢
  exact one.trans two

/-- Comparing priorities is total. -/
theorem priority_le_total (first second : RegexTemplate) :
    (decide (first.priority ≤ second.priority) || decide (second.priority ≤ first.priority)) =
      true := by
  simpa using le_total first.priority second.priority

/-- The sorted list is in the order of the priorities. -/
theorem sortByPriority_pairwise (templates : List RegexTemplate) :
    (sortByPriority templates).Pairwise fun first second => first.priority ≤ second.priority := by
  have sorted := List.pairwise_mergeSort priority_le_trans priority_le_total templates
  exact sorted.imp fun ordered => of_decide_eq_true ordered

/-- Templates of one priority keep their order. -/
theorem sortByPriority_stable (templates : List RegexTemplate) (priority : Int) :
    (sortByPriority templates).filter (·.priority = priority) = templates.filter
      (·.priority = priority) := by
  -- The templates of the priority are sorted as they stand, so that they stay a sublist.
  have level : (templates.filter (·.priority = priority)).Pairwise
      fun first second => decide (first.priority ≤ second.priority) = true := by
    refine List.Pairwise.imp_of_mem (R := fun _ _ => True) ?_ (List.pairwise_of_forall fun _ _ =>
      trivial)
    intro first second one two _
    have left : first.priority = priority := by simpa using (List.mem_filter.mp one).2
    have right : second.priority = priority := by simpa using (List.mem_filter.mp two).2
    simp [left, right]
  have kept := List.sublist_mergeSort priority_le_trans priority_le_total level List.filter_sublist
  have inside := kept.filter (·.priority = priority)
  simp only [List.filter_filter, Bool.and_self] at inside
  -- There are no others of that priority.
  have count := ((sortByPriority_perm templates).filter (·.priority = priority)).length_eq
  exact (inside.eq_of_length count.symm).symm

/-- A list in the order of the priorities, with the templates of each priority in the
order given. -/
structure ByPriority (templates sorted : List RegexTemplate) : Prop where
  perm : sorted.Perm templates
  order : sorted.Pairwise fun first second => first.priority ≤ second.priority
  stable : ∀ priority, sorted.filter (·.priority = priority) = templates.filter
    (·.priority = priority)

/-- Sorting is stable and by priority. -/
theorem sortByPriority_byPriority (templates : List RegexTemplate) :
    ByPriority templates (sortByPriority templates) :=
  ⟨sortByPriority_perm templates, sortByPriority_pairwise templates,
    sortByPriority_stable templates⟩

namespace TemplateCatalog

variable {γ : Type} (catalog : TemplateCatalog γ)

/-- The built-in templates; a document that does not parse is skipped. -/
def builtins : List RegexTemplate :=
  sortByPriority (catalog.embedded.filterMap catalog.parseTemplate)

/-- The templates in probe order: built-ins by priority, then extras by priority. -/
def ordered (extras : List RegexTemplate) : List RegexTemplate :=
  catalog.builtins ++ sortByPriority extras

/-- One turn of the compile loop. -/
def compileInto (compiled : List (CompiledTemplate γ)) (template : RegexTemplate) :
    List (CompiledTemplate γ) :=
  if template.autoDetect then
    match catalog.compile template.pattern with
    | some pattern => compiled ++ [⟨template, pattern⟩]
    | none => compiled
  else compiled

/-- The compiled patterns of a probe list. -/
def compileAll (source : List RegexTemplate) : List (CompiledTemplate γ) :=
  source.foldl catalog.compileInto []

/-- The loop appends what the rest of the list contributes. -/
theorem foldl_compileInto (compiled : List (CompiledTemplate γ)) (source : List RegexTemplate) :
    source.foldl catalog.compileInto compiled = compiled ++ (source.filter (·.autoDetect)).filterMap
      fun template => (catalog.compile template.pattern).map (⟨template, ·⟩) := by
  induction source generalizing compiled with
  | nil => simp
  | cons template rest ih =>
    rw [List.foldl_cons, ih, compileInto]
    -- A template is skipped, fails to compile, or goes to the end.
    by_cases detects : template.autoDetect
    · cases found : catalog.compile template.pattern <;> simp [detects, found]
    · simp [detects]

/-- A template stays in the compiled list if and only if it joins the detection and compiles. -/
def Probes (template : RegexTemplate) : Bool :=
  template.autoDetect && (catalog.compile template.pattern).isSome

/-- The compiled list is the probe list without the templates that do not probe. -/
theorem compileAll_sources (source : List RegexTemplate) :
    (catalog.compileAll source).map CompiledTemplate.source = source.filter catalog.Probes := by
  rw [compileAll, foldl_compileInto, List.nil_append]
  induction source with
  | nil => rfl
  | cons template rest ih =>
    -- A template is probed if it detects and compiles.
    by_cases detects : template.autoDetect
    · cases found : catalog.compile template.pattern <;> simp [Probes, detects, found, ih]
    · simp [Probes, detects, ih]

/-- Every compiled template is the compiled pattern of its source. -/
theorem compile_of_mem_compileAll {source : List RegexTemplate} {entry : CompiledTemplate γ}
    (member : entry ∈ catalog.compileAll source) :
    catalog.compile entry.source.pattern = some entry.compiled := by
  rw [compileAll, foldl_compileInto, List.nil_append] at member
  obtain ⟨template, -, made⟩ := List.mem_filterMap.mp member
  obtain ⟨pattern, found, rfl⟩ := Option.map_eq_some_iff.mp made
  exact found

end TemplateCatalog

end Loglib
