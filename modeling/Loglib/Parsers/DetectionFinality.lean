import Loglib.Parsers.FormatDetection

/-! When a format that has been detected stays the same as more bytes come in. -/

namespace Loglib

section Lists

variable {α : Type*}

/-- A search finds an item exactly if it passes and no item in front of its first
occurrence does. -/
theorem find?_eq_some_iff_takeWhile [DecidableEq α] {p : α → Bool} {items : List α} {item : α} :
    items.find? p = some item ↔ item ∈ items ∧ p item = true ∧ ∀ other ∈ items.takeWhile (· ≠ item),
      p other = false := by
  -- The induction is on the items, up to the first occurrence.
  induction items with
  | nil => simp
  | cons first rest ih =>
    by_cases same : first = item
    · subst same
      by_cases passes : p first = true
      · simp [passes]
      · simp only [List.find?_cons_of_neg passes, passes]
        refine iff_of_false (fun found => passes ?_) (by simp)
        exact List.find?_some found
    · have apart : item ≠ first := Ne.symm same
      by_cases passes : p first = true
      · simp [List.find?_cons_of_pos passes, passes, same]
      · rw [List.find?_cons_of_neg passes, ih]
        have fails : p first = false := Bool.eq_false_of_not_eq_true passes
        simp [apart, same, fails]

end Lists

/-- The lines that have their newline. -/
def completeLines (bytes : Bytes) : List ProbeLine :=
  (splitLines newline bytes).1.map ProbeLine.complete

/-- The unfinished last line as it stands once more bytes have come in. -/
def completedLine (bytes more : Bytes) : Bytes :=
  LogFile.dropCarriageReturn ((splitLines newline bytes).2 ++ more.takeWhile (· ≠ newline))

/-- What a detected format rests on stays: a line that decided is complete, or decides the
same once it is complete, and no template that is tried earlier gets its matches from
lines that come in later. -/
def KeepsFormat (probes : FormatProbes) (bytes more : Bytes) : DetectedFormat → Prop
  | .regex pattern =>
    (probes.claims (collectProbeLines true 0 0 (completeLines bytes)) pattern = true ∨
      probes.claims (collectProbeLines true 0 0 (probeLines (bytes ++ more))) pattern = true) ∧
    ∀ other ∈ probes.templates.takeWhile (· ≠ pattern),
      probes.claims (collectProbeLines true 0 0 (probeLines (bytes ++ more))) other = false
  | .csv =>
    (2 ≤ (ProbeLine.nonBlank (completeLines bytes)).length ∨
      ∀ header ∈ (ProbeLine.nonBlank (completeLines bytes)).head?,
        countCsvCells (completedLine bytes more) = countCsvCells (stripBom header.line)) ∧
    ∀ pattern ∈ probes.templates,
      probes.claims (collectProbeLines true 0 0 (probeLines (bytes ++ more))) pattern = false
  | format =>
    ProbeLine.nonBlank (completeLines bytes) ≠ [] ∨ probes.lineFormat
      (completedLine bytes more) = some format

section Lines

/-- The complete lines stay when more bytes come in. -/
theorem probeLines_append (bytes more : Bytes) :
    probeLines (bytes ++ more) = completeLines bytes ++ probeLines
      ((splitLines newline bytes).2 ++ more) := by
  unfold probeLines completeLines
  rw [splitLines_append]
  simp

/-- An unfinished line is the first one of what follows the complete lines. -/
theorem probeLines_of_rest {rest : Bytes} (absent : newline ∉ rest) (some_ : rest ≠ [])
    (more : Bytes) :
    ∃ probe others, probeLines (rest ++ more) = probe :: others ∧
      probe.line = LogFile.dropCarriageReturn (rest ++ more.takeWhile (· ≠ newline)) := by
  cases found : more.dropWhile (· ≠ newline) with
  | nil =>
    -- No newline comes in, so the line is still unfinished.
    have whole : more.takeWhile (· ≠ newline) = more := by
      conv_rhs => rw [← List.takeWhile_append_dropWhile (p := (· ≠ newline)) (l := more), found,
        List.append_nil]
    have absentMore : newline ∉ more := by
      intro member
      rw [← whole] at member
      simpa using List.mem_takeWhile_imp member
    have both : newline ∉ rest ++ more := by simp [absent, absentMore]
    refine ⟨⟨LogFile.dropCarriageReturn (rest ++ more), (rest ++ more).length, false⟩, [], ?_,
      by rw [whole]⟩
    rw [probeLines, splitLines_of_not_mem newline both]
    simp [ProbeLine.partial_, some_]
  | cons c back =>
    -- The line ends with the next newline.
    have atNewline : c = newline := by
      have head := List.head?_dropWhile_not (fun other => decide (other ≠ newline)) more
      rw [found] at head
      simpa using head
    have absentFront : newline ∉ more.takeWhile (· ≠ newline) := by
      intro member
      simpa using List.mem_takeWhile_imp member
    have both : newline ∉ rest ++ more.takeWhile (· ≠ newline) := by
      rw [List.mem_append, not_or]
      exact ⟨absent, absentFront⟩
    have parts : rest ++ more = (rest ++ more.takeWhile (· ≠ newline)) ++ newline :: back := by
      conv_lhs => rw [← List.takeWhile_append_dropWhile (p := (· ≠ newline)) (l := more),
        found, atNewline]
      simp
    refine ⟨ProbeLine.complete (rest ++ more.takeWhile (· ≠ newline)), probeLines back, ?_, rfl⟩
    rw [parts, probeLines, splitLines_line newline both]
    simp [probeLines]

/-- A line that is not empty stays so as it grows. -/
theorem dropCarriageReturn_append {line : Bytes} (some_ : LogFile.dropCarriageReturn line ≠ [])
    (more : Bytes) :
    LogFile.dropCarriageReturn (line ++ more) ≠ [] := by
  -- At most one byte is dropped, and a single carriage return is the only line that has no more.
  cases more with
  | nil => simpa using some_
  | cons c rest =>
    have nonempty : line ≠ [] := by
      rintro rfl
      exact some_ rfl
    have long : 1 ≤ line.length := List.length_pos_iff.mpr nonempty
    intro empty
    have none_ := congrArg List.length empty
    unfold LogFile.dropCarriageReturn at none_
    split at none_
    · simp only [List.length_dropLast, List.length_append, List.length_cons,
        List.length_nil] at none_
      omega
    · simp at none_

/-- The lines that are not empty, of two parts. -/
theorem nonBlank_append (front back : List ProbeLine) :
    ProbeLine.nonBlank (front ++ back) = ProbeLine.nonBlank front ++ ProbeLine.nonBlank back :=
  List.filter_append ..

/-- The lines of the longer bytes begin with the complete ones. An unfinished line that is not empty
comes next, completed. -/
theorem nonBlank_longer (bytes more : Bytes) :
    ∃ rest later, ProbeLine.nonBlank (probeLines bytes) = ProbeLine.nonBlank
      (completeLines bytes) ++ rest ∧
      ProbeLine.nonBlank (probeLines (bytes ++ more)) = ProbeLine.nonBlank
        (completeLines bytes) ++ later ∧
      (rest = [] ∨ ∃ last probe others, rest = [last] ∧ later = probe :: others ∧
        probe.line = completedLine bytes more) := by
  refine ⟨ProbeLine.nonBlank (ProbeLine.partial_ (splitLines newline bytes).2),
    ProbeLine.nonBlank (probeLines ((splitLines newline bytes).2 ++ more)), ?_, ?_, ?_⟩
  · exact nonBlank_append ..
  · rw [probeLines_append, nonBlank_append]
  · -- What follows the last newline is no line, a blank one, or a line that the longer text
    -- completes.
    by_cases ended : (splitLines newline bytes).2 = []
    · exact .inl (by simp [ended, ProbeLine.partial_, ProbeLine.nonBlank])
    · by_cases blank : LogFile.dropCarriageReturn (splitLines newline bytes).2 = []
      · exact .inl (by simp [ended, blank, ProbeLine.partial_, ProbeLine.nonBlank])
      · obtain ⟨probe, others, lines, line⟩ :=
          probeLines_of_rest (not_mem_splitLines newline bytes).2 ended more
        -- A line with a byte keeps it however it goes on.
        have shown : probe.line ≠ [] := by
          rw [line]
          exact dropCarriageReturn_append blank _
        refine .inr ⟨⟨LogFile.dropCarriageReturn (splitLines newline bytes).2,
          (splitLines newline bytes).2.length, false⟩,
          probe, ProbeLine.nonBlank others, ?_, ?_, line⟩
        · simp [ended, blank, ProbeLine.partial_, ProbeLine.nonBlank]
        · rw [lines, ProbeLine.nonBlank, List.filter_cons_of_pos (by simpa using shown)]
          rfl

/-- The lines that templates are tried on stay when further lines come in. -/
theorem collectProbeLines_prefix (firstLine : Bool) (bytesScanned count : Nat)
    (lines more : List ProbeLine) :
    collectProbeLines firstLine bytesScanned count lines <+: collectProbeLines firstLine
      bytesScanned count (lines ++ more) := by
  induction lines generalizing firstLine bytesScanned count with
  | nil => exact List.nil_prefix
  | cons probe rest ih =>
    simp only [collectProbeLines, List.cons_append]
    -- What is cut from a line, and whether it counts, does not depend on those behind.
    generalize (if firstLine = true then stripBom probe.line else probe.line) = line
    generalize (if line = [] then ([] : List Bytes) else [line]) = kept
    split
    · exact List.prefix_refl _
    · exact List.prefix_append_right_inj _ |>.mpr (ih _ _ _)

/-- Templates are tried only on lines that are not empty. -/
theorem length_collectProbeLines (firstLine : Bool) (bytesScanned count : Nat)
    (lines : List ProbeLine) :
    (collectProbeLines firstLine bytesScanned count lines).length ≤
      (ProbeLine.nonBlank lines).length := by
  induction lines generalizing firstLine bytesScanned count with
  | nil => exact le_rfl
  | cons probe rest ih =>
    -- A blank line stays blank without its byte order mark.
    have shorter : probe.line = [] →
        (if firstLine = true then stripBom probe.line else probe.line) = [] := by
      intro blank
      simp [blank, stripBom]
    generalize shown : (if firstLine = true then stripBom probe.line
      else probe.line) = line at shorter
    have bound : (if line = [] then ([] : List Bytes)
        else [line]).length ≤ (ProbeLine.nonBlank [probe]).length := by
      split
      · exact Nat.zero_le _
      · rename_i some_
        have nonempty : probe.line ≠ [] := fun blank => some_ (shorter blank)
        simp [ProbeLine.nonBlank, nonempty]
    have parts : ProbeLine.nonBlank (probe :: rest) = ProbeLine.nonBlank [probe] ++
        ProbeLine.nonBlank rest :=
      nonBlank_append [probe] rest
    rw [parts, List.length_append]
    simp only [collectProbeLines]
    rw [shown]
    generalize (if line = [] then ([] : List Bytes) else [line]) = kept at bound ⊢
    -- The collection stops here, or goes on behind a line that counts once at most.
    split
    · omega
    · rw [List.length_append]
      exact Nat.add_le_add bound (ih _ _ _)

end Lines

namespace FormatProbes

section Verdicts

variable (probes : FormatProbes) {bytes : Bytes}

/-- Only the first line makes a buffer JSON or logfmt. -/
theorem lineFormat_cases (line : Bytes) :
    probes.lineFormat line = none ∨ probes.lineFormat line = some .json ∨
      probes.lineFormat line = some .logfmt := by
  unfold lineFormat
  split
  · exact .inr (.inl rfl)
  · split
    · exact .inr (.inr rfl)
    · exact .inl rfl

/-- The first line decides nothing, or one of its two formats. -/
theorem headFormat_cases (sniffBuffer : Bytes) :
    probes.headFormat sniffBuffer = none ∨ probes.headFormat sniffBuffer = some .json ∨
      probes.headFormat sniffBuffer = some .logfmt := by
  unfold headFormat
  cases (ProbeLine.nonBlank (probeLines sniffBuffer)).head? with
  | none => exact .inl rfl
  | some probe => exact probes.lineFormat_cases probe.line

/-- A buffer is JSON or logfmt exactly if its first line is. -/
theorem tryDetect_head_iff {format : DetectedFormat} (head : format = .json ∨ format = .logfmt) :
    probes.tryDetectFormatFromBytes bytes = some format ↔
      probes.headFormat bytes = some format := by
  unfold tryDetectFormatFromBytes
  cases decided : probes.headFormat bytes with
  | some other => exact Iff.rfl
  | none =>
    -- Templates and CSV give neither of the two.
    refine iff_of_false ?_ nofun
    simp only
    cases probes.probeAutoDetectTemplates bytes with
    | some pattern => rcases head with rfl | rfl <;> exact nofun
    | none => rcases head with rfl | rfl <;> simp

/-- The template that claims a buffer is the first one with enough matches. -/
theorem probeAutoDetectTemplates_eq (sniffBuffer : Bytes) :
    probes.probeAutoDetectTemplates sniffBuffer =
      probes.templates.find? (probes.claims
        (collectProbeLines true 0 0 (probeLines sniffBuffer))) := by
  unfold probeAutoDetectTemplates
  simp only
  split
  · -- Fewer lines than a template has to match cannot be claimed by any.
    rename_i few
    symm
    rw [List.find?_eq_none]
    intro pattern _
    have bound := List.countP_le_length (p := probes.matchesFullyForProbe pattern)
      (l := collectProbeLines true 0 0 (probeLines sniffBuffer))
    simp only [claims, decide_eq_true_eq]
    omega
  · rfl

/-- A buffer is of a template exactly if its first line decides nothing, and no template in front
claims it. -/
theorem tryDetect_regex_iff {pattern : Bytes} :
    probes.tryDetectFormatFromBytes bytes = some (.regex pattern) ↔
      probes.headFormat bytes = none ∧ pattern ∈ probes.templates ∧
        probes.claims (collectProbeLines true 0 0 (probeLines bytes)) pattern = true ∧
          ∀ other ∈ probes.templates.takeWhile (· ≠ pattern),
            probes.claims (collectProbeLines true 0 0 (probeLines bytes)) other = false := by
  rw [← find?_eq_some_iff_takeWhile, ← probeAutoDetectTemplates_eq]
  unfold tryDetectFormatFromBytes
  -- The head decides for JSON or logfmt, or leaves it to the templates.
  rcases probes.headFormat_cases bytes with none_ | json | logfmt
  · rw [none_]
    simp only [true_and]
    cases probes.probeAutoDetectTemplates bytes with
    | some found => simp
    | none =>
      -- Without a template the text is CSV or nothing, and neither is a template.
      refine iff_of_false ?_ nofun
      simp only
      split <;> exact nofun
  · rw [json]
    exact iff_of_false nofun fun both => nomatch both.1
  · rw [logfmt]
    exact iff_of_false nofun fun both => nomatch both.1

/-- A buffer is CSV exactly if nothing else is found, and its first two lines have as many cells. -/
theorem tryDetect_csv_iff :
    probes.tryDetectFormatFromBytes bytes = some .csv ↔
      probes.headFormat bytes = none ∧
        (∀ pattern ∈ probes.templates,
          probes.claims (collectProbeLines true 0 0 (probeLines bytes)) pattern = false) ∧
          csvIsValidBytes bytes = true := by
  -- CSV comes only after every template has declined.
  have unclaimed : probes.probeAutoDetectTemplates bytes = none ↔
      ∀ pattern ∈ probes.templates,
        probes.claims (collectProbeLines true 0 0 (probeLines bytes)) pattern = false := by
    rw [probeAutoDetectTemplates_eq, List.find?_eq_none]
    simp
  rw [← unclaimed]
  unfold tryDetectFormatFromBytes
  rcases probes.headFormat_cases bytes with none_ | json | logfmt
  · rw [none_]
    simp only [true_and]
    cases probes.probeAutoDetectTemplates bytes with
    | some found => simp
    | none => simp
  · rw [json]
    exact iff_of_false nofun fun both => nomatch both.1
  · rw [logfmt]
    exact iff_of_false nofun fun both => nomatch both.1

end Verdicts

section Longer

variable (probes : FormatProbes) {bytes : Bytes}

/-- A complete line that is not empty keeps what the first line decides. -/
theorem headFormat_longer (complete : ProbeLine.nonBlank (completeLines bytes) ≠ [])
    (more : Bytes) :
    probes.headFormat (bytes ++ more) = probes.headFormat bytes := by
  obtain ⟨rest, later, before, after, -⟩ := nonBlank_longer bytes more
  unfold headFormat
  rw [before, after, List.head?_append_of_ne_nil _ complete, List.head?_append_of_ne_nil _ complete]

/-- JSON and logfmt stay exactly if the first line is complete, or is of the format once it is
complete. -/
theorem tryDetect_head_longer {format : DetectedFormat} (head : format = .json ∨ format = .logfmt)
    (committed : probes.tryDetectFormatFromBytes bytes = some format) (more : Bytes) :
    probes.tryDetectFormatFromBytes (bytes ++ more) = some format ↔
      ProbeLine.nonBlank (completeLines bytes) ≠ [] ∨ probes.lineFormat
        (completedLine bytes more) = some format := by
  rw [tryDetect_head_iff probes head] at committed ⊢
  by_cases complete : ProbeLine.nonBlank (completeLines bytes) = []
  · -- The verdict came from the unfinished line.
    obtain ⟨rest, later, before, after, cases_⟩ := nonBlank_longer bytes more
    rw [complete, List.nil_append] at before after
    rcases cases_ with none_ | ⟨last, probe, others, one, parts, line⟩
    · rw [headFormat, before, none_] at committed
      exact nomatch committed
    · rw [headFormat, after, parts]
      simp [complete, line]
  · rw [headFormat_longer probes complete, committed]
    simp [complete]

/-- Two lines that are not empty, and the first one is complete. -/
theorem complete_of_two (two : 2 ≤ (ProbeLine.nonBlank (probeLines bytes)).length) :
    ProbeLine.nonBlank (completeLines bytes) ≠ [] := by
  intro none_
  obtain ⟨rest, later, before, -, cases_⟩ := nonBlank_longer bytes []
  rw [before, none_, List.nil_append] at two
  rcases cases_ with empty | ⟨last, -, -, one, -⟩
  · simp [empty] at two
  · simp [one] at two

/-- A claim on some lines holds on more of them. -/
theorem claims_mono {lines longer : List Bytes} (first : lines <+: longer) {pattern : Bytes}
    (claimed : probes.claims lines pattern = true) : probes.claims longer pattern = true := by
  have bound : lines.countP (probes.matchesFullyForProbe pattern) ≤ longer.countP
      (probes.matchesFullyForProbe pattern) :=
    first.sublist.countP_le
  have enough : probeMinMatches ≤ lines.countP (probes.matchesFullyForProbe pattern) :=
    of_decide_eq_true claimed
  exact decide_eq_true (enough.trans bound)

/-- A template stays exactly if its matches stay, and none in front of it gets enough. -/
theorem tryDetect_regex_longer {pattern : Bytes}
    (committed : probes.tryDetectFormatFromBytes bytes = some (.regex pattern))
    (more : Bytes) :
    probes.tryDetectFormatFromBytes (bytes ++ more) = some (.regex pattern) ↔
      KeepsFormat probes bytes more (.regex pattern) := by
  obtain ⟨undecided, known, claimed, -⟩ := probes.tryDetect_regex_iff.mp committed
  -- Two lines have matched, so two lines are complete already.
  have two : 2 ≤ (ProbeLine.nonBlank (probeLines bytes)).length := by
    have matched := List.countP_le_length (p := probes.matchesFullyForProbe pattern)
      (l := collectProbeLines true 0 0 (probeLines bytes))
    have tried := length_collectProbeLines true 0 0 (probeLines bytes)
    have enough : probeMinMatches ≤ _ := of_decide_eq_true claimed
    exact enough.trans (matched.trans tried)
  rw [tryDetect_regex_iff, headFormat_longer probes (complete_of_two two)]
  -- The lines that have been complete are still the first ones.
  have stays : collectProbeLines true 0 0 (completeLines bytes) <+: collectProbeLines true 0 0
      (probeLines (bytes ++ more)) := by
    rw [probeLines_append]
    exact collectProbeLines_prefix ..
  constructor
  · rintro ⟨-, -, claims_, first⟩
    exact ⟨.inr claims_, first⟩
  · -- The template may match more of the longer text, but not less.
    rintro ⟨claims_, first⟩
    exact ⟨undecided, known, claims_.elim (probes.claims_mono stays) id, first⟩

/-- CSV stays exactly if its second line does, and no template gets enough matches. -/
theorem tryDetect_csv_longer (committed : probes.tryDetectFormatFromBytes bytes = some .csv)
    (more : Bytes) :
    probes.tryDetectFormatFromBytes (bytes ++ more) = some .csv ↔
      KeepsFormat probes bytes more .csv := by
  obtain ⟨undecided, -, valid⟩ := probes.tryDetect_csv_iff.mp committed
  obtain ⟨rest, later, before, after, cases_⟩ := nonBlank_longer bytes more
  unfold csvIsValidBytes at valid
  split at valid
  · rename_i header row others lines
    have complete : ProbeLine.nonBlank (completeLines bytes) ≠ [] :=
      complete_of_two (by simp [lines])
    rw [tryDetect_csv_iff, headFormat_longer probes complete]
    obtain ⟨looks, cells⟩ := of_decide_eq_true valid
    have second : csvIsValidBytes (bytes ++ more) = true ↔
        2 ≤ (ProbeLine.nonBlank (completeLines bytes)).length ∨
          ∀ header ∈ (ProbeLine.nonBlank (completeLines bytes)).head?,
            countCsvCells (completedLine bytes more) = countCsvCells (stripBom header.line) := by
      rw [before] at lines
      cases known : ProbeLine.nonBlank (completeLines bytes) with
      | nil => exact absurd known complete
      | cons first front =>
        rw [known, List.cons_append] at lines
        obtain ⟨rfl, tail⟩ := List.cons.inj lines
        cases front with
        | cons next front =>
          -- Both lines are complete.
          obtain rfl := (List.cons.inj tail).1
          refine iff_of_true ?_ (.inl (by simp))
          rw [csvIsValidBytes, after, known]
          exact decide_eq_true ⟨looks, cells⟩
        | nil =>
          rw [List.nil_append] at tail
          rcases cases_ with none_ | ⟨last, probe, rest', one, parts, line⟩
          · rw [none_] at tail
            exact nomatch tail
          · rw [csvIsValidBytes, after, known, parts]
            simp [line, looks]
    rw [second]
    constructor
    · rintro ⟨-, unclaimed, stays⟩
      exact ⟨stays, unclaimed⟩
    · rintro ⟨stays, unclaimed⟩
      exact ⟨undecided, unclaimed, stays⟩
  · exact nomatch valid

/-- A format that has been detected is still detected on longer bytes exactly if what it
rests on stays. -/
theorem tryDetect_longer_iff {format : DetectedFormat}
    (committed : probes.tryDetectFormatFromBytes bytes = some format)
    (more : Bytes) :
    probes.tryDetectFormatFromBytes (bytes ++ more) = some format ↔
      KeepsFormat probes bytes more format := by
  cases format with
  | json => exact probes.tryDetect_head_longer (.inl rfl) committed more
  | logfmt => exact probes.tryDetect_head_longer (.inr rfl) committed more
  | regex pattern => exact probes.tryDetect_regex_longer committed more
  | csv => exact probes.tryDetect_csv_longer committed more

end Longer

section Reads

variable (probes : FormatProbes)

/-- What is peeked is everything, or a part on which a format was detected. -/
theorem drainPeek_cases {peekBudget : Nat} {whole : Bytes} (bounded : whole.length ≤ peekBudget)
    (peek : Bytes)
    (reads : List Bytes) (parts : peek ++ reads.flatten = whole) :
    probes.drainPeek peekBudget peek reads = whole ∨
      ∃ rest, probes.drainPeek peekBudget peek reads ++ rest = whole ∧
        newline ∈ probes.drainPeek peekBudget peek reads ∧
        (probes.tryDetectFormatFromBytes (probes.drainPeek peekBudget peek reads)).isSome := by
  -- The induction is on the reads.
  induction reads generalizing peek with
  | nil => exact .inl (by simpa [drainPeek] using parts)
  | cons read rest ih =>
    unfold drainPeek
    split
    · -- The budget is used up, so nothing is left to read.
      rename_i full
      have length := congrArg List.length parts
      rw [List.length_append] at length
      have nothing : (read :: rest).flatten = [] := List.length_eq_zero_iff.mp (by omega)
      left
      rw [← parts, nothing, List.append_nil]
    · split
      · rename_i commits
        exact .inr ⟨rest.flatten,
          by rw [← parts, List.flatten_cons, List.append_assoc], commits.1, commits.2⟩
      · exact ih (peek ++ read) (by rw [← parts, List.flatten_cons, List.append_assoc])

/-- However the bytes are cut into reads, the format is the one of all of them, if what each early
verdict rests on stays. -/
theorem pickFormat_eq {peekBudget : Nat} {stream : Bytes} {reads : List Bytes}
    (cut : reads.flatten = stream.take peekBudget)
    (keeps : ∀ bytes more format, bytes ++ more = stream.take peekBudget → newline ∈ bytes →
      probes.tryDetectFormatFromBytes bytes = some format → KeepsFormat probes bytes more format) :
    probes.pickFormat peekBudget reads = probes.detectFormatFromBytes (stream.take peekBudget) := by
  have bounded : (stream.take peekBudget).length ≤ peekBudget := List.length_take_le _ _
  unfold pickFormat
  rcases probes.drainPeek_cases bounded [] reads cut with whole | ⟨rest, parts, hasNewline, commits⟩
  · rw [whole]
  · obtain ⟨format, committed⟩ := Option.isSome_iff_exists.mp commits
    -- A format that was committed early stays with all that follows.
    have stays := (probes.tryDetect_longer_iff committed rest).mpr
      (keeps _ rest format parts hasNewline committed)
    rw [parts] at stays
    rw [detectFormatFromBytes, detectFormatFromBytes, committed, stays]

/-- A detected format is final exactly if what it rests on stays, and then the reads of a stream do
not matter. -/
theorem detection_final :
    (∀ bytes more format, probes.tryDetectFormatFromBytes bytes = some format →
      (probes.tryDetectFormatFromBytes (bytes ++ more) = some format ↔
        KeepsFormat probes bytes more format)) ∧
    ∀ (peekBudget : Nat) (stream : Bytes) (reads : List Bytes),
      reads.flatten = stream.take peekBudget →
      (∀ bytes more format, bytes ++ more = stream.take peekBudget → newline ∈ bytes →
        probes.tryDetectFormatFromBytes bytes = some format →
          KeepsFormat probes bytes more format) →
      probes.pickFormat peekBudget reads = probes.detectFormatFromBytes (stream.take peekBudget) :=
  ⟨fun _ more _ committed => probes.tryDetect_longer_iff committed more, fun _ _ _ cut keeps =>
    probes.pickFormat_eq cut keeps⟩

/-- No line is JSON, and there is no template. -/
def plainProbes : FormatProbes := ⟨fun _ => false, [], fun _ _ => false⟩

/-- Logfmt on a complete first line stays. -/
theorem detection_final_logfmt :
    plainProbes.tryDetectFormatFromBytes (bytes "a=1\n" ++ bytes "b,c\n") = some .logfmt := by
  have committed : plainProbes.tryDetectFormatFromBytes (bytes "a=1\n") = some .logfmt := by decide
  exact (plainProbes.detection_final.1 _ (bytes "b,c\n") _ committed).mpr (.inl (by decide))

/-- A second line of two cells that gets a third one is no longer CSV. -/
theorem growingRow_notFinal :
    newline ∈ bytes "a,b\nc,d" ∧ plainProbes.tryDetectFormatFromBytes
      (bytes "a,b\nc,d") = some .csv ∧
      plainProbes.tryDetectFormatFromBytes (bytes "a,b\nc,d" ++ bytes ",e\n") = none ∧
      plainProbes.pickFormat 100 [bytes "a,b\nc,d", bytes ",e\n"] ≠ plainProbes.pickFormat 100
        [bytes "a,b\nc,d,e\n"] := by
  decide

end Reads

end FormatProbes

end Loglib
