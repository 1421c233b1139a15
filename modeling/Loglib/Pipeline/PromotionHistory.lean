import Loglib.Pipeline.StreamingLoop
import Loglib.Table.TimestampFormats

/-! The hints that timestamp promotion carries from line to line, and when they change
what it does. -/

namespace Loglib

/-- No hints. -/
def PromotionHints.fresh : PromotionHints := ⟨none, none⟩

/-- No hints for any column. -/
def freshHints (specs : List TimeColumnSpec) : List PromotionHints := specs.map fun _ => .fresh

/-- The slot and the instant of each column's promotion. A worker that has staged decoded text reads
it as from a file that holds the staged text. -/
def promotedSlots (parse : TimestampParser) (sources : List LineSource) :
    List TimeColumnSpec → List PromotionHints → LogLine → List (Option (KeyId × Int64))
  | spec :: specs, hints :: others, line =>
    (spec.promotion parse sources hints line).map (fun (keyId, _, _, parsed) => (keyId, parsed)) ::
      promotedSlots parse sources specs others (spec.promoteLine parse sources hints line).1
  | _, _, _ => []

/-- The promotions of each line, with the hints of the lines before it. -/
def promotedRun (parse : TimestampParser) (sources : List LineSource)
    (specs : List TimeColumnSpec) :
    List PromotionHints → List LogLine → List (List (Option (KeyId × Int64)))
  | _, [] => []
  | hints, line :: rest =>
    promotedSlots parse sources specs hints line ::
      promotedRun parse sources specs (promoteColumns parse sources specs hints line).2 rest

namespace TimeColumnSpec

/-- The instant that the text of a slot stands for, by the first format that reads it. -/
def readSlot (parse : TimestampParser) (spec : TimeColumnSpec) (sources : List LineSource)
    (line : LogLine)
    (keyId : Option KeyId) : Option (KeyId × Int64) :=
  keyId.bind fun keyId =>
    (extractStringBytes sources line keyId).bind fun text =>
      (spec.parseFormats.findSome? (parse · text)).map (keyId, ·)

/-- The first key in column order that holds a text that parses, and its instant. -/
def chosen (parse : TimestampParser) (spec : TimeColumnSpec) (sources : List LineSource)
    (line : LogLine) :
    Option (KeyId × Int64) := spec.keyIds.findSome? (spec.readSlot parse sources line)

/-- The remembered key and format do not lead away from the first key and format: where the format
reads the slot of the key, no key before it holds a text that parses, and no format before it gives
another instant. -/
def Undistracted (parse : TimestampParser) (spec : TimeColumnSpec) (sources : List LineSource)
    (hints : PromotionHints) (line : LogLine) : Prop :=
  ∀ keyId format text parsed, hints.lastValid = some (keyId, format) →
    extractStringBytes sources line keyId = some text → parse format text = some parsed →
      (∀ earlier ∈ spec.keyIds.takeWhile (· ≠ some keyId),
        spec.readSlot parse sources line earlier = none) ∧
        spec.parseFormats.findSome? (parse · text) = some parsed

end TimeColumnSpec

/-- No column of the line is led away by its hints. -/
def UndistractedLine (parse : TimestampParser) (sources : List LineSource) :
    List TimeColumnSpec → List PromotionHints → LogLine → Prop
  | spec :: specs, hints :: others, line =>
    spec.Undistracted parse sources hints line ∧
      UndistractedLine parse sources specs others (spec.promoteLine parse sources hints line).1
  | _, _, _ => True

/-- No line is led away by the hints that the lines before it have left. -/
def UndistractedRun (parse : TimestampParser) (sources : List LineSource)
    (specs : List TimeColumnSpec) :
    List PromotionHints → List LogLine → Prop
  | _, [] => True
  | hints, line :: rest =>
    UndistractedLine parse sources specs hints line ∧
      UndistractedRun parse sources specs (promoteColumns parse sources specs hints line).2 rest

/-- Hints are about one key of the column, and the remembered bytes stand for the instant that the
remembered format reads from them. -/
inductive PromotionHints.Sound (parse : TimestampParser) (spec : TimeColumnSpec) :
    PromotionHints → Prop where
  | fresh : Sound parse spec .fresh
  | remembered (keyId : KeyId) (format text : Bytes) (parsed : Int64)
      (known : some keyId ∈ spec.keyIds)
      (reads : parse format text = some parsed) :
      Sound parse spec ⟨some (keyId, format), some (keyId, text, parsed)⟩

namespace TimeColumnSpec

section Column

variable {parse : TimestampParser} {spec : TimeColumnSpec} {sources : List LineSource}
    {line : LogLine}

/-- Without a remembered instant for the bytes, a format is asked. -/
theorem tryPromote_of_miss {hints : PromotionHints} {keyId : KeyId} {text : Bytes}
    (miss : ∀ hitText parsed, hints.bytesHit = some (keyId, hitText, parsed) → hitText ≠ text)
    (format : Bytes) :
    tryPromote parse hints keyId format text = parse format text := by
  unfold tryPromote
  -- The remembered text is another one, so the format is tried.
  split
  · rename_i hitKey hitText parsed held
    rw [if_neg]
    rintro ⟨rfl, same⟩
    exact miss hitText parsed held same
  · rfl

/-- The remembered instant for the bytes is what the remembered format reads. -/
theorem tryPromote_remembered {keyId : KeyId} {format hitText : Bytes} {parsed : Int64}
    (reads : parse format hitText = some parsed) (text : Bytes) :
    tryPromote parse ⟨some (keyId, format), some (keyId, hitText, parsed)⟩ keyId format text =
      parse format text := by
  unfold tryPromote
  by_cases same : hitText = text
  · simp [same, ← reads]
  · simp [same]

/-- Where no remembered bytes are met, the first promotion is the chosen one. -/
theorem firstPromotion_of_miss {hints : PromotionHints}
    (miss : ∀ keyId text hitText parsed, extractStringBytes sources line keyId = some text →
      hints.bytesHit = some (keyId, hitText, parsed) → hitText ≠ text) :
    (firstPromotion parse spec sources hints line).map
      (fun (keyId, _, _, parsed) => (keyId, parsed)) =
      spec.chosen parse sources line := by
  unfold firstPromotion chosen
  rw [List.map_findSome?]
  congr 1
  funext keyId
  -- Key by key: the formats are asked in order, and only the instant is kept.
  cases keyId with
  | none => rfl
  | some keyId =>
    simp only [Function.comp_apply, Option.bind_some, readSlot]
    cases extracted : extractStringBytes sources line keyId with
    | none => rfl
    | some text =>
      simp only [Option.bind_some]
      rw [List.map_findSome?, List.map_findSome?]
      congr 1
      funext format
      have same : tryPromote parse hints keyId format text = parse format text :=
        tryPromote_of_miss (fun hitText parsed => miss keyId text hitText parsed extracted) format
      simp only [Function.comp_apply, same, Option.map_map]
      rfl

/-- Without hints, the chosen key and instant are promoted. -/
theorem promotion_fresh (parse : TimestampParser) (spec : TimeColumnSpec)
    (sources : List LineSource) (line : LogLine) :
    (spec.promotion parse sources .fresh line).map (fun (keyId, _, _, parsed) => (keyId, parsed)) =
      spec.chosen parse sources line :=
  firstPromotion_of_miss fun _ _ _ _ _ remembered => nomatch remembered

/-- With sound hints, the remembered key and format come first, and then the chosen ones. -/
theorem promotion_sound {keyId : KeyId} {format hitText : Bytes} {hitParsed : Int64}
    (reads : parse format hitText = some hitParsed) :
    (spec.promotion parse sources ⟨some (keyId, format), some (keyId, hitText, hitParsed)⟩ line).map
        (fun (keyId, _, _, parsed) => (keyId, parsed)) =
      (((extractStringBytes sources line keyId).bind (parse format)).map (keyId, ·)).or
        (spec.chosen parse sources line) := by
  have hinted : hintedPromotion parse sources ⟨some (keyId, format),
    some (keyId, hitText, hitParsed)⟩ line =
      (extractStringBytes sources line keyId).bind fun text =>
        (parse format text).map fun parsed => (keyId, format, text, parsed) := by
    unfold hintedPromotion
    simp only [Option.bind_some]
    congr 1
    funext text
    rw [tryPromote_remembered reads]
  unfold promotion
  rw [hinted]
  cases extracted : extractStringBytes sources line keyId with
  | none =>
    -- The remembered key has no text, so no key meets the remembered bytes.
    refine firstPromotion_of_miss fun other text hitText parsed found remembered => ?_
    obtain ⟨rfl, rfl, rfl⟩ := Prod.mk.inj (Option.some.inj remembered) |>.imp_right Prod.mk.inj
    rw [extracted] at found
    exact nomatch found
  | some text =>
    simp only [Option.bind_some]
    cases parsedNow : parse format text with
    | some parsed => rfl
    | none =>
      refine firstPromotion_of_miss fun other otherText hitText parsed found remembered same => ?_
      obtain ⟨rfl, rfl, rfl⟩ := Prod.mk.inj (Option.some.inj remembered) |>.imp_right Prod.mk.inj
      rw [extracted] at found
      obtain rfl := Option.some.inj found
      rw [same, parsedNow] at reads
      exact nomatch reads

/-- Some key reads first exactly if it reads and the keys before it do not. -/
theorem findSome?_eq_of_key {read : Option KeyId → Option (KeyId × Int64)}
    (own : ∀ key id parsed, read key = some (id, parsed) → key = some id)
    {keyIds : List (Option KeyId)} {keyId : KeyId}
    (known : some keyId ∈ keyIds) {parsed : Int64} :
    keyIds.findSome? read = some (keyId, parsed) ↔
      (∀ earlier ∈ keyIds.takeWhile (· ≠ some keyId), read earlier = none) ∧ read
        (some keyId) = some (keyId, parsed) := by
  induction keyIds with
  | nil => exact absurd known List.not_mem_nil
  | cons key rest ih =>
    by_cases same : key = some keyId
    · subst same
      cases found : read (some keyId) with
      | none =>
        -- No other key can give a result under this key's id.
        have missing : rest.findSome? read ≠ some (keyId, parsed) := by
          intro later
          obtain ⟨other, -, reads⟩ := List.exists_of_findSome?_eq_some later
          rw [own other keyId parsed reads, found] at reads
          exact nomatch reads
        simp [found, missing]
      | some result => simp [found]
    · have inRest := (List.mem_cons.mp known).resolve_left fun equal => same equal.symm
      cases found : read key with
      | none => simp [found, same, ih inRest]
      | some result =>
        have other : result ≠ (keyId, parsed) :=
          fun equal => same (own key keyId parsed (equal ▸ found))
        simp [found, same, other]

/-- A slot that is read is the slot of the key. -/
theorem readSlot_key {key : Option KeyId} {id : KeyId} {parsed : Int64}
    (reads : spec.readSlot parse sources line key = some (id, parsed)) : key = some id := by
  obtain ⟨held, rfl, rest⟩ := Option.bind_eq_some_iff.mp reads
  obtain ⟨text, -, rest⟩ := Option.bind_eq_some_iff.mp rest
  obtain ⟨instant, -, same⟩ := Option.map_eq_some_iff.mp rest
  rw [(Prod.mk.inj same).1]

/-- A slot with a text is read by the first format that reads the text. -/
theorem readSlot_eq_some_iff {keyId : KeyId} {text : Bytes}
    (extracted : extractStringBytes sources line keyId = some text)
    {parsed : Int64} :
    spec.readSlot parse sources line (some keyId) = some (keyId, parsed) ↔
      spec.parseFormats.findSome? (parse · text) = some parsed := by
  unfold readSlot
  rw [Option.bind_some, extracted, Option.bind_some, Option.map_eq_some_iff]
  constructor
  · rintro ⟨instant, reads, same⟩
    rw [reads, (Prod.mk.inj same).2]
  · exact fun reads => ⟨parsed, reads, rfl⟩

/-- Sound hints promote as no hints do exactly if they do not lead away. -/
theorem promotion_eq_chosen_iff {hints : PromotionHints} (sound : hints.Sound parse spec) :
    (spec.promotion parse sources hints line).map (fun (keyId, _, _, parsed) => (keyId, parsed)) =
        spec.chosen parse sources line ↔ spec.Undistracted parse sources hints line := by
  cases sound with
  | fresh =>
    refine iff_of_true (promotion_fresh parse spec sources line)
      fun keyId format text parsed remembered => ?_
    exact nomatch remembered
  | remembered keyId format hitText hitParsed known reads =>
    rw [promotion_sound reads]
    constructor
    · rintro agree keyId' format' text parsed remembered extracted parses
      obtain ⟨rfl, rfl⟩ := Prod.mk.inj (Option.some.inj remembered)
      rw [extracted, Option.bind_some, parses, Option.map_some, Option.some_or] at agree
      -- The chosen key is the remembered one, so nothing before it reads.
      obtain ⟨before, own⟩ := (findSome?_eq_of_key (fun _ _ _ => readSlot_key) known).mp agree.symm
      exact ⟨before, (readSlot_eq_some_iff extracted).mp own⟩
    · intro undistracted
      cases extracted : extractStringBytes sources line keyId with
      | none => rfl
      | some text =>
        rw [Option.bind_some]
        cases parses : parse format text with
        | none => rfl
        | some parsed =>
          obtain ⟨before, own⟩ := undistracted keyId format text parsed rfl extracted parses
          rw [Option.map_some, Option.some_or]
          have reads : spec.readSlot parse sources line (some keyId) = some (keyId, parsed) :=
            (readSlot_eq_some_iff extracted).mpr own
          exact ((findSome?_eq_of_key (fun _ _ _ => readSlot_key) known).mpr ⟨before, reads⟩).symm

/-- What is promoted under sound hints is a key of the column, and what the format reads. -/
theorem promotion_reads {hints : PromotionHints} (sound : hints.Sound parse spec) {keyId : KeyId}
    {format text : Bytes}
    {parsed : Int64} (found : spec.promotion parse sources hints line = some (keyId, format,
    text, parsed)) :
    some keyId ∈ spec.keyIds ∧ parse format text = some parsed := by
  unfold promotion at found
  split at found
  · rename_i result hinted
    obtain rfl := Option.some.inj found
    cases sound with
    | fresh => exact nomatch hinted
    | remembered hitKey hitFormat hitText hitParsed known reads =>
      unfold hintedPromotion at hinted
      rw [Option.bind_some] at hinted
      obtain ⟨bytes, -, rest⟩ := Option.bind_eq_some_iff.mp hinted
      obtain ⟨instant, tried, same⟩ := Option.map_eq_some_iff.mp rest
      simp only [Prod.mk.injEq] at same
      obtain ⟨rfl, rfl, rfl, rfl⟩ := same
      rw [tryPromote_remembered reads] at tried
      exact ⟨known, tried⟩
  · rename_i unhinted
    unfold firstPromotion at found
    obtain ⟨key, known, rest⟩ := List.exists_of_findSome?_eq_some found
    obtain ⟨id, rfl, own⟩ := Option.bind_eq_some_iff.mp rest
    obtain ⟨bytes, extracted, formats⟩ := Option.bind_eq_some_iff.mp own
    obtain ⟨used, -, result⟩ := List.exists_of_findSome?_eq_some formats
    obtain ⟨instant, tried, same⟩ := Option.map_eq_some_iff.mp result
    simp only [Prod.mk.injEq] at same
    obtain ⟨rfl, rfl, rfl, rfl⟩ := same
    refine ⟨known, ?_⟩
    rw [tryPromote_of_miss] at tried
    · exact tried
    · intro hitText hitParsed remembered equal
      -- Remembered bytes would have been promoted under the hint.
      cases sound with
      | fresh => exact nomatch remembered
      | remembered hitKey hitFormat hitText' hitParsed' _ reads =>
        simp only [Option.some.injEq, Prod.mk.injEq] at remembered
        obtain ⟨rfl, rfl, rfl⟩ := remembered
        subst equal
        simp [hintedPromotion, extracted, tryPromote_remembered reads, reads] at unhinted

/-- The hints that a column leaves are sound. -/
theorem promoteLine_sound {hints : PromotionHints} (sound : hints.Sound parse spec) :
    (spec.promoteLine parse sources hints line).2.Sound parse spec := by
  unfold promoteLine
  split
  · exact sound
  · rename_i keyId format text parsed found
    obtain ⟨known, reads⟩ := promotion_reads sound found
    exact .remembered keyId format text parsed known reads

/-- The promoted line is made from the slot and the instant. -/
theorem promoteLine_eq (hints : PromotionHints) :
    (spec.promoteLine parse sources hints line).1 =
      match (spec.promotion parse sources hints line).map
        (fun (keyId, _, _, parsed) => (keyId, parsed)) with
      | none => line
      | some (keyId, parsed) => line.setCompact keyId (.timestamp parsed) := by
  unfold promoteLine
  cases spec.promotion parse sources hints line with
  | none => rfl
  | some found => rfl

end Column

end TimeColumnSpec

section Columns

variable {parse : TimestampParser} {sources : List LineSource} {specs : List TimeColumnSpec}

/-- The hints of all columns are sound. -/
abbrev HintsSound (parse : TimestampParser) (specs : List TimeColumnSpec)
    (hints : List PromotionHints) : Prop :=
  List.Forall₂ (fun (spec : TimeColumnSpec) hints => hints.Sound parse spec) specs hints

/-- No hints are sound. -/
theorem freshHints_sound (parse : TimestampParser) (specs : List TimeColumnSpec) :
    HintsSound parse specs (freshHints specs) := by
  induction specs with
  | nil => exact .nil
  | cons spec specs ih => exact .cons .fresh ih

/-- The hints that a line leaves are sound. -/
theorem promoteColumns_sound {hints : List PromotionHints} (sound : HintsSound parse specs hints)
    (line : LogLine) :
    HintsSound parse specs (promoteColumns parse sources specs hints line).2 := by
  induction sound generalizing line with
  | nil => exact .nil
  | cons own _ ih => exact .cons (TimeColumnSpec.promoteLine_sound own) (ih _)

/-- A line is promoted as without hints exactly if no column is led away. -/
theorem promotedSlots_eq_iff {hints : List PromotionHints} (sound : HintsSound parse specs hints)
    (line : LogLine) :
    promotedSlots parse sources specs hints line = promotedSlots parse sources specs
      (freshHints specs) line ↔
      UndistractedLine parse sources specs hints line := by
  induction sound generalizing line with
  | nil => exact iff_of_true rfl trivial
  | cons own _ ih =>
    rename_i spec hints specs others _
    have first : (spec.promotion parse sources hints line).map (fun (keyId, _, _, parsed) =>
      (keyId, parsed)) =
        spec.chosen parse sources line ↔ spec.Undistracted parse sources hints line :=
      TimeColumnSpec.promotion_eq_chosen_iff own
    rw [← TimeColumnSpec.promotion_fresh] at first
    show List.cons _ _ = List.cons _ _ ↔ _ ∧ _
    rw [List.cons_eq_cons, first]
    refine and_congr_right fun undistracted => ?_
    -- The first column has made the same of the line, so the others start from the same line.
    have same : (spec.promoteLine parse sources hints line).1 =
        (spec.promoteLine parse sources .fresh line).1 := by
      rw [TimeColumnSpec.promoteLine_eq, TimeColumnSpec.promoteLine_eq, first.mpr undistracted]
    rw [← same]
    exact ih _

/-- Each line is promoted as without hints exactly if none is led away. -/
theorem promotedRun_eq_iff_of_sound {hints : List PromotionHints}
    (sound : HintsSound parse specs hints) (lines : List LogLine) :
    promotedRun parse sources specs hints lines =
        lines.map (promotedSlots parse sources specs (freshHints specs)) ↔
      UndistractedRun parse sources specs hints lines := by
  induction lines generalizing hints with
  | nil => exact iff_of_true rfl trivial
  | cons line lines ih =>
    show List.cons _ _ = List.cons _ _ ↔ _ ∧ _
    rw [List.cons_eq_cons, promotedSlots_eq_iff sound, ih (promoteColumns_sound sound line)]

end Columns

/-- Promotion over some lines, with the hints carried from line to line, promotes in each line the
slots and instants of that line alone exactly if no remembered key and format lead away from the
first ones. -/
theorem promotedRun_eq_iff (parse : TimestampParser) (sources : List LineSource)
    (specs : List TimeColumnSpec)
    (lines : List LogLine) :
    promotedRun parse sources specs (freshHints specs) lines =
        lines.map (promotedSlots parse sources specs (freshHints specs)) ↔
      UndistractedRun parse sources specs (freshHints specs) lines :=
  promotedRun_eq_iff_of_sound (freshHints_sound parse specs) lines

/-- A column with two alias keys and one format. -/
def aliasedColumn : TimeColumnSpec := ⟨[some 0, some 1], [bytes "%FT%T"]⟩

/-- A file with two decoded timestamps. -/
def aliasedFile : LogFile :=
  { LogFile.ofData [] with ownedStrings := bytes "2024-01-01T00:00:012024-01-01T00:00:02" }

/-- A line with the second alias only, and a line with both. -/
def aliasedLines : List LogLine :=
  [.ofField 0 0 1 (.ownedString 19 19),
    (LogLine.ofField 0 1 0 (.ownedString 0 19)).setCompact 1 (.ownedString 19 19)]

/-- The first line's key is remembered, and the second line's first key is passed over. -/
theorem aliasedLines_ledAway :
    promotedRun (tryParseTimestamp 2024 1 fun _ _ => none) [.file aliasedFile] [aliasedColumn]
        (freshHints [aliasedColumn]) aliasedLines ≠
      aliasedLines.map (promotedSlots (tryParseTimestamp 2024 1 fun _ _ =>
        none) [.file aliasedFile] [aliasedColumn]
        (freshHints [aliasedColumn])) := by
  decide

end Loglib
