import Loglib.Query.FormatExpression

/-! The trees that printed queries are read as, and that they accept the rows of the trees
that were printed. -/

namespace Loglib.Query

section Rules

/-- The upper bound that a printed range is read with. An equation is for the lower bound. -/
def printedUpper : Option Double → Option Double → Option Double
  | some first, some second => some (if first.sameValue second then first else second)
  | _, second => second

/-- The rule that a printed leaf is read as: its first column, and the fields that its type has. -/
def printedRule (rule : LeafRule) : LeafRule :=
  let plain := leafRule (rule.columnKeys.headD []) rule.type
  match rule.type with
  | .string =>
    { plain with
      matchType := some (rule.matchType.getD .contains)
      filterString := some (rule.filterString.getD []) }
  | .number =>
    { plain with
      filterMinValue := rule.filterMinValue
      filterMaxValue := printedUpper rule.filterMinValue rule.filterMaxValue }
  | .time => { plain with filterBegin := rule.filterBegin, filterEnd := rule.filterEnd }
  | .boolean =>
    -- Both sides are printed in a fixed order.
    { plain with
      filterValues := (if spells rule.filterValues "true" then [bytes "true"] else []) ++
        if spells rule.filterValues "false" then [bytes "false"] else [] }
  | .enumeration => { plain with filterValues := rule.filterValues }

end Rules

section Trees

mutual

/-- The operands that a node's text has at a level. Where the level is that of the node, the
operands of its children stand side by side; elsewhere the node is one operand. -/
def operands : FilterExpression → Precedence → List FilterExpression
  | .leaf rule, _ => [.leaf (printedRule rule)]
  | .and children, level =>
    if level = .and then operandsOf children .and
      else [Parser.joined .and (operandsOf children .and)]
  | .or children, level =>
    if level = .or then operandsOf children .or else [Parser.joined .or (operandsOf children .or)]
  | .not none, _ => [.not none]
  | .not (some child), _ => [.not (some (Parser.joined .or (operands child .or)))]

/-- The operands of a node's children. -/
def operandsOf : List FilterExpression → Precedence → List FilterExpression
  | [], _ => []
  | child :: rest, level => operands child level ++ operandsOf rest level

end

/-- The tree that a printed tree is read as: without nodes of one child, and without nodes in nodes
of their kind. -/
def normal (expression : FilterExpression) : FilterExpression :=
  Parser.joined .or (operands expression .or)

/-- A tree that the grammar has texts for, when it has some for the rules of the leaves. -/
inductive Printable (leafOk : LeafRule → Prop) : FilterExpression → Prop
  | leaf (rule : LeafRule) : leafOk rule → Printable leafOk (.leaf rule)
  | and (children : List FilterExpression) :
    children ≠ [] → (∀ child ∈ children, Printable leafOk child) →
    Printable leafOk (.and children)
  | or (children : List FilterExpression) :
    children ≠ [] → (∀ child ∈ children, Printable leafOk child) →
    Printable leafOk (.or children)
  | not (child : FilterExpression) : Printable leafOk child → Printable leafOk (.not (some child))

variable {leafOk : LeafRule → Prop}

/-- A node's text has an operand at least. -/
theorem operandsOf_ne_nil {children : List FilterExpression} {level : Precedence}
    (some_ : children ≠ [])
    (all : ∀ child ∈ children, operands child level ≠ []) : operandsOf children level ≠ [] := by
  cases children with
  | nil => exact absurd rfl some_
  | cons child rest =>
    rw [operandsOf]
    exact fun nothing => all child List.mem_cons_self (List.append_eq_nil_iff.mp nothing).1

/-- A printable tree has an operand at least, at every level. -/
theorem operands_ne_nil {expression : FilterExpression} (printable : Printable leafOk expression)
    (level : Precedence) :
    operands expression level ≠ [] := by
  induction printable generalizing level with
  | leaf rule ok => simp [operands]
  | not child ok ih => simp [operands]
  | and children some_ ok ih | or children some_ ok ih =>
    -- A node is one operand, unless those of its children take its place.
    rw [operands]
    split
    · exact operandsOf_ne_nil some_ fun child member => ih child member _
    · exact List.cons_ne_nil _ _

/-- The level at which a tree is read does not matter for the tree. -/
theorem joined_operands (expression : FilterExpression) :
    Parser.joined .and (operands expression .and) = normal expression := by
  -- At one of the two levels, each kind of node is a single operand, which stands for itself.
  cases expression with
  | leaf rule => rfl
  | and children => simp [normal, operands, Parser.joined]
  | or children => simp [normal, operands, Parser.joined]
  | not child => cases child <;> simp [normal, operands, Parser.joined]

/-- Peeling does not change the tree that the text is read as. -/
theorem normal_peelAnd (expression : FilterExpression) :
    normal (peelAnd expression) = normal expression := by
  fun_induction peelAnd expression with
  | case1 only matchAll => rfl
  | case2 only other ih =>
    rw [ih]
    -- A conjunction of one child is read as the child.
    simp only [normal, operands, operandsOf, List.append_nil, reduceCtorEq, if_false]
    exact (joined_operands only).symm
  | case3 expression other => rfl

/-- Peeling leaves a printable tree. -/
theorem printable_peelAnd {expression : FilterExpression}
    (printable : Printable leafOk expression) :
    Printable leafOk (peelAnd expression) := by
  fun_induction peelAnd expression with
  | case1 only matchAll => exact printable
  | case2 only other ih =>
    cases printable with
    | and _ some_ ok => exact ih (ok only List.mem_cons_self)
  | case3 expression other => exact printable

end Trees

section Truths

/-- Truths that are put together; absent ones are passed over. -/
def together (op : Bool → Bool → Bool) (truths : List (Nat → Bool)) : Option (Nat → Bool) :=
  truths.foldr (fun truth rest =>
    (some truth).merge (fun first second row => op (first row) (second row)) rest) none

variable {op : Bool → Bool → Bool} {truths others : List (Nat → Bool)}

/-- Two groups of truths are put together by what each of them is. -/
theorem together_append (associative : ∀ first second third,
    op (op first second) third = op first (op second third)) :
    together op (truths ++ others) =
      (together op truths).merge (fun first second row => op (first row) (second row))
        (together op others) := by
  -- The first truth joins the rest, whether there is one or not.
  induction truths with
  | nil => simp [together]
  | cons truth truths ih =>
    have step : ∀ rest, together op (truth :: rest) =
        (some truth).merge (fun first second row => op (first row) (second row))
          (together op rest) := fun rest => rfl
    rw [List.cons_append, step, step, ih]
    cases together op truths <;> cases together op others <;> simp [associative]

/-- One truth is what it is. -/
@[simp] theorem together_singleton (truth : Nat → Bool) : together op [truth] = some truth := by
  simp [together]

/-- At most one truth is what it is. -/
@[simp] theorem together_toList (truth : Option (Nat → Bool)) :
    together op truth.toList = truth := by
  cases truth with
  | none => rfl
  | some truth => exact together_singleton truth

/-- Truths of which all must hold. -/
theorem together_and (truths : List (Nat → Bool)) :
    together and truths = if truths.isEmpty then none else some fun row => truths.all (· row) := by
  -- Truth by truth.
  induction truths with
  | nil => rfl
  | cons truth truths ih =>
    have step : together and (truth :: truths) =
        (some truth).merge (fun first second row => first row && second row)
          (together and truths) := rfl
    rw [step, ih]
    cases truths <;> simp

/-- Truths of which one must hold. -/
theorem together_or (truths : List (Nat → Bool)) :
    together or truths = if truths.isEmpty then none else some fun row => truths.any (· row) := by
  -- Truth by truth.
  induction truths with
  | nil => rfl
  | cons truth truths ih =>
    have step : together or (truth :: truths) =
        (some truth).merge (fun first second row => first row || second row) (together or truths) :=
          rfl
    rw [step, ih]
    cases truths <;> simp

end Truths

section Meaning

variable {makeStringMatcher : Bytes → LeafRuleMatch → Bytes → Bool}
    {vformat : Bytes → LogValue → Bytes}
  {columns : List Column} {table : Option LogTable} {shown : LogTable}

/-- The truths of two groups of trees. -/
theorem truthsOf_append (first second : List FilterExpression) :
    truthsOf makeStringMatcher vformat columns table shown (first ++ second) =
      truthsOf makeStringMatcher vformat columns table shown first ++
        truthsOf makeStringMatcher vformat columns table shown second := by
  induction first with
  | nil => rfl
  | cons child rest ih => rw [List.cons_append, truthsOf, truthsOf, ih, List.append_assoc]

/-- A conjunction with children is what these are together. -/
theorem truthOf_and {children : List FilterExpression} (some_ : children ≠ []) :
    truthOf makeStringMatcher vformat columns table shown (.and children) =
      together and (truthsOf makeStringMatcher vformat columns table shown children) := by
  have notEmpty : children.isEmpty = false := by simpa using some_
  rw [together_and, truthOf, notEmpty, Bool.not_false, Bool.and_true]

/-- A disjunction is what its children are together. -/
theorem truthOf_or (children : List FilterExpression) :
    truthOf makeStringMatcher vformat columns table shown (.or children) =
      together or (truthsOf makeStringMatcher vformat columns table shown children) := by
  rw [together_or, truthOf]

/-- One operand stands for itself, and several ones for a conjunction. -/
theorem truthOf_joined_and {children : List FilterExpression} (some_ : children ≠ []) :
    truthOf makeStringMatcher vformat columns table shown (Parser.joined .and children) =
      together and (truthsOf makeStringMatcher vformat columns table shown children) := by
  unfold Parser.joined
  split
  · simp [truthsOf]
  · exact truthOf_and some_

/-- One operand stands for itself, and several ones for a disjunction. -/
theorem truthOf_joined_or (children : List FilterExpression) :
    truthOf makeStringMatcher vformat columns table shown (Parser.joined .or children) =
      together or (truthsOf makeStringMatcher vformat columns table shown children) := by
  unfold Parser.joined
  split
  · simp [truthsOf]
  · exact truthOf_or children

/-- Both words are among the values exactly where they were spelt. -/
theorem spells_printed (hasTrue hasFalse : Bool) :
    let values := (if hasTrue then [bytes "true"] else []) ++
      if hasFalse then [bytes "false"] else []
    spells values "true" = hasTrue ∧ spells values "false" = hasFalse := by
  cases hasTrue <;> cases hasFalse <;> decide

/-- Bounds of one value bound the same numbers. -/
theorem matchesRow_sameValue (column : Nat) {first second : Double}
    (same : first.sameValue second = true) (table : LogTable)
    (row : Nat) :
    (NumericRangeRowPredicate.ofBounds column (some first) (some first)).matchesRow table row =
      (NumericRangeRowPredicate.ofBounds column (some first) (some second)).matchesRow
        table row := by
  simp only [Double.sameValue, Bool.and_eq_true, Bool.not_eq_true', beq_iff_eq] at same
  obtain ⟨⟨firstNumber, secondNumber⟩, sameOrder⟩ := same
  -- A comparison with a number looks at its order only.
  have below : ∀ numeric : Double, first.lt numeric = second.lt numeric := fun numeric => by
    simp only [Double.lt, firstNumber, secondNumber, sameOrder]
  simp [NumericRangeRowPredicate.matchesRow, NumericRangeRowPredicate.ofBounds, firstNumber,
    secondNumber, below]

/-- A leaf for texts has both of its fields. -/
def HasTexts (rule : LeafRule) : Prop :=
  rule.type = .string → rule.matchType ≠ none ∧ rule.filterString ≠ none

/-- A leaf of one column accepts the rows that its printed rule accepts. -/
theorem truthOf_printedRule {rule : LeafRule} {column : Bytes} (one : rule.columnKeys = [column])
    (texts : HasTexts rule) :
    truthOf makeStringMatcher vformat columns table shown (.leaf (printedRule rule)) =
      truthOf makeStringMatcher vformat columns table shown (.leaf rule) := by
  have sameColumn : (printedRule rule).columnKeys = rule.columnKeys := by
    rw [printedRule, one]
    cases rule.type <;> rfl
  rw [truthOf, truthOf, sameColumn]
  generalize resolveLeafColumnByKeys rule.columnKeys columns = resolved
  cases resolved with
  | none => rfl
  | some resolved =>
    cases type : rule.type with
    | string =>
      -- The two fields are there, so that no default takes their place.
      obtain ⟨matched, written⟩ := texts type
      obtain ⟨matchType, sameMatch⟩ := Option.ne_none_iff_exists'.mp matched
      obtain ⟨value, sameValue⟩ := Option.ne_none_iff_exists'.mp written
      simp [compileLeaf, printedRule, leafRule, type, sameMatch, sameValue]
    | time => simp [compileLeaf, printedRule, leafRule, type]
    | enumeration => simp [compileLeaf, compileEnumLeaf, printedRule, leafRule, type]
    | boolean =>
      obtain ⟨sameTrue, sameFalse⟩ :=
        spells_printed (spells rule.filterValues "true") (spells rule.filterValues "false")
      simp only [compileLeaf, printedRule, type, leafRule, sameTrue, sameFalse]
    | number =>
      cases first : rule.filterMinValue with
      | none => simp [compileLeaf, printedRule, printedUpper, leafRule, type, first]
      | some first' =>
        cases second : rule.filterMaxValue with
        | none => simp [compileLeaf, printedRule, printedUpper, leafRule, type, first, second]
        | some second' =>
          by_cases same : first'.sameValue second' = true
          · -- The equation is for the first bound, which bounds the same numbers.
            have rows := matchesRow_sameValue resolved same shown
            simp [compileLeaf, printedRule, printedUpper, leafRule, type, first, second, same,
              matchesRow, rows]
          · simp [compileLeaf, printedRule, printedUpper, leafRule, type, first, second, same]

/-- The operands of the children are together what the children are. -/
theorem together_operandsOf {op : Bool → Bool → Bool}
    (associative : ∀ first second third, op (op first second) third = op first (op second third))
    {children : List FilterExpression} {level : Precedence}
    (all : ∀ child ∈ children,
    together op (truthsOf makeStringMatcher vformat columns table shown (operands child level)) =
      truthOf makeStringMatcher vformat columns table shown child) :
    together op (truthsOf makeStringMatcher vformat columns table shown
      (operandsOf children level)) =
      together op (truthsOf makeStringMatcher vformat columns table shown children) := by
  induction children with
  | nil => rfl
  | cons child rest ih =>
    rw [operandsOf, truthsOf_append, together_append associative, all child List.mem_cons_self,
      ih fun later member => all later (List.mem_cons_of_mem _ member), truthsOf,
      together_append associative, together_toList]

/-- Whatever the level, the operands of a tree are together what the tree is. -/
theorem together_operands {leafOk : LeafRule → Prop}
    (leaves : ∀ rule, leafOk rule → (∃ column, rule.columnKeys = [column]) ∧ HasTexts rule)
    {expression : FilterExpression} (printable : Printable leafOk expression) :
    together and (truthsOf makeStringMatcher vformat columns table shown
      (operands expression .and)) =
        truthOf makeStringMatcher vformat columns table shown expression ∧
      together or (truthsOf makeStringMatcher vformat columns table shown
        (operands expression .or)) =
        truthOf makeStringMatcher vformat columns table shown expression := by
  -- One operand is what it is.
  have single : ∀ {op : Bool → Bool → Bool} (tree : FilterExpression),
      together op (truthsOf makeStringMatcher vformat columns table shown [tree]) =
        truthOf makeStringMatcher vformat columns table shown tree := fun tree => by simp [truthsOf]
  induction printable with
  | leaf rule ok =>
    obtain ⟨⟨column, one⟩, texts⟩ := leaves rule ok
    simp only [operands, single, truthOf_printedRule one texts, and_self]
  | not child ok ih =>
    simp only [operands, single, truthOf, truthOf_joined_or, ih.2, and_self]
  | and children some_ ok ih =>
    have inside := together_operandsOf Bool.and_assoc fun child member => (ih child member).1
    have nonempty := operandsOf_ne_nil some_ fun child member =>
      operands_ne_nil (ok child member) .and
    simp only [operands, if_true, reduceCtorEq, if_false, single]
    exact ⟨inside.trans (truthOf_and some_).symm,
      (truthOf_joined_and nonempty).trans (inside.trans (truthOf_and some_).symm)⟩
  | or children some_ ok ih =>
    have inside := together_operandsOf Bool.or_assoc fun child member => (ih child member).2
    simp only [operands, if_true, reduceCtorEq, if_false, single]
    exact ⟨(truthOf_joined_or _).trans (inside.trans (truthOf_or _).symm),
      inside.trans (truthOf_or _).symm⟩

/-- A tree accepts the rows that the tree accepts which its text is read as, and is absent
when this one is. -/
theorem truthOf_normal {leafOk : LeafRule → Prop}
    (leaves : ∀ rule, leafOk rule → (∃ column, rule.columnKeys = [column]) ∧ HasTexts rule)
    {expression : FilterExpression} (printable : Printable leafOk expression) :
    truthOf makeStringMatcher vformat columns table shown (normal expression) =
      truthOf makeStringMatcher vformat columns table shown expression :=
  (truthOf_joined_or _).trans (together_operands leaves printable).2

end Meaning

end Loglib.Query
