import Loglib.App.LogFilterModel
import Loglib.Filter.EnumMeaning

/-! Filter rules and filter trees as the user writes them, and their compilation into predicates. -/

namespace Loglib

/-- `LeafRule::Type`. -/
inductive LeafRuleType where
  | string
  | time
  | enumeration
  | number
  | boolean
deriving DecidableEq, Repr

/-- `LeafRule::Match`. -/
inductive LeafRuleMatch where
  | exactly
  | contains
  | regularExpression
  | wildcard
deriving DecidableEq, Repr

/-- `LeafRule`. -/
structure LeafRule where
  type : LeafRuleType
  columnKeys : List Bytes
  matchType : Option LeafRuleMatch
  filterString : Option Bytes
  filterBegin : Option Int64
  filterEnd : Option Int64
  filterMinValue : Option Double
  filterMaxValue : Option Double
  filterValues : List Bytes
deriving DecidableEq, Repr

/-- `FilterExpression`. `not none` is a negation whose child is missing. -/
inductive FilterExpression where
  | leaf (rule : LeafRule)
  | and (children : List FilterExpression)
  | or (children : List FilterExpression)
  | not (child : Option FilterExpression)

namespace FilterExpression

/-- Induction over a filter tree, with a hypothesis for every child. -/
@[elab_as_elim, induction_eliminator]
theorem childInduction {holds : FilterExpression → Prop}
    (leaf : ∀ rule, holds (.leaf rule))
    (and : ∀ children, (∀ child ∈ children, holds child) → holds (.and children))
    (or : ∀ children, (∀ child ∈ children, holds child) → holds (.or children))
    (notNone : holds (.not none))
    (notSome : ∀ child, holds child → holds (.not (some child)))
    (expression : FilterExpression) : holds expression := by
  refine @FilterExpression.rec holds (fun children => ∀ child ∈ children, holds child)
    (fun child? => holds (.not child?)) leaf and or (fun _ whole => whole)
    (fun _ absurdity => absurd absurdity List.not_mem_nil) ?_ notNone notSome expression
  -- The hypothesis for a longer list of children covers its head and its tail.
  intro first rest headHolds tailHolds child listed
  rcases List.mem_cons.mp listed with rfl | later
  · exact headHolds
  · exact tailHolds child later

end FilterExpression

/-- `ResolveLeafColumnByKeys`: the first column that has all keys of the rule. -/
def resolveLeafColumnByKeys (keys : List Bytes) (columns : List Column) : Option Nat :=
  if keys.isEmpty then none
  else columns.findIdx? fun column => keys.all fun key => column.keys.contains key

section Leaves

variable (makeStringMatcher : Bytes → LeafRuleMatch → Bytes → Bool)

/-- The levels that the names of a rule stand for. -/
def selectedLevels (filterValues : List Bytes) (levelMapping : List (Bytes × Bytes)) :
    List LogLevel :=
  filterValues.filterMap fun name => LogLevel.resolveLevel name levelMapping

/-- The dictionary's strings whose rank is a selected level. -/
def expandLevels (selected ranks : List LogLevel) (dictionary : EnumDictionary) : List Bytes :=
  ranks.zipIdx.filterMap fun entry => if entry.1 ∈ selected then some (dictionary.resolve entry.2)
    else none

/-- The predicate for a level column. Without a rank cache and a dictionary the column is not
promoted yet. -/
def compileLevelLeaf (filterValues : List Bytes) (resolvedColumn : Nat) (column : Column)
    (table : LogTable) :
    Option RowPredicate := do
  let ranks ← table.levelRanks resolvedColumn
  let dictionary ← (table.resolveEnumColumn resolvedColumn).2
  let expanded := expandLevels (selectedLevels filterValues column.levelMapping) ranks dictionary
  if expanded.isEmpty then none
  else some (.enum (.ofSelection resolvedColumn expanded (some dictionary)))

/-- `CompileLeaf` for an enumeration rule. -/
def compileEnumLeaf (rule : LeafRule) (resolvedColumn : Nat) (columns : List Column)
    (table : Option LogTable) :
    Option RowPredicate := do
  let table ← table
  if rule.filterValues.isEmpty then none
  else
    match columns[resolvedColumn]?.filter (·.type = .level) with
    | some column => compileLevelLeaf rule.filterValues resolvedColumn column table
    | none =>
      some (.enum (.ofSelection resolvedColumn rule.filterValues
        (table.resolveEnumColumn resolvedColumn).2))

/-- Some value of a rule spells the word, in any case. -/
def spells (filterValues : List Bytes) (word : String) : Bool :=
  filterValues.any fun value => value.map foldAscii == bytes word

/-- `CompileLeaf`: the predicate of a rule, or none where it is inert. -/
def compileLeaf (rule : LeafRule) (resolvedColumn : Option Nat) (columns : List Column)
    (table : Option LogTable) : Option RowPredicate := do
  let column ← resolvedColumn
  match rule.type with
  | .time =>
    if rule.filterBegin.isNone && rule.filterEnd.isNone then none
    else
      -- The open side is filled with the extreme value.
      some (.timeRange
        ⟨column, rule.filterBegin.getD Int64.minValue, rule.filterEnd.getD Int64.maxValue⟩)
  | .number =>
    if rule.filterMinValue.isNone && rule.filterMaxValue.isNone then none
    else some (.numericRange (.ofBounds column rule.filterMinValue rule.filterMaxValue))
  | .boolean =>
    let includeTrue := spells rule.filterValues "true"
    let includeFalse := spells rule.filterValues "false"
    if !includeTrue && !includeFalse then none else some (.bool ⟨column, includeTrue, includeFalse⟩)
  | .enumeration => compileEnumLeaf rule column columns table
  | .string => do
    let needle ← rule.filterString
    let kind ← rule.matchType
    -- An empty needle would match every row, unless it is to be matched exactly.
    if needle.isEmpty && kind ≠ .exactly then none
    else some (.callbackString ⟨column, some (makeStringMatcher needle kind)⟩)

end Leaves

section Costs

/-- `EstimatedLeafCost`. -/
def estimatedLeafCost : RowPredicate → Int
  | .bool _ => 1
  | .enum _ => 2
  | .timeRange _ => 3
  | .numericRange _ => 4
  | .callbackString _ => 10

variable (predicates : PredicateAddress → RowPredicate)

mutual

/-- `EstimatedCost`. -/
def estimatedCost : CompiledFilterExpression → Int
  | .leaf predicate => estimatedLeafCost (predicates predicate)
  | .and children => estimatedSum children
  | .or children => estimatedLeast children
  | .not none => 0
  | .not (some child) => estimatedCost child + 1

/-- The cost of a conjunction. -/
def estimatedSum : List CompiledFilterExpression → Int
  | [] => 0
  | child :: rest => estimatedCost child + estimatedSum rest

/-- The cost of a disjunction, `INT_MAX` to begin with. -/
def estimatedLeast : List CompiledFilterExpression → Int
  | [] => 2 ^ 31 - 1
  | child :: rest => min (estimatedCost child) (estimatedLeast rest)

end

/-- `std::ranges::sort` by cost, which may put children of the same cost in any order. -/
structure CheapFirstSort where
  sort : (CompiledFilterExpression → Int) → List CompiledFilterExpression →
    List CompiledFilterExpression
  perm : ∀ cost children, (sort cost children).Perm children
  sorted : ∀ cost children, (sort cost children).Pairwise fun first second =>
    cost first ≤ cost second

/-- A stable sort by cost. -/
def CheapFirstSort.stable : CheapFirstSort where
  sort cost children := children.mergeSort fun first second => decide (cost first ≤ cost second)
  perm _ children := List.mergeSort_perm children _
  sorted cost children := by
    have transitive (first second third : CompiledFilterExpression)
      (left : decide (cost first ≤ cost second) = true)
        (right : decide (cost second ≤ cost third) = true) :
          decide (cost first ≤ cost third) = true :=
      decide_eq_true (Int.le_trans (of_decide_eq_true left) (of_decide_eq_true right))
    have total (first second : CompiledFilterExpression) :
        (decide (cost first ≤ cost second) || decide (cost second ≤ cost first)) = true := by
      simpa using Int.le_total (cost first) (cost second)
    exact (List.pairwise_mergeSort transitive total children).imp fun ordered =>
      of_decide_eq_true ordered

end Costs

section Nodes

variable (makeStringMatcher : Bytes → LeafRuleMatch → Bytes → Bool) (cheapFirst : CheapFirstSort)
  (columns : List Column) (table : Option LogTable)

mutual

/-- `CompileNode`, with the predicates placed so far. `none` where the subtree is absent. -/
def compileNode : FilterExpression → List RowPredicate →
    Option CompiledFilterExpression × List RowPredicate
  | .leaf rule, placed =>
    match compileLeaf makeStringMatcher rule
      (resolveLeafColumnByKeys rule.columnKeys columns) columns table with
    | none => (none, placed)
    | some predicate => (some (.leaf placed.length), placed ++ [predicate])
  | .and children, placed =>
    let (compiled, placed) := compileNodes children placed
    -- A conjunction without any children is match-all, and not absent.
    if compiled.isEmpty && !children.isEmpty then (none, placed)
    else (some (.and (cheapFirst.sort (estimatedCost (CompiledFilter.ruleAt placed)) compiled)),
      placed)
  | .or children, placed =>
    let (compiled, placed) := compileNodes children placed
    if compiled.isEmpty then (none, placed)
    else (some (.or (cheapFirst.sort (estimatedCost (CompiledFilter.ruleAt placed)) compiled)),
      placed)
  | .not none, placed => (some (.and []), placed)
  | .not (some child), placed =>
    let (compiled, placed) := compileNode child placed
    (compiled.map fun compiled => .not (some compiled), placed)

/-- The children of a node that are not absent. -/
def compileNodes : List FilterExpression → List RowPredicate →
    List CompiledFilterExpression × List RowPredicate
  | [], placed => ([], placed)
  | child :: rest, placed =>
    let (compiled, placed) := compileNode child placed
    let (others, placed) := compileNodes rest placed
    (compiled.toList ++ others, placed)

end

end Nodes

section Meaning

variable (makeStringMatcher : Bytes → LeafRuleMatch → Bytes → Bool)
    (vformat : Bytes → LogValue → Bytes)
  (columns : List Column) (table : Option LogTable) (shown : LogTable)

mutual

/-- Which rows a filter tree accepts, by its documented meaning; `none` where it is absent. -/
def truthOf : FilterExpression → Option (Nat → Bool)
  | .leaf rule =>
    (compileLeaf makeStringMatcher rule (resolveLeafColumnByKeys rule.columnKeys columns)
      columns table).map
      fun predicate row => matchesRow vformat shown row predicate
  | .and children =>
    let truths := truthsOf children
    -- Leaves that do not compile are left out; a tree of nothing else is left out too.
    if truths.isEmpty && !children.isEmpty then none else some fun row => truths.all (· row)
  | .or children =>
    let truths := truthsOf children
    if truths.isEmpty then none else some fun row => truths.any (· row)
  | .not none => some fun _ => true
  | .not (some child) => (truthOf child).map fun truth row => !truth row

/-- The truths of the children that are not absent. -/
def truthsOf : List FilterExpression → List (Nat → Bool)
  | [] => []
  | child :: rest => (truthOf child).toList ++ truthsOf rest

end

/-- An absent tree accepts every row. -/
def accepts (expression : FilterExpression) (row : Nat) : Bool :=
  ((truthOf makeStringMatcher vformat columns table shown expression).map fun truth =>
    truth row).getD true

end Meaning

section Correctness

variable {makeStringMatcher : Bytes → LeafRuleMatch → Bytes → Bool}
    {vformat : Bytes → LogValue → Bytes}
  {cheapFirst : CheapFirstSort} {columns : List Column} {table : Option LogTable} {shown : LogTable}

/-- The truths of the children that are not absent all hold where every child accepts. -/
theorem all_truthsOf (children : List FilterExpression) (row : Nat) :
    ((truthsOf makeStringMatcher vformat columns table shown children).all (· row)) =
      children.all fun child =>
        accepts makeStringMatcher vformat columns table shown child row := by
  -- A child without a truth accepts every row.
  induction children with
  | nil => simp [truthsOf]
  | cons child rest ih =>
    rw [truthsOf, List.all_append, ih, List.all_cons, accepts]
    cases truthOf makeStringMatcher vformat columns table shown child with
    | none => rfl
    | some truth => simp

/-- A conjunction accepts what all of its children accept, absent ones included. -/
theorem accepts_and (children : List FilterExpression) (row : Nat) :
    accepts makeStringMatcher vformat columns table shown (.and children) row =
      children.all fun child =>
        accepts makeStringMatcher vformat columns table shown child row := by
  rw [← all_truthsOf, accepts, truthOf]
  split
  · rename_i absent
    -- No child has a truth, and an absent conjunction accepts every row.
    have noTruth := List.isEmpty_iff.mp (Bool.and_eq_true_iff.mp absent).1
    rw [noTruth]
    rfl
  · rfl

/-- The leaves of several trees are the leaves of each. -/
theorem mem_collectLeafsOfChildren {address : PredicateAddress}
    {children : List CompiledFilterExpression} :
    address ∈ collectLeafsOfChildren children ↔
      ∃ child ∈ children, address ∈ collectLeafsInVisitOrder child := by
  induction children with
  | nil => simp [collectLeafsOfChildren]
  | cons child rest ih => simp [collectLeafsOfChildren, ih]

/-- Trees that were compiled one after the other: their predicates are placed behind those that were
there, and they keep their meaning whatever is placed later. -/
structure Places (vformat : Bytes → LogValue → Bytes) (shown : LogTable)
    (placed : List RowPredicate)
    (compiled : List CompiledFilterExpression) (after : List RowPredicate)
    (truths : List (Nat → Bool)) : Prop where
  grows : placed <+: after
  inside : ∀ tree ∈ compiled, ∀ address ∈ collectLeafsInVisitOrder tree, address < after.length
  means : ∀ later, after <+: later →
    (compiled.map fun tree row =>
      evaluateExpression vformat (CompiledFilter.ruleAt later) shown row tree) = truths

/-- Nothing compiled, nothing placed. -/
theorem Places.nil (placed : List RowPredicate) : Places vformat shown placed [] placed [] :=
  ⟨List.prefix_rfl, by simp, fun _ _ => rfl⟩

/-- One group of trees after another. -/
theorem Places.append {placed middle after : List RowPredicate}
    {first second : List CompiledFilterExpression}
    {truths others : List (Nat → Bool)} (front : Places vformat shown placed first middle truths)
    (back : Places vformat shown middle second after others) :
    Places vformat shown placed (first ++ second) after (truths ++ others) := by
  refine ⟨front.grows.trans back.grows, ?_, fun later grown => ?_⟩
  · intro tree member address leaf
    obtain early | late := List.mem_append.mp member
    · exact Nat.lt_of_lt_of_le (front.inside tree early address leaf) back.grows.length_le
    · exact back.inside tree late address leaf
  · rw [List.map_append, front.means later (back.grows.trans grown), back.means later grown]

/-- The trees are as many as the truths. -/
theorem Places.isEmpty_eq {placed after : List RowPredicate}
    {compiled : List CompiledFilterExpression}
    {truths : List (Nat → Bool)} (places : Places vformat shown placed compiled after truths) :
    compiled.isEmpty = truths.isEmpty := by
  rw [← places.means after List.prefix_rfl, List.isEmpty_map]

/-- The order of the children does not matter to a conjunction. -/
theorem evaluateAll_perm {predicates : PredicateAddress → RowPredicate} {row : Nat}
    {first second : List CompiledFilterExpression} (same : first.Perm second) :
    evaluateAll vformat predicates shown row first = evaluateAll vformat predicates shown row
      second := by
  rw [evaluateAll_eq, evaluateAll_eq, Bool.eq_iff_iff]
  simp only [List.all_eq_true, same.mem_iff]

/-- The order of the children does not matter to a disjunction. -/
theorem evaluateAny_perm {predicates : PredicateAddress → RowPredicate} {row : Nat}
    {first second : List CompiledFilterExpression} (same : first.Perm second) :
    evaluateAny vformat predicates shown row first = evaluateAny vformat predicates shown row
      second := by
  rw [evaluateAny_eq, evaluateAny_eq, Bool.eq_iff_iff]
  simp only [List.any_eq_true, same.mem_iff]

/-- A conjunction or a disjunction of trees, in any order, has the leaves of the trees. -/
theorem Places.leaves_lt {placed after : List RowPredicate}
    {compiled children : List CompiledFilterExpression}
    {truths : List (Nat → Bool)} (places : Places vformat shown placed compiled after truths)
    (same : children.Perm compiled) :
    ∀ address ∈ collectLeafsOfChildren children, address < after.length := by
  intro address leaf
  obtain ⟨child, member, leaf⟩ := mem_collectLeafsOfChildren.mp leaf
  exact places.inside child (same.mem_iff.mp member) address leaf

/-- The conjunction of trees, in any order, means the conjunction of their truths. -/
theorem Places.and {placed after : List RowPredicate}
    {compiled children : List CompiledFilterExpression}
    {truths : List (Nat → Bool)} (places : Places vformat shown placed compiled after truths)
    (same : children.Perm compiled) :
    Places vformat shown placed [.and children] after [fun row => truths.all (· row)] := by
  refine ⟨places.grows, ?_, fun later grown => ?_⟩
  · -- The predicates of the children are placed, and their order does not matter to a conjunction.
    intro tree member address leaf
    obtain rfl := List.mem_singleton.mp member
    exact places.leaves_lt same address leaf
  · rw [← places.means later grown]
    simp only [List.map_cons, List.map_nil, List.cons.injEq, and_true]
    funext row
    rw [evaluateExpression, evaluateAll_perm same, evaluateAll_eq, List.all_map]
    rfl

/-- The disjunction of trees, in any order, means the disjunction of their truths. -/
theorem Places.or {placed after : List RowPredicate}
    {compiled children : List CompiledFilterExpression}
    {truths : List (Nat → Bool)} (places : Places vformat shown placed compiled after truths)
    (same : children.Perm compiled) :
    Places vformat shown placed [.or children] after [fun row => truths.any (· row)] := by
  refine ⟨places.grows, ?_, fun later grown => ?_⟩
  · -- The predicates of the children are placed, and their order does not matter to a disjunction.
    intro tree member address leaf
    obtain rfl := List.mem_singleton.mp member
    exact places.leaves_lt same address leaf
  · rw [← places.means later grown]
    simp only [List.map_cons, List.map_nil, List.cons.injEq, and_true]
    funext row
    rw [evaluateExpression, evaluateAny_perm same, evaluateAny_eq, List.any_map]
    rfl

/-- The negation of a tree means the negation of its truth; without a tree there is no truth. -/
theorem Places.not {placed after : List RowPredicate} {compiled : Option CompiledFilterExpression}
    {truth : Option (Nat → Bool)}
    (places : Places vformat shown placed compiled.toList after truth.toList) :
    Places vformat shown placed (compiled.map fun tree => .not (some tree)).toList after
      (truth.map fun truth row => !truth row).toList := by
  have means := places.means
  cases compiled with
  -- Nothing to negate stays nothing.
  | none =>
    cases truth with
    | none => exact places
    | some truth => simpa using means after List.prefix_rfl
  | some tree =>
    cases truth with
    | none => simpa using means after List.prefix_rfl
    | some truth =>
      refine ⟨places.grows, ?_, fun later grown => ?_⟩
      · -- The negation visits the leaves of its tree.
        intro negation member address leaf
        obtain rfl := List.mem_singleton.mp member
        exact places.inside tree (List.mem_singleton.mpr rfl) address leaf
      · -- It answers the opposite of what its tree answers.
        have same := means later grown
        simp only [Option.toList_some, List.map_cons, List.map_nil, List.cons.injEq,
          and_true] at same
        rw [← same]
        simp only [Option.map_some, Option.toList_some, List.map_cons, List.map_nil,
          evaluateExpression]

/-- What a node compiles to means the same as the node. -/
def Compiles (makeStringMatcher : Bytes → LeafRuleMatch → Bytes → Bool)
    (vformat : Bytes → LogValue → Bytes)
    (cheapFirst : CheapFirstSort) (columns : List Column) (table : Option LogTable)
    (shown : LogTable)
    (expression : FilterExpression) : Prop :=
  ∀ placed, Places vformat shown placed
    (compileNode makeStringMatcher cheapFirst columns table expression placed).1.toList
    (compileNode makeStringMatcher cheapFirst columns table expression placed).2
    (truthOf makeStringMatcher vformat columns table shown expression).toList

/-- The children of a node compile one after the other. -/
theorem compileNodes_places {children : List FilterExpression}
    (each : ∀ child ∈ children,
    Compiles makeStringMatcher vformat cheapFirst columns table shown child)
    (placed : List RowPredicate) :
    Places vformat shown placed
      (compileNodes makeStringMatcher cheapFirst columns table children placed).1
      (compileNodes makeStringMatcher cheapFirst columns table children placed).2
      (truthsOf makeStringMatcher vformat columns table shown children) := by
  -- Each child is placed behind the predicates of those before it.
  induction children generalizing placed with
  | nil => exact .nil placed
  | cons child rest ih =>
    have first := each child List.mem_cons_self placed
    have others := ih (fun other member => each other (List.mem_cons_of_mem child member))
      (compileNode makeStringMatcher cheapFirst columns table child placed).2
    exact first.append others

/-- A leaf means its predicate. -/
theorem compiles_leaf (rule : LeafRule) :
    Compiles makeStringMatcher vformat cheapFirst columns table shown (.leaf rule) := by
  intro placed
  unfold compileNode truthOf
  cases compileLeaf makeStringMatcher rule (resolveLeafColumnByKeys rule.columnKeys columns)
    columns table with
  | none => exact .nil placed
  | some predicate =>
    refine ⟨List.prefix_append _ _, ?_, fun later grown => ?_⟩
    · intro tree member address leaf
      obtain rfl := List.mem_singleton.mp member
      obtain rfl : address = placed.length := by simpa [collectLeafsInVisitOrder] using leaf
      simp
    · -- The predicate stays where it was placed.
      obtain ⟨more, rfl⟩ := grown
      have held : CompiledFilter.ruleAt (placed ++ [predicate] ++ more) placed.length =
          predicate := by
        simp [CompiledFilter.ruleAt]
      simp only [Option.toList_some, List.map_cons, List.map_nil, evaluateExpression, held,
        Option.map_some]

/-- Every node means what it compiles to. -/
theorem compileNode_compiles (expression : FilterExpression) :
    Compiles makeStringMatcher vformat cheapFirst columns table shown expression := by
  -- The induction is on the tree; the children of a node compile by their own hypotheses.
  induction expression with
  | leaf rule => exact compiles_leaf rule
  | and children each =>
    intro placed
    have places := compileNodes_places each placed
    have empty := places.isEmpty_eq
    unfold compileNode truthOf
    simp only [← empty]
    split
    · rename_i absent
      have none_ := List.isEmpty_iff.mp (Bool.and_eq_true_iff.mp absent).1
      have noTruth := List.isEmpty_iff.mp (empty ▸ (Bool.and_eq_true_iff.mp absent).1)
      rw [none_, noTruth] at places
      exact places
    · exact places.and (cheapFirst.perm _ _)
  | or children each =>
    intro placed
    have places := compileNodes_places each placed
    have empty := places.isEmpty_eq
    unfold compileNode truthOf
    simp only [← empty]
    split
    · rename_i absent
      have none_ := List.isEmpty_iff.mp absent
      have noTruth := List.isEmpty_iff.mp (empty ▸ absent)
      rw [none_, noTruth] at places
      exact places
    · exact places.or (cheapFirst.perm _ _)
  | notNone =>
    intro placed
    exact ⟨List.prefix_rfl, by simp [compileNode, collectLeafsInVisitOrder, collectLeafsOfChildren],
      fun _ _ => rfl⟩
  | notSome child own =>
    intro placed
    unfold compileNode truthOf
    exact (own placed).not

/-- The default filter where the root is absent. -/
def rootNode (compiled : Option CompiledFilterExpression) : CompiledFilterExpression :=
  compiled.getD (.and [])

/-- The column of every leaf is among those of the placed predicates. -/
theorem compileNode_covers (makeStringMatcher : Bytes → LeafRuleMatch → Bytes → Bool)
    (cheapFirst : CheapFirstSort) (columns : List Column) (table : Option LogTable)
    (expression : FilterExpression) :
    let compiled := compileNode makeStringMatcher cheapFirst columns table expression []
    ∀ address ∈ collectLeafsInVisitOrder (rootNode compiled.1),
      (CompiledFilter.ruleAt compiled.2 address).column ∈
        ((compiled.2.map RowPredicate.column).insertionSort (· ≤ ·)).dedup := by
  intro compiled address leaf
  have places := @compileNode_compiles makeStringMatcher (fun _ _ => []) cheapFirst columns table
    (.initial ⟨[], ⟨-1, false⟩⟩) expression []
  -- Every leaf of the tree was placed by the compilation.
  have bound : address < compiled.2.length := by
    cases node : compiled.1 with
    | none =>
      rw [rootNode, node] at leaf
      simp [collectLeafsInVisitOrder, collectLeafsOfChildren] at leaf
    | some tree =>
      rw [rootNode, node] at leaf
      exact places.inside tree (Option.mem_toList.mpr node) address leaf
  have held : compiled.2[address]? = some (compiled.2.get ⟨address, bound⟩) :=
    List.getElem?_eq_getElem bound
  rw [List.mem_dedup, List.mem_insertionSort, List.mem_map]
  exact ⟨_, List.mem_of_getElem? held, by rw [CompiledFilter.ruleAt, held, Option.getD_some]⟩

/-- `CompileExpression`. -/
def compileExpression (makeStringMatcher : Bytes → LeafRuleMatch → Bytes → Bool)
    (cheapFirst : CheapFirstSort)
    (columns : List Column) (table : Option LogTable) (expression : FilterExpression) :
    CompiledFilter where
  node := rootNode (compileNode makeStringMatcher cheapFirst columns table expression []).1
  predicates :=
    CompiledFilter.ruleAt (compileNode makeStringMatcher cheapFirst columns table expression []).2
  referencedColumns :=
    (((compileNode makeStringMatcher cheapFirst columns table expression []).2.map
      RowPredicate.column).insertionSort (· ≤ ·)).dedup
  covers := compileNode_covers makeStringMatcher cheapFirst columns table expression

/-- A compiled tree accepts the rows that the tree accepts. -/
theorem evaluate_compileExpression (expression : FilterExpression) (row : Nat) :
    evaluateExpression vformat
        (compileExpression makeStringMatcher cheapFirst columns table expression).predicates shown
          row
        (compileExpression makeStringMatcher cheapFirst columns table expression).node =
      accepts makeStringMatcher vformat columns table shown expression row := by
  have places := @compileNode_compiles makeStringMatcher vformat cheapFirst columns table shown
    expression []
  have means := places.means _ List.prefix_rfl
  unfold accepts compileExpression
  simp only
  -- A node that compiles to nothing means nothing, and both accept the row.
  cases node : (compileNode makeStringMatcher cheapFirst columns table expression []).1 with
  | none =>
    rw [node] at means
    cases truth : truthOf makeStringMatcher vformat columns table shown expression with
    | none => rfl
    | some truth => simp [truth] at means
  -- Otherwise the tree and the truth answer alike on every row.
  | some tree =>
    rw [node] at means
    cases truth : truthOf makeStringMatcher vformat columns table shown expression with
    | none => simp [truth] at means
    | some truth =>
      rw [truth] at means
      simp only [Option.toList_some, List.map_cons, List.map_nil, List.cons.injEq,
        and_true] at means
      exact congrFun means row

end Correctness

section Levels

/-- No name stands for the unknown level. -/
theorem parseLevelName_ne_unknown (name : Bytes) :
    LogLevel.parseLevelName name ≠ some .unknown := by
  unfold LogLevel.parseLevelName
  split
  · -- No built-in name stands for an unknown level.
    exact Option.some_ne_none _ |>.symm
  · intro found
    obtain ⟨entry, listed, level⟩ := Option.map_eq_some_iff.mp found
    have member := List.mem_of_find?_eq_some listed
    have known : ∀ entry ∈ LogLevel.builtinAliases, entry.2 ≠ .unknown := by decide
    exact known entry member level

/-- Nor does an override. -/
theorem resolveOverride_ne_unknown (name : Bytes) (overrides : List (Bytes × Bytes)) :
    LogLevel.resolveOverride name overrides ≠ some .unknown := by
  induction overrides with
  | nil => simp [LogLevel.resolveOverride]
  | cons entry rest ih =>
    -- An override that names no level is skipped.
    unfold LogLevel.resolveOverride
    split
    · cases named : LogLevel.parseLevelName entry.2 with
      | none => exact ih
      | some level =>
        have known := parseLevelName_ne_unknown entry.2
        rw [named] at known
        exact known
    · exact ih

/-- A selected level is a known one. -/
theorem selectedLevels_known {filterValues : List Bytes} {levelMapping : List (Bytes × Bytes)}
    {level : LogLevel}
    (selected : level ∈ selectedLevels filterValues levelMapping) : level ≠ .unknown := by
  rintro rfl
  obtain ⟨name, -, named⟩ := List.mem_filterMap.mp selected
  unfold LogLevel.resolveLevel at named
  -- The level comes from an override or from a built-in name, and neither says unknown.
  cases overridden : LogLevel.resolveOverride name levelMapping with
  | none =>
    rw [overridden] at named
    exact parseLevelName_ne_unknown name named
  | some level =>
    rw [overridden] at named
    exact resolveOverride_ne_unknown name levelMapping (overridden.trans named)

/-- A level column whose rank cache is built: its dictionary is there, and each rank is
one of its strings. -/
structure BuiltLevelColumn (table : LogTable) (columnIndex : Nat) (column : Column)
    (ranks : List LogLevel)
    (dictionary : EnumDictionary) : Prop where
  located : table.columns[columnIndex]? = some column
  level : column.type = .level
  ranked : table.levelRanks columnIndex = some ranks
  resolved : (table.resolveEnumColumn columnIndex).2 = some dictionary
  within : ranks.length ≤ dictionary.size

/-- The strings of the selected levels. -/
theorem mem_expandLevels {selected ranks : List LogLevel} {dictionary : EnumDictionary}
    {text : Bytes} :
    text ∈ expandLevels selected ranks dictionary ↔
      ∃ id level, ranks[id]? = some level ∧ level ∈ selected ∧ dictionary.resolve id = text := by
  unfold expandLevels
  rw [List.mem_filterMap]
  constructor
  · rintro ⟨⟨level, id⟩, member, picked⟩
    -- The positions of the ranks are the ids of the dictionary.
    have held := List.mem_zipIdx_iff_getElem?.mp member
    split at picked
    · rename_i chosen
      exact ⟨id, level, held, chosen, Option.some.inj picked⟩
    · cases picked
  · rintro ⟨id, level, held, chosen, same⟩
    refine ⟨(level, id), List.mem_zipIdx_iff_getElem?.mpr held, ?_⟩
    rw [if_pos chosen, same]

/-- The level of a row of a built column is the rank of its id. -/
theorem BuiltLevelColumn.getLevelForRow_iff {table : LogTable} {columnIndex : Nat} {column : Column}
    {ranks : List LogLevel} {dictionary : EnumDictionary}
    (built : BuiltLevelColumn table columnIndex column ranks dictionary) (row : Nat)
    {level : LogLevel}
    (known : level ≠ .unknown) :
    table.getLevelForRow row columnIndex = some level ↔
      ∃ id, table.getEnumValueId row columnIndex = some id ∧ ranks[id]? = some level := by
  -- The display reads the rank of the id.
  have shown : table.getDisplayLevelForRow row columnIndex =
      (table.getEnumValueId row columnIndex).map fun id => ranks[id]?.getD .unknown := by
    unfold LogTable.getDisplayLevelForRow
    rw [built.ranked]
    cases table.getEnumValueId row columnIndex <;> rfl
  unfold LogTable.getLevelForRow
  rw [shown]
  cases table.getEnumValueId row columnIndex with
  | none => simp
  | some id =>
    -- A rank is known, and then it is shown; an unknown one is not.
    cases held : ranks[id]? with
    | none => simp [held]
    | some rank =>
      cases rank <;> simp [held]
      exact fun same => known same.symm

/-- The predicate of the selected levels' strings accepts the rows with a selected level. -/
theorem BuiltLevelColumn.accepts_iff {table : LogTable} {columnIndex : Nat} {column : Column}
    {ranks : List LogLevel} {dictionary : EnumDictionary}
    (built : BuiltLevelColumn table columnIndex column ranks dictionary) {selected : List LogLevel}
    (known : ∀ level ∈ selected, level ≠ .unknown) (some_ : ∃ level ∈ ranks, level ∈ selected)
    (row : Nat) :
    (EnumRowPredicate.ofSelection columnIndex (expandLevels selected ranks dictionary)
        (some dictionary)).matchesRow table row = true ↔
      ∃ level ∈ selected, table.getLevelForRow row columnIndex = some level := by
  have inside {id : Nat} {level : LogLevel} (held : ranks[id]? = some level) :
      id < dictionary.size :=
    Nat.lt_of_lt_of_le (List.getElem?_eq_some_iff.mp held).1 built.within
  -- Every string of a selected level is in the dictionary, and there is one.
  have found : ∀ text ∈ expandLevels selected ranks dictionary, (dictionary.find text).isSome := by
    intro text member
    obtain ⟨id, level, held, -, rfl⟩ := mem_expandLevels.mp member
    rw [EnumDictionary.find_resolve (inside held)]
    rfl
  obtain ⟨level, ranked, chosen⟩ := some_
  obtain ⟨first, held⟩ := List.mem_iff_getElem?.mp ranked
  have member : dictionary.resolve first ∈ expandLevels selected ranks dictionary :=
    mem_expandLevels.mpr ⟨first, level, held, chosen, rfl⟩
  have notEmpty : expandLevels selected ranks dictionary ≠ [] := List.ne_nil_of_mem member
  have armed : EnumRowPredicate.Armed dictionary (expandLevels selected ranks dictionary) :=
    ⟨_, member, found _ member⟩
  by_cases slot : ∃ id < dictionary.size, table.getEnumValueId row columnIndex = some id
  · obtain ⟨id, bound, slot⟩ := slot
    rw [EnumRowPredicate.matchesRow_known notEmpty armed slot bound, mem_expandLevels]
    constructor
    · rintro ⟨other, level, held, chosen, same⟩
      obtain rfl := EnumDictionary.resolve_inj (inside held) bound same
      exact ⟨level, chosen, (built.getLevelForRow_iff row (known level chosen)).mpr ⟨other,
        slot, held⟩⟩
    · rintro ⟨level, chosen, shows⟩
      obtain ⟨other, slotToo, held⟩ := (built.getLevelForRow_iff row (known level chosen)).mp shows
      obtain rfl := Option.some.inj (slot.symm.trans slotToo)
      exact ⟨id, level, held, chosen, rfl⟩
  · have unknown : ∀ id, table.getEnumValueId row columnIndex = some id → dictionary.size ≤ id :=
      fun id own => Nat.le_of_not_lt fun bound => slot ⟨id, bound, own⟩
    rw [EnumRowPredicate.matchesRow_unknown notEmpty armed unknown]
    constructor
    · rintro ⟨text, member, absent, -⟩
      have has := found text member
      rw [absent] at has
      cases has
    · rintro ⟨level, chosen, shows⟩
      obtain ⟨id, own, held⟩ := (built.getLevelForRow_iff row (known level chosen)).mp shows
      exact absurd (inside held) (Nat.not_lt_of_le (unknown id own))

/-- Compiling a tree keeps its meaning: for every tree, columns and table, and whatever order the
children are put in, the compiled tree accepts the rows that the tree accepts; and a leaf for levels
of a built column, one of which has an entry, accepts the rows of these levels. -/
theorem compileExpression_correct (makeStringMatcher : Bytes → LeafRuleMatch → Bytes → Bool)
    (vformat : Bytes → LogValue → Bytes) (cheapFirst : CheapFirstSort) (shown : LogTable) :
    (∀ (columns : List Column) (table : Option LogTable) (expression : FilterExpression)
      (row : Nat),
      evaluateExpression vformat
          (compileExpression makeStringMatcher cheapFirst columns table expression).predicates shown
            row
          (compileExpression makeStringMatcher cheapFirst columns table expression).node =
        accepts makeStringMatcher vformat columns table shown expression row) ∧
    ∀ (rule : LeafRule) (columnIndex : Nat) (column : Column) (ranks : List LogLevel)
      (dictionary : EnumDictionary),
      rule.type = .enumeration →
        resolveLeafColumnByKeys rule.columnKeys shown.columns = some columnIndex →
      BuiltLevelColumn shown columnIndex column ranks dictionary →
      (∃ level ∈ ranks, level ∈ selectedLevels rule.filterValues column.levelMapping) →
      ∀ row,
        evaluateExpression vformat
            (compileExpression makeStringMatcher cheapFirst shown.columns (some shown)
              (.leaf rule)).predicates
            shown row (compileExpression makeStringMatcher cheapFirst shown.columns (some shown)
              (.leaf rule)).node =
            true ↔
          ∃ level ∈ selectedLevels rule.filterValues column.levelMapping,
            shown.getLevelForRow row columnIndex = some level := by
  refine ⟨fun columns table expression row => evaluate_compileExpression expression row, ?_⟩
  intro rule columnIndex column ranks dictionary enumeration resolved built some_ row
  -- The leaf compiles to the predicate of the selected levels' strings.
  have expanded : expandLevels (selectedLevels rule.filterValues column.levelMapping) ranks
      dictionary ≠ [] := by
    obtain ⟨level, ranked, chosen⟩ := some_
    obtain ⟨id, held⟩ := List.mem_iff_getElem?.mp ranked
    exact List.ne_nil_of_mem (mem_expandLevels.mpr ⟨id, level, held, chosen, rfl⟩)
  have values : rule.filterValues.isEmpty = false := by
    obtain ⟨level, -, chosen⟩ := some_
    obtain ⟨name, listed, -⟩ := List.mem_filterMap.mp chosen
    exact List.isEmpty_eq_false_iff.mpr (List.ne_nil_of_mem listed)
  have compiled : compileLeaf makeStringMatcher rule (some columnIndex) shown.columns (some shown) =
      some (.enum (.ofSelection columnIndex
        (expandLevels (selectedLevels rule.filterValues column.levelMapping) ranks dictionary)
        (some dictionary))) := by
    have own : shown.columns[columnIndex]?.filter (·.type = .level) = some column := by
      rw [built.located]
      simp [built.level]
    have levels : compileLevelLeaf rule.filterValues columnIndex column shown =
        some (.enum (.ofSelection columnIndex
          (expandLevels (selectedLevels rule.filterValues column.levelMapping) ranks dictionary)
          (some dictionary))) := by
      simp [compileLevelLeaf, built.ranked, built.resolved, expanded]
    simp [compileLeaf, enumeration, compileEnumLeaf, values, own, levels]
  rw [evaluate_compileExpression, accepts, truthOf, resolved, compiled]
  exact built.accepts_iff (fun level selected => selectedLevels_known selected) some_ row

/-- A level column. -/
def levelColumn : Column :=
  { LogTable.pinnedColumn (bytes "level") [bytes "level"] with type := .level }

/-- A table with that column and one row `info`. -/
def levelTable : LogTable :=
  (LogTable.run (fun _ _ => none) (.initial ⟨[levelColumn], ⟨-1, false⟩⟩)
    [.beginStreaming (some (.file (.ofData (bytes "info\n")))),
      .appendBatch ⟨[.ofField 0 0 0 (.mmapSlice 0 4)], [5], [], []⟩]).getD
        (.initial ⟨[], ⟨-1, false⟩⟩)

/-- A rule for the level `Info`. -/
def infoRule : LeafRule :=
  ⟨.enumeration, [bytes "level"], none, none, none, none, none, none, [bytes "Info"]⟩

/-- The rule accepts the row. -/
theorem infoRule_accepts :
    (∃ dictionary, BuiltLevelColumn levelTable 0 levelColumn [.info] dictionary) ∧
      evaluateExpression (fun _ _ => [])
        (compileExpression (fun _ _ _ => false) .stable levelTable.columns (some levelTable)
          (.leaf infoRule)).predicates levelTable 0
        (compileExpression (fun _ _ _ => false) .stable levelTable.columns (some levelTable)
          (.leaf infoRule)).node = true := by
  obtain ⟨dictionary, resolved⟩ := Option.isSome_iff_exists.mp
    (show (levelTable.resolveEnumColumn 0).2.isSome = true by decide)
  -- The dictionary holds the one text of the column.
  have size : dictionary.size = 1 := by
    have measured : (levelTable.resolveEnumColumn 0).2.map (·.size) = some 1 := by decide
    rw [resolved] at measured
    simpa using measured
  have built : BuiltLevelColumn levelTable 0 levelColumn [.info] dictionary :=
    ⟨by decide, rfl, by decide, resolved, by simp [size]⟩
  refine ⟨⟨dictionary, built⟩, ?_⟩
  exact ((compileExpression_correct (fun _ _ _ => false) (fun _ _ => []) .stable levelTable).2
    infoRule 0
    levelColumn [.info] dictionary rfl (by decide) built ⟨.info, by decide, by decide⟩ 0).mpr
    ⟨.info, by decide, by decide⟩

end Levels

end Loglib
