import Loglib.Filter.RowBitset
import Loglib.Filter.RowPredicate

/-! Filter trees: the walk over one row, the bitset evaluation of all rows, and their agreement. -/

namespace Loglib

/-- Where a leaf's predicate lives. The bitset path tells predicates apart by their address. -/
abbrev PredicateAddress := Nat

/-- A compiled filter tree. `not none` is a negation whose child is missing. -/
inductive CompiledFilterExpression where
  | leaf (predicate : PredicateAddress)
  | and (children : List CompiledFilterExpression)
  | or (children : List CompiledFilterExpression)
  | not (child : Option CompiledFilterExpression)

namespace CompiledFilterExpression

/-- Induction over a filter tree, with a hypothesis for every child. -/
@[elab_as_elim, induction_eliminator]
theorem childInduction {holds : CompiledFilterExpression → Prop}
    (leaf : ∀ predicate, holds (.leaf predicate))
    (and : ∀ children, (∀ child ∈ children, holds child) → holds (.and children))
    (or : ∀ children, (∀ child ∈ children, holds child) → holds (.or children))
    (notNone : holds (.not none))
    (notSome : ∀ child, holds child → holds (.not (some child)))
    (expression : CompiledFilterExpression) : holds expression := by
  refine @CompiledFilterExpression.rec holds (fun children => ∀ child ∈ children, holds child)
    (fun child? => holds (.not child?)) leaf and or (fun _ whole => whole)
    (fun _ absurdity => absurd absurdity List.not_mem_nil) ?_ notNone notSome expression
  -- The hypothesis for a longer list of children covers its head and its tail.
  intro first rest headHolds tailHolds child listed
  rcases List.mem_cons.mp listed with rfl | later
  · exact headHolds
  · exact tailHolds child later

/-- An empty conjunction matches everything. -/
def isMatchAllCompiled : CompiledFilterExpression → Bool
  | .and [] => true
  | _ => false

end CompiledFilterExpression

section Evaluation

variable (vformat : Bytes → LogValue → Bytes) (predicates : PredicateAddress → RowPredicate)
  (table : LogTable)

section Walk

variable (row : Nat)

mutual

/-- Whether a tree accepts a row, walking only as far as needed. -/
def evaluateExpression : CompiledFilterExpression → Bool
  | .leaf predicate => matchesRow vformat table row (predicates predicate)
  | .and children => evaluateAll children
  | .or children => evaluateAny children
  -- A missing child accepts every row, so that the view stays visible.
  | .not none => true
  | .not (some child) => !evaluateExpression child

/-- `std::ranges::all_of` over the children. -/
def evaluateAll : List CompiledFilterExpression → Bool
  | [] => true
  | child :: rest => evaluateExpression child && evaluateAll rest

/-- `std::ranges::any_of` over the children. -/
def evaluateAny : List CompiledFilterExpression → Bool
  | [] => false
  | child :: rest => evaluateExpression child || evaluateAny rest

end

end Walk

section Shape

/-- What decides between the two ways to evaluate a tree. -/
structure TreeShape where
  leafCount : Nat
  uniqueLeafCount : Nat
  hasOr : Bool
  hasNot : Bool
deriving DecidableEq, Repr

mutual

/-- Add a tree to a shape and to the predicates seen so far. -/
def collectShape (shape : TreeShape) (seenPredicates : List PredicateAddress) :
    CompiledFilterExpression → TreeShape × List PredicateAddress
  | .leaf predicate =>
    let counted := { shape with leafCount := shape.leafCount + 1 }
    -- A predicate that occurs again is evaluated once.
    if seenPredicates.contains predicate then (counted, seenPredicates)
    else
      ({ counted with uniqueLeafCount := shape.uniqueLeafCount + 1 },
        seenPredicates ++ [predicate])
  | .and children => collectShapes shape seenPredicates children
  | .or children => collectShapes { shape with hasOr := true } seenPredicates children
  | .not none => ({ shape with hasNot := true }, seenPredicates)
  | .not (some child) => collectShape { shape with hasNot := true } seenPredicates child

/-- Add the children one after the other. -/
def collectShapes (shape : TreeShape) (seenPredicates : List PredicateAddress) :
    List CompiledFilterExpression → TreeShape × List PredicateAddress
  | [] => (shape, seenPredicates)
  | child :: rest =>
    let (shape, seenPredicates) := collectShape shape seenPredicates child
    collectShapes shape seenPredicates rest

end

/-- Hard cap on bitset memory. -/
def bitsetMemoryCapBytes : Nat := 512 * 1024 * 1024

/-- Pick the bitset path for trees with `Or` or `Not`, several leaves, and bounded memory. -/
def shouldUseBitsetPath (shape : TreeShape) (rowCount parallelism : Nat) : Bool :=
  if rowCount = 0 ∨ shape.leafCount < 2 then false
  else if !shape.hasOr && !shape.hasNot then false
  else
    let bytesPerBitset := rowCount / 8 + 1
    let workers := max 1 parallelism
    (shape.uniqueLeafCount + workers) * bytesPerBitset ≤ bitsetMemoryCapBytes

end Shape

section Bitsets

/-- The rows as parallel workers share them: each row goes to one worker, in any order. -/
structure RowPartition (rowCount : Nat) where
  workers : List (List (Fin rowCount))
  covers : workers.flatten.Perm (List.finRange rowCount)

/-- A worker's private bitset after its rows. -/
def workerBitset {rowCount : Nat} (predicate : RowPredicate) (rows : List (Fin rowCount)) :
    RowBitset rowCount :=
  rows.foldl
    (fun (bits : RowBitset rowCount) (row : Fin rowCount) =>
      if matchesRow vformat table row.val predicate then bits.set row else bits)
    (.empty rowCount)

/-- The rows a predicate accepts: the workers' bitsets joined. -/
def materialiseLeafBitset {rowCount : Nat} (predicate : RowPredicate)
    (partition : RowPartition rowCount) : RowBitset rowCount :=
  match partition.workers.map (workerBitset vformat table predicate) with
  | [] => .empty rowCount
  | seed :: rest => rest.foldl RowBitset.orInPlace seed

mutual

/-- Predicates of the leaves, in the order in which the bitset evaluation visits them. -/
def collectLeafsInVisitOrder : CompiledFilterExpression → List PredicateAddress
  | .leaf predicate => [predicate]
  | .and children => collectLeafsOfChildren children
  | .or children => collectLeafsOfChildren children
  | .not none => []
  | .not (some child) => collectLeafsInVisitOrder child

/-- Leaves of the children, one child after the other. -/
def collectLeafsOfChildren : List CompiledFilterExpression → List PredicateAddress
  | [] => []
  | child :: rest => collectLeafsInVisitOrder child ++ collectLeafsOfChildren rest

end

/-- Slot of each leaf, and the predicate of each slot: every address gets one slot. -/
def assignSlots (orderedLeaves : List PredicateAddress) : List Nat × List PredicateAddress :=
  orderedLeaves.foldl
    (fun (leafSlots, uniquePredicates) predicate =>
      if uniquePredicates.contains predicate then
        (leafSlots ++ [uniquePredicates.idxOf predicate], uniquePredicates)
      else (leafSlots ++ [uniquePredicates.length], uniquePredicates ++ [predicate]))
    ([], [])

variable {rowCount : Nat} (leafBitsets : List (RowBitset rowCount)) (leafSlots : List Nat)

mutual

/-- Evaluate a tree on all rows. The cursor counts the leaves; `none` is an index out of range. -/
def evaluateExpressionBitset (leafCursor : Nat) :
    CompiledFilterExpression → Option (RowBitset rowCount × Nat)
  | .leaf _ =>
    match leafSlots[leafCursor]? with
    | none => none
    | some slot => (leafBitsets[slot]?).map fun bits => (bits, leafCursor + 1)
  -- An empty conjunction accepts every row, an empty disjunction none.
  | .and [] => some ((RowBitset.empty rowCount).fillTrue, leafCursor)
  | .and (first :: rest) =>
    match evaluateExpressionBitset leafCursor first with
    | none => none
    | some (acc, leafCursor) => andChildren acc leafCursor rest
  | .or [] => some (.empty rowCount, leafCursor)
  | .or (first :: rest) =>
    match evaluateExpressionBitset leafCursor first with
    | none => none
    | some (acc, leafCursor) => orChildren acc leafCursor rest
  -- A negation without a child accepts every row.
  | .not none => some ((RowBitset.empty rowCount).fillTrue, leafCursor)
  | .not (some child) =>
    (evaluateExpressionBitset leafCursor child).map fun (inner, leafCursor) =>
      (inner.invertInPlace, leafCursor)

/-- Meet the accumulated rows with those of the remaining children. -/
def andChildren (acc : RowBitset rowCount) (leafCursor : Nat) :
    List CompiledFilterExpression → Option (RowBitset rowCount × Nat)
  | [] => some (acc, leafCursor)
  | child :: rest =>
    match evaluateExpressionBitset leafCursor child with
    | none => none
    | some (next, leafCursor) => andChildren (acc.andInPlace next) leafCursor rest

/-- Join the accumulated rows with those of the remaining children. -/
def orChildren (acc : RowBitset rowCount) (leafCursor : Nat) :
    List CompiledFilterExpression → Option (RowBitset rowCount × Nat)
  | [] => some (acc, leafCursor)
  | child :: rest =>
    match evaluateExpressionBitset leafCursor child with
    | none => none
    | some (next, leafCursor) => orChildren (acc.orInPlace next) leafCursor rest

end

end Bitsets

/-- How the parallel loops of one filter run share the rows: one partition for each loop. -/
structure FilterSchedule (rowCount : Nat) where
  parallelism : Nat
  ofSlot : Nat → RowPartition rowCount
  ofVisit : RowPartition rowCount

/-- The accepted rows by bitsets. -/
def acceptedByBitsets (schedule : FilterSchedule table.rowCount)
    (expression : CompiledFilterExpression) : Option (List Nat) :=
  let (leafSlots, uniquePredicates) := assignSlots (collectLeafsInVisitOrder expression)
  let leafBitsets := uniquePredicates.mapIdx fun slot predicate =>
    materialiseLeafBitset vformat table (predicates predicate) (schedule.ofSlot slot)
  (evaluateExpressionBitset leafBitsets leafSlots 0 expression).map fun result =>
    result.1.collectInto []

/-- The accepted rows by a walk over each row: the workers' buckets, sorted. -/
def acceptedByVisit (schedule : FilterSchedule table.rowCount)
    (expression : CompiledFilterExpression) : List Nat :=
  let buckets := schedule.ofVisit.workers.map fun rows =>
    (rows.map (·.val)).filter fun row => evaluateExpression vformat predicates table row expression
  buckets.flatten.insertionSort (· ≤ ·)

/-- The accepted rows. `none` is an index out of range on the bitset path. -/
def filterAcceptedRows (schedule : FilterSchedule table.rowCount)
    (expression : CompiledFilterExpression) : Option (List Nat) :=
  if expression.isMatchAllCompiled then some (List.range table.rowCount)
  else if table.rowCount = 0 then some []
  else
    let (shape, _) := collectShape ⟨0, 0, false, false⟩ [] expression
    if shouldUseBitsetPath shape table.rowCount schedule.parallelism then
      acceptedByBitsets vformat predicates table schedule expression
    else some (acceptedByVisit vformat predicates table schedule expression)

section Agreement

variable {vformat : Bytes → LogValue → Bytes} {predicates : PredicateAddress → RowPredicate}
  {table : LogTable}

/-- A bitset holds exactly the rows a test accepts. -/
def RowBitset.Holds {rowCount : Nat} (bits : RowBitset rowCount) (accepts : Nat → Bool) : Prop :=
  ∀ row, row < rowCount → bits.test row = accepts row

/-- All children accept exactly when each one does. -/
theorem evaluateAll_eq (row : Nat) (children : List CompiledFilterExpression) :
    evaluateAll vformat predicates table row children =
      children.all (evaluateExpression vformat predicates table row) := by
  induction children with
  | nil => rfl
  | cons child rest ih => simp [evaluateAll, ih]

/-- Some child accepts exactly when one does. -/
theorem evaluateAny_eq (row : Nat) (children : List CompiledFilterExpression) :
    evaluateAny vformat predicates table row children =
      children.any (evaluateExpression vformat predicates table row) := by
  induction children with
  | nil => rfl
  | cons child rest ih => simp [evaluateAny, ih]

section Leaves

variable {rowCount : Nat}

/-- A worker's bitset holds the accepted rows among its own. -/
theorem test_workerBitset (predicate : RowPredicate) (rows : List (Fin rowCount)) (tested : Nat) :
    (workerBitset vformat table predicate rows).test tested =
      rows.any fun row => decide
        (tested = row.val) && matchesRow vformat table tested predicate := by
  -- The rows are added to whatever the bitset held before.
  suffices general : ∀ bits : RowBitset rowCount,
      (rows.foldl (fun (bits : RowBitset rowCount) (row : Fin rowCount) =>
        if matchesRow vformat table row.val predicate then bits.set row
          else bits) bits).test tested =
      (bits.test tested ||
        rows.any fun row => decide (tested = row.val) && matchesRow vformat table tested predicate)
          by
    have added := general (.empty rowCount)
    rwa [RowBitset.test_empty, Bool.false_or] at added
  induction rows with
  | nil => simp
  | cons row rest ih =>
    intro bits
    rw [List.foldl_cons, ih, List.any_cons, ← Bool.or_assoc]
    congr 1
    by_cases same : tested = row.val
    · subst same
      cases accepted : matchesRow vformat table row.val predicate <;> simp
    · cases accepted : matchesRow vformat table row.val predicate <;> simp [same]

/-- Joined bitsets hold the rows of any of them. -/
theorem test_foldl_orInPlace (rest : List (RowBitset rowCount)) (seed : RowBitset rowCount)
    (row : Nat) :
    (rest.foldl RowBitset.orInPlace seed).test row =
      (seed.test row || rest.any fun bits => bits.test row) := by
  induction rest generalizing seed with
  | nil => simp
  | cons next rest ih =>
    rw [List.foldl_cons, ih, RowBitset.test_orInPlace, List.any_cons, Bool.or_assoc]

/-- However the rows are partitioned, the bitset of a leaf holds the rows its predicate accepts. -/
theorem materialiseLeafBitset_holds (predicate : RowPredicate) (partition : RowPartition rowCount) :
    (materialiseLeafBitset vformat table predicate partition).Holds
      fun row => matchesRow vformat table row predicate := by
  intro row inside
  -- A row is in the join exactly when the bitset of some worker has it.
  have joined : (materialiseLeafBitset vformat table predicate partition).test row =
      partition.workers.any fun rows => (workerBitset vformat table predicate rows).test row := by
    unfold materialiseLeafBitset
    cases partition.workers with
    | nil => simp
    | cons first rest =>
      simp only [List.map_cons, test_foldl_orInPlace, List.any_cons, List.any_map]
      rfl
  rw [joined]
  show _ = matchesRow vformat table row predicate
  cases accepted : matchesRow vformat table row predicate with
  | false => simp [test_workerBitset, accepted]
  | true =>
    -- Some worker was given the row.
    have shared : (⟨row, inside⟩ : Fin rowCount) ∈ partition.workers.flatten :=
      partition.covers.mem_iff.mpr (List.mem_finRange _)
    obtain ⟨rows, worker, given⟩ := List.mem_flatten.mp shared
    refine List.any_eq_true.mpr ⟨rows, worker, ?_⟩
    rw [test_workerBitset]
    exact List.any_eq_true.mpr ⟨_, given, by simp [accepted]⟩

end Leaves

section Slots

/-- One more leaf gets the slot of its address, or a new one. -/
theorem assignSlots_append (leaves : List PredicateAddress) (last : PredicateAddress) :
    assignSlots (leaves ++ [last]) =
      if (assignSlots leaves).2.contains last then
        ((assignSlots leaves).1 ++ [(assignSlots leaves).2.idxOf last], (assignSlots leaves).2)
      else
        ((assignSlots leaves).1 ++ [(assignSlots leaves).2.length],
          (assignSlots leaves).2 ++ [last]) := by
  unfold assignSlots
  rw [List.foldl_append]
  rfl

/-- There is one slot entry for each leaf. -/
theorem length_assignSlots (leaves : List PredicateAddress) :
    (assignSlots leaves).1.length = leaves.length := by
  induction leaves using List.reverseRecOn with
  | nil => rfl
  | append_singleton leaves last ih =>
    rw [assignSlots_append]
    split <;> simp [ih]

/-- Every leaf keeps a slot, and the slot holds the leaf's predicate. -/
theorem assignSlots_get {orderedLeaves : List PredicateAddress} {position : Nat}
    {predicate : PredicateAddress} (leaf : orderedLeaves[position]? = some predicate) :
    ∃ slot, (assignSlots orderedLeaves).1[position]? = some slot ∧
      (assignSlots orderedLeaves).2[slot]? = some predicate := by
  -- Going over the leaves from the back, only the last step assigns the last slot.
  induction orderedLeaves using List.reverseRecOn generalizing predicate with
  | nil => simp at leaf
  | append_singleton leaves last ih =>
    rw [assignSlots_append]
    by_cases earlier : position < leaves.length
    · -- An earlier leaf keeps its slot, and slots keep their predicates.
      rw [List.getElem?_append_left earlier] at leaf
      obtain ⟨slot, placed, stored⟩ := ih leaf
      have inside := (List.getElem?_eq_some_iff.mp placed).1
      have known := (List.getElem?_eq_some_iff.mp stored).1
      refine ⟨slot, ?_, ?_⟩
      · split <;> rw [List.getElem?_append_left inside, placed]
      · split
        · exact stored
        · rw [List.getElem?_append_left known, stored]
    · -- The last leaf reuses the slot of its address, or opens one.
      have inLeaves := (List.getElem?_eq_some_iff.mp leaf).1
      have atEnd : position = leaves.length := by
        rw [List.length_append, List.length_singleton] at inLeaves
        omega
      subst atEnd
      rw [List.getElem?_concat_length] at leaf
      obtain rfl := Option.some.inj leaf
      rw [← length_assignSlots leaves]
      split
      · rename_i seen
        have listed := List.contains_iff_mem.mp seen
        refine ⟨_, List.getElem?_concat_length, ?_⟩
        exact List.getElem?_idxOf listed
      · exact ⟨_, List.getElem?_concat_length, List.getElem?_concat_length⟩

end Slots

section Trees

variable {rowCount : Nat} {leafBitsets : List (RowBitset rowCount)} {leafSlots : List Nat}

/-- The slots from a cursor on lead to the bitsets of the leaves. -/
def SlotsServe (vformat : Bytes → LogValue → Bytes) (predicates : PredicateAddress → RowPredicate)
    (table : LogTable) (leafBitsets : List (RowBitset rowCount)) (leafSlots : List Nat)
    (leafCursor : Nat) (leaves : List PredicateAddress) : Prop :=
  ∀ position predicate, leaves[position]? = some predicate →
    ∃ slot bits, leafSlots[leafCursor + position]? = some slot ∧
      leafBitsets[slot]? = some bits ∧
      bits.Holds fun row => matchesRow vformat table row (predicates predicate)

/-- Slots that serve two runs of leaves serve the first, and the second from where the
first ends. -/
theorem SlotsServe.split {leafCursor : Nat} {first second : List PredicateAddress}
    (serve : SlotsServe vformat predicates table leafBitsets leafSlots leafCursor
    (first ++ second)) :
    SlotsServe vformat predicates table leafBitsets leafSlots leafCursor first ∧
      SlotsServe vformat predicates table leafBitsets leafSlots
        (leafCursor + first.length) second := by
  constructor
  · intro position predicate leaf
    -- A slot of the first part has its place in the whole, one of the second part lies behind them.
    refine serve position predicate ?_
    rw [List.getElem?_append_left (List.getElem?_eq_some_iff.mp leaf).1, leaf]
  · intro position predicate leaf
    have moved : (first ++ second)[first.length + position]? = some predicate := by
      rw [List.getElem?_append_right (Nat.le_add_right _ _), Nat.add_sub_cancel_left, leaf]
    have found := serve _ predicate moved
    rwa [← Nat.add_assoc] at found

/-- What evaluating a tree from a cursor is to do: hold the tree's rows, and pass all its leaves. -/
def EvaluatesFrom (vformat : Bytes → LogValue → Bytes)
    (predicates : PredicateAddress → RowPredicate)
    (table : LogTable) (leafBitsets : List (RowBitset rowCount)) (leafSlots : List Nat)
    (expression : CompiledFilterExpression) : Prop :=
  ∀ leafCursor, SlotsServe vformat predicates table leafBitsets leafSlots leafCursor
      (collectLeafsInVisitOrder expression) →
    ∃ bits, evaluateExpressionBitset leafBitsets leafSlots leafCursor expression =
        some (bits, leafCursor + (collectLeafsInVisitOrder expression).length) ∧
      bits.Holds fun row => evaluateExpression vformat predicates table row expression

/-- The children after the first are met into the accumulated rows, leaf after leaf. -/
theorem andChildren_holds {children : List CompiledFilterExpression}
    (evaluates : ∀ child ∈ children,
      EvaluatesFrom vformat predicates table leafBitsets leafSlots child)
    {acc : RowBitset rowCount} {accepts : Nat → Bool} (held : acc.Holds accepts) {leafCursor : Nat}
    (serve : SlotsServe vformat predicates table leafBitsets leafSlots leafCursor
      (collectLeafsOfChildren children)) :
    ∃ bits, andChildren leafBitsets leafSlots acc leafCursor children =
        some (bits, leafCursor + (collectLeafsOfChildren children).length) ∧
      bits.Holds fun row =>
        accepts row && evaluateAll vformat predicates table row children := by
  induction children generalizing acc accepts leafCursor with
  | nil => exact ⟨acc, rfl, by simpa [evaluateAll] using held⟩
  | cons child rest ih =>
    -- The child reads its own slots, and the others read on behind it.
    obtain ⟨serveChild, serveRest⟩ := serve.split
    obtain ⟨next, evaluated, nextHolds⟩ := evaluates child List.mem_cons_self leafCursor serveChild
    -- A row that is still in is in if the child accepts it.
    have met : (acc.andInPlace next).Holds fun row =>
        accepts row && evaluateExpression vformat predicates table row child := by
      intro row inside
      rw [RowBitset.test_andInPlace, held row inside, nextHolds row inside]
    obtain ⟨bits, folded, holds⟩ :=
      ih (fun other listed => evaluates other (List.mem_cons_of_mem _ listed)) met serveRest
    refine ⟨bits, ?_, ?_⟩
    · rw [andChildren, evaluated]
      simp only [folded, collectLeafsOfChildren, List.length_append, Nat.add_assoc]
    · intro row inside
      simp only [holds row inside, evaluateAll, Bool.and_assoc]

/-- The children after the first are joined into the accumulated rows, leaf after leaf. -/
theorem orChildren_holds {children : List CompiledFilterExpression}
    (evaluates : ∀ child ∈ children,
      EvaluatesFrom vformat predicates table leafBitsets leafSlots child)
    {acc : RowBitset rowCount} {accepts : Nat → Bool} (held : acc.Holds accepts) {leafCursor : Nat}
    (serve : SlotsServe vformat predicates table leafBitsets leafSlots leafCursor
      (collectLeafsOfChildren children)) :
    ∃ bits, orChildren leafBitsets leafSlots acc leafCursor children =
        some (bits, leafCursor + (collectLeafsOfChildren children).length) ∧
      bits.Holds fun row =>
        accepts row || evaluateAny vformat predicates table row children := by
  induction children generalizing acc accepts leafCursor with
  | nil => exact ⟨acc, rfl, by simpa [evaluateAny] using held⟩
  | cons child rest ih =>
    obtain ⟨serveChild, serveRest⟩ := serve.split
    obtain ⟨next, evaluated, nextHolds⟩ := evaluates child List.mem_cons_self leafCursor serveChild
    -- A row is in if it was, or if the child accepts it.
    have joined : (acc.orInPlace next).Holds fun row =>
        accepts row || evaluateExpression vformat predicates table row child := by
      intro row inside
      rw [RowBitset.test_orInPlace, held row inside, nextHolds row inside]
    obtain ⟨bits, folded, holds⟩ :=
      ih (fun other listed => evaluates other (List.mem_cons_of_mem _ listed)) joined serveRest
    refine ⟨bits, ?_, ?_⟩
    · rw [orChildren, evaluated]
      simp only [folded, collectLeafsOfChildren, List.length_append, Nat.add_assoc]
    · intro row inside
      simp only [holds row inside, evaluateAny, Bool.or_assoc]

/-- With every leaf served, the bitset evaluation holds exactly the rows the walk accepts. -/
theorem evaluateExpressionBitset_holds (expression : CompiledFilterExpression) :
    EvaluatesFrom vformat predicates table leafBitsets leafSlots expression := by
  have full : ((RowBitset.empty rowCount).fillTrue).Holds fun _ => true :=
    fun row inside => RowBitset.test_fillTrue _ inside
  -- The induction follows the tree, and the cursor passes the leaves of each child in turn.
  induction expression with
  | leaf predicate =>
    intro leafCursor serve
    obtain ⟨slot, bits, placed, stored, holds⟩ := serve 0 predicate rfl
    refine ⟨bits, ?_, holds⟩
    rw [Nat.add_zero] at placed
    simp [evaluateExpressionBitset, placed, stored, collectLeafsInVisitOrder]
  | and children ih =>
    intro leafCursor serve
    cases children with
    | nil => exact ⟨_, rfl, by simpa [evaluateExpression, evaluateAll] using full⟩
    | cons first rest =>
      obtain ⟨serveFirst, serveRest⟩ := SlotsServe.split serve
      obtain ⟨acc, evaluated, held⟩ := ih first List.mem_cons_self leafCursor serveFirst
      obtain ⟨bits, folded, holds⟩ := andChildren_holds
        (fun child listed => ih child (List.mem_cons_of_mem _ listed)) held serveRest
      refine ⟨bits, ?_, ?_⟩
      · simp only [evaluateExpressionBitset, evaluated, folded, collectLeafsInVisitOrder,
          collectLeafsOfChildren, List.length_append, Nat.add_assoc]
      · intro row inside
        simp only [holds row inside, evaluateExpression, evaluateAll]
  | or children ih =>
    intro leafCursor serve
    cases children with
    | nil =>
      refine ⟨_, rfl, ?_⟩
      intro row _
      simp [evaluateExpression, evaluateAny]
    | cons first rest =>
      obtain ⟨serveFirst, serveRest⟩ := SlotsServe.split serve
      obtain ⟨acc, evaluated, held⟩ := ih first List.mem_cons_self leafCursor serveFirst
      obtain ⟨bits, folded, holds⟩ := orChildren_holds
        (fun child listed => ih child (List.mem_cons_of_mem _ listed)) held serveRest
      refine ⟨bits, ?_, ?_⟩
      · simp only [evaluateExpressionBitset, evaluated, folded, collectLeafsInVisitOrder,
          collectLeafsOfChildren, List.length_append, Nat.add_assoc]
      · intro row inside
        simp only [holds row inside, evaluateExpression, evaluateAny]
  | notNone =>
    intro leafCursor _
    exact ⟨_, rfl, by simpa [evaluateExpression] using full⟩
  | notSome child ih =>
    intro leafCursor serve
    obtain ⟨inner, evaluated, held⟩ := ih leafCursor serve
    refine ⟨inner.invertInPlace, ?_, ?_⟩
    · rw [evaluateExpressionBitset, evaluated]
      rfl
    · intro row inside
      simp only [RowBitset.test_invertInPlace _ inside, held row inside, evaluateExpression]

end Trees

section Paths

/-- The bitset path returns the accepted rows in ascending order. -/
theorem acceptedByBitsets_eq (schedule : FilterSchedule table.rowCount)
    (expression : CompiledFilterExpression) :
    acceptedByBitsets vformat predicates table schedule expression =
      some ((List.range table.rowCount).filter fun row =>
        evaluateExpression vformat predicates table row expression) := by
  unfold acceptedByBitsets
  dsimp only
  -- Every leaf is served: its slot holds the bitset of its predicate.
  have serve : SlotsServe vformat predicates table
      ((assignSlots (collectLeafsInVisitOrder expression)).2.mapIdx fun slot predicate =>
        materialiseLeafBitset vformat table (predicates predicate) (schedule.ofSlot slot))
      (assignSlots (collectLeafsInVisitOrder expression)).1 0
      (collectLeafsInVisitOrder expression) := by
    intro position predicate leaf
    obtain ⟨slot, placed, stored⟩ := assignSlots_get leaf
    refine ⟨slot, _, by rwa [Nat.zero_add], ?_, materialiseLeafBitset_holds _ (schedule.ofSlot slot)⟩
    rw [List.getElem?_mapIdx, stored, Option.map_some]
  obtain ⟨bits, evaluated, holds⟩ := evaluateExpressionBitset_holds expression 0 serve
  rw [evaluated, Option.map_some, RowBitset.collectInto_eq]
  congr 1
  exact List.filter_congr fun row listed => holds row (List.mem_range.mp listed)

/-- The visit path returns the accepted rows in ascending order. -/
theorem acceptedByVisit_eq (schedule : FilterSchedule table.rowCount)
    (expression : CompiledFilterExpression) :
    acceptedByVisit vformat predicates table schedule expression =
      (List.range table.rowCount).filter fun row =>
        evaluateExpression vformat predicates table row expression := by
  unfold acceptedByVisit
  dsimp only
  -- The buckets together are the accepted rows in some order.
  have buckets : (schedule.ofVisit.workers.map fun rows => (rows.map (·.val)).filter fun row =>
      evaluateExpression vformat predicates table row expression).flatten =
        (schedule.ofVisit.workers.flatten.map (·.val)).filter fun row =>
          evaluateExpression vformat predicates table row expression := by
    rw [List.map_flatten, List.filter_flatten, List.map_map]
    rfl
  have rows : (schedule.ofVisit.workers.flatten.map (·.val)).Perm (List.range table.rowCount) := by
    have shared := schedule.ofVisit.covers.map (·.val)
    rwa [List.map_coe_finRange_eq_range] at shared
  rw [buckets]
  have perm := (List.perm_insertionSort (· ≤ ·) _).trans (rows.filter fun row =>
    evaluateExpression vformat predicates table row expression)
  have sorted := List.pairwise_insertionSort (· ≤ ·)
    ((schedule.ofVisit.workers.flatten.map (·.val)).filter fun row =>
      evaluateExpression vformat predicates table row expression)
  have cut : ((List.range table.rowCount).filter fun row =>
      evaluateExpression vformat predicates table row expression).Pairwise (· ≤ ·) :=
    List.pairwise_le_range.sublist List.filter_sublist
  exact perm.eq_of_pairwise (fun a b _ _ first second => le_antisymm first second) sorted cut

/--
Filtering returns the ascending list of exactly the rows the walk accepts.

It does so on the match-all path, on the bitset path and on the visit path, for every tree, and
however the parallel loops share the rows. No index on the bitset path is ever out of range.
-/
theorem filterAcceptedRows_eq (vformat : Bytes → LogValue → Bytes)
    (predicates : PredicateAddress → RowPredicate) (table : LogTable)
    (schedule : FilterSchedule table.rowCount) (expression : CompiledFilterExpression) :
    filterAcceptedRows vformat predicates table schedule expression =
      some ((List.range table.rowCount).filter fun row =>
        evaluateExpression vformat predicates table row expression) := by
  unfold filterAcceptedRows
  by_cases matchAll : expression.isMatchAllCompiled = true
  · -- The empty conjunction accepts every row.
    rw [if_pos matchAll]
    cases expression with
    | and children =>
      cases children with
      | nil => simp [evaluateExpression, evaluateAll]
      | cons => contradiction
    | leaf => contradiction
    | or => contradiction
    | not => contradiction
  rw [if_neg matchAll]
  by_cases noRows : table.rowCount = 0
  · rw [if_pos noRows, noRows]
    rfl
  rw [if_neg noRows]
  dsimp only
  split
  · exact acceptedByBitsets_eq schedule expression
  · rw [acceptedByVisit_eq schedule expression]

end Paths

end Agreement

end Evaluation

end Loglib
