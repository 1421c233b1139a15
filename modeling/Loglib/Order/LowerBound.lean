import Mathlib

/-! Binary search for the place of new entries in a list, insertion at that place, and
stops around a place. -/

namespace Loglib

section Search

/-- `std::lower_bound` on the `len` positions from `first`: the positions that pass the
test come first. -/
def lowerBoundLoop (test : Nat → Bool) : (fuel first len : Nat) → Nat
  | 0, first, _ => first
  | fuel + 1, first, len =>
    if len = 0 then first
    else
      let half := len / 2
      if test (first + half) then lowerBoundLoop test fuel (first + half + 1) (len - half - 1)
      else lowerBoundLoop test fuel first half

/-- On positions that pass the test up to a cut and fail it from there, the search ends at
the cut. -/
theorem lowerBoundLoop_eq {test : Nat → Bool} {cut : Nat} {fuel first len : Nat}
    (enough : len ≤ fuel)
    (after : first ≤ cut) (before : cut ≤ first + len)
    (parted : ∀ position, first ≤ position → position < first + len →
    (test position = true ↔ position < cut)) :
    lowerBoundLoop test fuel first len = cut := by
  -- Each turn halves the positions that are left, and the cut stays among them.
  induction fuel generalizing first len with
  | zero =>
    show first = cut
    omega
  | succ fuel ih =>
    rw [lowerBoundLoop]
    split
    · omega
    · rename_i some_
      have middle := parted (first + len / 2) (by omega) (by omega)
      dsimp only
      split
      · rename_i passes
        have below := middle.mp passes
        apply ih (by omega) (by omega) (by omega)
        intro position lower upper
        exact parted position (by omega) (by omega)
      · rename_i fails
        have above : cut ≤ first + len / 2 := not_lt.mp fun below => fails (middle.mpr below)
        apply ih (by omega) after above
        intro position lower upper
        exact parted position lower (by omega)

variable {α : Type*}

/-- The first position whose entry fails the test. -/
def lowerBound (less : α → Bool) (entries : List α) : Nat :=
  lowerBoundLoop (fun position => (entries[position]?).any less) entries.length 0 entries.length

/-- The search finds the end of the entries that pass the test, if none of them stands behind. -/
theorem lowerBound_append {less : α → Bool} {front back : List α}
    (passes : ∀ entry ∈ front, less entry = true)
    (fails : ∀ entry ∈ back, less entry = false) :
    lowerBound less (front ++ back) = front.length := by
  apply lowerBoundLoop_eq le_rfl (Nat.zero_le _)
  · rw [List.length_append]
    omega
  · intro position _ inside
    rw [zero_add] at inside
    have held : (front ++ back)[position]? = some ((front ++ back).get ⟨position, inside⟩) :=
      List.getElem?_eq_getElem inside
    rw [held, Option.any_some]
    -- Positions in front pass, positions behind fail, so the loop stops between them.
    by_cases early : position < front.length
    · have listed : (front ++ back).get ⟨position, inside⟩ ∈ front := by
        rw [List.get_eq_getElem, List.getElem_append_left early]
        exact List.getElem_mem early
      exact iff_of_true (passes _ listed) early
    · have listed : (front ++ back).get ⟨position, inside⟩ ∈ back := by
        rw [List.get_eq_getElem, List.getElem_append_right (not_lt.mp early)]
        exact List.getElem_mem _
      refine iff_of_false ?_ early
      rw [fails _ listed]
      exact Bool.false_ne_true

/-- A list whose entries pass the test if a later one does is cut in two by the test. -/
theorem lowerBound_split {less : α → Bool} {entries : List α}
    (descends : entries.Pairwise fun a b => less b = true → less a = true) :
    ∃ front back, entries = front ++ back ∧ (∀ entry ∈ front, less entry = true) ∧
      (∀ entry ∈ back, less entry = false) ∧ lowerBound less entries = front.length := by
  have cut : ∃ front back, entries = front ++ back ∧ (∀ entry ∈ front, less entry = true) ∧
      ∀ entry ∈ back, less entry = false := by
    -- The first entry that fails the test is followed by entries that fail it.
    induction entries with
    | nil => exact ⟨[], [], rfl, by simp, by simp⟩
    | cons entry rest ih =>
      obtain ⟨first, later⟩ := List.pairwise_cons.mp descends
      cases passes : less entry with
      | true =>
        obtain ⟨front, back, rfl, inFront, inBack⟩ := ih later
        exact ⟨entry :: front, back, rfl, List.forall_mem_cons.mpr ⟨passes, inFront⟩, inBack⟩
      | false =>
        refine ⟨[], entry :: rest, rfl, by simp, List.forall_mem_cons.mpr ⟨passes, ?_⟩⟩
        intro other listed
        by_contra passesLater
        rw [first other listed (Bool.not_eq_false _ ▸ passesLater)] at passes
        contradiction
  obtain ⟨front, back, rfl, inFront, inBack⟩ := cut
  exact ⟨front, back, rfl, inFront, inBack, lowerBound_append inFront inBack⟩

end Search

section Insertion

variable {α : Type*}

/-- `vector::insert`: a block of entries before a position. -/
def insertBlock (entries : List α) (position : Nat) (block : List α) : List α :=
  entries.take position ++ block ++ entries.drop position

/-- The block joins the entries. -/
theorem insertBlock_perm (entries : List α) (position : Nat) (block : List α) :
    (insertBlock entries position block).Perm (entries ++ block) := by
  have moved : (insertBlock entries position block).Perm
      (entries.take position ++ (entries.drop position ++ block)) := by
    rw [insertBlock, List.append_assoc]
    exact List.perm_append_comm.append_left _
  rwa [← List.append_assoc, List.take_append_drop] at moved

/-- A block stands in order at the place that the search finds for it. -/
theorem insertBlock_pairwise {before : α → α → Prop} {less : α → Bool} {entries block : List α}
    (sorted : entries.Pairwise before) (ordered : block.Pairwise before)
    (descends : entries.Pairwise fun a b => less b = true → less a = true)
    (after : ∀ entry ∈ entries, less entry = true → ∀ inserted ∈ block, before entry inserted)
    (ahead : ∀ entry ∈ entries, less entry = false → ∀ inserted ∈ block, before inserted entry) :
    (insertBlock entries (lowerBound less entries) block).Pairwise before := by
  -- The block stands between the entries the bound passes and those it stops at.
  obtain ⟨front, back, rfl, inFront, inBack, found⟩ := lowerBound_split descends
  rw [found, insertBlock, List.take_left, List.drop_left, List.append_assoc]
  obtain ⟨sortedFront, sortedBack, across⟩ := List.pairwise_append.mp sorted
  rw [List.pairwise_append, List.pairwise_append]
  refine ⟨sortedFront, ⟨ordered, sortedBack, ?_⟩, ?_⟩
  · intro inserted inBlock entry listed
    exact ahead entry (List.mem_append_right _ listed) (inBack entry listed) inserted inBlock
  · -- An entry in front comes before the block and before the entries behind.
    intro entry listed other inRest
    rcases List.mem_append.mp inRest with inBlock | later
    · exact after entry (List.mem_append_left _ listed) (inFront entry listed) other inBlock
    · exact across entry listed other later

variable {κ : Type*} [LinearOrder κ] {key : α → κ}

/-- An entry of a new key stands in order at the place that the search finds for it. -/
theorem insertBlock_single_pairwise {entries : List α} {less : α → Bool} {inserted : α}
    (sorted : entries.Pairwise fun a b => key a < key b)
    (byKey : ∀ entry ∈ entries, less entry = true ↔ key entry < key inserted)
    (fresh : ∀ entry ∈ entries, key entry ≠ key inserted) :
    (insertBlock entries (lowerBound less entries) [inserted]).Pairwise fun a b =>
      key a < key b := by
  apply insertBlock_pairwise sorted (List.pairwise_singleton _ _)
  · refine sorted.imp_of_mem ?_
    intro a b inA inB ordered passes
    exact (byKey a inA).mpr (ordered.trans ((byKey b inB).mp passes))
  · intro entry listed passes other single
    rw [List.mem_singleton.mp single]
    exact (byKey entry listed).mp passes
  · intro entry listed fails other single
    rw [List.mem_singleton.mp single]
    -- A key that is not below is above, since the two differ.
    have notBelow : ¬key entry < key inserted := fun below => by
      rw [(byKey entry listed).mpr below] at fails
      contradiction
    exact lt_of_le_of_ne (not_lt.mp notBelow) (fresh entry listed).symm

end Insertion

section Stops

variable {α : Type*}

/-- A walk that goes around a list visits all of it, from where it comes in. -/
theorem map_iterate_ring {ring : List α} {step : Option α → Option α} {place : Option α}
    {start : Nat}
    (turns : ∀ index < ring.length, step ring[index]? = ring[(index + 1) % ring.length]?)
    (enters : step place = ring[start]?) (inside : start < ring.length) :
    (List.range ring.length).map
      (fun count => step^[count + 1] place) = (ring.rotate start).map some := by
  -- Each step moves one place on round the ring.
  have visits (count : Nat) : step^[count + 1] place = ring[(count + start) % ring.length]? := by
    induction count with
    | zero => rw [Function.iterate_one, enters, Nat.zero_add, Nat.mod_eq_of_lt inside]
    | succ count ih =>
      rw [Function.iterate_succ_apply', ih, turns _ (Nat.mod_lt _ (by omega)), Nat.mod_add_mod]
      congr 2
      omega
  apply List.ext_getElem
  · simp
  · intro count bound _
    have around : (count + start) % ring.length < ring.length := Nat.mod_lt _ (by omega)
    simp only [List.getElem_map, List.getElem_range, visits, List.getElem_rotate,
      List.getElem?_eq_getElem around]

/-- The search ends at the position that parts the entries. -/
theorem lowerBound_eq {entries : List α} {test : α → Bool} {position : Nat}
    (inside : position ≤ entries.length)
    (parts : ∀ (index : Nat) entry, entries[index]? = some entry →
    (test entry = true ↔ index < position)) :
    lowerBound test entries = position := by
  -- The position parts the entries that pass the test from the others.
  apply lowerBoundLoop_eq le_rfl (Nat.zero_le _)
  · omega
  · intro index _ bound
    rw [zero_add] at bound
    have held : entries[index]? = some entries[index] := List.getElem?_eq_getElem bound
    rw [held, Option.any_some]
    exact parts index _ held

variable [LinearOrder α]

/-- The first stop past a place, and the first stop of all where none is. No place is in front of
all stops. -/
def nextStop (stops : List α) (place : Option α) : Option α :=
  stops[lowerBound (fun stop => place.any (stop ≤ ·)) stops]?.or stops.head?

/-- The last stop before a place, and the last stop of all where none is. No place is
behind all stops. -/
def previousStop (stops : List α) (place : Option α) : Option α :=
  match lowerBound (fun stop => place.all (stop < ·)) stops with
  | 0 => stops.getLast?
  | before + 1 => stops[before]?

variable {stops : List α}

/-- Ascending stops compare as their positions do. -/
theorem stop_lt_iff (ascending : stops.Pairwise (· < ·)) {index position : Nat} {first second : α}
    (held : stops[index]? = some first) (other : stops[position]? = some second) :
    first < second ↔ index < position := by
  obtain ⟨inside, rfl⟩ := List.getElem?_eq_some_iff.mp held
  obtain ⟨bound, rfl⟩ := List.getElem?_eq_some_iff.mp other
  have before := List.pairwise_iff_getElem.mp ascending
  -- Positions ascend with the stops, so they compare alike.
  constructor
  · intro less
    by_contra behind
    rcases Nat.eq_or_lt_of_le (not_lt.mp behind) with same | later
    · subst same
      exact lt_irrefl _ less
    · exact lt_asymm less (before position index bound inside later)
  · exact before index position inside bound

/-- From a stop the next one is the one behind it, around the end. -/
theorem nextStop_getElem (ascending : stops.Pairwise (· < ·)) {index : Nat}
    (inside : index < stops.length) :
    nextStop stops stops[index]? = stops[(index + 1) % stops.length]? := by
  have held : stops[index]? = some stops[index] := List.getElem?_eq_getElem inside
  have past : lowerBound (fun stop => decide (stop ≤ stops[index])) stops = index + 1 := by
    apply lowerBound_eq inside
    intro other stop listed
    have behind := stop_lt_iff ascending held listed
    rw [decide_eq_true_iff, ← not_lt, behind]
    omega
  rw [nextStop, held]
  simp only [Option.any_some]
  rw [past]
  by_cases last : index + 1 < stops.length
  · rw [Nat.mod_eq_of_lt last, List.getElem?_eq_getElem last]
    rfl
  · -- Behind the last stop comes the first one.
    obtain same : index + 1 = stops.length := by omega
    rw [same, Nat.mod_self, List.getElem?_eq_none le_rfl, Option.none_or, List.head?_eq_getElem?]

/-- From a stop the previous one is the one before it, around the end. -/
theorem previousStop_getElem (ascending : stops.Pairwise (· < ·)) {index : Nat}
    (inside : index < stops.length) :
    previousStop stops stops[index]? = stops[(index + (stops.length - 1)) % stops.length]? := by
  have held : stops[index]? = some stops[index] := List.getElem?_eq_getElem inside
  have place : lowerBound (fun stop => decide (stop < stops[index])) stops = index := by
    apply lowerBound_eq inside.le
    intro other stop listed
    rw [decide_eq_true_iff, stop_lt_iff ascending listed held]
  rw [previousStop, held]
  simp only [Option.all_some]
  rw [place]
  cases index with
  | zero =>
    -- Before the first stop comes the last one.
    rw [Nat.zero_add, Nat.mod_eq_of_lt (by omega), List.getLast?_eq_getElem?]
  | succ before =>
    have around : before + 1 + (stops.length - 1) = before + stops.length := by omega
    rw [around, Nat.add_mod_right, Nat.mod_eq_of_lt (by omega)]

/-- The next stop from anywhere is a stop, if there are any. -/
theorem nextStop_mem (some_ : stops ≠ []) (place : Option α) :
    ∃ index < stops.length, nextStop stops place = stops[index]? := by
  have length := List.length_pos_iff.mpr some_
  unfold nextStop
  generalize lowerBound (fun stop => place.any (stop ≤ ·)) stops = position
  -- Past the last stop it goes on with the first.
  by_cases inside : position < stops.length
  · exact ⟨position, inside, by rw [List.getElem?_eq_getElem inside, Option.some_or]⟩
  · refine ⟨0, length, ?_⟩
    rw [List.getElem?_eq_none (not_lt.mp inside), Option.none_or, List.head?_eq_getElem?]

/-- The next stop is the first one past the place, or the first one of all. -/
theorem nextStop_eq (ascending : stops.Pairwise (· < ·)) (place : Option α) :
    nextStop stops place = (stops.find? fun stop => place.all (· < stop)).or stops.head? := by
  -- Stops at or before the place come first.
  have descends : stops.Pairwise fun first second => place.any (second ≤ ·) = true →
      place.any (first ≤ ·) = true := by
    refine ascending.imp fun {first second} less => ?_
    cases place with
    | none => simp
    | some held => simpa using less.le.trans
  obtain ⟨front, back, rfl, inFront, inBack, found⟩ := lowerBound_split descends
  -- None of these is the next stop.
  have none_ : front.find? (fun stop => place.all (· < stop)) = none := by
    apply List.find?_eq_none.mpr
    intro stop listed
    have passed := inFront stop listed
    cases place with
    | none => simp at passed
    | some held => simpa using passed
  -- The first stop behind them is it, or the tour starts over.
  rw [nextStop, found, List.getElem?_append_right le_rfl, Nat.sub_self, List.find?_append, none_,
    Option.none_or]
  cases back with
  | nil => rfl
  | cons first rest =>
    have past := inBack first List.mem_cons_self
    have behind : place.all (· < first) = true := by
      cases place with
      | none => rfl
      | some held => simpa using past
    simp [behind]

/-- The previous stop is the last one before the place, or the last one of all. -/
theorem previousStop_eq (ascending : stops.Pairwise (· < ·)) (place : Option α) :
    previousStop stops place = (stops.reverse.find? fun stop =>
      place.all (stop < ·)).or stops.getLast? := by
  have descends : stops.Pairwise fun first second => place.all (second < ·) = true →
      place.all (first < ·) = true := by
    refine ascending.imp fun {first second} less => ?_
    cases place with
    | none => simp
    | some held => simpa using less.trans
  obtain ⟨front, back, rfl, inFront, inBack, found⟩ := lowerBound_split descends
  have none_ : back.reverse.find? (fun stop => place.all (stop < ·)) = none := by
    apply List.find?_eq_none.mpr
    intro stop listed
    simpa using inBack stop (List.mem_reverse.mp listed)
  rw [previousStop, found, List.reverse_append, List.find?_append, none_, Option.none_or]
  cases same : front.reverse with
  | nil =>
    obtain rfl := List.reverse_eq_nil_iff.mp same
    rfl
  | cons last rest =>
    -- The last stop in front passes the test.
    obtain rfl : front = rest.reverse ++ [last] := by
      rw [← List.reverse_reverse front, same, List.reverse_cons]
    have before := inFront last (by simp)
    simp [before]

/-- The previous stop from anywhere is a stop, if there are any. -/
theorem previousStop_mem (ascending : stops.Pairwise (· < ·)) (some_ : stops ≠ [])
    (place : Option α) :
    ∃ index < stops.length, previousStop stops place = stops[index]? := by
  -- The nearest stop below, or else the last one.
  have present : ∃ stop ∈ stops, previousStop stops place = some stop := by
    rw [previousStop_eq ascending]
    cases found : stops.reverse.find? fun stop => place.all (stop < ·) with
    | some stop => exact ⟨stop, List.mem_reverse.mp (List.mem_of_find?_eq_some found), rfl⟩
    | none =>
      exact ⟨_, List.getLast_mem some_, by rw [Option.none_or, List.getLast?_eq_some_getLast some_]⟩
  obtain ⟨stop, listed, same⟩ := present
  obtain ⟨index, held⟩ := List.mem_iff_getElem?.mp listed
  exact ⟨index, (List.getElem?_eq_some_iff.mp held).1, same.trans held.symm⟩

/-- The previous stops are the next ones of the reversed stops. -/
theorem previousStop_reverse (ascending : stops.Pairwise (· < ·)) {index : Nat}
    (inside : index < stops.reverse.length) :
    previousStop stops stops.reverse[index]? =
      stops.reverse[(index + 1) % stops.reverse.length]? := by
  rw [List.length_reverse] at inside ⊢
  have place : stops.reverse[index]? = stops[stops.length - 1 - index]? :=
    List.getElem?_reverse inside
  rw [place, previousStop_getElem ascending (by omega)]
  by_cases last : index + 1 < stops.length
  · rw [Nat.mod_eq_of_lt last, List.getElem?_reverse last]
    have around : stops.length - 1 - index + (stops.length - 1) = stops.length - 1 - (index + 1) +
        stops.length := by omega
    rw [around, Nat.add_mod_right, Nat.mod_eq_of_lt (by omega)]
  · -- The last of the reversed stops is the first stop.
    obtain same : index + 1 = stops.length := by omega
    rw [same, Nat.mod_self, List.getElem?_reverse (by omega)]
    have first : stops.length - 1 - index + (stops.length - 1) = stops.length - 1 := by omega
    rw [first, Nat.mod_eq_of_lt (by omega), Nat.sub_zero]

/-- As many steps forward as there are stops visit each stop once. -/
theorem nextStop_tour (ascending : stops.Pairwise (· < ·)) (some_ : stops ≠ []) (place : Option α) :
    ((List.range stops.length).map fun count => (nextStop stops)^[count + 1] place).Perm
      (stops.map some) := by
  obtain ⟨start, inside, enters⟩ := nextStop_mem some_ place
  rw [map_iterate_ring (fun index bound => nextStop_getElem ascending bound) enters inside]
  exact (List.rotate_perm stops start).map some

/-- And so do as many steps back. -/
theorem previousStop_tour (ascending : stops.Pairwise (· < ·)) (some_ : stops ≠ [])
    (place : Option α) :
    ((List.range stops.length).map fun count => (previousStop stops)^[count + 1] place).Perm
      (stops.map some) := by
  obtain ⟨start, inside, enters⟩ := previousStop_mem ascending some_ place
  -- Backwards through the stops is forwards through their reverse.
  have reversed : previousStop stops place = stops.reverse[stops.length - 1 - start]? := by
    rw [enters, List.getElem?_reverse (by omega)]
    congr 1
    omega
  have tour := map_iterate_ring (fun index bound => previousStop_reverse ascending bound) reversed
    (by rw [List.length_reverse]; omega)
  rw [List.length_reverse] at tour
  rw [tour]
  exact ((List.rotate_perm _ _).trans (List.reverse_perm stops)).map some

/-- A step back undoes a step forward from a stop, and the other way round. -/
theorem previousStop_nextStop (ascending : stops.Pairwise (· < ·)) {stop : α}
    (listed : stop ∈ stops) :
    previousStop stops (nextStop stops (some stop)) = some stop ∧ nextStop stops
      (previousStop stops (some stop)) = some stop := by
  -- A stop is where its index is, and one step round the ring and one back end there.
  obtain ⟨index, held⟩ := List.mem_iff_getElem?.mp listed
  have inside := (List.getElem?_eq_some_iff.mp held).1
  have positive : 0 < stops.length := by omega
  rw [← held]
  constructor
  · rw [nextStop_getElem ascending inside, previousStop_getElem ascending (Nat.mod_lt _ positive),
      Nat.mod_add_mod]
    have around : index + 1 + (stops.length - 1) = index + stops.length := by omega
    rw [around, Nat.add_mod_right, Nat.mod_eq_of_lt inside]
  · rw [previousStop_getElem ascending inside, nextStop_getElem ascending (Nat.mod_lt _ positive),
      Nat.mod_add_mod]
    have around : index + (stops.length - 1) + 1 = index + stops.length := by omega
    rw [around, Nat.add_mod_right, Nat.mod_eq_of_lt inside]

end Stops

end Loglib
