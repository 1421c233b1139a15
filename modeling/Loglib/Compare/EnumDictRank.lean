import Loglib.Order.IndexSort
import Loglib.Table.EnumDictionary

/-! The alphabetic rank of each value of a dictionary, frozen at the moment it is built. -/

namespace Loglib

/-- Ranks by value id, each below the number of ids. -/
structure EnumDictRank where
  idToRank : List Nat
  bounded : idToRank.length ≤ maxEnumValues
  ranked : ∀ rank ∈ idToRank, rank < idToRank.length

namespace EnumDictRank

/-- The order of the value ids by their bytes. -/
def valueOrder (dictionary : EnumDictionary) : List EnumValueId :=
  sortIndices dictionary.size fun a b =>
    byteKey (dictionary.resolve a) < byteKey (dictionary.resolve b)

/-- The ids of a dictionary are ordered, each once. -/
theorem valueOrder_perm (dictionary : EnumDictionary) :
    (valueOrder dictionary).Perm (List.range dictionary.size) :=
  sortIndices_perm _ _

/-- There are as many ranks as values. -/
theorem length_valueOrder (dictionary : EnumDictionary) :
    (valueOrder dictionary).length = dictionary.size := by
  rw [(valueOrder_perm dictionary).length_eq, List.length_range]

/-- A dictionary is never larger than the hard bound. -/
theorem length_invertOrder_le (dictionary : EnumDictionary) :
    (invertOrder (valueOrder dictionary)).length ≤ maxEnumValues := by
  rw [length_invertOrder, length_valueOrder]
  exact dictionary.fits.trans dictionary.bounded

/-- Every rank of the table lies below the number of values. -/
theorem rank_lt (dictionary : EnumDictionary) :
    ∀ rank ∈ invertOrder (valueOrder dictionary),
      rank < (invertOrder (valueOrder dictionary)).length := by
  intro rank listed
  obtain ⟨id, held⟩ := List.mem_iff_getElem?.mp listed
  have below : id < dictionary.size := by
    have := (List.getElem?_eq_some_iff.mp held).1
    rwa [length_invertOrder, length_valueOrder] at this
  -- The rank of an id is the place the order gives it.
  obtain ⟨place, placed, ranked⟩ := exists_rank (valueOrder_perm dictionary) below
  obtain rfl : place = rank := Option.some.inj (ranked.symm.trans held)
  rw [length_invertOrder]
  exact (List.getElem?_eq_some_iff.mp placed).1

/-- The rank table of a dictionary's current values. -/
def ofDictionary (dictionary : EnumDictionary) : EnumDictRank where
  idToRank := invertOrder (valueOrder dictionary)
  bounded := length_invertOrder_le dictionary
  ranked := rank_lt dictionary

/-- Number of ranked values, which also serves as the rank of everything unknown. -/
def dictSize (rank : EnumDictRank) : Nat := rank.idToRank.length

/-- Rank of an id; ids minted after the build share the rank past all known values. -/
def rankOf (rank : EnumDictRank) (id : EnumValueId) : Nat :=
  match rank.idToRank[id]? with
  | some known => known
  | none => rank.dictSize

/-- An id past the table has the rank past all known values. -/
theorem rankOf_of_le {rank : EnumDictRank} {id : EnumValueId} (past : rank.dictSize ≤ id) :
    rank.rankOf id = rank.dictSize := by
  have missing : rank.idToRank[id]? = none := List.getElem?_eq_none past
  simp only [rankOf, missing]

/-- A known id ranks below the rank of everything unknown. -/
theorem rankOf_lt {rank : EnumDictRank} {id : EnumValueId} (known : id < rank.dictSize) :
    rank.rankOf id < rank.dictSize := by
  have held : rank.idToRank[id]? = some (rank.idToRank.get ⟨id, known⟩) :=
    List.getElem?_eq_getElem known
  simp only [rankOf, held]
  exact rank.ranked _ (List.get_mem _ _)

end EnumDictRank

end Loglib
