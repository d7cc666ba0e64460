import Larder.Datum

/-!
# Sets of records

A set tells records apart by their canonical text and by their equality: a record is taken for
another one only if both agree. Floating point zeros of two signs inside opaque documents are equal
and written differently, so two records that differ only there are kept apart.
-/

namespace Larder

/-- Whether a set takes one record for the other. -/
def Datum.indistinct (a b : Datum) : Bool := a.text == b.text && a.same b

/-- Records, each once. -/
structure RecordSet where
  records : List Datum

namespace RecordSet

/-- The set without records. -/
def empty : RecordSet := ⟨[]⟩

/-- How many records there are. -/
def size (s : RecordSet) : Nat := s.records.length

/-- Whether a record is in the set. -/
def contains (s : RecordSet) (d : Datum) : Bool := s.records.any d.indistinct

/-- The set with a record in it. -/
def insert (s : RecordSet) (d : Datum) : RecordSet :=
  if s.contains d then s else ⟨s.records ++ [d]⟩

/-- The set without a record. -/
def erase (s : RecordSet) (d : Datum) : RecordSet := ⟨s.records.filter fun x => !d.indistinct x⟩

/-- The texts of the records, in order. -/
def texts (s : RecordSet) : List String :=
  (s.records.map Datum.text).mergeSort fun a b => !(b < a : Bool)

end RecordSet

end Larder
