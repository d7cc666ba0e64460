import Larder.Decode.Typed

/-!
# Reading collections

A list, a map, and a map of lists, read in a mode. Null is an empty collection.
-/

namespace Larder

/-- The options in which the mode of collections is given and all else is as usual. -/
def Options.ofMode (mode : Mode) : Options := Options.withCollections {} mode

/-- Reads an array as a list of values of a type. -/
def decodeList (c : Catalog) (t : Ty) (mode : Mode) (v : Json) :
    Except DecodeError (Decoded Datum) :=
  decodeValue c (.list t) (.ofMode mode) v

/-- Reads an object as a map of values of a type, under the keys that it has. -/
def decodeMap (c : Catalog) (t : Ty) (mode : Mode) (v : Json) :
    Except DecodeError (Decoded Datum) :=
  decodeValue c (.map t) (.ofMode mode) v

/-- Reads an object of arrays as a map of lists of values of a type. -/
def decodeMapOfList (c : Catalog) (t : Ty) (mode : Mode) (v : Json) :
    Except DecodeError (Decoded Datum) :=
  decodeValue c (.map (.list t)) (.ofMode mode) v

end Larder
