import Larder.Decode.Fault

/-!
# Decoders

A decoder remembers where in the document it is and which entries of collections it has left out.
Its mode decides what becomes of an entry that cannot be read: in strict mode the whole reading
fails with it; in lenient mode the entry is left out and reported, and what had been left out inside
it is forgotten. Every entry ever left out, forgotten or not, stays in the decoder's log.

A decoding step changes the decoder and ends with a value or an error; what it did to the decoder
stays done in both cases.
-/

namespace Larder

/-- What becomes of a collection entry that cannot be read. -/
inductive Mode where
  | strict
  | lenient
deriving DecidableEq

/-- How to read. -/
structure Options where
  collections : Mode := .lenient
deriving DecidableEq

/-- The same options with another mode for collections. -/
def Options.withCollections (o : Options) (mode : Mode) : Options := { o with collections := mode }

/-- A collection entry left out: where it is, and the error, which may lie deeper. -/
structure Drop where
  path : Path
  error : DecodeError
deriving DecidableEq

/-- The state of a reading. -/
structure Decoder where
  options : Options
  /-- Where in the document the reading is. -/
  path : Path
  /-- The entries left out, in order. -/
  dropped : List Drop
  /-- Every entry that was left out at its time, in order. -/
  log : List Drop

/-- A decoder at the root of a document. -/
def Decoder.fresh (options : Options) : Decoder := ⟨options, .root, [], []⟩

/-- A step of decoding, which ends with a value or an error and a changed decoder. -/
def DecodeM (α : Type) := Decoder → Except DecodeError α × Decoder

instance : Monad DecodeM where
  pure a := fun cx => (.ok a, cx)
  bind m f := fun cx =>
    match m cx with
    | (.ok a, cx') => f a cx'
    | (.error e, cx') => (.error e, cx')

namespace DecodeM

variable {α : Type}

/-- Ends with a fault at the current path. -/
def fail (fault : Fault) : DecodeM α := fun cx => (.error ⟨cx.path, fault⟩, cx)

/-- Ends with what was found, or with a fault at the current path. -/
def ofExcept : Except Fault α → DecodeM α
  | .ok a => pure a
  | .error fault => fail fault

/-- Takes a step one level deeper in the document, and comes back. -/
def within (segment : Segment) (m : DecodeM α) : DecodeM α := fun cx =>
  let (result, cx') := m { cx with path := cx.path.push segment }
  (result, { cx' with path := cx'.path.pop })

/-- Leaves out the entry that the decoder is at, and forgets all but the first `mark` entries left
out before. -/
def drop (error : DecodeError) (mark : Nat) : DecodeM Unit := fun cx =>
  let entry : Drop := ⟨cx.path, error⟩
  (.ok (), { cx with dropped := cx.dropped.take mark ++ [entry], log := cx.log ++ [entry] })

/-- Reads one entry of a collection, one level deeper; nothing when the entry was left out. -/
def entry (segment : Segment) (m : DecodeM α) : DecodeM (Option α) := fun cx =>
  within segment (fun inner =>
    match m inner with
    | (.ok a, cx') => (.ok (some a), cx')
    | (.error e, cx') =>
      match cx'.options.collections with
      | .lenient => (do drop e cx.dropped.length; pure none : DecodeM (Option α)) cx'
      | .strict => (.error e, cx')) cx

end DecodeM

/-- A value, and the collection entries left out on the way to it. -/
structure Decoded (α : Type) where
  value : α
  dropped : List Drop

/-- Whether nothing was left out. -/
def Decoded.isComplete {α : Type} (d : Decoded α) : Bool := d.dropped.isEmpty

/-- What is left when a decoder is done. -/
def Decoder.finish {α : Type} (cx : Decoder) (value : α) : Decoded α := ⟨value, cx.dropped⟩

/-- Takes a step with a fresh decoder. The second part is the decoder's log. -/
def DecodeM.runFresh {α : Type} (m : DecodeM α) (options : Options) :
    Except DecodeError (Decoded α) × List Drop :=
  let (result, cx) := m (.fresh options)
  (result.map cx.finish, cx.log)

end Larder
