import Larder.Proofs.LockStep

/-!
# Sessions of one decoder

A decoder may be used for more than one reading, and at more than one place of a document. It can be
passed on without precautions: whoever gets it back finds it where it was, with all that had been
left out before still on record, whether the reading ended with a value or an error.

* `Framed` is this law for one step. It says what the step does from anywhere in terms of what a
  fresh decoder does;
* a `Use` is one step of a session, or a session one level deeper. A session goes on when a step of
  it fails;
* `Decoder.Grown` is what a use does to a decoder, and `session_grown` what a session does;
* `Taken` says from which decoder a use is made in the course of a session;
* `decoder_orderly`: readings are framed, and sessions of them are orderly.
-/

namespace Larder

open DecodeM

variable {α : Type} {c : Catalog}

/-! ## One step -/

/-- What the step does from anywhere, after anything has been left out, is what it does with a fresh
decoder, with its own place in front of all paths; and the decoder is given back as it was, but for
the entries that were left out on the way. -/
structure Framed (m : DecodeM α) : Prop where
  result : ∀ cx, (m cx).1 = (m (.fresh cx.options)).1.mapError (DecodeError.below cx.path)
  path : ∀ cx, (m cx).2.path = cx.path
  options : ∀ cx, (m cx).2.options = cx.options
  dropped : ∀ cx,
    (m cx).2.dropped = cx.dropped ++ (m (.fresh cx.options)).2.dropped.map (Drop.below cx.path)
  /-- In strict mode nothing is left out at all. -/
  strict : ∀ cx, cx.options.collections = .strict → (m cx).2.dropped = cx.dropped

/-- A step is framed if it is local and leaves nothing out in strict mode. -/
theorem Local.framed {m : DecodeM α} (hm : Local m) (hstrict : (m.outcome .strict).dropped = []) :
    Framed m where
  result cx := by
    rw [hm cx]
    rfl
  path cx := by
    rw [hm cx]
    rfl
  options cx := by
    rw [hm cx]
    rfl
  dropped cx := by
    rw [hm cx]
    rfl
  strict cx hmode := by
    rw [hm cx, hmode]
    show cx.dropped ++ (m.outcome .strict).dropped.map _ = cx.dropped
    rw [hstrict, List.map_nil, List.append_nil]

/-- What every step of a reading keeps makes the reading framed. -/
theorem framed_of_law {m : DecodeM α}
    (h : Local m ∧ LockStep (m.outcome .strict) (m.outcome .lenient)) : Framed m :=
  h.1.framed h.2.dropped

theorem decode_framed (c : Catalog) (t : Ty) (v : Json) : Framed (decode c t v) :=
  framed_of_law (lockStepLaw.decode c t v)

theorem required_framed (c : Catalog) (t : Ty) (members : List (String × Json)) (key : String) :
    Framed (required members key fun v _ => decode c t v) :=
  framed_of_law (lockStepLaw.required fun v _ => lockStepLaw.decode c t v)

theorem optional_framed (c : Catalog) (t : Ty) (members : List (String × Json)) (key : String) :
    Framed (optional members key fun v _ => decode c t v) :=
  framed_of_law (lockStepLaw.optional fun v _ => lockStepLaw.decode c t v)

theorem expectObject_framed (v : Json) : Framed (expectObject v) := by
  refine framed_of_law ?_
  cases v with
  | object members => exact lockStepLaw.pure members
  | _ => exact lockStepLaw.fail _

/-! ## Sessions -/

/-- One use of a decoder. -/
inductive Use where
  /-- For a value of a type. -/
  | value (t : Ty) (v : Json)
  /-- For a member of an object that has to be there. -/
  | required (t : Ty) (members : List (String × Json)) (key : String)
  /-- For a member of an object that may be absent or null. -/
  | optional (t : Ty) (members : List (String × Json)) (key : String)
  /-- For the members of an object. -/
  | object (v : Json)
  /-- For a session one level deeper. -/
  | within (segment : Segment) (uses : List Use)

mutual

/-- What becomes of a decoder when it is used. What the use ends with is for its user. -/
def Use.run (c : Catalog) : Use → Decoder → Decoder
  | .value t v, cx => (decode c t v cx).2
  | .required t members key, cx => (DecodeM.required members key (fun v _ => decode c t v) cx).2
  | .optional t members key, cx => (DecodeM.optional members key (fun v _ => decode c t v) cx).2
  | .object v, cx => (expectObject v cx).2
  | .within segment uses, cx =>
    (DecodeM.within segment (fun inner => (.ok (), session c uses inner)) cx).2

/-- What becomes of a decoder when it is used again and again, whatever the uses end with. -/
def session (c : Catalog) : List Use → Decoder → Decoder
  | [], cx => cx
  | u :: rest, cx => session c rest (u.run c cx)

end

mutual

/-- What a use leaves out, seen from where it is made: what a fresh decoder leaves out, and one level
deeper what the session there leaves out. -/
def Use.reported (c : Catalog) (options : Options) : Use → List Drop
  | .within segment uses => (sessionReported c options uses).map (Drop.below (.step segment))
  | u => (u.run c (.fresh options)).dropped

/-- What a session leaves out, use by use. -/
def sessionReported (c : Catalog) (options : Options) : List Use → List Drop
  | [] => []
  | u :: rest => u.reported c options ++ sessionReported c options rest

end

/-- In the session that begins with a decoder, the use is made, at some depth, of the last decoder. -/
inductive Taken (c : Catalog) : List Use → Decoder → Use → Decoder → Prop where
  | first {u : Use} {rest : List Use} {cx : Decoder} : Taken c (u :: rest) cx u cx
  | later {u w : Use} {rest : List Use} {cx before : Decoder}
      (h : Taken c rest (u.run c cx) w before) : Taken c (u :: rest) cx w before
  | inside {s : Segment} {w : Use} {uses rest : List Use} {cx before : Decoder}
      (h : Taken c uses { cx with path := cx.path.push s } w before) :
      Taken c (.within s uses :: rest) cx w before

/-- No use in the session disturbs what is around it. -/
structure Orderly (c : Catalog) (uses : List Use) (cx : Decoder) : Prop where
  /-- Every use leaves the path and the options as it finds them. -/
  restored : ∀ u before, Taken c uses cx u before →
    (u.run c before).path = before.path ∧ (u.run c before).options = before.options
  /-- What has been left out before a use is on record after it, and what is on record then still is
  when the session ends. -/
  kept : ∀ u before, Taken c uses cx u before →
    before.dropped <+: (u.run c before).dropped ∧
      (u.run c before).dropped <+: (session c uses cx).dropped
  /-- In the end all that was left out is reported, use by use. -/
  finish : ∀ {α : Type} (a : α), ((session c uses cx).finish a).dropped =
    cx.dropped ++ (sessionReported c cx.options uses).map (Drop.below cx.path)

/-! ## What sessions keep -/

/-- The second decoder is the first one with more entries left out, which are seen from where it
is. -/
structure Decoder.Grown (cx cx' : Decoder) (ds : List Drop) : Prop where
  path : cx'.path = cx.path
  options : cx'.options = cx.options
  dropped : cx'.dropped = cx.dropped ++ ds.map (Drop.below cx.path)

namespace Decoder.Grown

variable {cx cx' cx'' : Decoder} {ds ds' : List Drop}

theorem refl (cx : Decoder) : Grown cx cx [] := ⟨rfl, rfl, (List.append_nil _).symm⟩

theorem trans (h : Grown cx cx' ds) (h' : Grown cx' cx'' ds') : Grown cx cx'' (ds ++ ds') where
  path := h'.path.trans h.path
  options := h'.options.trans h.options
  dropped := by rw [h'.dropped, h.dropped, h.path, List.map_append, List.append_assoc]

theorem of_framed {m : DecodeM α} (hm : Framed m) (cx : Decoder) :
    Grown cx (m cx).2 (m (.fresh cx.options)).2.dropped :=
  ⟨hm.path cx, hm.options cx, hm.dropped cx⟩

/-- One step down, and one step back. -/
theorem within {s : Segment} {f : Decoder → Decoder}
    (h : Grown { cx with path := cx.path.push s } (f { cx with path := cx.path.push s }) ds) :
    Grown cx (DecodeM.within s (fun inner => (.ok (), f inner)) cx).2
      (ds.map (Drop.below (.step s))) where
  path := by
    show (f { cx with path := cx.path.push s }).path.pop = cx.path
    rw [h.path, Path.pop_push]
  options := h.options
  dropped := by
    rw [Drop.map_below_below]
    exact h.dropped

theorem keeps (h : Grown cx cx' ds) : cx.dropped <+: cx'.dropped := ⟨_, h.dropped.symm⟩

end Decoder.Grown

mutual

/-- A use makes a decoder grow by what the use leaves out. -/
theorem Use.run_grown (c : Catalog) : ∀ (u : Use) (cx : Decoder),
    cx.Grown (u.run c cx) (u.reported c cx.options)
  | .value t v, cx => .of_framed (decode_framed c t v) cx
  | .required t members key, cx => .of_framed (required_framed c t members key) cx
  | .optional t members key, cx => .of_framed (optional_framed c t members key) cx
  | .object v, cx => .of_framed (expectObject_framed v) cx
  | .within s uses, cx => .within (session_grown c uses { cx with path := cx.path.push s })

/-- A session makes a decoder grow by what its uses leave out, one after the other. -/
theorem session_grown (c : Catalog) : ∀ (uses : List Use) (cx : Decoder),
    cx.Grown (session c uses cx) (sessionReported c cx.options uses)
  | [], cx => .refl cx
  | u :: rest, cx => by
      have hu := u.run_grown c cx
      have hrest := session_grown c rest (u.run c cx)
      rw [hu.options] at hrest
      exact hu.trans hrest

end

/-- What is on record after a use is on record when the session ends. -/
theorem Taken.keeps {uses : List Use} {cx before : Decoder} {u : Use}
    (h : Taken c uses cx u before) : (u.run c before).dropped <+: (session c uses cx).dropped := by
  induction h with
  | @first u rest cx => exact (session_grown c rest (u.run c cx)).keeps
  | later _ ih => exact ih
  | @inside s w uses rest cx before _ ih =>
      exact ih.trans (session_grown c rest ((Use.within s uses).run c cx)).keeps

theorem session_orderly (c : Catalog) (uses : List Use) (cx : Decoder) : Orderly c uses cx where
  restored u before _ := ⟨(u.run_grown c before).path, (u.run_grown c before).options⟩
  kept u before h := ⟨(u.run_grown c before).keeps, h.keeps⟩
  finish _ := (session_grown c uses cx).dropped

/-- **A decoder can be passed on without precautions.** Readings of values and of members do the same
wherever they start and whatever has been left out, and give the decoder back; and in no session of
them, however deep and whatever fails, does a use disturb what is around it. -/
theorem decoder_orderly (c : Catalog) :
    (∀ t v, Framed (decode c t v)) ∧
    (∀ t members key, Framed (required members key fun v _ => decode c t v) ∧
      Framed (optional members key fun v _ => decode c t v)) ∧
    ∀ uses cx, Orderly c uses cx :=
  ⟨decode_framed c, fun t members key => ⟨required_framed c t members key,
    optional_framed c t members key⟩, session_orderly c⟩

/-- Names with a truth value among them, one level down, then a name that is missing there; and back
up a name that is none, and names again. -/
def spoiledSession : List Use :=
  [.within (.key "names") [
      .value (.list .string) (.array [.string "flour", .bool true]),
      .required .string [] "first"],
    .value .string (.bool false),
    .value (.list .string) (.array [.null, .string "salt"])]

example : (session ⟨[]⟩ spoiledSession (.fresh ⟨.lenient⟩)).dropped.map (fun d => d.path.segments) =
    [[.key "names", .index 1], [.index 0]] := by
  cbv

end Larder
