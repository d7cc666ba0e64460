import Mathlib
import Larder.Api.Catalog
import Larder.Proofs.Reading

/-!
# Every error points at its cause

A decode error says where in the document something is wrong, and what. `DecodeError.Founded` says
that it is so: its path leads to what it complains of. Errors are made where the reading is and are
moved up with it, one step at a time, so founded errors stay founded (`DecodeError.Founded.below`),
and all errors of an outcome are founded if those of its parts are (`Outcome.Errs`).
-/

namespace Larder

variable {α β κ : Type} {c : Catalog} {t : Ty} {v w : Json}

/-! ## What errors say -/

/-- The types of the values at the paths of a failure. -/
inductive Failure.TypeAt : List Segment → Ty → Prop where
  | code : Failure.TypeAt [.key "code"] (.integer .u64)
  | description : Failure.TypeAt [.key "description"] .string

/-- The value at the path is read as a value of the second type when the document is read as one of
the first. -/
inductive TypeAt (c : Catalog) : Ty → List Segment → Ty → Prop where
  | here (t : Ty) : TypeAt c t [] t
  | option {t u : Ty} {p : List Segment} (h : TypeAt c t p u) : TypeAt c (.option t) p u
  | item {t u : Ty} {i : Nat} {p : List Segment} (h : TypeAt c t p u) :
      TypeAt c (.list t) (.index i :: p) u
  | entry {t u : Ty} {key : String} {p : List Segment} (h : TypeAt c t p u) :
      TypeAt c (.map t) (.key key :: p) u
  | payload {t u : Ty} {p : List Segment} (h : TypeAt c t p u) :
      TypeAt c (.envelope t) (.key "ok" :: p) u
  | failure {t u : Ty} {p : List Segment} (h : Failure.TypeAt p u) :
      TypeAt c (.envelope t) (.key "err" :: p) u
  | field {name : String} {f : Field} {u : Ty} {p : List Segment} (hf : f ∈ c.fields name)
      (h : TypeAt c f.ty p u) : TypeAt c (.record name) (.key f.key :: p) u

/-- What an error says of a document is so, where `types` has the types at the paths:

* a value of an unexpected type is at the path, is called as the error says, and that is not what
  was expected;
* a missing member is not in the object that the path leads to but for its last step;
* a member said to be null is null;
* a number said to be out of range is at the path, and the type there does not hold it;
* a text said to be no identifier is at the path, and is none;
* an object said to be no envelope is at the path, and has neither of the two keys. -/
def DecodeError.Founded (types : List Segment → Ty → Prop) (v : Json) (e : DecodeError) : Prop :=
  match e.fault with
  | .unexpectedType expected found =>
    ∃ w, v.resolve e.path = some w ∧ w.typeName = found ∧ found ≠ expected
  | .missingField =>
    ∃ (q : Path) (k : String) (members : List (String × Json)), e.path = q.push (.key k) ∧
      v.resolve q = some (.object members) ∧ members.lookup k = none
  | .nullField =>
    (∃ (q : Path) (k : String), e.path = q.push (.key k)) ∧ v.resolve e.path = some .null
  | .outOfRange n width =>
    types e.path.segments (.integer width) ∧
      ∃ i, v.resolve e.path = some (.integer i) ∧ i.value = n ∧ ¬width.Holds n
  | .badUuid flaw => ∃ s, v.resolve e.path = some (.string s) ∧ Uuid.ofText s = .error flaw
  | .noEnvelope =>
    ∃ members, v.resolve e.path = some (.object members) ∧
      members.lookup "ok" = none ∧ members.lookup "err" = none
  | .refused _ => False

namespace DecodeError.Founded

variable {types types' : List Segment → Ty → Prop}

/-- What an error says of a part of a document, it says one step further up of the whole. -/
theorem below {s : Segment} {e : DecodeError} (hs : s.follow v = some w)
    (htypes : ∀ p u, types' p u → types (s :: p) u) (h : e.Founded types' w) :
    (e.below (.step s)).Founded types v := by
  obtain ⟨path, fault⟩ := e
  have hresolve : ∀ q : Path, v.resolve ((Path.step s).append q) = w.resolve q := fun q =>
    (Json.resolve_cons v s q.segments).trans (by rw [hs]; rfl)
  have hpush : ∀ (q : Path) s', (Path.step s).append (q.push s') =
      ((Path.step s).append q).push s' := fun q s' => by simp [Path.append, Path.push]
  cases fault with
  | unexpectedType expected found =>
      obtain ⟨x, hx, h⟩ := h
      exact ⟨x, (hresolve path).trans hx, h⟩
  | missingField =>
      obtain ⟨q, k, members, rfl, hq, h⟩ := h
      exact ⟨_, k, members, hpush q (.key k), (hresolve q).trans hq, h⟩
  | nullField =>
      obtain ⟨⟨q, k, rfl⟩, hx⟩ := h
      exact ⟨⟨_, k, hpush q (.key k)⟩, (hresolve _).trans hx⟩
  | outOfRange n width =>
      obtain ⟨htype, i, hi, h⟩ := h
      exact ⟨htypes _ _ htype, i, (hresolve path).trans hi, h⟩
  | badUuid flaw =>
      obtain ⟨x, hx, h⟩ := h
      exact ⟨x, (hresolve path).trans hx, h⟩
  | noEnvelope =>
      obtain ⟨members, hx, h⟩ := h
      exact ⟨members, (hresolve path).trans hx, h⟩
  | refused reason => exact h

theorem mono {e : DecodeError} (htypes : ∀ p u, types' p u → types p u)
    (h : e.Founded types' v) : e.Founded types v := by
  obtain ⟨path, fault⟩ := e
  cases fault with
  | outOfRange n width => exact ⟨htypes _ _ h.1, h.2⟩
  | _ => exact h

/-- A value of another kind, where the reading started. -/
theorem unexpected {expected : String} (h : v.typeName ≠ expected) :
    DecodeError.Founded types v ⟨.root, .unexpected expected v⟩ :=
  ⟨v, rfl, rfl, h⟩

theorem missing {members : List (String × Json)} {key : String} (h : members.lookup key = none) :
    DecodeError.Founded types (.object members) ⟨.step (.key key), .missingField⟩ :=
  ⟨.root, key, members, rfl, rfl, h⟩

theorem null {members : List (String × Json)} {key : String}
    (h : members.lookup key = some .null) :
    DecodeError.Founded types (.object members) ⟨.step (.key key), .nullField⟩ :=
  ⟨⟨.root, key, rfl⟩, (Json.resolve_cons _ _ _).trans (by rw [Segment.follow, h]; rfl)⟩

end DecodeError.Founded

/-! ## The errors of an outcome -/

namespace Outcome

/-- Every error that an outcome ends with, reports or has in its log is of this kind. -/
structure Errs (P : DecodeError → Prop) (o : Outcome α) : Prop where
  result : ∀ e, o.result = .error e → P e
  dropped : ∀ d ∈ o.dropped, P d.error
  log : ∀ d ∈ o.log, P d.error

variable {P Q : DecodeError → Prop}

theorem errs_pure (a : α) : (pure a : Outcome α).Errs P := ⟨nofun, nofun, nofun⟩

theorem errs_fail {fault : Fault} (h : P ⟨.root, fault⟩) : (fail fault : Outcome α).Errs P :=
  ⟨fun e he => by cases he; exact h, nofun, nofun⟩

theorem errs_ofExcept {x : Except Fault α} (h : ∀ fault, x = .error fault → P ⟨.root, fault⟩) :
    (ofExcept x).Errs P := by
  cases x with
  | ok a => exact errs_pure a
  | error fault => exact errs_fail (h fault rfl)

theorem Errs.mono {o : Outcome α} (h : o.Errs P) (hP : ∀ e, P e → Q e) : o.Errs Q :=
  ⟨fun e he => hP e (h.result e he), fun d hd => hP _ (h.dropped d hd),
    fun d hd => hP _ (h.log d hd)⟩

theorem Errs.bind {o : Outcome α} {f : α → Outcome β} (ho : o.Errs P) (hf : ∀ a, (f a).Errs P) :
    (o >>= f).Errs P := by
  obtain ⟨result, dropped, log⟩ := o
  cases result with
  | error e => exact ⟨fun e' he => by cases he; exact ho.result e rfl, ho.dropped, ho.log⟩
  | ok a =>
      exact ⟨(hf a).result, List.forall_mem_append.mpr ⟨ho.dropped, (hf a).dropped⟩,
        List.forall_mem_append.mpr ⟨ho.log, (hf a).log⟩⟩

theorem Errs.map {o : Outcome α} (f : α → β) (ho : o.Errs P) : (f <$> o).Errs P :=
  ho.bind fun a => errs_pure (f a)

/-- Two parts of a reading, one after the other. -/
theorem Errs.parts {γ : Type} {o : Outcome α} {o' : Outcome β} {f : α → β → γ} (ho : o.Errs P)
    (ho' : o'.Errs P) : (do let a ← o; let b ← o'; pure (f a b)).Errs P :=
  ho.bind fun a => ho'.map (f a)

/-- One step deeper, errors have the step in front of their paths. -/
theorem Errs.below {o : Outcome α} {s : Segment} (h : o.Errs fun e => P (e.below (.step s))) :
    (o.below (.step s)).Errs P := by
  refine ⟨fun e he => ?_, List.forall_mem_map.mpr h.dropped, List.forall_mem_map.mpr h.log⟩
  obtain ⟨result, dropped, log⟩ := o
  cases result with
  | ok a => cases he
  | error e' =>
      cases he
      exact h.result e' rfl

/-- An entry that is left out is reported and logged with its own error. -/
theorem Errs.entry {o : Outcome α} {s : Segment} (mode : Mode)
    (h : o.Errs fun e => P (e.below (.step s))) : (entry mode s o).Errs P := by
  have hbelow := h.below
  obtain ⟨result, dropped, log⟩ := o
  cases result with
  | ok a => exact ⟨nofun, hbelow.dropped, hbelow.log⟩
  | error e =>
      have he : P (e.below (.step s)) := h.result e rfl
      cases mode with
      | strict => exact ⟨fun _ h' => by cases h'; exact he, hbelow.dropped, hbelow.log⟩
      | lenient =>
          refine ⟨nofun, List.forall_mem_singleton.mpr he, ?_⟩
          exact List.forall_mem_append.mpr ⟨hbelow.log, List.forall_mem_singleton.mpr he⟩

theorem errs_entries {segment : κ → Segment} {mode : Mode} {read : Json → Outcome Datum} :
    ∀ {es : List (κ × Json)},
      (∀ e ∈ es, (read e.2).Errs fun error => P (error.below (.step (segment e.1)))) →
        (entries segment mode read es).Errs P
  | [], _ => errs_pure []
  | (label, v) :: rest, h => by
      have hrest : (entries segment mode read rest).Errs P :=
        errs_entries fun e he => h e (List.mem_cons_of_mem _ he)
      exact Errs.parts (Errs.entry mode (h (label, v) List.mem_cons_self)) hrest

end Outcome

/-! ## All errors are founded -/

/-- Every error of an outcome is founded in the document, where `types` has the types at the
paths. -/
def Outcome.Founded (types : List Segment → Ty → Prop) (v : Json) (o : Outcome α) : Prop :=
  o.Errs (DecodeError.Founded types v)

namespace Outcome.Founded

variable {types types' : List Segment → Ty → Prop} {members : List (String × Json)} {key : String}
  {read : Json → Outcome α}

/-- The member of a key, one step deeper. -/
theorem member (hv : members.lookup key = some v)
    (htypes : ∀ p u, types' p u → types (.key key :: p) u) {o : Outcome α}
    (h : o.Founded types' v) : (o.below (.step (.key key))).Founded types (.object members) :=
  Errs.below <| Errs.mono h fun _ he => he.below (s := .key key) hv htypes

theorem required (htypes : ∀ p u, types' p u → types (.key key :: p) u)
    (h : ∀ v, members.lookup key = some v → (read v).Founded types' v) :
    (Outcome.required members key read).Founded types (.object members) := by
  unfold Outcome.required
  cases hv : members.lookup key with
  | none => exact Errs.below (errs_fail (.missing hv))
  | some v =>
      cases v with
      | null => exact Errs.below (errs_fail (.null hv))
      | _ => exact member hv htypes (h _ hv)

theorem optional (htypes : ∀ p u, types' p u → types (.key key :: p) u)
    (h : ∀ v, members.lookup key = some v → (read v).Founded types' v) :
    (Outcome.optional members key read).Founded types (.object members) := by
  unfold Outcome.optional
  cases hv : members.lookup key with
  | none => exact errs_pure none
  | some v =>
      dsimp only
      split
      · exact errs_pure none
      · exact member hv htypes (Errs.map some (h _ hv))

end Outcome.Founded

variable {mode : Mode}

open Outcome

/-- What can be wrong with a scalar. -/
theorem Scalar.read_eq_error {s : Scalar} {fault : Fault} (h : s.read v = .error fault) :
    (∃ expected, v.typeName ≠ expected ∧ fault = .unexpected expected v) ∨
      (∃ w n, s = .integer w ∧ v = .integer n ∧ ¬w.Holds n.value ∧
        fault = .outOfRange n.value w) ∨
      ∃ text flaw, s = .uuid ∧ v = .string text ∧ Uuid.ofText text = .error flaw ∧
        fault = .badUuid flaw := by
  have other : ∀ expected, v.typeName ≠ expected →
      (Except.error (.unexpected expected v) : Except Fault Datum) = .error fault →
        ∃ expected, v.typeName ≠ expected ∧ fault = .unexpected expected v := fun expected hne h =>
    ⟨expected, hne, (Except.error.inj h).symm⟩
  cases s with
  | string =>
      cases v with
      | string s => cases h
      | number n => cases n <;> exact Or.inl (other "string" (by simp [Json.typeName]) h)
      | _ => exact Or.inl (other "string" (by simp [Json.typeName]) h)
  | bool =>
      cases v with
      | bool b => cases h
      | number n => cases n <;> exact Or.inl (other "boolean" (by simp [Json.typeName]) h)
      | _ => exact Or.inl (other "boolean" (by simp [Json.typeName]) h)
  | integer w =>
      cases v with
      | number n =>
          cases n with
          | integer n =>
              rw [Scalar.read] at h
              split at h
              · cases h
              · rename_i hrange
                exact Or.inr (Or.inl ⟨w, n, rfl, rfl, hrange, (Except.error.inj h).symm⟩)
          | float x => exact Or.inl (other "integer" (by simp [Json.typeName]) h)
      | _ => exact Or.inl (other "integer" (by simp [Json.typeName]) h)
  | float =>
      cases v with
      | number n => cases h
      | _ => exact Or.inl (other "number" (by simp [Json.typeName]) h)
  | uuid =>
      cases v with
      | string s =>
          rw [Scalar.read] at h
          split at h
          · cases h
          · rename_i flaw hflaw
            exact Or.inr (Or.inr ⟨s, flaw, rfl, rfl, hflaw, (Except.error.inj h).symm⟩)
      | number n => cases n <;> exact Or.inl (other "string" (by simp [Json.typeName]) h)
      | _ => exact Or.inl (other "string" (by simp [Json.typeName]) h)
  | json => cases h
  | status =>
      cases v with
      | string s => cases h
      | number n => cases n <;> exact Or.inl (other "string" (by simp [Json.typeName]) h)
      | _ => exact Or.inl (other "string" (by simp [Json.typeName]) h)

theorem Scalar.read_founded (s : Scalar) (v : Json) :
    (ofExcept (s.read v)).Founded (TypeAt c (.scalar s)) v := by
  refine errs_ofExcept fun fault h => ?_
  rcases Scalar.read_eq_error h with
    ⟨expected, hne, rfl⟩ | ⟨w, n, rfl, rfl, hrange, rfl⟩ | ⟨text, flaw, rfl, rfl, hflaw, rfl⟩
  · exact .unexpected hne
  · exact ⟨.here _, n, rfl, rfl, hrange⟩
  · exact ⟨text, rfl, hflaw⟩

theorem Failure.readCode_founded (v : Json) :
    (ofExcept (Failure.readCode v)).Founded (fun p u => p = [] ∧ u = .integer .u64) v := by
  refine errs_ofExcept fun fault h => ?_
  unfold Failure.readCode at h
  split at h
  · rename_i n
    split at h
    · cases h
    · rename_i hneg
      cases h
      exact ⟨⟨rfl, rfl⟩, n, rfl, rfl, fun hrange => hneg hrange.1⟩
  · rename_i hother
    cases h
    refine .unexpected fun hname => ?_
    cases v with
    | number n =>
        cases n with
        | integer n => exact hother n rfl
        | float x => simp [Json.typeName] at hname
    | _ => simp [Json.typeName] at hname

theorem Failure.readDescription_founded (v : Json) :
    (ofExcept (Failure.readDescription v)).Founded (fun p u => p = [] ∧ u = .string) v := by
  refine errs_ofExcept fun fault h => ?_
  unfold Failure.readDescription at h
  split at h
  · cases h
  · rename_i hother
    cases h
    refine .unexpected fun hname => ?_
    cases v with
    | string s => exact hother s rfl
    | number n => cases n <;> simp [Json.typeName] at hname
    | _ => simp [Json.typeName] at hname

/-- Whatever is no object is said to be none. -/
theorem unexpected_object_founded {types : List Segment → Ty → Prop}
    (h : ∀ members, v ≠ .object members) :
    (fail (.unexpected "object" v) : Outcome α).Founded types v := by
  refine errs_fail (.unexpected fun hname => ?_)
  cases v with
  | object members => exact h members rfl
  | number n => cases n <;> simp [Json.typeName] at hname
  | _ => simp [Json.typeName] at hname

theorem Failure.decode_founded (mode : Mode) (v : Json) :
    ((Failure.decode v).outcome mode).Founded Failure.TypeAt v := by
  rw [reading_failure]
  cases v with
  | object members =>
      refine Errs.bind (Founded.required (fun p u h => ?_) fun w _ => Failure.readCode_founded w)
        fun code => Errs.bind
          (Founded.required (fun p u h => ?_) fun w _ => Failure.readDescription_founded w)
          fun description => errs_pure _
      · obtain ⟨rfl, rfl⟩ := h
        exact .code
      · obtain ⟨rfl, rfl⟩ := h
        exact .description
  | _ => exact unexpected_object_founded nofun

theorem readingField_founded {members : List (String × Json)} {f : Field} {name : String}
    (hf : f ∈ c.fields name)
    (ih : ∀ w, members.lookup f.key = some w → (reading c mode f.ty w).Founded (TypeAt c f.ty) w) :
    (readingField c mode members f).Founded (TypeAt c (.record name)) (.object members) := by
  rw [readingField_eq]
  split
  · exact Founded.required (fun p u h => .field hf h) ih
  · exact Errs.map _ (Founded.optional (fun p u h => .field hf h) ih)

theorem readingFields_founded {members : List (String × Json)} {name : String} :
    ∀ {fields : List Field}, fields ⊆ c.fields name →
      (∀ f ∈ fields, ∀ w, members.lookup f.key = some w →
        (reading c mode f.ty w).Founded (TypeAt c f.ty) w) →
      (readingFields c mode members fields).Founded (TypeAt c (.record name)) (.object members)
  | [], _, _ => by
      rw [readingFields_nil]
      exact errs_pure []
  | f :: rest, hfields, ih => by
      obtain ⟨hf, hrest⟩ := List.cons_subset.mp hfields
      rw [readingFields_cons]
      exact Errs.parts (readingField_founded hf (ih f List.mem_cons_self))
        (readingFields_founded hrest fun g hg => ih g (List.mem_cons_of_mem f hg))

/-- **Every error of a reading is founded**, whether the reading ends with it, reports it or only
has it in its log. -/
theorem reading_founded (c : Catalog) (mode : Mode) (t : Ty) (v : Json) (hv : v.WellFormed) :
    (reading c mode t v).Founded (TypeAt c t) v := by
  induction t, v using Ty.descent c with
  | scalar s v =>
      rw [reading_scalar]
      exact s.read_founded v
  | option t v ih =>
      rw [reading_option]
      split
      · exact errs_pure _
      · exact Errs.map _ (Errs.mono (ih hv) fun e he => he.mono fun p u h => .option h)
  | list t v ih =>
      rw [reading_list]
      cases v with
      | null => exact errs_pure _
      | array items =>
          dsimp only
          rw [readingItems_eq_entries]
          refine Errs.map _ (Errs.map _ (errs_entries fun e he => ?_))
          obtain ⟨⟨w, i⟩, hmem, rfl⟩ := List.mem_map.mp he
          have hw : items[i]? = some w := List.mk_mem_zipIdx_iff_getElem?.mp hmem
          have hitem := List.mem_of_getElem? hw
          refine Errs.mono (ih items rfl w hitem ((Json.itemsWellFormed_iff items).mp hv w hitem)) ?_
          exact fun e he => he.below (s := .index i) hw fun p u h => .item h
      | number n => cases n <;> exact errs_fail (.unexpected (by simp [Json.typeName]))
      | _ => exact errs_fail (.unexpected (by simp [Json.typeName]))
  | map t v ih =>
      rw [reading_map]
      cases v with
      | null => exact errs_pure _
      | object members =>
          dsimp only
          rw [readingEntries_eq_entries]
          refine Errs.map _ (errs_entries fun e he => ?_)
          have hlookup : members.lookup e.1 = some e.2 := Keyed.lookup_of_mem hv.1.nodup he
          refine Errs.mono (ih members rfl e he (hv.of_lookup hlookup)) ?_
          exact fun _ h => h.below (s := .key e.1) hlookup fun p u h => .entry h
      | _ => exact unexpected_object_founded nofun
  | envelope t v ih =>
      rw [reading_envelope]
      cases v with
      | object members =>
          dsimp only
          split
          · refine Errs.map _ (Founded.required (fun p u h => .payload h) fun w hw => ?_)
            exact ih members w rfl hw (hv.of_lookup hw)
          · rename_i hok
            split
            · exact Errs.map _
                (Founded.required (fun p u h => .failure h) fun w _ => Failure.decode_founded mode w)
            · rename_i herr
              exact errs_fail ⟨members, rfl, Option.not_isSome_iff_eq_none.mp hok,
                Option.not_isSome_iff_eq_none.mp herr⟩
      | _ => exact unexpected_object_founded nofun
  | record name v ih =>
      rw [reading_record]
      cases v with
      | object members =>
          exact Errs.map _ (readingFields_founded (List.Subset.refl _) fun f hf w hw =>
            ih members rfl f hf w hw (hv.of_lookup hw))
      | _ => exact unexpected_object_founded nofun

/-- **Every decode error points at its cause.** Whatever document is read as a value of whatever
type, in either mode: what the error of the reading says is so, and so is what the errors say that
are reported or logged with entries left out. -/
theorem decodeValue_errors_founded (hv : v.WellFormed) (mode : Mode) :
    (∀ e, decodeValue c t ⟨mode⟩ v = .error e → e.Founded (TypeAt c t) v) ∧
      (∀ d, decodeValue c t ⟨mode⟩ v = .ok d → ∀ r ∈ d.dropped, r.error.Founded (TypeAt c t) v) ∧
      ∀ r ∈ dropEvents c t ⟨mode⟩ v, r.error.Founded (TypeAt c t) v := by
  have founded := reading_founded c mode t v hv
  refine ⟨fun e he => founded.result e (decodeValue_eq_error.mp he), fun d hd r hr => ?_,
    founded.log⟩
  obtain ⟨-, hdropped⟩ := decodeValue_eq_ok.mp hd
  exact founded.dropped r (hdropped ▸ hr)

/-- A list with an item whose number is too great for an item, which does not say whether the list
may be changed. -/
def faultyReply : Json :=
  .object [
    ("items", .array [.object [("id", .integer (.ofUInt64 2147483648)), ("name", .string "rye")]]),
    ("readonly", .null)]

theorem decodeValue_errors_founded_faultyReply :
    faultyReply.WellFormed ∧
      decodeValue Api.catalog (.record "ReadListResponse") ⟨.strict⟩ faultyReply =
        .error ⟨⟨[.key "items", .index 0, .key "id"]⟩, .outOfRange 2147483648 .i32⟩ ∧
      TypeAt Api.catalog (.record "ReadListResponse") [.key "items", .index 0, .key "id"]
        (.integer .i32) ∧
      decodeValue Api.catalog (.record "ReadListResponse") ⟨.lenient⟩ faultyReply =
        .error ⟨⟨[.key "readonly"]⟩, .nullField⟩ ∧
      faultyReply.resolve ⟨[.key "readonly"]⟩ = some .null := by
  have hv : faultyReply.WellFormed := by
    simp only [faultyReply, Json.WellFormed, Json.ItemsWellFormed, Json.MembersWellFormed,
      Keyed.Sorted, Json.integer, and_true]
    decide
  have hstrict : decodeValue Api.catalog (.record "ReadListResponse") ⟨.strict⟩ faultyReply =
      .error ⟨⟨[.key "items", .index 0, .key "id"]⟩, .outOfRange 2147483648 .i32⟩ := by
    cbv
  have hlenient : decodeValue Api.catalog (.record "ReadListResponse") ⟨.lenient⟩ faultyReply =
      .error ⟨⟨[.key "readonly"]⟩, .nullField⟩ := by
    cbv
  exact ⟨hv, hstrict, ((decodeValue_errors_founded hv .strict).1 _ hstrict).1, hlenient,
    ((decodeValue_errors_founded hv .lenient).1 _ hlenient).2⟩

end Larder
