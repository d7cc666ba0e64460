import Larder.Proofs.Reading

/-!
# Why a reading fails

A reading that fails stops at the first thing that is wrong. `Outcome.error?` is the error it stops
with, if any: of two parts that are read one after the other, it is that of the first, or else that
of the second. So the error of a record is that of its first bad field, in the order of the
declaration (`reading_record_error?`), and what is wrong with a field is said without reading the
others (`Field.complaint`).
-/

namespace Larder

variable {α β γ : Type} {c : Catalog} {mode : Mode} {t : Ty}

/-- A member is absent, or null, or has something to be read. -/
theorem member_cases (members : List (String × Json)) (key : String) :
    members.lookup key = none ∨ members.lookup key = some .null ∨
      ∃ v, members.lookup key = some v ∧ v.isNull = false := by
  cases members.lookup key with
  | none => exact Or.inl rfl
  | some v =>
      cases v with
      | null => exact Or.inr (Or.inl rfl)
      | _ => exact Or.inr (Or.inr ⟨_, rfl, rfl⟩)

/-! ## The error of an outcome -/

namespace Outcome

/-- The error that an outcome ends with, if it does not end with a value. -/
def error? (o : Outcome α) : Option DecodeError :=
  match o.result with
  | .ok _ => none
  | .error e => some e

theorem error?_eq_some {o : Outcome α} {e : DecodeError} :
    o.error? = some e ↔ o.result = .error e := by
  unfold error?
  cases o.result with
  | ok a => exact ⟨nofun, nofun⟩
  | error e' => exact ⟨fun h => congrArg _ (Option.some.inj h), fun h => congrArg _ (Except.error.inj h)⟩

theorem error?_eq_none {o : Outcome α} : o.error? = none ↔ ∃ a, o.result = .ok a := by
  unfold error?
  cases o.result with
  | ok a => exact ⟨fun _ => ⟨a, rfl⟩, fun _ => rfl⟩
  | error e => exact ⟨nofun, nofun⟩

@[simp] theorem error?_below (p : Path) (o : Outcome α) :
    (o.below p).error? = o.error?.map (DecodeError.below p) := by
  obtain ⟨result, dropped, log⟩ := o
  cases result <;> rfl

@[simp] theorem error?_map (f : α → β) (o : Outcome α) : (f <$> o).error? = o.error? := by
  obtain ⟨result, dropped, log⟩ := o
  cases result <;> rfl

/-- Of two parts, the first that fails decides. -/
theorem error?_parts (o : Outcome α) (o' : Outcome β) (f : α → β → γ) :
    (do let a ← o; let b ← o'; pure (f a b)).error? = o.error?.or o'.error? := by
  obtain ⟨result, dropped, log⟩ := o
  cases result with
  | error e => rfl
  | ok a => exact error?_map (f a) o'

/-- What is wrong with a member that has to be there is wrong with the member itself or with what is
in it. -/
theorem error?_required {members : List (String × Json)} {key : String} {read : Json → Outcome α}
    {e : DecodeError} (h : (required members key read).error? = some e) :
    e.path = .step (.key key) ∨
      ∃ w e', members.lookup key = some w ∧ (read w).error? = some e' ∧
        e = e'.below (.step (.key key)) := by
  rcases member_cases members key with hw | hw | ⟨w, hw, hnull⟩
  · unfold required at h
    rw [hw] at h
    cases h
    exact Or.inl rfl
  · unfold required at h
    rw [hw] at h
    cases h
    exact Or.inl rfl
  · rw [required_of_lookup hw hnull, error?_below] at h
    obtain ⟨e', he', rfl⟩ := Option.map_eq_some_iff.mp h
    exact Or.inr ⟨w, e', hw, he', rfl⟩

end Outcome

/-- The error of a whole reading is that of its outcome. -/
theorem decodeValue_eq_error_iff_error? {v : Json} {e : DecodeError} :
    decodeValue c t ⟨mode⟩ v = .error e ↔ (reading c mode t v).error? = some e := by
  rw [decodeValue_eq_error, Outcome.error?_eq_some]

/-! ## What is wrong with a field -/

/-- What is wrong with the member that a field is read from, if anything is. A member that is absent
or null is wrong if the field has to be there, and any other is if it cannot be read by itself. -/
def Field.complaint (c : Catalog) (mode : Mode) (members : List (String × Json)) (f : Field) :
    Option DecodeError :=
  let here := Path.step (.key f.key)
  match members.lookup f.key with
  | none => if f.required then some ⟨here, .missingField⟩ else none
  | some .null => if f.required then some ⟨here, .nullField⟩ else none
  | some v =>
    match decodeValue c f.ty ⟨mode⟩ v with
    | .ok _ => none
    | .error e => some (e.below here)

/-- A complaint looks at the member of the field only. -/
theorem Field.complaint_congr {f : Field} {members members' : List (String × Json)}
    (h : members.lookup f.key = members'.lookup f.key) :
    f.complaint c mode members = f.complaint c mode members' := by
  unfold Field.complaint
  rw [h]

/-- A member that is not null is read by itself, and what is wrong with it lies one step deeper. -/
theorem Field.complaint_of_lookup {f : Field} {members : List (String × Json)} {v : Json}
    (hv : members.lookup f.key = some v) (hnull : v.isNull = false) :
    f.complaint c mode members =
      (reading c mode f.ty v).error?.map (DecodeError.below (.step (.key f.key))) := by
  unfold Field.complaint
  rw [hv]
  cases v with
  | null => cases hnull
  | _ =>
      dsimp only
      rw [decodeValue_eq, Outcome.decoded, Outcome.error?]
      cases (reading c mode f.ty _).result <;> rfl

/-- A complaint is about the member itself or about what is in it. -/
theorem Field.complaint_eq_some {f : Field} {members : List (String × Json)} {e : DecodeError}
    (h : f.complaint c mode members = some e) :
    e.path = .step (.key f.key) ∨
      ∃ w e', members.lookup f.key = some w ∧ (reading c mode f.ty w).error? = some e' ∧
        e = e'.below (.step (.key f.key)) := by
  have here : ∀ {fault}, (if f.required then
      some (⟨.step (.key f.key), fault⟩ : DecodeError) else none) = some e →
        e.path = .step (.key f.key) := by
    intro fault h
    split at h
    · cases h
      rfl
    · cases h
  rcases member_cases members f.key with hw | hw | ⟨w, hw, hnull⟩
  · unfold Field.complaint at h
    rw [hw] at h
    exact Or.inl (here h)
  · unfold Field.complaint at h
    rw [hw] at h
    exact Or.inl (here h)
  · rw [Field.complaint_of_lookup hw hnull] at h
    obtain ⟨e', he', rfl⟩ := Option.map_eq_some_iff.mp h
    exact Or.inr ⟨w, e', hw, he', rfl⟩

/-- A field is read just if there is nothing to complain of. -/
theorem readingField_error? (members : List (String × Json)) (f : Field) :
    (readingField c mode members f).error? = f.complaint c mode members := by
  rw [readingField_eq]
  rcases member_cases members f.key with hv | hv | ⟨v, hv, hnull⟩
  · unfold Field.complaint Outcome.required Outcome.optional
    rw [hv]
    cases f.required <;> rfl
  · unfold Field.complaint Outcome.required Outcome.optional
    rw [hv]
    cases f.required <;> rfl
  · rw [Field.complaint_of_lookup hv hnull, Outcome.required_of_lookup hv hnull,
      Outcome.optional_of_lookup hv hnull]
    cases f.required <;> simp

/-! ## What is wrong with a record -/

theorem readingFields_error? (members : List (String × Json)) : ∀ fields : List Field,
    (readingFields c mode members fields).error? =
      fields.findSome? (Field.complaint c mode members)
  | [] => by
      rw [readingFields_nil]
      rfl
  | f :: rest => by
      rw [readingFields_cons, Outcome.error?_parts, readingField_error?,
        readingFields_error? members rest, List.findSome?_cons]
      cases f.complaint c mode members <;> rfl

/-- What is first found in two ways is the same if the ways agree. -/
theorem findSome?_congr {f g : α → Option β} : ∀ {l : List α}, (∀ x ∈ l, f x = g x) →
    l.findSome? f = l.findSome? g
  | [], _ => rfl
  | x :: l, h => by
      have hrest : l.findSome? f = l.findSome? g :=
        findSome?_congr fun y hy => h y (List.mem_cons_of_mem x hy)
      rw [List.findSome?_cons, List.findSome?_cons, h x List.mem_cons_self, hrest]

/-- **The first bad field decides.** What is wrong with a record is what is wrong with the first of
its fields, in the order of the declaration, with which anything is wrong. -/
theorem reading_record_error? (name : String) (members : List (String × Json)) :
    (reading c mode (.record name) (.object members)).error? =
      (c.fields name).findSome? (Field.complaint c mode members) := by
  rw [reading_record]
  dsimp only
  rw [Outcome.error?_map, readingFields_error?]

/-- What is wrong with an envelope that has a payload is what is wrong with the payload. -/
theorem reading_envelope_error? {members : List (String × Json)}
    (h : (members.lookup "ok").isSome = true) :
    (reading c mode (.envelope t) (.object members)).error? =
      (Field.req "ok" t).complaint c mode members := by
  rw [reading_envelope]
  dsimp only
  rw [if_pos h, Outcome.error?_map, ← readingField_error?, readingField_eq]
  rfl

end Larder
