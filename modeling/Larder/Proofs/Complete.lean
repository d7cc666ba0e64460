import Mathlib.Data.List.Forall2
import Larder.Proofs.LockStep

/-!
# Complete readings

A reading is complete when it ends with a value and leaves nothing out. Both modes have the same
complete readings, those in which the strict one ends with a value. `Reads` is that relation between
documents and values; the equivalences below take it apart along the type.
-/

namespace Larder

/-- The document is read, with nothing left out, as the value. -/
def Reads (c : Catalog) (t : Ty) (v : Json) (d : Datum) : Prop :=
  (reading c .strict t v).result = .ok d

/-- The members of an object are read, with nothing left out, as the value of a field. -/
def ReadsField (c : Catalog) (members : List (String × Json)) (f : Field) (d : Datum) : Prop :=
  (readingField c .strict members f).result = .ok d

variable {c : Catalog} {t : Ty} {v : Json} {d : Datum}

theorem decodeValue_complete {mode : Mode} :
    decodeValue c t ⟨mode⟩ v = .ok ⟨d, []⟩ ↔ Reads c t v d := by
  rw [decodeValue_complete_iff, decodeValue_eq_ok]
  exact ⟨fun h => h.1, fun h => ⟨h, (reading_lockStep c t v).dropped⟩⟩

/-- A strict reading reads just what there is a complete reading of. -/
theorem decodeValue_strict_iff {d : Decoded Datum} :
    decodeValue c t ⟨.strict⟩ v = .ok d ↔ Reads c t v d.value ∧ d.dropped = [] := by
  rw [decodeValue_eq_ok, (reading_lockStep c t v).dropped]
  exact and_congr_right fun _ => eq_comm

theorem Reads.unique {d' : Datum} (h : Reads c t v d) (h' : Reads c t v d') : d = d' := by
  exact Except.ok.inj (h.symm.trans h')

theorem Json.isNull_iff : v.isNull = true ↔ v = .null := by
  cases v <;> simp [Json.isNull]

/-! ## Along the type -/

theorem reads_scalar {s : Scalar} : Reads c (.scalar s) v d ↔ s.read v = .ok d := by
  unfold Reads
  rw [reading_scalar]
  cases s.read v with
  | ok a => exact ⟨fun h => by cases h; rfl, fun h => by cases h; rfl⟩
  | error e => exact ⟨nofun, nofun⟩

theorem reads_option : Reads c (.option t) v d ↔
    v.isNull = true ∧ d = .absent ∨ v.isNull = false ∧ ∃ e, Reads c t v e ∧ d = .present e := by
  unfold Reads
  rw [reading_option]
  cases v.isNull with
  | true =>
      rw [if_pos rfl]
      refine ⟨?_, ?_⟩
      · intro h
        exact Or.inl ⟨rfl, (Except.ok.inj h).symm⟩
      · intro h
        rcases h with ⟨-, rfl⟩ | ⟨h, -⟩
        · rfl
        · cases h
  | false =>
      rw [if_neg Bool.false_ne_true, Outcome.map_eq_ok]
      refine ⟨?_, ?_⟩
      · intro h
        obtain ⟨e, he, rfl⟩ := h
        exact Or.inr ⟨rfl, e, he, rfl⟩
      · intro h
        rcases h with ⟨h, -⟩ | ⟨-, e, he, rfl⟩
        · cases h
        · exact ⟨e, he, rfl⟩

theorem entry_strict_eq_ok {α : Type} {s : Segment} {o : Outcome α} {a? : Option α} :
    (Outcome.entry .strict s o).result = .ok a? ↔ ∃ a, o.result = .ok a ∧ a? = some a := by
  obtain ⟨result, dropped, log⟩ := o
  cases result with
  | error e => exact ⟨nofun, fun ⟨_, h, _⟩ => nomatch h⟩
  | ok a => exact ⟨fun h => ⟨a, rfl, by cases h; rfl⟩, fun ⟨_, h, ha⟩ => by cases h; rw [ha]; rfl⟩

theorem entry_strict_eq_error {α : Type} {s : Segment} {o : Outcome α} {e : DecodeError} :
    (Outcome.entry .strict s o).result = .error e ↔
      ∃ inner, o.result = .error inner ∧ e = inner.below (.step s) := by
  obtain ⟨result, dropped, log⟩ := o
  cases result with
  | error e' =>
      refine ⟨fun h => ⟨e', rfl, (Except.error.inj h).symm⟩, fun h => ?_⟩
      obtain ⟨_, h, rfl⟩ := h
      cases h
      rfl
  | ok a => exact ⟨nofun, fun ⟨_, h, _⟩ => nomatch h⟩

/-- Labelled entries are read one by one, and keep their labels. -/
theorem Outcome.entries_strict_eq_ok {κ : Type} {segment : κ → Segment} {read : Json → Outcome Datum}
    {es : List (κ × Json)} {xs : List (κ × Datum)} :
    (Outcome.entries segment .strict read es).result = .ok xs ↔
      List.Forall₂ (fun e x => x.1 = e.1 ∧ (read e.2).result = .ok x.2) es xs := by
  induction es generalizing xs with
  | nil =>
      rw [entries, List.forall₂_nil_left_iff]
      exact ⟨fun h => (Except.ok.inj h).symm, fun h => by rw [h]; rfl⟩
  | cons e rest ih =>
      obtain ⟨label, v⟩ := e
      rw [entries, List.forall₂_cons_left_iff]
      simp only [Outcome.parts_eq_ok, entry_strict_eq_ok, ih]
      refine ⟨?_, ?_⟩
      · intro h
        obtain ⟨_, xs', ⟨d, hd, rfl⟩, hxs', rfl⟩ := h
        exact ⟨(label, d), xs', ⟨rfl, hd⟩, hxs', rfl⟩
      · intro h
        obtain ⟨⟨_, d⟩, xs', ⟨rfl, hd⟩, hxs', rfl⟩ := h
        exact ⟨some d, xs', ⟨d, hd, rfl⟩, hxs', rfl⟩

/-- The entries of a map are read one by one, and keep their keys. -/
theorem readingEntries_strict_eq_ok {entries : List (String × Json)} {es : List (String × Datum)} :
    (readingEntries c .strict t entries).result = .ok es ↔
      List.Forall₂ (fun m e => e.1 = m.1 ∧ Reads c t m.2 e.2) entries es := by
  rw [readingEntries_eq_entries, Outcome.entries_strict_eq_ok]
  rfl

/-- The items of a list are read one by one. -/
theorem readingItems_strict_eq_ok {items : List Json} {index : Nat} {ds : List Datum} :
    (readingItems c .strict t index items).result = .ok ds ↔ List.Forall₂ (Reads c t) items ds := by
  induction items generalizing index ds with
  | nil =>
      rw [readingItems_nil, List.forall₂_nil_left_iff]
      exact ⟨fun h => (Except.ok.inj h).symm, fun h => by rw [h]; rfl⟩
  | cons v rest ih =>
      rw [readingItems_cons, List.forall₂_cons_left_iff]
      simp only [Outcome.parts_eq_ok, entry_strict_eq_ok, ih]
      refine ⟨?_, ?_⟩
      · intro h
        obtain ⟨_, ds', ⟨d, hd, rfl⟩, hds', rfl⟩ := h
        exact ⟨d, ds', hd, hds', rfl⟩
      · intro h
        obtain ⟨d, ds', hd, hds', rfl⟩ := h
        exact ⟨some d, ds', ⟨d, hd, rfl⟩, hds', rfl⟩

/-- The fields of a record are read one by one. -/
theorem readingFields_strict_eq_ok {members : List (String × Json)} {fields : List Field}
    {es : List (String × Datum)} :
    (readingFields c .strict members fields).result = .ok es ↔
      List.Forall₂ (fun f e => e.1 = f.key ∧ ReadsField c members f e.2) fields es := by
  induction fields generalizing es with
  | nil =>
      rw [readingFields_nil, List.forall₂_nil_left_iff]
      exact ⟨fun h => (Except.ok.inj h).symm, fun h => by rw [h]; rfl⟩
  | cons f rest ih =>
      rw [readingFields_cons, List.forall₂_cons_left_iff]
      simp only [Outcome.parts_eq_ok, ih]
      refine ⟨?_, ?_⟩
      · intro h
        obtain ⟨d, es', hd, hes', rfl⟩ := h
        exact ⟨(f.key, d), es', ⟨rfl, hd⟩, hes', rfl⟩
      · intro h
        obtain ⟨⟨_, d⟩, es', ⟨rfl, hd⟩, hes', rfl⟩ := h
        exact ⟨d, es', hd, hes', rfl⟩

theorem reads_list : Reads c (.list t) v d ↔
    v = .null ∧ d = .list [] ∨
      ∃ items ds, v = .array items ∧ List.Forall₂ (Reads c t) items ds ∧ d = .list ds := by
  unfold Reads
  rw [reading_list]
  refine ⟨?_, ?_⟩
  · intro h
    cases v with
    | null => exact Or.inl ⟨rfl, (Except.ok.inj h).symm⟩
    | array items =>
        obtain ⟨ds, hds, rfl⟩ := Outcome.map_eq_ok.mp h
        exact Or.inr ⟨items, ds, rfl, readingItems_strict_eq_ok.mp hds, rfl⟩
    | _ => cases h
  · intro h
    rcases h with ⟨rfl, rfl⟩ | ⟨items, ds, rfl, hds, rfl⟩
    · rfl
    · exact Outcome.map_eq_ok.mpr ⟨ds, readingItems_strict_eq_ok.mpr hds, rfl⟩

theorem reads_map : Reads c (.map t) v d ↔
    v = .null ∧ d = .map [] ∨
      ∃ members es, v = .object members ∧
        List.Forall₂ (fun m e => e.1 = m.1 ∧ Reads c t m.2 e.2) members es ∧ d = .map es := by
  unfold Reads
  rw [reading_map]
  refine ⟨?_, ?_⟩
  · intro h
    cases v with
    | null => exact Or.inl ⟨rfl, (Except.ok.inj h).symm⟩
    | object members =>
        obtain ⟨es, hes, rfl⟩ := Outcome.map_eq_ok.mp h
        exact Or.inr ⟨members, es, rfl, readingEntries_strict_eq_ok.mp hes, rfl⟩
    | _ => cases h
  · intro h
    rcases h with ⟨rfl, rfl⟩ | ⟨members, es, rfl, hes, rfl⟩
    · rfl
    · exact Outcome.map_eq_ok.mpr ⟨es, readingEntries_strict_eq_ok.mpr hes, rfl⟩

theorem reads_record {name : String} : Reads c (.record name) v d ↔
    ∃ members es, v = .object members ∧
      List.Forall₂ (fun f e => e.1 = f.key ∧ ReadsField c members f e.2) (c.fields name) es ∧
      d = .record es := by
  unfold Reads
  rw [reading_record]
  refine ⟨?_, ?_⟩
  · intro h
    cases v with
    | object members =>
        obtain ⟨es, hes, rfl⟩ := Outcome.map_eq_ok.mp h
        exact ⟨members, es, rfl, readingFields_strict_eq_ok.mp hes, rfl⟩
    | _ => cases h
  · intro h
    obtain ⟨members, es, rfl, hes, rfl⟩ := h
    exact Outcome.map_eq_ok.mpr ⟨es, readingFields_strict_eq_ok.mpr hes, rfl⟩

theorem reads_envelope : Reads c (.envelope t) v d ↔
    ∃ members, v = .object members ∧
      ((∃ w e, members.lookup "ok" = some w ∧ w.isNull = false ∧ Reads c t w e ∧ d = .ok e) ∨
        members.lookup "ok" = none ∧ ∃ w f, members.lookup "err" = some w ∧ w.isNull = false ∧
          ((Failure.decode w).outcome .strict).result = .ok f ∧ d = .err f) := by
  unfold Reads
  rw [reading_envelope]
  refine ⟨?_, ?_⟩
  · intro h
    cases v with
    | object members =>
        refine ⟨members, rfl, ?_⟩
        dsimp only at h
        -- an object with a payload is never read as a failure
        split at h
        · obtain ⟨e, he, rfl⟩ := Outcome.map_eq_ok.mp h
          obtain ⟨w, hw, hnull, hr⟩ := Outcome.required_eq_ok.mp he
          exact Or.inl ⟨w, e, hw, hnull, hr, rfl⟩
        · rename_i hok
          split at h
          · obtain ⟨f, hf, rfl⟩ := Outcome.map_eq_ok.mp h
            obtain ⟨w, hw, hnull, hr⟩ := Outcome.required_eq_ok.mp hf
            exact Or.inr ⟨Option.not_isSome_iff_eq_none.mp hok, w, f, hw, hnull, hr, rfl⟩
          · cases h
    | _ => cases h
  · intro h
    rcases h with ⟨members, rfl, ⟨w, e, hw, hnull, hr, rfl⟩ | ⟨hok, w, f, hw, hnull, hr, rfl⟩⟩
    · dsimp only
      rw [if_pos (Option.isSome_iff_exists.mpr ⟨_, hw⟩)]
      exact Outcome.map_eq_ok.mpr ⟨e, Outcome.required_eq_ok.mpr ⟨w, hw, hnull, hr⟩, rfl⟩
    · dsimp only
      rw [if_neg (Option.not_isSome_iff_eq_none.mpr hok), if_pos (Option.isSome_iff_exists.mpr ⟨_, hw⟩)]
      exact Outcome.map_eq_ok.mpr ⟨f, Outcome.required_eq_ok.mpr ⟨w, hw, hnull, hr⟩, rfl⟩

/-- A field that has to be there is read from a member that is not null. -/
theorem readsField_required {members : List (String × Json)} {f : Field}
    (hf : f.required = true) : ReadsField c members f d ↔
      ∃ w, members.lookup f.key = some w ∧ w.isNull = false ∧ Reads c f.ty w d := by
  unfold ReadsField
  rw [readingField_eq, if_pos hf, Outcome.required_eq_ok]
  rfl

/-- Any other field has no value, or is read from a member that is not null. -/
theorem readsField_optional {members : List (String × Json)} {f : Field}
    (hf : f.required = false) : ReadsField c members f d ↔
      (∀ w, members.lookup f.key = some w → w.isNull = true) ∧ d = .absent ∨
      ∃ w e, members.lookup f.key = some w ∧ w.isNull = false ∧ Reads c f.ty w e ∧
        d = .present e := by
  unfold ReadsField
  rw [readingField_eq, if_neg (ne_true_of_eq_false hf), Outcome.map_eq_ok]
  simp only [Outcome.optional_eq_ok]
  refine ⟨?_, ?_⟩
  · intro h
    rcases h with ⟨_, ⟨h, rfl⟩ | ⟨w, e, hw, hnull, he, rfl⟩, rfl⟩
    · exact Or.inl ⟨h, rfl⟩
    · exact Or.inr ⟨w, e, hw, hnull, he, rfl⟩
  · intro h
    rcases h with ⟨h, rfl⟩ | ⟨w, e, hw, hnull, he, rfl⟩
    · exact ⟨none, Or.inl ⟨h, rfl⟩, rfl⟩
    · exact ⟨some e, Or.inr ⟨w, e, hw, hnull, he, rfl⟩, rfl⟩

/-- A field is read from its member as what it holds, but if it has to be there, not from null. -/
theorem readsField_of_lookup {members : List (String × Json)} {f : Field} {w : Json}
    (hw : members.lookup f.key = some w) : ReadsField c members f d ↔
      Reads c f.held w d ∧ (f.required = true → w.isNull = false) := by
  unfold Field.held
  cases hf : f.required with
  | true =>
      rw [readsField_required hf, hw, if_pos rfl]
      simp [and_comm]
  | false =>
      rw [readsField_optional hf, hw, if_neg Bool.false_ne_true, reads_option]
      simp

/-- Without its member a field is read as nothing, if it need not be there. -/
theorem readsField_of_lookup_none {members : List (String × Json)} {f : Field}
    (hw : members.lookup f.key = none) :
    ReadsField c members f d ↔ f.required = false ∧ d = .absent := by
  cases hf : f.required with
  | true =>
      rw [readsField_required hf, hw]
      simp
  | false =>
      rw [readsField_optional hf, hw]
      simp

/-! ## What can be read -/

/-- There is a list whose elements are related to those of another just when each of those is
related to something. -/
theorem exists_forall₂_iff {α β : Type} {R : α → β → Prop} {xs : List α} :
    (∃ ys, List.Forall₂ R xs ys) ↔ ∀ x ∈ xs, ∃ y, R x y := by
  induction xs with
  | nil => exact ⟨fun _ => nofun, fun _ => ⟨[], .nil⟩⟩
  | cons x xs ih =>
      rw [List.forall_mem_cons, ← ih]
      refine ⟨?_, ?_⟩
      · intro h
        obtain ⟨ys, h⟩ := h
        cases h with
        | cons hx hxs => exact ⟨⟨_, hx⟩, _, hxs⟩
      · intro h
        obtain ⟨⟨y, hy⟩, ys, hys⟩ := h
        exact ⟨y :: ys, .cons hy hys⟩

theorem exists_reads_option :
    (∃ d, Reads c (.option t) v d) ↔ v = .null ∨ ∃ d, Reads c t v d := by
  simp only [reads_option]
  cases hnull : v.isNull with
  | true => simp [Json.isNull_iff.mp hnull]
  | false =>
      have hne : v ≠ .null := fun h => by
        rw [Json.isNull_iff.mpr h] at hnull
        cases hnull
      simp [hne]

theorem exists_reads_list : (∃ d, Reads c (.list t) v d) ↔
    v = .null ∨ ∃ items, v = .array items ∧ ∀ w ∈ items, ∃ d, Reads c t w d := by
  simp only [← exists_forall₂_iff, reads_list]
  refine ⟨?_, ?_⟩
  · intro h
    obtain ⟨d, h⟩ := h
    rcases h with ⟨hnull, -⟩ | ⟨items, ds, hv, hds, -⟩
    · exact Or.inl hnull
    · exact Or.inr ⟨items, hv, ds, hds⟩
  · intro h
    rcases h with hnull | ⟨items, hv, ds, hds⟩
    · exact ⟨_, Or.inl ⟨hnull, rfl⟩⟩
    · exact ⟨_, Or.inr ⟨items, ds, hv, hds, rfl⟩⟩

theorem exists_reads_map : (∃ d, Reads c (.map t) v d) ↔
    v = .null ∨ ∃ members, v = .object members ∧ ∀ m ∈ members, ∃ d, Reads c t m.2 d := by
  have hentry : ∀ m : String × Json,
      (∃ d, Reads c t m.2 d) ↔ ∃ e : String × Datum, e.1 = m.1 ∧ Reads c t m.2 e.2 := fun m =>
    ⟨fun ⟨d, hd⟩ => ⟨(m.1, d), rfl, hd⟩, fun ⟨e, _, he⟩ => ⟨e.2, he⟩⟩
  simp only [hentry, ← exists_forall₂_iff, reads_map]
  refine ⟨?_, ?_⟩
  · intro h
    obtain ⟨d, h⟩ := h
    rcases h with ⟨hnull, -⟩ | ⟨members, es, hv, hes, -⟩
    · exact Or.inl hnull
    · exact Or.inr ⟨members, hv, es, hes⟩
  · intro h
    rcases h with hnull | ⟨members, hv, es, hes⟩
    · exact ⟨_, Or.inl ⟨hnull, rfl⟩⟩
    · exact ⟨_, Or.inr ⟨members, es, hv, hes, rfl⟩⟩

theorem exists_reads_record {name : String} : (∃ d, Reads c (.record name) v d) ↔
    ∃ members, v = .object members ∧ ∀ f ∈ c.fields name, ∃ d, ReadsField c members f d := by
  have hfield : ∀ members f, (∃ d, ReadsField c members f d) ↔
      ∃ e : String × Datum, e.1 = f.key ∧ ReadsField c members f e.2 := fun members f =>
    ⟨fun ⟨d, hd⟩ => ⟨(f.key, d), rfl, hd⟩, fun ⟨e, _, he⟩ => ⟨e.2, he⟩⟩
  simp only [hfield, ← exists_forall₂_iff, reads_record]
  refine ⟨?_, ?_⟩
  · intro h
    obtain ⟨d, members, es, hv, hes, _⟩ := h
    exact ⟨members, hv, es, hes⟩
  · intro h
    obtain ⟨members, hv, es, hes⟩ := h
    exact ⟨_, members, es, hv, hes, rfl⟩

end Larder
