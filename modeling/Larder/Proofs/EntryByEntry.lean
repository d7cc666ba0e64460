import Larder.Decode.Collection
import Larder.Proofs.Complete

/-!
# Collections are read entry by entry

One decoder goes through all entries of a collection, with one path and one record of what has been
left out. Still no entry influences another: each comes to what it would come to by itself, with its
own place in front of every path. `EntryByEntry` says what follows from that for the collection in
either mode.

Lists and maps differ in how they label their entries and in what they are made into (`Collection`);
the law is one for both. It is proved of `Outcome.entries`, the outcome of reading labelled entries
one after the other, by induction on the entries.
-/

namespace Larder

variable {κ α β γ : Type}

/-! ## Kinds of collections -/

/-- A kind of collection, whose entries bear labels. -/
structure Collection (κ : Type) where
  segment : κ → Segment
  /-- The entries of a document that is such a collection, in order. -/
  entries? : Json → Option (List (κ × Json))
  gather : List (κ × Datum) → Datum
  /-- What such a document is called. -/
  expected : String

namespace Collection

/-- Arrays, whose entries bear their indices. -/
def list : Collection Nat where
  segment := .index
  entries?
    | .array items => some (items.zipIdx.map Prod.swap)
    | _ => none
  gather entries := .list (entries.map Prod.snd)
  expected := "array"

/-- Objects, whose entries bear their keys. -/
def map : Collection String where
  segment := .key
  entries?
    | .object members => some members
    | _ => none
  gather := .map
  expected := "object"

end Collection

/-! ## The law -/

/-- What a lenient reading of a collection reports of an entry, if this is what reading the entry by
itself comes to: what was left out inside it, or the entry itself. -/
def dropsAt (s : Segment) : Except DecodeError (Decoded α) → List Drop
  | .ok d => d.dropped.map (Drop.below (.step s))
  | .error e => [⟨.step s, e.below (.step s)⟩]

/-- The first entry that cannot be read by itself bears this label, and this is its error. -/
def FirstFailure (read : Json → Except DecodeError (Decoded α)) (entries : List (κ × Json))
    (label : κ) (e : DecodeError) : Prop :=
  ∃ before v after, entries = before ++ (label, v) :: after ∧
    (∀ b ∈ before, ∃ d, read b.2 = .ok d) ∧ read v = .error e

/-- Collections are read entry by entry: `whole` reads the collection, and `read` reads an entry by
itself. -/
structure EntryByEntry (k : Collection κ)
    (read whole : Mode → Json → Except DecodeError (Decoded Datum)) : Prop where
  /-- A lenient reading has the values of the entries that can be read by themselves, in order, and
  reports of each entry what reading it by itself says. -/
  lenient : ∀ v entries, k.entries? v = some entries →
    whole .lenient v = .ok
      ⟨k.gather (entries.filterMap fun e =>
          (read .lenient e.2).toOption.map fun d => (e.1, d.value)),
        entries.flatMap fun e => dropsAt (k.segment e.1) (read .lenient e.2)⟩
  /-- A strict reading ends with a value when every entry can be read by itself, and has them
  all. -/
  strict_ok : ∀ v entries d, k.entries? v = some entries →
    (whole .strict v = .ok d ↔
      ∃ values, List.Forall₂ (fun e x => x.1 = e.1 ∧ read .strict e.2 = .ok ⟨x.2, []⟩)
        entries values ∧ d = ⟨k.gather values, []⟩)
  /-- Otherwise it ends with the error of the first entry that cannot be read by itself. -/
  strict_error : ∀ v entries e, k.entries? v = some entries →
    (whole .strict v = .error e ↔
      ∃ label inner, FirstFailure (read .strict) entries label inner ∧
        e = inner.below (.step (k.segment label)))
  /-- Null is an empty collection. -/
  null : ∀ mode, whole mode .null = .ok ⟨k.gather [], []⟩
  /-- Nothing else is a collection. -/
  other : ∀ mode v, v.isNull = false → k.entries? v = none →
    whole mode v = .error ⟨.root, .unexpected k.expected v⟩

theorem not_firstFailure_nil {read : Json → Except DecodeError (Decoded α)} {label : κ}
    {e : DecodeError} : ¬FirstFailure read [] label e := by
  intro h
  obtain ⟨before, v, after, h, -⟩ := h
  simp at h

/-- The first entry is the first failure, or it can be read and the failure comes later. -/
theorem firstFailure_cons {read : Json → Except DecodeError (Decoded α)} {l label : κ} {v : Json}
    {rest : List (κ × Json)} {e : DecodeError} :
    FirstFailure read ((l, v) :: rest) label e ↔
      l = label ∧ read v = .error e ∨ (∃ d, read v = .ok d) ∧ FirstFailure read rest label e := by
  refine ⟨?_, ?_⟩
  · intro h
    obtain ⟨before, w, after, h, hbefore, hw⟩ := h
    cases before with
    | nil =>
        cases h
        exact Or.inl ⟨rfl, hw⟩
    | cons b before =>
        cases h
        exact Or.inr ⟨hbefore (l, v) List.mem_cons_self, before, w, after, rfl,
          fun b hb => hbefore b (List.mem_cons_of_mem _ hb), hw⟩
  · intro h
    rcases h with ⟨rfl, hv⟩ | ⟨hv, before, w, after, rfl, hbefore, hw⟩
    · exact ⟨[], v, rest, rfl, nofun, hv⟩
    · exact ⟨(l, v) :: before, w, after, rfl, List.forall_mem_cons.mpr ⟨hv, hbefore⟩, hw⟩

/-! ## Entries one after the other -/

namespace Outcome

theorem decoded_parts {o : Outcome α} {o' : Outcome β} {f : α → β → γ} {a : Decoded α}
    {b : Decoded β} (ho : o.decoded = .ok a) (ho' : o'.decoded = .ok b) :
    (do let x ← o; let y ← o'; pure (f x y)).decoded =
      .ok ⟨f a.value b.value, a.dropped ++ b.dropped⟩ := by
  obtain ⟨ha, had⟩ := decoded_eq_ok.mp ho
  obtain ⟨hb, hbd⟩ := decoded_eq_ok.mp ho'
  refine decoded_eq_ok.mpr ⟨parts_eq_ok.mpr ⟨_, _, ha, hb, rfl⟩, ?_⟩
  rw [dropped_bind ha, dropped_bind hb, had, hbd]
  exact congrArg _ (List.append_nil _)

/-- In lenient mode every entry ends with a value or is left out. -/
theorem entry_lenient (s : Segment) (o : Outcome α) :
    (entry .lenient s o).decoded =
      .ok ⟨o.decoded.toOption.map Decoded.value, dropsAt s o.decoded⟩ := by
  obtain ⟨result, dropped, log⟩ := o
  cases result <;> rfl

theorem entries_lenient (segment : κ → Segment) (read : Json → Outcome Datum) :
    ∀ es : List (κ × Json), (entries segment .lenient read es).decoded = .ok
      ⟨es.filterMap fun e => (read e.2).decoded.toOption.map fun d => (e.1, d.value),
        es.flatMap fun e => dropsAt (segment e.1) (read e.2).decoded⟩
  | [] => rfl
  | (label, v) :: rest => by
      have hrest := entries_lenient segment read rest
      rw [entries, decoded_parts (entry_lenient (segment label) (read v)) hrest,
        List.filterMap_cons, List.flatMap_cons]
      cases (read v).decoded <;> rfl

/-- Entries that are left out take their labels with them; the others keep their order. -/
theorem entries_labels_sublist {segment : κ → Segment} {mode : Mode} {read : Json → Outcome Datum} :
    ∀ {es : List (κ × Json)} {xs : List (κ × Datum)},
      (entries segment mode read es).result = .ok xs →
        (xs.map Prod.fst).Sublist (es.map Prod.fst)
  | [], _, h => by
      cases h
      exact .slnil
  | (label, v) :: rest, _, h => by
      rw [entries] at h
      obtain ⟨d?, ds, -, hds, rfl⟩ := parts_eq_ok.mp h
      have hrest := entries_labels_sublist hds
      cases d? with
      | none => exact hrest.cons label
      | some d => exact hrest.cons_cons label

/-- In either mode an entry that can be read by itself is kept, and no other. -/
theorem entry_eq_ok {s : Segment} {mode : Mode} {o : Outcome α} {a? : Option α}
    (h : (entry mode s o).result = .ok a?) (a : α) : a? = some a ↔ o.result = .ok a := by
  obtain ⟨result, dropped, log⟩ := o
  cases result with
  | ok b =>
      cases h
      exact ⟨fun hb => congrArg _ (Option.some.inj hb), fun hb => congrArg _ (Except.ok.inj hb)⟩
  | error e =>
      cases mode with
      | strict => cases h
      | lenient =>
          cases h
          exact ⟨nofun, nofun⟩

theorem mem_entries {segment : κ → Segment} {mode : Mode} {read : Json → Outcome Datum} :
    ∀ {es : List (κ × Json)} {xs : List (κ × Datum)},
      (entries segment mode read es).result = .ok xs → ∀ label d,
        ((label, d) ∈ xs ↔ ∃ v, (label, v) ∈ es ∧ (read v).result = .ok d)
  | [], _, h, _, _ => by
      cases h
      exact ⟨nofun, fun ⟨_, hv, _⟩ => nomatch hv⟩
  | (l, v) :: rest, _, h, label, d => by
      rw [entries] at h
      obtain ⟨d?, ds, hd, hds, rfl⟩ := parts_eq_ok.mp h
      have hfirst : (label, d) ∈ d?.toList.map (l, ·) ↔ label = l ∧ (read v).result = .ok d := by
        rw [← entry_eq_ok hd, List.mem_map]
        cases d? <;> simp [and_comm, eq_comm]
      rw [List.mem_append, hfirst, mem_entries hds]
      simp only [List.mem_cons, Prod.mk.injEq, or_and_right, exists_or, and_assoc,
        exists_and_left, exists_eq_left]

theorem dropped_entries {segment : κ → Segment} {read : Json → Outcome Datum}
    (hread : ∀ v, (read v).dropped = []) :
    ∀ es : List (κ × Json), (entries segment .strict read es).dropped = []
  | [] => rfl
  | (label, v) :: rest => by
      have hentry : (entry .strict (segment label) (read v)).dropped = [] := by
        have hv := hread v
        generalize read v = o at hv
        obtain ⟨result, dropped, log⟩ := o
        subst hv
        cases result <;> rfl
      exact dropped_bind_nil hentry fun _ =>
        dropped_bind_nil (dropped_entries hread rest) fun _ => rfl

/-- The error of a strict reading is that of the first entry that cannot be read by itself. -/
theorem entries_strict_eq_error {segment : κ → Segment} {read : Json → Outcome Datum}
    {e : DecodeError} : ∀ {es : List (κ × Json)},
      (entries segment .strict read es).result = .error e ↔
        ∃ label inner, FirstFailure (fun v => (read v).decoded) es label inner ∧
          e = inner.below (.step (segment label))
  | [] => ⟨nofun, fun ⟨_, _, h, _⟩ => absurd h not_firstFailure_nil⟩
  | (l, v) :: rest => by
      have hread : (∃ a, (entry .strict (segment l) (read v)).result = .ok a) ↔
          ∃ d, (read v).decoded = .ok d := by
        simp only [entry_strict_eq_ok, decoded_eq_ok]
        refine ⟨?_, ?_⟩
        · intro h
          obtain ⟨_, d, hd, rfl⟩ := h
          exact ⟨⟨d, _⟩, hd, rfl⟩
        · intro h
          obtain ⟨d, hd, -⟩ := h
          exact ⟨_, d.value, hd, rfl⟩
      have ih : (entries segment .strict read rest).result = .error e ↔ _ := entries_strict_eq_error
      rw [entries, parts_eq_error, entry_strict_eq_error, hread, ih]
      simp only [firstFailure_cons, decoded_eq_error]
      refine ⟨?_, ?_⟩
      · intro h
        rcases h with ⟨inner, hv, he⟩ | ⟨hv, label, inner, hrest, he⟩
        · exact ⟨l, inner, Or.inl ⟨rfl, hv⟩, he⟩
        · exact ⟨label, inner, Or.inr ⟨hv, hrest⟩, he⟩
      · intro h
        obtain ⟨label, inner, ⟨rfl, hv⟩ | ⟨hv, hrest⟩, he⟩ := h
        · exact Or.inl ⟨inner, hv, he⟩
        · exact Or.inr ⟨hv, label, inner, hrest, he⟩

end Outcome

/-! ## Lists and maps -/

/-- A collection is read entry by entry if it comes to what its entries come to, one after the
other. -/
theorem EntryByEntry.of_entries {k : Collection κ}
    {read whole : Mode → Json → Except DecodeError (Decoded Datum)} {o : Mode → Json → Outcome Datum}
    (hread : ∀ mode v, read mode v = (o mode v).decoded)
    (hstrict : ∀ v, (o .strict v).dropped = [])
    (hwhole : ∀ mode v entries, k.entries? v = some entries →
      whole mode v = (k.gather <$> Outcome.entries k.segment mode (o mode) entries).decoded)
    (null : ∀ mode, whole mode .null = .ok ⟨k.gather [], []⟩)
    (other : ∀ mode v, v.isNull = false → k.entries? v = none →
      whole mode v = .error ⟨.root, .unexpected k.expected v⟩) : EntryByEntry k read whole where
  lenient v entries hv := by
    rw [hwhole .lenient v entries hv, Outcome.decoded_map, Outcome.entries_lenient]
    simp only [hread]
    rfl
  strict_ok v entries d hv := by
    have hdropped : (Outcome.entries k.segment .strict (o .strict) entries).dropped = [] :=
      Outcome.dropped_entries hstrict entries
    have hcomplete : ∀ w x, read .strict w = .ok ⟨x, []⟩ ↔ (o .strict w).result = .ok x := by
      intro w x
      rw [hread, Outcome.decoded_eq_ok, hstrict]
      exact and_iff_left rfl
    rw [hwhole .strict v entries hv, Outcome.decoded_eq_ok, Outcome.map_eq_ok, Outcome.dropped_map,
      hdropped]
    simp only [Outcome.entries_strict_eq_ok, hcomplete]
    obtain ⟨value, dropped⟩ := d
    refine ⟨?_, ?_⟩
    · intro h
      obtain ⟨⟨values, hvalues, rfl⟩, rfl⟩ := h
      exact ⟨values, hvalues, rfl⟩
    · intro h
      obtain ⟨values, hvalues, h⟩ := h
      cases h
      exact ⟨⟨values, hvalues, rfl⟩, rfl⟩
  strict_error v entries e hv := by
    rw [hwhole .strict v entries hv, Outcome.decoded_eq_error, Outcome.map_eq_error,
      Outcome.entries_strict_eq_error, funext (hread .strict)]
  null := null
  other := other

variable {c : Catalog} {t : Ty}

/-- An array is read entry by entry. -/
theorem decodeList_entryByEntry (c : Catalog) (t : Ty) :
    EntryByEntry .list (fun mode => decodeValue c t ⟨mode⟩) (decodeList c t) := by
  have hlist : ∀ mode v, decodeList c t mode v = (reading c mode (.list t) v).decoded :=
    fun mode v => decodeValue_eq c (.list t) mode v
  refine .of_entries (fun mode v => decodeValue_eq c t mode v)
    (fun v => (reading_lockStep c t v).dropped) (fun mode v entries hv => ?_) (fun mode => ?_)
    fun mode v hnull hv => ?_
  · cases v with
    | array items =>
        cases hv
        rw [hlist, reading_list]
        dsimp only
        rw [readingItems_eq_entries, Outcome.map_map]
        rfl
    | _ => cases hv
  · rw [hlist, reading_list]
    rfl
  · rw [hlist, reading_list]
    cases v with
    | null => cases hnull
    | array items => cases hv
    | _ => rfl

/-- An object is read entry by entry. -/
theorem decodeMap_entryByEntry (c : Catalog) (t : Ty) :
    EntryByEntry .map (fun mode => decodeValue c t ⟨mode⟩) (decodeMap c t) := by
  have hmap : ∀ mode v, decodeMap c t mode v = (reading c mode (.map t) v).decoded :=
    fun mode v => decodeValue_eq c (.map t) mode v
  refine .of_entries (fun mode v => decodeValue_eq c t mode v)
    (fun v => (reading_lockStep c t v).dropped) (fun mode v entries hv => ?_) (fun mode => ?_)
    fun mode v hnull hv => ?_
  · cases v with
    | object members =>
        cases hv
        rw [hmap, reading_map]
        dsimp only
        rw [readingEntries_eq_entries]
        rfl
    | _ => cases hv
  · rw [hmap, reading_map]
    rfl
  · rw [hmap, reading_map]
    cases v with
    | null => cases hnull
    | object members => cases hv
    | _ => rfl

/-- A map that is read from an object whose keys are in order has its keys in order. -/
theorem decodeMap_sorted {mode : Mode} {v : Json} (hv : v.WellFormed) {d : Decoded Datum}
    (h : decodeMap c t mode v = .ok d) :
    ∃ entries, d.value = .map entries ∧ Keyed.Sorted entries := by
  obtain ⟨hresult, -⟩ := (decodeValue_eq_ok (c := c) (t := .map t) (v := v)).mp h
  rw [reading_map] at hresult
  cases v with
  | null => exact ⟨[], (Except.ok.inj hresult).symm, .nil⟩
  | object members =>
      obtain ⟨entries, hentries, hd⟩ := Outcome.map_eq_ok.mp hresult
      rw [readingEntries_eq_entries] at hentries
      exact ⟨entries, hd.symm, hv.1.of_sublist (Outcome.entries_labels_sublist hentries)⟩
  | _ => cases hresult

/-- **Collections are read entry by entry**: lists, maps, and maps of lists, whose entries are lists
that are read entry by entry themselves. Maps have their keys in order, as their objects do. -/
theorem collections_entryByEntry (c : Catalog) (t : Ty) :
    EntryByEntry .list (fun mode => decodeValue c t ⟨mode⟩) (decodeList c t) ∧
      EntryByEntry .map (fun mode => decodeValue c t ⟨mode⟩) (decodeMap c t) ∧
      EntryByEntry .map (decodeList c t) (decodeMapOfList c t) ∧
      ∀ mode v d, v.WellFormed → decodeMap c t mode v = .ok d →
        ∃ entries, d.value = .map entries ∧ Keyed.Sorted entries :=
  ⟨decodeList_entryByEntry c t, decodeMap_entryByEntry c t, decodeMap_entryByEntry c (.list t),
    fun _ _ _ hv h => decodeMap_sorted hv h⟩

end Larder
