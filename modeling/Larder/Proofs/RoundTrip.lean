import Larder.Proofs.Complete
import Larder.Proofs.Encoding
import Larder.Proofs.UuidText
import Larder.Record

/-!
# Which values are read back from their documents

Null stands for many things: an option without a value, an empty collection, a floating point number
that is not finite, an opaque document. So not every value can be read back from its document.
`Representable` says which can: those in which nothing that has to be there is written as null,
every floating point number is finite, and no standing goes by the name of another.

`HasType` is what it means for a value to be of a type. The proof goes along it: `RoundTrips` is
taken apart at each constructor, and what is left are the clauses of `Representable`.
-/

namespace Larder

/-- The value is of the type. -/
inductive HasType (c : Catalog) : Ty → Datum → Prop where
  | string (s : String) : HasType c (.scalar .string) (.string s)
  | bool (b : Bool) : HasType c (.scalar .bool) (.bool b)
  | integer {w : Width} {n : Integer} (hn : w.Holds n.value) :
      HasType c (.scalar (.integer w)) (.integer n)
  | float (x : Binary64) : HasType c (.scalar .float) (.float x)
  | uuid (u : Uuid) : HasType c (.scalar .uuid) (.uuid u)
  | json {v : Json} (hv : v.WellFormed) : HasType c (.scalar .json) (.json v)
  | status (s : ListStatus) : HasType c (.scalar .status) (.status s)
  | absent (t : Ty) : HasType c (.option t) .absent
  | present {t : Ty} {d : Datum} (hd : HasType c t d) : HasType c (.option t) (.present d)
  | list {t : Ty} {items : List Datum} (hitems : ∀ d ∈ items, HasType c t d) :
      HasType c (.list t) (.list items)
  | map {t : Ty} {entries : List (String × Datum)} (hkeys : (entries.map Prod.fst).Nodup)
      (hentries : ∀ e ∈ entries, HasType c t e.2) : HasType c (.map t) (.map entries)
  | ok {t : Ty} {d : Datum} (hd : HasType c t d) : HasType c (.envelope t) (.ok d)
  | err (t : Ty) (f : Failure) : HasType c (.envelope t) (.err f)
  | record {name : String} {entries : List (String × Datum)}
      (hkeys : entries.map Prod.fst = (c.fields name).map Field.key)
      (hentries : ∀ p ∈ (c.fields name).zip entries, HasType c p.1.held p.2.2) :
      HasType c (.record name) (.record entries)

/-- The value, which is of the type, can be read back from its document. -/
inductive Representable (c : Catalog) : Ty → Datum → Prop where
  | string (s : String) : Representable c (.scalar .string) (.string s)
  | bool (b : Bool) : Representable c (.scalar .bool) (.bool b)
  | integer (w : Width) (n : Integer) : Representable c (.scalar (.integer w)) (.integer n)
  | float (x : Binary64.Finite) : Representable c (.scalar .float) (.float (.finite x))
  | uuid (u : Uuid) : Representable c (.scalar .uuid) (.uuid u)
  | json (v : Json) : Representable c (.scalar .json) (.json v)
  | status {s : ListStatus} (hs : ∀ name, s = .other name → name ∉ ListStatus.known) :
      Representable c (.scalar .status) (.status s)
  | absent (t : Ty) : Representable c (.option t) .absent
  | present {t : Ty} {d : Datum} (hd : Representable c t d) (hnull : d.encode.isNull = false) :
      Representable c (.option t) (.present d)
  | list {t : Ty} {items : List Datum} (hitems : ∀ d ∈ items, Representable c t d) :
      Representable c (.list t) (.list items)
  | map {t : Ty} {entries : List (String × Datum)}
      (hentries : ∀ e ∈ entries, Representable c t e.2) : Representable c (.map t) (.map entries)
  | ok {t : Ty} {d : Datum} (hd : Representable c t d) (hnull : d.encode.isNull = false) :
      Representable c (.envelope t) (.ok d)
  | err (t : Ty) (f : Failure) : Representable c (.envelope t) (.err f)
  | record {name : String} {entries : List (String × Datum)}
      (hentries : ∀ p ∈ (c.fields name).zip entries, Representable c p.1.held p.2.2)
      (hnull : ∀ p ∈ (c.fields name).zip entries,
        p.1.required = true → p.2.2.encode.isNull = false) :
      Representable c (.record name) (.record entries)

/-- The document of a value is read, with nothing left out, as the same value. -/
def RoundTrips (c : Catalog) (t : Ty) (d : Datum) : Prop :=
  ∃ d', Reads c t d.encode d' ∧ d.same d' = true

variable {c : Catalog} {t : Ty} {d : Datum}

/-- Documents are read in one way only, so it is enough to look at one reading. -/
theorem Reads.roundTrips_iff {d' : Datum} (h : Reads c t d.encode d') :
    RoundTrips c t d ↔ d.same d' = true := by
  refine ⟨?_, ?_⟩
  · intro h
    obtain ⟨e, he, hsame⟩ := h
    rw [h.unique he]
    exact hsame
  · intro hsame
    exact ⟨d', h, hsame⟩

/-! ## Scalars -/

theorem roundTrips_string (s : String) : RoundTrips c (.scalar .string) (.string s) := by
  refine ⟨.string s, reads_scalar.mpr rfl, ?_⟩
  rw [Datum.same]
  exact beq_self_eq_true s

theorem roundTrips_bool (b : Bool) : RoundTrips c (.scalar .bool) (.bool b) := by
  refine ⟨.bool b, reads_scalar.mpr rfl, ?_⟩
  rw [Datum.same]
  exact beq_self_eq_true b

theorem roundTrips_integer {w : Width} {n : Integer} (hn : w.Holds n.value) :
    RoundTrips c (.scalar (.integer w)) (.integer n) := by
  refine ⟨.integer n, reads_scalar.mpr (if_pos hn), ?_⟩
  rw [Datum.same]
  exact beq_self_eq_true n

theorem roundTrips_uuid (u : Uuid) : RoundTrips c (.scalar .uuid) (.uuid u) := by
  refine ⟨.uuid u, reads_scalar.mpr ?_, ?_⟩
  · simp only [Datum.encode, Scalar.read, Uuid.ofText_text]
  · rw [Datum.same]
    exact beq_self_eq_true u

theorem roundTrips_json {v : Json} (hv : v.WellFormed) :
    RoundTrips c (.scalar .json) (.json v) := by
  refine ⟨.json v, reads_scalar.mpr rfl, ?_⟩
  rw [Datum.same]
  exact v.same_refl hv

theorem roundTrips_float {x : Binary64} :
    RoundTrips c (.scalar .float) (.float x) ↔ ∃ y, x = .finite y := by
  refine ⟨?_, ?_⟩
  · intro h
    obtain ⟨d', hread, _⟩ := h
    rw [reads_scalar] at hread
    cases x with
    | finite y => exact ⟨y, rfl⟩
    | _ => cases hread
  · intro h
    obtain ⟨y, hy⟩ := h
    subst hy
    refine ⟨.float (.finite y), reads_scalar.mpr rfl, ?_⟩
    rw [Datum.same]
    exact y.same_refl

/-- A standing is read back unless it goes by the name of another. -/
theorem roundTrips_status {s : ListStatus} :
    RoundTrips c (.scalar .status) (.status s) ↔
      ∀ name, s = .other name → name ∉ ListStatus.known := by
  have hread : Reads c (.scalar .status) (Datum.status s).encode (.status (.ofText s.text)) :=
    reads_scalar.mpr rfl
  rw [hread.roundTrips_iff, Datum.same, beq_iff_eq, eq_comm]
  exact ListStatus.ofText_text_iff

/-! ## Options and envelopes -/

theorem roundTrips_absent : RoundTrips c (.option t) .absent := by
  refine ⟨.absent, reads_option.mpr (Or.inl ⟨rfl, rfl⟩), ?_⟩
  rw [Datum.same]

theorem roundTrips_present :
    RoundTrips c (.option t) (.present d) ↔ RoundTrips c t d ∧ d.encode.isNull = false := by
  refine ⟨?_, ?_⟩
  · intro h
    obtain ⟨d', hread, hsame⟩ := h
    rcases reads_option.mp hread with ⟨-, rfl⟩ | ⟨hnull, e, he, rfl⟩
    · simp [Datum.same] at hsame
    · rw [Datum.same] at hsame
      exact ⟨⟨e, he, hsame⟩, hnull⟩
  · intro h
    obtain ⟨⟨e, he, hsame⟩, hnull⟩ := h
    refine ⟨.present e, reads_option.mpr (Or.inr ⟨hnull, e, he, rfl⟩), ?_⟩
    rw [Datum.same]
    exact hsame

theorem roundTrips_ok :
    RoundTrips c (.envelope t) (.ok d) ↔ RoundTrips c t d ∧ d.encode.isNull = false := by
  have hdoc : (Datum.ok d).encode = .object [("ok", d.encode)] := rfl
  have hok : [("ok", d.encode)].lookup "ok" = some d.encode := Keyed.lookup_cons_self _ _ _
  unfold RoundTrips
  rw [hdoc]
  refine ⟨?_, ?_⟩
  · intro h
    obtain ⟨d', hread, hsame⟩ := h
    obtain ⟨members, hmembers, hread⟩ := reads_envelope.mp hread
    cases hmembers
    rcases hread with ⟨w, e, hw, hnull, he, rfl⟩ | ⟨hnone, -⟩
    · cases hok.symm.trans hw
      rw [Datum.same] at hsame
      exact ⟨⟨e, he, hsame⟩, hnull⟩
    · cases hok.symm.trans hnone
  · intro h
    obtain ⟨⟨e, he, hsame⟩, hnull⟩ := h
    refine ⟨.ok e, reads_envelope.mpr ⟨_, rfl, Or.inl ⟨_, e, hok, hnull, he, rfl⟩⟩, ?_⟩
    rw [Datum.same]
    exact hsame

theorem Failure.readCode_ofUInt64 (n : UInt64) : readCode (.integer (.ofUInt64 n)) = .ok n := by
  show (if 0 ≤ (n.toNat : Int) then Except.ok (UInt64.ofNat (n.toNat : Int).toNat)
    else .error (.outOfRange n.toNat .u64)) = _
  rw [if_pos (Int.natCast_nonneg _), Int.toNat_natCast, UInt64.ofNat_toNat]

/-- A failure is read back whatever its code and description. -/
theorem Failure.decode_encode (f : Failure) :
    ((Failure.decode f.encode).outcome .strict).result = .ok f := by
  rw [reading_failure]
  refine Outcome.bind_eq_ok.mpr ⟨f.code, ?_, Outcome.bind_eq_ok.mpr ⟨f.description, ?_, rfl⟩⟩
  · refine Outcome.required_eq_ok.mpr ⟨_, rfl, rfl, ?_⟩
    rw [Failure.readCode_ofUInt64]
    rfl
  · exact Outcome.required_eq_ok.mpr ⟨_, rfl, rfl, rfl⟩

theorem reads_err (f : Failure) : Reads c (.envelope t) (Datum.err f).encode (.err f) :=
  reads_envelope.mpr ⟨_, rfl, Or.inr ⟨rfl, f.encode, f, rfl, rfl, f.decode_encode, rfl⟩⟩

theorem roundTrips_err (f : Failure) : RoundTrips c (.envelope t) (.err f) := by
  refine ⟨.err f, reads_err f, ?_⟩
  rw [Datum.same]
  exact beq_self_eq_true f

/-! ## Collections -/

theorem exists_forall₂_and_iff {α β : Type} {R S : α → β → Prop} {xs : List α} :
    (∃ ys, List.Forall₂ R xs ys ∧ List.Forall₂ S xs ys) ↔ ∀ x ∈ xs, ∃ y, R x y ∧ S x y := by
  rw [← exists_forall₂_iff]
  refine exists_congr fun ys => ⟨fun ⟨hr, hs⟩ => hr.mp (fun _ _ hr hs => ⟨hr, hs⟩) hs, fun h => ?_⟩
  exact ⟨h.imp fun _ _ h => h.1, h.imp fun _ _ h => h.2⟩

theorem roundTrips_list {items : List Datum} :
    RoundTrips c (.list t) (.list items) ↔ ∀ d ∈ items, RoundTrips c t d := by
  have hdoc : (Datum.list items).encode = .array (items.map Datum.encode) :=
    congrArg Json.array (Datum.encodeItems_eq_map items)
  unfold RoundTrips
  rw [hdoc]
  refine ⟨?_, ?_⟩
  · intro h
    obtain ⟨d', hread, hsame⟩ := h
    rcases reads_list.mp hread with ⟨hnull, -⟩ | ⟨vs, ds, hvs, hds, rfl⟩
    · cases hnull
    · cases hvs
      rw [Datum.same, Datum.sameItems_iff] at hsame
      rw [List.forall₂_map_left_iff] at hds
      exact exists_forall₂_and_iff.mp ⟨ds, hds, hsame⟩
  · intro h
    obtain ⟨ds, hds, hsame⟩ := exists_forall₂_and_iff.mpr h
    refine ⟨.list ds, reads_list.mpr (Or.inr ⟨_, ds, rfl, ?_, rfl⟩), ?_⟩
    · rw [List.forall₂_map_left_iff]
      exact hds
    · rw [Datum.same, Datum.sameItems_iff]
      exact hsame

/-- The values under a key of two lists whose entries are related one by one. -/
theorem lookup_forall₂ {α β : Type} {R : α → β → Prop} {xs : List (String × α)}
    {ys : List (String × β)} (h : List.Forall₂ (fun x y => y.1 = x.1 ∧ R x.2 y.2) xs ys)
    (key : String) :
    xs.lookup key = none ∧ ys.lookup key = none ∨
      ∃ a b, xs.lookup key = some a ∧ ys.lookup key = some b ∧ R a b := by
  induction h with
  | nil => exact Or.inl ⟨rfl, rfl⟩
  | @cons x y xs ys hxy _ ih =>
      obtain ⟨_, a⟩ := x
      obtain ⟨k, b⟩ := y
      obtain ⟨rfl, hab⟩ := hxy
      by_cases hk : key = k
      · subst hk
        exact Or.inr ⟨a, b, Keyed.lookup_cons_self _ _ _, Keyed.lookup_cons_self _ _ _, hab⟩
      · rw [Keyed.lookup_cons_of_ne hk, Keyed.lookup_cons_of_ne hk]
        exact ih

theorem roundTrips_map {entries : List (String × Datum)} (hkeys : (entries.map Prod.fst).Nodup) :
    RoundTrips c (.map t) (.map entries) ↔ ∀ e ∈ entries, RoundTrips c t e.2 := by
  have hmembers : ∀ e ∈ entries,
      (Datum.encodeEntries entries).lookup e.1 = some e.2.encode := fun e he =>
    Datum.lookup_encodeEntries_of_mem hkeys he
  refine ⟨?_, ?_⟩
  · intro h e he
    obtain ⟨d', hread, hsame⟩ := h
    rcases reads_map.mp hread with ⟨hnull, -⟩ | ⟨members, es, hdoc, hes, rfl⟩
    · cases hnull
    · cases hdoc
      rw [Datum.same, Bool.and_eq_true, Datum.sameEntries_iff] at hsame
      -- the like of an entry is what was read from its member
      obtain ⟨d, hd, hsame⟩ := hsame.2 e he
      rcases lookup_forall₂ hes e.1 with ⟨hnone, -⟩ | ⟨v, d', hv, hd', hread⟩
      · cases (hmembers e he).symm.trans hnone
      · cases (hmembers e he).symm.trans hv
        cases hd.symm.trans hd'
        exact ⟨d, hread, hsame⟩
  · intro h
    -- the entries are read in the order of their keys, which need not be the order they are in
    have hread : ∀ m ∈ Datum.encodeEntries entries,
        ∃ e : String × Datum, e.1 = m.1 ∧ Reads c t m.2 e.2 := by
      intro m hm
      obtain ⟨d, hd, hmd⟩ := Datum.mem_encodeEntries hm
      obtain ⟨d', hd', -⟩ := h _ hd
      exact ⟨(m.1, d'), rfl, hmd ▸ hd'⟩
    obtain ⟨es, hes⟩ := exists_forall₂_iff.mpr hread
    refine ⟨.map es, reads_map.mpr (Or.inr ⟨_, es, rfl, hes, rfl⟩), ?_⟩
    rw [Datum.same, Bool.and_eq_true, Datum.sameEntries_iff, beq_iff_eq, ← hes.length_eq,
      Datum.length_encodeEntries hkeys]
    refine ⟨rfl, fun e he => ?_⟩
    rcases lookup_forall₂ hes e.1 with ⟨hnone, -⟩ | ⟨v, d', hv, hd', hread⟩
    · cases (hmembers e he).symm.trans hnone
    · cases (hmembers e he).symm.trans hv
      exact ⟨d', hd', hread.roundTrips_iff.mp (h e he)⟩

/-! ## Records -/

/-- A field of a record is read back from the member that its entry is written as. -/
theorem exists_readsField_iff {members : List (String × Json)} {f : Field} {e : String × Datum}
    (hkey : e.1 = f.key) (hw : members.lookup f.key = some e.2.encode) :
    (∃ e' : String × Datum, (e'.1 = f.key ∧ ReadsField c members f e'.2) ∧
      e.1 = e'.1 ∧ e.2.same e'.2 = true) ↔
    RoundTrips c f.held e.2 ∧ (f.required = true → e.2.encode.isNull = false) := by
  refine ⟨?_, ?_⟩
  · intro h
    obtain ⟨e', ⟨_, hread⟩, _, hsame⟩ := h
    obtain ⟨hread, hnull⟩ := (readsField_of_lookup hw).mp hread
    exact ⟨⟨e'.2, hread, hsame⟩, hnull⟩
  · intro h
    obtain ⟨⟨d, hread, hsame⟩, hnull⟩ := h
    exact ⟨(f.key, d), ⟨rfl, (readsField_of_lookup hw).mpr ⟨hread, hnull⟩⟩, hkey, hsame⟩

/-- The fields of a record are read back pair by pair. -/
theorem exists_readsFields_iff {members : List (String × Json)}
    {pairs : List (Field × String × Datum)} (h : ∀ p ∈ pairs,
      p.2.1 = p.1.key ∧ members.lookup p.1.key = some p.2.2.encode) :
    (∃ es, List.Forall₂ (fun f e => e.1 = f.key ∧ ReadsField c members f e.2)
        (pairs.map Prod.fst) es ∧ Datum.sameFields (pairs.map Prod.snd) es = true) ↔
      ∀ p ∈ pairs, RoundTrips c p.1.held p.2.2 ∧
        (p.1.required = true → p.2.2.encode.isNull = false) := by
  simp only [Datum.sameFields_iff, List.forall₂_map_left_iff]
  rw [exists_forall₂_and_iff]
  exact forall₂_congr fun p hp => exists_readsField_iff (h p hp).1 (h p hp).2

theorem roundTrips_record {name : String} {entries : List (String × Datum)} (hc : c.DistinctKeys)
    (hkeys : entries.map Prod.fst = (c.fields name).map Field.key) :
    RoundTrips c (.record name) (.record entries) ↔ ∀ p ∈ (c.fields name).zip entries,
      RoundTrips c p.1.held p.2.2 ∧ (p.1.required = true → p.2.2.encode.isNull = false) := by
  have hnodup : (entries.map Prod.fst).Nodup := hkeys ▸ hc.fields name
  have hlength : entries.length = (c.fields name).length := by
    simpa using congrArg List.length hkeys
  have hfst : ((c.fields name).zip entries).map Prod.fst = c.fields name :=
    List.map_fst_zip (by omega)
  have hsnd : ((c.fields name).zip entries).map Prod.snd = entries := List.map_snd_zip (by omega)
  -- fields and entries go in pairs, each entry under the key of its field
  have hkey : ∀ p ∈ (c.fields name).zip entries, p.2.1 = p.1.key := by
    refine List.map_inj_left.mp ?_
    calc ((c.fields name).zip entries).map (fun p => p.2.1)
        = (((c.fields name).zip entries).map Prod.snd).map Prod.fst := List.map_map.symm
      _ = (((c.fields name).zip entries).map Prod.fst).map Field.key := by rw [hfst, hsnd, hkeys]
      _ = ((c.fields name).zip entries).map (fun p => p.1.key) := List.map_map
  have hmember : ∀ p ∈ (c.fields name).zip entries,
      (Datum.encodeEntries entries).lookup p.1.key = some p.2.2.encode := by
    intro p hp
    rw [← hkey p hp, Datum.lookup_encodeEntries_of_mem hnodup (List.of_mem_zip hp).2]
  rw [← exists_readsFields_iff fun p hp => ⟨hkey p hp, hmember p hp⟩, hfst, hsnd]
  refine ⟨?_, ?_⟩
  · intro h
    obtain ⟨d', hread, hsame⟩ := h
    obtain ⟨members, es, hdoc, hes, rfl⟩ := reads_record.mp hread
    cases hdoc
    rw [Datum.same] at hsame
    exact ⟨es, hes, hsame⟩
  · intro h
    obtain ⟨es, hes, hsame⟩ := h
    refine ⟨.record es, reads_record.mpr ⟨_, es, rfl, hes, rfl⟩, ?_⟩
    rw [Datum.same]
    exact hsame

/-! ## All values -/

/-- A value of a type is read back from its document just when it is representable. -/
theorem HasType.roundTrips_iff (hc : c.DistinctKeys) (h : HasType c t d) :
    RoundTrips c t d ↔ Representable c t d := by
  -- each case ends at the clause of `Representable` for the same constructor
  induction h with
  | string s => exact ⟨fun _ => .string s, fun _ => roundTrips_string s⟩
  | bool b => exact ⟨fun _ => .bool b, fun _ => roundTrips_bool b⟩
  | @integer w n hn => exact ⟨fun _ => .integer w n, fun _ => roundTrips_integer hn⟩
  | float x =>
      rw [roundTrips_float]
      exact ⟨fun ⟨y, hy⟩ => hy ▸ .float y, fun | .float y => ⟨y, rfl⟩⟩
  | uuid u => exact ⟨fun _ => .uuid u, fun _ => roundTrips_uuid u⟩
  | @json v hv => exact ⟨fun _ => .json v, fun _ => roundTrips_json hv⟩
  | status s =>
      rw [roundTrips_status]
      exact ⟨.status, fun | .status hs => hs⟩
  | absent t => exact ⟨fun _ => .absent t, fun _ => roundTrips_absent⟩
  | present _ ih =>
      rw [roundTrips_present, ih]
      exact ⟨fun ⟨hd, hnull⟩ => .present hd hnull, fun | .present hd hnull => ⟨hd, hnull⟩⟩
  | list _ ih =>
      rw [roundTrips_list, forall₂_congr ih]
      exact ⟨.list, fun | .list hitems => hitems⟩
  | map hkeys _ ih =>
      rw [roundTrips_map hkeys, forall₂_congr ih]
      exact ⟨.map, fun | .map hentries => hentries⟩
  | ok _ ih =>
      rw [roundTrips_ok, ih]
      exact ⟨fun ⟨hd, hnull⟩ => .ok hd hnull, fun | .ok hd hnull => ⟨hd, hnull⟩⟩
  | err t f => exact ⟨fun _ => .err t f, fun _ => roundTrips_err f⟩
  | record hkeys _ ih =>
      rw [roundTrips_record hc hkeys, forall₂_congr fun p hp => and_congr_left fun _ => ih p hp]
      refine ⟨?_, ?_⟩
      · intro h
        exact .record (fun p hp => (h p hp).1) fun p hp => (h p hp).2
      · intro h
        cases h with
        | record hentries hnull => exact fun p hp => ⟨hentries p hp, hnull p hp⟩

/-! ## Whole readings -/

theorem Record.ofObject_eq_ok {name : String} {members : List (String × Json)} :
    ofObject c name (.object members) = .ok (some d) ↔
      Reads c (.record name) (.object members) d := by
  unfold ofObject ofObjectWith Reads
  rw [decodeValue_eq, Outcome.decoded]
  cases (reading c .strict (.record name) (.object members)).result with
  | ok e => exact ⟨fun h => by cases h; rfl, fun h => by cases h; rfl⟩
  | error e => exact ⟨nofun, nofun⟩

/-- **A value is read back from its document just when it is representable.** In either mode, its
document is read as the same value with nothing left out, if and only if it is representable; and a
record is found in its document under the same condition. -/
theorem decodeValue_encode_iff (hc : c.DistinctKeys) (h : HasType c t d) :
    (∀ mode, (∃ d', decodeValue c t ⟨mode⟩ d.encode = .ok ⟨d', []⟩ ∧ d.same d' = true) ↔
      Representable c t d) ∧
    (∀ name, t = .record name →
      ((∃ d', Record.ofObject c name d.encode = .ok (some d') ∧ d.same d' = true) ↔
        Representable c t d)) := by
  refine ⟨fun mode => ?_, fun name ht => ?_⟩
  · simp only [decodeValue_complete]
    exact h.roundTrips_iff hc
  · subst ht
    rw [← h.roundTrips_iff hc]
    cases h with
    | record hkeys hentries =>
        exact exists_congr fun d' => and_congr_left fun _ => Record.ofObject_eq_ok

/-- A catalog of one record type, which contains itself. -/
def linkCatalog : Catalog :=
  ⟨[⟨"Link", [.req "name" .string, .opt "next" (.record "Link"),
    .req "notes" (.map (.option .status))]⟩]⟩

/-- Two links. The keys of the notes are not in order. -/
def twoLinks : Datum :=
  .record [
    ("name", .string "first"),
    ("next", .present (.record [
      ("name", .string "second"),
      ("next", .absent),
      ("notes", .map [])])),
    ("notes", .map [("shared", .present (.status (.other "guest"))), ("closed", .absent)])]

theorem decodeValue_encode_twoLinks :
    linkCatalog.DistinctKeys ∧ HasType linkCatalog (.record "Link") twoLinks ∧
      Representable linkCatalog (.record "Link") twoLinks ∧
      ∀ mode, ∃ d', decodeValue linkCatalog (.record "Link") ⟨mode⟩ twoLinks.encode =
        .ok ⟨d', []⟩ ∧ twoLinks.same d' = true := by
  have hc : linkCatalog.DistinctKeys := by decide
  have hfields : linkCatalog.fields "Link" = [.req "name" .string, .opt "next" (.record "Link"),
    .req "notes" (.map (.option .status))] := by rfl
  have h : HasType linkCatalog (.record "Link") twoLinks := by
    refine .record rfl ?_
    simp only [hfields, List.zip_cons_cons, List.zip_nil_right, List.forall_mem_cons]
    refine ⟨.string _, .present (.record rfl ?_), .map (by decide) ?_, nofun⟩
    · simp only [hfields, List.zip_cons_cons, List.zip_nil_right, List.forall_mem_cons]
      exact ⟨.string _, .absent _, .map .nil nofun, nofun⟩
    · simp only [List.forall_mem_cons]
      exact ⟨.present (.status _), .absent _, nofun⟩
  have hr : Representable linkCatalog (.record "Link") twoLinks := by
    refine .record ?_ ?_
    · simp only [hfields, List.zip_cons_cons, List.zip_nil_right, List.forall_mem_cons]
      refine ⟨.string _, .present (.record ?_ ?_) rfl, .map ?_, nofun⟩
      · simp only [hfields, List.zip_cons_cons, List.zip_nil_right, List.forall_mem_cons]
        exact ⟨.string _, .absent _, .map nofun, nofun⟩
      · simp only [hfields, List.zip_cons_cons, List.zip_nil_right, List.forall_mem_cons]
        exact ⟨fun _ => rfl, nofun, fun _ => rfl, nofun⟩
      · simp only [List.forall_mem_cons]
        exact ⟨.present (.status fun name he => by cases he; decide) rfl, .absent _, nofun⟩
    · simp only [hfields, List.zip_cons_cons, List.zip_nil_right, List.forall_mem_cons]
      exact ⟨fun _ => rfl, nofun, fun _ => rfl, nofun⟩
  exact ⟨hc, h, hr, fun mode => ((decodeValue_encode_iff hc h).1 mode).mpr hr⟩

end Larder
