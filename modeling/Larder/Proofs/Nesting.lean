import Larder.Json.Depth
import Larder.Proofs.NormalForm
import Larder.Api.Catalog

/-!
# How deep values nest

The document that a value is written as nests no deeper than the document the value was read from,
with one exception: null stands for an empty collection, which is written as a container. So a limit
that the first document keeps is exceeded by the second just where such a null stands inside as many
containers as the limit allows (`Reads.exceeds_iff`). It can only stand inside another collection
(`EmptyAt`), since the member of a field or of an envelope is never null when it is read as a
collection; so nothing nests deeper where no collection directly holds collections (`Catalog.Flat`).
-/

namespace Larder

variable {c : Catalog} {t : Ty} {v : Json} {d : Datum} {limit n : Nat}

/-- At the path there is a null that is read as an empty collection. -/
inductive EmptyAt (c : Catalog) : Ty → Json → List Segment → Prop where
  | list (t : Ty) : EmptyAt c (.list t) .null []
  | map (t : Ty) : EmptyAt c (.map t) .null []
  | option {t : Ty} {v : Json} {p : List Segment} (hv : v.isNull = false) (h : EmptyAt c t v p) :
      EmptyAt c (.option t) v p
  | item {t : Ty} {items : List Json} {i : Nat} {w : Json} {p : List Segment}
      (hw : items[i]? = some w) (h : EmptyAt c t w p) :
      EmptyAt c (.list t) (.array items) (.index i :: p)
  | entry {t : Ty} {members : List (String × Json)} {key : String} {w : Json} {p : List Segment}
      (hw : members.lookup key = some w) (h : EmptyAt c t w p) :
      EmptyAt c (.map t) (.object members) (.key key :: p)
  | payload {t : Ty} {members : List (String × Json)} {w : Json} {p : List Segment}
      (hw : members.lookup "ok" = some w) (hnull : w.isNull = false) (h : EmptyAt c t w p) :
      EmptyAt c (.envelope t) (.object members) (.key "ok" :: p)
  | field {name : String} {f : Field} {members : List (String × Json)} {w : Json}
      {p : List Segment} (hf : f ∈ c.fields name) (hw : members.lookup f.key = some w)
      (hnull : w.isNull = false) (h : EmptyAt c f.ty w p) :
      EmptyAt c (.record name) (.object members) (.key f.key :: p)

theorem EmptyAt.resolve {p : List Segment} (h : EmptyAt c t v p) : v.resolve ⟨p⟩ = some .null := by
  induction h with
  | list t => rfl
  | map t => rfl
  | option _ _ ih => exact ih
  | item hw _ ih =>
      rw [Json.resolve_cons, Segment.follow, hw]
      exact ih
  | entry hw _ ih =>
      rw [Json.resolve_cons, Segment.follow, hw]
      exact ih
  | payload hw _ _ ih =>
      rw [Json.resolve_cons, Segment.follow, hw]
      exact ih
  | field _ hw _ _ ih =>
      rw [Json.resolve_cons, Segment.follow, hw]
      exact ih

/-! ## The document of a value -/

namespace Json

theorem Fits.of_depth {w : Json} (h : v.Fits limit n) (hw : w.WellFormed) (hdepth : w.depth = 0) :
    w.Fits limit n := by
  refine ⟨hw, ?_⟩
  have := h.2
  omega

theorem Fits.item {items : List Json} (h : (array items).Fits limit n) {w : Json} (hw : w ∈ items) :
    w.Fits limit (n + 1) :=
  (fits_array_iff.mp h).2 w hw

theorem Fits.member {members : List (String × Json)} (h : (object members).Fits limit n)
    {key : String} {w : Json} (hw : members.lookup key = some w) : w.Fits limit (n + 1) :=
  (fits_object_iff.mp h).2.2 _ (Keyed.mem_of_lookup hw)

end Json

open Json

/-- A scalar is written without containers, but for a document that is taken as it is. -/
theorem Scalar.read_fits {s : Scalar} (h : s.read v = .ok d) (hv : v.Fits limit n) :
    d.encode.Fits limit n := by
  have atomic : ∀ {w : Json}, w.WellFormed → w.depth = 0 → w.Fits limit n := hv.of_depth
  unfold Scalar.read at h
  split at h
  all_goals try split at h
  all_goals cases h
  · exact hv
  · exact hv
  · exact hv
  · rename_i number
    cases number.toBinary64 with
    | finite x => exact atomic trivial rfl
    | infinite negative => exact atomic trivial rfl
    | nan => exact atomic trivial rfl
  · exact atomic trivial rfl
  · exact hv
  · exact atomic trivial rfl

theorem Failure.encode_fits {f : Failure} {mode : Mode}
    (h : ((Failure.decode v).outcome mode).result = .ok f) (hv : v.Fits limit n) :
    f.encode.Fits limit n := by
  rw [reading_failure] at h
  cases v with
  | object members =>
      obtain ⟨hroom, -⟩ := fits_object_iff.mp hv
      refine fits_object_iff.mpr ⟨hroom, ?_, ?_⟩
      · simp only [Keyed.Sorted, List.pairwise_cons, List.forall_mem_singleton]
        exact ⟨by decide, List.forall_mem_nil _, .nil⟩
      · simp only [List.forall_mem_cons]
        refine ⟨⟨trivial, ?_⟩, ⟨trivial, ?_⟩, List.forall_mem_nil _⟩
        · exact (Nat.zero_add _).trans_le hroom
        · exact (Nat.zero_add _).trans_le hroom
  | _ => cases h

theorem encode_list_fits {ds : List Datum} (hroom : n + 1 ≤ limit)
    (h : ∀ e ∈ ds, e.encode.Fits limit (n + 1)) : (Datum.list ds).encode.Fits limit n := by
  rw [Datum.encode, Datum.encodeItems_eq_map]
  exact fits_array_iff.mpr ⟨hroom, List.forall_mem_map.mpr h⟩

theorem encode_entries_fits {es : List (String × Datum)} (hroom : n + 1 ≤ limit)
    (h : ∀ e ∈ es, e.2.encode.Fits limit (n + 1)) :
    (Json.object (Datum.encodeEntries es)).Fits limit n := by
  refine fits_object_iff.mpr ⟨hroom, Datum.sorted_encodeEntries es, fun m hm => ?_⟩
  obtain ⟨e, he, hm⟩ := Datum.mem_encodeEntries hm
  rw [hm]
  exact h _ he

/-- A field without a value is written as null, any other as what its member was read as. -/
theorem ReadsField.encode_cases {members : List (String × Json)} {f : Field}
    (h : ReadsField c members f d) :
    (∀ w, members.lookup f.key = some w → w.isNull = true) ∧ d.encode = .null ∨
      ∃ w e, members.lookup f.key = some w ∧ w.isNull = false ∧ Reads c f.ty w e ∧
        d.encode = e.encode := by
  cases hrequired : f.required with
  | true =>
      obtain ⟨w, hw, hnull, hread⟩ := (readsField_required hrequired).mp h
      exact Or.inr ⟨w, d, hw, hnull, hread, rfl⟩
  | false =>
      rcases (readsField_optional hrequired).mp h with ⟨hnone, rfl⟩ | ⟨w, e, hw, hnull, hread, rfl⟩
      · exact Or.inl ⟨hnone, rfl⟩
      · exact Or.inr ⟨w, e, hw, hnull, hread, rfl⟩

/-- **A value that was read is written where its document was**, and nests no deeper, if there is
room for an empty collection where null stands for one. -/
theorem Reads.encode_fits (h : Reads c t v d) (hv : v.Fits limit n)
    (hempty : ∀ p, EmptyAt c t v p → p.length + n < limit) : d.encode.Fits limit n := by
  induction t, v using Ty.descent c generalizing d n with
  | scalar s v => exact Scalar.read_fits (reads_scalar.mp h) hv
  | option t v ih =>
      rcases reads_option.mp h with ⟨-, rfl⟩ | ⟨hnull, e, he, rfl⟩
      · exact hv.of_depth trivial rfl
      · rw [Datum.encode]
        exact ih he hv fun p hp => hempty p (.option hnull hp)
  | list t v ih =>
      rcases reads_list.mp h with ⟨rfl, rfl⟩ | ⟨items, ds, rfl, hds, rfl⟩
      · have hroom : ([] : List Segment).length + n < limit := hempty [] (.list t)
        rw [List.length_nil] at hroom
        exact encode_list_fits (by omega) (List.forall_mem_nil _)
      · refine encode_list_fits (fits_array_iff.mp hv).1 fun e he => ?_
        obtain ⟨w, hw, hread⟩ := exists_mem_of_forall₂ hds he
        obtain ⟨i, hi⟩ := List.mem_iff_getElem?.mp hw
        refine ih items rfl w hw hread (hv.item hw) fun p hp => ?_
        have hroom := hempty _ (.item hi hp)
        rw [List.length_cons] at hroom
        omega
  | map t v ih =>
      rcases reads_map.mp h with ⟨rfl, rfl⟩ | ⟨members, es, rfl, hes, rfl⟩
      · have hroom : ([] : List Segment).length + n < limit := hempty [] (.map t)
        rw [List.length_nil] at hroom
        exact encode_entries_fits (by omega) (List.forall_mem_nil _)
      · refine encode_entries_fits (fits_object_iff.mp hv).1 fun e he => ?_
        obtain ⟨m, hm, -, hread⟩ := exists_mem_of_forall₂ hes he
        have hw : members.lookup m.1 = some m.2 := Keyed.lookup_of_mem hv.1.1.nodup hm
        refine ih members rfl m hm hread (hv.member hw) fun p hp => ?_
        have hroom := hempty _ (.entry hw hp)
        rw [List.length_cons] at hroom
        omega
  | envelope t v ih =>
      obtain ⟨members, rfl, ⟨w, e, hw, hnull, he, rfl⟩ | ⟨-, w, f, hw, -, hf, rfl⟩⟩ :=
        reads_envelope.mp h
      · have hpayload : e.encode.Fits limit (n + 1) := by
          refine ih members w rfl hw he (hv.member hw) fun p hp => ?_
          have hroom := hempty _ (.payload hw hnull hp)
          rw [List.length_cons] at hroom
          omega
        refine fits_object_iff.mpr ⟨(fits_object_iff.mp hv).1, List.pairwise_singleton _ _, ?_⟩
        exact List.forall_mem_singleton.mpr hpayload
      · refine fits_object_iff.mpr ⟨(fits_object_iff.mp hv).1, List.pairwise_singleton _ _, ?_⟩
        exact List.forall_mem_singleton.mpr (Failure.encode_fits hf (hv.member hw))
  | record name v ih =>
      obtain ⟨members, es, rfl, hes, rfl⟩ := reads_record.mp h
      refine encode_entries_fits (fits_object_iff.mp hv).1 fun e he => ?_
      obtain ⟨f, hf, -, hread⟩ := exists_mem_of_forall₂ hes he
      rcases hread.encode_cases with ⟨-, he⟩ | ⟨w, e', hw, hnull, hread, he⟩
      · rw [he]
        exact ⟨trivial, (Nat.zero_add _).trans_le (fits_object_iff.mp hv).1⟩
      · rw [he]
        refine ih members rfl f hf w hw hread (hv.member hw) fun p hp => ?_
        have hroom := hempty _ (.field hf hw hnull hp)
        rw [List.length_cons] at hroom
        omega

/-! ## What a null may stand for -/

theorem Json.follow_depth {s : Segment} {w : Json} (h : s.follow v = some w) :
    w.depth + 1 ≤ v.depth := by
  unfold Segment.follow at h
  split at h
  · rw [depth]
    exact Nat.succ_le_succ (membersDepth_le_iff.mp (Nat.le_refl _) _ (Keyed.mem_of_lookup h))
  · rw [depth]
    exact Nat.succ_le_succ (itemsDepth_le_iff.mp (Nat.le_refl _) _ (List.mem_of_getElem? h))
  · cases h

/-- A path leads through one container with each step. -/
theorem Json.resolve_depth {p : List Segment} {w : Json} (h : v.resolve ⟨p⟩ = some w) :
    w.depth + p.length ≤ v.depth := by
  induction p generalizing v with
  | nil =>
      cases h
      exact Nat.le_refl _
  | cons s p ih =>
      rw [Json.resolve_cons, Option.bind_eq_some_iff] at h
      obtain ⟨x, hx, h⟩ := h
      have hstep := follow_depth hx
      have hrest := ih h
      rw [List.length_cons]
      omega

/-- What is written for a value that was read nests at most one level deeper than what it was read
from. -/
theorem Reads.encode_depth_le (h : Reads c t v d) (hv : v.WellFormed) :
    d.encode.WellFormed ∧ d.encode.depth ≤ v.depth + 1 := by
  have hfits : d.encode.Fits (v.depth + 1) 0 := by
    refine h.encode_fits ⟨hv, Nat.le_succ _⟩ fun p hp => ?_
    have := Json.resolve_depth hp.resolve
    omega
  exact hfits

theorem Datum.follow_list (ds : List Datum) (i : Nat) :
    (Segment.index i).follow (Datum.list ds).encode = ds[i]?.map Datum.encode := by
  rw [Datum.encode, Datum.encodeItems_eq_map, Segment.follow, List.getElem?_map]

theorem Datum.follow_entries {es : List (String × Datum)} (h : (es.map Prod.fst).Nodup)
    (key : String) : (Segment.key key).follow (.object (Datum.encodeEntries es)) =
      (es.lookup key).map Datum.encode :=
  Datum.lookup_encodeEntries_of_nodup h key

/-- Where null stands for an empty collection, an empty collection is written. -/
theorem EmptyAt.encode (hc : c.DistinctKeys) {p : List Segment} (h : EmptyAt c t v p)
    (hv : v.WellFormed) (hread : Reads c t v d) :
    ∃ w, d.encode.resolve ⟨p⟩ = some w ∧ w.depth = 1 := by
  induction h generalizing d with
  | list t =>
      rcases reads_list.mp hread with ⟨-, rfl⟩ | ⟨_, _, hnull, -⟩
      · exact ⟨.array [], rfl, rfl⟩
      · cases hnull
  | map t =>
      rcases reads_map.mp hread with ⟨-, rfl⟩ | ⟨_, _, hnull, -⟩
      · exact ⟨.object [], rfl, rfl⟩
      · cases hnull
  | option hnull _ ih =>
      rcases reads_option.mp hread with ⟨hv', -⟩ | ⟨-, e, he, rfl⟩
      · cases hnull.symm.trans hv'
      · rw [Datum.encode]
        exact ih hv he
  | @item t items i w p hw _ ih =>
      rcases reads_list.mp hread with ⟨hnull, -⟩ | ⟨_, ds, hitems, hds, rfl⟩
      · cases hnull
      · cases hitems
        have hitem : w.WellFormed := (itemsWellFormed_iff items).mp hv w (List.mem_of_getElem? hw)
        obtain ⟨hi, rfl⟩ := List.getElem?_eq_some_iff.mp hw
        have hi' : i < ds.length := hds.length_eq ▸ hi
        rw [Json.resolve_cons, Datum.follow_list, List.getElem?_eq_getElem hi']
        exact ih hitem (hds.get hi hi')
  | @entry t members key w p hw _ ih =>
      rcases reads_map.mp hread with ⟨hnull, -⟩ | ⟨_, es, hmembers, hes, rfl⟩
      · cases hnull
      · cases hmembers
        -- every key is there once, so no other entry is written under it
        have hkeys : es.map Prod.fst = members.map Prod.fst :=
          map_eq_map_of_forall₂ hes fun _ _ h => h.1
        rcases lookup_forall₂ hes key with ⟨hnone, -⟩ | ⟨w', e, hw', he, hread⟩
        · cases hw.symm.trans hnone
        · cases hw.symm.trans hw'
          rw [Json.resolve_cons, Datum.encode, Datum.follow_entries (hkeys ▸ hv.1.nodup), he]
          exact ih (hv.of_lookup hw) hread
  | payload hw hnull _ ih =>
      obtain ⟨_, hmembers, ⟨w', e, hw', -, he, rfl⟩ | ⟨hnone, -⟩⟩ := reads_envelope.mp hread
      · cases hmembers
        cases hw.symm.trans hw'
        rw [Json.resolve_cons, Datum.encode, Segment.follow, Keyed.lookup_cons_self]
        exact ih (hv.of_lookup hw) he
      · cases hmembers
        cases hw.symm.trans hnone
  | @field name f members w p hf hw hnull _ ih =>
      obtain ⟨_, es, hmembers, hes, rfl⟩ := reads_record.mp hread
      cases hmembers
      have hkeys : es.map Prod.fst = (c.fields name).map Field.key :=
        map_eq_map_of_forall₂ hes fun _ _ h => h.1
      have hnodup : (es.map Prod.fst).Nodup := hkeys ▸ hc.fields name
      obtain ⟨e, he, hkey, hmember⟩ := exists_mem_of_forall₂ hes.flip hf
      rw [Json.resolve_cons, Datum.encode, Datum.follow_entries hnodup, ← hkey,
        Keyed.lookup_of_mem hnodup he]
      rcases hmember.encode_cases with ⟨hnone, -⟩ | ⟨w', e', hw', -, hread, hencode⟩
      · cases hnull.symm.trans (hnone w hw)
      · cases hw.symm.trans hw'
        show ∃ x, e.2.encode.resolve ⟨p⟩ = some x ∧ x.depth = 1
        rw [hencode]
        exact ih (hv.of_lookup hw) hread

/-- **What is written for a value exceeds a limit that it was read within** just where a null stands
for an empty collection inside as many containers as the limit allows. -/
theorem Reads.exceeds_iff (hc : c.DistinctKeys) (h : Reads c t v d) (hv : v.Fits limit 0) :
    limit < d.encode.depth ↔ ∃ p, EmptyAt c t v p ∧ p.length = limit := by
  constructor
  · intro hdeep
    by_contra hnone
    have hroom : ∀ p, EmptyAt c t v p → p.length + 0 < limit := by
      intro p hp
      have hdepth := Json.resolve_depth hp.resolve
      have hlimit := hv.2
      have hne : p.length ≠ limit := fun hlength => hnone ⟨p, hp, hlength⟩
      omega
    exact absurd (h.encode_fits hv hroom).2 (Nat.not_le.mpr hdeep)
  · rintro ⟨p, hp, rfl⟩
    obtain ⟨w, hw, hdepth⟩ := hp.encode hc hv.1 h
    have := Json.resolve_depth hw
    omega

/-! ## Collections in collections -/

namespace Ty

/-- A list or a map. -/
def IsCollection : Ty → Prop
  | .list _ | .map _ => True
  | _ => False

instance : DecidablePred IsCollection := fun t => by
  cases t <;> unfold IsCollection <;> infer_instance

/-- No collection directly holds collections. -/
def Flat : Ty → Prop
  | .list t | .map t => ¬t.IsCollection ∧ t.Flat
  | .option t | .envelope t => t.Flat
  | _ => True

instance decidableFlat : DecidablePred Flat
  | .list t | .map t => by
      have := decidableFlat t
      unfold Flat
      infer_instance
  | .option t | .envelope t => by
      have := decidableFlat t
      unfold Flat
      infer_instance
  | .scalar _ | .record _ => isTrue trivial

end Ty

/-- No collection in a record directly holds collections. -/
def Catalog.Flat (c : Catalog) : Prop := ∀ m ∈ c.models, ∀ f ∈ m.fields, f.ty.Flat

instance (c : Catalog) : Decidable c.Flat := by
  unfold Catalog.Flat; infer_instance

theorem Catalog.Flat.field (hc : c.Flat) {name : String} {f : Field} (hf : f ∈ c.fields name) :
    f.ty.Flat := by
  unfold Catalog.fields find? at hf
  split at hf
  · rename_i m hm
    exact hc m (List.mem_of_find?_eq_some hm) f hf
  · cases hf

/-- Without collections in collections, null stands for an empty collection only where the reading
started. -/
theorem EmptyAt.isCollection (hc : c.Flat) {p : List Segment} (h : EmptyAt c t v p) (ht : t.Flat) :
    t.IsCollection ∧ v.isNull = true := by
  induction h with
  | list t => exact ⟨trivial, rfl⟩
  | map t => exact ⟨trivial, rfl⟩
  | option hv _ ih => cases hv.symm.trans (ih ht).2
  | item _ _ ih => exact absurd (ih ht.2).1 ht.1
  | entry _ _ ih => exact absurd (ih ht.2).1 ht.1
  | payload _ hnull _ ih => cases hnull.symm.trans (ih ht).2
  | field hf _ hnull _ ih => cases hnull.symm.trans (ih (hc.field hf)).2

theorem not_emptyAt_record (hc : c.Flat) {name : String} {p : List Segment} :
    ¬EmptyAt c (.record name) v p := fun h => (h.isCollection hc trivial).1

example : Api.catalog.Flat := by decide

end Larder
