import Mathlib
import Larder.Api.Catalog
import Larder.Proofs.Complete
import Larder.Proofs.Conformance

/-!
# The exported schema of a type describes what is read as the type

The schema of a type and the reader of a type are two recursions that know nothing of each other.
They agree: a document is read as a value of a type, with nothing left out, just when the exported
schema of the type describes it. The proof goes along the reading, with one equivalence for each
kind of type on the side of the reader (`exists_reads_list`) and on the side of the schema
(`conforms_array`).

Envelopes are not described, and the name of the standings is not that of a record type
(`Ty.Described`).
-/

namespace Larder

/-- The type has a schema: no envelope is in it, and its record types are described under their
names. -/
def Ty.Described (c : Catalog) : Ty → Prop
  | .scalar _ => True
  | .option t | .list t | .map t => t.Described c
  | .envelope _ => False
  | .record name => name ≠ statusComponent ∧ (c.find? name).isSome = true

instance Ty.decidableDescribed (c : Catalog) : ∀ (t : Ty), Decidable (t.Described c)
  | .scalar _ => .isTrue trivial
  | .option t | .list t | .map t => Ty.decidableDescribed c t
  | .envelope _ => .isFalse id
  | .record _ => inferInstanceAs (Decidable (_ ∧ _))

/-- The types of all fields have schemas. -/
def Catalog.Described (c : Catalog) : Prop := ∀ m ∈ c.models, ∀ f ∈ m.fields, f.ty.Described c

instance (c : Catalog) : Decidable c.Described := by
  unfold Catalog.Described; infer_instance

theorem Catalog.Described.field {c : Catalog} (h : c.Described) {name : String} {f : Field}
    (hf : f ∈ c.fields name) : f.ty.Described c := by
  unfold Catalog.fields at hf
  split at hf
  · rename_i m hm
    exact h m (List.mem_of_find?_eq_some hm) f hf
  · cases hf

variable {c : Catalog} {t : Ty} {v : Json}

/-- The integers of a size are read just when they are of the size. -/
theorem exists_read_integer {w : Width} : (∃ d, (Scalar.integer w).read v = .ok d) ↔
    ∃ n, v = .number (.integer n) ∧ w.Holds n.value := by
  cases v with
  | number n =>
      cases n with
      | integer n => by_cases hn : w.Holds n.value <;> simp [Scalar.read, hn]
      | float x => simp [Scalar.read]
  | _ => simp [Scalar.read]

theorem exists_read_uuid : (∃ d, Scalar.uuid.read v = .ok d) ↔
    ∃ text u, v = .string text ∧ Uuid.ofText text = .ok u := by
  cases v with
  | string text => cases h : Uuid.ofText text <;> simp [Scalar.read, h]
  | _ => simp [Scalar.read]

/-- The schema of a scalar describes the documents that it is read from. -/
theorem reads_scalar_iff_conforms {s : Scalar} :
    (∃ d, Reads c (.scalar s) v d) ↔ Conforms c s.schema.toJson v := by
  simp only [reads_scalar]
  cases s with
  | string =>
      refine Iff.trans ?_ conforms_string.symm
      cases v <;> simp [Scalar.read]
  | bool =>
      refine Iff.trans ?_ conforms_boolean.symm
      cases v <;> simp [Scalar.read]
  | integer w => exact exists_read_integer.trans conforms_integer.symm
  | float =>
      refine Iff.trans ?_ conforms_number.symm
      cases v <;> simp [Scalar.read]
  | uuid => exact exists_read_uuid.trans conforms_uuid.symm
  | json => exact ⟨fun _ => conforms_any, fun _ => ⟨.json v, rfl⟩⟩
  | status =>
      refine Iff.trans ?_ conforms_status.symm
      cases v <;> simp [Scalar.read]

/-- A field is read just when its property describes its member, and when the member is there and
not null if it is required. -/
theorem readsField_iff_conforms {members : List (String × Json)} {f : Field}
    (ih : ∀ w, members.lookup f.key = some w →
      ((∃ d, Reads c f.ty w d) ↔ Conforms c f.ty.schema.toJson w)) :
    (∃ d, ReadsField c members f d) ↔
      (∀ w, members.lookup f.key = some w → Conforms c f.property.toJson w) ∧
        (f.required = true → ∃ w, members.lookup f.key = some w ∧ w.isNull = false) := by
  cases hw : members.lookup f.key with
  | none => cases hf : f.required <;> simp [readsField_of_lookup_none hw, hf]
  | some w =>
      have hread := ih w hw
      simp only [readsField_of_lookup hw, exists_and_right]
      unfold Field.held Field.property
      cases hf : f.required with
      | true => simp [hread]
      | false => simp [exists_reads_option, hread, conforms_nullable]

/-- **The schema of a type describes just what is read as the type.** -/
theorem reads_iff_conforms (hc : c.DistinctKeys) (hd : c.Described) (t : Ty) (v : Json)
    (ht : t.Described c) : (∃ d, Reads c t v d) ↔ Conforms c t.schema.toJson v := by
  induction t, v using Ty.descent c with
  | scalar s v => exact reads_scalar_iff_conforms
  | option t v ih =>
      rw [exists_reads_option, ih ht]
      exact conforms_nullable.symm
  | list t v ih =>
      rw [exists_reads_list]
      refine Iff.trans ?_ conforms_array.symm
      refine or_congr_right (exists_congr fun items => and_congr_right fun hv => ?_)
      exact forall₂_congr fun w hw => ih items hv w hw ht
  | map t v ih =>
      rw [exists_reads_map]
      refine Iff.trans ?_ conforms_mapping.symm
      refine or_congr_right (exists_congr fun members => and_congr_right fun hv => ?_)
      exact forall₂_congr fun m hm => ih members hv m hm ht
  | envelope t v ih => exact absurd ht id
  | record name v ih =>
      obtain ⟨hname, hm⟩ := ht
      obtain ⟨m, hm⟩ := Option.isSome_iff_exists.mp hm
      have hfields : c.fields name = m.fields := by
        unfold Catalog.fields
        rw [hm]
      -- the reference of the record type leads to the schema of its fields
      refine Iff.trans ?_ (conforms_component hname hm).symm
      have hnodup := hc.fields name
      rw [hfields] at hnodup
      rw [exists_reads_record]
      refine Iff.trans ?_ (conforms_ofFields hnodup).symm
      rw [hfields]
      refine exists_congr fun members => and_congr_right fun hv => forall₂_congr fun f hf => ?_
      have hf : f ∈ c.fields name := hfields ▸ hf
      exact readsField_iff_conforms fun w hw => ih members hv f hf w hw (hd.field hf)

/-! ## Whole readings -/

/-- **The reader accepts exactly what the exported schema describes.** A document is read strictly
as a value of a type if and only if the exported schema of the type describes it, and the same
documents are those that are read leniently with nothing left out. -/
theorem decodeValue_ok_iff_conforms (hc : c.DistinctKeys) (hd : c.Described)
    (ht : t.Described c) (v : Json) :
    ((∃ d, decodeValue c t ⟨.strict⟩ v = .ok d) ↔ Conforms c t.schema.toJson v) ∧
      ((∃ d, decodeValue c t ⟨.lenient⟩ v = .ok d ∧ d.isComplete = true) ↔
        Conforms c t.schema.toJson v) := by
  rw [← reads_iff_conforms hc hd t v ht]
  refine ⟨⟨fun ⟨d, h⟩ => ?_, fun ⟨d, h⟩ => ?_⟩, ⟨fun ⟨d, h, hcomplete⟩ => ?_, fun ⟨d, h⟩ => ?_⟩⟩
  · exact ⟨d.value, (decodeValue_strict_iff.mp h).1⟩
  · exact ⟨⟨d, []⟩, decodeValue_strict_iff.mpr ⟨h, rfl⟩⟩
  · obtain ⟨d, dropped⟩ := d
    obtain rfl : dropped = [] := List.isEmpty_iff.mp hcomplete
    exact ⟨d, decodeValue_complete.mp h⟩
  · exact ⟨⟨d, []⟩, decodeValue_complete.mpr h, rfl⟩

/-- An answer to a request for a list, and what it says about whether the list may be changed. -/
def listReply (isReadonly : Json) : Json :=
  .object [
    ("items", .array [.object [("amount", .null), ("id", .integer (.ofInt32 1)),
      ("name", .string "oat milk")]]),
    ("readonly", isReadonly)]

theorem conforms_listReply :
    Api.catalog.DistinctKeys ∧ Api.catalog.Described ∧
      (Ty.option (.record "ReadListResponse")).Described Api.catalog ∧
      Conforms Api.catalog (Ty.option (.record "ReadListResponse")).schema.toJson
        (listReply (.bool true)) ∧
      ¬Conforms Api.catalog (Ty.option (.record "ReadListResponse")).schema.toJson
        (listReply .null) := by
  have hc : Api.catalog.DistinctKeys := by decide
  have hd : Api.catalog.Described := by decide
  have ht : (Ty.option (.record "ReadListResponse")).Described Api.catalog := by decide
  have haccepted : decodeValue Api.catalog (.option (.record "ReadListResponse")) ⟨.strict⟩
      (listReply (.bool true)) =
        .ok ⟨.present (.record [
          ("items", .list [.record [("id", .integer (.ofInt32 1)), ("name", .string "oat milk"),
            ("amount", .absent)]]),
          ("readonly", .bool true)]), []⟩ := by
    cbv
  have hrefused : decodeValue Api.catalog (.option (.record "ReadListResponse")) ⟨.strict⟩
      (listReply .null) = .error ⟨⟨[.key "readonly"]⟩, .nullField⟩ := by
    cbv
  refine ⟨hc, hd, ht, (decodeValue_ok_iff_conforms hc hd ht _).1.mp ⟨_, haccepted⟩, fun h => ?_⟩
  obtain ⟨d, h⟩ := (decodeValue_ok_iff_conforms hc hd ht _).1.mpr h
  cases hrefused.symm.trans h

end Larder
