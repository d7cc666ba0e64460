import Mathlib.Tactic.MkIffOfInductiveProp
import Larder.Schema
import Larder.Uuid.Reader

/-!
# What a schema document means

An exported schema is a document, and `Conforms` says which documents it describes, keyword by
keyword. A schema without keywords describes everything, and every keyword takes something away,
with two exceptions. A reference stands for the component that it names, whatever stands beside it;
the component of standings is read as open, so that it describes every string. And null is described
wherever the schema allows it, by being nullable or by describing a collection.

The statements below say what is described by the document of each kind of schema.
-/

namespace Larder

namespace Json

/-- What an object has under a key. -/
def keyword (key : String) : Json → Option Json
  | .object members => members.lookup key
  | _ => none

@[simp] theorem keyword_nil (key : String) : (object []).keyword key = none := rfl

@[simp] theorem keyword_cons (key k : String) (v : Json) (rest : List (String × Json)) :
    (object ((k, v) :: rest)).keyword key =
      if key = k then some v else (object rest).keyword key := by
  by_cases h : key = k
  · subst h
    rw [if_pos rfl]
    exact Keyed.lookup_cons_self key v rest
  · rw [if_neg h]
    exact Keyed.lookup_cons_of_ne h v rest

@[simp] theorem keyword_insert (key k : String) (v : Json) (members : List (String × Json)) :
    (object (Keyed.insert k v members)).keyword key =
      if key = k then some v else (object members).keyword key :=
  Keyed.lookup_insert k v members key

/-- The items of an array. -/
def items : Json → List Json
  | .array items => items
  | _ => []

/-- The members of an object. -/
def members : Json → List (String × Json)
  | .object members => members
  | _ => []

end Json

namespace Schema

/-- Whether a schema has the minimum zero. -/
def startsAtZero (s : Json) : Bool :=
  match s.keyword "minimum" with
  | some (.number (.integer n)) => n.value == 0
  | _ => false

/-- The integers of a format, from zero on or not. -/
def formatWidth? : String → Bool → Option Width
  | "int32", false => some .i32
  | "int64", false => some .i64
  | "int32", true => some .u32
  | "int64", true => some .u64
  | _, _ => none

/-- The document is of the type of this name, in the format that the schema names. -/
@[simp] def OfType (s : Json) : String → Json → Prop
  | "string", .string text =>
    s.keyword "format" = some (.string "uuid") → ∃ u, Uuid.ofText text = .ok u
  | "boolean", .bool _ => True
  | "integer", .number (.integer n) => ∃ format w, s.keyword "format" = some (.string format) ∧
    formatWidth? format (startsAtZero s) = some w ∧ w.Holds n.value
  | "number", .number _ => True
  | "array", .array _ => True
  | "object", .object _ => True
  | _, _ => False

/-- Whether a document is of a type depends on these two keywords of the schema. -/
theorem ofType_congr {s s' : Json} (hformat : s.keyword "format" = s'.keyword "format")
    (hminimum : s.keyword "minimum" = s'.keyword "minimum") {name : String} {v : Json} :
    OfType s name v ↔ OfType s' name v := by
  unfold OfType startsAtZero
  rw [hformat, hminimum]

/-- Null is described by a schema that says so and by those of collections. -/
def AllowsNull (s : Json) : Prop :=
  s.keyword "nullable" = some (.bool true) ∨ s.keyword "type" = some (.string "array") ∨
    (s.keyword "additionalProperties").isSome = true

end Schema

/-- The document is described by a schema document. -/
inductive Conforms (c : Catalog) : Json → Json → Prop where
  /-- A reference stands for the record type that it names. -/
  | component {s v : Json} {name : String} {m : Model}
      (href : s.keyword "$ref" = some (.string ("#/components/schemas/" ++ name)))
      (hname : name ≠ "ListStatus") (hm : c.find? name = some m)
      (hv : Conforms c m.schema.toJson v) : Conforms c s v
  /-- Standings are open. -/
  | status {s : Json} (text : String)
      (href : s.keyword "$ref" = some (.string ("#/components/schemas/" ++ "ListStatus"))) :
      Conforms c s (.string text)
  | null {s : Json} (href : s.keyword "$ref" = none) (hnull : Schema.AllowsNull s) :
      Conforms c s .null
  | keywords {s v : Json} (href : s.keyword "$ref" = none)
      (htype : ∀ name, s.keyword "type" = some (.string name) → Schema.OfType s name v)
      (hall : ∀ ss, s.keyword "allOf" = some (.array ss) → ∀ s' ∈ ss, Conforms c s' v)
      (hitems : ∀ s', s.keyword "items" = some s' → ∀ w ∈ v.items, Conforms c s' w)
      (hvalues : ∀ s', s.keyword "additionalProperties" = some s' →
        ∀ m ∈ v.members, Conforms c s' m.2)
      (hproperties : ∀ ps, s.keyword "properties" = some ps →
        ∀ key s' w, ps.keyword key = some s' → v.keyword key = some w → Conforms c s' w)
      (hrequired : ∀ keys, s.keyword "required" = some (.array keys) →
        ∀ key, .string key ∈ keys → ∃ w, v.keyword key = some w ∧ w.isNull = false) :
      Conforms c s v

/-- No keyword of the schema takes the document away. -/
@[mk_iff]
structure Meets (c : Catalog) (s v : Json) : Prop where
  type : ∀ name, s.keyword "type" = some (.string name) → Schema.OfType s name v
  all : ∀ ss, s.keyword "allOf" = some (.array ss) → ∀ s' ∈ ss, Conforms c s' v
  items : ∀ s', s.keyword "items" = some s' → ∀ w ∈ v.items, Conforms c s' w
  values : ∀ s', s.keyword "additionalProperties" = some s' → ∀ m ∈ v.members, Conforms c s' m.2
  properties : ∀ ps, s.keyword "properties" = some ps →
    ∀ key s' w, ps.keyword key = some s' → v.keyword key = some w → Conforms c s' w
  required : ∀ keys, s.keyword "required" = some (.array keys) →
    ∀ key, .string key ∈ keys → ∃ w, v.keyword key = some w ∧ w.isNull = false

variable {c : Catalog} {s v : Json}

/-- What a schema document that is no reference describes: null, if it allows it, and whatever no
keyword takes away. -/
theorem conforms_iff (href : s.keyword "$ref" = none) :
    Conforms c s v ↔ v = .null ∧ Schema.AllowsNull s ∨ Meets c s v := by
  refine ⟨?_, ?_⟩
  · intro h
    cases h with
    | component href' => cases href.symm.trans href'
    | status text href' => cases href.symm.trans href'
    | null _ hnull => exact Or.inl ⟨rfl, hnull⟩
    | keywords _ htype hall hitems hvalues hproperties hrequired =>
        exact Or.inr ⟨htype, hall, hitems, hvalues, hproperties, hrequired⟩
  · intro h
    rcases h with ⟨rfl, hnull⟩ | h
    · exact .null href hnull
    · exact .keywords href h.type h.all h.items h.values h.properties h.required

/-- Being nullable takes nothing away. -/
theorem Meets.congr {s' : Json} (h : Meets c s v)
    (hkeyword : ∀ key, key ≠ "nullable" → s'.keyword key = s.keyword key) : Meets c s' v where
  type name hname := by
    refine (Schema.ofType_congr ?_ ?_).mpr (h.type name ?_)
    · exact hkeyword "format" (by decide)
    · exact hkeyword "minimum" (by decide)
    · rw [← hkeyword "type" (by decide), hname]
  all ss hss := h.all ss (by rw [← hkeyword "allOf" (by decide), hss])
  items s' hs' := h.items s' (by rw [← hkeyword "items" (by decide), hs'])
  values s' hs' := h.values s' (by rw [← hkeyword "additionalProperties" (by decide), hs'])
  properties ps hps := h.properties ps (by rw [← hkeyword "properties" (by decide), hps])
  required keys hkeys := h.required keys (by rw [← hkeyword "required" (by decide), hkeys])

/-! ## Scalars -/

theorem conforms_string : Conforms c Schema.string.toJson v ↔ ∃ text, v = .string text := by
  show Conforms c (.object [("type", .string "string")]) v ↔ _
  rw [conforms_iff (by simp), meets_iff]
  cases v <;> simp [Schema.AllowsNull]

theorem conforms_boolean : Conforms c Schema.boolean.toJson v ↔ ∃ b, v = .bool b := by
  show Conforms c (.object [("type", .string "boolean")]) v ↔ _
  rw [conforms_iff (by simp), meets_iff]
  cases v <;> simp [Schema.AllowsNull]

theorem conforms_uuid : Conforms c Schema.uuid.toJson v ↔
    ∃ text u, v = .string text ∧ Uuid.ofText text = .ok u := by
  show Conforms c (.ofMembers [("type", .string "string"), ("format", .string "uuid")]) v ↔ _
  rw [conforms_iff (by simp [Json.ofMembers]), meets_iff]
  cases v <;> simp [Json.ofMembers, Schema.AllowsNull]

theorem conforms_number : Conforms c Schema.number.toJson v ↔ ∃ n, v = .number n := by
  show Conforms c (.ofMembers [("type", .string "number"), ("format", .string "double")]) v ↔ _
  rw [conforms_iff (by simp [Json.ofMembers]), meets_iff]
  cases v <;> simp [Json.ofMembers, Schema.AllowsNull]

theorem conforms_any : Conforms c Schema.any.toJson v := by
  show Conforms c (.object []) v
  rw [conforms_iff (Json.keyword_nil _), meets_iff]
  simp

/-- The keywords of the schema of an integer. -/
theorem keyword_integer (w : Width) (key : String) : (Schema.integer w).toJson.keyword key =
    if key = "minimum" ∧ w.least = 0 then some (.integer (.ofUInt64 0))
    else if key = "format" then some (.string (Schema.integerFormat w))
    else if key = "type" then some (.string "integer")
    else none := by
  show (Schema.integerJson w).keyword key = _
  unfold Schema.integerJson
  by_cases hw : w.least = 0 <;> simp [hw, Json.ofMembers]

/-- The format and the minimum tell the size. -/
theorem formatWidth?_integer (w : Width) :
    Schema.formatWidth? (Schema.integerFormat w) (Schema.startsAtZero (Schema.integer w).toJson) =
      some w := by
  unfold Schema.startsAtZero
  rw [keyword_integer]
  cases w <;> rfl

theorem conforms_integer {w : Width} : Conforms c (Schema.integer w).toJson v ↔
    ∃ n, v = .number (.integer n) ∧ w.Holds n.value := by
  rw [conforms_iff (by simp [keyword_integer]), meets_iff]
  simp only [Schema.AllowsNull, keyword_integer]
  cases v with
  | number n =>
      cases n with
      | integer n => simp [keyword_integer, formatWidth?_integer]
      | float x => simp
  | _ => simp

/-! ## Collections -/

theorem conforms_array {items : Schema} : Conforms c (Schema.array items).toJson v ↔
    v = .null ∨ ∃ vs, v = .array vs ∧ ∀ w ∈ vs, Conforms c items.toJson w := by
  show Conforms c (.ofMembers [("type", .string "array"), ("items", items.toJson)]) v ↔ _
  rw [conforms_iff (by simp [Json.ofMembers]), meets_iff]
  cases v <;> simp [Json.ofMembers, Schema.AllowsNull, Json.items]

theorem conforms_mapping {values : Schema} : Conforms c (Schema.mapping values).toJson v ↔
    v = .null ∨ ∃ members, v = .object members ∧ ∀ m ∈ members, Conforms c values.toJson m.2 := by
  show Conforms c
    (.ofMembers [("type", .string "object"), ("additionalProperties", values.toJson)]) v ↔ _
  rw [conforms_iff (by simp [Json.ofMembers]), meets_iff]
  cases v <;> simp [Json.ofMembers, Schema.AllowsNull, Json.members]

/-! ## References -/

theorem keyword_component (name : String) : (Schema.component name).toJson.keyword "$ref" =
    some (.string ("#/components/schemas/" ++ name)) := by
  show (Schema.reference name).keyword "$ref" = _
  simp [Schema.reference, Schema.referenceKey]

/-- The reference to a record type describes what the record type does. -/
theorem conforms_component {name : String} {m : Model} (hname : name ≠ statusComponent)
    (hm : c.find? name = some m) :
    Conforms c (Schema.component name).toJson v ↔ Conforms c m.schema.toJson v := by
  have href := keyword_component name
  refine ⟨?_, ?_⟩
  · intro h
    cases h with
    | component href' _ hm' hv =>
        -- references of one text name one component
        have hsame := href.symm.trans href'
        simp only [Option.some.injEq, Json.string.injEq, String.append_right_inj] at hsame
        subst hsame
        cases hm.symm.trans hm'
        exact hv
    | status text href' =>
        have hsame := href.symm.trans href'
        simp only [Option.some.injEq, Json.string.injEq, String.append_right_inj] at hsame
        exact absurd hsame hname
    | null href' => cases href.symm.trans href'
    | keywords href' => cases href.symm.trans href'
  · intro h
    exact .component href hname hm h

/-- The reference to the standings describes every string. -/
theorem conforms_status :
    Conforms c (Schema.component statusComponent).toJson v ↔ ∃ text, v = .string text := by
  have href := keyword_component statusComponent
  refine ⟨?_, ?_⟩
  · intro h
    cases h with
    | component href' hname =>
        have hsame := href.symm.trans href'
        simp only [Option.some.injEq, Json.string.injEq, String.append_right_inj] at hsame
        exact absurd hsame.symm hname
    | status text => exact ⟨text, rfl⟩
    | null href' => cases href.symm.trans href'
    | keywords href' => cases href.symm.trans href'
  · intro h
    obtain ⟨text, hv⟩ := h
    subst hv
    exact .status text href

/-! ## Null -/

theorem Schema.toJson_object : ∀ (s : Schema), ∃ members, s.toJson = .object members
  | .string | .boolean | .integer _ | .number | .uuid | .any | .choice _ | .component _
  | .array _ | .mapping _ | .object _ _ => ⟨_, rfl⟩
  | .nullable inner => by
      obtain ⟨members, h⟩ := toJson_object inner
      show ∃ members, allowNull inner.toJson = .object members
      rw [h, allowNull]
      split
      · exact ⟨_, rfl⟩
      · exact ⟨_, rfl⟩

/-- A schema that allows null describes null, and what it did before. -/
theorem conforms_nullable {inner : Schema} : Conforms c (Schema.nullable inner).toJson v ↔
    v = .null ∨ Conforms c inner.toJson v := by
  obtain ⟨members, h⟩ := inner.toJson_object
  show Conforms c (Schema.allowNull inner.toJson) v ↔ _
  rw [h, Schema.allowNull]
  split
  · rename_i href
    -- a reference is wrapped, and what it describes is left to it
    rw [conforms_iff (by simp [Json.ofMembers]), meets_iff]
    simp [Json.ofMembers, Schema.AllowsNull]
  · rename_i href
    -- any other schema gets one more keyword, which takes nothing away
    have href : (Json.object members).keyword "$ref" = none := Option.not_isSome_iff_eq_none.mp href
    have hsame : ∀ key, key ≠ "nullable" →
        (Json.object (Keyed.insert "nullable" (.bool true) members)).keyword key =
          (Json.object members).keyword key := fun key hkey => by
      rw [Json.keyword_insert, if_neg hkey]
    have hallows : Schema.AllowsNull (.object (Keyed.insert "nullable" (.bool true) members)) :=
      Or.inl (by simp)
    rw [conforms_iff href, conforms_iff ((hsame "$ref" (by decide)).trans href)]
    refine ⟨?_, ?_⟩
    · intro h
      rcases h with ⟨hnull, -⟩ | h
      · exact Or.inl hnull
      · exact Or.inr (Or.inr (h.congr fun key hkey => (hsame key hkey).symm))
    · intro h
      rcases h with hnull | ⟨hnull, -⟩ | h
      · exact Or.inl ⟨hnull, hallows⟩
      · exact Or.inl ⟨hnull, hallows⟩
      · exact Or.inr (h.congr hsame)

/-! ## Objects -/

/-- The keywords of the schema of an object. -/
theorem keyword_object (properties : List (String × Schema)) (required : List String)
    (key : String) : (Schema.object properties required).toJson.keyword key =
      if key = "required" ∧ required.isEmpty = false then some (.array (required.map .string))
      else if key = "properties" then some (.object (Schema.propertiesJson properties))
      else if key = "type" then some (.string "object")
      else none := by
  show (Json.ofMembers ([("type", .string "object"),
      ("properties", .object (Schema.propertiesJson properties))] ++
    if required.isEmpty then [] else [("required", .array (required.map .string))])).keyword key = _
  cases required.isEmpty <;> simp [Json.ofMembers]

theorem keyword_propertiesJson (key : String) : ∀ (properties : List (String × Schema)),
    (Json.object (Schema.propertiesJson properties)).keyword key =
      (properties.lookup key).map Schema.toJson
  | [] => rfl
  | (k, s) :: rest => by
      show (Json.object ((k, s.toJson) :: Schema.propertiesJson rest)).keyword key = _
      rw [Json.keyword_cons, keyword_propertiesJson key rest]
      by_cases h : key = k
      · subst h
        rw [if_pos rfl, Keyed.lookup_cons_self]
        rfl
      · rw [if_neg h, Keyed.lookup_cons_of_ne h]

theorem conforms_object {properties : List (String × Schema)} {required : List String} :
    Conforms c (Schema.object properties required).toJson v ↔
      ∃ members, v = .object members ∧
        (∀ key s, properties.lookup key = some s → ∀ w, members.lookup key = some w →
          Conforms c s.toJson w) ∧
        (∀ key ∈ required, ∃ w, members.lookup key = some w ∧ w.isNull = false) := by
  rw [conforms_iff (by simp [keyword_object])]
  refine ⟨?_, ?_⟩
  · intro h
    rcases h with ⟨-, hnull⟩ | h
    · simp [Schema.AllowsNull, keyword_object] at hnull
    · have htype := h.type "object" (by simp [keyword_object])
      cases v with
      | object members =>
          refine ⟨members, rfl, fun key s hs w hw => ?_, fun key hkey => ?_⟩
          · refine h.properties (.object (Schema.propertiesJson properties)) ?_ key _ w ?_ hw
            · simp [keyword_object]
            · rw [keyword_propertiesJson, hs]
              rfl
          · refine h.required (required.map .string) ?_ key (List.mem_map_of_mem hkey)
            rw [keyword_object, if_pos ⟨rfl, List.isEmpty_eq_false_iff_exists_mem.mpr ⟨_, hkey⟩⟩]
      | _ => simp at htype
  · intro h
    obtain ⟨members, hv, hproperties, hrequired⟩ := h
    subst hv
    refine Or.inr ⟨?_, ?_, ?_, ?_, ?_, ?_⟩
    · simp [keyword_object]
    · simp [keyword_object]
    · simp [keyword_object]
    · simp [keyword_object]
    · intro ps hps key s' w hs' hw
      have hps : .object (Schema.propertiesJson properties) = ps := by
        simpa [keyword_object] using hps
      rw [← hps, keyword_propertiesJson, Option.map_eq_some_iff] at hs'
      obtain ⟨s, hs, rfl⟩ := hs'
      exact hproperties key s hs w hw
    · intro keys hkeys key hkey
      rw [keyword_object] at hkeys
      split at hkeys
      · cases hkeys
        obtain ⟨key', hkey', he⟩ := List.mem_map.mp hkey
        cases he
        exact hrequired key hkey'
      · simp at hkeys

/-- Under each key there is the property of the field of that key. -/
theorem lookup_properties {fields : List Field} (h : (fields.map Field.key).Nodup)
    {acc : List (String × Schema)} {key : String} {s : Schema} :
    (fields.foldl (fun acc f => Keyed.insert f.key f.property acc) acc).lookup key = some s ↔
      (∃ f ∈ fields, f.key = key ∧ f.property = s) ∨
        key ∉ fields.map Field.key ∧ acc.lookup key = some s := by
  induction fields generalizing acc with
  | nil => simp
  | cons f rest ih =>
      obtain ⟨hf, hrest⟩ := List.nodup_cons.mp h
      rw [List.foldl_cons, ih hrest, Keyed.lookup_insert, List.map_cons]
      by_cases hk : key = f.key
      · subst hk
        -- no later field takes the place of this one
        have hnone : ¬∃ g ∈ rest, g.key = f.key ∧ g.property = s := fun ⟨g, hg, hgk, _⟩ =>
          hf (hgk ▸ List.mem_map_of_mem hg)
        simp [hnone, hf]
      · simp [hk, Ne.symm hk]

/-- The schema of a record type describes the objects whose members are described by the properties
of their fields, and in which the required ones are there and not null. -/
theorem conforms_ofFields {fields : List Field} (h : (fields.map Field.key).Nodup) :
    Conforms c (Schema.ofFields fields).toJson v ↔
      ∃ members, v = .object members ∧ ∀ f ∈ fields,
        (∀ w, members.lookup f.key = some w → Conforms c f.property.toJson w) ∧
          (f.required = true → ∃ w, members.lookup f.key = some w ∧ w.isNull = false) := by
  unfold Schema.ofFields
  rw [conforms_object]
  refine exists_congr fun members => and_congr_right fun _ => ?_
  refine ⟨?_, ?_⟩
  · intro h f hf
    obtain ⟨hproperties, hrequired⟩ := h
    refine ⟨hproperties f.key f.property ((lookup_properties h).mpr (Or.inl ⟨f, hf, rfl, rfl⟩)), ?_⟩
    intro hreq
    exact hrequired f.key (List.mem_map_of_mem (List.mem_filter.mpr ⟨hf, hreq⟩))
  · intro hfields
    refine ⟨fun key s hs => ?_, fun key hkey => ?_⟩
    · rcases (lookup_properties h).mp hs with ⟨f, hf, rfl, rfl⟩ | ⟨-, hnone⟩
      · exact (hfields f hf).1
      · cases hnone
    · obtain ⟨f, hf, rfl⟩ := List.mem_map.mp hkey
      obtain ⟨hf, hreq⟩ := List.mem_filter.mp hf
      exact (hfields f hf).2 hreq

end Larder
