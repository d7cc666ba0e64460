import Mathlib
import Larder.Api.Catalog
import Larder.Proofs.EntryByEntry
import Larder.Proofs.Refusal
import Larder.Proofs.Reports
import Larder.Proofs.ResponseRecords

/-!
# The declaration of a record is true of its reading

The declaration of a record lists the keys of its fields and says which of them are required. The
reader of records goes by the declaration, and `DeclarationHolds` says what that comes to: it looks
at the members under these keys only, it does without a member just if its key is not required, and
of several bad fields it complains of the first.

Taking a member away, or setting it to null, changes what one field comes to and leaves the other
fields as they were (`decoded_fields_blank`); what they report lies under their own keys.
-/

namespace Larder

variable {α β γ : Type} {c : Catalog} {mode : Mode}

/-! ## Objects with one member less -/

namespace Keyed

/-- The entries without those of a key. -/
def erase (key : String) (entries : List (String × α)) : List (String × α) :=
  entries.filter fun e => e.1 ≠ key

theorem lookup_erase (key : String) (entries : List (String × α)) (k : String) :
    (erase key entries).lookup k = if k = key then none else entries.lookup k := by
  induction entries with
  | nil => exact (ite_self none).symm
  | cons e rest ih =>
      obtain ⟨k', v⟩ := e
      unfold erase at ih ⊢
      by_cases hkey : k' = key
      · subst hkey
        rw [List.filter_cons_of_neg (by simp), ih]
        by_cases hk : k = k'
        · rw [if_pos hk, if_pos hk]
        · rw [if_neg hk, if_neg hk, lookup_cons_of_ne hk]
      · rw [List.filter_cons_of_pos (by simpa using hkey)]
        by_cases hk : k = k'
        · subst hk
          rw [if_neg hkey, lookup_cons_self, lookup_cons_self]
        · rw [lookup_cons_of_ne hk, lookup_cons_of_ne hk, ih]

end Keyed

/-- The record with nothing in the field of a key. -/
def Datum.blank (key : String) : Datum → Datum
  | .record fields => .record (fields.map fun e => if e.1 = key then (key, .absent) else e)
  | d => d

/-- Whether what was left out lies under a key. -/
def Drop.under (key : String) (r : Drop) : Bool := r.path.segments.head? = some (.key key)

/-! ## What the declaration says -/

/-- What the declaration of a record says is so, when the record is read in a mode. -/
structure DeclarationHolds (c : Catalog) (m : Model) (mode : Mode) : Prop where
  /-- Objects that have the same members under the keys of the fields are the same record, or none
  for the same reason, and the same entries are left out of them. -/
  keys : ∀ members members', (∀ f ∈ m.fields, members.lookup f.key = members'.lookup f.key) →
    decodeValue c (.record m.name) ⟨mode⟩ (.object members) =
      decodeValue c (.record m.name) ⟨mode⟩ (.object members')
  /-- Without the member of a key that is not required, or with null there, the record is the same
  but for that field, in which there is nothing, and so is what is left out. -/
  optional : ∀ members d, decodeValue c (.record m.name) ⟨mode⟩ (.object members) = .ok d →
    ∀ f ∈ m.fields, f.key ∉ m.requiredKeys →
      ∀ members' ∈ [Keyed.erase f.key members, Keyed.insert f.key .null members],
        decodeValue c (.record m.name) ⟨mode⟩ (.object members') =
          .ok ⟨d.value.blank f.key, d.dropped.filter fun r => !r.under f.key⟩
  /-- Without the member of a required key, or with null there, there is no record. -/
  required : ∀ members d, decodeValue c (.record m.name) ⟨mode⟩ (.object members) = .ok d →
    ∀ f ∈ m.fields, f.key ∈ m.requiredKeys →
      decodeValue c (.record m.name) ⟨mode⟩ (.object (Keyed.erase f.key members)) =
          .error ⟨.step (.key f.key), .missingField⟩ ∧
        decodeValue c (.record m.name) ⟨mode⟩ (.object (Keyed.insert f.key .null members)) =
          .error ⟨.step (.key f.key), .nullField⟩
  /-- The first field with which anything is wrong decides. -/
  first : ∀ members e, decodeValue c (.record m.name) ⟨mode⟩ (.object members) = .error e ↔
    m.fields.findSome? (Field.complaint c mode members) = some e

/-! ## Fields and their members -/

/-- What a field comes to depends on its own member only. -/
theorem readingField_congr {f : Field} {members members' : List (String × Json)}
    (h : members.lookup f.key = members'.lookup f.key) :
    readingField c mode members f = readingField c mode members' f := by
  rw [readingField_eq, readingField_eq]
  unfold Outcome.required Outcome.optional
  rw [h]

theorem readingFields_congr {members members' : List (String × Json)} : ∀ {fields : List Field},
    (∀ f ∈ fields, members.lookup f.key = members'.lookup f.key) →
      readingFields c mode members fields = readingFields c mode members' fields
  | [], _ => by rw [readingFields_nil, readingFields_nil]
  | f :: rest, h => by
      have hrest : readingFields c mode members rest = readingFields c mode members' rest :=
        readingFields_congr fun g hg => h g (List.mem_cons_of_mem f hg)
      rw [readingFields_cons, readingFields_cons, readingField_congr (h f List.mem_cons_self), hrest]

/-- A field that is not required comes to nothing where its member is absent or null. -/
theorem readingField_blank {f : Field} (hf : f.required = false) {members : List (String × Json)}
    (h : members.lookup f.key = none ∨ members.lookup f.key = some .null) :
    readingField c mode members f = pure .absent := by
  rw [readingField_eq, if_neg (ne_true_of_eq_false hf)]
  unfold Outcome.optional
  rcases h with h | h <;> rw [h] <;> rfl

namespace Outcome

/-- Two parts end with a value if both do, and then leave out what both leave out. -/
theorem decoded_parts_eq_ok {o : Outcome α} {o' : Outcome β} {f : α → β → γ} {d : Decoded γ} :
    (do let a ← o; let b ← o'; pure (f a b)).decoded = .ok d ↔
      ∃ a b, o.decoded = .ok a ∧ o'.decoded = .ok b ∧
        d = ⟨f a.value b.value, a.dropped ++ b.dropped⟩ := by
  constructor
  · intro h
    obtain ⟨hresult, -⟩ := decoded_eq_ok.mp h
    obtain ⟨a, b, ha, hb, -⟩ := parts_eq_ok.mp hresult
    have hoa : o.decoded = .ok ⟨a, o.dropped⟩ := decoded_eq_ok.mpr ⟨ha, rfl⟩
    have hob : o'.decoded = .ok ⟨b, o'.dropped⟩ := decoded_eq_ok.mpr ⟨hb, rfl⟩
    exact ⟨_, _, hoa, hob, Except.ok.inj (h.symm.trans (decoded_parts hoa hob))⟩
  · rintro ⟨a, b, ha, hb, rfl⟩
    exact decoded_parts ha hb

end Outcome

/-- All that a field reports lies under its key. -/
theorem under_of_readingField {members : List (String × Json)} {f : Field} {d : Decoded Datum}
    (h : (readingField c mode members f).decoded = .ok d) (key : String) :
    ∀ r ∈ d.dropped, r.under key = decide (f.key = key) := by
  intro r hr
  rw [← (Outcome.decoded_eq_ok.mp h).2] at hr
  obtain ⟨s, p, hp, rfl⟩ := readingField_along members f r hr
  unfold Drop.under
  rw [hp, List.head?_cons]
  simp

/-- **One field blank.** If the fields of one key come to nothing and the others to what they came to
before, then the values are the same but for these fields, and so is what is left out. -/
theorem decoded_fields_blank {members members' : List (String × Json)} {key : String} :
    ∀ {fields : List Field},
      (∀ f ∈ fields, f.key = key → readingField c mode members' f = pure .absent) →
      (∀ f ∈ fields, f.key ≠ key → readingField c mode members' f = readingField c mode members f) →
      ∀ {d}, (readingFields c mode members fields).decoded = .ok d →
        (readingFields c mode members' fields).decoded =
          .ok ⟨d.value.map fun e => if e.1 = key then (key, .absent) else e,
            d.dropped.filter fun r => !r.under key⟩
  | [], _, _, _, h => by
      rw [readingFields_nil] at h ⊢
      cases h
      rfl
  | f :: rest, hblank, hsame, d, h => by
      rw [readingFields_cons] at h ⊢
      obtain ⟨a, b, ha, hb, rfl⟩ := Outcome.decoded_parts_eq_ok.mp h
      have hrest := decoded_fields_blank (fun g hg => hblank g (List.mem_cons_of_mem f hg))
        (fun g hg => hsame g (List.mem_cons_of_mem f hg)) hb
      have hunder := under_of_readingField ha key
      by_cases hkey : f.key = key
      · -- what the field left out is left out no more
        have hnone : a.dropped.filter (fun r => !r.under key) = [] :=
          List.filter_eq_nil_iff.mpr fun r hr => by simp [hunder r hr, hkey]
        rw [hblank f List.mem_cons_self hkey]
        refine (Outcome.decoded_parts (a := ⟨.absent, []⟩) rfl hrest).trans ?_
        rw [List.map_cons, if_pos hkey, List.filter_append, hnone, hkey]
      · have hall : a.dropped.filter (fun r => !r.under key) = a.dropped :=
          List.filter_eq_self.mpr fun r hr => by simp [hunder r hr, hkey]
        rw [hsame f List.mem_cons_self hkey, Outcome.decoded_parts ha hrest, List.map_cons,
          if_neg hkey, List.filter_append, hall]

/-! ## The declaration -/

variable {m : Model}

theorem Model.mem_requiredKeys {k : String} :
    k ∈ m.requiredKeys ↔ ∃ f ∈ m.fields, f.required = true ∧ f.key = k := by
  simp [requiredKeys, and_assoc]

/-- With distinct keys, whether a field is required is known from its key. -/
theorem Model.key_mem_requiredKeys (hkeys : (m.fields.map Field.key).Nodup) {f : Field}
    (hf : f ∈ m.fields) : f.key ∈ m.requiredKeys ↔ f.required = true := by
  rw [mem_requiredKeys]
  constructor
  · rintro ⟨g, hg, hrequired, hkey⟩
    rwa [List.inj_on_of_nodup_map hkeys hg hf hkey] at hrequired
  · exact fun h => ⟨f, hf, h, rfl⟩

theorem decodeValue_record (h : c.Declares m) (members : List (String × Json)) :
    decodeValue c (.record m.name) ⟨mode⟩ (.object members) =
      (readingFields c mode members m.fields).decoded.map fun d =>
        ⟨.record d.value, d.dropped⟩ := by
  rw [decodeValue_eq, reading_record]
  dsimp only
  rw [h, Outcome.decoded_map]

/-- The first of the fields that are wrong is the one that is wrong, if it alone is. -/
theorem findSome?_complaint (hkeys : (m.fields.map Field.key).Nodup) {f : Field} (hf : f ∈ m.fields)
    {members members' : List (String × Json)} {e : DecodeError}
    (hrest : ∀ k, k ≠ f.key → members'.lookup k = members.lookup k)
    (hnone : m.fields.findSome? (Field.complaint c mode members) = none)
    (he : f.complaint c mode members' = some e) :
    m.fields.findSome? (Field.complaint c mode members') = some e := by
  obtain ⟨before, after, hfields⟩ := List.append_of_mem hf
  refine List.findSome?_eq_some_iff.mpr ⟨before, f, after, hfields, he, fun g hg => ?_⟩
  have hg' : g ∈ m.fields := hfields ▸ List.mem_append_left _ hg
  have hne : g.key ≠ f.key := by
    intro hkey
    rw [hfields, List.map_append, List.map_cons, List.nodup_append] at hkeys
    exact hkeys.2.2 _ (List.mem_map_of_mem hg) _ List.mem_cons_self hkey
  rw [Field.complaint_congr (hrest g.key hne)]
  exact List.findSome?_eq_none_iff.mp hnone g hg'

/-- An object with one member taken away, or set to null. -/
theorem lookup_of_mem_blanked {key : String} {members members' : List (String × Json)}
    (h : members' ∈ [Keyed.erase key members, Keyed.insert key .null members]) :
    (members'.lookup key = none ∨ members'.lookup key = some .null) ∧
      ∀ k, k ≠ key → members'.lookup k = members.lookup k := by
  rcases List.mem_pair.mp h with rfl | rfl
  · exact ⟨Or.inl ((Keyed.lookup_erase _ _ _).trans (if_pos rfl)),
      fun k hk => (Keyed.lookup_erase _ _ _).trans (if_neg hk)⟩
  · exact ⟨Or.inr ((Keyed.lookup_insert _ _ _ _).trans (if_pos rfl)),
      fun k hk => (Keyed.lookup_insert _ _ _ _).trans (if_neg hk)⟩

/-- A record stays one without a member that is not required. -/
theorem decodeValue_record_blank (hm : c.Declares m) (hkeys : (m.fields.map Field.key).Nodup)
    {f : Field} (hf : f ∈ m.fields) (hrequired : f.required = false)
    {members members' : List (String × Json)}
    (hmembers : members' ∈ [Keyed.erase f.key members, Keyed.insert f.key .null members])
    {d : Decoded Datum} (hd : decodeValue c (.record m.name) ⟨mode⟩ (.object members) = .ok d) :
    decodeValue c (.record m.name) ⟨mode⟩ (.object members') =
      .ok ⟨d.value.blank f.key, d.dropped.filter fun r => !r.under f.key⟩ := by
  obtain ⟨hgone, hothers⟩ := lookup_of_mem_blanked hmembers
  rw [decodeValue_record hm] at hd ⊢
  cases hfields : (readingFields c mode members m.fields).decoded with
  | error e =>
      rw [hfields] at hd
      cases hd
  | ok es =>
      rw [hfields] at hd
      cases hd
      rw [decoded_fields_blank (fun g hg hkey => ?_) (fun g hg hkey => ?_) hfields]
      · rfl
      · obtain rfl := List.inj_on_of_nodup_map hkeys hg hf hkey
        exact readingField_blank hrequired hgone
      · exact readingField_congr (hothers g.key hkey)

/-- **The declaration of a record is true of its reading**: it says which keys matter, which members
may be missing or null, and what happens if others are, in either mode. -/
theorem declaration_holds (hm : c.Declares m) (hkeys : (m.fields.map Field.key).Nodup)
    (mode : Mode) : DeclarationHolds c m mode := by
  have herror : ∀ members e, decodeValue c (.record m.name) ⟨mode⟩ (.object members) = .error e ↔
      m.fields.findSome? (Field.complaint c mode members) = some e := fun members e => by
    rw [decodeValue_eq_error_iff_error?, reading_record_error?, hm]
  refine ⟨fun members members' h => ?_, fun members d hd f hf hkey members' hmembers' => ?_,
    fun members d hd f hf hkey => ?_, herror⟩
  · rw [decodeValue_record hm, decodeValue_record hm, readingFields_congr h]
  · have hrequired : f.required = false :=
      Bool.eq_false_iff.mpr fun h => hkey ((Model.key_mem_requiredKeys hkeys hf).mpr h)
    exact decodeValue_record_blank hm hkeys hf hrequired hmembers' hd
  · have hrequired : f.required = true := (Model.key_mem_requiredKeys hkeys hf).mp hkey
    -- nothing was wrong before, so what is wrong now is wrong with this field
    have hnone : m.fields.findSome? (Field.complaint c mode members) = none := by
      refine Option.eq_none_iff_forall_ne_some.mpr fun e he => ?_
      rw [(herror members e).mpr he] at hd
      cases hd
    refine ⟨(herror _ _).mpr (findSome?_complaint hkeys hf (fun k hk => ?_) hnone ?_),
      (herror _ _).mpr (findSome?_complaint hkeys hf (fun k hk => ?_) hnone ?_)⟩
    · exact (Keyed.lookup_erase _ _ _).trans (if_neg hk)
    · unfold Field.complaint
      rw [Keyed.lookup_erase, if_pos rfl, hrequired]
      rfl
    · exact (Keyed.lookup_insert _ _ _ _).trans (if_neg hk)
    · unfold Field.complaint
      rw [Keyed.lookup_insert, if_pos rfl, hrequired]
      rfl

/-- A recipe made of other recipes, of which there may be variants. -/
def recipeModel : Model :=
  ⟨"Recipe", [.req "name" .string, .req "parts" (.list (.record "Recipe")),
    .opt "variants" (.map (.record "Recipe"))]⟩

/-- A soup of one stock and of something that is no recipe, with a variant that is none either. -/
def soup : List (String × Json) :=
  [("name", .string "soup"),
    ("parts", .array [.bool true, .object [("name", .string "stock"), ("parts", .array [])]]),
    ("variants", .object [("cold", .string "gazpacho")])]

/-- The stock, of which there are no variants. -/
def stock : Datum :=
  .record [("name", .string "stock"), ("parts", .list []), ("variants", .absent)]

/-- The first part of the soup, which is no recipe. -/
def badPart : Drop :=
  ⟨⟨[.key "parts", .index 0]⟩,
    ⟨⟨[.key "parts", .index 0]⟩, .unexpectedType "object" "boolean"⟩⟩

/-- The variant of the soup, which is none. -/
def badVariant : Drop :=
  ⟨⟨[.key "variants", .key "cold"]⟩,
    ⟨⟨[.key "variants", .key "cold"]⟩, .unexpectedType "object" "string"⟩⟩

/-- The soup, with these variants. -/
def soupWith (variants : Datum) : Datum :=
  .record [("name", .string "soup"), ("parts", .list [stock]), ("variants", variants)]

theorem declaration_holds_recipe :
    Catalog.Declares ⟨[recipeModel]⟩ recipeModel ∧ (recipeModel.fields.map Field.key).Nodup ∧
      decodeValue ⟨[recipeModel]⟩ (.record "Recipe") ⟨.lenient⟩ (.object soup) =
        .ok ⟨soupWith (.present (.map [])), [badPart, badVariant]⟩ ∧
      decodeValue ⟨[recipeModel]⟩ (.record "Recipe") ⟨.lenient⟩
          (.object (Keyed.erase "variants" soup)) = .ok ⟨soupWith .absent, [badPart]⟩ ∧
      decodeValue ⟨[recipeModel]⟩ (.record "Recipe") ⟨.lenient⟩
          (.object (Keyed.insert "parts" .null soup)) =
        .error ⟨.step (.key "parts"), .nullField⟩ := by
  have hm : Catalog.Declares ⟨[recipeModel]⟩ recipeModel := rfl
  have hkeys : (recipeModel.fields.map Field.key).Nodup := by decide
  have hsoup : decodeValue ⟨[recipeModel]⟩ (.record "Recipe") ⟨.lenient⟩ (.object soup) =
      .ok ⟨soupWith (.present (.map [])), [badPart, badVariant]⟩ := by
    cbv
  have holds := declaration_holds hm hkeys .lenient
  refine ⟨hm, hkeys, hsoup, ?_, ?_⟩
  · exact holds.optional soup _ hsoup (.opt "variants" (.map (.record "Recipe"))) (by decide)
      (by decide) _ List.mem_cons_self
  · exact (holds.required soup _ hsoup (.req "parts" (.list (.record "Recipe"))) (by decide)
      (by decide)).2

end Larder
