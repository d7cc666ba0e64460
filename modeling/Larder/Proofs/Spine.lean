import Mathlib
import Larder.Api.Catalog
import Larder.Proofs.EntryByEntry
import Larder.Proofs.Refusal

/-!
# Failing does not depend on entries

A lenient reading leaves out the entries that it cannot read, so a bad entry never makes it fail.
What can is on the `spine` of the document: the part that is reached without going into a
collection. The spine is the document with those collections emptied that the reading comes to first,
and a lenient reading of the document fails just where a strict reading of the spine does, with the
same error. Two documents that differ in entries only have the same spine, so they fail alike. All of
this needs the fields of a record to have distinct keys: a member of two fields, a map and a record,
would be emptied for both (`spine_refused_of_sharedKey`).

The proof goes along the reading. A collection never fails in lenient mode, whatever is in it
(`reading_list_error?`, `reading_map_error?`); a record and an envelope fail as the first bad field
does (`reading_record_error?`), and the fields of the spine are the spines of the fields
(`lookup_spineMembers`).
-/

namespace Larder

/-! ## The spine of a document -/

mutual

/-- The document with the collections emptied that it is read into, as far as they are reached
through fields, payloads and options. -/
def spine (c : Catalog) : Ty → Json → Json
  | .option t, v => spine c t v
  | .list _, .array _ => .array []
  | .map _, .object _ => .object []
  | .envelope t, .object members => .object (spineMembers c [.req "ok" t] members)
  | .record name, .object members => .object (spineMembers c (c.fields name) members)
  | _, v => v
termination_by t v => (sizeOf v, sizeOf t)
decreasing_by
  · apply Prod.Lex.right; rw [Ty.option.sizeOf_spec]; omega
  · apply Prod.Lex.left; rw [Json.object.sizeOf_spec]; omega
  · apply Prod.Lex.left; rw [Json.object.sizeOf_spec]; omega

/-- The members with the spines of those that a field is read from. -/
def spineMembers (c : Catalog) (fields : List Field) :
    List (String × Json) → List (String × Json)
  | [] => []
  | (key, v) :: rest =>
    (key, match fields.find? (·.key = key) with
      | some f => spine c f.ty v
      | none => v) :: spineMembers c fields rest
termination_by members => (sizeOf members, 0)
decreasing_by
  · apply Prod.Lex.left; rw [List.cons.sizeOf_spec, Prod.mk.sizeOf_spec]; omega
  · apply Prod.Lex.left; rw [List.cons.sizeOf_spec, Prod.mk.sizeOf_spec]; omega

end

/-- The path leads through fields, payloads, failures and options only, and so to no entry of a
collection. -/
inductive OnSpine (c : Catalog) : Ty → List Segment → Prop where
  | here (t : Ty) : OnSpine c t []
  | option {t : Ty} {p : List Segment} (h : OnSpine c t p) : OnSpine c (.option t) p
  | payload {t : Ty} {p : List Segment} (h : OnSpine c t p) :
      OnSpine c (.envelope t) (.key "ok" :: p)
  | failure {t : Ty} {p : List Segment}
      (h : p ∈ [[], [Segment.key "code"], [Segment.key "description"]]) :
      OnSpine c (.envelope t) (.key "err" :: p)
  | field {name : String} {f : Field} {p : List Segment} (hf : f ∈ c.fields name)
      (h : OnSpine c f.ty p) : OnSpine c (.record name) (.key f.key :: p)

variable {c : Catalog} {t : Ty} {v : Json} {mode : Mode}

theorem spine_scalar (s : Scalar) (v : Json) : spine c (.scalar s) v = v := by
  rw [spine] <;> nofun

theorem spine_option (t : Ty) (v : Json) : spine c (.option t) v = spine c t v := by
  rw [spine]

theorem spine_list (t : Ty) (v : Json) :
    spine c (.list t) v = match v with
      | .array _ => .array []
      | v => v := by
  cases v <;> simp [spine]

theorem spine_map (t : Ty) (v : Json) :
    spine c (.map t) v = match v with
      | .object _ => .object []
      | v => v := by
  cases v <;> simp [spine]

theorem spine_envelope (t : Ty) (v : Json) :
    spine c (.envelope t) v = match v with
      | .object members => .object (spineMembers c [.req "ok" t] members)
      | v => v := by
  cases v <;> simp [spine]

theorem spine_record (name : String) (v : Json) :
    spine c (.record name) v = match v with
      | .object members => .object (spineMembers c (c.fields name) members)
      | v => v := by
  cases v <;> simp [spine]

/-- Emptying collections makes nothing null. -/
theorem isNull_spine (t : Ty) (v : Json) : (spine c t v).isNull = v.isNull := by
  induction t with
  | scalar s => rw [spine_scalar]
  | option t ih => rw [spine_option, ih]
  | list t _ => rw [spine_list]; cases v <;> rfl
  | map t _ => rw [spine_map]; cases v <;> rfl
  | envelope t _ => rw [spine_envelope]; cases v <;> rfl
  | record name => rw [spine_record]; cases v <;> rfl

theorem lookup_spineMembers (fields : List Field) (key : String) (members : List (String × Json)) :
    (spineMembers c fields members).lookup key =
      (members.lookup key).map fun v =>
        match fields.find? (·.key = key) with
        | some f => spine c f.ty v
        | none => v := by
  induction members with
  | nil => rw [spineMembers, List.lookup_nil, Option.map_none]
  | cons m rest ih =>
      obtain ⟨k, v⟩ := m
      rw [spineMembers]
      by_cases hk : key = k
      · subst hk
        rw [Keyed.lookup_cons_self, Keyed.lookup_cons_self, Option.map_some]
      · rw [Keyed.lookup_cons_of_ne hk, Keyed.lookup_cons_of_ne hk, ih]

/-- The member of a field is there on the spine as the spine of the field's type. -/
theorem lookup_spineMembers_field {fields : List Field} (hkeys : (fields.map Field.key).Nodup)
    {f : Field} (hf : f ∈ fields) (members : List (String × Json)) :
    (spineMembers c fields members).lookup f.key = (members.lookup f.key).map (spine c f.ty) := by
  -- no other field of the key can be found first
  have hfind : fields.find? (·.key = f.key) = some f := by
    cases h : fields.find? (·.key = f.key) with
    | none =>
        have hne : f.key ≠ f.key := by simpa using List.find?_eq_none.mp h f hf
        exact absurd rfl hne
    | some g =>
        have hkey : g.key = f.key := by simpa using List.find?_some h
        rw [List.inj_on_of_nodup_map hkeys (List.mem_of_find?_eq_some h) hf hkey]
  rw [lookup_spineMembers, hfind]

/-- A member that no field is read from stays as it is. -/
theorem lookup_spineMembers_other {fields : List Field} {key : String}
    (h : ∀ f ∈ fields, f.key ≠ key) (members : List (String × Json)) :
    (spineMembers c fields members).lookup key = members.lookup key := by
  have hfind : fields.find? (·.key = key) = none :=
    List.find?_eq_none.mpr fun f hf => by simpa using h f hf
  rw [lookup_spineMembers, hfind]
  exact Option.map_id'

/-! ## Collections never fail in lenient mode -/

theorem entries_lenient_error? {κ : Type} (segment : κ → Segment) (read : Json → Outcome Datum)
    (es : List (κ × Json)) : (Outcome.entries segment .lenient read es).error? = none := by
  obtain ⟨h, -⟩ := Outcome.decoded_eq_ok.mp (Outcome.entries_lenient segment read es)
  exact Outcome.error?_eq_none.mpr ⟨_, h⟩

/-- A list fails as its spine does: only if the document is no list at all. -/
theorem reading_list_error? (t : Ty) (v : Json) :
    (reading c .lenient (.list t) v).error? =
      (reading c .strict (.list t) (spine c (.list t) v)).error? := by
  rw [spine_list, reading_list, reading_list]
  cases v with
  | array items =>
      -- neither reading fails: one leaves out bad items, the other has none to read
      dsimp only
      rw [readingItems_eq_entries, readingItems_nil, Outcome.error?_map, Outcome.error?_map,
        entries_lenient_error?]
      rfl
  | _ => rfl

theorem reading_map_error? (t : Ty) (v : Json) :
    (reading c .lenient (.map t) v).error? =
      (reading c .strict (.map t) (spine c (.map t) v)).error? := by
  rw [spine_map, reading_map, reading_map]
  cases v with
  | object members =>
      dsimp only
      rw [readingEntries_eq_entries, readingEntries_nil, Outcome.error?_map,
        entries_lenient_error?]
      rfl
  | _ => rfl

/-! ## Along the reading -/

/-- A field is as bad as its spine. -/
theorem complaint_spine {fields : List Field} (hkeys : (fields.map Field.key).Nodup) {f : Field}
    (hf : f ∈ fields) {members : List (String × Json)}
    (ih : ∀ w, members.lookup f.key = some w →
      (reading c .lenient f.ty w).error? = (reading c .strict f.ty (spine c f.ty w)).error?) :
    f.complaint c .lenient members = f.complaint c .strict (spineMembers c fields members) := by
  have hlookup := lookup_spineMembers_field (c := c) hkeys hf members
  rcases member_cases members f.key with hw | hw | ⟨w, hw, hnull⟩
  · rw [hw] at hlookup
    unfold Field.complaint
    rw [hw, hlookup]
    rfl
  · rw [hw] at hlookup
    have hnull : spine c f.ty .null = .null := Json.isNull_iff.mp (isNull_spine _ _)
    unfold Field.complaint
    rw [hw, hlookup, Option.map_some, hnull]
  · rw [hw] at hlookup
    have hnull' : (spine c f.ty w).isNull = false := (isNull_spine _ _).trans hnull
    rw [Field.complaint_of_lookup hw hnull, Field.complaint_of_lookup hlookup hnull', ih w hw]

/-- Whether an envelope has a payload can be seen on the spine, and so can its failure. -/
theorem reading_envelope_error?_spine {members : List (String × Json)}
    (ih : ∀ w, members.lookup "ok" = some w →
      (reading c .lenient t w).error? = (reading c .strict t (spine c t w)).error?) :
    (reading c .lenient (.envelope t) (.object members)).error? =
      (reading c .strict (.envelope t)
        (.object (spineMembers c [.req "ok" t] members))).error? := by
  have hkeys : ([Field.req "ok" t].map Field.key).Nodup := List.nodup_singleton "ok"
  have hok : (spineMembers c [.req "ok" t] members).lookup "ok" =
      (members.lookup "ok").map (spine c t) :=
    lookup_spineMembers_field hkeys (List.mem_singleton_self _) members
  cases hpayload : members.lookup "ok" with
  | some w =>
      rw [hpayload] at hok
      rw [reading_envelope_error? (by rw [hpayload]; rfl), reading_envelope_error? (by rw [hok]; rfl)]
      exact complaint_spine hkeys (List.mem_singleton_self _) ih
  | none =>
      rw [hpayload] at hok
      have herr : (spineMembers c [.req "ok" t] members).lookup "err" = members.lookup "err" := by
        refine lookup_spineMembers_other (fun f hf => ?_) members
        obtain rfl := List.mem_singleton.mp hf
        exact show "ok" ≠ "err" by decide
      rw [reading_envelope, reading_envelope]
      dsimp only
      rw [hpayload, hok, herr]
      -- a failure is read in one way only, whatever the mode
      have hfailure : (fun w => (Failure.decode w).outcome .lenient) =
          fun w => (Failure.decode w).outcome .strict := funext fun w => by
        rw [reading_failure, reading_failure]
      unfold Outcome.required
      rw [hfailure, herr]
      rfl

/-- **A lenient reading fails as a strict reading of the spine does.** -/
theorem reading_error?_spine (hc : c.DistinctKeys) (t : Ty) (v : Json) :
    (reading c .lenient t v).error? = (reading c .strict t (spine c t v)).error? := by
  induction t, v using Ty.descent c with
  | scalar s v => rw [spine_scalar, reading_scalar, reading_scalar]
  | option t v ih =>
      rw [spine_option, reading_option, reading_option, isNull_spine]
      cases v.isNull with
      | true => rfl
      | false =>
          rw [if_neg Bool.false_ne_true, if_neg Bool.false_ne_true, Outcome.error?_map,
            Outcome.error?_map, ih]
  | list t v _ => exact reading_list_error? t v
  | map t v _ => exact reading_map_error? t v
  | envelope t v ih =>
      rw [spine_envelope]
      cases v with
      | object members => exact reading_envelope_error?_spine fun w hw => ih members w rfl hw
      | _ => rw [reading_envelope, reading_envelope]
  | record name v ih =>
      rw [spine_record]
      cases v with
      | object members =>
          dsimp only
          rw [reading_record_error?, reading_record_error?]
          exact findSome?_congr fun f hf =>
            complaint_spine (hc.fields name) hf fun w hw => ih members rfl f hf w hw
      | _ => rw [reading_record, reading_record]

/-! ## Where the errors lie -/

/-- What is wrong with a failure is wrong with itself or with one of its two members. -/
theorem failure_error?_path {e : DecodeError}
    (h : ((Failure.decode v).outcome mode).error? = some e) :
    e.path.segments ∈ [[], [.key "code"], [.key "description"]] := by
  -- neither member has parts, so what is wrong with it is wrong with itself
  have member : ∀ {α : Type} {key : String} {members : List (String × Json)}
      {read : Json → Except Fault α},
      (Outcome.required members key fun w => .ofExcept (read w)).error? = some e →
        e.path.segments = [.key key] := by
    intro α key members read h
    rcases Outcome.error?_required h with hpath | ⟨w, e', -, he', rfl⟩
    · rw [hpath]
      rfl
    · cases hread : read w with
      | ok a => rw [hread] at he'; cases he'
      | error fault => rw [hread] at he'; cases he'; rfl
  rw [reading_failure] at h
  cases v with
  | object members =>
      dsimp only at h
      rw [Outcome.error?_parts, Option.or_eq_some_iff] at h
      rcases h with hcode | ⟨-, hdescription⟩
      · simp [member hcode]
      · simp [member hdescription]
  | _ =>
      cases h
      exact List.mem_cons_self

/-- What is wrong with a field lies in it. -/
theorem OnSpine.of_complaint {f : Field} {members : List (String × Json)} {e : DecodeError}
    (h : f.complaint c .lenient members = some e)
    (ih : ∀ w, members.lookup f.key = some w → ∀ e, (reading c .lenient f.ty w).error? = some e →
      OnSpine c f.ty e.path.segments) :
    ∃ p, e.path.segments = .key f.key :: p ∧ OnSpine c f.ty p := by
  rcases Field.complaint_eq_some h with hpath | ⟨w, e', hw, he', rfl⟩
  · exact ⟨[], by rw [hpath]; rfl, .here _⟩
  · exact ⟨e'.path.segments, rfl, ih w hw e' he'⟩

/-- **A lenient reading fails on the spine**: its error lies in no entry of a collection. -/
theorem reading_error?_onSpine (t : Ty) (v : Json) :
    ∀ e, (reading c .lenient t v).error? = some e → OnSpine c t e.path.segments := by
  induction t, v using Ty.descent c with
  | scalar s v =>
      intro e he
      rw [reading_scalar] at he
      cases hread : s.read v with
      | ok d => rw [hread] at he; cases he
      | error fault =>
          rw [hread] at he
          cases he
          exact .here _
  | option t v ih =>
      intro e he
      rw [reading_option] at he
      split at he
      · cases he
      · rw [Outcome.error?_map] at he
        exact .option (ih e he)
  | list t v _ =>
      intro e he
      rw [reading_list] at he
      cases v with
      | array items =>
          dsimp only at he
          rw [readingItems_eq_entries, Outcome.error?_map, Outcome.error?_map,
            entries_lenient_error?] at he
          cases he
      | null => cases he
      | _ =>
          cases he
          exact .here _
  | map t v _ =>
      intro e he
      rw [reading_map] at he
      cases v with
      | object members =>
          dsimp only at he
          rw [readingEntries_eq_entries, Outcome.error?_map, entries_lenient_error?] at he
          cases he
      | null => cases he
      | _ =>
          cases he
          exact .here _
  | envelope t v ih =>
      intro e he
      cases v with
      | object members =>
          by_cases hok : (members.lookup "ok").isSome = true
          · rw [reading_envelope_error? hok] at he
            obtain ⟨p, hp, hspine⟩ := OnSpine.of_complaint he fun w hw => ih members w rfl hw
            rw [hp]
            exact .payload hspine
          · rw [reading_envelope] at he
            dsimp only at he
            rw [if_neg hok] at he
            split at he
            · rw [Outcome.error?_map] at he
              rcases Outcome.error?_required he with hpath | ⟨w, e', -, he', rfl⟩
              · rw [hpath]
                exact .failure List.mem_cons_self
              · exact .failure (failure_error?_path he')
            · cases he
              exact .here _
      | _ =>
          rw [reading_envelope] at he
          cases he
          exact .here _
  | record name v ih =>
      intro e he
      cases v with
      | object members =>
          rw [reading_record_error?] at he
          obtain ⟨f, hf, hcomplaint⟩ := List.exists_of_findSome?_eq_some he
          obtain ⟨p, hp, hspine⟩ :=
            OnSpine.of_complaint hcomplaint fun w hw => ih members rfl f hf w hw
          rw [hp]
          exact .field hf hspine
      | _ =>
          rw [reading_record] at he
          cases he
          exact .here _

/-- No step of a path on the spine is an index. -/
theorem OnSpine.index_notMem {p : List Segment} (h : OnSpine c t p) (i : Nat) :
    .index i ∉ p := by
  induction h with
  | here t => exact List.not_mem_nil
  | option _ ih => exact ih
  | payload _ ih => exact List.not_mem_cons_of_ne_of_not_mem nofun ih
  | failure h =>
      refine List.not_mem_cons_of_ne_of_not_mem nofun ?_
      simp only [List.mem_cons, List.not_mem_nil, or_false] at h
      rcases h with rfl | rfl | rfl <;> simp
  | field _ _ ih => exact List.not_mem_cons_of_ne_of_not_mem nofun ih

/-! ## Whole readings -/

/-- **A bad entry never makes a lenient reading fail.** It fails just where a strict reading of the
spine does, with the same error; the error lies in no entry of a collection; and documents with the
same spine, which differ in the contents of their collections only, fail alike. The fields of a
record have distinct keys, and need to (`spine_refused_of_sharedKey`). -/
theorem decodeValue_lenient_error_iff_spine (hc : c.DistinctKeys) (t : Ty) (v : Json) :
    (∀ e, decodeValue c t ⟨.lenient⟩ v = .error e ↔
      decodeValue c t ⟨.strict⟩ (spine c t v) = .error e) ∧
    (∀ e, decodeValue c t ⟨.lenient⟩ v = .error e →
      OnSpine c t e.path.segments ∧ ∀ i, .index i ∉ e.path.segments) ∧
    ∀ w, spine c t w = spine c t v → ∀ e,
      (decodeValue c t ⟨.lenient⟩ w = .error e ↔ decodeValue c t ⟨.lenient⟩ v = .error e) := by
  have hspine : ∀ w e, decodeValue c t ⟨.lenient⟩ w = .error e ↔
      decodeValue c t ⟨.strict⟩ (spine c t w) = .error e := fun w e => by
    rw [decodeValue_eq_error_iff_error?, decodeValue_eq_error_iff_error?, reading_error?_spine hc]
  refine ⟨hspine v, fun e he => ?_, fun w hw e => ?_⟩
  · have hon := reading_error?_onSpine t v e (decodeValue_eq_error_iff_error?.mp he)
    exact ⟨hon, hon.index_notMem⟩
  · rw [hspine w, hspine v, hw]

/-- An answer to a request for a list, with these items, that does not say rightly whether the list
may be changed. -/
def vagueReply (items : List Json) : Json :=
  .object [("ok", .object [("items", .array items), ("readonly", .string "yes")])]

theorem decodeValue_lenient_error_iff_spine_vagueReply :
    Api.catalog.DistinctKeys ∧
      spine Api.catalog (.envelope (.record "ReadListResponse")) (vagueReply [.string "junk", .null]) =
        vagueReply [] ∧
      decodeValue Api.catalog (.envelope (.record "ReadListResponse")) ⟨.strict⟩ (vagueReply []) =
        .error ⟨⟨[.key "ok", .key "readonly"]⟩, .unexpectedType "boolean" "string"⟩ ∧
      decodeValue Api.catalog (.envelope (.record "ReadListResponse")) ⟨.lenient⟩
          (vagueReply [.string "junk", .null]) =
        .error ⟨⟨[.key "ok", .key "readonly"]⟩, .unexpectedType "boolean" "string"⟩ := by
  have hc : Api.catalog.DistinctKeys := by decide
  have hspine : spine Api.catalog (.envelope (.record "ReadListResponse"))
      (vagueReply [.string "junk", .null]) = vagueReply [] := by
    cbv
  have hstrict : decodeValue Api.catalog (.envelope (.record "ReadListResponse")) ⟨.strict⟩
      (vagueReply []) =
        .error ⟨⟨[.key "ok", .key "readonly"]⟩, .unexpectedType "boolean" "string"⟩ := by
    cbv
  refine ⟨hc, hspine, hstrict, ?_⟩
  exact ((decodeValue_lenient_error_iff_spine hc _ _).1 _).mpr (hspine ▸ hstrict)

/-- A jar of which one member is read twice: as a map, and as its label. -/
def labelledTwice : Catalog :=
  ⟨[⟨"Jar", [⟨"notes", "about", .map .string, true⟩, ⟨"label", "about", .record "Label", true⟩]⟩,
    ⟨"Label", [.req "text" .string]⟩]⟩

/-- **Where two fields have one key, the spine may be refused though the document is not.** The
member is emptied because one field is a map, and then the other field misses what was in it. -/
theorem spine_refused_of_sharedKey :
    let jar := Json.object [("about", .object [("text", .string "plums")])]
    ¬labelledTwice.DistinctKeys ∧
      decodeValue labelledTwice (.record "Jar") ⟨.lenient⟩ jar =
        .ok ⟨.record [("about", .map [("text", .string "plums")]),
          ("about", .record [("text", .string "plums")])], []⟩ ∧
      spine labelledTwice (.record "Jar") jar = .object [("about", .object [])] ∧
      decodeValue labelledTwice (.record "Jar") ⟨.strict⟩ (spine labelledTwice (.record "Jar") jar) =
        .error ⟨⟨[.key "about", .key "text"]⟩, .missingField⟩ := by
  intro jar
  -- the first field of the key is the map, so the member is emptied
  have hspine : spine labelledTwice (.record "Jar") jar = .object [("about", .object [])] := by
    cbv
  refine ⟨by decide, by cbv, hspine, ?_⟩
  rw [hspine]
  cbv

end Larder
