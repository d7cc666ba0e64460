import Mathlib
import Larder.Api.Catalog
import Larder.Proofs.Complete
import Larder.Proofs.Reports

/-!
# A lenient reading loses exactly what it reports

Take a document, read it leniently, and remove from it every entry whose path the reading reports:
what is left is read strictly, as the same value. Nothing was lost silently, and nothing else had to
go.

`Json.without` removes entries by their paths, all at once: the paths are those in the document as
it was, so that removing an element of an array does not move the paths of the others. The proof
goes along the reading. What a reading leaves out lies strictly below where it is (`reading_along`),
so the paths reported by the entries of a collection, or by the fields of a record whose keys are
distinct, do not get in each other's way (`Outcome.Names.parts`).
-/

namespace Larder

namespace Json

mutual

/-- The document without the entries that `gone` names. It names them by their paths from here. -/
def prune (gone : List Segment → Bool) : Json → Json
  | .array items => .array (pruneItems gone 0 items)
  | .object members => .object (pruneMembers gone members)
  | scalar => scalar

/-- The items of an array, from an index on, without those that are gone. -/
def pruneItems (gone : List Segment → Bool) (index : Nat) : List Json → List Json
  | [] => []
  | v :: rest =>
    if gone [.index index] then pruneItems gone (index + 1) rest
    else v.prune (fun p => gone (.index index :: p)) :: pruneItems gone (index + 1) rest

/-- The members of an object without those that are gone. -/
def pruneMembers (gone : List Segment → Bool) : List (String × Json) → List (String × Json)
  | [] => []
  | (key, v) :: rest =>
    if gone [.key key] then pruneMembers gone rest
    else (key, v.prune fun p => gone (.key key :: p)) :: pruneMembers gone rest

end

/-- The document without the entries at these paths. -/
def without (v : Json) (paths : List Path) : Json := v.prune fun p => paths.contains ⟨p⟩

theorem isNull_prune (gone : List Segment → Bool) (v : Json) :
    (v.prune gone).isNull = v.isNull := by
  cases v <;> rfl

theorem lookup_pruneMembers (gone : List Segment → Bool) (key : String) :
    ∀ members : List (String × Json), (pruneMembers gone members).lookup key =
      if gone [.key key] then none
      else (members.lookup key).map (prune fun p => gone (.key key :: p))
  | [] => by
      unfold pruneMembers
      split <;> rfl
  | (k, v) :: rest => by
      have ih := lookup_pruneMembers gone key rest
      unfold pruneMembers
      by_cases hk : key = k
      · subst hk
        split
        · rename_i hgone
          rw [ih, if_pos hgone]
        · rw [Keyed.lookup_cons_self, Keyed.lookup_cons_self]
          rfl
      · rw [Keyed.lookup_cons_of_ne hk]
        split
        · exact ih
        · rw [Keyed.lookup_cons_of_ne hk, ih]

mutual

/-- Where nothing is gone, the document stays as it is. -/
theorem prune_eq_self {gone : List Segment → Bool} (h : ∀ s p, gone (s :: p) = false) :
    ∀ v : Json, v.prune gone = v
  | .array items => by rw [prune, pruneItems_eq_self h]
  | .object members => by rw [prune, pruneMembers_eq_self h]
  | .null | .bool _ | .number _ | .string _ => rfl

theorem pruneItems_eq_self {gone : List Segment → Bool} (h : ∀ s p, gone (s :: p) = false) :
    ∀ (index : Nat) (items : List Json), pruneItems gone index items = items
  | _, [] => rfl
  | index, v :: rest => by
      rw [pruneItems, if_neg (ne_true_of_eq_false (h _ _)),
        prune_eq_self (fun s p => h (.index index) (s :: p)) v,
        pruneItems_eq_self h (index + 1) rest]

theorem pruneMembers_eq_self {gone : List Segment → Bool} (h : ∀ s p, gone (s :: p) = false) :
    ∀ members : List (String × Json), pruneMembers gone members = members
  | [] => rfl
  | (key, v) :: rest => by
      rw [pruneMembers, if_neg (ne_true_of_eq_false (h _ _)),
        prune_eq_self (fun s p => h (.key key) (s :: p)) v, pruneMembers_eq_self h rest]

end

end Json

/-! ## Reading what is left -/

variable {c : Catalog} {t : Ty} {d : Datum}

/-- What a lenient reading of the document gives is what there is in the document without the
entries that it reports. -/
def Prunes (c : Catalog) (t : Ty) (v : Json) : Prop :=
  ∀ (gone : List Segment → Bool) (d : Datum),
    (reading c .lenient t v).result = .ok d →
    (reading c .lenient t v).Names gone (fun _ => True) →
    Reads c t (v.prune gone) d

/-- Nothing is reported of the place itself, so the entry stays if it is read. -/
theorem not_gone_of_below {α : Type} {gone : List Segment → Bool} {s : Segment} {o : Outcome α}
    (ho : o.Along fun _ => True) (h : (o.below (.step s)).Names gone (· = s)) :
    gone [s] = false := by
  refine Bool.eq_false_iff.mpr fun hgone => ?_
  obtain ⟨d, hd, hp⟩ := (h.below []).mp hgone
  obtain ⟨s', p', hp', -⟩ := ho d hd
  rw [hp] at hp'
  cases hp'

/-- An entry of a collection is gone if it cannot be read; otherwise it is read without what is
reported inside it. -/
theorem Prunes.entry {v : Json} (ih : Prunes c t v) {gone : List Segment → Bool} {s : Segment}
    {d? : Option Datum}
    (hres : (Outcome.entry .lenient s (reading c .lenient t v)).result = .ok d?)
    (hnames : (Outcome.entry .lenient s (reading c .lenient t v)).Names gone (· = s)) :
    gone [s] = true ∧ d? = none ∨
      gone [s] = false ∧ ∃ d, d? = some d ∧ Reads c t (v.prune fun p => gone (s :: p)) d := by
  have hal := reading_along c .lenient t v
  have key := ih (fun p => gone (s :: p))
  generalize reading c .lenient t v = o at hres hnames hal key
  obtain ⟨result, dropped, log⟩ := o
  cases result with
  | error e =>
      -- the entry itself is what is reported
      cases hres
      exact Or.inl ⟨(hnames s [] rfl).mpr ⟨_, List.mem_singleton_self _, rfl⟩, rfl⟩
  | ok d =>
      cases hres
      have hbelow : ((⟨.ok d, dropped, log⟩ : Outcome Datum).below (.step s)).Names gone (· = s) :=
        hnames
      refine Or.inr ⟨not_gone_of_below hal hbelow, d, rfl, key d rfl ?_⟩
      intro s' p _
      exact hbelow.below (s' :: p)

/-- The items that are left are read as the items of the value. -/
theorem Prunes.items : ∀ {items : List Json}, (∀ v ∈ items, Prunes c t v) →
    ∀ {index : Nat} {gone : List Segment → Bool} {ds : List Datum},
      (readingItems c .lenient t index items).result = .ok ds →
      (readingItems c .lenient t index items).Names gone (Segment.From index) →
      List.Forall₂ (Reads c t) (Json.pruneItems gone index items) ds
  | [], _, _, _, _, hres, _ => by
      rw [readingItems_nil] at hres
      cases hres
      exact .nil
  | v :: rest, ih, index, gone, _, hres, hnames => by
      rw [readingItems_cons] at hres hnames
      obtain ⟨d?, ds, hd?, hds, rfl⟩ := Outcome.parts_eq_ok.mp hres
      -- the first item and those after it look at different indices
      obtain ⟨hentry, hlater⟩ := hnames.parts hd? hds (Outcome.along_entry _ _ _)
        (readingItems_along _ _) (fun _ => Segment.from_self) (fun _ => Segment.From.of_succ)
        fun _ => Segment.not_from_succ
      have hrest := Prunes.items (fun w hw => ih w (List.mem_cons_of_mem v hw)) hds hlater
      rw [Json.pruneItems]
      -- the items that stay keep their old indices, so what is gone of the rest stays the same
      rcases (ih v List.mem_cons_self).entry hd? hentry with ⟨hgone, rfl⟩ | ⟨hgone, d, rfl, hd⟩
      · rw [if_pos hgone]
        exact hrest
      · rw [if_neg (ne_true_of_eq_false hgone)]
        exact .cons hd hrest

/-- The entries that are left are read as the entries of the value. -/
theorem Prunes.entries : ∀ {entries : List (String × Json)}, (entries.map Prod.fst).Nodup →
    (∀ m ∈ entries, Prunes c t m.2) →
    ∀ {gone : List Segment → Bool} {es : List (String × Datum)},
      (readingEntries c .lenient t entries).result = .ok es →
      (readingEntries c .lenient t entries).Names gone (Segment.Among (entries.map Prod.fst)) →
      List.Forall₂ (fun m e => e.1 = m.1 ∧ Reads c t m.2 e.2) (Json.pruneMembers gone entries) es
  | [], _, _, _, _, hres, _ => by
      rw [readingEntries_nil] at hres
      cases hres
      exact .nil
  | (key, v) :: rest, hnodup, ih, gone, _, hres, hnames => by
      rw [readingEntries_cons] at hres hnames
      obtain ⟨d?, es, hd?, hes, rfl⟩ := Outcome.parts_eq_ok.mp hres
      obtain ⟨hkey, hnodup⟩ := List.nodup_cons.mp hnodup
      -- no later entry has the key of the first
      obtain ⟨hentry, hlater⟩ := hnames.parts hd? hes (Outcome.along_entry _ _ _)
        (readingEntries_along _) (fun _ => Segment.among_self) (fun _ => Segment.Among.cons)
        fun _ => Segment.not_among hkey
      have hrest := Prunes.entries hnodup (fun m hm => ih m (List.mem_cons_of_mem _ hm)) hes hlater
      rw [Json.pruneMembers]
      rcases (ih (key, v) List.mem_cons_self).entry hd? hentry with
        ⟨hgone, rfl⟩ | ⟨hgone, d, rfl, hd⟩
      · rw [if_pos hgone]
        exact hrest
      · rw [if_neg (ne_true_of_eq_false hgone)]
        exact .cons ⟨rfl, hd⟩ hrest

/-- A member that is read stays, and is read without what is reported inside it. -/
theorem Prunes.member {members : List (String × Json)} {key : String} {w : Json}
    (hw : members.lookup key = some w) (ih : Prunes c t w) {gone : List Segment → Bool}
    (hres : (reading c .lenient t w).result = .ok d)
    (hnames : ((reading c .lenient t w).below (.step (.key key))).Names gone (· = .key key)) :
    ∃ w', (Json.pruneMembers gone members).lookup key = some w' ∧ w'.isNull = w.isNull ∧
      Reads c t w' d := by
  refine ⟨w.prune fun p => gone (.key key :: p), ?_, Json.isNull_prune _ w, ?_⟩
  · have hstays := not_gone_of_below (reading_along c .lenient t w) hnames
    rw [Json.lookup_pruneMembers, hw, hstays]
    rfl
  · exact ih _ d hres fun s p _ => hnames.below (s :: p)

theorem Prunes.field {members : List (String × Json)} {f : Field}
    (ih : ∀ w, members.lookup f.key = some w → Prunes c f.ty w) {gone : List Segment → Bool}
    (hres : (readingField c .lenient members f).result = .ok d)
    (hnames : (readingField c .lenient members f).Names gone (· = .key f.key)) :
    ReadsField c (Json.pruneMembers gone members) f d := by
  rw [readingField_eq] at hres hnames
  cases hf : f.required with
  | true =>
      rw [if_pos hf] at hres hnames
      obtain ⟨w, hw, hnull, hd⟩ := Outcome.required_eq_ok.mp hres
      rw [Outcome.required_of_lookup hw hnull] at hnames
      obtain ⟨w', hw', hnull', hd'⟩ := Prunes.member hw (ih w hw) hd hnames
      exact (readsField_required hf).mpr ⟨w', hw', hnull'.trans hnull, hd'⟩
  | false =>
      rw [if_neg (ne_true_of_eq_false hf)] at hres hnames
      obtain ⟨d?, hd?, rfl⟩ := Outcome.map_eq_ok.mp hres
      rw [Outcome.Names.map] at hnames
      rcases Outcome.optional_eq_ok.mp hd? with ⟨hnull, rfl⟩ | ⟨w, d, hw, hnull, hd, rfl⟩
      · refine (readsField_optional hf).mpr (Or.inl ⟨fun w' hw' => ?_, rfl⟩)
        rw [Json.lookup_pruneMembers] at hw'
        split at hw'
        · cases hw'
        · obtain ⟨w, hw, rfl⟩ := Option.map_eq_some_iff.mp hw'
          rw [Json.isNull_prune]
          exact hnull w hw
      · rw [Outcome.optional_of_lookup hw hnull, Outcome.below_map, Outcome.Names.map] at hnames
        obtain ⟨w', hw', hnull', hd'⟩ := Prunes.member hw (ih w hw) hd hnames
        exact (readsField_optional hf).mpr (Or.inr ⟨w', d, hw', hnull'.trans hnull, hd', rfl⟩)

/-- What is left of the members is read as the fields of the value. -/
theorem Prunes.fields {members : List (String × Json)} : ∀ {fields : List Field},
    (fields.map Field.key).Nodup →
    (∀ f ∈ fields, ∀ w, members.lookup f.key = some w → Prunes c f.ty w) →
    ∀ {gone : List Segment → Bool} {es : List (String × Datum)},
      (readingFields c .lenient members fields).result = .ok es →
      (readingFields c .lenient members fields).Names gone (Segment.Among (fields.map Field.key)) →
      List.Forall₂ (fun f e => e.1 = f.key ∧ ReadsField c (Json.pruneMembers gone members) f e.2)
        fields es
  | [], _, _, _, _, hres, _ => by
      rw [readingFields_nil] at hres
      cases hres
      exact .nil
  | f :: rest, hnodup, ih, gone, _, hres, hnames => by
      rw [readingFields_cons] at hres hnames
      obtain ⟨d, es, hd, hes, rfl⟩ := Outcome.parts_eq_ok.mp hres
      obtain ⟨hkey, hnodup⟩ := List.nodup_cons.mp hnodup
      obtain ⟨hfield, hlater⟩ := hnames.parts hd hes (readingField_along _ _)
        (readingFields_along _ _) (fun _ => Segment.among_self) (fun _ => Segment.Among.cons)
        fun _ => Segment.not_among hkey
      exact .cons ⟨rfl, Prunes.field (ih f List.mem_cons_self) hd hfield⟩
        (Prunes.fields hnodup (fun g hg => ih g (List.mem_cons_of_mem f hg)) hes hlater)

/-- A reading that reports nothing leaves the document as it is. -/
theorem Prunes.of_complete {v : Json} (h : (reading c .lenient t v).dropped = []) :
    Prunes c t v := by
  intro gone d hres hnames
  have hstays : ∀ s p, gone (s :: p) = false := by
    intro s p
    refine Bool.eq_false_iff.mpr fun hgone => ?_
    obtain ⟨e, he, -⟩ := (hnames s p trivial).mp hgone
    rw [h] at he
    cases he
  rw [Json.prune_eq_self hstays]
  exact decodeValue_complete.mp (decodeValue_eq_ok.mpr ⟨hres, h⟩)

/-! ## Along the type -/

theorem Prunes.scalar (s : Scalar) (v : Json) : Prunes c (.scalar s) v := by
  refine Prunes.of_complete ?_
  rw [reading_scalar]
  exact Outcome.dropped_ofExcept _

theorem Prunes.option {v : Json} (ih : Prunes c t v) : Prunes c (.option t) v := by
  intro gone d hres hnames
  rw [reading_option] at hres hnames
  cases hnull : v.isNull with
  | true =>
      rw [if_pos hnull] at hres
      cases hres
      exact reads_option.mpr (Or.inl ⟨by rw [Json.isNull_prune, hnull], rfl⟩)
  | false =>
      rw [if_neg (ne_true_of_eq_false hnull)] at hres hnames
      obtain ⟨e, he, rfl⟩ := Outcome.map_eq_ok.mp hres
      refine reads_option.mpr (Or.inr ⟨by rw [Json.isNull_prune, hnull], e, ?_, rfl⟩)
      exact ih gone e he (Outcome.Names.map.mp hnames)

theorem Prunes.list {v : Json} (ih : ∀ items, v = .array items → ∀ w ∈ items, Prunes c t w) :
    Prunes c (.list t) v := by
  cases v with
  | null => exact Prunes.of_complete (by rw [reading_list]; rfl)
  | array items =>
      intro gone d hres hnames
      rw [reading_list] at hres hnames
      obtain ⟨ds, hds, rfl⟩ := Outcome.map_eq_ok.mp hres
      refine reads_list.mpr (Or.inr ⟨_, ds, rfl, ?_, rfl⟩)
      refine Prunes.items (ih items rfl) hds ?_
      exact fun s p _ => Outcome.Names.map.mp hnames s p trivial
  | _ =>
      intro gone d hres hnames
      rw [reading_list] at hres
      cases hres

theorem Prunes.map {v : Json} (hkeys : ∀ members, v = .object members → Keyed.Sorted members)
    (ih : ∀ members, v = .object members → ∀ m ∈ members, Prunes c t m.2) :
    Prunes c (.map t) v := by
  cases v with
  | null => exact Prunes.of_complete (by rw [reading_map]; rfl)
  | object members =>
      intro gone d hres hnames
      rw [reading_map] at hres hnames
      obtain ⟨es, hes, rfl⟩ := Outcome.map_eq_ok.mp hres
      refine reads_map.mpr (Or.inr ⟨_, es, rfl, ?_, rfl⟩)
      refine Prunes.entries (hkeys members rfl).nodup (ih members rfl) hes ?_
      exact fun s p _ => Outcome.Names.map.mp hnames s p trivial
  | _ =>
      intro gone d hres hnames
      rw [reading_map] at hres
      cases hres

theorem Prunes.envelope {v : Json} (ih : ∀ members w, v = .object members →
    members.lookup "ok" = some w → Prunes c t w) : Prunes c (.envelope t) v := by
  cases v with
  | object members =>
      intro gone d hres hnames
      cases hok : members.lookup "ok" with
      | some w =>
          rw [reading_envelope] at hres hnames
          dsimp only at hres hnames
          rw [if_pos (Option.isSome_iff_exists.mpr ⟨_, hok⟩)] at hres hnames
          obtain ⟨e, he, rfl⟩ := Outcome.map_eq_ok.mp hres
          obtain ⟨w, hw, hnull, he⟩ := Outcome.required_eq_ok.mp he
          rw [Outcome.Names.map, Outcome.required_of_lookup hw hnull] at hnames
          obtain ⟨w', hw', hnull', he'⟩ := Prunes.member hw (ih members w rfl hw) he
            fun s p _ => hnames s p trivial
          exact reads_envelope.mpr ⟨_, rfl, Or.inl ⟨w', e, hw', hnull'.trans hnull, he', rfl⟩⟩
      | none =>
          -- a failure is read in one way only, whatever the mode
          refine Prunes.of_complete ?_ gone d hres hnames
          rw [reading_envelope]
          dsimp only
          rw [if_neg (Option.not_isSome_iff_eq_none.mpr hok)]
          split
          · rw [Outcome.dropped_map]
            exact Outcome.dropped_required failure_dropped
          · rfl
  | _ =>
      intro gone d hres hnames
      rw [reading_envelope] at hres
      cases hres

theorem Prunes.record {name : String} {v : Json} (hc : c.DistinctKeys)
    (ih : ∀ members, v = .object members → ∀ f ∈ c.fields name, ∀ w,
      members.lookup f.key = some w → Prunes c f.ty w) : Prunes c (.record name) v := by
  cases v with
  | object members =>
      intro gone d hres hnames
      rw [reading_record] at hres hnames
      obtain ⟨es, hes, rfl⟩ := Outcome.map_eq_ok.mp hres
      refine reads_record.mpr ⟨_, es, rfl, ?_, rfl⟩
      refine Prunes.fields (hc.fields name) (ih members rfl) hes ?_
      exact fun s p _ => Outcome.Names.map.mp hnames s p trivial
  | _ =>
      intro gone d hres hnames
      rw [reading_record] at hres
      cases hres

/-- **What a lenient reading gives is what there is without what it reports.** -/
theorem reads_prune (hc : c.DistinctKeys) (t : Ty) (v : Json) (hv : v.WellFormed) :
    Prunes c t v := by
  induction t, v using Ty.descent c with
  | scalar s v => exact .scalar s v
  | option t v ih => exact .option (ih hv)
  | list t v ih =>
      refine .list fun items hitems w hw => ih items hitems w hw ?_
      subst hitems
      exact (Json.itemsWellFormed_iff items).mp hv w hw
  | map t v ih =>
      refine .map (fun members hmembers => ?_) fun members hmembers m hm =>
        ih members hmembers m hm ?_
      · subst hmembers
        exact hv.1
      · subst hmembers
        exact (Json.membersWellFormed_iff members).mp hv.2 m hm
  | envelope t v ih =>
      refine .envelope fun members w hmembers hw => ih members w hmembers hw ?_
      subst hmembers
      exact hv.of_lookup hw
  | record name v ih =>
      refine .record hc fun members hmembers f hf w hw => ih members hmembers f hf w hw ?_
      subst hmembers
      exact hv.of_lookup hw

/-! ## Whole readings -/

/-- **A lenient reading loses exactly what it reports.** What it leaves of the document, when the
entries that it reports are taken out, is read strictly as the same value. -/
theorem decodeValue_without_dropped (hc : c.DistinctKeys) (t : Ty) {v : Json} (hv : v.WellFormed)
    {d : Decoded Datum} (h : decodeValue c t ⟨.lenient⟩ v = .ok d) :
    decodeValue c t ⟨.strict⟩ (v.without (d.dropped.map Drop.path)) = .ok ⟨d.value, []⟩ := by
  obtain ⟨hres, hdropped⟩ := decodeValue_eq_ok.mp h
  refine decodeValue_complete.mpr (reads_prune hc t v hv _ d.value hres fun s p _ => ?_)
  rw [hdropped, List.contains_iff_mem, List.mem_map]
  refine exists_congr fun e => and_congr_right fun _ => ?_
  exact ⟨congrArg Path.segments, fun hp => by rw [← hp]⟩

/-- Two answers to a request for a list. One item of the first is no item; the second has such an
item too, but does not say whether the list may be changed. -/
def brokenReplies : Json :=
  .array [
    .object [("items", .array [
        .object [("id", .integer (.ofInt32 1)), ("name", .string "oat milk")],
        .string "junk"]),
      ("readonly", .bool false)],
    .object [("items", .array [.string "junk"])]]

/-- What a lenient reading makes of them: it forgets the item that it left out of the second
answer. -/
def keptReplies : Decoded Datum :=
  ⟨.list [.record [
      ("items", .list [.record [("id", .integer (.ofInt32 1)), ("name", .string "oat milk"),
        ("amount", .absent)]]),
      ("readonly", .bool false)]],
    [⟨⟨[.index 0, .key "items", .index 1]⟩,
        ⟨⟨[.index 0, .key "items", .index 1]⟩, .unexpectedType "object" "string"⟩⟩,
      ⟨⟨[.index 1]⟩, ⟨⟨[.index 1, .key "readonly"]⟩, .missingField⟩⟩]⟩

theorem decodeValue_without_dropped_replies :
    Api.catalog.DistinctKeys ∧ brokenReplies.WellFormed ∧
      decodeValue Api.catalog (.list (.record "ReadListResponse")) ⟨.lenient⟩ brokenReplies =
        .ok keptReplies ∧
      decodeValue Api.catalog (.list (.record "ReadListResponse")) ⟨.strict⟩
        (brokenReplies.without (keptReplies.dropped.map Drop.path)) =
          .ok ⟨keptReplies.value, []⟩ := by
  have hc : Api.catalog.DistinctKeys := by decide
  have hv : brokenReplies.WellFormed := by
    simp only [brokenReplies, Json.WellFormed, Json.ItemsWellFormed, Json.MembersWellFormed,
      Keyed.Sorted, Json.integer, and_true]
    decide
  have h : decodeValue Api.catalog (.list (.record "ReadListResponse")) ⟨.lenient⟩ brokenReplies =
      .ok keptReplies := by
    cbv
  exact ⟨hc, hv, h, decodeValue_without_dropped hc _ hv h⟩

example : brokenReplies.without (keptReplies.dropped.map Drop.path) =
    .array [.object [
      ("items", .array [.object [("id", .integer (.ofInt32 1)), ("name", .string "oat milk")]]),
      ("readonly", .bool false)]] := by
  rfl

end Larder
