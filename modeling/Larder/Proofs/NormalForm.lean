import Mathlib
import Larder.Api.Samples
import Larder.Proofs.IntegerRounding
import Larder.Proofs.Pruning
import Larder.Proofs.RoundTrip

/-!
# Reading normalises

Many documents are read as one value: null for an empty collection, an integer for a floating point
number, other spellings of an identifier, members that no field asks for, entries that are left out.
The document that the value is written as is the normal form of them all: it is read, in either
mode, as that very value with nothing left out, so reading and writing it again changes nothing.

What could go wrong is null, which a required field and a payload refuse. So the invariant
(`ReadsBack`) says besides that a value is written as null only if it was read from null. It is
carried along strict readings; a lenient reading is a strict reading of what is left of the document
(`reads_prune`).
-/

namespace Larder

/-! ## What is left of a document -/

namespace Json

theorem keys_pruneMembers_sublist (gone : List Segment → Bool) (members : List (String × Json)) :
    ((pruneMembers gone members).map Prod.fst).Sublist (members.map Prod.fst) := by
  induction members with
  | nil => exact .slnil
  | cons m rest ih =>
      rw [pruneMembers]
      split
      · exact ih.cons _
      · exact ih.cons_cons _

mutual

/-- What is left of a document has its keys in order, as the document had them. -/
theorem WellFormed.prune (gone : List Segment → Bool) :
    ∀ v : Json, v.WellFormed → (v.prune gone).WellFormed
  | .array items, h => WellFormed.pruneItems gone 0 items h
  | .object members, h =>
      ⟨h.1.of_sublist (keys_pruneMembers_sublist gone members),
        WellFormed.pruneMembers gone members h.2⟩
  | .null, _ | .bool _, _ | .number _, _ | .string _, _ => trivial

theorem WellFormed.pruneItems (gone : List Segment → Bool) :
    ∀ (index : Nat) (items : List Json), ItemsWellFormed items →
      ItemsWellFormed (pruneItems gone index items)
  | _, [], _ => trivial
  | index, v :: rest, h => by
      rw [Json.pruneItems]
      split
      · exact WellFormed.pruneItems gone (index + 1) rest h.2
      · exact ⟨WellFormed.prune _ v h.1, WellFormed.pruneItems gone (index + 1) rest h.2⟩

theorem WellFormed.pruneMembers (gone : List Segment → Bool) :
    ∀ members : List (String × Json), MembersWellFormed members →
      MembersWellFormed (pruneMembers gone members)
  | [], _ => trivial
  | (key, v) :: rest, h => by
      rw [Json.pruneMembers]
      split
      · exact WellFormed.pruneMembers gone rest h.2
      · exact ⟨WellFormed.prune _ v h.1, WellFormed.pruneMembers gone rest h.2⟩

end

end Json

variable {c : Catalog} {t : Ty} {v : Json} {d : Datum}

/-- Whatever is read in either mode is also read, with nothing left out, from some document. -/
theorem exists_reads_of_reading (hc : c.DistinctKeys) (hv : v.WellFormed) {mode : Mode}
    (h : (reading c mode t v).result = .ok d) : ∃ w, w.WellFormed ∧ Reads c t w d := by
  cases mode with
  | strict => exact ⟨v, hv, h⟩
  | lenient =>
      let gone : List Segment → Bool := fun p =>
        (reading c .lenient t v).dropped.any fun e => e.path.segments = p
      refine ⟨v.prune gone, hv.prune gone, reads_prune hc t v hv gone d h fun s p _ => ?_⟩
      simp [gone]

/-! ## Values that were read -/

/-- The value, which was read from the document, is read back from its own document. -/
structure ReadsBack (c : Catalog) (t : Ty) (v : Json) (d : Datum) : Prop where
  reads : Reads c t d.encode d
  /-- Only null is written as null. -/
  isNull : v.isNull = false → d.encode.isNull = false
  /-- The value equals itself: no floating point number in it is `nan`. -/
  same : d.same d = true

theorem ReadsBack.scalar {s : Scalar} (hv : v.WellFormed) (h : Reads c (.scalar s) v d) :
    ReadsBack c (.scalar s) v d := by
  have hread := reads_scalar.mp h
  cases s with
  | string =>
      cases v with
      | string text =>
          cases hread
          exact ⟨reads_scalar.mpr rfl, fun _ => rfl, by simp⟩
      | _ => cases hread
  | bool =>
      cases v with
      | bool b =>
          cases hread
          exact ⟨reads_scalar.mpr rfl, fun _ => rfl, by simp⟩
      | _ => cases hread
  | integer w =>
      cases v with
      | number n =>
          cases n with
          | integer n =>
              rw [Scalar.read] at hread
              split at hread
              · rename_i hn
                cases hread
                exact ⟨reads_scalar.mpr (if_pos hn), fun _ => rfl, by simp⟩
              · cases hread
          | float x => cases hread
      | _ => cases hread
  | float =>
      cases v with
      | number n =>
          obtain ⟨x, hx⟩ := n.exists_toBinary64
          rw [Scalar.read, hx] at hread
          cases hread
          refine ⟨reads_scalar.mpr rfl, fun _ => rfl, ?_⟩
          rw [Datum.same]
          exact x.same_refl
      | _ => cases hread
  | uuid =>
      cases v with
      | string text =>
          rw [Scalar.read] at hread
          split at hread
          · rename_i u _
            cases hread
            refine ⟨reads_scalar.mpr ?_, fun _ => rfl, by simp⟩
            rw [Datum.encode, Scalar.read, Uuid.ofText_text]
          · cases hread
      | _ => cases hread
  | json =>
      cases hread
      refine ⟨reads_scalar.mpr rfl, id, ?_⟩
      rw [Datum.same]
      exact v.same_refl hv
  | status =>
      cases v with
      | string text =>
          cases hread
          refine ⟨reads_scalar.mpr ?_, fun _ => rfl, by simp⟩
          rw [Datum.encode, Scalar.read, ListStatus.text_ofText]
      | _ => cases hread

theorem ReadsBack.option (ih : ∀ e, Reads c t v e → ReadsBack c t v e)
    (h : Reads c (.option t) v d) : ReadsBack c (.option t) v d := by
  rcases reads_option.mp h with ⟨hnull, rfl⟩ | ⟨hnull, e, he, rfl⟩
  · refine ⟨reads_option.mpr (Or.inl ⟨rfl, rfl⟩), fun hnull' => ?_, by simp⟩
    cases hnull.symm.trans hnull'
  · have hback := ih e he
    refine ⟨reads_option.mpr (Or.inr ⟨hback.isNull hnull, e, hback.reads, rfl⟩), hback.isNull, ?_⟩
    rw [Datum.same]
    exact hback.same

theorem exists_mem_of_forall₂ {α β : Type} {R : α → β → Prop} {xs : List α} {ys : List β}
    (h : List.Forall₂ R xs ys) {y : β} (hy : y ∈ ys) : ∃ x ∈ xs, R x y := by
  induction h with
  | nil => cases hy
  | @cons x y' xs ys hxy _ ih =>
      rcases List.mem_cons.mp hy with rfl | hy
      · exact ⟨x, List.mem_cons_self, hxy⟩
      · obtain ⟨x', hx', hxy'⟩ := ih hy
        exact ⟨x', List.mem_cons_of_mem x hx', hxy'⟩

theorem ReadsBack.list
    (ih : ∀ items, v = .array items → ∀ w ∈ items, ∀ e, Reads c t w e → ReadsBack c t w e)
    (h : Reads c (.list t) v d) : ReadsBack c (.list t) v d := by
  have hback : ∃ ds, d = .list ds ∧ ∀ e ∈ ds, ∃ w, ReadsBack c t w e := by
    rcases reads_list.mp h with ⟨-, rfl⟩ | ⟨items, ds, hv, hds, rfl⟩
    · exact ⟨[], rfl, nofun⟩
    · refine ⟨ds, rfl, fun e he => ?_⟩
      obtain ⟨w, hw, hread⟩ := exists_mem_of_forall₂ hds he
      exact ⟨w, ih items hv w hw e hread⟩
  obtain ⟨ds, rfl, hback⟩ := hback
  refine ⟨reads_list.mpr (Or.inr ⟨ds.map Datum.encode, ds, ?_, ?_, rfl⟩), fun _ => rfl, ?_⟩
  · rw [Datum.encode, Datum.encodeItems_eq_map]
  · rw [List.forall₂_map_left_iff, List.forall₂_same]
    intro e he
    obtain ⟨w, hw⟩ := hback e he
    exact hw.reads
  · rw [Datum.same, Datum.sameItems_iff, List.forall₂_same]
    intro e he
    obtain ⟨w, hw⟩ := hback e he
    exact hw.same

theorem map_eq_map_of_forall₂ {α β γ : Type} {R : α → β → Prop} {f : α → γ} {g : β → γ}
    {xs : List α} {ys : List β} (h : List.Forall₂ R xs ys) (hR : ∀ x y, R x y → g y = f x) :
    ys.map g = xs.map f := by
  induction h with
  | nil => rfl
  | cons hxy _ ih => rw [List.map_cons, List.map_cons, hR _ _ hxy, ih]

theorem ReadsBack.map (hv : v.WellFormed)
    (ih : ∀ members, v = .object members → ∀ m ∈ members, ∀ e, Reads c t m.2 e →
      ReadsBack c t m.2 e)
    (h : Reads c (.map t) v d) : ReadsBack c (.map t) v d := by
  have hback : ∃ es, d = .map es ∧ Keyed.Sorted es ∧ ∀ e ∈ es, ∃ w, ReadsBack c t w e.2 := by
    rcases reads_map.mp h with ⟨-, rfl⟩ | ⟨members, es, rfl, hes, rfl⟩
    · exact ⟨[], rfl, .nil, nofun⟩
    · have hkeys : es.map Prod.fst = members.map Prod.fst :=
        map_eq_map_of_forall₂ hes fun _ _ hread => hread.1
      refine ⟨es, rfl, hv.1.of_sublist (by rw [hkeys]), fun e he => ?_⟩
      obtain ⟨m, hm, -, hread⟩ := exists_mem_of_forall₂ hes he
      exact ⟨m.2, ih members rfl m hm e.2 hread⟩
  obtain ⟨es, rfl, hsorted, hback⟩ := hback
  refine ⟨reads_map.mpr (Or.inr ⟨es.map fun e => (e.1, e.2.encode), es, ?_, ?_, rfl⟩),
    fun _ => rfl, ?_⟩
  · rw [Datum.encode, Datum.encodeEntries_of_sorted hsorted]
  · rw [List.forall₂_map_left_iff, List.forall₂_same]
    intro e he
    obtain ⟨w, hw⟩ := hback e he
    exact ⟨rfl, hw.reads⟩
  · rw [Datum.same, Bool.and_eq_true, beq_iff_eq, Datum.sameEntries_iff]
    refine ⟨rfl, fun e he => ?_⟩
    obtain ⟨w, hw⟩ := hback e he
    exact ⟨e.2, Keyed.lookup_of_mem hsorted.nodup he, hw.same⟩

theorem ReadsBack.envelope
    (ih : ∀ members w, v = .object members → members.lookup "ok" = some w → ∀ e, Reads c t w e →
      ReadsBack c t w e)
    (h : Reads c (.envelope t) v d) : ReadsBack c (.envelope t) v d := by
  obtain ⟨members, hmembers, ⟨w, e, hw, hnull, he, rfl⟩ | ⟨-, w, f, -, -, -, rfl⟩⟩ :=
    reads_envelope.mp h
  · have hback := ih members w hmembers hw e he
    refine ⟨reads_envelope.mpr ⟨_, rfl, Or.inl ⟨e.encode, e, ?_, hback.isNull hnull, hback.reads,
      rfl⟩⟩, fun _ => rfl, ?_⟩
    · exact Keyed.lookup_cons_self _ _ _
    · rw [Datum.same]
      exact hback.same
  · exact ⟨reads_err f, fun _ => rfl, by simp⟩

/-- A field is read back from the member that it is written as. -/
theorem ReadsBack.field {members written : List (String × Json)} {f : Field}
    (ih : ∀ w, members.lookup f.key = some w → ∀ e, Reads c f.ty w e → ReadsBack c f.ty w e)
    (h : ReadsField c members f d) (hw : written.lookup f.key = some d.encode) :
    ReadsField c written f d ∧ d.same d = true := by
  cases hf : f.required with
  | true =>
      obtain ⟨w, hlookup, hnull, hread⟩ := (readsField_required hf).mp h
      have hback := ih w hlookup d hread
      exact ⟨(readsField_required hf).mpr ⟨_, hw, hback.isNull hnull, hback.reads⟩, hback.same⟩
  | false =>
      rcases (readsField_optional hf).mp h with ⟨-, rfl⟩ | ⟨w, e, hlookup, hnull, hread, rfl⟩
      · refine ⟨(readsField_optional hf).mpr (Or.inl ⟨fun w hw' => ?_, rfl⟩), by simp⟩
        cases hw.symm.trans hw'
        rfl
      · have hback := ih w hlookup e hread
        refine ⟨(readsField_optional hf).mpr (Or.inr ⟨e.encode, e, hw, hback.isNull hnull,
          hback.reads, rfl⟩), ?_⟩
        rw [Datum.same]
        exact hback.same

theorem ReadsBack.record {name : String} (hc : c.DistinctKeys)
    (ih : ∀ members, v = .object members → ∀ f ∈ c.fields name, ∀ w,
      members.lookup f.key = some w → ∀ e, Reads c f.ty w e → ReadsBack c f.ty w e)
    (h : Reads c (.record name) v d) : ReadsBack c (.record name) v d := by
  obtain ⟨members, es, rfl, hes, rfl⟩ := reads_record.mp h
  have hkeys : es.map Prod.fst = (c.fields name).map Field.key :=
    map_eq_map_of_forall₂ hes fun _ _ hread => hread.1
  have hnodup : (es.map Prod.fst).Nodup := hkeys ▸ hc.fields name
  obtain ⟨hlength, hzip⟩ := List.forall₂_iff_zip.mp hes
  have hback : List.Forall₂ (fun f e => (e.1 = f.key ∧
      ReadsField c (Datum.encodeEntries es) f e.2) ∧ e.2.same e.2 = true) (c.fields name) es := by
    refine List.forall₂_iff_zip.mpr ⟨hlength, fun {f e} hp => ?_⟩
    obtain ⟨hf, he⟩ := List.of_mem_zip hp
    obtain ⟨hkey, hread⟩ := hzip hp
    have hwritten : (Datum.encodeEntries es).lookup f.key = some e.2.encode := by
      rw [← hkey, Datum.lookup_encodeEntries_of_mem hnodup he]
    obtain ⟨hread', hsame⟩ := ReadsBack.field (ih members rfl f hf) hread hwritten
    exact ⟨⟨hkey, hread'⟩, hsame⟩
  refine ⟨reads_record.mpr ⟨_, es, rfl, hback.imp fun _ _ h => h.1, rfl⟩, fun _ => rfl, ?_⟩
  rw [Datum.same, Datum.sameFields_iff, List.forall₂_same]
  intro e he
  obtain ⟨f, -, -, hsame⟩ := exists_mem_of_forall₂ hback he
  exact ⟨rfl, hsame⟩

/-- **A value that was read is read back from its own document.** -/
theorem Reads.readsBack (hc : c.DistinctKeys) (hv : v.WellFormed) (h : Reads c t v d) :
    ReadsBack c t v d := by
  induction t, v using Ty.descent c generalizing d with
  | scalar s v => exact .scalar hv h
  | option t v ih => exact .option (fun e he => ih hv he) h
  | list t v ih =>
      refine .list (fun items hitems w hw e he => ih items hitems w hw ?_ he) h
      subst hitems
      exact (Json.itemsWellFormed_iff items).mp hv w hw
  | map t v ih =>
      refine .map hv (fun members hmembers m hm e he => ih members hmembers m hm ?_ he) h
      subst hmembers
      exact (Json.membersWellFormed_iff members).mp hv.2 m hm
  | envelope t v ih =>
      refine .envelope (fun members w hmembers hw e he => ih members w hmembers hw ?_ he) h
      subst hmembers
      exact hv.of_lookup hw
  | record name v ih =>
      refine .record hc (fun members hmembers f hf w hw e he =>
        ih members hmembers f hf w hw ?_ he) h
      subst hmembers
      exact hv.of_lookup hw

/-! ## Whole readings -/

/-- The document that the value of a document is written as. -/
def normalForm (c : Catalog) (t : Ty) (mode : Mode) (v : Json) : Except DecodeError Json :=
  (decodeValue c t ⟨mode⟩ v).map fun d => d.value.encode

theorem normalForm_eq_ok {mode : Mode} {w : Json} :
    normalForm c t mode v = .ok w ↔ ∃ d, decodeValue c t ⟨mode⟩ v = .ok d ∧ d.value.encode = w := by
  unfold normalForm
  cases decodeValue c t ⟨mode⟩ v with
  | error e => exact ⟨nofun, fun ⟨_, h, _⟩ => nomatch h⟩
  | ok d => exact ⟨fun h => ⟨d, rfl, Except.ok.inj h⟩, fun ⟨_, h, hw⟩ => by cases h; rw [← hw]; rfl⟩

/-- A value that was read in either mode is read back from its document in either mode. -/
theorem decodeValue_encode_self (hc : c.DistinctKeys) (hv : v.WellFormed) {mode : Mode}
    {d : Decoded Datum} (h : decodeValue c t ⟨mode⟩ v = .ok d) (mode' : Mode) :
    decodeValue c t ⟨mode'⟩ d.value.encode = .ok ⟨d.value, []⟩ ∧ d.value.same d.value = true := by
  obtain ⟨w, hw, hread⟩ := exists_reads_of_reading hc hv (decodeValue_eq_ok.mp h).1
  have hback := hread.readsBack hc hw
  exact ⟨decodeValue_complete.mpr hback.reads, hback.same⟩

/-- **Reading normalises.** Whatever the document and the mode, the value that is read is read back
from the document it is written as, in both modes and with nothing left out. So a normal form is its
own normal form, and a record is found again in the document it is written as. -/
theorem decodeValue_normalizes (hc : c.DistinctKeys) (hv : v.WellFormed) :
    (∀ mode d, decodeValue c t ⟨mode⟩ v = .ok d → ∀ mode',
      decodeValue c t ⟨mode'⟩ d.value.encode = .ok ⟨d.value, []⟩ ∧
        d.value.same d.value = true) ∧
    (∀ mode w, normalForm c t mode v = .ok w → ∀ mode', normalForm c t mode' w = .ok w) ∧
    (∀ name d, Record.ofObject c name v = .ok (some d) →
      Record.ofObject c name d.encode = .ok (some d)) := by
  refine ⟨fun mode d h => decodeValue_encode_self hc hv h, fun mode w h mode' => ?_,
    fun name d h => ?_⟩
  · obtain ⟨d, hd, rfl⟩ := normalForm_eq_ok.mp h
    exact normalForm_eq_ok.mpr ⟨_, (decodeValue_encode_self hc hv hd mode').1, rfl⟩
  · cases v with
    | object members =>
        have hread := (Record.ofObject_eq_ok.mp h).readsBack hc hv
        obtain ⟨_, es, -, -, rfl⟩ := reads_record.mp hread.reads
        exact Record.ofObject_eq_ok.mpr hread.reads
    | _ => cases h

/-- A catalog of one record type, which contains itself. -/
def jarCatalog : Catalog :=
  ⟨[⟨"Jar", [.req "weight" .float, .req "tag" .uuid, .opt "notes" (.list .string),
    .opt "inside" (.map (.record "Jar"))]⟩]⟩

/-- An empty jar. Its weight is an integer, its tag is spelled without hyphens and in capitals, nothing
asks for its colour, and the spoon inside is no jar. -/
def foundJar : Json :=
  .object [
    ("colour", .string "green"),
    ("inside", .object [("spoon", .bool true)]),
    ("notes", .null),
    ("tag", .string "A3C1E5F79B2D4F6A8E0CB1D3F5A7C9E2"),
    ("weight", .integer (.ofInt32 0))]

/-- What a lenient reading makes of it. -/
def keptJar : Decoded Datum :=
  ⟨.record [
      ("weight", .float (.finite (.zero false))),
      ("tag", .uuid Api.Sample.owner),
      ("notes", .absent),
      ("inside", .present (.map []))],
    [⟨⟨[.key "inside", .key "spoon"]⟩,
      ⟨⟨[.key "inside", .key "spoon"]⟩, .unexpectedType "object" "boolean"⟩⟩]⟩

theorem decodeValue_normalizes_foundJar :
    jarCatalog.DistinctKeys ∧ foundJar.WellFormed ∧
      decodeValue jarCatalog (.record "Jar") ⟨.lenient⟩ foundJar = .ok keptJar ∧
      decodeValue jarCatalog (.record "Jar") ⟨.strict⟩ keptJar.value.encode =
        .ok ⟨keptJar.value, []⟩ := by
  have hc : jarCatalog.DistinctKeys := by decide
  have hv : foundJar.WellFormed := by
    simp only [foundJar, Json.WellFormed, Json.MembersWellFormed, Keyed.Sorted, Json.integer,
      and_true]
    decide
  have h : decodeValue jarCatalog (.record "Jar") ⟨.lenient⟩ foundJar = .ok keptJar := by
    cbv
  exact ⟨hc, hv, h, ((decodeValue_normalizes hc hv).1 .lenient keptJar h .strict).1⟩

end Larder
