import Mathlib
import Larder.Api.Catalog
import Larder.Proofs.LogLaw

/-!
# The report of a lenient reading

What a lenient reading reports, in terms of the document and of its log.

* `decodeValue_dropped_inOrder`: every reported path leads to an entry of a collection, the error
  lies in that entry, and the paths have parted ways and stand in the order of the reading;
* `dropEvents_agree`: the log has the entries that cannot be read by themselves, in the order in
  which they fail, and the report is what lasts of it.
-/

namespace Larder

variable {c : Catalog} {t : Ty} {v : Json}

/-- A reading that ends with a value reports what lasts of its log. -/
theorem LogLaw.decoded (h : LogLaw c t v) {d : Decoded Datum}
    (hd : decodeValue c t ⟨.lenient⟩ v = .ok d) :
    d.dropped = lasting (dropEvents c t ⟨.lenient⟩ v) := by
  obtain ⟨hresult, hdropped⟩ := decodeValue_eq_ok.mp hd
  rw [← hdropped]
  exact h.reported d.value hresult

/-- What is logged is an entry that was attempted and could not be read by itself. -/
theorem LogLaw.mem_dropEvents (h : LogLaw c t v) (r : Drop) :
    r ∈ dropEvents c t ⟨.lenient⟩ v ↔ ∃ u w e, Attempts c t v r.path.segments u w ∧
      decodeValue c u ⟨.lenient⟩ w = .error e ∧ r.error = e.below r.path := by
  have hpath : ∀ p e, Drop.below ⟨p⟩ ⟨.root, e⟩ = ⟨⟨p⟩, e.below ⟨p⟩⟩ := fun p e => by
    rw [Drop.below, Path.append_root]
  show r ∈ (reading c .lenient t v).log ↔ _
  rw [h.attempted]
  refine ⟨?_, ?_⟩
  · intro hr
    obtain ⟨p, u, w, hattempt, e, he, rfl⟩ := hr
    rw [hpath]
    exact ⟨u, w, e, hattempt, decodeValue_eq_error.mpr he, rfl⟩
  · intro hr
    obtain ⟨u, w, e, hattempt, he, hr⟩ := hr
    refine ⟨_, u, w, hattempt, e, decodeValue_eq_error.mp he, ?_⟩
    rw [hpath, ← hr]

/-- Reading is done with different places one after the other. -/
theorem DoneBefore.ne (hc : c.DistinctKeys) {p q : Path} (h : DoneBefore c t p q) : p ≠ q := by
  rintro rfl
  rcases h with h | h
  · exact (h.parted hc).1 List.prefix_rfl
  · exact h.2 rfl

/-- Answers to three requests for a list. One item of the first is no item; the second has such an
item too, but does not say whether the list may be changed; the third is no list at all. -/
def threeReplies : Json :=
  .object [
    ("groceries", .object [
      ("items", .array [
        .string "junk",
        .object [("id", .integer (.ofInt32 1)), ("name", .string "oat milk")]]),
      ("readonly", .bool false)]),
    ("hardware", .object [("items", .array [.string "junk"])]),
    ("pharmacy", .integer (.ofInt32 5))]

/-- What a lenient reading logs of them. -/
def threeRepliesLog : List Drop :=
  let drop (entry inside : List Segment) (fault : Fault) : Drop :=
    ⟨⟨entry⟩, ⟨⟨entry ++ inside⟩, fault⟩⟩
  [drop [.key "groceries", .key "items", .index 0] [] (.unexpectedType "object" "string"),
    drop [.key "hardware", .key "items", .index 0] [] (.unexpectedType "object" "string"),
    drop [.key "hardware"] [.key "readonly"] .missingField,
    drop [.key "pharmacy"] [] (.unexpectedType "object" "integer")]

/-- What it makes of them: the item in the second answer is forgotten with the answer. -/
def keptReply : Decoded Datum :=
  ⟨.map [("groceries", .record [
      ("items", .list [.record [("id", .integer (.ofInt32 1)), ("name", .string "oat milk"),
        ("amount", .absent)]]),
      ("readonly", .bool false)])],
    threeRepliesLog.eraseIdx 1⟩

theorem threeReplies_wellFormed : threeReplies.WellFormed := by
  simp only [threeReplies, Json.WellFormed, Json.ItemsWellFormed, Json.MembersWellFormed,
    Keyed.Sorted, Json.integer, and_true]
  decide

theorem decodeValue_threeReplies :
    decodeValue Api.catalog (.map (.record "ReadListResponse")) ⟨.lenient⟩ threeReplies =
      .ok keptReply := by
  cbv

/-- **A lenient reading reports entries of collections, each once and in order.** Every reported path
leads, in the document, to an entry that the reading came to, and the error that is reported with it
lies in that entry. No path begins with another, and they stand in the order of the reading: by
index, by key, or by the declaration of fields, where they part ways. -/
theorem decodeValue_dropped_inOrder (hc : c.DistinctKeys) (hv : v.WellFormed) {d : Decoded Datum}
    (h : decodeValue c t ⟨.lenient⟩ v = .ok d) :
    (∀ r ∈ d.dropped,
      (∃ u w, Attempts c t v r.path.segments u w ∧ v.resolve r.path = some w) ∧
      r.path.segments <+: r.error.path.segments) ∧
    d.dropped.Pairwise fun r s =>
      Precedes c t r.path.segments s.path.segments ∧
      ¬r.path.segments <+: s.path.segments ∧ ¬s.path.segments <+: r.path.segments := by
  have law := logLaw hc t v hv
  have hlasting := law.decoded h
  refine ⟨fun r hr => ?_, ?_⟩
  · rw [hlasting] at hr
    obtain ⟨u, w, e, hattempt, -, herror⟩ := (law.mem_dropEvents r).mp ((lasting_sublist _).subset hr)
    refine ⟨⟨u, w, hattempt, hattempt.resolve⟩, ?_⟩
    rw [herror]
    exact List.prefix_append _ _
  · -- what lasts is in order like the whole log, and nothing in it lies inside what comes later
    have horder : (lasting (dropEvents c t ⟨.lenient⟩ v)).Pairwise
        fun r s => DoneBefore c t r.path s.path := law.inOrder.sublist (lasting_sublist _)
    rw [hlasting]
    refine (horder.and (pairwise_lasting _)).imp ?_
    intro r s hrs
    obtain ⟨hprecedes | hinside, hnot⟩ := hrs
    · exact ⟨hprecedes, hprecedes.parted hc⟩
    · exact absurd hinside hnot

theorem decodeValue_dropped_inOrder_replies :
    Api.catalog.DistinctKeys ∧ threeReplies.WellFormed ∧
      decodeValue Api.catalog (.map (.record "ReadListResponse")) ⟨.lenient⟩ threeReplies =
        .ok keptReply ∧
      keptReply.dropped.Pairwise fun r s =>
        Precedes Api.catalog (.map (.record "ReadListResponse")) r.path.segments s.path.segments ∧
        ¬r.path.segments <+: s.path.segments ∧ ¬s.path.segments <+: r.path.segments := by
  have hc : Api.catalog.DistinctKeys := by decide
  have hv := threeReplies_wellFormed
  exact ⟨hc, hv, decodeValue_threeReplies,
    (decodeValue_dropped_inOrder hc hv decodeValue_threeReplies).2⟩

/-- **The log and the report of a reading agree.** A strict reading logs nothing. A lenient one logs,
whatever it ends with, just the entries that it came to and that cannot be read by themselves, with
their own errors, each once and in the order in which it is done with them; if it ends with a value,
it reports all of them but those inside an entry that was left out later. -/
theorem dropEvents_agree (hc : c.DistinctKeys) (hv : v.WellFormed) :
    dropEvents c t ⟨.strict⟩ v = [] ∧
    (∀ d, decodeValue c t ⟨.lenient⟩ v = .ok d →
      d.dropped = lasting (dropEvents c t ⟨.lenient⟩ v)) ∧
    (∀ r, r ∈ dropEvents c t ⟨.lenient⟩ v ↔ ∃ u w e, Attempts c t v r.path.segments u w ∧
      decodeValue c u ⟨.lenient⟩ w = .error e ∧ r.error = e.below r.path) ∧
    (dropEvents c t ⟨.lenient⟩ v).Pairwise fun r s =>
      DoneBefore c t r.path s.path ∧ r.path ≠ s.path := by
  have law := logLaw hc t v hv
  refine ⟨(reading_lockStep c t v).log, fun d => law.decoded, law.mem_dropEvents, ?_⟩
  exact law.inOrder.imp fun h => ⟨h, h.ne hc⟩

theorem dropEvents_agree_replies :
    Api.catalog.DistinctKeys ∧ threeReplies.WellFormed ∧
      dropEvents Api.catalog (.map (.record "ReadListResponse")) ⟨.lenient⟩ threeReplies =
        threeRepliesLog ∧
      keptReply.dropped = lasting threeRepliesLog := by
  have hc : Api.catalog.DistinctKeys := by decide
  have hv := threeReplies_wellFormed
  have hlog : dropEvents Api.catalog (.map (.record "ReadListResponse")) ⟨.lenient⟩ threeReplies =
      threeRepliesLog := by
    cbv
  have hlasting := (dropEvents_agree hc hv).2.1 keptReply decodeValue_threeReplies
  exact ⟨hc, hv, hlog, hlog ▸ hlasting⟩

end Larder
