import Larder.Api.Samples
import Larder.Proofs.Nesting
import Larder.Proofs.NestingLimit
import Larder.Proofs.RoundTrip
import Larder.Record

/-!
# Records from texts, and back

A record can be read from a text in two ways, and written in two: `Record.ofText` reads the whole
text before it looks at the record and `Datum.text` puts the members in order before they are
written, while `Record.ofLeadingText` looks at the record before it looks at what follows it and
`Json.compact` writes the members as they are. The two ways come to the same (`TextAgreement`), and
what one of them wrote both read again (`PrintsBack`).

A record that was read is read back from its document (`Reads.readsBack`), and a document from its
text if that does not nest too deep and gives its floating point numbers back (`Json.read_compact`,
`Json.stable_iff`). Neither is sure:

* the document of a record can nest deeper than the text that the record was read from, which the
  reader took. That happens just where null stands for an empty collection in another one, in as many
  containers as the reader takes (`Reads.exceeds_iff`);
* the text of a floating point number can be read as its neighbour (`Number.reread_fullOnes`).

Both happen (`textAgreement_exceptions`).
-/

namespace Larder

variable {c : Catalog} {name text : String} {v : Json} {d : Datum}

/-! ## What is read from a document -/

namespace Record

theorem ofJson_eq : ofJson c name v = (reading c .strict (.record name) v).result := by
  unfold ofJson
  rw [decodeValue_eq, Outcome.decoded]
  cases (reading c .strict (.record name) v).result <;> rfl

theorem ofJson_eq_ok : ofJson c name v = .ok d ↔ Reads c (.record name) v d := by
  rw [ofJson_eq, Reads]

theorem ofObject_object {members : List (String × Json)} :
    ofObject c name (.object members) = (ofJson c name (.object members)).map some := by
  unfold ofObject ofObjectWith ofJson
  cases decodeValue c (.record name) ⟨.strict⟩ (.object members) <;> rfl

/-- A record is found in a document just when the document is read as the record. -/
theorem ofObject_iff_ofJson : ofObject c name v = .ok (some d) ↔ ofJson c name v = .ok d := by
  rw [ofJson_eq_ok]
  cases v with
  | object members => exact ofObject_eq_ok
  | _ =>
      refine ⟨nofun, fun h => ?_⟩
      obtain ⟨members, -, hmembers, -⟩ := reads_record.mp h
      cases hmembers

/-- Why a document is no record does not depend on who asks, but that a document that is no object
may be passed over. -/
theorem ofObject_of_error {e : DecodeError} (h : ofJson c name v = .error e) :
    ofObject c name v = .error e ∨
      ofObject c name v = .ok none ∧ e = ⟨.root, .unexpected "object" v⟩ := by
  cases v with
  | object members =>
      rw [ofObject_object, h]
      exact .inl rfl
  | _ =>
      rw [ofJson_eq, reading_record] at h
      exact .inr ⟨rfl, (Except.error.inj h).symm⟩

/-! ## What is read from a text -/

theorem ofText_of_read (h : Json.read text = .ok v) :
    ofText c name text = (ofJson c name v).mapError .decode := by
  rw [ofText, readDocument, h]

theorem ofText_of_malformed {m : Json.Malformed} (h : Json.read text = .error m) :
    ofText c name text = .error (.malformed m) := by
  rw [ofText, readDocument, h]

/-- Where nothing follows the document, it does not matter when that is looked at. -/
theorem ofLeadingText_of_read (h : Json.read text = .ok v) :
    ofLeadingText c name text = ofText c name text := by
  rw [ofText_of_read h, ofLeadingText, Json.read_eq_ok.mp h]
  dsimp only
  cases ofJson c name v <;> rfl

/-- Where something follows the document, no record is read. -/
theorem ofLeadingText_of_malformed {m : Json.Malformed} (h : Json.read text = .error m) :
    ofLeadingText c name text ≠ .ok d := by
  unfold ofLeadingText
  split
  · nofun
  · rename_i v rest hfirst
    split
    · nofun
    · nofun
    · rw [Json.read_eq_ok.mpr hfirst] at h
      cases h

theorem ofText_eq_ofLeadingText :
    ofText c name text = .ok d ↔ ofLeadingText c name text = .ok d := by
  cases h : Json.read text with
  | ok v => rw [ofLeadingText_of_read h]
  | error m =>
      rw [ofText_of_malformed h]
      exact ⟨nofun, fun hd => absurd hd (ofLeadingText_of_malformed h)⟩

theorem ofText_eq_ok :
    ofText c name text = .ok d ↔ ∃ v, Json.read text = .ok v ∧ ofJson c name v = .ok d := by
  constructor
  · intro hd
    cases h : Json.read text with
    | error m => cases (ofText_of_malformed h).symm.trans hd
    | ok v =>
        refine ⟨v, rfl, ?_⟩
        rw [ofText_of_read h] at hd
        cases hjson : ofJson c name v with
        | error e =>
            rw [hjson] at hd
            cases hd
        | ok e =>
            rw [hjson] at hd
            cases hd
            rfl
  · rintro ⟨v, h, hd⟩
    rw [ofText_of_read h, hd]
    rfl

end Record

/-! ## What is written -/

/-- The record, which was read from the document, is written and read again. -/
structure PrintsBack (c : Catalog) (name : String) (v : Json) (d : Datum) : Prop where
  /-- Its members are in order already. -/
  compact : d.text = d.encode.compact
  /-- It is read from its text, in both ways, if its document does not nest too deep and each floating
  point number there is read back from its text. -/
  again : d.encode.depth ≤ Json.depthLimit → d.encode.FloatsKept →
    Record.ofText c name d.text = .ok d ∧ Record.ofLeadingText c name d.text = .ok d
  /-- It equals itself: no floating point number in it is `nan`. -/
  same : d.same d = true
  /-- Its text is refused if its document nests too deep. -/
  tooDeep : Json.depthLimit < d.encode.depth → d.encode.Legible →
    ∃ place, Record.ofText c name d.text = .error (.malformed ⟨.tooDeep, place⟩) ∧
      Record.ofLeadingText c name d.text = .error (.malformed ⟨.tooDeep, place⟩)
  /-- That is so just where a null in as many containers as the reader takes stood for an empty
  collection. -/
  exceeds : Json.depthLimit < d.encode.depth ↔
    ∃ p, EmptyAt c (.record name) v p ∧ p.length = Json.depthLimit
  /-- It is never so where no collection directly holds collections. -/
  flat : c.Flat → d.encode.depth ≤ Json.depthLimit

/-- **A record that was read is written and read again.** -/
theorem Reads.printsBack (hc : c.DistinctKeys) (h : Reads c (.record name) v d)
    (hv : v.Fits Json.depthLimit 0) : PrintsBack c name v d := by
  have hwf : d.encode.WellFormed := (h.encode_depth_le hv.1).1
  have hback : ReadsBack c (.record name) v d := h.readsBack hc hv.1
  have hcompact : d.text = d.encode.compact := by
    rw [Datum.text, Json.canonical_of_wellFormed d.encode hwf]
  -- the reader took the document, so what exceeds its limit was added by writing
  have hexceeds := h.exceeds_iff hc hv
  refine ⟨hcompact, fun hdepth hfloats => ?_, hback.same, fun hdeep hlegible => ?_, hexceeds,
    fun hflat => ?_⟩
  · have hstable : d.encode.Stable := (Json.stable_iff hwf).mpr hfloats
    have hread : Json.read d.text = .ok d.encode := hcompact ▸ Json.read_compact hwf hdepth hstable
    have htext : Record.ofText c name d.text = .ok d := by
      rw [Record.ofText_of_read hread, Record.ofJson_eq_ok.mpr hback.reads]
      rfl
    exact ⟨htext, Record.ofText_eq_ofLeadingText.mp htext⟩
  · obtain ⟨place, hrefused⟩ := Json.readFirst_compact_refused hwf hlegible hdeep
    rw [← hcompact] at hrefused
    refine ⟨place, Record.ofText_of_malformed ?_, ?_⟩
    · rw [Json.read, hrefused]
    · rw [Record.ofLeadingText, hrefused]
  · by_contra hdeep
    obtain ⟨p, hp, -⟩ := hexceeds.mp (Nat.not_le.mp hdeep)
    exact not_emptyAt_record hflat hp

/-! ## The two ways -/

/-- What is made of a text, read as a record in the two ways. -/
structure TextAgreement (c : Catalog) (name text : String) : Prop where
  /-- Both ways read the same records. -/
  records : ∀ d, Record.ofText c name text = .ok d ↔ Record.ofLeadingText c name text = .ok d
  /-- They are the records of the documents that the texts spell. -/
  document : ∀ d, Record.ofText c name text = .ok d ↔
    ∃ v, Json.read text = .ok v ∧ Record.ofObject c name v = .ok (some d)
  /-- A document that is no record is refused for the same error. -/
  noRecord : ∀ v, Json.read text = .ok v → (∀ d, Record.ofObject c name v ≠ .ok (some d)) →
    ∃ e, (Record.ofObject c name v = .error e ∨
        Record.ofObject c name v = .ok none ∧ e = ⟨.root, .unexpected "object" v⟩) ∧
      Record.ofText c name text = .error (.decode e) ∧
      (Record.ofLeadingText c name text).mapError ApiError.source = .error e.message
  /-- A text that is no document is refused as such. -/
  noDocument : ∀ m, Json.read text = .error m → Record.ofText c name text = .error (.malformed m)
  /-- A record that was read is written and read again. -/
  back : ∀ v d, Json.read text = .ok v → Record.ofText c name text = .ok d → PrintsBack c name v d

/-- **The two ways to read and write records agree.** Whatever the text, both readings accept it or
neither does; they give the record that its document holds; errors are told apart as they should be;
and what is written for the record is one text, which both readings take for the record again if it
does not nest too deep and gives its numbers back. -/
theorem textAgreement (hc : c.DistinctKeys) (name text : String) : TextAgreement c name text where
  records := fun d => Record.ofText_eq_ofLeadingText
  document := fun d => by
    simp only [Record.ofObject_iff_ofJson]
    exact Record.ofText_eq_ok
  noRecord := fun v hread hnone => by
    cases hjson : Record.ofJson c name v with
    | ok d => exact absurd (Record.ofObject_iff_ofJson.mpr hjson) (hnone d)
    | error e =>
        refine ⟨e, Record.ofObject_of_error hjson, ?_, ?_⟩
        · rw [Record.ofText_of_read hread, hjson]
          rfl
        · rw [Record.ofLeadingText_of_read hread, Record.ofText_of_read hread, hjson]
          rfl
  noDocument := fun m => Record.ofText_of_malformed
  back := fun v d hread htext => by
    obtain ⟨w, hw, hjson⟩ := Record.ofText_eq_ok.mp htext
    cases hread.symm.trans hw
    exact (Record.ofJson_eq_ok.mp hjson).printsBack hc
      (Json.readFirst_fits (Json.read_eq_ok.mp hread))

/-! ### Collections in collections -/

/-- Shelves with boards on which crates stand in rows. A crate may hold more shelves, and how wide a
shelf is need not be told, or may be told in any way. -/
def shelving : Catalog :=
  ⟨[⟨"Shelf", [.req "boards" (.list (.list (.list (.record "Shelf")))), .opt "width" .json]⟩]⟩

/-- One and a half. -/
def width : Binary64.Finite := ⟨false, 6755399441055744, -52, by decide⟩

/-- A shelf with two crates on its board, of which one is not told what it holds, and the other holds
an empty shelf. -/
def shelfReply : Json :=
  .object [("boards", .array [.array [.null, .array [.object [("boards", .array [])]]]]),
    ("width", .number (.float width))]

/-- The record of the shelf. -/
def shelf : Datum :=
  .record [("boards", .list [.list [.list [], .list [.record [("boards", .list []),
    ("width", .absent)]]]]), ("width", .present (.json (.number (.float width))))]

theorem textAgreement_shelfReply :
    shelving.DistinctKeys ∧ ¬shelving.Flat ∧
      Record.ofText shelving "Shelf" shelfReply.compact = .ok shelf ∧
      Record.ofLeadingText shelving "Shelf" shelfReply.compact = .ok shelf ∧
      Record.ofText shelving "Shelf" shelf.text = .ok shelf ∧
      Record.ofLeadingText shelving "Shelf" shelf.text = .ok shelf := by
  have hc : shelving.DistinctKeys := by decide
  have hnotflat : ¬shelving.Flat := by decide
  have hwidth : (Number.float width).reread = some (.float width) :=
    Binary64.Finite.reread_of_short (by decide +kernel) (by decide +kernel) (by decide +kernel)
  have hread : Json.read shelfReply.compact = .ok shelfReply := by
    refine Json.read_compact ?_ (by decide) ?_
    · simp only [shelfReply, Json.WellFormed, Json.ItemsWellFormed, Json.MembersWellFormed,
        Keyed.Sorted, and_true]
      decide
    · simp [shelfReply, Json.reread, Json.rereadItems, Json.rereadMembers, hwidth]
  have hfound : Record.ofObject shelving "Shelf" shelfReply = .ok (some shelf) := by
    cbv
  have hagree := textAgreement hc "Shelf" shelfReply.compact
  have htext := (hagree.document shelf).mpr ⟨_, hread, hfound⟩
  have hback := hagree.back _ shelf hread htext
  have hencode : shelf.encode = .object [("boards", .array [.array [.array [],
      .array [.object [("boards", .array []), ("width", .null)]]]]),
      ("width", .number (.float width))] := by
    cbv
  have hstable : shelf.encode.Stable := by
    simp [Json.Stable, hencode, Json.reread, Json.rereadItems, Json.rereadMembers, hwidth]
  obtain ⟨hagain, hagain'⟩ := hback.again (by rw [hencode]; decide) hstable.floatsKept
  exact ⟨hc, hnotflat, htext, (hagree.records shelf).mp htext, hagain, hagain'⟩

/-! ## What is not read again -/

/-- A shelf with one crate. -/
def shelfWith (crate : Json) : Json := .object [("boards", .array [.array [crate]])]

/-- So many shelves in the crates of shelves. What is in the innermost crate is not told. -/
def shelves : Nat → Json
  | 0 => shelfWith .null
  | n + 1 => shelfWith (.array [shelves n])

/-- The record of a shelf with one crate. -/
def shelfRecord (crate : Datum) : Datum :=
  .record [("boards", .list [.list [crate]]), ("width", .absent)]

/-- The record of so many shelves in shelves. The innermost crate is empty. -/
def shelvesRecord : Nat → Datum
  | 0 => shelfRecord (.list [])
  | n + 1 => shelfRecord (.list [shelvesRecord n])

theorem shelfWith_spec {crate : Json} (hwf : crate.WellFormed)
    (hstable : crate.reread = some crate) :
    (shelfWith crate).WellFormed ∧ (shelfWith crate).reread = some (shelfWith crate) ∧
      (shelfWith crate).depth = crate.depth + 3 := by
  refine ⟨?_, ?_, ?_⟩
  · exact ⟨List.pairwise_singleton _ _, ⟨⟨hwf, trivial⟩, trivial⟩, trivial⟩
  · simp [shelfWith, Json.reread, Json.rereadItems, Json.rereadMembers, hstable]
  · simp [shelfWith, Json.depth, Json.itemsDepth, Json.membersDepth]

theorem shelves_spec (n : Nat) : (shelves n).WellFormed ∧
    (shelves n).reread = some (shelves n) ∧ (shelves n).depth = 4 * n + 3 := by
  induction n with
  | zero => exact shelfWith_spec trivial rfl
  | succ n ih =>
      obtain ⟨hwf, hstable, hdepth⟩ := ih
      have hcrate : (Json.array [shelves n]).WellFormed := ⟨hwf, trivial⟩
      have hback : (Json.array [shelves n]).reread = some (.array [shelves n]) := by
        simp [Json.reread, Json.rereadItems, hstable]
      obtain ⟨hwf', hstable', hdepth'⟩ := shelfWith_spec hcrate hback
      refine ⟨hwf', hstable', ?_⟩
      rw [shelves, hdepth', Json.depth, Json.itemsDepth, Json.itemsDepth, hdepth]
      omega

/-- A shelf is read from its document if its crate is. -/
theorem reads_shelfWith {crate : Json} {e : Datum}
    (h : Reads shelving (.list (.record "Shelf")) crate e) :
    Reads shelving (.record "Shelf") (shelfWith crate) (shelfRecord e) := by
  have hboards : Reads shelving (.list (.list (.list (.record "Shelf")))) (.array [.array [crate]])
      (.list [.list [e]]) := by
    refine reads_list.mpr (.inr ⟨_, _, rfl, .cons ?_ .nil, rfl⟩)
    exact reads_list.mpr (.inr ⟨_, _, rfl, .cons h .nil, rfl⟩)
  refine reads_record.mpr ⟨_, _, rfl, .cons ⟨rfl, ?_⟩ (.cons ⟨rfl, ?_⟩ .nil), rfl⟩
  · exact (readsField_required rfl).mpr ⟨_, rfl, rfl, hboards⟩
  · exact (readsField_optional rfl).mpr (.inl ⟨nofun, rfl⟩)

theorem reads_shelves (n : Nat) :
    Reads shelving (.record "Shelf") (shelves n) (shelvesRecord n) := by
  induction n with
  | zero => exact reads_shelfWith (reads_list.mpr (.inl ⟨rfl, rfl⟩))
  | succ n ih => exact reads_shelfWith (reads_list.mpr (.inr ⟨_, _, rfl, .cons ih .nil, rfl⟩))

theorem emptyAt_shelfWith {crate : Json} {p : List Segment}
    (h : EmptyAt shelving (.list (.record "Shelf")) crate p) :
    EmptyAt shelving (.record "Shelf") (shelfWith crate)
      (.key "boards" :: .index 0 :: .index 0 :: p) :=
  .field (f := .req "boards" (.list (.list (.list (.record "Shelf"))))) List.mem_cons_self rfl rfl
    (.item (i := 0) rfl (.item (i := 0) rfl h))

/-- The null stands in as many containers as there are. -/
theorem emptyAt_shelves (n : Nat) :
    ∃ p, EmptyAt shelving (.record "Shelf") (shelves n) p ∧ p.length = 4 * n + 3 := by
  induction n with
  | zero => exact ⟨_, emptyAt_shelfWith (.list _), rfl⟩
  | succ n ih =>
      obtain ⟨p, hp, hlength⟩ := ih
      refine ⟨_, emptyAt_shelfWith (.item (i := 0) rfl hp), ?_⟩
      simp only [List.length_cons, hlength]
      omega

theorem encode_shelfRecord (crate : Datum) : (shelfRecord crate).encode =
    .object [("boards", .array [.array [crate.encode]]), ("width", .null)] := by
  have hsorted : Keyed.Sorted [("boards", Datum.list [.list [crate]]), ("width", .absent)] :=
    List.pairwise_pair.mpr (by decide : "boards" < "width")
  rw [shelfRecord, Datum.encode, Datum.encodeEntries_of_sorted hsorted]
  rfl

/-- There is no number in the record. -/
theorem legible_shelvesRecord (n : Nat) : (shelvesRecord n).encode.Legible := by
  have hstable : (shelvesRecord n).encode.reread = some (shelvesRecord n).encode := by
    induction n with
    | zero => rfl
    | succ n ih =>
        simp [shelvesRecord, encode_shelfRecord, Datum.encode, Datum.encodeItems, Json.reread,
          Json.rereadItems, Json.rereadMembers, ih]
  exact Json.Stable.legible hstable

/-- The record of shelves 127 containers deep is written 128 deep, which neither way reads. -/
theorem shelves_refused :
    Record.ofText shelving "Shelf" (shelves 31).compact = .ok (shelvesRecord 31) ∧
      ∃ place, Record.ofText shelving "Shelf" (shelvesRecord 31).text =
          .error (.malformed ⟨.tooDeep, place⟩) ∧
        Record.ofLeadingText shelving "Shelf" (shelvesRecord 31).text =
          .error (.malformed ⟨.tooDeep, place⟩) := by
  obtain ⟨hwf, hstable, hdepth⟩ := shelves_spec 31
  have hfits : (shelves 31).depth ≤ Json.depthLimit := by
    rw [hdepth]
    decide
  have hread := reads_shelves 31
  have hback := hread.printsBack (by decide) ⟨hwf, hfits⟩
  refine ⟨?_, hback.tooDeep (hback.exceeds.mpr (emptyAt_shelves 31)) (legible_shelvesRecord 31)⟩
  exact Record.ofText_eq_ok.mpr
    ⟨_, Json.read_compact hwf hfits hstable, Record.ofJson_eq_ok.mpr hread⟩

/-- A response whose payload is the number of 53 bits, all of them set, written without a point. -/
def wideReply : String := "\x7b\"ok\":9007199254740991e0\x7d"

/-- The record of it. -/
def wide : Datum := .record [("ok", .json (.number (.float .fullOnes)))]

/-- The record that is read from its text. -/
def narrowed : Datum := .record [("ok", .json (.number (.float .beforeFullOnes)))]

theorem ofText_wideReply :
    Record.ofText Api.catalog "OkDeletePantryItemResponse" wideReply = .ok wide := by
  let numeral : Json.Numeral := ⟨false, 9007199254740991, 0, false⟩
  have hnumber : Json.NumberPhase.read "9007199254740991e0".toList =
      some (.exponent numeral false 0) := rfl
  have hfinish : (Json.NumberPhase.exponent numeral false 0).finish = .ok (.float .fullOnes) :=
    Json.NumberPhase.toFloat?_of_some (by decide +kernel)
  have hread : Json.read wideReply = .ok (.object [("ok", .number (.float .fullOnes))]) :=
    Json.read_numeral "ok" hnumber hfinish
  refine Record.ofText_eq_ok.mpr ⟨_, hread, ?_⟩
  cbv

/-- The number is written with a point and a zero, and read as the number before it. -/
theorem ofText_wide :
    Record.ofText Api.catalog "OkDeletePantryItemResponse" wide.text = .ok narrowed := by
  have htext : wide.text = (Json.object [("ok", .number (.float .fullOnes))]).compact := by
    rw [wide, Datum.text]
    rfl
  have hread : Json.read wide.text = .ok (.object [("ok", .number (.float .beforeFullOnes))]) := by
    rw [htext]
    refine Json.read_compact ⟨List.pairwise_singleton _ _, trivial, trivial⟩ (by decide) ?_
    simp [Json.reread, Json.rereadMembers, Number.reread_fullOnes.2]
  refine Record.ofText_eq_ok.mpr ⟨_, hread, ?_⟩
  cbv

/-- Not every record that was read is read again: the text of one is refused, since it nests deeper
than what the record was read from, and the text of another is read as another record, with a number
that is not the same. -/
theorem textAgreement_exceptions :
    (shelving.DistinctKeys ∧
      Record.ofText shelving "Shelf" (shelves 31).compact = .ok (shelvesRecord 31) ∧
      ∃ place, Record.ofText shelving "Shelf" (shelvesRecord 31).text =
          .error (.malformed ⟨.tooDeep, place⟩) ∧
        Record.ofLeadingText shelving "Shelf" (shelvesRecord 31).text =
          .error (.malformed ⟨.tooDeep, place⟩)) ∧
    (Api.catalog.DistinctKeys ∧
      Record.ofText Api.catalog "OkDeletePantryItemResponse" wideReply = .ok wide ∧
      Record.ofText Api.catalog "OkDeletePantryItemResponse" wide.text = .ok narrowed ∧
      Record.ofLeadingText Api.catalog "OkDeletePantryItemResponse" wide.text = .ok narrowed ∧
      narrowed.same wide = false) := by
  refine ⟨⟨by decide, shelves_refused⟩, by decide, ofText_wideReply, ofText_wide, ?_, ?_⟩
  · exact Record.ofText_eq_ofLeadingText.mp ofText_wide
  · decide +kernel

end Larder
