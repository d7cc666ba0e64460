import Mathlib
import Larder.Api.Catalog
import Larder.Api.Failures
import Larder.Envelope
import Larder.Proofs.LockStep

/-!
# Responses and the records of the exchange

The body of a response can be opened for its payload, or read as one of the records that the
exchange declares for whole bodies: a record with a payload, and the record with a failure. The two
readers know nothing of each other, and agree on every body: on payloads, on what is left out, and
on the errors with their paths (`AgreesWithRecords`).

The proof compares outcomes. An envelope with a payload comes to what the one field of the payload's
record comes to (`reading_single`), and a failure to what its record comes to (`reading_failureRecord`).
-/

namespace Larder

variable {c : Catalog} {t : Ty} {mode : Mode} {α β : Type}

/-- The catalog has this record type under its name. -/
def Catalog.Declares (c : Catalog) (m : Model) : Prop := c.fields m.name = m.fields

/-- The record that a failure is read as. -/
def Failure.asRecord (f : Failure) : Datum :=
  .record [("code", .integer (.ofUInt64 f.code)), ("description", .string f.description)]

/-- The failure that was noted. -/
def Event.failure? : Event → Option Failure
  | .failure f => some f
  | .dropped _ => none

/-- How an opened response relates to the same document `v` read as records: as the record `okName`
of its payload, and as the record of a failure. -/
structure AgreesWithRecords (c : Catalog) (t : Ty) (okName : String) (mode : Mode) (body : String)
    (v : Json) : Prop where
  /-- The payload is that of the record, and the same entries are left out. -/
  payload (d : Decoded Datum) : decodeResponse c t ⟨mode⟩ body = .ok d ↔
    decodeValue c (.record okName) ⟨mode⟩ v = .ok ⟨.record [("ok", d.value)], d.dropped⟩
  /-- The service has failed if there is no payload, and the record of a failure can be read. -/
  failure (f : Failure) : decodeResponse c t ⟨mode⟩ body = .error (.service f) ↔
    ∃ members, v = .object members ∧ members.lookup "ok" = none ∧
      (decodeValue c (.record "ErrResponse") ⟨mode⟩ v).map Decoded.value =
        .ok (.record [("err", f.asRecord)])
  /-- With a payload, failing to open is failing to read its record. -/
  payload_error (members : List (String × Json)) (e : ApiError) :
    v = .object members → (members.lookup "ok").isSome = true →
      (decodeResponse c t ⟨mode⟩ body = .error e ↔
        ∃ flaw, decodeValue c (.record okName) ⟨mode⟩ v = .error flaw ∧ e = .decode flaw)
  /-- With a failure alone, failing to read it is failing to read its record. -/
  failure_error (members : List (String × Json)) (flaw : DecodeError) :
    v = .object members → members.lookup "ok" = none → (members.lookup "err").isSome = true →
      (decodeResponse c t ⟨mode⟩ body = .error (.decode flaw) ↔
        decodeValue c (.record "ErrResponse") ⟨mode⟩ v = .error flaw)
  /-- With neither the object is at fault. -/
  neither (members : List (String × Json)) :
    v = .object members → members.lookup "ok" = none → members.lookup "err" = none →
      decodeResponse c t ⟨mode⟩ body = .error (.decode ⟨.root, .noEnvelope⟩)
  notObject : (∀ members, v ≠ .object members) →
    decodeResponse c t ⟨mode⟩ body = .error (.decode ⟨.root, .unexpected "object" v⟩)

/-! ## Records of one field -/

/-- A record with one field, which has to be there, comes to what its field comes to. -/
theorem reading_single {name key : String} (h : c.fields name = [.req key t])
    (members : List (String × Json)) :
    reading c mode (.record name) (.object members) =
      (fun d => Datum.record [(key, d)]) <$> Outcome.required members key (reading c mode t) := by
  rw [reading_record]
  dsimp only
  rw [h, readingFields_cons, readingFields_nil, readingField_eq]
  exact Outcome.map_bind _ _ _

/-! ## Failures and their record -/

theorem Outcome.ofExcept_map (f : α → β) (x : Except Fault α) :
    (Outcome.ofExcept (x.map f) : Outcome β) = f <$> Outcome.ofExcept x := by
  cases x with
  | ok a => rfl
  | error fault => rfl

theorem Outcome.required_map (f : α → β) (members : List (String × Json)) (key : String)
    (read : Json → Outcome α) :
    Outcome.required members key (fun w => f <$> read w) =
      f <$> Outcome.required members key read := by
  unfold Outcome.required
  rw [← Outcome.below_map]
  cases members.lookup key with
  | none => rfl
  | some w => cases hw : w.isNull <;> simp [hw, Outcome.fail]

theorem Integer.ofUInt64_ofNat {n : Integer} (hn : 0 ≤ n.value) :
    ofUInt64 (UInt64.ofNat n.value.toNat) = n := by
  obtain ⟨value, hrange⟩ := n
  have hlt : value.toNat < UInt64.size := by
    rw [show UInt64.size = 18446744073709551616 from rfl]
    omega
  have hvalue : ((UInt64.ofNat value.toNat).toNat : Int) = value := by
    rw [UInt64.toNat_ofNat_of_lt' hlt]
    exact Int.toNat_of_nonneg hn
  unfold ofUInt64
  congr 1

/-- A code is read as the integer of its field. -/
theorem read_code (v : Json) :
    (Scalar.integer .u64).read v =
      (Failure.readCode v).map fun n => .integer (.ofUInt64 n) := by
  cases v with
  | number n =>
      cases n with
      | integer n =>
          have hrange := n.inRange
          by_cases hn : 0 ≤ n.value
          · have hholds : Width.u64.Holds n.value := ⟨hn, hrange.2⟩
            rw [Scalar.read, Failure.readCode, if_pos hholds, if_pos hn, Except.map,
              Integer.ofUInt64_ofNat hn]
          · have hnot : ¬Width.u64.Holds n.value := fun h => hn h.1
            rw [Scalar.read, Failure.readCode, if_neg hnot, if_neg hn, Except.map]
      | float x => rfl
  | _ => rfl

theorem read_description (v : Json) :
    Scalar.string.read v = (Failure.readDescription v).map .string := by
  cases v <;> rfl

/-- A failure is read as its record is. -/
theorem reading_failureRecord (h : ∀ m ∈ Api.failureModels, c.Declares m) (v : Json) :
    reading c mode (.record "RspErr") v =
      Failure.asRecord <$> (Failure.decode v).outcome mode := by
  have hfields : c.fields "RspErr" = [.req "code" (.integer .u64), .req "description" .string] :=
    h _ List.mem_cons_self
  rw [reading_record, reading_failure]
  cases v with
  | object members =>
      dsimp only
      -- each of the two members is read as its field is
      have hcode : reading c mode (.integer .u64) = fun w =>
          (fun n => Datum.integer (.ofUInt64 n)) <$> .ofExcept (Failure.readCode w) := by
        funext w
        exact (reading_scalar _ w).trans (by rw [read_code, Outcome.ofExcept_map])
      have hdescription : reading c mode .string = fun w =>
          Datum.string <$> .ofExcept (Failure.readDescription w) := by
        funext w
        exact (reading_scalar _ w).trans (by rw [read_description, Outcome.ofExcept_map])
      rw [hfields, readingFields_cons, readingFields_cons, readingFields_nil, readingField_eq,
        readingField_eq]
      show Datum.record <$> (Outcome.required members "code" (reading c mode (.integer .u64)) >>=
        fun code => (Outcome.required members "description" (reading c mode .string) >>= _) >>= _) = _
      rw [hcode, hdescription, Outcome.required_map, Outcome.required_map]
      simp only [Outcome.map_bind, Outcome.bind_map, Outcome.bind_assoc]
      rfl
  | _ => rfl

/-- The record of a failure describes it. -/
theorem failureOfDatum?_asRecord (f : Failure) : Api.failureOfDatum? f.asRecord = some f := by
  show some (⟨.ofNat (f.code.toNat : Int).toNat, f.description⟩ : Failure) = some f
  rw [Int.toNat_natCast, UInt64.ofNat_toNat]

theorem Failure.asRecord_injective : Function.Injective asRecord := by
  intro f g h
  have hdescribed := congrArg Api.failureOfDatum? h
  rw [failureOfDatum?_asRecord, failureOfDatum?_asRecord] at hdescribed
  exact Option.some.inj hdescribed

/-! ## The two readings of a document -/

section Readings

variable {okName : String} {members : List (String × Json)}

/-- An envelope with a payload comes to what the payload does. -/
theorem decodeValue_envelope_payload (h : (members.lookup "ok").isSome = true) :
    decodeValue c (.envelope t) ⟨mode⟩ (.object members) =
      (Datum.ok <$> Outcome.required members "ok" (reading c mode t)).decoded := by
  rw [decodeValue_eq, reading_envelope]
  dsimp only
  rw [if_pos h]

/-- An envelope with a failure alone comes to what the failure does. -/
theorem decodeValue_envelope_failure (hok : members.lookup "ok" = none)
    (herr : (members.lookup "err").isSome = true) :
    decodeValue c (.envelope t) ⟨mode⟩ (.object members) =
      (Datum.err <$> Outcome.required members "err" fun w =>
        (Failure.decode w).outcome mode).decoded := by
  rw [decodeValue_eq, reading_envelope]
  dsimp only
  rw [hok, if_neg nofun, if_pos herr]

theorem decodeValue_envelope_neither (hok : members.lookup "ok" = none)
    (herr : members.lookup "err" = none) :
    decodeValue c (.envelope t) ⟨mode⟩ (.object members) = .error ⟨.root, .noEnvelope⟩ := by
  rw [decodeValue_eq, reading_envelope]
  dsimp only
  rw [hok, herr, if_neg nofun, if_neg nofun]
  rfl

/-- The record of a payload comes to what the payload does. -/
theorem decodeValue_okRecord (hok : c.Declares (Api.okModel okName t)) :
    decodeValue c (.record okName) ⟨mode⟩ (.object members) =
      (Outcome.required members "ok" (reading c mode t)).decoded.map fun d =>
        ⟨.record [("ok", d.value)], d.dropped⟩ := by
  have hfields : c.fields okName = [.req "ok" t] := hok
  rw [decodeValue_eq, reading_single hfields, Outcome.decoded_map]

/-- A document without a payload is not the record of one. -/
theorem decodeValue_okRecord_ne_ok (hok : c.Declares (Api.okModel okName t))
    (h : members.lookup "ok" = none) (d : Decoded Datum) :
    decodeValue c (.record okName) ⟨mode⟩ (.object members) ≠ .ok d := by
  rw [decodeValue_okRecord hok, Outcome.required, h]
  exact nofun

/-- The record of a failure's envelope comes to what the failure does. -/
theorem decodeValue_errResponse (h : ∀ m ∈ Api.failureModels, c.Declares m) :
    decodeValue c (.record "ErrResponse") ⟨mode⟩ (.object members) =
      (Outcome.required members "err" fun w => (Failure.decode w).outcome mode).decoded.map fun d =>
        ⟨.record [("err", d.value.asRecord)], d.dropped⟩ := by
  have hfields : c.fields "ErrResponse" = [.req "err" (.record "RspErr")] :=
    h _ (List.mem_cons_of_mem _ List.mem_cons_self)
  rw [decodeValue_eq, reading_single hfields, funext (reading_failureRecord h),
    Outcome.required_map, Outcome.map_map, Outcome.decoded_map]

end Readings

/-! ## Opened responses -/

section Opened

variable {okName body : String} {v : Json} {members : List (String × Json)}

theorem decodeResponse_malformed {m : Json.Malformed} (hm : Json.read body = .error m) :
    decodeResponse c t ⟨mode⟩ body = .error (.malformed m) := by
  unfold decodeResponse openResponse readDocument
  rw [hm]

theorem decodeResponse_of_read (hv : Json.read body = .ok v) :
    decodeResponse c t ⟨mode⟩ body =
      match decodeValue c (.envelope t) ⟨mode⟩ v with
      | .error e => .error (.decode e)
      | .ok ⟨.ok d, dropped⟩ => .ok ⟨d, dropped⟩
      | .ok ⟨.err f, _⟩ => .error (.service f)
      | .ok other => .ok other := by
  unfold decodeResponse openResponse readDocument
  rw [hv]
  dsimp only
  cases decodeValue c (.envelope t) ⟨mode⟩ v with
  | error e => rfl
  | ok decoded =>
      obtain ⟨d, dropped⟩ := decoded
      cases d <;> rfl

theorem decodeResponse_payload (hv : Json.read body = .ok (.object members))
    (h : (members.lookup "ok").isSome = true) :
    decodeResponse c t ⟨mode⟩ body =
      (Outcome.required members "ok" (reading c mode t)).decoded.mapError .decode := by
  rw [decodeResponse_of_read hv, decodeValue_envelope_payload h]
  obtain ⟨result, dropped, log⟩ := Outcome.required members "ok" (reading c mode t)
  cases result with
  | error e => rfl
  | ok d => rw [Outcome.ok_map]; rfl

theorem decodeResponse_failure (hv : Json.read body = .ok (.object members))
    (hok : members.lookup "ok" = none) (herr : (members.lookup "err").isSome = true) :
    decodeResponse c t ⟨mode⟩ body =
      match (Outcome.required members "err" fun w => (Failure.decode w).outcome mode).decoded with
      | .error e => .error (.decode e)
      | .ok d => .error (.service d.value) := by
  rw [decodeResponse_of_read hv, decodeValue_envelope_failure hok herr]
  obtain ⟨result, dropped, log⟩ :=
    Outcome.required members "err" fun w => (Failure.decode w).outcome mode
  cases result with
  | error e => rfl
  | ok f => rw [Outcome.ok_map]; rfl

theorem decodeResponse_neither (hv : Json.read body = .ok (.object members))
    (hok : members.lookup "ok" = none) (herr : members.lookup "err" = none) :
    decodeResponse c t ⟨mode⟩ body = .error (.decode ⟨.root, .noEnvelope⟩) := by
  rw [decodeResponse_of_read hv, decodeValue_envelope_neither hok herr]

theorem decodeResponse_notObject (hv : Json.read body = .ok v)
    (hobject : ∀ members, v ≠ .object members) :
    decodeResponse c t ⟨mode⟩ body = .error (.decode ⟨.root, .unexpected "object" v⟩) := by
  rw [decodeResponse_of_read hv, decodeValue_eq, reading_envelope]
  cases v with
  | object members => exact absurd rfl (hobject members)
  | _ => rfl

/-! ### One kind of envelope at a time -/

theorem agrees_payload (hok : c.Declares (Api.okModel okName t))
    (hv : Json.read body = .ok (.object members)) (hsome : (members.lookup "ok").isSome = true) :
    AgreesWithRecords c t okName mode body (.object members) where
  payload d := by
    rw [decodeResponse_payload hv hsome, decodeValue_okRecord hok]
    obtain ⟨value, dropped⟩ := d
    cases (Outcome.required members "ok" (reading c mode t)).decoded with
    | error flaw => exact ⟨nofun, nofun⟩
    | ok d =>
        obtain ⟨value', dropped'⟩ := d
        simp [Except.mapError, Except.map]
  failure f := by
    rw [decodeResponse_payload hv hsome]
    refine ⟨fun hf => ?_, fun hf => ?_⟩
    · cases h : (Outcome.required members "ok" (reading c mode t)).decoded <;>
        simp [h, Except.mapError] at hf
    · obtain ⟨_, hms, hnone, -⟩ := hf
      cases hms
      simp [hnone] at hsome
  payload_error _ e _ _ := by
    rw [decodeResponse_payload hv hsome, decodeValue_okRecord hok]
    cases (Outcome.required members "ok" (reading c mode t)).decoded with
    | error flaw => simp [Except.mapError, Except.map, eq_comm]
    | ok d => simp [Except.mapError, Except.map]
  failure_error _ _ hms hnone _ := by
    cases hms
    simp [hnone] at hsome
  neither _ hms hnone _ := by
    cases hms
    simp [hnone] at hsome
  notObject hobject := absurd rfl (hobject members)

theorem agrees_failure (hok : c.Declares (Api.okModel okName t))
    (hfail : ∀ m ∈ Api.failureModels, c.Declares m)
    (hv : Json.read body = .ok (.object members)) (hnone : members.lookup "ok" = none)
    (hsome : (members.lookup "err").isSome = true) :
    AgreesWithRecords c t okName mode body (.object members) where
  payload d := by
    refine ⟨fun hd => ?_, fun hd => absurd hd (decodeValue_okRecord_ne_ok hok hnone _)⟩
    rw [decodeResponse_failure hv hnone hsome] at hd
    split at hd <;> cases hd
  failure f := by
    rw [decodeResponse_failure hv hnone hsome, decodeValue_errResponse hfail]
    cases (Outcome.required members "err" fun w => (Failure.decode w).outcome mode).decoded with
    | error flaw => simp [Except.map]
    | ok d =>
        refine ⟨fun h => ?_, fun h => ?_⟩
        · cases h
          exact ⟨members, rfl, hnone, rfl⟩
        · obtain ⟨_, -, -, h⟩ := h
          simp only [Except.map, Except.ok.injEq, Datum.record.injEq, List.cons.injEq,
            Prod.mk.injEq, true_and, and_true] at h
          exact congrArg (fun g => Except.error (ApiError.service g)) (Failure.asRecord_injective h)
  payload_error _ _ hms hsome' := by
    cases hms
    simp [hnone] at hsome'
  failure_error _ flaw _ _ _ := by
    rw [decodeResponse_failure hv hnone hsome, decodeValue_errResponse hfail]
    cases (Outcome.required members "err" fun w => (Failure.decode w).outcome mode).decoded with
    | error e => simp [Except.map]
    | ok d => exact ⟨nofun, nofun⟩
  neither _ hms _ hnone' := by
    cases hms
    simp [hnone'] at hsome
  notObject hobject := absurd rfl (hobject members)

theorem agrees_neither (hok : c.Declares (Api.okModel okName t))
    (hfail : ∀ m ∈ Api.failureModels, c.Declares m)
    (hv : Json.read body = .ok (.object members)) (hnone : members.lookup "ok" = none)
    (hnone' : members.lookup "err" = none) :
    AgreesWithRecords c t okName mode body (.object members) where
  payload d := by
    rw [decodeResponse_neither hv hnone hnone']
    exact ⟨nofun, fun hd => absurd hd (decodeValue_okRecord_ne_ok hok hnone _)⟩
  failure f := by
    rw [decodeResponse_neither hv hnone hnone', decodeValue_errResponse hfail, Outcome.required,
      hnone']
    exact ⟨nofun, nofun⟩
  payload_error _ _ hms hsome := by
    cases hms
    simp [hnone] at hsome
  failure_error _ _ hms _ hsome := by
    cases hms
    simp [hnone'] at hsome
  neither _ _ _ _ := decodeResponse_neither hv hnone hnone'
  notObject hobject := absurd rfl (hobject members)

theorem agrees_notObject (hv : Json.read body = .ok v) (hobject : ∀ members, v ≠ .object members) :
    AgreesWithRecords c t okName mode body v where
  payload d := by
    have hrecord : decodeValue c (.record okName) ⟨mode⟩ v =
        .error ⟨.root, .unexpected "object" v⟩ := by
      rw [decodeValue_eq, reading_record]
      cases v with
      | object members => exact absurd rfl (hobject members)
      | _ => rfl
    rw [decodeResponse_notObject hv hobject, hrecord]
    exact ⟨nofun, nofun⟩
  failure f := by
    rw [decodeResponse_notObject hv hobject]
    refine ⟨nofun, fun h => ?_⟩
    obtain ⟨members, hv', -⟩ := h
    exact absurd hv' (hobject members)
  payload_error members _ hv' _ := absurd hv' (hobject members)
  failure_error members _ hv' _ _ := absurd hv' (hobject members)
  neither members hv' _ _ := absurd hv' (hobject members)
  notObject _ := decodeResponse_notObject hv hobject

theorem agreesWithRecords (hok : c.Declares (Api.okModel okName t))
    (hfail : ∀ m ∈ Api.failureModels, c.Declares m) (hv : Json.read body = .ok v) :
    AgreesWithRecords c t okName mode body v := by
  by_cases hobject : ∃ members, v = .object members
  · obtain ⟨members, rfl⟩ := hobject
    cases hpayload : members.lookup "ok" with
    | some w => exact agrees_payload hok hv (by rw [hpayload]; rfl)
    | none =>
        cases herr : members.lookup "err" with
        | some w => exact agrees_failure hok hfail hv hpayload (by rw [herr]; rfl)
        | none => exact agrees_neither hok hfail hv hpayload herr
  · exact agrees_notObject hv fun members hv' => hobject ⟨members, hv'⟩

/-- A failure is noted just when it stands in the place of the payload. -/
theorem failure_events (options : Options) (body : String) :
    (openResponse c t options body).2.filterMap Event.failure? =
      match decodeResponse c t options body with
      | .error (.service f) => [f]
      | _ => [] := by
  have hdropped : ∀ ds : List Drop, (ds.map Event.dropped).filterMap Event.failure? = [] :=
    fun ds => by rw [List.filterMap_map]; exact List.filterMap_eq_nil_iff.mpr fun _ _ => rfl
  unfold decodeResponse openResponse readDocument
  cases Json.read body with
  | error m => rfl
  | ok v =>
      dsimp only
      cases decodeValue c (.envelope t) options v with
      | error e => exact hdropped _
      | ok decoded =>
          obtain ⟨d, dropped⟩ := decoded
          cases d with
          | err f =>
              rw [List.filterMap_append, hdropped]
              rfl
          | _ => exact hdropped _

end Opened

/-- **An opened response agrees with the records of the exchange.** Whatever the type of the payload
and the body: a text that is no document is reported as such, and a document is opened as the record
of its payload or the record of a failure is read (`AgreesWithRecords`). A failure is noted just when
it is the answer, and the strict reading is the one in strict mode, which leaves nothing out. -/
theorem decodeResponse_agrees (okName : String) (hok : c.Declares (Api.okModel okName t))
    (hfail : ∀ m ∈ Api.failureModels, c.Declares m) (body : String) :
    (∀ mode,
      (∀ m, Json.read body = .error m → decodeResponse c t ⟨mode⟩ body = .error (.malformed m)) ∧
      (∀ v, Json.read body = .ok v → AgreesWithRecords c t okName mode body v) ∧
      (openResponse c t ⟨mode⟩ body).2.filterMap Event.failure? =
        match decodeResponse c t ⟨mode⟩ body with
        | .error (.service f) => [f]
        | _ => []) ∧
    decodeResponse c t ⟨.strict⟩ body =
      (decodeResponseStrictly c t body).map fun d => ⟨d, []⟩ := by
  have hstrict : ∀ d, decodeResponse c t ⟨.strict⟩ body = .ok d → d.dropped = [] := by
    intro d hd
    cases hread : Json.read body with
    | error m =>
        rw [decodeResponse_malformed hread] at hd
        cases hd
    | ok v =>
        have hrecord : decodeValue c (.record okName) ⟨.strict⟩ v = _ :=
          ((agreesWithRecords hok hfail hread).payload d).mp hd
        have hnone := decodeValue_strict_dropped hrecord
        exact hnone
  refine ⟨fun mode => ⟨fun m => decodeResponse_malformed,
    fun v => agreesWithRecords hok hfail, failure_events _ body⟩, ?_⟩
  unfold decodeResponseStrictly
  cases hd : decodeResponse c t ⟨.strict⟩ body with
  | error e => rfl
  | ok d =>
      obtain ⟨value, dropped⟩ := d
      rw [Except.map, Except.map, ← hstrict _ hd]

/-- A reply with a payload whose only item is no record, and with a failure beside the payload. -/
def doubtfulReply : Json :=
  .object [("err", .null), ("ok", .object [
    ("items", .array [.integer (.ofInt32 7)]), ("readonly", .bool true)])]

/-- What the reply is opened for. -/
def openedReply : Decoded Datum :=
  let path : Path := ⟨[.key "ok", .key "items", .index 0]⟩
  ⟨.record [("items", .list []), ("readonly", .bool true)],
    [⟨path, ⟨path, .unexpected "object" (.integer (.ofInt32 7))⟩⟩]⟩

theorem decodeResponse_agrees_doubtfulReply :
    Api.catalog.Declares (Api.okModel "OkReadListResponse" (.record "ReadListResponse")) ∧
      (∀ m ∈ Api.failureModels, Api.catalog.Declares m) ∧
      decodeResponse Api.catalog (.record "ReadListResponse") ⟨.lenient⟩ doubtfulReply.compact =
        .ok openedReply ∧
      decodeValue Api.catalog (.record "OkReadListResponse") ⟨.lenient⟩ doubtfulReply =
        .ok ⟨.record [("ok", openedReply.value)], openedReply.dropped⟩ := by
  have hok : Api.catalog.Declares
      (Api.okModel "OkReadListResponse" (.record "ReadListResponse")) := by
    unfold Catalog.Declares
    decide
  have hfail : ∀ m ∈ Api.failureModels, Api.catalog.Declares m := by
    unfold Catalog.Declares
    decide
  have hread : Json.read doubtfulReply.compact = .ok doubtfulReply := by
    cbv
  have hopen : decodeResponse Api.catalog (.record "ReadListResponse") ⟨.lenient⟩
      doubtfulReply.compact = .ok openedReply := by
    cbv
  have hagrees := ((decodeResponse_agrees _ hok hfail doubtfulReply.compact).1 .lenient).2.1 _ hread
  exact ⟨hok, hfail, hopen, (hagrees.payload openedReply).mp hopen⟩

end Larder
