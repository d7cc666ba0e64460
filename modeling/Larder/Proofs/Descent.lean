import Larder.Decode.Typed

/-!
# How a reading descends

Reading goes to smaller documents, or to the same document and a smaller type. `Ty.descent` is that
recursion as an induction: what holds of a type and a document whenever it holds of everything the
reading of them goes down to holds of all types and documents.

A reading is put together from five kinds of steps. `StepLaw` says of a property of steps that each
kind keeps it, and then every reading has it (`StepLaw.decode`).
-/

namespace Larder

open DecodeM

/-! ## One level of a reading -/

theorem decode_scalar (c : Catalog) (s : Scalar) (v : Json) :
    decode c (.scalar s) v = ofExcept (s.read v) := by
  simp only [decode]

theorem decode_option (c : Catalog) (t : Ty) (v : Json) :
    decode c (.option t) v =
      if v.isNull then pure .absent else Datum.present <$> decode c t v := by
  simp only [decode]

theorem decode_list (c : Catalog) (t : Ty) (v : Json) :
    decode c (.list t) v =
      match v with
      | .null => pure (.list [])
      | .array items => Datum.list <$> decodeItems c t 0 items
      | v => fail (.unexpected "array" v) := by
  cases v <;> simp only [decode]

theorem decode_map (c : Catalog) (t : Ty) (v : Json) :
    decode c (.map t) v =
      match v with
      | .null => pure (.map [])
      | .object members => Datum.map <$> decodeEntries c t members
      | v => fail (.unexpected "object" v) := by
  cases v <;> simp only [decode]

theorem decode_envelope (c : Catalog) (t : Ty) (v : Json) :
    decode c (.envelope t) v =
      match v with
      | .object members =>
        if (members.lookup "ok").isSome then
          Datum.ok <$> required members "ok" fun w _ => decode c t w
        else if (members.lookup "err").isSome then
          Datum.err <$> required members "err" fun w _ => Failure.decode w
        else fail .noEnvelope
      | v => fail (.unexpected "object" v) := by
  cases v <;> simp only [decode]

theorem decode_record (c : Catalog) (name : String) (v : Json) :
    decode c (.record name) v =
      match v with
      | .object members => Datum.record <$> decodeFields c members (c.fields name)
      | v => fail (.unexpected "object" v) := by
  cases v <;> simp only [decode]

/-! ## Induction along a reading -/

/-- **Induction along a reading.** The cases are the constructors of types; an option goes down to
its own type, a collection to its entries, an envelope to its payload, a record to its fields. -/
theorem Ty.descent (c : Catalog) {motive : Ty → Json → Prop}
    (scalar : ∀ s v, motive (.scalar s) v)
    (option : ∀ t v, motive t v → motive (.option t) v)
    (list : ∀ t v, (∀ items, v = .array items → ∀ w ∈ items, motive t w) → motive (.list t) v)
    (map : ∀ t v, (∀ members, v = .object members → ∀ m ∈ members, motive t m.2) →
      motive (.map t) v)
    (envelope : ∀ t v,
      (∀ members w, v = .object members → members.lookup "ok" = some w → motive t w) →
      motive (.envelope t) v)
    (record : ∀ name v,
      (∀ members, v = .object members → ∀ f ∈ c.fields name, ∀ w,
        members.lookup f.key = some w → motive f.ty w) →
      motive (.record name) v) :
    ∀ t v, motive t v := by
  intro t v
  induction hn : sizeOf v using Nat.strongRecOn generalizing t v with
  | ind n ih =>
    subst hn
    have smaller : ∀ w, sizeOf w < sizeOf v → ∀ u, motive u w := fun w hw u => ih _ hw u w rfl
    -- the document gets smaller except under an option, where the type does
    induction t with
    | scalar s => exact scalar s v
    | option t iht => exact option t v iht
    | list t _ =>
        refine list t v fun items hv w hw => smaller w ?_ t
        subst hv
        have := List.sizeOf_lt_of_mem hw
        rw [Json.array.sizeOf_spec]
        omega
    | map t _ =>
        refine map t v fun members hv m hm => smaller m.2 ?_ t
        subst hv
        have hlt := List.sizeOf_lt_of_mem hm
        obtain ⟨key, w⟩ := m
        rw [Prod.mk.sizeOf_spec] at hlt
        rw [Json.object.sizeOf_spec]
        show sizeOf w < _
        omega
    | envelope t _ =>
        refine envelope t v fun members w hv hw => smaller w ?_ t
        subst hv
        have := sizeOf_lt_of_lookup hw
        rw [Json.object.sizeOf_spec]
        omega
    | record name =>
        refine record name v fun members hv f _ w hw => smaller w ?_ f.ty
        subst hv
        have := sizeOf_lt_of_lookup hw
        rw [Json.object.sizeOf_spec]
        omega

/-! ## What every step keeps -/

/-- A property that the steps of a reading keep, one by one. -/
structure StepLaw (P : {α : Type} → DecodeM α → Prop) : Prop where
  pure : ∀ {α : Type} (a : α), P (Pure.pure a : DecodeM α)
  fail : ∀ {α : Type} (fault : Fault), P (DecodeM.fail fault : DecodeM α)
  bind : ∀ {α β : Type} {m : DecodeM α} {f : α → DecodeM β}, P m → (∀ a, P (f a)) → P (m >>= f)
  within : ∀ {α : Type} (s : Segment) {m : DecodeM α}, P m → P (DecodeM.within s m)
  entry : ∀ {α : Type} (s : Segment) {m : DecodeM α}, P m → P (DecodeM.entry s m)

namespace StepLaw

variable {P : {α : Type} → DecodeM α → Prop} {α β : Type}

theorem map (law : StepLaw P) (f : α → β) {m : DecodeM α} (hm : P m) : P (f <$> m) :=
  law.bind hm fun a => law.pure (f a)

theorem ofExcept (law : StepLaw P) (x : Except Fault α) : P (DecodeM.ofExcept x) := by
  cases x with
  | ok a => exact law.pure a
  | error fault => exact law.fail fault

theorem required (law : StepLaw P) {members : List (String × Json)} {key : String}
    {read : (v : Json) → members.lookup key = some v → DecodeM α}
    (hread : ∀ v h, P (read v h)) : P (DecodeM.required members key read) := by
  refine law.within _ ?_
  split
  · exact law.fail _
  · split
    · exact law.fail _
    · exact hread _ _

theorem optional (law : StepLaw P) {members : List (String × Json)} {key : String}
    {read : (v : Json) → members.lookup key = some v → DecodeM α}
    (hread : ∀ v h, P (read v h)) : P (DecodeM.optional members key read) := by
  unfold DecodeM.optional
  split
  · exact law.pure _
  · split
    · exact law.pure _
    · exact law.within _ (law.map _ (hread _ _))

theorem field (law : StepLaw P) {f : Field} {members : List (String × Json)}
    {read : (v : Json) → members.lookup f.key = some v → DecodeM Datum}
    (hread : ∀ v h, P (read v h)) : P (f.read members read) := by
  unfold Field.read
  split
  · exact law.required hread
  · exact law.map _ (law.optional hread)

theorem failure (law : StepLaw P) (v : Json) : P (Failure.decode v) := by
  refine law.bind ?_ fun members => law.bind (law.required fun _ _ => law.ofExcept _) fun code =>
    law.bind (law.required fun _ _ => law.ofExcept _) fun description => law.pure _
  cases v with
  | object members => exact law.pure members
  | _ => exact law.fail _

theorem items (law : StepLaw P) {c : Catalog} {t : Ty} :
    ∀ (index : Nat) {items : List Json}, (∀ v ∈ items, P (decode c t v)) →
      P (decodeItems c t index items)
  | _, [], _ => by
      rw [decodeItems]
      exact law.pure []
  | index, v :: rest, h => by
      rw [decodeItems]
      exact law.bind (law.entry _ (h v List.mem_cons_self)) fun _ =>
        law.bind (law.items (index + 1) fun w hw => h w (List.mem_cons_of_mem v hw)) fun _ =>
          law.pure _

theorem entries (law : StepLaw P) {c : Catalog} {t : Ty} :
    ∀ {entries : List (String × Json)}, (∀ e ∈ entries, P (decode c t e.2)) →
      P (decodeEntries c t entries)
  | [], _ => by
      rw [decodeEntries]
      exact law.pure []
  | (key, v) :: rest, h => by
      rw [decodeEntries]
      exact law.bind (law.entry _ (h (key, v) List.mem_cons_self)) fun _ =>
        law.bind (law.entries fun e he => h e (List.mem_cons_of_mem _ he)) fun _ => law.pure _

theorem fields (law : StepLaw P) {c : Catalog} {members : List (String × Json)} :
    ∀ {fields : List Field},
      (∀ f ∈ fields, ∀ v, members.lookup f.key = some v → P (decode c f.ty v)) →
      P (decodeFields c members fields)
  | [], _ => by
      rw [decodeFields]
      exact law.pure []
  | f :: rest, h => by
      rw [decodeFields]
      exact law.bind (law.field fun v hv => h f List.mem_cons_self v hv) fun _ =>
        law.bind (law.fields fun g hg => h g (List.mem_cons_of_mem f hg)) fun _ => law.pure _

/-- **Every reading has what its steps keep.** -/
theorem decode (law : StepLaw P) (c : Catalog) (t : Ty) (v : Json) : P (decode c t v) := by
  induction t, v using Ty.descent c with
  | scalar s v =>
      rw [decode_scalar]
      exact law.ofExcept _
  | option t v ih =>
      rw [decode_option]
      split
      · exact law.pure _
      · exact law.map _ ih
  | list t v ih =>
      rw [decode_list]
      split
      · exact law.pure _
      · exact law.map _ (law.items 0 (ih _ rfl))
      · exact law.fail _
  | map t v ih =>
      rw [decode_map]
      split
      · exact law.pure _
      · exact law.map _ (law.entries (ih _ rfl))
      · exact law.fail _
  | envelope t v ih =>
      rw [decode_envelope]
      split
      · split
        · exact law.map _ (law.required fun w hw => ih _ w rfl hw)
        · split
          · exact law.map _ (law.required fun w _ => law.failure w)
          · exact law.fail _
      · exact law.fail _
  | record name v ih =>
      rw [decode_record]
      split
      · exact law.map _ (law.fields (ih _ rfl))
      · exact law.fail _

end StepLaw

end Larder
