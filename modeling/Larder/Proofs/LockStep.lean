import Larder.Proofs.Reading

/-!
# Strict and lenient reading

A strict and a lenient reading of the same document go in lock step until the lenient one first
leaves an entry out; there the strict one fails, with the error of that entry. What becomes of the
entry afterwards does not matter: it may be forgotten because an entry around it is left out too,
and the lenient reading may fail elsewhere.

* `LockStep` is this relation between two outcomes, and `lockStepLaw` says that every step keeps it;
* `decodeValue_strict_of_lenient`: the lenient reading and its log determine the strict reading.
-/

namespace Larder

variable {α β : Type}

/-- A strict outcome and a lenient one of the same step. -/
structure LockStep (strict lenient : Outcome α) : Prop where
  /-- In strict mode nothing is left out. -/
  dropped : strict.dropped = []
  log : strict.log = []
  /-- As long as the lenient step has left nothing out, the two have done the same. -/
  agree : lenient.log = [] → lenient = strict
  /-- The first entry left out is where the strict step fails. -/
  diverge : ∀ first rest, lenient.log = first :: rest → strict.result = .error first.error
  /-- A lenient step that has left something out, and still ends with a value, reports something. -/
  reported : ∀ a, lenient.result = .ok a → lenient.dropped = [] → lenient.log = []

namespace LockStep

theorem same {o : Outcome α} (hd : o.dropped = []) (hl : o.log = []) : LockStep o o where
  dropped := hd
  log := hl
  agree _ := rfl
  diverge first rest h := by rw [hl] at h; cases h
  reported _ _ _ := hl

theorem below {s l : Outcome α} (p : Path) (h : LockStep s l) :
    LockStep (s.below p) (l.below p) where
  dropped := by show s.dropped.map _ = []; rw [h.dropped]; rfl
  log := by show s.log.map _ = []; rw [h.log]; rfl
  agree hl := by rw [h.agree (List.map_eq_nil_iff.mp hl)]
  diverge first rest hl := by
    obtain ⟨d, ds, hds, hd, _⟩ := List.map_eq_cons_iff.mp hl
    show s.result.mapError _ = _
    rw [h.diverge d ds hds, ← hd]
    rfl
  reported a ha hd := by
    show l.log.map _ = []
    rw [h.reported a (Outcome.below_eq_ok.mp ha) (List.map_eq_nil_iff.mp hd)]
    rfl

theorem bind {s l : Outcome α} {f g : α → Outcome β} (h : LockStep s l)
    (hfg : ∀ a, LockStep (f a) (g a)) : LockStep (s >>= f) (l >>= g) := by
  obtain ⟨sr, sd, sl⟩ := s
  obtain ⟨lr, ld, ll⟩ := l
  obtain rfl : sd = [] := h.dropped
  obtain rfl : sl = [] := h.log
  cases ll with
  | nil =>
      -- nothing left out so far: the steps after it go on in lock step
      cases h.agree rfl
      cases sr with
      | error e => exact same rfl rfl
      | ok a =>
          simp only [Outcome.ok_bind, List.nil_append]
          exact hfg a
  | cons first rest =>
      -- the strict step has failed already
      obtain rfl : sr = .error first.error := h.diverge first rest rfl
      refine ⟨rfl, rfl, ?_, ?_, ?_⟩
      · intro hl; cases lr <;> cases hl
      · intro first' rest' hl
        cases lr <;> cases hl <;> rfl
      · intro b hb hd
        cases lr with
        | error e => cases hb
        | ok a =>
            obtain ⟨hld, _⟩ := List.append_eq_nil_iff.mp hd
            cases h.reported a rfl hld

theorem entry {s l : Outcome α} (seg : Segment) (h : LockStep s l) :
    LockStep (.entry .strict seg s) (.entry .lenient seg l) := by
  obtain ⟨sr, sd, sl⟩ := s
  obtain ⟨lr, ld, ll⟩ := l
  obtain rfl : sd = [] := h.dropped
  obtain rfl : sl = [] := h.log
  cases ll with
  | nil =>
      cases h.agree rfl
      cases sr with
      | ok a => exact same rfl rfl
      | error e =>
          -- the entry fails by itself: it is the first to be left out
          refine ⟨rfl, rfl, nofun, ?_, nofun⟩
          intro first rest hl
          cases hl
          rfl
  | cons first rest =>
      obtain rfl : sr = .error first.error := h.diverge first rest rfl
      refine ⟨rfl, rfl, ?_, ?_, ?_⟩
      · intro hl; cases lr <;> cases hl
      · intro first' rest' hl
        cases lr <;> cases hl <;> rfl
      · intro b hb hd
        cases lr with
        | error e => cases hd
        | ok a => cases h.reported a rfl (List.map_eq_nil_iff.mp hd)

end LockStep

/-- **Every step of a reading keeps the two modes in lock step.** -/
theorem lockStepLaw : StepLaw fun {α} (m : DecodeM α) =>
    Local m ∧ LockStep (m.outcome .strict) (m.outcome .lenient) where
  pure a := by
    refine ⟨localLaw.pure a, ?_⟩
    rw [outcome_pure, outcome_pure]
    exact .same rfl rfl
  fail fault := by
    refine ⟨localLaw.fail fault, ?_⟩
    rw [outcome_fail, outcome_fail]
    exact .same rfl rfl
  bind := by
    intro α β m f h hf
    obtain ⟨hm, hlm⟩ := h
    refine ⟨localLaw.bind hm fun a => (hf a).1, ?_⟩
    rw [outcome_bind hm fun a => (hf a).1, outcome_bind hm fun a => (hf a).1]
    exact hlm.bind fun a => (hf a).2
  within := by
    intro α s m h
    obtain ⟨hm, hlm⟩ := h
    refine ⟨localLaw.within s hm, ?_⟩
    rw [outcome_within s hm, outcome_within s hm]
    exact hlm.below _
  entry := by
    intro α s m h
    obtain ⟨hm, hlm⟩ := h
    refine ⟨localLaw.entry s hm, ?_⟩
    rw [outcome_entry s hm, outcome_entry s hm]
    exact hlm.entry s

theorem reading_lockStep (c : Catalog) (t : Ty) (v : Json) :
    LockStep (reading c .strict t v) (reading c .lenient t v) :=
  (lockStepLaw.decode c t v).2

/-! ## Whole readings -/

variable {c : Catalog} {t : Ty} {v : Json}

theorem decodeValue_strict_dropped {d : Decoded Datum} (h : decodeValue c t ⟨.strict⟩ v = .ok d) :
    d.dropped = [] := by
  rw [← (decodeValue_eq_ok.mp h).2]
  exact (reading_lockStep c t v).dropped

/-- A lenient reading that never left anything out is the strict one. -/
theorem decodeValue_lenient_of_log_nil (h : dropEvents c t ⟨.lenient⟩ v = []) :
    decodeValue c t ⟨.lenient⟩ v = decodeValue c t ⟨.strict⟩ v := by
  rw [decodeValue_eq, decodeValue_eq, (reading_lockStep c t v).agree h]

/-- A lenient reading that left something out first left out what the strict one fails with. -/
theorem decodeValue_strict_of_log_cons {first : Drop} {rest : List Drop}
    (h : dropEvents c t ⟨.lenient⟩ v = first :: rest) :
    decodeValue c t ⟨.strict⟩ v = .error first.error :=
  decodeValue_eq_error.mpr ((reading_lockStep c t v).diverge first rest h)

/-- A reading in either mode is complete just when the strict one ends with the value. -/
theorem decodeValue_complete_iff {mode : Mode} {d : Datum} :
    decodeValue c t ⟨mode⟩ v = .ok ⟨d, []⟩ ↔ decodeValue c t ⟨.strict⟩ v = .ok ⟨d, []⟩ := by
  cases mode with
  | strict => exact Iff.rfl
  | lenient =>
      refine ⟨?_, ?_⟩
      · intro h
        obtain ⟨hres, hd⟩ := decodeValue_eq_ok.mp h
        have hlog := (reading_lockStep c t v).reported d hres hd
        rw [← decodeValue_lenient_of_log_nil hlog]
        exact h
      · intro h
        cases hlog : dropEvents c t ⟨.lenient⟩ v with
        | nil => rw [decodeValue_lenient_of_log_nil hlog]; exact h
        | cons first rest =>
            rw [decodeValue_strict_of_log_cons hlog] at h
            cases h

/-- **The lenient reading determines the strict one.** If the strict reading ends with a value, the
lenient one is complete and ends with the same. If it ends with an error, the lenient one is not
complete, and the error is that of the first entry it leaves out, forgotten or not, or its own error
if it leaves out nothing. -/
theorem decodeValue_strict_of_lenient (c : Catalog) (t : Ty) (v : Json) :
    (∀ d, decodeValue c t ⟨.strict⟩ v = .ok d →
      d.dropped = [] ∧ decodeValue c t ⟨.lenient⟩ v = .ok ⟨d.value, []⟩) ∧
    (∀ e, decodeValue c t ⟨.strict⟩ v = .error e →
      (¬∃ d, decodeValue c t ⟨.lenient⟩ v = .ok d ∧ d.isComplete = true) ∧
        match dropEvents c t ⟨.lenient⟩ v with
        | first :: _ => first.error = e
        | [] => decodeValue c t ⟨.lenient⟩ v = .error e) := by
  refine ⟨?_, ?_⟩
  · intro d h
    have hd : d.dropped = [] := decodeValue_strict_dropped h
    obtain ⟨d, dropped⟩ := d
    subst hd
    exact ⟨rfl, decodeValue_complete_iff.mpr h⟩
  · intro e h
    refine ⟨?_, ?_⟩
    · intro h
      obtain ⟨⟨d, dropped⟩, hl, hcomplete⟩ := h
      obtain rfl : dropped = [] := List.isEmpty_iff.mp hcomplete
      rw [decodeValue_complete_iff.mp hl] at h
      cases h
    · cases hlog : dropEvents c t ⟨.lenient⟩ v with
      | nil => rw [decodeValue_lenient_of_log_nil hlog]; exact h
      | cons first rest =>
          rw [decodeValue_strict_of_log_cons hlog] at h
          cases h
          rfl

end Larder
