import Mathlib
import CampusQuery.Proofs.Catalog.Record
import CampusQuery.Registry.Archive

/-!
# Datasets made of rows

What has been checked of a dataset that is made of rows, in a request or in a file.

* `Dataset.readRows_eq_error_iff` — the first row that is not one of the kind.
* `Dataset.ofRows_eq_ok_iff` — the datasets that rows make up.
* `Dataset.isRegistrable_of_ofRows` — they can be registered, and their rows are of their kind.
* `Dataset.id_of_ofFile` — a dataset read from a file has the stem of its name as id.
-/

namespace CampusQuery

namespace Dataset

/-- What is checked of a dataset before it is registered. -/
structure IsRegistrable (d : Dataset) : Prop where
  valid : isValidId d.id = true
  nonempty : d.rows.isEmpty = false

variable {id : String}

/-- A valid id has a character that is not a blank, and no underscore. -/
theorem isValidId_iff :
    isValidId id = true ↔ (∃ c ∈ id.toList, isBlank c = false) ∧ separator ∉ id.toList := by
  simp [isValidId, isBlankText]

theorem ne_of_isValidId (h : isValidId id = true) : id ≠ "" := by
  rintro rfl
  exact absurd h (by decide)

theorem readRows_cons_eq_ok_iff {kind : Kind} {index : Nat} {v : Json} {vs : List Json}
    {rs : List Record} :
    readRows id kind index (v :: vs) = .ok rs ↔
      ∃ r rs', Record.ofJson kind v = .ok r ∧
        readRows id kind (index + 1) vs = .ok rs' ∧ r :: rs' = rs := by
  rw [readRows]
  cases Record.ofJson kind v with
  | error => simp
  | ok r => cases readRows id kind (index + 1) vs <;> simp [bind, Except.bind, pure, Except.pure]

theorem length_and_kind_of_readRows {kind : Kind} {index : Nat} {vs : List Json} {rs : List Record}
    (h : readRows id kind index vs = .ok rs) :
    rs.length = vs.length ∧ ∀ r ∈ rs, r.kind = kind := by
  induction vs generalizing index rs with
  | nil => cases h; simp
  | cons v vs ih =>
    obtain ⟨r, rs, hr, hrs, rfl⟩ := readRows_cons_eq_ok_iff.mp h
    obtain ⟨hlength, hkind⟩ := ih hrs
    exact ⟨by simp [hlength], List.forall_mem_cons.mpr ⟨Record.kind_of_ofJson hr, hkind⟩⟩

theorem readRows_eq_error_iff {id : String} {kind : Kind} {start : Nat} {vs : List Json}
    {fault : RegistryError} :
    readRows id kind start vs = .error fault ↔
      ∃ index v reason, fault = .invalidRow id (start + index) reason ∧ vs[index]? = some v ∧
        Record.ofJson kind v = .error reason ∧
        ∀ i < index, ∃ v' r, vs[i]? = some v' ∧ Record.ofJson kind v' = .ok r := by
  induction vs generalizing start with
  | nil => simp [readRows]
  | cons v vs ih =>
    rw [readRows]
    cases hv : Record.ofJson kind v with
    | error reason =>
      constructor
      · intro h
        obtain rfl := Except.error.inj h
        exact ⟨0, v, reason, rfl, rfl, hv, nofun⟩
      · rintro ⟨index, v', reason', rfl, hindex, hbad, hgood⟩
        cases index with
        | zero =>
          obtain rfl := Option.some.inj hindex
          obtain rfl := Except.error.inj (hv.symm.trans hbad)
          rfl
        | succ index =>
          obtain ⟨v', r, hfirst, hr⟩ := hgood 0 (Nat.succ_pos _)
          obtain rfl := Option.some.inj hfirst
          exact absurd (hv.symm.trans hr) (by simp)
    | ok r =>
      have hrest : (do return r :: (← readRows id kind (start + 1) vs) : Except _ _) = .error fault ↔
          readRows id kind (start + 1) vs = .error fault := by
        cases readRows id kind (start + 1) vs <;> simp [bind, Except.bind, pure, Except.pure]
      rw [hrest, ih]
      constructor
      · rintro ⟨index, v', reason, rfl, hindex, hbad, hgood⟩
        refine ⟨index + 1, v', reason, by rw [Nat.add_right_comm, Nat.add_assoc], hindex, hbad, ?_⟩
        intro i hi
        cases i with
        | zero => exact ⟨v, r, rfl, hv⟩
        | succ i => exact hgood i (Nat.lt_of_succ_lt_succ hi)
      · rintro ⟨index, v', reason, rfl, hindex, hbad, hgood⟩
        cases index with
        | zero =>
          obtain rfl := Option.some.inj hindex
          exact absurd (hv.symm.trans hbad) (by simp)
        | succ index =>
          refine ⟨index, v', reason, by rw [Nat.add_right_comm, Nat.add_assoc], hindex, hbad, ?_⟩
          exact fun i hi => hgood (i + 1) (Nat.succ_lt_succ hi)

theorem mapM_of_readRows {id : String} {kind : Kind} {start : Nat} {vs : List Json}
    {rs : List Record} (h : readRows id kind start vs = .ok rs) :
    vs.mapM (Record.ofJson kind) = .ok rs := by
  induction vs generalizing start rs with
  | nil =>
    obtain rfl := Except.ok.inj h
    rfl
  | cons v vs ih =>
    obtain ⟨r, rs', hr, hrs, rfl⟩ := readRows_cons_eq_ok_iff.mp h
    simp [List.mapM_cons, hr, ih hrs, bind, Except.bind, pure, Except.pure]

theorem ofRows_eq_ok_iff {kind : Kind} {rows : List Json} {now : Instant} {d : Dataset} :
    ofRows id kind rows now = .ok d ↔
      isValidId id = true ∧ rows ≠ [] ∧
        ∃ rs, readRows id kind 0 rows = .ok rs ∧ ⟨id, kind, rs.toArray, now⟩ = d := by
  unfold ofRows checkId
  cases isValidId id <;> cases rows <;> cases readRows id kind 0 _ <;>
    simp [bind, Except.bind, pure, Except.pure, throw, throwThe, MonadExceptOf.throw]

/-- What every dataset has that is made of rows. -/
theorem isRegistrable_of_ofRows {kind : Kind} {rows : List Json} {now : Instant} {d : Dataset}
    (h : ofRows id kind rows now = .ok d) :
    d.IsRegistrable ∧ ∀ r ∈ d.rows, r.kind = d.kind := by
  obtain ⟨hvalid, hne, rs, hrs, rfl⟩ := ofRows_eq_ok_iff.mp h
  obtain ⟨hlength, hkind⟩ := length_and_kind_of_readRows hrs
  refine ⟨⟨hvalid, ?_⟩, by simpa using hkind⟩
  have : rs ≠ [] := by
    rintro rfl
    exact hne (List.length_eq_zero_iff.mp hlength.symm)
  simpa using this

theorem ofFile_eq_ok_iff {path stem : String} {bytes : List UInt8} {now : Instant} {d : Dataset} :
    ofFile path stem bytes now = .ok d ↔
      ∃ draft, (form bytes.length).read {} bytes = .ok draft ∧ draft.id.getD "" = stem ∧
        ofRows stem (draft.kind.getD .courses) (draft.rows.getD []) (draft.loadedAt.getD now) =
          .ok d := by
  unfold ofFile
  cases (form bytes.length).read {} bytes with
  | error => simp [throw, throwThe, MonadExceptOf.throw]
  | ok draft =>
    by_cases hid : draft.id.getD "" = stem
    · simp [hid]
    · simp [hid, bind, Except.bind, throw, throwThe, MonadExceptOf.throw]

theorem id_of_ofFile {path stem : String} {bytes : List UInt8} {now : Instant} {d : Dataset}
    (h : ofFile path stem bytes now = .ok d) : d.id = stem := by
  obtain ⟨draft, -, -, hrows⟩ := ofFile_eq_ok_iff.mp h
  obtain ⟨-, -, rs, -, rfl⟩ := ofRows_eq_ok_iff.mp hrows
  rfl

theorem isRegistrable_of_ofFile {path stem : String} {bytes : List UInt8} {now : Instant}
    {d : Dataset} (h : ofFile path stem bytes now = .ok d) : d.IsRegistrable := by
  obtain ⟨draft, -, -, hrows⟩ := ofFile_eq_ok_iff.mp h
  exact (isRegistrable_of_ofRows hrows).1

end Dataset

end CampusQuery
