import Mathlib
import CampusQuery.Proofs.Engine.Opening
import CampusQuery.Proofs.Json.Progress
import CampusQuery.Proofs.Json.Text

/-!
# Opening an engine on a directory

An engine is opened on a directory just if every entry of it that has the name of the file of a
dataset is such a file. Then it has the dataset of each, and nothing from any other entry; and else
the first such entry that is not a file of a dataset is why it is not opened.

* `DatasetFile.IsIn` — what the bytes of a file say; all of it, but for a time of registration, has
  to be there.
* `Archive.IsDatasetName`, `Archive.Gives` — a name that ends in `.json`, and the id before it; it is
  empty if the name is not a text.
* `Archive.Stores` — an entry is the file of a dataset.
* `Archive.Offends` — it is not, and for which fault.
* `Archive.mapM_eq_error_iff` — of many files the first that cannot be read counts.
* `Engine.open_verdict` — what comes of opening an engine, for any files on the disk.
-/

namespace CampusQuery

open CampusQuery.Json CampusQuery.Archive

/-- What the file of a dataset says, a time of registration only if it has one. -/
structure DatasetFile where
  id : String
  kind : Kind
  loadedAt? : Option Instant
  rows : List Json

namespace DatasetFile

/-- What is read of the file. -/
def draft (file : DatasetFile) : Dataset.Draft :=
  ⟨some file.id, some file.kind, file.loadedAt?, some file.rows⟩

/-- Bytes that say what a file says. -/
def IsIn (file : DatasetFile) (bytes : List UInt8) : Prop :=
  (Dataset.form bytes.length).read {} bytes = .ok file.draft

/-- The dataset of a file with typed rows; without a time it is registered now. -/
def dataset (file : DatasetFile) (rows : List Record) (now : Instant) : Dataset :=
  ⟨file.id, file.kind, rows.toArray, file.loadedAt?.getD now⟩

end DatasetFile

/-! ## Names -/

/-- Different names have different bytes. -/
theorem Name.bytes_inj {name other : Name} (h : name.bytes = other.bytes) : name = other := by
  have hraw (s : String) (stray : RawName) : bytesOf s ≠ stray.1 := by
    intro heq
    have hnone := stray.2
    have hbytes : ByteArray.mk (bytesOf s).toArray = s.toByteArray :=
      ByteArray.ext (by simp [bytesOf, toList_eq_data])
    rw [← heq, hbytes, String.fromUTF8?, dif_pos s.isValidUTF8] at hnone
    cases hnone
  cases name with
  | text s =>
    cases other with
    | text s' =>
      have hbytes : (bytesOf s).toByteArray = (bytesOf s').toByteArray := congrArg _ h
      rw [bytesOf_toByteArray, bytesOf_toByteArray] at hbytes
      exact congrArg Name.text (String.toByteArray_inj.mp hbytes)
    | raw stray => exact absurd h (hraw s stray)
  | raw stray =>
    cases other with
    | text s => exact absurd h.symm (hraw s stray)
    | raw stray' => exact congrArg Name.raw (Subtype.ext h)

namespace Archive

/-- A name with the extension of the files of datasets, and the id that it gives. A name that is not
a text gives the empty one. -/
inductive Gives : Name → String → Prop
  | text {id : String} : id ≠ "" → Gives (.text (id ++ ".json")) id
  | raw {name : RawName} {before : List UInt8} : name.1 = before ++ bytesOf ".json" →
      Gives (.raw name) ""

/-- A name with the extension of the files of datasets. -/
def IsDatasetName (name : Name) : Prop :=
  ∃ id, Gives name id

variable {name : Name}

theorem fileName_eq (id : String) : fileName id = id ++ ".json" := by
  rw [fileName, String.append_assoc]
  rfl

theorem Gives.stem_eq {id : String} (h : Gives name id) : stem name = id := by
  cases h with
  | text hid => rw [← fileName_eq, stem_fileName hid]
  | raw => rfl

theorem isFileName_iff : isFileName name = true ↔ IsDatasetName name := by
  cases name with
  | text s =>
    rw [isFileName_text_iff]
    constructor
    · rintro ⟨id, hid, rfl⟩
      exact ⟨id, fileName_eq id ▸ .text hid⟩
    · rintro ⟨id, ⟨hid⟩⟩
      exact ⟨id, hid, (fileName_eq id).symm⟩
  | raw name =>
    have hextension : isFileName (.raw name) = true ↔ bytesOf ".json" <:+ name.1 :=
      List.isSuffixOf_iff_suffix
    rw [hextension]
    constructor
    · rintro ⟨before, h⟩
      exact ⟨"", .raw h.symm⟩
    · intro ⟨_, hgives⟩
      cases hgives with
      | raw h => exact ⟨_, h.symm⟩

instance (name : Name) : Decidable (IsDatasetName name) :=
  decidable_of_iff (isFileName name = true) isFileName_iff

theorem gives_iff (hname : IsDatasetName name) {id : String} :
    Gives name id ↔ id = stem name := by
  obtain ⟨id', h'⟩ := hname
  constructor
  · intro h
    exact h.stem_eq.symm
  · rintro rfl
    exact h'.stem_eq ▸ h'

end Archive

/-! ## Documents -/

namespace Dataset

theorem collects_form (bound : Nat) : (form bound).Collects where
  forward := by
    intro field hfield depth draft rest
    simp only [form, List.mem_cons, List.not_mem_nil, or_false] at hfield
    rcases hfield with rfl | rfl | rfl | rfl
    · exact (leaves_readTextAs _ rest).bind fun _ h => .ok h
    · exact (leaves_readVariant _ depth rest).bind fun _ h => .ok h
    · exact (leaves_readTime rest).bind fun _ h => .ok h
    · exact (leaves_readList bound depth rest).bind fun _ h => .ok h
  sets := by
    intro field hfield depth draft rest read hread
    simp only [form, List.mem_cons, List.not_mem_nil, or_false] at hfield
    rcases hfield with rfl | rfl | rfl | rfl <;>
      obtain ⟨value, -, hread⟩ := Form.exists_of_bind hread <;> cases hread <;> rfl
  keeps := by
    intro field hfield depth draft rest read hread other hother hset
    simp only [form, List.mem_cons, List.not_mem_nil, or_false] at hfield hother
    rcases hfield with rfl | rfl | rfl | rfl <;>
      obtain ⟨value, -, hread⟩ := Form.exists_of_bind hread <;> cases hread <;>
      rcases hother with rfl | rfl | rfl | rfl <;> first | exact hset | rfl

/-- A document that is read says everything that a dataset needs. -/
theorem exists_file_of_read {bytes : List UInt8} {draft : Draft}
    (h : (form bytes.length).read {} bytes = .ok draft) :
    ∃ file : DatasetFile, file.draft = draft ∧ file.IsIn bytes := by
  have hcomplete := Form.isComplete_of_read (collects_form _) h
  have hid : draft.id.isSome = true := hcomplete _ (List.mem_cons_self) rfl
  have hkind : draft.kind.isSome = true := hcomplete _ (by simp [form]; right; left; rfl) rfl
  have hrows : draft.rows.isSome = true :=
    hcomplete _ (by simp [form]; right; right; right; rfl) rfl
  obtain ⟨id, kind, loadedAt?, rows⟩ := draft
  obtain ⟨id, rfl⟩ := Option.isSome_iff_exists.mp hid
  obtain ⟨kind, rfl⟩ := Option.isSome_iff_exists.mp hkind
  obtain ⟨rows, rfl⟩ := Option.isSome_iff_exists.mp hrows
  exact ⟨⟨id, kind, loadedAt?, rows⟩, rfl, h⟩

theorem readRows_eq_ok_iff {id : String} {kind : Kind} {start : Nat} {vs : List Json}
    {rs : List Record} :
    readRows id kind start vs = .ok rs ↔ vs.mapM (Record.ofJson kind) = .ok rs := by
  refine ⟨mapM_of_readRows, fun h => ?_⟩
  have hforall := mapM_eq_ok_iff.mp h
  clear h
  induction hforall generalizing start with
  | nil => rfl
  | cons hrow _ ih => exact readRows_cons_eq_ok_iff.mpr ⟨_, _, hrow, ih, rfl⟩

end Dataset

/-! ## Files -/

namespace Archive

/-- The entry of a name in a directory is the file of a dataset, with rows that are all typed. -/
structure Stores (t : FileTree) (root : String) (name : Name) (file : DatasetFile)
    (rows : List Record) : Prop where
  read : ∃ bytes, t.readIn root name = .ok bytes ∧ file.IsIn bytes
  named : Gives name file.id
  valid : Dataset.isValidId file.id = true
  nonempty : file.rows ≠ []
  typed : file.rows.mapM (Record.ofJson file.kind) = .ok rows

/-- The entry of a name in a directory is not the file of a dataset, for the first of these reasons
that there is. -/
inductive Offends (t : FileTree) (root : String) (name : Name) : RegistryError → Prop
  | unreadable {fault : DiskFault} : t.readIn root name = .error fault →
      Offends t root name (.disk (name.within root) fault)
  | undecodable {bytes : List UInt8} {e : ReadError} : t.readIn root name = .ok bytes →
      (Dataset.form bytes.length).read {} bytes = .error e →
      Offends t root name (.corrupt (name.within root) (.unreadable e))
  | otherId {bytes : List UInt8} {file : DatasetFile} : t.readIn root name = .ok bytes →
      file.IsIn bytes → ¬ Gives name file.id →
      Offends t root name (.corrupt (name.within root) (.otherId file.id))
  | invalidId {bytes : List UInt8} {file : DatasetFile} : t.readIn root name = .ok bytes →
      file.IsIn bytes → Gives name file.id → Dataset.isValidId file.id = false →
      Offends t root name (.invalidId file.id)
  | noRows {bytes : List UInt8} {file : DatasetFile} : t.readIn root name = .ok bytes →
      file.IsIn bytes → Gives name file.id → Dataset.isValidId file.id = true →
      file.rows = [] → Offends t root name (.noRows file.id)
  | invalidRow {bytes : List UInt8} {file : DatasetFile} {index : Nat} {v : Json}
      {reason : Mismatch} : t.readIn root name = .ok bytes →
      file.IsIn bytes → Gives name file.id → Dataset.isValidId file.id = true →
      file.rows[index]? = some v → Record.ofJson file.kind v = .error reason →
      (∀ i < index, ∃ v' r, file.rows[i]? = some v' ∧ Record.ofJson file.kind v' = .ok r) →
      Offends t root name (.invalidRow file.id index reason)

variable {t : FileTree} {root : String} {name : Name} {now : Instant}

/-- What is checked of a file that says what a dataset needs, in that order. -/
theorem ofFile_eq {path stem : String} {bytes : List UInt8} {file : DatasetFile}
    (h : file.IsIn bytes) :
    Dataset.ofFile path stem bytes now =
      if file.id ≠ stem then .error (.corrupt path (.otherId file.id))
      else if Dataset.isValidId file.id = false then .error (.invalidId file.id)
      else if file.rows = [] then .error (.noRows file.id)
      else (Dataset.readRows file.id file.kind 0 file.rows).map fun rows =>
        file.dataset rows now := by
  unfold Dataset.ofFile Dataset.ofRows Dataset.checkId
  rw [h]
  obtain ⟨id, kind, loadedAt?, rows⟩ := file
  by_cases hid : id = stem
  · subst hid
    cases hvalid : Dataset.isValidId id
    · simp [DatasetFile.draft, hvalid, bind, Except.bind]
    · cases rows with
      | nil => simp [DatasetFile.draft, hvalid, bind, Except.bind, throw, throwThe,
          MonadExceptOf.throw]
      | cons v vs =>
        cases hread : Dataset.readRows id kind 0 (v :: vs) <;>
          simp [DatasetFile.draft, DatasetFile.dataset, hvalid, hread, bind, Except.bind, pure,
            Except.pure, Except.map]
  · simp [DatasetFile.draft, hid, bind, Except.bind, throw, throwThe, MonadExceptOf.throw]

/-- What is checked of an entry whose bytes say what a dataset needs, in that order. -/
theorem datasetIn_eq {bytes : List UInt8} {file : DatasetFile}
    (hbytes : t.readIn root name = .ok bytes) (hin : file.IsIn bytes) :
    (⟨root⟩ : Archive).datasetIn now t name =
      if file.id ≠ stem name then .error (.corrupt (name.within root) (.otherId file.id))
      else if Dataset.isValidId file.id = false then .error (.invalidId file.id)
      else if file.rows = [] then .error (.noRows file.id)
      else (Dataset.readRows file.id file.kind 0 file.rows).map fun rows =>
        file.dataset rows now := by
  rw [datasetIn, hbytes]
  exact ofFile_eq hin

/-- A dataset is read from an entry with the name of the file of one just if the entry is the file
of that dataset. -/
theorem datasetIn_eq_ok_iff_stores (hname : IsDatasetName name) {d : Dataset} :
    (⟨root⟩ : Archive).datasetIn now t name = .ok d ↔
      ∃ file rows, Stores t root name file rows ∧ file.dataset rows now = d := by
  constructor
  · intro h
    obtain ⟨bytes, hbytes, hfile⟩ := datasetIn_eq_ok_iff.mp h
    obtain ⟨draft, hdraft, -, -⟩ := Dataset.ofFile_eq_ok_iff.mp hfile
    obtain ⟨file, -, hin⟩ := Dataset.exists_file_of_read hdraft
    rw [datasetIn_eq hbytes hin] at h
    split_ifs at h with hid hvalid hrows
    cases hread : Dataset.readRows file.id file.kind 0 file.rows with
    | error => simp [hread, Except.map] at h
    | ok rows =>
      rw [hread] at h
      exact ⟨file, rows, ⟨⟨bytes, hbytes, hin⟩, (gives_iff hname).mpr (not_not.mp hid),
        by simpa using hvalid, hrows, Dataset.readRows_eq_ok_iff.mp hread⟩, Except.ok.inj h⟩
  · rintro ⟨file, rows, ⟨⟨bytes, hbytes, hin⟩, hgives, hvalid, hrows, htyped⟩, rfl⟩
    have hid := (gives_iff hname).mp hgives
    rw [datasetIn_eq hbytes hin, if_neg (not_not.mpr hid), if_neg (by simp [hvalid]), if_neg hrows,
      Dataset.readRows_eq_ok_iff.mpr htyped]
    rfl

theorem exists_datasetIn_iff (hname : IsDatasetName name) :
    (∃ d, (⟨root⟩ : Archive).datasetIn now t name = .ok d) ↔
      ∃ file rows, Stores t root name file rows := by
  simp only [datasetIn_eq_ok_iff_stores hname]
  constructor
  · rintro ⟨d, file, rows, hstores, -⟩
    exact ⟨file, rows, hstores⟩
  · rintro ⟨file, rows, hstores⟩
    exact ⟨_, file, rows, hstores, rfl⟩

theorem offends_of_datasetIn (hname : IsDatasetName name) {fault : RegistryError}
    (h : (⟨root⟩ : Archive).datasetIn now t name = .error fault) : Offends t root name fault := by
  cases hbytes : t.readIn root name with
  | error cause =>
    rw [datasetIn, hbytes] at h
    obtain rfl := Except.error.inj h
    exact .unreadable hbytes
  | ok bytes =>
    cases hread : (Dataset.form bytes.length).read {} bytes with
    | error e =>
      simp only [datasetIn, hbytes, Dataset.ofFile, hread] at h
      obtain rfl := Except.error.inj h
      exact .undecodable hbytes hread
    | ok draft =>
      obtain ⟨file, -, hin⟩ := Dataset.exists_file_of_read hread
      rw [datasetIn_eq hbytes hin] at h
      by_cases hgives : Gives name file.id
      · rw [if_neg (not_not.mpr ((gives_iff hname).mp hgives))] at h
        split_ifs at h with hvalid hrows
        · obtain rfl := Except.error.inj h
          exact .invalidId hbytes hin hgives hvalid
        · obtain rfl := Except.error.inj h
          exact .noRows hbytes hin hgives (by simpa using hvalid) hrows
        · cases hrs : Dataset.readRows file.id file.kind 0 file.rows with
          | ok rows => simp [hrs, Except.map] at h
          | error cause =>
            rw [hrs] at h
            obtain rfl := Except.error.inj h
            obtain ⟨index, v, reason, rfl, hindex, hbad, hgood⟩ :=
              Dataset.readRows_eq_error_iff.mp hrs
            rw [Nat.zero_add]
            exact .invalidRow hbytes hin hgives (by simpa using hvalid) hindex hbad hgood
      · rw [if_pos (mt (gives_iff hname).mpr hgives)] at h
        obtain rfl := Except.error.inj h
        exact .otherId hbytes hin hgives

theorem Offends.datasetIn_eq_error (hname : IsDatasetName name) {fault : RegistryError}
    (h : Offends t root name fault) :
    (⟨root⟩ : Archive).datasetIn now t name = .error fault := by
  have hid {id : String} (hgives : Gives name id) : ¬ id ≠ stem name :=
    not_not.mpr ((gives_iff hname).mp hgives)
  cases h with
  | unreadable hbytes => rw [datasetIn, hbytes]
  | undecodable hbytes hread =>
    simp only [datasetIn, hbytes, Dataset.ofFile, hread]
    rfl
  | otherId hbytes hin hother =>
    rw [datasetIn_eq hbytes hin, if_pos (mt (gives_iff hname).mpr hother)]
  | invalidId hbytes hin hgives hvalid =>
    rw [datasetIn_eq hbytes hin, if_neg (hid hgives), if_pos hvalid]
  | noRows hbytes hin hgives hvalid hrows =>
    rw [datasetIn_eq hbytes hin, if_neg (hid hgives), if_neg (by simp [hvalid]), if_pos hrows]
  | @invalidRow bytes file index v reason hbytes hin hgives hvalid hindex hbad hgood =>
    have hrows : file.rows ≠ [] := by
      intro heq
      simp [heq] at hindex
    have hread : Dataset.readRows file.id file.kind 0 file.rows =
        .error (.invalidRow file.id index reason) :=
      Dataset.readRows_eq_error_iff.mpr
        ⟨index, v, reason, by rw [Nat.zero_add], hindex, hbad, hgood⟩
    rw [datasetIn_eq hbytes hin, if_neg (hid hgives), if_neg (by simp [hvalid]), if_neg hrows,
      hread]
    rfl

/-- It is not read for the first reason for which the entry is not the file of a dataset. -/
theorem datasetIn_eq_error_iff_offends (hname : IsDatasetName name) {fault : RegistryError} :
    (⟨root⟩ : Archive).datasetIn now t name = .error fault ↔ Offends t root name fault :=
  ⟨offends_of_datasetIn hname, fun h => h.datasetIn_eq_error hname⟩

/-! ## Many files -/

theorem exists_mapM_eq_ok_iff {α β ε : Type} {f : α → Except ε β} {as : List α} :
    (∃ bs, as.mapM f = .ok bs) ↔ ∀ a ∈ as, ∃ b, f a = .ok b := by
  simp only [mapM_eq_ok_iff]
  induction as with
  | nil => simp
  | cons a as ih =>
    rw [List.forall_mem_cons, ← ih]
    constructor
    · rintro ⟨_, _ | ⟨hb, hbs⟩⟩
      exact ⟨⟨_, hb⟩, _, hbs⟩
    · rintro ⟨⟨b, hb⟩, bs, hbs⟩
      exact ⟨b :: bs, .cons hb hbs⟩

/-- Of many the first that fails counts. -/
theorem mapM_eq_error_iff {α β ε : Type} {f : α → Except ε β} {as : List α} {fault : ε} :
    as.mapM f = .error fault ↔ ∃ before a after, as = before ++ a :: after ∧
      f a = .error fault ∧ ∀ x ∈ before, ∃ b, f x = .ok b := by
  induction as with
  | nil => simp [pure, Except.pure]
  | cons a as ih =>
    rw [List.mapM_cons]
    cases ha : f a with
    | error cause =>
      constructor
      · intro h
        obtain rfl := Except.error.inj h
        exact ⟨[], a, as, rfl, ha, nofun⟩
      · rintro ⟨_ | ⟨x, before⟩, a', after, heq, hbad, hgood⟩
        · obtain ⟨rfl, -⟩ := List.cons.inj heq
          exact congrArg Except.error (Except.error.inj (ha.symm.trans hbad))
        · obtain ⟨rfl, -⟩ := List.cons.inj heq
          obtain ⟨b, hb⟩ := hgood a List.mem_cons_self
          exact absurd (ha.symm.trans hb) (by simp)
    | ok b =>
      have hrest : (do return b :: (← as.mapM f) : Except ε (List β)) = .error fault ↔
          as.mapM f = .error fault := by
        cases as.mapM f <;> simp [bind, Except.bind, pure, Except.pure]
      refine hrest.trans (ih.trans ⟨?_, ?_⟩)
      · rintro ⟨before, a', after, rfl, hbad, hgood⟩
        exact ⟨a :: before, a', after, rfl, hbad, List.forall_mem_cons.mpr ⟨⟨b, ha⟩, hgood⟩⟩
      · rintro ⟨_ | ⟨x, before⟩, a', after, heq, hbad, hgood⟩
        · obtain ⟨rfl, -⟩ := List.cons.inj heq
          exact absurd (ha.symm.trans hbad) (by simp)
        · obtain ⟨rfl, rfl⟩ := List.cons.inj heq
          exact ⟨before, a', after, rfl, hbad, (List.forall_mem_cons.mp hgood).2⟩

/-- The names of files are read in the order of their bytes. -/
theorem sorted_datasetNames {names : List Name} (h : (datasetNames names).Nodup) :
    (datasetNames names).Pairwise fun x y => x.bytes < y.bytes := by
  have hle : (datasetNames names).Pairwise fun x y => decide (x.bytes ≤ y.bytes) = true :=
    List.pairwise_mergeSort
      (fun x y z hxy hyz => by
        simp only [decide_eq_true_eq] at hxy hyz ⊢
        exact List.le_trans hxy hyz)
      (fun x y => by simpa using List.le_total x.bytes y.bytes) _
  refine (hle.and h).imp fun hxy => ?_
  rcases List.le_iff_lt_or_eq.mp (of_decide_eq_true hxy.1) with hlt | heq
  · exact hlt
  · exact absurd (Name.bytes_inj heq) hxy.2

theorem mem_datasetNames_iff {names : List Name} {name : Name} :
    name ∈ datasetNames names ↔ name ∈ names ∧ IsDatasetName name :=
  mem_datasetNames.trans (and_congr_right' isFileName_iff)

end Archive

namespace Engine

/-! ## Opening -/

/-- What comes of opening, from the files in the directory. -/
theorem result_of_open {root : String} {limit : Nat} {machine made : Machine} {names : List Name}
    (hmake : machine.on (Disk.makeDirectories root) = (.ok (), made))
    (hlist : made.files.list root = .ok names) :
    (machine.on (open_ (some root) limit)).1 =
      ((datasetNames names).mapM ((⟨root⟩ : Archive).datasetIn machine.now made.files)).bind
        fun ds => (registerAll .empty ds).map fun r => ⟨r, some ⟨root⟩, limit⟩ := by
  obtain ⟨begun, machine₁, hworld, hon, -⟩ := on_open root limit machine
  obtain ⟨machine₂, hopen, -⟩ := on_openArchive root limit begun
  have hnow := Disk.now_makeDirectories root machine
  obtain ⟨hresult, hmade⟩ : (machine.on (Disk.makeDirectories root)).1 =
      (begun.on (Disk.makeDirectories root)).1 ∧
        Machine.SameWorld (machine.on (Disk.makeDirectories root)).2
          (begun.on (Disk.makeDirectories root)).2 :=
    Machine.Blind.makeLineage (Path.lineage root) machine begun hworld
  rw [hmake] at hnow hresult hmade
  rw [hon, hopen]
  generalize begun.on (Disk.makeDirectories root) = outcome at hresult hmade ⊢
  obtain ⟨result, made'⟩ := outcome
  obtain rfl : .ok () = result := hresult
  dsimp only at hmade ⊢
  rw [Archive.on_load, ← hmade.files, ← hmade.now, hnow, hlist]
  dsimp only
  cases (datasetNames names).mapM ((⟨root⟩ : Archive).datasetIn machine.now made.files) <;> rfl

section Verdict

variable {root : String} {t : FileTree} {now : Instant} {names : List Name}

/-- All files are read just if every one of them is the file of a dataset. -/
theorem exists_datasets_iff :
    (∃ ds, (datasetNames names).mapM ((⟨root⟩ : Archive).datasetIn now t) = .ok ds) ↔
      ∀ name ∈ names, IsDatasetName name → ∃ file rows, Stores t root name file rows := by
  rw [exists_mapM_eq_ok_iff]
  constructor
  · intro h name hname hfile
    exact (exists_datasetIn_iff hfile).mp (h name (mem_datasetNames_iff.mpr ⟨hname, hfile⟩))
  · intro h name hname
    obtain ⟨hname, hfile⟩ := mem_datasetNames_iff.mp hname
    exact (exists_datasetIn_iff hfile).mpr (h name hname hfile)

/-- The names that are read before another are those whose bytes are less. -/
theorem mem_before_iff (hnodup : (datasetNames names).Nodup) {before after : List Name}
    {name other : Name} (heq : datasetNames names = before ++ name :: after) :
    other ∈ before ↔ other ∈ datasetNames names ∧ other.bytes < name.bytes := by
  have hsorted := sorted_datasetNames hnodup
  rw [heq] at hsorted ⊢
  obtain ⟨-, hafter, hbefore⟩ := List.pairwise_append.mp hsorted
  constructor
  · intro hother
    exact ⟨List.mem_append_left _ hother, hbefore other hother name List.mem_cons_self⟩
  · rintro ⟨hin, hlt⟩
    rcases List.mem_append.mp hin with hin | hin
    · exact hin
    · rcases List.mem_cons.mp hin with rfl | hin
      · exact absurd hlt (List.lt_irrefl _)
      · have hgt := (List.pairwise_cons.mp hafter).1 other hin
        exact absurd (List.lt_trans hlt hgt) (List.lt_irrefl _)

/-- The fault is that of the first file in the order of their names that is not one of a dataset. -/
theorem mapM_eq_error_iff_offends (hnodup : (datasetNames names).Nodup) {fault : RegistryError} :
    (datasetNames names).mapM ((⟨root⟩ : Archive).datasetIn now t) = .error fault ↔
      ∃ name ∈ names, IsDatasetName name ∧ Offends t root name fault ∧
        ∀ other ∈ names, IsDatasetName other → other.bytes < name.bytes →
          ∃ file rows, Stores t root other file rows := by
  rw [mapM_eq_error_iff]
  constructor
  · rintro ⟨before, name, after, heq, hbad, hgood⟩
    have hmem : name ∈ datasetNames names := by simp [heq]
    obtain ⟨hname, hfile⟩ := mem_datasetNames_iff.mp hmem
    refine ⟨name, hname, hfile, (datasetIn_eq_error_iff_offends hfile).mp hbad, ?_⟩
    intro other hother hotherFile hlt
    have hin := mem_datasetNames_iff.mpr ⟨hother, hotherFile⟩
    exact (exists_datasetIn_iff hotherFile).mp
      (hgood other ((mem_before_iff hnodup heq).mpr ⟨hin, hlt⟩))
  · rintro ⟨name, hname, hfile, hoffends, hgood⟩
    obtain ⟨before, after, heq⟩ := List.append_of_mem (mem_datasetNames_iff.mpr ⟨hname, hfile⟩)
    refine ⟨before, name, after, heq, (datasetIn_eq_error_iff_offends hfile).mpr hoffends, ?_⟩
    intro other hother
    obtain ⟨hin, hlt⟩ := (mem_before_iff hnodup heq).mp hother
    obtain ⟨hmem, hotherFile⟩ := mem_datasetNames_iff.mp hin
    exact (exists_datasetIn_iff hotherFile).mpr (hgood other hmem hotherFile hlt)

/-- The registry of the datasets that have been read has each of them under its id. -/
theorem get?_of_mapM {ds : List Dataset} {r : Registry}
    (hds : (datasetNames names).mapM ((⟨root⟩ : Archive).datasetIn now t) = .ok ds)
    (hr : registerAll .empty ds = .ok r) :
    (∀ id d, r.get? id = some d ↔ ∃ name ∈ names, IsDatasetName name ∧
      ∃ file rows, Stores t root name file rows ∧ file.id = id ∧ file.dataset rows now = d) ∧
      (r.ids.map fun id => .text (id ++ ".json")).Perm
        (names.filter fun name => IsDatasetName name) := by
  obtain ⟨hsorted, hperm, -⟩ := registerAll_eq_ok_perm Registry.sorted_empty hr
  have hmem (d : Dataset) : d ∈ r.datasets ↔ ∃ name ∈ datasetNames names,
      (⟨root⟩ : Archive).datasetIn now t name = .ok d := by
    rw [hperm.mem_iff, ← mem_iff_of_mapM hds, Registry.empty, List.nil_append]
  constructor
  · intro id d
    rw [hsorted.get?_eq_some_iff, hmem]
    constructor
    · rintro ⟨⟨name, hname, hd⟩, rfl⟩
      obtain ⟨hname, hfile⟩ := mem_datasetNames_iff.mp hname
      obtain ⟨file, rows, hstores, rfl⟩ := (datasetIn_eq_ok_iff_stores hfile).mp hd
      exact ⟨name, hname, hfile, file, rows, hstores, rfl, rfl⟩
    · rintro ⟨name, hname, hfile, file, rows, hstores, rfl, rfl⟩
      exact ⟨⟨name, mem_datasetNames_iff.mpr ⟨hname, hfile⟩,
        (datasetIn_eq_ok_iff_stores hfile).mpr ⟨file, rows, hstores, rfl⟩⟩, rfl⟩
  · have hmap := names_eq_of_mapM (fun name hname => (mem_datasetNames.mp hname).2) hds
    have hnames : (r.ids.map fun id => .text (id ++ ".json")).Perm (datasetNames names) := by
      simp only [hmap, Registry.ids, List.map_map, fileName_eq]
      exact hperm.map _
    have hfilter : names.filter isFileName = names.filter fun name => IsDatasetName name :=
      List.filter_congr fun name _ => by rw [Bool.eq_iff_iff, isFileName_iff, decide_eq_true_iff]
    rw [← hfilter]
    exact hnames.trans (List.mergeSort_perm _ _)

end Verdict

/-- What comes of opening an engine on a directory that is there or can be made, and can be listed,
whatever files there are. It is opened just if each entry with the name of the file of a dataset is
one; then its datasets are those of these files, one of each, all of which could be registered; and
else the fault is that of the first of them, in the order of their bytes, that is none. -/
theorem open_verdict {root : String} {limit : Nat} {machine made : Machine} {names : List Name}
    (hdistinct : machine.files.IsDistinct)
    (hmake : machine.on (Disk.makeDirectories root) = (.ok (), made))
    (hlist : made.files.list root = .ok names) :
    ((∃ e, (machine.on (open_ (some root) limit)).1 = .ok e) ↔
      ∀ name ∈ names, IsDatasetName name →
        ∃ file rows, Stores made.files root name file rows) ∧
    (∀ e, (machine.on (open_ (some root) limit)).1 = .ok e →
      e.archive = some ⟨root⟩ ∧ e.limit = limit ∧
        (∀ id d, e.registry.get? id = some d ↔ ∃ name ∈ names, IsDatasetName name ∧
          ∃ file rows, Stores made.files root name file rows ∧ file.id = id ∧
            file.dataset rows machine.now = d) ∧
        (e.registry.ids.map fun id => .text (id ++ ".json")).Perm
          (names.filter fun name => IsDatasetName name)) ∧
    (∀ fault, (machine.on (open_ (some root) limit)).1 = .error fault ↔
      ∃ name ∈ names, IsDatasetName name ∧ Offends made.files root name fault ∧
        ∀ other ∈ names, IsDatasetName other → other.bytes < name.bytes →
          ∃ file rows, Stores made.files root other file rows) ∧
    ∀ ds, (made.on ((⟨root⟩ : Archive).load machine.now)).1 = .ok ds →
      ∃ r, registerAll .empty ds = .ok r := by
  have hnodup : (datasetNames names).Nodup := by
    obtain ⟨directory, -, -, rfl⟩ := FileTree.list_eq_ok_iff.mp hlist
    exact nodup_datasetNames (Disk.isDistinct_makeDirectories hdistinct hmake) directory
  have hregister {ds : List Dataset}
      (hds : (datasetNames names).mapM ((⟨root⟩ : Archive).datasetIn machine.now made.files) =
        .ok ds) : ∃ r, registerAll .empty ds = .ok r :=
    exists_registerAll_of_mapM (fun name hname => (mem_datasetNames.mp hname).2) hnodup hds
  have hload : (made.on ((⟨root⟩ : Archive).load machine.now)).1 =
      (datasetNames names).mapM ((⟨root⟩ : Archive).datasetIn machine.now made.files) := by
    rw [Archive.on_load, hlist]
  have hgood := @exists_datasets_iff root made.files machine.now names
  have hbad := @mapM_eq_error_iff_offends root made.files machine.now names hnodup
  refine ⟨?_, ?_, ?_, fun ds hds => hregister (hload ▸ hds)⟩ <;>
    rw [result_of_open hmake hlist]
  · rw [← hgood]
    constructor
    · rintro ⟨e, he⟩
      cases hds : (datasetNames names).mapM
        ((⟨root⟩ : Archive).datasetIn machine.now made.files) with
      | error => simp [hds, Except.bind] at he
      | ok ds => exact ⟨ds, rfl⟩
    · rintro ⟨ds, hds⟩
      obtain ⟨r, hr⟩ := hregister hds
      exact ⟨_, by rw [hds, Except.bind, hr]; rfl⟩
  · intro e he
    cases hds : (datasetNames names).mapM
        ((⟨root⟩ : Archive).datasetIn machine.now made.files) with
    | error => simp [hds, Except.bind] at he
    | ok ds =>
      obtain ⟨r, hr⟩ := hregister hds
      rw [hds, Except.bind, hr] at he
      obtain rfl := Except.ok.inj he
      exact ⟨rfl, rfl, get?_of_mapM hds hr⟩
  · intro fault
    rw [← hbad]
    cases hds : (datasetNames names).mapM
        ((⟨root⟩ : Archive).datasetIn machine.now made.files) with
    | error cause => simp [Except.bind]
    | ok ds =>
      obtain ⟨r, hr⟩ := hregister hds
      simp [Except.bind, hr, Except.map]

/-- Of a draft, a directory with the name of a file, a file that says nothing and one with a name
that is not a text the directory is why the engine is not opened. -/
theorem open_verdict_directory :
    let stray : RawName := ⟨[0xff, 0x2e, 0x6a, 0x73, 0x6f, 0x6e], by decide +kernel⟩
    let machine : Machine := { files := {
      here := ["home"]
      nodes := [(["home", "data"], .directory), (["home", "data", "c.json"], .file []),
        (["home", "data", "b.json"], .directory), (["home", "data", "a.json.tmp"], .file [])]
      strays := [((["home", "data"], stray), .file [])] } }
    let names : List Name := [.text "c.json", .text "b.json", .text "a.json.tmp", .raw stray]
    machine.files.IsDistinct ∧ machine.on (Disk.makeDirectories "data") = (.ok (), machine) ∧
      machine.files.list "data" = .ok names ∧
      (machine.on (open_ (some "data") 5)).1 = .error (.disk "data/b.json" .isDirectory) := by
  intro stray machine names
  have hdistinct : machine.files.IsDistinct := ⟨by decide, by decide⟩
  have hmake : machine.on (Disk.makeDirectories "data") = (.ok (), machine) :=
    @Disk.on_makeDirectories machine "data" ["home", "data"] (by decide +kernel)
      (by decide +kernel)
  have hlist : machine.files.list "data" = .ok names := by decide +kernel
  refine ⟨hdistinct, hmake, hlist, ?_⟩
  have hread : machine.files.readIn "data" (.text "b.json") = .error .isDirectory := by
    decide +kernel
  have hpath : (Name.text "b.json").within "data" = "data/b.json" := by decide +kernel
  obtain ⟨-, -, hfault, -⟩ := @open_verdict "data" 5 machine machine _ hdistinct hmake hlist
  have hfirst : ∀ other ∈ names, IsDatasetName other →
      ¬ other.bytes < (Name.text "b.json").bytes := by decide +kernel
  refine (hfault _).mpr ⟨.text "b.json", by simp [names], by decide +kernel,
    hpath ▸ .unreadable hread, ?_⟩
  exact fun other hother hfile hlt => absurd hlt (hfirst other hother hfile)

end Engine

end CampusQuery
