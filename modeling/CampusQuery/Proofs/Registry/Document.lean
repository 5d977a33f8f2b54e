import Mathlib
import CampusQuery.Proofs.Json.Form
import CampusQuery.Proofs.Registry.Dataset

/-!
# Documents of datasets

What the file of a dataset holds is read as the dataset, but for its numbers: each is read of its
text, and that is not always the number of which it is the text.

* `Record.isStorable_toJson` — rows are storable.
* `Dataset.reread` — the dataset that is read of the file of a dataset.
* `Dataset.read_document` — the form of a file has the values of that dataset.
* `Dataset.ofFile_document` — the file of a registrable dataset is read so, wherever it is and
  whenever it is read.
* `Dataset.loads_of_ofFile` — a file that is read as a dataset once is read as it at any time, but
  for a time of registration that it does not have.
-/

namespace CampusQuery

open Json

theorem Value.isStorable_stored (x : Value) (depth : Nat) : x.stored.IsStorable depth := by
  cases x <;> cases depth <;> trivial

theorem Record.isStorable_toJson (r : Record) (depth : Nat) : r.toJson.IsStorable (depth + 1) := by
  refine ⟨r.nodup_keys_storedEntries, fun v hv => ?_⟩
  obtain ⟨entry, hentry, rfl⟩ := List.mem_map.mp hv
  obtain ⟨pair, -, rfl⟩ := List.mem_map.mp hentry
  exact pair.2.isStorable_stored depth

/-! ## What is read of numbers -/

/-- The value that is read where a value was written. -/
def Value.reread : Value → Value
  | .number x => .number x.reread
  | .text s => .text s

theorem Value.type_reread (x : Value) : x.reread.type = x.type := by
  cases x <;> rfl

theorem Value.reread_stored (x : Value) : x.stored.reread = x.reread.stored := by
  cases x <;> rfl

/-- The row that is read where a row was written. -/
def Record.reread (r : Record) : Record :=
  ⟨r.kind, r.values.map Value.reread, by
    rw [List.map_map, ← r.typed]
    exact List.map_congr_left fun x _ => x.type_reread⟩

theorem Record.reread_toJson (r : Record) : r.toJson.reread = r.reread.toJson := by
  rw [Record.toJson, Record.toJson, Json.reread, rereadEntries_eq_map, List.map_map,
    Record.entries, Record.entries, Record.reread, List.zip_map_right, List.map_map]
  exact congrArg Json.object (List.map_congr_left fun x _ => by
    simp [Value.reread_stored])

namespace Dataset

/-- The dataset that is read where a dataset was written. -/
def reread (d : Dataset) : Dataset :=
  { d with rows := d.rows.map Record.reread }

theorem reread_eq_self {d : Dataset} (h : ∀ r ∈ d.rows, r.reread = r) : d.reread = d := by
  have hrows : d.rows.map Record.reread = d.rows.map fun r => r := Array.map_congr_left h
  rw [reread, hrows, Array.map_id']

/-- Bytes that are read as a dataset, wherever its file is and whenever it is read. -/
def ReadsBack (bytes : List UInt8) (d : Dataset) : Prop :=
  ∀ path now, ofFile path d.id bytes now = .ok d

/-- What the form of a file has of a dataset. -/
def draft (d : Dataset) : Draft :=
  ⟨some d.id, some d.kind, some d.loadedAt, some (d.rows.toList.map Record.toJson)⟩

theorem document_eq (d : Dataset) : d.document = compactBytes d.toJson :=
  rfl

variable {d : Dataset}

/-- The bytes of a document after its brace. -/
def documentBody (d : Dataset) : List UInt8 :=
  bytesOf (Quoted.document "id") ++ ':'.toUInt8 :: (bytesOf (Quoted.document d.id) ++
    ','.toUInt8 :: (bytesOf (Quoted.document "kind") ++ ':'.toUInt8 ::
      (bytesOf (Quoted.document d.kind.label) ++
    ','.toUInt8 :: (bytesOf (Quoted.document "loaded_at") ++ ':'.toUInt8 ::
      (bytesOf (Quoted.document d.loadedAt.text) ++
    ','.toUInt8 :: (bytesOf (Quoted.document "rows") ++ ':'.toUInt8 ::
      (compactBytes (.array (d.rows.toList.map Record.toJson)) ++ ['\x7d'.toUInt8])))))))

theorem document_eq_cons (d : Dataset) : d.document = '\x7b'.toUInt8 :: d.documentBody := by
  have hstring : ∀ s, compactBytes (.string s) = bytesOf (Quoted.document s) := fun s => by
    simp [compactBytes, compact, appendTo]
  rw [document_eq, toJson, bytesOf_object]
  simp [separated, following, entryBytes, hstring, documentBody]

theorem readNamed_documentBody (htime : d.loadedAt.isValid = true) {bound : Nat}
    (hbound : d.documentBody.length ≤ bound) (steps : Nat) :
    (form bound).readNamed bound 126 (steps + 5) true {} d.documentBody =
      .ok (.ok d.reread.draft, ['\x7d'.toUInt8]) := by
  have hrows : ∀ item ∈ d.rows.toList.map Record.toJson, item.IsStorable 125 := by
    intro item hitem
    obtain ⟨r, -, rfl⟩ := List.mem_map.mp hitem
    exact r.isStorable_toJson 124
  have hreread : (d.rows.toList.map Record.toJson).map Json.reread =
      d.reread.rows.toList.map Record.toJson := by
    simp [reread, Function.comp_def, Record.reread_toJson]
  have hlength : (compactBytes (.array (d.rows.toList.map Record.toJson))).length ≤ bound := by
    refine Nat.le_trans ?_ hbound
    simp only [documentBody, List.length_append, List.length_cons]
    omega
  have hkind : (Kind.all.map fun kind => (kind.label, kind)).lookup d.kind.label = some d.kind := by
    cases d.kind <;> decide
  have hid (rest : Bytes) := Form.read_put (readText_document d.id rest)
    fun id => (⟨some id, none, none, none⟩ : Draft)
  have hkind (rest : Bytes) := Form.read_put (readVariant_document hkind 126 rest)
    fun kind => (⟨some d.id, some kind, none, none⟩ : Draft)
  have htime (rest : Bytes) := Form.read_put (readTime_document htime rest)
    fun t => (⟨some d.id, some d.kind, some t, none⟩ : Draft)
  have hrows (rest : Bytes) := Form.read_put (readList_compact hrows hlength rest)
    fun rows => (⟨some d.id, some d.kind, some d.loadedAt, some rows⟩ : Draft)
  unfold documentBody
  rw [Form.readNamed_entry (nextKey_first "id" _) rfl rfl (hid _),
    Form.readNamed_entry (nextKey_comma "kind" _) rfl rfl (hkind _),
    Form.readNamed_entry (nextKey_comma "loaded_at" _) rfl rfl (htime _),
    Form.readNamed_entry (nextKey_comma "rows" _) rfl rfl (hrows _),
    Form.readNamed_close rfl, hreread]
  rfl

/-- The form of a file has the values of the dataset that is read. -/
theorem read_document (htime : d.loadedAt.isValid = true) :
    (form d.document.length).read {} d.document = .ok d.reread.draft := by
  have hfive : ∃ steps, d.documentBody.length + 1 = steps + 5 := by
    refine ⟨d.documentBody.length - 4, ?_⟩
    simp only [documentBody, List.length_append, List.length_cons]
    omega
  obtain ⟨steps, hsteps⟩ := hfive
  rw [document_eq_cons]
  apply Form.read_of_readNamed
  rw [List.length_cons]
  have hread := readNamed_documentBody htime (Nat.le_succ d.documentBody.length) steps
  rwa [← hsteps] at hread

theorem readRows_toJson (id : String) {kind : Kind} (index : Nat) {rows : List Record}
    (h : ∀ r ∈ rows, r.kind = kind) :
    readRows id kind index (rows.map Record.toJson) = .ok rows := by
  induction rows generalizing index with
  | nil => rfl
  | cons r rows ih =>
    obtain ⟨rfl, hrows⟩ := List.forall_mem_cons.mp h
    exact readRows_cons_eq_ok_iff.mpr ⟨r, rows, r.ofJson_toJson, ih (index + 1) hrows, rfl⟩

/-- The file of a registrable dataset is read as the dataset, each number as it is read of its
text. -/
theorem ofFile_document (h : d.IsRegistrable) (hrows : ∀ r ∈ d.rows, r.kind = d.kind)
    (htime : d.loadedAt.isValid = true) : ReadsBack d.document d.reread := by
  intro path now
  have hkind : ∀ r ∈ d.reread.rows.toList, r.kind = d.kind := by
    intro r hr
    obtain ⟨written, hwritten, rfl⟩ : ∃ r' ∈ d.rows, r'.reread = r := by simpa [reread] using hr
    exact hrows written hwritten
  have hread : readRows d.id d.kind 0 (d.reread.rows.toList.map Record.toJson) =
      .ok d.reread.rows.toList := readRows_toJson d.id 0 hkind
  have hne : d.reread.rows.toList.map Record.toJson ≠ [] := by
    have := h.nonempty
    simpa [reread] using this
  have hrebuilt : ofRows d.id d.kind (d.reread.rows.toList.map Record.toJson) d.loadedAt =
      .ok d.reread :=
    ofRows_eq_ok_iff.mpr ⟨h.valid, hne, _, hread, by rw [Array.toArray_toList]; rfl⟩
  exact ofFile_eq_ok_iff.mpr ⟨d.reread.draft, read_document htime, rfl, hrebuilt⟩

/-! ## Reading at other times -/

/-- A dataset with the rows of another, or with those that are read where these were written. -/
structure IsReadAs (d d' : Dataset) : Prop where
  id : d'.id = d.id
  kind : d'.kind = d.kind
  rows : d'.rows = d.rows ∨ d'.rows = d.reread.rows

theorem IsReadAs.refl (d : Dataset) : d.IsReadAs d :=
  ⟨rfl, rfl, .inl rfl⟩

theorem IsReadAs.isRegistrable {d' : Dataset} (h : d.IsReadAs d') (hd : d.IsRegistrable) :
    d'.IsRegistrable := by
  refine ⟨h.id ▸ hd.valid, ?_⟩
  rcases h.rows with hrows | hrows <;> rw [hrows]
  · exact hd.nonempty
  · simpa [reread] using hd.nonempty

/-- Bytes that are read at any time as a dataset, but for its numbers and for when it was
registered. -/
def Loads (bytes : List UInt8) (d : Dataset) : Prop :=
  ∃ d', d.IsReadAs d' ∧ ∀ now, ∃ registered, ∀ path,
    ofFile path d.id bytes now = .ok { d' with loadedAt := registered }

theorem ReadsBack.loads {bytes : List UInt8} (h : ReadsBack bytes d.reread) : Loads bytes d :=
  ⟨d.reread, ⟨rfl, rfl, .inr rfl⟩, fun now => ⟨d.loadedAt, fun path => h path now⟩⟩

/-- What has been read as a dataset once is read as it again. -/
theorem loads_of_ofFile {path : String} {bytes : List UInt8} {now : Instant}
    (h : ofFile path d.id bytes now = .ok d) : Loads bytes d := by
  obtain ⟨draft, hread, hid, hrows⟩ := ofFile_eq_ok_iff.mp h
  obtain ⟨hvalid, hne, rs, hrs, hd⟩ := ofRows_eq_ok_iff.mp hrows
  refine ⟨d, .refl d, fun now' => ?_⟩
  refine ⟨draft.loadedAt.getD now', fun path' => ofFile_eq_ok_iff.mpr ⟨draft, hread, hid, ?_⟩⟩
  exact ofRows_eq_ok_iff.mpr ⟨hvalid, hne, rs, hrs, by rw [← hd]⟩

end Dataset

end CampusQuery
