import Mathlib
import CampusQuery.Proofs.Query.Reading

/-!
# Keys resolved in turn

Keys are resolved one after the other against one target, which goes on after a key that turns out
wrong. What is known of the dataset after some keys depends on three things only: which key is the
first that has an id, what the catalog says of this id, and which key is the first that names a
field under it.

* `Target.after` — what is known after some keys.
* `Target.runAt_resolve_snd` — what one key adds to what is known.
* `Target.after_eq` — what is known after some keys, as a search through these keys.
* `Target.resolves_in_turn` — the id, the kind and the keys that resolve, told from the keys alone.
-/

namespace CampusQuery

/-- A key is an id, an underscore and a name. The id is what stands before the first underscore, and
it is not empty. -/
structure Splits (key id name : String) : Prop where
  written : key = id ++ separator.toString ++ name
  nonempty : id ≠ ""
  unseparated : separator ∉ id.toList

theorem splitKey_eq_some_iff_splits {key id name : String} :
    splitKey key = some (id, name) ↔ Splits key id name := by
  rw [splitKey_eq_some_iff]
  exact ⟨fun ⟨hwritten, hne, hsep⟩ => ⟨hwritten, hne, hsep⟩,
    fun h => ⟨h.written, h.nonempty, h.unseparated⟩⟩

/-- A key is the first of some that has a property. -/
def IsFirst (P : String → Prop) (keys : List String) (key : String) : Prop :=
  ∃ before after, keys = before ++ key :: after ∧ P key ∧ ∀ k ∈ before, ¬ P k

namespace Target

variable {known : String → Option Kind} {keys : List String} {key id name : String}

/-! ## The dataset, told from the keys -/

/-- The first key that has an id has this one. -/
def FirstId (keys : List String) (id : String) : Prop :=
  ∃ key name, IsFirst (fun k => ∃ i n, Splits k i n) keys key ∧ Splits key id name

/-- The first key that names a field of some kind under an id names this field. -/
def FirstField (keys : List String) (id : String) (f : Field) : Prop :=
  ∃ key, IsFirst (fun k => ∃ kind, ∃ g ∈ Kind.fields kind, Splits k id g.label) keys key ∧
    Splits key id f.label

/-- The kind of the dataset that keys are about: the one that the catalog gives the first id, and if
it gives none that of the first field under this id. -/
inductive KindOf (known : String → Option Kind) (keys : List String) : Kind → Prop
  | resident {id : String} {kind : Kind} : FirstId keys id → known id = some kind →
      KindOf known keys kind
  | inferred {id : String} {kind : Kind} {f : Field} : FirstId keys id → known id = none →
      FirstField keys id f → f ∈ kind.fields → KindOf known keys kind

/-! ## One key -/

/-- What is known of the dataset after keys have been resolved in turn, whatever became of each. -/
def after (known : String → Option Kind) (keys : List String) : Target :=
  keys.foldl (fun t key => ((resolve known key).runAt t).2) {}

theorem after_concat (known : String → Option Kind) (keys : List String) (key : String) :
    after known (keys ++ [key]) = ((resolve known key).runAt (after known keys)).2 :=
  List.foldl_concat ..

/-- The id of a key. -/
def idIn? (key : String) : Option String :=
  (splitKey key).map Prod.fst

/-- The field that a key names under an id. -/
def fieldIn? (id key : String) : Option Field :=
  match splitKey key with
  | some (i, name) => if i = id then Field.named? name else none
  | none => none

/-- Looking for a field gives the dataset the kind of the field, unless its kind is known. -/
theorem runAt_field_snd (t : Target) :
    ((field key name).runAt t).2 =
      ⟨t.dataset, t.kind.or ((Field.named? name).map Field.kind)⟩ := by
  rw [field, Check.runAt_bind, Check.runAt_get]
  rcases t with ⟨dataset, _ | kind⟩
  · dsimp only
    cases Field.named? name <;> rfl
  · dsimp only
    cases kind.field? name <;> rfl

/-- What one key adds to what is known of the dataset. -/
theorem runAt_resolve_snd (t : Target) :
    ((resolve known key).runAt t).2 =
      match t.dataset with
      | some id => ⟨some id, t.kind.or ((fieldIn? id key).map Field.kind)⟩
      | none =>
        match idIn? key with
        | some id => ⟨some id, (known id).or ((fieldIn? id key).map Field.kind)⟩
        | none => t := by
  rw [resolve, idIn?]
  cases hsplit : splitKey key with
  | none => rcases t with ⟨_ | b, kind⟩ <;> simp [fieldIn?, hsplit]
  | some split =>
    obtain ⟨id, name⟩ := split
    have hfield (t : Target) : (do return ⟨key, ← field key name⟩ : Check FieldKey).runAt t =
        (((field key name).runAt t).1.map fun f => ⟨key, f⟩, ((field key name).runAt t).2) := by
      rw [Check.runAt_bind]
      rcases (field key name).runAt t with ⟨_ | f, t'⟩ <;> rfl
    dsimp only
    rw [Check.runAt_bind, Check.runAt_bindId]
    rcases t with ⟨_ | b, kind⟩
    · simp only [hfield, runAt_field_snd, fieldIn?, hsplit, Option.map_some, if_true]
    · by_cases hb : b = id
      · subst hb
        simp only [if_true, hfield, runAt_field_snd, fieldIn?, hsplit]
      · have hother : fieldIn? b key = none := by
          simp only [fieldIn?, hsplit, if_neg (Ne.symm hb)]
        simp only [if_neg hb, hother, Option.map_none, Option.or_none]

/-! ## Keys in turn -/

theorem fieldIn?_eq_none (h : idIn? key = none) (id : String) : fieldIn? id key = none := by
  have hsplit : splitKey key = none := Option.map_eq_none_iff.mp h
  simp only [fieldIn?, hsplit]

/-- What is known after some keys: the first id that one of them has, and the kind that the catalog
gives it, or that of the first field that one of them names under it. -/
theorem after_eq (known : String → Option Kind) (keys : List String) :
    after known keys =
      ⟨keys.findSome? idIn?,
        (keys.findSome? idIn?).bind fun id =>
          (known id).or ((keys.findSome? (fieldIn? id)).map Field.kind)⟩ := by
  induction keys using List.reverseRecOn with
  | nil => rfl
  | append_singleton keys key ih =>
    rw [after_concat, ih, runAt_resolve_snd]
    simp only [List.findSome?_append, List.findSome?_singleton]
    cases hid : keys.findSome? idIn? with
    | some id =>
      simp only [Option.some_or, Option.bind_some, Option.map_or, Option.or_assoc]
    | none =>
      have hnone (id : String) : keys.findSome? (fieldIn? id) = none :=
        List.findSome?_eq_none_iff.mpr fun k hk =>
          fieldIn?_eq_none (List.findSome?_eq_none_iff.mp hid k hk) id
      cases idIn? key <;> simp [hnone]

theorem idIn?_eq_some_iff : idIn? key = some id ↔ ∃ name, Splits key id name := by
  simp only [idIn?, Option.map_eq_some_iff, Prod.exists, splitKey_eq_some_iff_splits]
  exact ⟨fun ⟨_, name, h, rfl⟩ => ⟨name, h⟩, fun ⟨name, h⟩ => ⟨id, name, h, rfl⟩⟩

theorem fieldIn?_eq_some_iff {f : Field} : fieldIn? id key = some f ↔ Splits key id f.label := by
  rw [fieldIn?, ← splitKey_eq_some_iff_splits]
  cases splitKey key with
  | none => simp
  | some split =>
    obtain ⟨i, name⟩ := split
    by_cases hi : i = id
    · simp only [hi, if_true, Field.named?_eq_some_iff, Option.some.injEq, Prod.mk.injEq, true_and]
      exact eq_comm
    · simp [hi]

/-- A search through keys gives what the first key gives that has a given property. -/
theorem findSome?_eq_some_iff_isFirst {α : Type} {f : String → Option α} {P : String → Prop}
    (h : ∀ k, P k ↔ ∃ a, f k = some a) {a : α} :
    keys.findSome? f = some a ↔ ∃ key, IsFirst P keys key ∧ f key = some a := by
  have hnot (k : String) : ¬ P k ↔ f k = none := by
    rw [h, not_exists, Option.eq_none_iff_forall_ne_some]
  simp only [List.findSome?_eq_some_iff, IsFirst, hnot]
  constructor
  · rintro ⟨before, key, after, rfl, hkey, hbefore⟩
    exact ⟨key, ⟨before, after, rfl, (h key).mpr ⟨a, hkey⟩, hbefore⟩, hkey⟩
  · rintro ⟨key, ⟨before, after, rfl, -, hbefore⟩, hkey⟩
    exact ⟨before, key, after, rfl, hkey, hbefore⟩

theorem findSome?_idIn?_eq_some_iff : keys.findSome? idIn? = some id ↔ FirstId keys id := by
  have hid (k : String) : (∃ i n, Splits k i n) ↔ ∃ i, idIn? k = some i := by
    simp only [idIn?_eq_some_iff]
  rw [findSome?_eq_some_iff_isFirst hid]
  simp only [idIn?_eq_some_iff, FirstId, exists_and_left]

theorem findSome?_fieldIn?_eq_some_iff {f : Field} :
    keys.findSome? (fieldIn? id) = some f ↔ FirstField keys id f := by
  have hfield (k : String) : (∃ kind, ∃ g ∈ Kind.fields kind, Splits k id g.label) ↔
      ∃ g, fieldIn? id k = some g := by
    simp only [fieldIn?_eq_some_iff, Kind.mem_fields]
    exact ⟨fun ⟨_, g, _, h⟩ => ⟨g, h⟩, fun ⟨g, h⟩ => ⟨g.kind, g, rfl, h⟩⟩
  rw [findSome?_eq_some_iff_isFirst hfield]
  simp only [fieldIn?_eq_some_iff, FirstField]

theorem dataset_after_eq_some_iff : (after known keys).dataset = some id ↔ FirstId keys id := by
  rw [after_eq]
  exact findSome?_idIn?_eq_some_iff

theorem kind_after_eq_some_iff {kind : Kind} :
    (after known keys).kind = some kind ↔ KindOf known keys kind := by
  rw [after_eq]
  simp only [Option.bind_eq_some_iff, findSome?_idIn?_eq_some_iff, Option.or_eq_some_iff,
    Option.map_eq_some_iff, findSome?_fieldIn?_eq_some_iff]
  constructor
  · rintro ⟨id, hid, hknown | ⟨hknown, f, hf, rfl⟩⟩
    · exact .resident hid hknown
    · exact .inferred hid hknown hf (Kind.mem_fields.mpr rfl)
  · rintro (⟨hid, hknown⟩ | ⟨hid, hknown, hf, hkind⟩)
    · exact ⟨_, hid, .inl hknown⟩
    · exact ⟨_, hid, .inr ⟨hknown, _, hf, Kind.mem_fields.mp hkind⟩⟩

/-! ## Which keys resolve -/

/-- A key resolves if it has the id that is then known and names a field of the kind that is then
known. -/
theorem runAt_resolve_fst_eq_ok_iff {t : Target} {k : FieldKey} :
    ((resolve known key).runAt t).1 = .ok k ↔
      ∃ id kind, ((resolve known key).runAt t).2 = bound id kind ∧ k.field ∈ kind.fields ∧
        Splits key id k.field.label ∧ k.key = key := by
  constructor
  · intro h
    obtain ⟨id, hne, hsep, hkey, ht, -⟩ := Check.runAt_resolve_eq_ok_iff.mp (Prod.ext h rfl)
    exact ⟨id, _, ht, Kind.mem_fields.mpr rfl, ⟨hkey.written, hne, hsep⟩, hkey.key_eq⟩
  · rintro ⟨id, kind, ht, hfield, hsplits, hkey⟩
    obtain rfl := Kind.mem_fields.mp hfield
    refine congrArg Prod.fst (Check.runAt_resolve_eq_ok_iff.mpr
      ⟨id, hsplits.nonempty, hsplits.unseparated, ⟨hkey, rfl, hsplits.written⟩, ht, ?_⟩)
    have hid : idIn? key = some id := idIn?_eq_some_iff.mpr ⟨_, hsplits⟩
    rw [runAt_resolve_snd] at ht
    rcases t with ⟨_ | b, kind⟩
    · simp only [hid] at ht
      obtain ⟨-, hkind⟩ := Target.mk.inj ht
      refine .inl ⟨rfl, ?_⟩
      cases hknown : known id with
      | none => exact .inl rfl
      | some _ => exact .inr (by simpa [hknown] using hkind)
    · obtain ⟨hb, hkind⟩ := Target.mk.inj ht
      refine .inr ⟨hb, ?_⟩
      cases kind with
      | none => exact .inl rfl
      | some _ => exact .inr (by simpa using hkind)

/-- The id that is known stays. -/
theorem dataset_after_append (h : (after known keys).dataset = some id) (later : List String) :
    (after known (keys ++ later)).dataset = some id := by
  rw [after_eq] at h ⊢
  dsimp only at h ⊢
  rw [List.findSome?_append, h, Option.some_or]

/-- The kind that is known stays. -/
theorem kind_after_append {kind : Kind} (h : (after known keys).kind = some kind)
    (later : List String) : (after known (keys ++ later)).kind = some kind := by
  rw [after_eq] at h ⊢
  obtain ⟨id, hid, hkind⟩ := Option.bind_eq_some_iff.mp h
  dsimp only
  rw [List.findSome?_append, hid, Option.some_or, Option.bind_some, List.findSome?_append,
    Option.map_or, ← Option.or_assoc, hkind, Option.some_or]

/-- Keys resolved in turn on one target: after them it has the id of the first key that has one and
the kind that the catalog gives this id, or else that of the first field under it. What it has
stays, and the next key resolves just if it has this id and names a field of this kind. -/
theorem resolves_in_turn (known : String → Option Kind) (keys : List String) :
    (∀ id, (after known keys).dataset = some id ↔ FirstId keys id) ∧
    (∀ kind, (after known keys).kind = some kind ↔ KindOf known keys kind) ∧
    (∀ later id, (after known keys).dataset = some id →
      (after known (keys ++ later)).dataset = some id) ∧
    (∀ later kind, (after known keys).kind = some kind →
      (after known (keys ++ later)).kind = some kind) ∧
    ∀ key k, ((resolve known key).runAt (after known keys)).1 = .ok k ↔
      ∃ id kind f, FirstId (keys ++ [key]) id ∧ KindOf known (keys ++ [key]) kind ∧
        f ∈ kind.fields ∧ Splits key id f.label ∧ k.key = key ∧ k.field = f ∧ k.type = f.type := by
  refine ⟨fun _ => dataset_after_eq_some_iff, fun _ => kind_after_eq_some_iff,
    fun later _ h => dataset_after_append h later, fun later _ h => kind_after_append h later,
    fun key k => ?_⟩
  rw [runAt_resolve_fst_eq_ok_iff, ← after_concat]
  simp only [← @dataset_after_eq_some_iff known, ← @kind_after_eq_some_iff known]
  constructor
  · rintro ⟨id, kind, ht, hfield, hsplits, hkey⟩
    exact ⟨id, kind, k.field, by rw [ht, bound], by rw [ht, bound], hfield, hsplits, hkey, rfl, rfl⟩
  · rintro ⟨id, kind, _, hdataset, hkind, hfield, hsplits, hkey, rfl, -⟩
    refine ⟨id, kind, ?_, hfield, hsplits, hkey⟩
    generalize after known (keys ++ [key]) = t at hdataset hkind
    cases t
    cases hdataset
    cases hkind
    rfl

/-- A key without an id, one of an unknown field, which fixes the id all the same, one of another
dataset, and then one that fixes the kind, against which a last one fails. -/
theorem resolves_in_turn_ghost :
    FirstId ["avg", "ghost_bogus"] "ghost" ∧
    KindOf (fun _ => none) ["avg", "ghost_bogus", "halls_avg", "ghost_lat"] .rooms ∧
    (after (fun _ => none) (["avg", "ghost_bogus", "halls_avg", "ghost_lat"] ++
      ["ghost_avg"])).kind = some .rooms := by
  obtain ⟨-, hkind, -, hstays, -⟩ := resolves_in_turn (fun _ => none)
    ["avg", "ghost_bogus", "halls_avg", "ghost_lat"]
  obtain ⟨hid, -⟩ := resolves_in_turn (fun _ => none) ["avg", "ghost_bogus"]
  exact ⟨(hid _).mp (by decide), (hkind _).mp (by decide), hstays _ _ (by decide)⟩

end Target

end CampusQuery
