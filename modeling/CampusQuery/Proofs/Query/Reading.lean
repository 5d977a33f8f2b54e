import Mathlib
import CampusQuery.Query.Language

/-!
# Readings

The keys of a query are resolved one after the other, and each reading depends on what the keys
before it said of the dataset. A reading is stated here as if the dataset, its id and kind, were
known from the start.

* `Check.Reads` — a reading finds a value just where it is to be found, whatever was known of the
  dataset before; it passes through `>>=` and `mapM`.
* `reads_resolve` — keys name fields of the dataset.
* `reads_entries`, `reads_items`, `reads_texts` — readings of shapes learn nothing of the dataset.
-/

namespace CampusQuery

/-! ## Datasets -/

/-- Whether a query may be about a dataset: its id can stand before the underscore of a key, and the
catalog gives it no other kind. -/
structure Admits (known : String → Option Kind) (id : String) (kind : Kind) : Prop where
  nonempty : id ≠ ""
  unseparated : separator ∉ id.toList
  unopposed : known id = none ∨ known id = some kind

namespace Target

/-- What is known once the id and the kind are. -/
def bound (id : String) (kind : Kind) : Target := ⟨some id, some kind⟩

/-- Whether what is known of the dataset is so of one with the given id and kind. -/
def Fits (t : Target) (id : String) (kind : Kind) : Prop :=
  t = {} ∨ t = bound id kind

/-- Whether nothing is known of the dataset, or an id and a kind that it may have. -/
def Settled (known : String → Option Kind) (t : Target) : Prop :=
  t = {} ∨ ∃ id kind, Admits known id kind ∧ t = bound id kind

theorem fits_bound_iff {id id' : String} {kind kind' : Kind} :
    (bound id kind).Fits id' kind' ↔ id = id' ∧ kind = kind' := by
  simp [Fits, bound]

end Target

/-! ## Readings -/

namespace Check

variable {α β : Type} {known : String → Option Kind}

/-- A reading with what is known before it. -/
def runAt (c : Check α) (t : Target) : Except Malformed α × Target := c.run.run t

@[simp] theorem runAt_pure (a : α) (t : Target) : (pure a : Check α).runAt t = (.ok a, t) := rfl

@[simp] theorem runAt_throw (e : Malformed) (t : Target) :
    (throw e : Check α).runAt t = (.error e, t) := rfl

@[simp] theorem runAt_get (t : Target) : (get : Check Target).runAt t = (.ok t, t) := rfl

@[simp] theorem runAt_modify (f : Target → Target) (t : Target) :
    (modify f : Check PUnit).runAt t = (.ok (), f t) := rfl

theorem runAt_bind (c : Check α) (f : α → Check β) (t : Target) :
    (c >>= f).runAt t =
      match c.runAt t with
      | (.ok a, t') => (f a).runAt t'
      | (.error e, t') => (.error e, t') := by
  simp only [runAt, ExceptT.run_bind, StateT.run_bind]
  show (match c.run.run t with | (r, t') => _) = _
  rcases c.run.run t with ⟨_ | a, t'⟩ <;> rfl

theorem runAt_bind_eq_ok_iff {c : Check α} {f : α → Check β} {t t'' : Target} {b : β} :
    (c >>= f).runAt t = (.ok b, t'') ↔
      ∃ a t', c.runAt t = (.ok a, t') ∧ (f a).runAt t' = (.ok b, t'') := by
  rw [runAt_bind]
  rcases c.runAt t with ⟨_ | a, t'⟩ <;> simp

/-- A reading has a meaning: whatever fits the dataset after it did so before, and the value is the
one that the meaning has under that id and kind. -/
structure Reads (known : String → Option Kind) (c : Check α) (P : String → Kind → α → Prop) :
    Prop where
  settled : ∀ {t a t'}, Target.Settled known t → c.runAt t = (.ok a, t') → Target.Settled known t'
  ok_iff : ∀ {t id kind a}, Target.Settled known t → Admits known id kind →
    ((∃ t', c.runAt t = (.ok a, t') ∧ t'.Fits id kind) ↔ t.Fits id kind ∧ P id kind a)

namespace Reads

/-- A reading that looks at no key. -/
theorem of_stateless {c : Check α} {r : Except Malformed α} (h : ∀ t, c.runAt t = (r, t)) :
    Reads known c fun _ _ a => r = .ok a where
  settled ht hc := by
    rw [h] at hc
    obtain ⟨-, rfl⟩ := Prod.mk.inj hc
    exact ht
  ok_iff {t id kind a} _ _ := by
    simp only [h, Prod.mk.injEq]
    constructor
    · rintro ⟨t', ⟨hr, rfl⟩, ht⟩; exact ⟨ht, hr⟩
    · rintro ⟨ht, hr⟩; exact ⟨t, ⟨hr, rfl⟩, ht⟩

theorem congr {c : Check α} {P Q : String → Kind → α → Prop} (h : Reads known c P)
    (hPQ : ∀ id kind a, P id kind a ↔ Q id kind a) : Reads known c Q := by
  have : P = Q := by funext id kind a; exact propext (hPQ id kind a)
  exact this ▸ h

protected theorem pure (a : α) : Reads known (pure a) fun _ _ b => a = b :=
  (of_stateless (runAt_pure a)).congr fun _ _ b => by simp

protected theorem throw (e : Malformed) :
    Reads known (throw e : Check α) fun _ _ _ => False :=
  (of_stateless (runAt_throw e)).congr fun _ _ b => by simp

protected theorem bind {c : Check α} {f : α → Check β} {P : String → Kind → α → Prop}
    {Q : α → String → Kind → β → Prop} (hc : Reads known c P) (hf : ∀ a, Reads known (f a) (Q a)) :
    Reads known (c >>= f) fun id kind b => ∃ a, P id kind a ∧ Q a id kind b where
  settled ht h := by
    obtain ⟨a, t', h1, h2⟩ := runAt_bind_eq_ok_iff.mp h
    exact (hf a).settled (hc.settled ht h1) h2
  ok_iff {t id kind b} hs hid := by
    simp only [runAt_bind_eq_ok_iff]
    constructor
    · rintro ⟨t'', ⟨a, t', h1, h2⟩, ht''⟩
      obtain ⟨ht', hb⟩ := ((hf a).ok_iff (hc.settled hs h1) hid).mp ⟨t'', h2, ht''⟩
      obtain ⟨ht, ha⟩ := (hc.ok_iff hs hid).mp ⟨t', h1, ht'⟩
      exact ⟨ht, a, ha, hb⟩
    · rintro ⟨ht, a, ha, hb⟩
      obtain ⟨t', h1, ht'⟩ := (hc.ok_iff hs hid).mpr ⟨ht, ha⟩
      obtain ⟨t'', h2, ht''⟩ := ((hf a).ok_iff (hc.settled hs h1) hid).mpr ⟨ht', hb⟩
      exact ⟨t'', ⟨a, t', h1, h2⟩, ht''⟩

protected theorem map {c : Check α} {P : String → Kind → α → Prop} (f : α → β)
    (hc : Reads known c P) : Reads known (f <$> c) fun id kind b => ∃ a, P id kind a ∧ f a = b := by
  rw [← bind_pure_comp]
  exact hc.bind fun a => Reads.pure (f a)

protected theorem mapM {f : α → Check β} {P : α → String → Kind → β → Prop}
    (hf : ∀ a, Reads known (f a) (P a)) (as : List α) :
    Reads known (as.mapM f) fun id kind bs =>
      List.Forall₂ (fun a b => P a id kind b) as bs := by
  induction as with
  | nil =>
    rw [List.mapM_nil]
    exact (Reads.pure []).congr fun id kind bs => by simp [eq_comm]
  | cons a as ih =>
    rw [List.mapM_cons]
    refine ((hf a).bind fun b => ih.bind fun bs => Reads.pure (b :: bs)).congr fun id kind bs => ?_
    rw [List.forall₂_cons_left_iff]
    constructor
    · rintro ⟨b, hb, bs', hbs, rfl⟩; exact ⟨b, bs', hb, hbs, rfl⟩
    · rintro ⟨b, bs', hb, hbs, rfl⟩; exact ⟨b, hb, bs', hbs, rfl⟩

end Reads

end Check

/-! ## Keys -/

theorem Field.named?_eq_some_iff {name : String} {f : Field} :
    Field.named? name = some f ↔ f.label = name := by
  unfold Field.named?
  constructor
  · intro h
    obtain ⟨kind, -, hf⟩ := List.exists_of_findSome?_eq_some h
    exact (Kind.field?_eq_some_iff.mp hf).2
  · rintro rfl
    cases hname : Kind.all.findSome? fun kind => kind.field? f.label with
    | none =>
      have hkind : f.kind ∈ Kind.all := by cases f.kind <;> simp [Kind.all]
      have hnone := List.findSome?_eq_none_iff.mp hname f.kind hkind
      rw [Kind.field?_eq_some_iff.mpr ⟨rfl, rfl⟩] at hnone
      cases hnone
    | some g =>
      obtain ⟨kind, -, hg⟩ := List.exists_of_findSome?_eq_some hname
      rw [Field.label_inj (Kind.field?_eq_some_iff.mp hg).2]

/-- What a key means: a field of the dataset, named by its id, an underscore and the label. -/
structure KeyMeans (id : String) (kind : Kind) (key : String) (k : FieldKey) : Prop where
  key_eq : k.key = key
  kind_eq : k.field.kind = kind
  written : key = id ++ separator.toString ++ k.field.label

theorem forall₂_keyMeans_iff {id : String} {kind : Kind} {names : List String}
    {keys : List FieldKey} :
    List.Forall₂ (fun name k => KeyMeans id kind name k) names keys ↔
      names = keys.map FieldKey.key ∧ ∀ k ∈ keys, KeyMeans id kind k.key k := by
  induction keys generalizing names with
  | nil => simp
  | cons k keys ih =>
    rw [List.forall₂_cons_right_iff]
    constructor
    · rintro ⟨name, names, hk, hkeys, rfl⟩
      obtain ⟨rfl, hall⟩ := ih.mp hkeys
      obtain rfl := hk.key_eq
      exact ⟨rfl, List.forall_mem_cons.mpr ⟨hk, hall⟩⟩
    · rintro ⟨rfl, hall⟩
      obtain ⟨hk, hall⟩ := List.forall_mem_cons.mp hall
      exact ⟨k.key, keys.map FieldKey.key, hk, ih.mpr ⟨rfl, hall⟩, rfl⟩

namespace Check

variable {known : String → Option Kind}

theorem runAt_bindId (id : String) (t : Target) :
    (Target.bind known id).runAt t =
      match t.dataset with
      | none => (.ok (), ⟨some id, known id⟩)
      | some b => if b = id then (.ok (), t) else (.error (.otherDataset b id), t) := by
  rw [Target.bind, runAt_bind, runAt_get]
  rcases t with ⟨_ | b, kind⟩
  · rfl
  · dsimp only
    split <;> rfl

theorem runAt_field_eq_ok_iff {key name : String} {t t' : Target} {f : Field} :
    (Target.field key name).runAt t = (.ok f, t') ↔
      f.label = name ∧ (t.kind = none ∨ t.kind = some f.kind) ∧ t' = ⟨t.dataset, some f.kind⟩ := by
  rw [Target.field, runAt_bind, runAt_get]
  rcases t with ⟨dataset, _ | kind⟩
  · dsimp only
    cases hname : Field.named? name with
    | none =>
      have hno : f.label ≠ name := fun h => by
        rw [Field.named?_eq_some_iff.mpr h] at hname; cases hname
      simp [hno]
    | some g =>
      have hg := Field.named?_eq_some_iff.mp hname
      simp only [runAt_bind, runAt_modify, runAt_pure, Prod.mk.injEq, Except.ok.injEq]
      constructor
      · rintro ⟨rfl, rfl⟩; simp [hg]
      · rintro ⟨hf, -, rfl⟩
        obtain rfl := Field.label_inj (hg.trans hf.symm)
        exact ⟨rfl, rfl⟩
  · dsimp only
    cases hname : kind.field? name with
    | none =>
      have hno : ¬ (f.label = name ∧ kind = f.kind) := fun h => by
        rw [Kind.field?_eq_some_iff.mpr ⟨h.2.symm, h.1⟩] at hname; cases hname
      simp only [runAt_throw, Prod.mk.injEq, reduceCtorEq, false_and, false_iff, Option.some.injEq,
        false_or]
      rintro ⟨hlabel, hkind, -⟩
      exact hno ⟨hlabel, hkind⟩
    | some g =>
      obtain ⟨hkind, hlabel⟩ := Kind.field?_eq_some_iff.mp hname
      simp only [runAt_pure, Prod.mk.injEq, Except.ok.injEq]
      constructor
      · rintro ⟨rfl, rfl⟩; exact ⟨hlabel, Or.inr (by rw [hkind]), by rw [hkind]⟩
      · rintro ⟨hf, -, rfl⟩
        obtain rfl := Field.label_inj (hlabel.trans hf.symm)
        exact ⟨rfl, by rw [hkind]⟩

/-- What a resolved key says of itself and of the dataset after it. -/
theorem runAt_resolve_eq_ok_iff {key : String} {k : FieldKey} {t t' : Target} :
    (Target.resolve known key).runAt t = (.ok k, t') ↔
      ∃ id, id ≠ "" ∧ separator ∉ id.toList ∧ KeyMeans id k.field.kind key k ∧
        t' = Target.bound id k.field.kind ∧
        ((t.dataset = none ∧ (known id = none ∨ known id = some k.field.kind)) ∨
          (t.dataset = some id ∧ (t.kind = none ∨ t.kind = some k.field.kind))) := by
  rw [Target.resolve]
  cases hsplit : splitKey key with
  | none =>
    simp only [runAt_throw, Prod.mk.injEq, reduceCtorEq, false_and, false_iff]
    rintro ⟨id, hne, hsep, hkey, -⟩
    rw [splitKey_eq_some_iff.mpr ⟨hkey.written, hne, hsep⟩] at hsplit
    cases hsplit
  | some split =>
    obtain ⟨id, name⟩ := split
    obtain ⟨hwritten, hne, hsep⟩ := splitKey_eq_some_iff.mp hsplit
    simp only [runAt_bind_eq_ok_iff, runAt_bindId, runAt_field_eq_ok_iff, runAt_pure, Prod.mk.injEq,
      Except.ok.injEq]
    constructor
    · rintro ⟨_, t₁, h₁, f, t₂, ⟨hlabel, hkind, rfl⟩, rfl, rfl⟩
      refine ⟨id, hne, hsep, ⟨rfl, rfl, by rw [hwritten, hlabel]⟩, ?_⟩
      rcases t with ⟨_ | b, kind⟩
      · obtain ⟨-, rfl⟩ := Prod.mk.inj h₁
        exact ⟨rfl, Or.inl ⟨rfl, hkind⟩⟩
      · dsimp only at h₁
        split at h₁
        · next hb =>
          obtain ⟨-, rfl⟩ := Prod.mk.inj h₁
          subst hb
          exact ⟨rfl, Or.inr ⟨rfl, hkind⟩⟩
        · cases h₁
    · rintro ⟨id', hne', hsep', ⟨hk, -, hkey⟩, rfl, ht⟩
      rw [splitKey_eq_some_iff.mpr ⟨hkey, hne', hsep'⟩] at hsplit
      obtain ⟨rfl, rfl⟩ := Prod.mk.inj (Option.some.inj hsplit)
      rcases ht with ⟨hdataset, hkind⟩ | ⟨hdataset, hkind⟩
      · exact ⟨(), ⟨some id', known id'⟩, by rw [hdataset], k.field, _, ⟨rfl, hkind, rfl⟩,
          by rw [← hk], rfl⟩
      · exact ⟨(), t, by simp [hdataset], k.field, _, ⟨rfl, hkind, rfl⟩, by rw [← hk],
          by rw [hdataset]; rfl⟩

theorem reads_resolve (key : String) :
    Reads known (Target.resolve known key) fun id kind k => KeyMeans id kind key k where
  settled ht h := by
    obtain ⟨id, hne, hsep, -, rfl, hfirst⟩ := runAt_resolve_eq_ok_iff.mp h
    refine Or.inr ⟨id, _, ?_, rfl⟩
    rcases ht with rfl | ⟨id', kind', hadmits, rfl⟩
    · rcases hfirst with ⟨-, hknown⟩ | ⟨hdataset, -⟩
      · exact ⟨hne, hsep, hknown⟩
      · cases hdataset
    · rcases hfirst with ⟨hdataset, -⟩ | ⟨hdataset, hkind⟩
      · cases hdataset
      · obtain rfl := Option.some.inj hdataset
        rcases hkind with hkind | hkind
        · cases hkind
        · obtain rfl := Option.some.inj hkind
          exact hadmits
  ok_iff {t id kind k} hs hid := by
    simp only [runAt_resolve_eq_ok_iff]
    constructor
    · rintro ⟨t', ⟨id', hne, hsep, hkey, rfl, hfirst⟩, hfits⟩
      obtain ⟨rfl, rfl⟩ := Target.fits_bound_iff.mp hfits
      refine ⟨?_, hkey⟩
      rcases hs with rfl | ⟨id, kind, -, rfl⟩
      · exact Or.inl rfl
      · rcases hfirst with ⟨hdataset, -⟩ | ⟨hdataset, hkind⟩
        · cases hdataset
        · obtain rfl := Option.some.inj hdataset
          rcases hkind with hkind | hkind
          · cases hkind
          · obtain rfl := Option.some.inj hkind
            exact Or.inr rfl
    · rintro ⟨ht, hkey⟩
      refine ⟨_, ⟨id, hid.nonempty, hid.unseparated, hkey.kind_eq ▸ hkey, rfl, ?_⟩,
        Target.fits_bound_iff.mpr ⟨rfl, hkey.kind_eq⟩⟩
      rw [hkey.kind_eq]
      rcases ht with rfl | rfl
      · exact Or.inl ⟨rfl, hid.unopposed⟩
      · exact Or.inr ⟨rfl, Or.inr rfl⟩

/-! ## Shapes -/

theorem reads_entries (part : Part) (v : Json) :
    Reads known (entries part v) fun _ _ es => v = .object es := by
  cases v with
  | object es => exact (Reads.pure es).congr fun _ _ a => by simp
  | null | boolean | number | string | array =>
    exact (Reads.throw _).congr fun _ _ a => by simp

theorem reads_single (part : Part) (es : List (String × Json)) :
    Reads known (single part es) fun _ _ e => es = [e] := by
  rcases es with _ | ⟨e, _ | ⟨e', es⟩⟩
  · exact (Reads.throw _).congr fun _ _ a => by simp
  · exact (Reads.pure e).congr fun _ _ a => by simp
  · exact (Reads.throw _).congr fun _ _ a => by simp

theorem reads_singleEntry (part : Part) (v : Json) :
    Reads known (singleEntry part v) fun _ _ e => v = .object [e] := by
  refine ((reads_entries part v).bind (reads_single part)).congr fun _ _ e => ?_
  simp

theorem reads_items (part : Part) (v : Json) :
    Reads known (items part v) fun _ _ vs => v = .array vs ∧ vs ≠ [] := by
  cases v with
  | array vs =>
    cases vs with
    | nil => exact (Reads.throw _).congr fun _ _ a => by simp [eq_comm]
    | cons v vs =>
      refine (Reads.pure (v :: vs)).congr fun _ _ a => ?_
      simp only [Json.array.injEq]
      constructor
      · rintro rfl; simp
      · rintro ⟨rfl, -⟩; rfl
  | null | boolean | number | string | object =>
    exact (Reads.throw _).congr fun _ _ a => by simp

theorem reads_text (part : Part) (v : Json) :
    Reads known (text part v) fun _ _ s => v = .string s := by
  cases v with
  | string s => exact (Reads.pure s).congr fun _ _ a => by simp
  | null | boolean | number | array | object =>
    exact (Reads.throw _).congr fun _ _ a => by simp

theorem reads_texts (part : Part) (v : Json) :
    Reads known (texts part v) fun _ _ ss => v = .array (ss.map Json.string) ∧ ss ≠ [] := by
  refine ((reads_items part v).bind fun vs => Reads.mapM (reads_text part) vs).congr
    fun _ _ ss => ?_
  have hmap (vs : List Json) :
      List.Forall₂ (fun v s => v = Json.string s) vs ss ↔ vs = ss.map Json.string := by
    rw [← List.forall₂_eq_eq_eq, List.forall₂_map_right_iff]
  simp only [hmap]
  constructor
  · rintro ⟨vs, ⟨hv, hne⟩, rfl⟩; exact ⟨hv, by simpa using hne⟩
  · rintro ⟨hv, hne⟩; exact ⟨_, ⟨hv, by simpa using hne⟩, rfl⟩

theorem reads_found (value : Option Json) (missing : Malformed) :
    Reads known (found value missing) fun _ _ v => value = some v := by
  cases value with
  | none => exact (Reads.throw _).congr fun _ _ a => by simp
  | some v => exact (Reads.pure v).congr fun _ _ a => by simp

theorem reads_optional {α : Type} {read : Json → Check α} {P : String → Kind → Json → α → Prop}
    (h : ∀ v, Reads known (read v) fun id kind a => P id kind v a) (w : Option Json) :
    Reads known (optional read w) fun id kind o => Option.Rel (P id kind) w o := by
  cases w with
  | none =>
    refine (Reads.pure none).congr fun id kind o => ?_
    constructor
    · rintro rfl; exact .none
    · rintro ⟨⟩; rfl
  | some v =>
    refine ((h v).map some).congr fun id kind o => ?_
    constructor
    · rintro ⟨a, ha, rfl⟩; exact .some ha
    · rintro ⟨⟩; exact ⟨_, ‹_›, rfl⟩

theorem reads_require (condition : Bool) (fault : Malformed) :
    Reads known (require condition fault) fun _ _ _ => condition = true := by
  cases condition with
  | false => exact (Reads.throw _).congr fun _ _ a => by simp
  | true => exact (Reads.pure ()).congr fun _ _ a => by simp

theorem reads_noOthers (names : List String) (fault : String → Malformed)
    (es : List (String × Json)) :
    Reads known (noOthers names fault es) fun _ _ _ => ∀ e ∈ es, e.1 ∈ names := by
  unfold noOthers
  cases hfind : es.find? fun e => !names.contains e.1 with
  | some e =>
    have hmem := List.mem_of_find?_eq_some hfind
    have hother : e.1 ∉ names := by simpa using List.find?_some hfind
    exact (Reads.throw _).congr fun _ _ _ => ⟨False.elim, fun h => hother (h e hmem)⟩
  | none =>
    have hall : ∀ e ∈ es, e.1 ∈ names := by simpa using hfind
    exact (Reads.pure ()).congr fun _ _ _ => ⟨fun _ => hall, fun _ => rfl⟩

theorem reads_typedKey (part : Part) (type : FieldType) (key : String) :
    Reads known (typedKey known part type key) fun id kind k =>
      KeyMeans id kind key k ∧ k.type = type := by
  refine ((reads_resolve key).bind fun k =>
    (reads_require (k.type == type) _).bind fun _ => Reads.pure k).congr fun id kind k => ?_
  simp only [beq_iff_eq, exists_and_left, exists_const]
  constructor
  · rintro ⟨k, hkey, htype, rfl⟩; exact ⟨hkey, htype⟩
  · rintro ⟨hkey, htype⟩; exact ⟨k, hkey, htype, rfl⟩

end Check

end CampusQuery
