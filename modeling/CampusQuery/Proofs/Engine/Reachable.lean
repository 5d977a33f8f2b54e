import Mathlib
import CampusQuery.Proofs.Answer.OwnKeys
import CampusQuery.Proofs.Engine.Failure
import CampusQuery.Proofs.Engine.Journal

/-!
# Datasets of engines that are reached

Whatever has been done with an engine, its datasets have valid ids, so their keys lead to them; and
a dataset that is added shows its rows until a request is about its own id, whatever is done about
others and whatever becomes of the files.

* `Engine.IsReachable` — the engines that come of openings and requests, on any machines.
* `Engine.Follows` — an engine after requests about other ids.
* `IsReachable.isValidId` — what is kept.
* `get?_of_add`, `Follows.get?_eq` — the dataset that is added, and that it stays.
* `IsReachable.shows_added` — its rows are shown.
-/

namespace CampusQuery

namespace Engine

/-! ## What is reached -/

/-- The engines that come of openings and requests one after the other, each on any machine. -/
inductive IsReachable [Collator] [Converter] : Engine → Prop
  | empty : IsReachable .empty
  | performed {e : Engine} (h : IsReachable e) (op : Operation) (machine : Machine) :
      IsReachable (machine.on (e.perform op)).1.2

/-- An engine after requests that are not about an id, each on any machine. -/
inductive Follows [Collator] [Converter] (id : String) (e : Engine) : Engine → Prop
  | refl : Follows id e e
  | served {e' : Engine} (h : Follows id e e') {r : Request} (hr : r.id? ≠ some id)
      (machine : Machine) : Follows id e (machine.on (e'.serve r)).1.2

variable {e : Engine} {machine : Machine} {id : String} {d : Dataset}

/-- A dataset that has passed its checks has a valid id. -/
theorem isValidId_of_due {now : Instant} {r : Request} (h : e.due now r = some (.saved d)) :
    Dataset.isValidId d.id = true := by
  obtain ⟨rows, rfl, -, -⟩ := exists_rows_of_due h
  cases hprepare : e.prepare d.id d.kind rows now with
  | error => simp [due, hprepare] at h
  | ok =>
    obtain ⟨-, hrows⟩ := prepare_eq_ok_iff.mp hprepare
    exact (Dataset.ofRows_eq_ok_iff.mp hrows).1

theorem isValidId_serve [Collator] [Converter]
    (h : ∀ d, e.registry.get? d.id = some d → Dataset.isValidId d.id = true)
    {r : Request} (hd : (machine.on (e.serve r)).1.2.registry.get? d.id = some d) :
    Dataset.isValidId d.id = true := by
  rw [get?_serve] at hd
  cases hmade : e.made machine r with
  | none =>
    rw [hmade] at hd
    exact h d hd
  | some step =>
    rw [hmade] at hd
    by_cases hid : d.id = step.id
    · have hleft : step.left = some d := by
        rw [← hd, hid]
        exact FileStep.apply_self.symm
      cases step with
      | saved d' =>
        obtain rfl := Option.some.inj hleft
        exact isValidId_of_due (Option.filter_eq_some_iff.mp hmade).1
      | deleted => cases hleft
    · exact h d ((FileStep.apply_of_ne hid).symm.trans hd)

theorem isValidId_open {root : Option String} {limit : Nat}
    (h : (machine.on (open_ root limit)).1 = .ok e) (hd : e.registry.get? d.id = some d) :
    Dataset.isValidId d.id = true := by
  cases root with
  | none =>
    obtain rfl := Except.ok.inj h
    cases hd
  | some root =>
    obtain ⟨names, ds, -, -, hregister, -, -⟩ := Engine.of_open (Prod.ext h rfl)
    obtain ⟨-, hperm, hregistrable⟩ := registerAll_eq_ok_perm Registry.sorted_empty hregister
    exact (hregistrable d (hperm.mem_iff.mp (List.mem_of_find?_eq_some hd))).valid

theorem IsReachable.isValidId [Collator] [Converter] (h : e.IsReachable)
    (hd : e.registry.get? d.id = some d) : Dataset.isValidId d.id = true := by
  induction h generalizing d with
  | empty => cases hd
  | @performed e h op machine ih =>
    cases op with
    | open_ root limit =>
      rw [perform, Machine.on_bind] at hd
      rcases hopen : machine.on (open_ root limit) with ⟨fault | e', machine'⟩
      · rw [hopen] at hd
        exact ih hd
      · rw [hopen] at hd
        exact isValidId_open (congrArg Prod.fst hopen) hd
    | request r => exact isValidId_serve (fun d hd => ih hd) hd

/-! ## What is added -/

theorem get?_of_add {kind : Kind} {rows : List Json} {e' : Engine} {machine' : Machine}
    (h : machine.on (e.add id kind rows) = (.ok e', machine')) :
    e'.limit = e.limit ∧ Dataset.isValidId id = true ∧
      ∃ d, e'.registry.get? id = some d ∧ d.kind = kind ∧
        rows.mapM (Record.ofJson kind) = .ok d.rows.toList := by
  have hserve : machine.on (e.serve (.add id kind rows)) =
      ((.added (.ok e'.registry.ids), e'), machine') := by
    rw [serve, Machine.on_bind, h]
    rfl
  have hends : Ends e machine (.add id kind rows) none e' machine'.files :=
    ends_of_serve rfl hserve
  generalize machine'.files = files at hends
  cases hends with
  | @done step registry _ hdue _ hget =>
    cases step with
    | saved d =>
      obtain ⟨rows', hr, hrows, -⟩ := exists_rows_of_due hdue
      obtain ⟨rfl, rfl, rfl⟩ := Request.add.inj hr
      exact ⟨rfl, isValidId_of_due hdue, d, (congrFun hget d.id).trans (if_pos rfl), rfl, hrows⟩
    | deleted =>
      cases hprepare : e.prepare id kind rows machine.now <;> simp [due, hprepare] at hdue

/-! ## What stays -/

theorem serve_of_ne [Collator] [Converter] (e : Engine) (machine : Machine) {r : Request}
    (hr : r.id? ≠ some id) :
    (machine.on (e.serve r)).1.2.registry.get? id = e.registry.get? id ∧
      (machine.on (e.serve r)).1.2.limit = e.limit := by
  cases hother : r.id? with
  | none =>
    rw [e.serve_of_id? machine hother]
    exact ⟨rfl, rfl⟩
  | some other =>
    have hends : Ends e machine r _ _ _ := ends_of_serve hother rfl
    have hall := hends.allOrNothing rfl
    exact ⟨hall.others id hr, hall.kept.2⟩

theorem Follows.get?_eq [Collator] [Converter] {e' : Engine} (h : Follows id e e') :
    e'.registry.get? id = e.registry.get? id ∧ e'.limit = e.limit := by
  induction h with
  | refl => exact ⟨rfl, rfl⟩
  | served _ hr machine ih =>
    obtain ⟨hget, hlimit⟩ := serve_of_ne _ machine hr
    exact ⟨hget.trans ih.1, hlimit.trans ih.2⟩

/-- What a query gives does not depend on the machine. -/
theorem on_query [Collator] [Converter] (e : Engine) (raw : Json) (machine : Machine) :
    (machine.on (e.query raw)).1 = (e.registry.query e.limit raw).result := by
  unfold query
  generalize e.registry.query e.limit raw = outcome
  obtain ⟨saturated, fault | a⟩ := outcome <;> rfl

/-- The datasets of an engine that is reached are found by their own keys only. A dataset that is
added shows its rows by them, also after any requests about other ids: for each of its fields there
is one row for each that was given, in order, with the value that it was given, of which a number is
shown as the closest that the format has. Only if there are more rows than the limit they are not
shown. -/
theorem IsReachable.shows_added [Collator] [Converter] (h : e.IsReachable) :
    (∀ d, e.registry.get? d.id = some d → e.registry.OwnsKeys d) ∧
    ∀ (machine : Machine) (id : String) (kind : Kind) (rows : List Json) (e₁ : Engine)
        (machine₁ : Machine), machine.on (e.add id kind rows) = (.ok e₁, machine₁) →
      ∀ e₂, Follows id e₁ e₂ → ∀ f ∈ kind.fields,
        splitKey (keyOf id f.label) = some (id, f.label) ∧
        ∀ machine₂ : Machine, ShowsColumn e.limit kind f (keyOf id f.label) rows
          (machine₂.on (e₂.query (columnQuery (keyOf id f.label)))).1 := by
  refine ⟨fun d hd => Registry.ownsKeys (h.isValidId hd) hd, ?_⟩
  intro machine id kind rows e₁ machine₁ hadd e₂ hfollows f hf
  obtain ⟨hlimit, hvalid, d, hget, rfl, hrows⟩ := get?_of_add hadd
  obtain ⟨hget', hlimit'⟩ := hfollows.get?_eq
  refine ⟨splitKey_keyOf hvalid _, fun machine₂ => ?_⟩
  rw [on_query, hlimit', hlimit]
  exact Registry.showsColumn_query hvalid (hget'.trans hget) hrows (Kind.mem_fields.mp hf)

/-- A dataset with an odd id shows its seats after another one with an id that begins alike has been
added. -/
theorem shows_added_alike : ∃ e₁ machine₁ e₂ v,
    Machine.on {} (Engine.empty.add "a. é" .rooms [Session.hall]) = (.ok e₁, machine₁) ∧
      (machine₁.on (e₁.serve (.add "a." .rooms [Session.hall]))).1.2 = e₂ ∧
      e₂.registry.ids = ["a.", "a. é"] ∧
      splitKey "a. é_seats" = some ("a. é", "seats") ∧
      (machine₁.on (e₂.query (columnQuery "a. é_seats"))).1 =
        .ok ⟨[[("a. é_seats", v)]], 1, 1⟩ ∧ (Json.number (.integer 20)).ShownAs v := by
  have hrun : (match Machine.on {} (Engine.empty.add "a. é" .rooms [Session.hall]) with
      | (.ok e₁, machine₁) => decide ((machine₁.on
          (e₁.serve (.add "a." .rooms [Session.hall]))).1.2.registry.ids = ["a.", "a. é"])
      | (.error _, _) => false) = true := by decide +kernel
  rcases hadd : Machine.on {} (Engine.empty.add "a. é" .rooms [Session.hall]) with
    ⟨fault | e₁, machine₁⟩
  · rw [hadd] at hrun
    cases hrun
  · rw [hadd] at hrun
    have hother : (Request.add "a." .rooms [Session.hall]).id? ≠ some "a. é" := by decide
    obtain ⟨hsplit, hshows⟩ := IsReachable.empty.shows_added.2 _ _ _ _ _ _ hadd _
      (Follows.refl.served hother machine₁) .seats (by decide)
    obtain ⟨shown, hresult, hrows⟩ := (hshows machine₁).answered (by decide)
    obtain ⟨row, rest, ⟨given, v, hgiven, hv, rfl⟩, hrest, rfl⟩ :=
      List.forall₂_cons_left_iff.mp hrows
    obtain rfl := List.forall₂_nil_left_iff.mp hrest
    obtain rfl := Option.some.inj hgiven
    exact ⟨e₁, machine₁, _, v, rfl, rfl, of_decide_eq_true hrun, hsplit, hresult, hv⟩

/-- A section with an average that lies between two numbers of the format. -/
def unevenSection : Json :=
  .object [("dept", .string "cs"), ("id", .string "310"), ("instructor", .string ""),
    ("title", .string ""), ("uuid", .string "1"), ("avg", .number (.integer 9007199254740993)),
    ("pass", .number (.integer 0)), ("fail", .number (.integer 0)),
    ("audit", .number (.integer 0)), ("year", .number (.integer 2015))]

/-- The average is shown as another number than the one that was given. -/
theorem shows_added_uneven : ∃ e₁ machine₁,
    Machine.on {} (Engine.empty.add "a" .courses [unevenSection]) = (.ok e₁, machine₁) ∧
      unevenSection.given? .courses .avg = some (.number (.integer 9007199254740993)) ∧
      (machine₁.on (e₁.query (columnQuery "a_avg"))).1 =
        .ok ⟨[[("a_avg", .number (.integer 9007199254740992))]], 1, 1⟩ ∧
      (JsonNumber.integer 9007199254740992).value ≠
        (JsonNumber.integer 9007199254740993).value := by
  have hrun : (Machine.on {} (Engine.empty.add "a" .courses [unevenSection])).1.isOk = true := by
    decide +kernel
  rcases hadd : Machine.on {} (Engine.empty.add "a" .courses [unevenSection]) with
    ⟨fault | e₁, machine₁⟩
  · rw [hadd] at hrun
    cases hrun
  · obtain ⟨hlimit, hvalid, d, hget, hkind, hrows⟩ := get?_of_add hadd
    obtain ⟨r, rest, hr, hrest, hlist⟩ :=
      List.forall₂_cons_left_iff.mp (Archive.mapM_eq_ok_iff.mp hrows)
    obtain rfl := List.forall₂_nil_left_iff.mp hrest
    obtain ⟨given, x, hgiven, hx, hvalue⟩ := Record.exists_given?_of_ofJson (f := .avg) hr rfl
    obtain rfl := Option.some.inj hgiven
    obtain rfl := Except.ok.inj hx
    have hshown : Grouping.shown (r.get? .avg) = .number (.integer 9007199254740992) := by
      rw [hvalue]
      exact congrArg Json.number (by decide +kernel)
    have hsize : d.rows.size = 1 := congrArg List.length hlist
    have hresult := Registry.query_columnQuery e₁.limit hvalid hget (f := .avg) hkind.symm
    have hfits : ¬ e₁.limit < 1 := by
      rw [hlimit]
      decide
    rw [hsize, if_neg hfits, hlist, List.map_singleton, hshown] at hresult
    exact ⟨e₁, machine₁, rfl, rfl, (on_query ..).trans hresult, by decide +kernel⟩

end Engine

end CampusQuery
