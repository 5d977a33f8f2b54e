import Mathlib
import CampusQuery.Answer.Answer
import CampusQuery.Number.Exact
import CampusQuery.Proofs.Answer.Selection
import CampusQuery.Proofs.Query.Catalog
import CampusQuery.Proofs.Registry.History
import CampusQuery.Text.Collation

/-!
# What an answer depends on

A query reads the registry twice: for the kind of its dataset while its keys are resolved, and for
the dataset itself once it has a plan. The registry may change in between. A plan that was made
before still has the answer of the query now, since a dataset that has come back with the other kind
is refused on both ways; and datasets other than the one that is bound have no say at all.

* `Advances` — a query that is being answered while the registry changes.
* `Registry.execute_alike_query` — the outcome is that of a query asked at one instant.
* `Registry.query_eq_of_same_dataset` — the answer depends on the dataset that is bound.
-/

namespace CampusQuery

/-- Two results that are the same up to the wording of an error. -/
def AlikeUpToWording : Except QueryError Answer → Except QueryError Answer → Prop
  | .ok a, .ok b => a = b
  | .error e, .error e' => e.code = e'.code
  | _, _ => False

theorem AlikeUpToWording.refl (result : Except QueryError Answer) :
    AlikeUpToWording result result := by
  cases result <;> rfl

namespace Registry

section

variable {r r' before after : Registry} {limit : Nat} {raw : Json} {p : Plan}

theorem kindOf_eq_some_iff {id : String} {kind : Kind} :
    r.kindOf id = some kind ↔ ∃ d, r.get? id = some d ∧ d.kind = kind := by
  simp [kindOf]

variable [Collator] [Converter]

theorem query_of_ok (h : Plan.ofJson r.kindOf raw = .ok p) :
    r.query limit raw = r.execute limit p := by
  rw [query, h]

theorem query_of_error {cause : Malformed} (h : Plan.ofJson r.kindOf raw = .error cause) :
    r.query limit raw = ⟨[], .error (.malformed cause)⟩ := by
  rw [query, h]

theorem execute_of_otherKind {d : Dataset} (h : r.get? p.dataset = some d) (hne : d.kind ≠ p.kind) :
    r.execute limit p = ⟨[], .error (.malformed (.otherKind p.dataset d.kind))⟩ := by
  simp [execute, find, h, hne]

/-! ## The dataset that is bound -/

theorem query_congr
    (h : ∀ id, (Target.ofQuery r.kindOf raw).dataset = some id → r'.get? id = r.get? id) :
    r'.query limit raw = r.query limit raw := by
  have hread : Plan.ofJson r'.kindOf raw = Plan.ofJson r.kindOf raw :=
    ofJson_congr fun id hid => by rw [kindOf, kindOf, h id hid]
  cases hplan : Plan.ofJson r.kindOf raw with
  | error cause => rw [query_of_error hplan, query_of_error (hread.trans hplan)]
  | ok p =>
    have hget : r'.get? p.dataset = r.get? p.dataset := h _ (by rw [ofQuery_of_ofJson hplan]; rfl)
    rw [query_of_ok hplan, query_of_ok (hread.trans hplan), execute, execute, find, find, hget]

end

/-- The outcome of a query, be it an answer or any error, depends only on the dataset that its
reading leaves bound: it is the same with every registry that has the same dataset of this id, or
none like the first, and so whatever becomes of the other datasets. Where nothing is bound it is the
same with every registry. -/
theorem query_eq_of_same_dataset [Collator] [Converter] (r : Registry) (limit : Nat) (raw : Json) :
    (∀ r' : Registry,
      (∀ id, (Target.ofQuery r.kindOf raw).dataset = some id → r'.get? id = r.get? id) →
        r'.query limit raw = r.query limit raw) ∧
    (∀ r' : Registry,
      r.Reaches (fun id => (Target.ofQuery r.kindOf raw).dataset ≠ some id) r' →
        r'.query limit raw = r.query limit raw) ∧
    ((Target.ofQuery r.kindOf raw).dataset = none →
      ∀ r' : Registry, r'.query limit raw = r.query limit raw) := by
  refine ⟨fun r' h => query_congr h, fun r' hreaches => ?_, fun hnone r' => ?_⟩
  · exact query_congr fun id hid => hreaches.get?_eq fun hne => hne hid
  · refine query_congr fun id hid => ?_
    rw [hnone] at hid
    cases hid

/-- A room about which everything is blank. -/
def blankRoom : Record :=
  ⟨.rooms, [.text "", .text "", .text "", .text "", .text "", .number .zero, .number .zero,
    .number .zero, .text "", .text "", .text ""], rfl⟩

/-- A registry with one dataset, of one room. -/
def rooms : Registry :=
  ⟨[⟨"a", .rooms, #[blankRoom], ⟨0, 0, 0⟩⟩]⟩

/-- A query for the seats of the rooms of a dataset. -/
def seatsQuery (columns : List String) : Json :=
  .object [("WHERE", .object []), ("OPTIONS", .object [("COLUMNS", .array (columns.map .string))])]

/-- Another dataset that is added changes nothing about a query, not even where its key is the one
that is wrong. -/
theorem query_eq_of_same_dataset_added :
    let raw := seatsQuery ["a_seats", "b_dept"]
    let d : Dataset := ⟨"b", .courses, #[Filter.blankSection "cs"], ⟨0, 0, 0⟩⟩
    (Target.ofQuery rooms.kindOf raw).dataset = some "a" ∧
      rooms.Reaches (fun id => (Target.ofQuery rooms.kindOf raw).dataset ≠ some id)
        ⟨insert d rooms.datasets⟩ ∧
      (⟨insert d rooms.datasets⟩ : Registry).query 5 raw = rooms.query 5 raw ∧
      (rooms.query 5 raw).result = .error (.malformed (.otherDataset "a" "b")) := by
  intro raw d
  have hbound : (Target.ofQuery rooms.kindOf raw).dataset = some "a" := rfl
  have hadd : rooms.add d = .ok ⟨insert d rooms.datasets⟩ :=
    add_eq_ok_iff.mpr ⟨⟨by decide +kernel, rfl⟩, by simp [rooms, d], rfl⟩
  have hreaches : rooms.Reaches (fun id => (Target.ofQuery rooms.kindOf raw).dataset ≠ some id)
      ⟨insert d rooms.datasets⟩ :=
    Reaches.change .refl (by rw [hbound]; decide) (.added rfl hadd)
  exact ⟨hbound, hreaches, (query_eq_of_same_dataset rooms 5 raw).2.1 _ hreaches, rfl⟩

/-! ## Plans made before a change -/

section

variable [Collator] [Converter] {before after : Registry} {limit : Nat} {raw : Json} {p : Plan}

/-- A plan that was made with one registry has in another the result of its query there. -/
theorem execute_alike (h : Plan.ofJson before.kindOf raw = .ok p) :
    AlikeUpToWording (after.execute limit p).result (after.query limit raw).result := by
  rcases ofJson_of_ofJson h after.kindOf with ⟨hread, -⟩ | ⟨cause, kind, hread, hkind, hne⟩
  · rw [query_of_ok hread]
    exact .refl _
  · obtain ⟨d, hd, rfl⟩ := kindOf_eq_some_iff.mp hkind
    rw [query_of_error hread, execute_of_otherKind hd hne]
    exact rfl

/-- What becomes of a query that is read with one registry and looks its dataset up in another. -/
def queryAcross (before after : Registry) (limit : Nat) (raw : Json) : Outcome :=
  match Plan.ofJson before.kindOf raw with
  | .error cause => ⟨[], .error (.malformed cause)⟩
  | .ok p => after.execute limit p

theorem queryAcross_alike :
    AlikeUpToWording (before.queryAcross after limit raw).result (before.query limit raw).result ∨
      AlikeUpToWording (before.queryAcross after limit raw).result
        (after.query limit raw).result := by
  unfold queryAcross
  cases h : Plan.ofJson before.kindOf raw with
  | error cause =>
    rw [query_of_error h]
    exact .inl (.refl _)
  | ok p => exact .inr (execute_alike h)

end

/-- Any changes. -/
abbrev Evolves : Registry → Registry → Prop :=
  Reaches fun _ => True

end Registry

/-! ## Queries among changes -/

/-- How far a query has come. -/
inductive Stage where
  | asked
  | planned (p : Plan)
  | answered (result : Except QueryError Answer)

/-- One step of a registry with a query: the registry changes, or the query is read, with the kinds
that the datasets have now, or its plan is executed on the dataset that there is now. -/
inductive Advances [Collator] [Converter] (limit : Nat) (raw : Json) :
    Registry × Stage → Registry × Stage → Prop
  | changed {r r' : Registry} {stage : Stage} {id : String} : r.Changes id r' →
      Advances limit raw (r, stage) (r', stage)
  | rejected {r : Registry} {cause : Malformed} : Plan.ofJson r.kindOf raw = .error cause →
      Advances limit raw (r, .asked) (r, .answered (.error (.malformed cause)))
  | planned {r : Registry} {p : Plan} : Plan.ofJson r.kindOf raw = .ok p →
      Advances limit raw (r, .asked) (r, .planned p)
  | executed {r : Registry} {p : Plan} :
      Advances limit raw (r, .planned p) (r, .answered (r.execute limit p).result)

open Registry (Evolves)

section

variable [Collator] [Converter]

/-- Where a query has come from: an instant at which it was read, and then one at which its dataset
was looked up. -/
def Traced (start : Registry) (limit : Nat) (raw : Json) : Registry × Stage → Prop
  | (r, .asked) => Evolves start r
  | (r, .planned p) => ∃ before, Evolves start before ∧ Evolves before r ∧
      Plan.ofJson before.kindOf raw = .ok p
  | (r, .answered result) => ∃ before after, Evolves start before ∧ Evolves before after ∧
      Evolves after r ∧ result = (before.queryAcross after limit raw).result

theorem Traced.advance {start : Registry} {limit : Nat} {raw : Json} {s s' : Registry × Stage}
    (h : Traced start limit raw s) (hstep : Advances limit raw s s') :
    Traced start limit raw s' := by
  cases hstep with
  | @changed r r' stage id hchange =>
    cases stage with
    | asked => exact Registry.Reaches.change h trivial hchange
    | planned p =>
      obtain ⟨before, hstart, hbefore, hread⟩ := h
      exact ⟨before, hstart, hbefore.change trivial hchange, hread⟩
    | answered result =>
      obtain ⟨before, after, hstart, hbefore, hafter, hresult⟩ := h
      exact ⟨before, after, hstart, hbefore, hafter.change trivial hchange, hresult⟩
  | @rejected r cause hread => exact ⟨r, r, h, .refl, .refl, by rw [Registry.queryAcross, hread]⟩
  | @planned r p hread => exact ⟨r, h, .refl, hread⟩
  | @executed r p =>
    obtain ⟨before, hstart, hbefore, hread⟩ := h
    exact ⟨before, r, hstart, hbefore, .refl, by rw [Registry.queryAcross, hread]⟩

theorem traced_of_run {start : Registry} {limit : Nat} {raw : Json} {s : Registry × Stage}
    (h : Relation.ReflTransGen (Advances limit raw) (start, .asked) s) :
    Traced start limit raw s := by
  induction h with
  | refl => exact Relation.ReflTransGen.refl
  | tail _ hstep ih => exact ih.advance hstep

end

namespace Registry

/-- A plan that was made with one registry has in any other the result of its query there, up to the
wording of an error, and the rows of a dataset of another kind than the plan's are not looked at. So
however a registry changes while a query is being answered, the result is the one that the query
would have had at the instant at which it was read or at the one at which its dataset was looked
up. -/
theorem execute_alike_query [Collator] [Converter] :
    (∀ (before after : Registry) (limit : Nat) (raw : Json) (p : Plan),
      Plan.ofJson before.kindOf raw = .ok p →
        AlikeUpToWording (after.execute limit p).result (after.query limit raw).result ∧
        ∀ d, after.get? p.dataset = some d → d.kind ≠ p.kind →
          after.execute limit p = ⟨[], .error (.malformed (.otherKind p.dataset d.kind))⟩) ∧
    ∀ (start final : Registry) (limit : Nat) (raw : Json) (result : Except QueryError Answer),
      Relation.ReflTransGen (Advances limit raw) (start, .asked) (final, .answered result) →
        ∃ before after, Evolves start before ∧ Evolves before after ∧ Evolves after final ∧
          result = (before.queryAcross after limit raw).result ∧
          (AlikeUpToWording result (before.query limit raw).result ∨
            AlikeUpToWording result (after.query limit raw).result) := by
  refine ⟨fun before after limit raw p h => ⟨execute_alike h, fun d => execute_of_otherKind⟩, ?_⟩
  intro start final limit raw result hrun
  obtain ⟨before, after, hstart, hbefore, hafter, rfl⟩ := traced_of_run hrun
  exact ⟨before, after, hstart, hbefore, hafter, rfl, queryAcross_alike⟩

/-- A registry with one dataset, of one section. -/
def sections : Registry :=
  ⟨[⟨"a", .courses, #[Filter.blankSection "cs"], ⟨0, 0, 0⟩⟩]⟩

/-- A dataset is replaced by one of the other kind after a query about it has been read. -/
theorem execute_alike_query_replaced :
    let raw := seatsQuery ["a_seats"]
    let p : Plan := ⟨"a", .rooms, .all, none, [.field ⟨"a_seats", .seats⟩], none⟩
    let refused : Outcome := ⟨[], .error (.malformed (.otherKind "a" .courses))⟩
    Plan.ofJson rooms.kindOf raw = .ok p ∧
      AlikeUpToWording (sections.execute 5 p).result (sections.query 5 raw).result ∧
      sections.execute 5 p = refused ∧
      Relation.ReflTransGen (Advances 5 raw) (rooms, .asked) (sections, .answered refused.result) ∧
      ∃ before after, Evolves rooms before ∧ Evolves before after ∧ Evolves after sections ∧
        refused.result = (before.queryAcross after 5 raw).result ∧
        (AlikeUpToWording refused.result (before.query 5 raw).result ∨
          AlikeUpToWording refused.result (after.query 5 raw).result) := by
  intro raw p refused
  have hread : Plan.ofJson rooms.kindOf raw = .ok p := rfl
  have hremoved : rooms.Changes "a" .empty := .removed (d := rooms.datasets[0]) rfl
  have hadded : Registry.empty.Changes "a" sections :=
    .added (d := sections.datasets[0]) rfl rfl
  have hrun : Relation.ReflTransGen (Advances 5 raw) (rooms, .asked)
      (sections, .answered refused.result) :=
    (((Relation.ReflTransGen.refl.tail (.planned hread)).tail (.changed hremoved)).tail
      (.changed hadded)).tail .executed
  obtain ⟨halike, hrefused⟩ := execute_alike_query.1 rooms sections 5 raw p hread
  exact ⟨hread, halike, hrefused _ rfl (by decide), hrun,
    execute_alike_query.2 rooms sections 5 raw refused.result hrun⟩

end Registry

end CampusQuery
