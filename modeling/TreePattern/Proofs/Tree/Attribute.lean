import Mathlib.Data.List.Forall2
import TreePattern.Tree.View

namespace TreePattern

def Node.Has (n : Node) (name : String) (v : Value) : Prop :=
  ∃ field, n.fields.find? (fun field ↦ field.1 == name) = some field ∧ field.2.read = .ok v

variable {n c : Node} {name : String} {v : Value}

theorem exceptBind_eq_ok {ε α β : Type} {x : Except ε α} {f : α → Except ε β} {b : β} :
    x >>= f = .ok b ↔ ∃ a, x = .ok a ∧ f a = .ok b := by
  constructor
  · intro h
    cases x with
    | error e => cases h
    | ok a => exact ⟨a, rfl, h⟩
  · rintro ⟨a, rfl, h⟩
    exact h

theorem exceptBind_eq_error {ε α β : Type} {x : Except ε α} {f : α → Except ε β} {e : ε} :
    x >>= f = .error e ↔ x = .error e ∨ ∃ a, x = .ok a ∧ f a = .error e := by
  constructor
  · intro h
    cases x with
    | error e' =>
      cases h
      exact .inl rfl
    | ok a => exact .inr ⟨a, rfl, h⟩
  · rintro (rfl | ⟨a, rfl, h⟩)
    · rfl
    · exact h

theorem Field.nodeList_of_read {field : Field} (h : field.read = .ok v) :
    v.nodeList = field.nodeList := by
  cases field <;> cases h <;> rfl

theorem Field.exists_read_iff {field : Field} :
    (∃ v, field.read = .ok v) ↔ ∀ e, field ≠ .broken e := by
  cases field <;> simp [read]

theorem Node.Has.mem_children (h : n.Has name v) (hc : c ∈ v.nodeList) : c ∈ n.children := by
  obtain ⟨field, hf, hr⟩ := h
  rw [Field.nodeList_of_read hr] at hc
  exact List.mem_flatMap.mpr ⟨field, List.mem_of_find?_eq_some hf, hc⟩

theorem Node.Has.unique {w : Value} (h : n.Has name v) (h' : n.Has name w) : v = w := by
  obtain ⟨field, hf, hr⟩ := h
  obtain ⟨field', hf', hr'⟩ := h'
  rw [hf] at hf'
  cases hf'
  exact Except.ok.inj (hr.symm.trans hr')

theorem forall₂_of_mapM_read {fields : List (String × Field)} {found : List (String × Value)}
    (h : (fields.mapM fun field ↦ do return (field.1, ← field.2.read)) = .ok found) :
    List.Forall₂ (fun field entry ↦ entry.1 = field.1 ∧ field.2.read = .ok entry.2)
      fields found := by
  induction fields generalizing found with
  | nil =>
    cases h
    exact .nil
  | cons field rest ih =>
    rw [List.mapM_cons, exceptBind_eq_ok] at h
    obtain ⟨entry, he, h⟩ := h
    obtain ⟨others, hm, h⟩ := exceptBind_eq_ok.mp h
    cases h
    obtain ⟨v, hr, he⟩ := exceptBind_eq_ok.mp he
    cases he
    exact .cons ⟨rfl, hr⟩ (ih hm)

theorem find?_of_forall₂_read {fields : List (String × Field)} {found : List (String × Value)}
    (h : List.Forall₂ (fun field entry ↦ entry.1 = field.1 ∧ field.2.read = .ok entry.2)
      fields found) :
    (∃ field, fields.find? (fun field ↦ field.1 == name) = some field ∧ field.2.read = .ok v) ↔
      (found.find? fun entry ↦ entry.1 == name).map (·.2) = some v := by
  induction h with
  | nil => simp
  | @cons field entry rest others hfe _ ih =>
    rw [List.find?_cons, List.find?_cons, hfe.1]
    cases field.1 == name with
    | true => simp [hfe.2]
    | false => exact ih

theorem has_iff_of_keyed {found : Option Value} (h : View.keyed.lookup n name = .ok found) :
    n.Has name v ↔ found = some v := by
  unfold Node.Has
  unfold View.lookup at h
  dsimp only at h
  cases hf : n.fields.find? fun field ↦ field.1 == name with
  | none =>
    rw [hf] at h
    cases h
    simp
  | some field =>
    rw [hf] at h
    dsimp only at h
    cases hr : field.2.read with
    | error e =>
      rw [hr] at h
      cases h
    | ok w =>
      rw [hr] at h
      cases h
      simp [hr]

/-- A look-up that succeeds tells whether a node has an attribute, and what it holds. -/
theorem View.has_iff {view : View} {found : Option Value} (h : view.lookup n name = .ok found) :
    n.Has name v ↔ found = some v := by
  cases view with
  | scan =>
    obtain ⟨fields, hm, h⟩ := exceptBind_eq_ok.mp h
    cases h
    exact find?_of_forall₂_read (forall₂_of_mapM_read hm)
  | keyed | lenient => exact has_iff_of_keyed h

/-- All that can be asked of a node can be read. -/
structure View.Reads (view : View) (n : Node) : Prop where
  kind : ∃ kind, n.kind = .ok kind
  lookup : ∀ name, ∃ found, view.lookup n name = .ok found
  children : ∃ children, view.children n = .ok children

def Node.whole (n : Node) : Bool :=
  n.kind.isOk && n.fields.all fun field ↦ field.2.read.isOk

theorem exists_ok_of_isOk {ε α : Type} {x : Except ε α} (h : x.isOk) : ∃ a, x = .ok a := by
  cases x with
  | error e => cases h
  | ok a => exact ⟨a, rfl⟩

theorem exists_mapM_read {fields : List (String × Field)}
    (h : ∀ field ∈ fields, ∃ v, field.2.read = .ok v) :
    ∃ found : List (String × Value),
      (fields.mapM fun field ↦ do return (field.1, ← field.2.read)) = .ok found := by
  induction fields with
  | nil => exact ⟨[], rfl⟩
  | cons field rest ih =>
    obtain ⟨v, hv⟩ := h field List.mem_cons_self
    obtain ⟨others, ho⟩ := ih fun other hm ↦ h other (.tail _ hm)
    refine ⟨(field.1, v) :: others, ?_⟩
    rw [List.mapM_cons, hv, ho]
    rfl

namespace Node

def Readable (n : Node) : Prop :=
  ∀ field ∈ n.fields, ∃ v, field.2.read = .ok v

theorem readable_of_readFields {found : List (String × Value)} (h : n.readFields = .ok found) :
    n.Readable := by
  intro field hm
  have hread := forall₂_of_mapM_read h
  obtain ⟨i, hi, rfl⟩ := List.getElem_of_mem hm
  have hlt : i < found.length := hread.length_eq ▸ hi
  exact ⟨found[i].2, (List.forall₂_iff_get.mp hread).2 i hi hlt |>.2⟩

theorem Readable.exists_readFields (h : n.Readable) : ∃ found, n.readFields = .ok found :=
  exists_mapM_read h

theorem Readable.exists_lookup (h : n.Readable) (view : View) (name : String) :
    ∃ found, view.lookup n name = .ok found := by
  have hkeyed : ∃ found, View.keyed.lookup n name = .ok found := by
    unfold View.lookup
    dsimp only
    cases hm : n.fields.find? fun field ↦ field.1 == name with
    | none => exact ⟨none, rfl⟩
    | some field =>
      obtain ⟨v, hv⟩ := h field (List.mem_of_find?_eq_some hm)
      refine ⟨some v, ?_⟩
      dsimp only
      rw [hv]
      rfl
  cases view with
  | scan =>
    obtain ⟨fields, hf⟩ := h.exists_readFields
    exact ⟨_, by rw [View.lookup, hf]; rfl⟩
  | keyed | lenient => exact hkeyed

/-- All views find the same attributes of a node that can be read. -/
theorem Readable.lookup_eq (h : n.Readable) (view view' : View) (name : String) :
    view.lookup n name = view'.lookup n name := by
  obtain ⟨found, hf⟩ := h.exists_lookup view name
  obtain ⟨found', hf'⟩ := h.exists_lookup view' name
  have hsame : found = found' :=
    Option.ext fun v ↦ (View.has_iff hf).symm.trans (View.has_iff hf')
  rw [hf, hf', hsame]

theorem Readable.children_eq (h : n.Readable) (view : View) :
    view.children n = .ok n.children := by
  obtain ⟨fields, hf⟩ := h.exists_readFields
  cases view with
  | scan | keyed =>
    rw [View.children, hf]
    rfl
  | lenient => rfl

/-- A node without a broken part can be read in every view. -/
theorem reads_of_whole (h : n.whole) (view : View) : view.Reads n := by
  obtain ⟨hkind, hall⟩ := Bool.and_eq_true_iff.mp h
  have hread : n.Readable :=
    fun field hm ↦ exists_ok_of_isOk (List.all_eq_true.mp hall field hm)
  exact ⟨exists_ok_of_isOk hkind, hread.exists_lookup view, _, hread.children_eq view⟩

end Node

end TreePattern
