import TreePattern.Proofs.Cli.Inspection
import TreePattern.Proofs.Match.Collection
import TreePattern.Proofs.Pattern.Writing

namespace TreePattern

open Relation

namespace Find

mutual

def preorder : Find → List Find
  | ⟨node, id, origin, name, captures⟩ =>
    ⟨node, id, origin, name, captures⟩ :: capturesPreorder captures

def capturesPreorder : Groups Find → List Find
  | ⟨groups⟩ => groupsPreorder groups

def groupsPreorder : List (String × List Find) → List Find
  | [] => []
  | (_, finds) :: rest => listPreorder finds ++ groupsPreorder rest

def listPreorder : List Find → List Find
  | [] => []
  | f :: rest => preorder f ++ listPreorder rest

end

end Find

namespace Json

def isResult (members : List (String × Json)) : Bool :=
  match member? members "kind" with
  | some (.string _) => true
  | _ => false

mutual

def results : Json → List Json
  | .object members =>
    (if isResult members then [.object members] else []) ++ membersResults members
  | .array items => itemsResults items
  | .null | .bool _ | .number _ | .string _ => []

def itemsResults : List Json → List Json
  | [] => []
  | item :: rest => results item ++ itemsResults rest

def membersResults : List (String × Json) → List Json
  | [] => []
  | (_, value) :: rest => results value ++ membersResults rest

end

end Json

namespace Cli

namespace Record

mutual

def plain : Record → Record
  | ⟨capture, kind, rule, _, captures⟩ => ⟨capture, kind, rule, none, capturesPlain captures⟩

def capturesPlain : Groups Record → Groups Record
  | ⟨groups⟩ => ⟨groupsPlain groups⟩

def groupsPlain : List (String × List Record) → List (String × List Record)
  | [] => []
  | (name, records) :: rest => (name, listPlain records) :: groupsPlain rest

def listPlain : List Record → List Record
  | [] => []
  | r :: rest => plain r :: listPlain rest

end

def captureOfJson? : Json → Option (Option String)
  | .null => some none
  | .string name => some (some name)
  | _ => none

mutual

/-- The record for which an object stands. Captures with a repeated key cannot be read. -/
def ofJson? : Json → Option Record
  | .object
      [(first, capture), (second, .string kind), (third, .string rule), (last, .object members)] =>
    if [first, second, third, last] = ["capture", "kind", "rule", "captures"] ∧
        (members.map (·.1)).Nodup then do
      let name ← captureOfJson? capture
      let groups ← groupsOfJson? members
      return ⟨name, kind, rule, none, ⟨groups⟩⟩
    else none
  | _ => none

def groupsOfJson? : List (String × Json) → Option (List (String × List Record))
  | [] => some []
  | (name, .array items) :: rest => do
    let records ← listOfJson? items
    return (name, records) :: (← groupsOfJson? rest)
  | _ => none

def listOfJson? : List Json → Option (List Record)
  | [] => some []
  | item :: rest => do
    let record ← ofJson? item
    return record :: (← listOfJson? rest)

end

end Record

def resultMembers (capture : Option String) (kind rule : String) (captures : List (String × Json)) :
    List (String × Json) :=
  [("capture", match capture with | some name => .string name | none => .null),
    ("kind", .string kind), ("rule", .string rule), ("captures", .object captures)]

/-- A group as a member of an object: its name, and what its finds are in order. -/
inductive Files (R : Find → Json → Prop) : String × List Find → String × Json → Prop
  | mk {name : String} {finds : List Find} {items : List Json} :
      List.Forall₂ R finds items → Files R (name, finds) (name, .array items)

/-- An object stands for a find, with the groups of its captures in order and all finds in them. -/
inductive Documents : Find → Json → Prop
  | mk {f : Find} {kind : String} {members : List (String × Json)} :
      f.node.kind = .ok kind → List.Forall₂ (Files Documents) f.captures.groups members →
      Documents f (.object (resultMembers f.name kind f.origin.rule.describe members))

section Documents

variable {P R : Find → Json → Prop} {f : Find} {x : Json} {groups : List (String × List Find)}
  {members : List (String × Json)} {view : View}

mutual

theorem documents_ofFind : (f : Find) → ∀ r, Record.ofFind view f = .ok r → Documents f r.toJson
  | ⟨node, id, origin, name, captures⟩, r, h => by
    rw [Record.ofFind] at h
    obtain ⟨below, hbelow, h⟩ := exceptBind_eq_ok.mp h
    obtain ⟨kind, hkind, h⟩ := exceptBind_eq_ok.mp h
    -- Whatever the summary is, it is no part of the object.
    obtain ⟨summary, -, h⟩ := exceptBind_eq_ok.mp h
    cases h
    exact .mk hkind (documents_ofCaptures captures below hbelow)

theorem documents_ofCaptures : (captures : Captures) → ∀ below,
    Record.ofCaptures view captures = .ok below →
    List.Forall₂ (Files Documents) captures.groups (Record.capturesJson below)
  | ⟨groups⟩, below, h => by
    rw [Record.ofCaptures] at h
    obtain ⟨records, hrecords, h⟩ := exceptBind_eq_ok.mp h
    cases h
    exact documents_ofGroups groups records hrecords

theorem documents_ofGroups : (groups : List (String × List Find)) → ∀ records,
    Record.ofGroups view groups = .ok records →
    List.Forall₂ (Files Documents) groups (Record.groupsJson records)
  | [], _, h => by
    cases h
    exact .nil
  | (name, finds) :: rest, records, h => by
    rw [Record.ofGroups] at h
    obtain ⟨first, hfirst, h⟩ := exceptBind_eq_ok.mp h
    obtain ⟨others, hothers, h⟩ := exceptBind_eq_ok.mp h
    cases h
    exact .cons (.mk (documents_ofFinds finds first hfirst))
      (documents_ofGroups rest others hothers)

/-- The objects of records stand for the finds from which the records were made. -/
theorem documents_ofFinds : (finds : List Find) → ∀ records,
    Record.ofFinds view finds = .ok records →
    List.Forall₂ Documents finds (Record.listJson records)
  | [], _, h => by
    cases h
    exact .nil
  | f :: rest, records, h => by
    rw [Record.ofFinds] at h
    obtain ⟨first, hfirst, h⟩ := exceptBind_eq_ok.mp h
    obtain ⟨others, hothers, h⟩ := exceptBind_eq_ok.mp h
    cases h
    exact .cons (documents_ofFind f first hfirst) (documents_ofFinds rest others hothers)

end

/-- What holds of a find and its object if it holds of everything right below holds of all. -/
theorem Documents.induction
    (h : ∀ (f : Find) kind members, f.node.kind = .ok kind →
      List.Forall₂ (Files P) f.captures.groups members →
      P f (.object (resultMembers f.name kind f.origin.rule.describe members)))
    (hd : Documents f x) : P f x := by
  -- The induction is on the document. The object of a find below stands in a list, the list in the
  -- captures object, and that in the object at hand.
  induction x using Json.extent_induction generalizing f with
  | _ x ih =>
    cases hd with
    | @mk _ kind members hkind hmembers =>
      refine h f kind members hkind
        (forall₂_imp_of_mem_right hmembers fun group entry he hfiles ↦ ?_)
      cases hfiles with
      | @mk name finds items hitems =>
        refine .mk (forall₂_imp_of_mem_right hitems fun g item hi hg ↦ ih item ?_ hg)
        have hitem : item ∈ (Json.array items).parts := hi
        have harray : Json.array items ∈ (Json.object members).parts := Json.mem_parts_of_mem he
        have hobject : Json.object members ∈ (Json.object
            (resultMembers f.name kind f.origin.rule.describe members)).parts := by
          simp [resultMembers, Json.parts]
        have hlt := Json.extent_lt_of_mem_parts hitem
        have hlt' := Json.extent_lt_of_mem_parts harray
        have hlt'' := Json.extent_lt_of_mem_parts hobject
        omega

theorem Files.imp {S : Find → Json → Prop} (h : ∀ g x, R g x → S g x) {group : String × List Find}
    {entry : String × Json} (hf : Files R group entry) : Files S group entry := by
  cases hf with
  | mk hitems => exact .mk (hitems.imp h)

theorem keys_of_files (h : List.Forall₂ (Files R) groups members) :
    members.map (·.1) = groups.map (·.1) := by
  induction h with
  | nil => rfl
  | cons hfirst _ ih =>
    cases hfirst
    rw [List.map_cons, List.map_cons, ih]

/-- Since the captures of a find are filed, no key comes twice. -/
theorem Documents.proper (hd : Documents f x) : f.Sorted → x.Proper := by
  refine hd.induction (P := fun f x ↦ f.Sorted → x.Proper) fun f kind members _ hmembers hf ↦ ?_
  obtain ⟨hfiled, hbelow⟩ := Find.sorted_iff.mp hf
  have hstring (s : String) : (Json.string s).Proper :=
    Json.proper_iff.mpr ⟨trivial, by simp [Json.parts]⟩
  have hcaptures : (Json.object members).Proper := by
    refine Json.proper_iff.mpr ⟨?_, fun value hvalue ↦ ?_⟩
    · rw [Json.Tidy, keys_of_files hmembers]
      exact hfiled.nodup
    · obtain ⟨entry, he, rfl⟩ := List.mem_map.mp hvalue
      obtain ⟨group, hg, hfiles⟩ := exists_of_forall₂_mem_right hmembers he
      cases hfiles with
      | @mk name finds items hitems =>
        refine Json.proper_iff.mpr ⟨trivial, fun item hi ↦ ?_⟩
        obtain ⟨g, hm, hproper⟩ := exists_of_forall₂_mem_right hitems hi
        exact hproper (hbelow g ⟨_, hg, hm⟩)
  refine Json.proper_iff.mpr ⟨by simp [Json.Tidy, resultMembers], fun value hvalue ↦ ?_⟩
  simp only [Json.parts, resultMembers, List.map_cons, List.map_nil, List.mem_cons,
    List.not_mem_nil, or_false] at hvalue
  rcases hvalue with rfl | rfl | rfl | rfl
  · cases f.name with
    | none => exact Json.proper_iff.mpr ⟨trivial, by simp [Json.parts]⟩
    | some name => exact hstring name
  · exact hstring kind
  · exact hstring _
  · exact hcaptures

theorem not_isResult_of_files (h : List.Forall₂ (Files R) groups members) :
    Json.isResult members = false := by
  -- A group may have the name `kind`, but it is a list and not a text.
  rw [Json.isResult]
  cases hfind : Json.member? members "kind" with
  | none => rfl
  | some value =>
    obtain ⟨group, -, hfiles⟩ := exists_of_forall₂_mem_right h (Json.mem_of_member? hfind)
    cases hfiles
    rfl

theorem results_resultMembers (capture : Option String) (kind rule : String)
    (h : List.Forall₂ (Files R) groups members) :
    (Json.object (resultMembers capture kind rule members)).results =
      .object (resultMembers capture kind rule members) :: Json.membersResults members := by
  have hresult : Json.isResult (resultMembers capture kind rule members) = true := rfl
  rw [Json.results, hresult]
  cases capture <;>
    simp [resultMembers, Json.membersResults, Json.results, not_isResult_of_files h]

theorem results_of_items {finds : List Find} {items : List Json}
    (h : List.Forall₂ (fun g x ↦ List.Forall₂ R g.preorder x.results) finds items) :
    List.Forall₂ R (Find.listPreorder finds) (Json.itemsResults items) := by
  induction h with
  | nil => exact .nil
  | cons hfirst _ ih => exact List.rel_append hfirst ih

theorem results_of_files
    (h : List.Forall₂ (Files fun g x ↦ List.Forall₂ R g.preorder x.results) groups members) :
    List.Forall₂ R (Find.groupsPreorder groups) (Json.membersResults members) := by
  induction h with
  | nil => exact .nil
  | cons hfirst _ ih =>
    cases hfirst with
    | mk hitems => exact List.rel_append (results_of_items hitems) ih

/-- The objects of results at all depths stand for the finds at all depths, in pre-order. -/
theorem Documents.results (hd : Documents f x) : List.Forall₂ Documents f.preorder x.results := by
  -- The first object of each list is the whole document, so what it stands for is carried along.
  have hboth : Documents f x ∧ List.Forall₂ Documents f.preorder x.results := by
    refine hd.induction (P := fun f x ↦ Documents f x ∧ List.Forall₂ Documents f.preorder x.results)
      fun f kind members hkind hmembers ↦ ?_
    have hobject : Documents f
        (.object (resultMembers f.name kind f.origin.rule.describe members)) :=
      .mk hkind (hmembers.imp fun _ _ ↦ Files.imp fun _ _ hg ↦ hg.1)
    have hbelow := results_of_files (hmembers.imp fun _ _ ↦ Files.imp fun _ _ hg ↦ hg.2)
    refine ⟨hobject, ?_⟩
    obtain ⟨node, id, origin, name, ⟨groups⟩⟩ := f
    rw [results_resultMembers _ _ _ hmembers]
    exact .cons hobject hbelow
  exact hboth.2

end Documents

namespace Record

theorem toJson_mk (capture : Option String) (kind rule : String) (summary : Option String)
    (captures : Groups Record) :
    toJson ⟨capture, kind, rule, summary, captures⟩ =
      .object (resultMembers capture kind rule (capturesJson captures)) := by
  cases capture <;> rfl

theorem ofJson?_resultMembers (capture : Option String) (kind rule : String)
    {members : List (String × Json)} (h : (members.map (·.1)).Nodup) :
    ofJson? (.object (resultMembers capture kind rule members)) =
      (groupsOfJson? members).map fun groups ↦ ⟨capture, kind, rule, none, ⟨groups⟩⟩ := by
  cases capture <;> rw [resultMembers, ofJson?, if_pos ⟨rfl, h⟩] <;>
    cases groupsOfJson? members <;> rfl

mutual

theorem ofJson?_toJson : (r : Record) → r.toJson.Proper → ofJson? r.toJson = some r.plain
  | ⟨capture, kind, rule, summary, ⟨groups⟩⟩, h => by
    rw [toJson_mk] at h ⊢
    obtain ⟨-, hparts⟩ := Json.proper_iff.mp h
    have hgroups : (Json.object (groupsJson groups)).Proper :=
      hparts _ (by simp [Json.parts, resultMembers, capturesJson])
    obtain ⟨hdistinct, hvalues⟩ := Json.proper_iff.mp hgroups
    rw [capturesJson, ofJson?_resultMembers capture kind rule hdistinct,
      groupsOfJson?_groupsJson groups hvalues, plain, capturesPlain, Option.map_some]

theorem groupsOfJson?_groupsJson : (groups : List (String × List Record)) →
    (∀ value ∈ (Json.object (groupsJson groups)).parts, value.Proper) →
    groupsOfJson? (groupsJson groups) = some (groupsPlain groups)
  | [], _ => rfl
  | (name, records) :: rest, h => by
    obtain ⟨hfirst, hrest⟩ := List.forall_mem_cons.mp h
    rw [groupsJson, groupsOfJson?, listOfJson?_listJson records (Json.proper_iff.mp hfirst).2,
      groupsOfJson?_groupsJson rest hrest, groupsPlain]
    rfl

/-- What is read back from the objects of records are these records, without their summaries. -/
theorem listOfJson?_listJson : (records : List Record) → (∀ item ∈ listJson records, item.Proper) →
    listOfJson? (listJson records) = some (listPlain records)
  | [], _ => rfl
  | r :: rest, h => by
    obtain ⟨hfirst, hrest⟩ := List.forall_mem_cons.mp h
    rw [listJson, listOfJson?, ofJson?_toJson r hfirst, listOfJson?_listJson rest hrest, listPlain]
    rfl

end

theorem listPlain_eq (records : List Record) : listPlain records = records.map plain := by
  induction records with
  | nil => rfl
  | cons r rest ih => rw [listPlain, ih, List.map_cons]

end Record

end Cli

section Collected

variable {p : Pattern} {engine : Engine} {tree : SyntaxTree} {found : Matches} {f : Find}

/-- What was captured at a find is what its rule brings there. The constraints of a literal bring
finds, which the captures hold by name: the names in the order in which they come first, and under
each name the finds in the order in which they come. A search captures nothing. -/
structure Find.Collected (hp : p.Sound) (view : View) (f : Find) : Prop where
  literal : ∀ rule, f.origin.rule = .literal rule → ∃ subs,
    p.GathersAll hp view f.node rule.attributes subs ∧ f.captures.Collects subs
  search : ∀ rule, f.origin.rule = .search rule → f.captures = .empty

theorem Find.Grounded.collected (hp : p.Sound) {view : View}
    (h : f.Grounded ⟨view, p, none, false⟩) : f.Collected hp view where
  literal rule hr := by
    let s : Setting := ⟨view, p, none, false⟩
    have hliteral := (Setting.literal_collects (s := s) hp h.stored hr f.node).of_ok
      (Prod.ext (h.literal rule hr .zero) rfl)
    obtain ⟨subs, hsubs, hcollects⟩ := hliteral _ (List.mem_singleton_self _)
    exact ⟨subs, hsubs, hcollects⟩
  search rule hr := (h.search rule hr).2.1

theorem Engine.execute_collects (hp : p.Sound) (h : engine.execute tree p = .ok found) :
    ∀ f ∈ found.finds, f.Throughout fun g ↦ g.Collected hp tree.view := by
  obtain ⟨finds, tally, hrun, rfl⟩ := Engine.execute_eq_ok.mp h
  intro f hf g hg
  let s := engine.setting false tree.view p
  have hrooted := (Setting.findAt_rooted (s := s) hp hp.nonempty [tree.root]).of_ok hrun f hf
  exact (hrooted g hg).collected hp

mutual

theorem Find.mem_preorder : (f : Find) → ∀ g ∈ f.preorder, ReflTransGen Find.Captured f g
  | ⟨node, id, origin, name, ⟨groups⟩⟩, g, hg => by
    rw [preorder, capturesPreorder] at hg
    rcases List.mem_cons.mp hg with rfl | hg
    · exact .refl
    · obtain ⟨group, hgroup, x, hx, hg⟩ := mem_groupsPreorder groups g hg
      exact .head ⟨group, hgroup, hx⟩ hg

theorem Find.mem_groupsPreorder : (groups : List (String × List Find)) →
    ∀ g ∈ groupsPreorder groups, ∃ group ∈ groups, ∃ f ∈ group.2, ReflTransGen Find.Captured f g
  | [], g, hg => by cases hg
  | (name, finds) :: rest, g, hg => by
    rw [groupsPreorder] at hg
    rcases List.mem_append.mp hg with hg | hg
    · exact ⟨_, List.mem_cons_self, mem_listPreorder finds g hg⟩
    · obtain ⟨group, hgroup, hg⟩ := mem_groupsPreorder rest g hg
      exact ⟨group, .tail _ hgroup, hg⟩

theorem Find.mem_listPreorder : (finds : List Find) →
    ∀ g ∈ listPreorder finds, ∃ f ∈ finds, ReflTransGen Find.Captured f g
  | [], g, hg => by cases hg
  | f :: rest, g, hg => by
    rw [listPreorder] at hg
    rcases List.mem_append.mp hg with hg | hg
    · exact ⟨f, List.mem_cons_self, mem_preorder f g hg⟩
    · obtain ⟨x, hx, hg⟩ := mem_listPreorder rest g hg
      exact ⟨x, .tail _ hx, hg⟩

end

end Collected

namespace Cli

/-- The JSON document of a match has an object for each find, in order, and the objects inside of
it stand for the finds below. All objects of results taken together, at all depths and in the order
of the document, stand for the finds at all depths. The groups of each are in the order in which
their names come first among what was captured there, and have all finds of that name in the order
in which these come. No object has a key twice. So everything but the summaries can be read back
from the document, and two matches with the same document have the same records up to these. -/
theorem render_lossless {raw : RawPattern} {p : Pattern} (compiled : raw.compile = .ok p)
    {engine : Engine} {tree : SyntaxTree} {found : Matches} (h : engine.execute tree p = .ok found)
    {view : View} {records : List Record} (hr : Record.ofFinds view found.finds = .ok records) :
    let objects := Record.listJson records
    let document := Json.array objects
    (∀ out : Sink, out.room = none → render .json records out =
      ({ out with written := out.written ++ Sink.bytesOf (document.pretty 0 ++ "\n") }, .ok ())) ∧
    List.Forall₂ Documents found.finds objects ∧
    List.Forall₂
      (fun g object ↦ g.Collected (RawPattern.compile_sound compiled) tree.view ∧
        Documents g object)
      (Find.listPreorder found.finds) document.results ∧
    document.results.length = (Find.listPreorder found.finds).length ∧
    (∀ members, document.Contains (.object members) → (members.map (·.1)).Nodup) ∧
    Record.listOfJson? objects = some (records.map Record.plain) ∧
    ∀ others, Record.listJson others = objects →
      others.map Record.plain = records.map Record.plain := by
  intro objects document
  have hsorted : ∀ f ∈ found.finds, f.Sorted := Engine.execute_keeps p.invariant_sorted h
  have hcollected := Engine.execute_collects (RawPattern.compile_sound compiled) h
  have hdocuments : List.Forall₂ Documents found.finds objects :=
    documents_ofFinds found.finds records hr
  have hproper : ∀ object ∈ objects, object.Proper := by
    intro object ho
    obtain ⟨f, hf, hd⟩ := exists_of_forall₂_mem_right hdocuments ho
    exact hd.proper (hsorted f hf)
  have hresults : List.Forall₂ Documents (Find.listPreorder found.finds) document.results :=
    results_of_items (hdocuments.imp fun _ _ hd ↦ hd.results)
  -- Any records with this document can be read from it, whether or not a match has found them:
  -- whether a key comes twice is seen in the document.
  have hread (others : List Record) (ho : Record.listJson others = objects) :
      Record.listOfJson? objects = some (others.map Record.plain) := by
    rw [← ho] at hproper ⊢
    rw [Record.listOfJson?_listJson others hproper, Record.listPlain_eq]
  refine ⟨fun out hout ↦ ?_, hdocuments, ?_, hresults.length_eq.symm, fun members hm ↦ ?_,
    hread records rfl, fun others ho ↦ ?_⟩
  · rw [render_endless .json records hout, OutputFormat.texts, ← Sink.bytesOf_join, Record.jsonText]
    rfl
  · refine (List.forall₂_and_left _ _).mpr ⟨fun g hg ↦ ?_, hresults⟩
    obtain ⟨f, hf, hg⟩ := Find.mem_listPreorder found.finds g hg
    exact hcollected f hf g hg
  · have hdocument : document.Proper := Json.proper_iff.mpr ⟨trivial, hproper⟩
    exact hdocument _ hm
  · exact Option.some.inj ((hread others ho).symm.trans (hread records rfl))

end Cli

namespace Sample

open Cli

def readingRecord : Record :=
  ⟨some "call", "CallExpr", "CallExpr", none, ⟨[("argument", [
    ⟨some "argument", "BasicLit", "BasicLit", some "Value=a", ⟨[]⟩⟩,
    ⟨some "argument", "BasicLit", "BasicLit", some "Value=b", ⟨[]⟩⟩])]⟩⟩

end Sample

namespace Cli

open Sample

theorem render_lossless_reading :
    ∃ found, nestedPattern.compile = .ok nestedRules ∧
      Engine.execute ⟨some 3⟩ readingTree nestedRules = .ok found ∧
      Record.ofFinds .keyed found.finds = .ok [readingRecord] ∧
      (Json.array (Record.listJson [readingRecord])).results.length = 3 ∧
      (Find.listPreorder found.finds).length = 3 ∧
      Record.listOfJson? (Record.listJson [readingRecord]) = some [readingRecord.plain] := by
  have hrun : ∃ found, Engine.execute ⟨some 3⟩ readingTree nestedRules = .ok found ∧
      Record.ofFinds .keyed found.finds = .ok [readingRecord] ∧
      (Find.listPreorder found.finds).length = 3 := by
    refine ⟨_, rfl, ?_, ?_⟩
    · rfl
    · rfl
  obtain ⟨found, hfound, hrecords, hlength⟩ := hrun
  obtain ⟨-, -, -, hresults, -, hread, -⟩ :=
    render_lossless compile_nestedPattern hfound hrecords
  exact ⟨found, compile_nestedPattern, hfound, hrecords, hresults.trans hlength, hlength, hread⟩

end Cli

end TreePattern
