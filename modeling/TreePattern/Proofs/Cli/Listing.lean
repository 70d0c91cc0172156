import TreePattern.Proofs.Cli.Inspection

namespace TreePattern

namespace Cli

namespace Record

mutual

def preorder (depth : ℕ) : Record → List (ℕ × Record)
  | ⟨capture, kind, rule, summary, captures⟩ =>
    (depth, ⟨capture, kind, rule, summary, captures⟩) :: capturesPreorder (depth + 1) captures

def capturesPreorder (depth : ℕ) : Groups Record → List (ℕ × Record)
  | ⟨groups⟩ => groupsPreorder depth groups

def groupsPreorder (depth : ℕ) : List (String × List Record) → List (ℕ × Record)
  | [] => []
  | (_, records) :: rest => listPreorder depth records ++ groupsPreorder depth rest

def listPreorder (depth : ℕ) : List Record → List (ℕ × Record)
  | [] => []
  | r :: rest => preorder depth r ++ listPreorder depth rest

end

/-- What the line of a record shows: its name or a dash, its kind and, if there is one, its
summary. -/
def words (r : Record) : List String :=
  [r.capture.getD "-", r.kind] ++ r.summary.toList

variable (depth : ℕ) (r : Record) (records : List Record)

theorem listPreorder_eq : listPreorder depth records = records.flatMap (preorder depth) := by
  induction records with
  | nil => rfl
  | cons r rest ih => rw [listPreorder, ih, List.flatMap_cons]

theorem groupsPreorder_eq (groups : List (String × List Record)) :
    groupsPreorder depth groups = (groups.flatMap (·.2)).flatMap (preorder depth) := by
  induction groups with
  | nil => rfl
  | cons group rest ih =>
    rw [groupsPreorder, ih, listPreorder_eq, List.flatMap_cons, List.flatMap_append]

theorem preorder_eq : r.preorder depth = (depth, r) :: r.inner.flatMap (preorder (depth + 1)) := by
  obtain ⟨capture, kind, rule, summary, ⟨groups⟩⟩ := r
  rw [preorder, capturesPreorder, groupsPreorder_eq, inner]

theorem list_eq (stack : List (ℕ × Record)) (listed : List String) :
    list stack listed = listed.reverse ++
      (stack.flatMap fun entry ↦ entry.2.preorder entry.1).map
        fun entry ↦ entry.2.line entry.1 := by
  -- What takes the place of a record on the stack is what comes next in its pre-order.
  fun_induction list stack listed with
  | case1 listed => simp
  | case2 listed depth r rest ih =>
    rw [ih, pushInner_eq, List.flatMap_append, List.flatMap_map, List.flatMap_cons, preorder_eq]
    simp

theorem lines_eq (h : records ≠ []) :
    lines records = (listPreorder 0 records).map fun entry ↦ entry.2.line entry.1 := by
  rw [lines, if_neg (by simpa using h), list_eq, push_eq, List.append_nil, List.flatMap_map,
    listPreorder_eq]
  rfl

mutual

theorem length_preorder (depth : ℕ) : (r : Record) → (r.preorder depth).length = r.weight
  | ⟨capture, kind, rule, summary, captures⟩ => by
    rw [preorder, List.length_cons, length_capturesPreorder, weight]

theorem length_capturesPreorder (depth : ℕ) : (captures : Groups Record) →
    (capturesPreorder depth captures).length = capturesWeight captures
  | ⟨groups⟩ => by rw [capturesPreorder, length_groupsPreorder, capturesWeight]

theorem length_groupsPreorder (depth : ℕ) : (groups : List (String × List Record)) →
    (groupsPreorder depth groups).length = groupsWeight groups
  | [] => rfl
  | (name, records) :: rest => by
    rw [groupsPreorder, List.length_append, length_listPreorder, length_groupsPreorder,
      groupsWeight]

/-- Every record is listed once, whatever its depth. -/
theorem length_listPreorder (depth : ℕ) : (records : List Record) →
    (listPreorder depth records).length = listWeight records
  | [] => rfl
  | r :: rest => by
    rw [listPreorder, List.length_append, length_preorder, length_listPreorder, listWeight]

end

theorem toList_pushn (s : String) (c : Char) (n : ℕ) :
    (s.pushn c n).toList = s.toList ++ List.replicate n c := by
  induction n with
  | zero => simp [String.pushn, Nat.repeat]
  | succ n ih =>
    rw [String.pushn] at ih ⊢
    rw [Nat.repeat, String.toList_push, ih, List.replicate_succ', List.append_assoc]

theorem toList_indentation : (Json.indentation depth).toList = List.replicate (2 * depth) ' ' :=
  toList_pushn "" ' ' (2 * depth)

/-- A line has two blanks for every level, and then the words, with a blank between them. -/
theorem line_eq : (r.line depth).toList =
    List.replicate (2 * depth) ' ' ++ (String.intercalate " " r.words ++ "\n").toList := by
  obtain ⟨capture, kind, rule, _ | summary, captures⟩ := r
  · simp [line, words, toList_indentation, String.intercalate_cons_cons]
  · simp [line, words, toList_indentation, String.intercalate_cons_cons]

theorem count_line (h : ∀ word ∈ r.words, '\n' ∉ word.toList) :
    (r.line depth).toList.count '\n' = 1 := by
  have hindentation : (List.replicate (2 * depth) ' ').count '\n' = 0 :=
    List.count_eq_zero.mpr fun hm ↦ absurd (List.eq_of_mem_replicate hm) (by decide)
  have hword : ∀ word ∈ r.words, word.toList.count '\n' = 0 :=
    fun word hw ↦ List.count_eq_zero.mpr (h word hw)
  rw [line_eq, List.count_append, hindentation]
  obtain ⟨capture, kind, rule, _ | summary, captures⟩ := r
  · simp_all [words, String.intercalate_cons_cons]
  · simp_all [words, String.intercalate_cons_cons]

theorem count_join {entries : List (ℕ × Record)}
    (h : ∀ entry ∈ entries, ∀ word ∈ entry.2.words, '\n' ∉ word.toList) :
    (String.join (entries.map fun entry ↦ entry.2.line entry.1)).toList.count '\n' =
      entries.length := by
  induction entries with
  | nil => rfl
  | cons entry rest ih =>
    rw [List.map_cons, String.join_cons, String.toList_append, List.count_append,
      count_line entry.1 entry.2 (h entry List.mem_cons_self),
      ih fun other ho ↦ h other (.tail _ ho), List.length_cons, Nat.add_comm]

end Record

/-- What is written for a reader is the listing of the records in pre-order: a record, then group
by group what was captured below it. Every record has its line, which starts two blanks further to
the right for every level. Unless a word of a line holds a line end itself, there are as many lines
as records, at all depths together. -/
theorem render_lists {records : List Record} {out : Sink} (h : records ≠ [])
    (hr : out.room = none) :
    let listed := Record.listPreorder 0 records
    let text := String.join (listed.map fun entry ↦ entry.2.line entry.1)
    render .human records out = ({ out with written := out.written ++ Sink.bytesOf text }, .ok ()) ∧
      (∀ depth (r : Record), (r.line depth).toList =
        List.replicate (2 * depth) ' ' ++ (String.intercalate " " r.words ++ "\n").toList) ∧
      ((∀ entry ∈ listed, ∀ word ∈ entry.2.words, '\n' ∉ word.toList) →
        text.toList.count '\n' = Record.listWeight records) := by
  intro listed text
  refine ⟨?_, Record.line_eq, fun hwords ↦ ?_⟩
  · rw [render_endless .human records hr, OutputFormat.texts, Record.lines_eq records h,
      ← Sink.bytesOf_join]
  · rw [Record.count_join hwords, Record.length_listPreorder]

end Cli

namespace Sample

open Cli

def callRecord : Record :=
  ⟨none, "CallExpr", "CallExpr", none, ⟨[
    ("callee", [⟨some "callee", "Ident", "Ident", some "Name=print", ⟨[]⟩⟩]),
    ("argument", [
      ⟨some "argument", "BasicLit", "*", some "Value=1", ⟨[]⟩⟩,
      ⟨some "argument", "CallExpr", "*", none, ⟨[
        ("inner", [⟨some "inner", "BasicLit", "BasicLit", some "Value=2", ⟨[]⟩⟩])]⟩⟩])]⟩⟩

end Sample

namespace Cli

open Sample

theorem render_lists_call :
    let text := "- CallExpr\n  callee Ident Name=print\n  argument BasicLit Value=1\n" ++
      "  argument CallExpr\n    inner BasicLit Value=2\n- Ident Name=x\n"
    let records := [callRecord, ⟨none, "Ident", "Ident", some "Name=x", ⟨[]⟩⟩]
    render .human records (.empty none) =
        ({ Sink.empty none with written := (Sink.empty none).written ++ Sink.bytesOf text },
          .ok ()) ∧
      text.toList.count '\n' = Record.listWeight records := by
  intro text records
  have htext : String.join ((Record.listPreorder 0 records).map fun entry ↦ entry.2.line entry.1) =
      text := by decide +kernel
  have hne : records ≠ [] := List.cons_ne_nil _ _
  obtain ⟨hrender, -, hcount⟩ := render_lists hne (show (Sink.empty none).room = none from rfl)
  rw [htext] at hrender hcount
  exact ⟨hrender, hcount (by decide +kernel)⟩

end Cli

end TreePattern
