import Mathlib.Data.Set.Function
import TreePattern.Proofs.Pattern.Numbering
import TreePattern.Proofs.Pattern.Resemblance

namespace TreePattern

open Relation

namespace RawPattern

variable {raw : RawPattern} {path met met' ids refs order trace : List PatternId}
  {id q i j k : PatternId} {out : Except CompileError (List PatternId)} {p : Pattern}

/-- The recursive walk in pre-order, from left to right: it meets a slot, then walks through the
slots that this one refers to, and then goes on with the rest of the list. It does not remember what
it has met, and lists a slot each time. -/
inductive Walks (raw : RawPattern) : List PatternId → List PatternId → Prop
  | nil : Walks raw [] []
  | cons {id : PatternId} {rest below others : List PatternId} {node : PatternNode} :
      raw.get? id = some node → Walks raw node.references below → Walks raw rest others →
      Walks raw (id :: rest) (id :: (below ++ others))

theorem Walks.reached (h : Walks raw ids trace) (hi : id ∈ trace) :
    ∃ q ∈ ids, ReflTransGen raw.Refers q id := by
  induction h with
  | nil => cases hi
  | @cons child rest below others node hg _ _ ihb iho =>
    rcases List.mem_cons.mp hi with rfl | hi
    · exact ⟨id, List.mem_cons_self, .refl⟩
    · rcases List.mem_append.mp hi with hi | hi
      · obtain ⟨q, hq, hr⟩ := ihb hi
        exact ⟨child, List.mem_cons_self, .head ⟨node, hg, hq⟩ hr⟩
      · obtain ⟨q, hq, hr⟩ := iho hi
        exact ⟨q, .tail _ hq, hr⟩

theorem Walks.single {below : List PatternId} {node : PatternNode} (hg : raw.get? id = some node)
    (hb : Walks raw node.references below) : Walks raw [id] (id :: below) := by
  have h := Walks.cons hg hb .nil
  rwa [List.append_nil] at h

theorem Walks.append {ids' trace' : List PatternId} (h : Walks raw ids trace)
    (h' : Walks raw ids' trace') : Walks raw (ids ++ ids') (trace ++ trace') := by
  induction h with
  | nil => exact h'
  | cons hg hb _ _ iho =>
    rw [List.cons_append, List.cons_append, List.append_assoc]
    exact .cons hg hb iho

theorem Walks.unique {trace' : List PatternId} (h : Walks raw ids trace)
    (h' : Walks raw ids trace') : trace = trace' := by
  induction h generalizing trace' with
  | nil =>
    cases h'
    rfl
  | cons hg _ _ ihb iho =>
    cases h' with
    | cons hg' hb' ho' =>
      rw [hg] at hg'
      cases hg'
      rw [ihb hb', iho ho']

theorem exists_walks_of_forall (h : ∀ q ∈ ids, ∃ node below,
    raw.get? q = some node ∧ Walks raw node.references below) : ∃ trace, Walks raw ids trace := by
  induction ids with
  | nil => exact ⟨[], .nil⟩
  | cons id rest ih =>
    obtain ⟨node, below, hg, hb⟩ := h id List.mem_cons_self
    obtain ⟨others, ho⟩ := ih fun q hq ↦ h q (.tail _ hq)
    exact ⟨_, .cons hg hb ho⟩

theorem Cleared.exists_walks (h : Cleared raw id) :
    ∃ node below, raw.get? id = some node ∧ Walks raw node.references below := by
  induction h with
  | @intro id refs he _ ih =>
    obtain ⟨node, hg, rfl, -⟩ := enter_eq_ok.mp he
    obtain ⟨below, hb⟩ := exists_walks_of_forall ih
    exact ⟨node, below, hg, hb⟩

def Finished (raw : RawPattern) (path met : List PatternId) : Prop :=
  ∀ id ∈ met, id ∉ path → ∀ q, raw.Refers id q → q ∈ met ∧ q ∉ path

theorem Finished.mem_of_reaches (h : Finished raw path met) (hi : id ∈ met) (hp : id ∉ path)
    (hr : ReflTransGen raw.Refers id q) : q ∈ met := by
  have hboth : q ∈ met ∧ q ∉ path := by
    induction hr with
    | refl => exact ⟨hi, hp⟩
    | tail _ hq ih => exact h _ ih.1 ih.2 _ hq
  exact hboth.1

theorem Finished.cons (h : Finished raw path met) (hm : id ∉ met) :
    Finished raw (id :: path) (id :: met) := by
  intro k hk hp q hq
  rw [List.mem_cons, not_or] at hp
  obtain ⟨hqm, hqp⟩ := h k ((List.mem_cons.mp hk).resolve_left hp.1) hp.2 q hq
  refine ⟨.tail _ hqm, ?_⟩
  rw [List.mem_cons, not_or]
  exact ⟨fun he ↦ hm (he ▸ hqm), hqp⟩

theorem Explores.finished (h : Explores raw path met refs out) (ho : out = .ok met')
    (hf : Finished raw path met) :
    Finished raw path met' ∧ ∀ q ∈ refs, q ∈ met' ∧ q ∉ path := by
  induction h generalizing met' with
  | done path met =>
    cases ho
    exact ⟨hf, by simp⟩
  | cycle | fault | inner => cases ho
  | @old path met rest child out hp hc hx ih =>
    obtain ⟨hf', hr⟩ := ih ho hf
    have hchild : child ∈ met' := (hx.extends ho).suffix.mem hc
    exact ⟨hf', List.forall_mem_cons.mpr ⟨⟨hchild, hp⟩, hr⟩⟩
  | @next path met met₁ rest refs child out hp hc he hx hy ih₁ ih₂ =>
    obtain ⟨hf₁, hr₁⟩ := ih₁ rfl (hf.cons hc)
    have hdone : Finished raw path met₁ := by
      intro id hi hn q hq
      have hq' : q ∈ met₁ ∧ q ∉ child :: path := by
        by_cases hid : id = child
        · subst hid
          exact hr₁ q ((mem_iff_refers he).mpr hq)
        · exact hf₁ id hi (by simp only [List.mem_cons, not_or]; exact ⟨hid, hn⟩) q hq
      exact ⟨hq'.1, fun hm ↦ hq'.2 (.tail _ hm)⟩
    obtain ⟨hf', hr⟩ := ih₂ ho hdone
    have hchild : child ∈ met' :=
      (hy.extends ho).suffix.mem ((hx.extends rfl).suffix.mem List.mem_cons_self)
    exact ⟨hf', List.forall_mem_cons.mpr ⟨⟨hchild, hp⟩, hr⟩⟩

/-- The slots of a list that are new, each at its first place, last to first and in front of the old
ones. -/
def meet (met : List PatternId) (trace : List PatternId) : List PatternId :=
  trace.foldl (fun met id ↦ met.insert id) met

theorem meet_append (met a b : List PatternId) : meet met (a ++ b) = meet (meet met a) b :=
  List.foldl_append

theorem meet_eq_self (h : ∀ id ∈ trace, id ∈ met) : meet met trace = met := by
  induction trace with
  | nil => rfl
  | cons id rest ih =>
    rw [meet, List.foldl_cons, List.insert_of_mem (h id List.mem_cons_self)]
    exact ih fun q hq ↦ h q (.tail _ hq)

/-- A walk that remembers meets the slots that a walk without a memory meets, each once and in the
order of the first meetings. -/
theorem Explores.meet_eq (h : Explores raw path met refs out) (ho : out = .ok met')
    (hf : Finished raw path met) (hw : Walks raw refs trace) : met' = meet met trace := by
  induction h generalizing met' trace with
  | done path met =>
    cases ho
    cases hw
    rfl
  | cycle | fault | inner => cases ho
  | @old path met rest child out hp hc hx ih =>
    cases hw with
    | @cons _ _ below others node hg hb hothers =>
      have hbelow : ∀ id ∈ child :: below, id ∈ met := by
        intro id hi
        rcases List.mem_cons.mp hi with rfl | hi
        · exact hc
        · obtain ⟨q, hq, hr⟩ := hb.reached hi
          exact hf.mem_of_reaches hc hp (.head ⟨node, hg, hq⟩ hr)
      rw [← List.cons_append, meet_append, meet_eq_self hbelow]
      exact ih ho hf hothers
  | @next path met met₁ rest refs child out hp hc he hx hy ih₁ ih₂ =>
    cases hw with
    | @cons _ _ below others node hg hb hothers =>
      obtain ⟨node', hg', rfl, -⟩ := enter_eq_ok.mp he
      rw [hg] at hg'
      cases hg'
      have hone : Explores raw path met [child] (.ok met₁) := .next hp hc he hx (.done path met₁)
      have hinsert : meet met (child :: below) = meet (child :: met) below := by
        rw [meet, List.foldl_cons, List.insert_of_not_mem hc]
        rfl
      rw [← List.cons_append, meet_append, hinsert, ← ih₁ rfl (hf.cons hc) hb]
      exact ih₂ ho (hone.finished rfl hf).1 hothers

def firsts (trace : List PatternId) : List PatternId :=
  (meet [] trace).reverse

theorem firsts_append_singleton (trace : List PatternId) (id : PatternId) :
    firsts (trace ++ [id]) = if id ∈ firsts trace then firsts trace else firsts trace ++ [id] := by
  have hmeet : meet [] (trace ++ [id]) = (meet [] trace).insert id := meet_append [] trace [id]
  unfold firsts
  rw [hmeet]
  by_cases h : id ∈ meet [] trace
  · rw [List.insert_of_mem h, if_pos (List.mem_reverse.mpr h)]
  · rw [List.insert_of_not_mem h, if_neg (mt List.mem_reverse.mp h), List.reverse_cons]

theorem mem_firsts : id ∈ firsts trace ↔ id ∈ trace := by
  induction trace using List.reverseRecOn with
  | nil => rfl
  | append_singleton trace last ih =>
    rw [firsts_append_singleton, List.mem_append, ← ih, List.mem_singleton]
    split
    · next h => exact ⟨.inl, fun hi ↦ hi.elim (fun hm ↦ hm) fun he ↦ he ▸ h⟩
    · rw [List.mem_append, List.mem_singleton]

theorem idxOf_firsts_lt_iff (hi : i ∈ trace) (hj : j ∈ trace) :
    (firsts trace).idxOf i < (firsts trace).idxOf j ↔ trace.idxOf i < trace.idxOf j := by
  induction trace using List.reverseRecOn with
  | nil => cases hi
  | append_singleton trace last ih =>
    -- A slot that comes last for the first time stands behind all others in both lists.
    have hplace : ∀ k ∈ trace, (firsts (trace ++ [last])).idxOf k = (firsts trace).idxOf k ∧
        (trace ++ [last]).idxOf k = trace.idxOf k ∧
        (firsts trace).idxOf k < (firsts trace).length ∧ trace.idxOf k < trace.length := by
      intro k hk
      have hf : k ∈ firsts trace := mem_firsts.mpr hk
      refine ⟨?_, List.idxOf_append_of_mem hk, List.idxOf_lt_length_iff.mpr hf,
        List.idxOf_lt_length_iff.mpr hk⟩
      rw [firsts_append_singleton]
      split
      · rfl
      · exact List.idxOf_append_of_mem hf
    have hlast : last ∉ trace → (firsts (trace ++ [last])).idxOf last = (firsts trace).length ∧
        (trace ++ [last]).idxOf last = trace.length := by
      intro hn
      have hf : last ∉ firsts trace := mt mem_firsts.mp hn
      rw [firsts_append_singleton, if_neg hf, List.idxOf_append_of_notMem hf,
        List.idxOf_append_of_notMem hn]
      simp
    by_cases hit : i ∈ trace
    · obtain ⟨hi₁, hi₂, hi₃, hi₄⟩ := hplace i hit
      by_cases hjt : j ∈ trace
      · obtain ⟨hj₁, hj₂, -⟩ := hplace j hjt
        rw [hi₁, hi₂, hj₁, hj₂]
        exact ih hit hjt
      · obtain rfl : j = last := by simpa [hjt] using hj
        obtain ⟨hj₁, hj₂⟩ := hlast hjt
        omega
    · obtain rfl : i = last := by simpa [hit] using hi
      obtain ⟨hi₁, hi₂⟩ := hlast hit
      by_cases hjt : j ∈ trace
      · obtain ⟨hj₁, hj₂, hj₃, hj₄⟩ := hplace j hjt
        omega
      · obtain rfl : j = i := by simpa [hjt] using hj
        omega

theorem discoveryOrder_eq_firsts (h : raw.discoveryOrder = .ok order) :
    ∃ trace, Walks raw [raw.root] trace ∧ order = firsts trace := by
  obtain ⟨node, below, hg, hb⟩ := (discoveryOrder_eq_ok_iff.mp ⟨order, h⟩).exists_walks
  rcases discoveryOrder_cases raw with ⟨e, he, hd⟩ | ⟨refs, he, ⟨e, hx, hd⟩ | ⟨met, hx, hd⟩⟩
  · rw [h] at hd
    cases hd
  · rw [h] at hd
    cases hd
  · rw [h] at hd
    cases hd
    obtain ⟨node', hg', rfl, -⟩ := enter_eq_ok.mp he
    rw [hg] at hg'
    cases hg'
    have hf : Finished raw [raw.root] [raw.root] := fun id hi hn ↦ absurd hi hn
    refine ⟨raw.root :: below, .single hg hb, ?_⟩
    rw [hx.meet_eq rfl hf hb]
    rfl

theorem Lists.mem_iff (hl : Lists raw order) : id ∈ order ↔ raw.Reachable id := by
  refine ⟨hl.reached id, fun hr ↦ ?_⟩
  induction hr with
  | refl => exact List.mem_of_mem_head? hl.root
  | tail _ hq ih =>
    obtain ⟨refs, he, hrefs⟩ := hl.closed _ ih
    exact hrefs _ ((mem_iff_refers he).mpr hq)

theorem Lists.idxOf_root (hl : Lists raw order) : order.idxOf raw.root = Pattern.root := by
  have hroot := hl.root
  cases order with
  | nil => cases hroot
  | cons first rest =>
    cases hroot
    exact List.idxOf_cons_self

theorem Lists.bijOn (hl : Lists raw order) :
    Set.BijOn order.idxOf {id | raw.Reachable id} (Set.Iio order.length) := by
  refine ⟨fun i hi ↦ ?_, fun i hi j hj hij ↦ ?_, fun k hk ↦ ?_⟩
  · exact List.idxOf_lt_length_iff.mpr (hl.mem_iff.mpr hi)
  · exact (List.idxOf_inj (hl.mem_iff.mpr hi)).mp hij
  · have hk : k < order.length := hk
    exact ⟨order[k], hl.mem_iff.mp (List.getElem_mem hk), hl.nodup.idxOf_getElem k hk⟩

/-- The rule at the place of a slot is the node of the slot with the slots it refers to replaced by
their places. -/
theorem Lists.sameSlots (hl : Lists raw order)
    (hget : ∀ k, p.get? k = order[k]?.bind fun id ↦ (raw.get? id).map (PatternNode.map order.idxOf))
    (hi : raw.Reachable i) :
    SameSlots raw.get? p.get? (fun j k ↦ raw.Reachable j ∧ k = order.idxOf j) i
      (order.idxOf i) := by
  obtain ⟨node, hg, -⟩ := hl.defined (hl.mem_iff.mpr hi)
  refine ⟨node, node.map order.idxOf, hg, ?_, PatternNode.rel_map fun j hj ↦ ⟨?_, rfl⟩⟩
  · rw [hget, List.getElem?_idxOf (hl.mem_iff.mpr hi), Option.bind_some, hg, Option.map_some]
  · exact hi.tail ⟨node, hg, hj⟩

/-- What a pattern unfolds to stays the same when it is compiled. -/
theorem compile_bisimilar (h : raw.compile = .ok p) :
    Bisimilar raw.get? p.get? raw.root Pattern.root := by
  obtain ⟨order, -, hl, -, hget⟩ := compile_eq_ok h
  refine ⟨fun j k ↦ raw.Reachable j ∧ k = order.idxOf j, ⟨.refl, hl.idxOf_root.symm⟩, ?_⟩
  rintro i _ ⟨hi, rfl⟩
  exact hl.sameSlots hget hi

/-- Compiling is a bijection from the slots that can be reached to the first numbers, the root being
number 0. It keeps every node but for the numbers it refers to, which are replaced by their images,
and it numbers the slots in the order in which the recursive walk from the root first meets them. -/
theorem compile_renumbers (compiled : raw.compile = .ok p) :
    ∃ (f : PatternId → PatternId) (trace : List PatternId),
      Set.BijOn f {id | raw.Reachable id} (Set.Iio p.size) ∧ f raw.root = Pattern.root ∧
      (∀ i, raw.Reachable i →
        SameSlots raw.get? p.get? (fun j k ↦ raw.Reachable j ∧ k = f j) i (f i)) ∧
      raw.Walks [raw.root] trace ∧ (∀ i, i ∈ trace ↔ raw.Reachable i) ∧
      ∀ i j, raw.Reachable i → raw.Reachable j →
        (f i < f j ↔ trace.idxOf i < trace.idxOf j) := by
  obtain ⟨order, hd, hl, hsize, hget⟩ := compile_eq_ok compiled
  obtain ⟨trace, hw, rfl⟩ := discoveryOrder_eq_firsts hd
  have hmem : ∀ i, i ∈ trace ↔ raw.Reachable i := fun i ↦ mem_firsts.symm.trans hl.mem_iff
  refine ⟨(firsts trace).idxOf, trace, hsize ▸ hl.bijOn, hl.idxOf_root,
    fun i hi ↦ hl.sameSlots hget hi, hw, hmem, fun i j hi hj ↦ ?_⟩
  exact idxOf_firsts_lt_iff ((hmem i).mpr hi) ((hmem j).mpr hj)

end RawPattern

namespace Sample

def detourPattern : RawPattern :=
  let (ident, b) := Builder.empty.add ⟨some "ident", .literal ⟨some "Ident", []⟩⟩
  let (_, b) := b.reserve
  let (detour, b) := b.add ⟨none, .search ⟨[ident], true, .anyOf⟩⟩
  let (root, b) := b.add ⟨none, .search ⟨[detour, ident], false, .allOf⟩⟩
  b.build root

def detourRules : Pattern :=
  ⟨#[⟨none, .search ⟨[1, 2], false, .allOf⟩⟩, ⟨none, .search ⟨[2], true, .anyOf⟩⟩,
    ⟨some "ident", .literal ⟨some "Ident", []⟩⟩]⟩

theorem compile_detourPattern : detourPattern.compile = .ok detourRules := by
  have ho : detourPattern.discoveryOrder = .ok [3, 2, 0] := by
    change RawPattern.discover _ [3] [⟨3, [2, 0]⟩] = _
    rw [RawPattern.discover_new (by decide) (by decide) rfl]
    change RawPattern.discover _ [2, 3] [⟨2, [0]⟩, ⟨3, [0]⟩] = _
    rw [RawPattern.discover_new (by decide) (by decide) rfl]
    change RawPattern.discover _ [0, 2, 3] [⟨0, []⟩, ⟨2, []⟩, ⟨3, [0]⟩] = _
    rw [RawPattern.discover, RawPattern.discover, RawPattern.discover_old (by decide) (by decide),
      RawPattern.discover, RawPattern.discover]
    rfl
  rw [RawPattern.compile, ho]
  rfl

theorem walks_detourPattern : detourPattern.Walks [3] [3, 2, 0, 0] := by
  have hident : detourPattern.Walks [0] [0] := .single rfl .nil
  have hboth : detourPattern.Walks [2, 0] ([2, 0] ++ [0]) := .cons rfl hident hident
  exact .single rfl hboth

end Sample

theorem RawPattern.compile_renumbers_detour :
    Sample.detourPattern.compile = .ok Sample.detourRules ∧
      ∃ f : PatternId → PatternId,
        Set.BijOn f {id | Sample.detourPattern.Reachable id} (Set.Iio 3) ∧ f 3 = 0 ∧ f 2 < f 0 := by
  obtain ⟨f, trace, hf, hroot, -, hw, hmem, hlt⟩ := compile_renumbers Sample.compile_detourPattern
  obtain rfl := hw.unique Sample.walks_detourPattern
  refine ⟨Sample.compile_detourPattern, f, hf, hroot, ?_⟩
  exact (hlt 2 0 ((hmem 2).mp (by decide)) ((hmem 0).mp (by decide))).mpr (by decide)

end TreePattern
